import EarlyBoot.Proofs.Elf.Assembly
import EarlyBoot.Proofs.Elf.Decoding
import EarlyBoot.Proofs.Text

/-!
# Reading an assembled file

Whatever symbols a file is assembled from, reading it gives them back.  Each record
is the slice at its offset and is decoded to the numbers that it was made of, and
each name ends at its own zero byte, since it holds no other.
-/

namespace EarlyBoot
namespace Elf

open Format

section Fields

theorem number_littleEndian {width value : Nat} (fits : value < 256 ^ width) :
    number (littleEndian width value) = value := by
  induction width generalizing value with
  | zero =>
      rw [Nat.pow_zero, Nat.lt_one_iff] at fits
      rw [fits]
      rfl
  | succ width ih =>
      have higher : value / 256 < 256 ^ width := by
        rw [Nat.pow_succ] at fits
        exact Nat.div_lt_of_lt_mul (by omega)
      have lowest : (UInt8.ofNat value).toNat = value % 256 := UInt8.toNat_ofNat'
      rw [littleEndian, number_cons, ih higher, lowest]
      exact Nat.mod_add_div value 256

theorem field_append_of_length_le {front record : List UInt8} {position : Nat}
    (behind : front.length ≤ position) (width : Nat) :
    field (front ++ record) position width = field record (position - front.length) width := by
  rw [field, field, List.drop_append, List.drop_eq_nil_of_le behind, List.nil_append]

theorem field_fieldBytes_cons {width value : Nat} (fits : value < 256 ^ width)
    (fields : List (Nat × Nat)) :
    field (fieldBytes ((width, value) :: fields)) 0 width = value := by
  have starts : (fieldBytes ((width, value) :: fields)).take width = littleEndian width value :=
    List.take_left' (length_littleEndian width value)
  rw [field, List.drop_zero, starts, number_littleEndian fits]

theorem field_fieldBytes_cons_of_le {width position : Nat} (behind : width ≤ position)
    (value : Nat) (fields : List (Nat × Nat)) (other : Nat) :
    field (fieldBytes ((width, value) :: fields)) position other =
      field (fieldBytes fields) (position - width) other := by
  have whole : fieldBytes ((width, value) :: fields) =
      littleEndian width value ++ fieldBytes fields := rfl
  have length := length_littleEndian width value
  rw [whole, field_append_of_length_le (by omega), length]

end Fields

section Records

/-- The numbers of a section header fit into their fields. -/
structure SectionHeader.Fits (header : SectionHeader) : Prop where
  name : header.name < 2 ^ 32
  kind : header.kind < 2 ^ 32
  offset : header.offset < 2 ^ 64
  size : header.size < 2 ^ 64
  link : header.link < 2 ^ 32
  entrySize : header.entrySize < 2 ^ 64

/-- The numbers of an entry fit into their fields. -/
structure SymbolEntry.Fits (entry : SymbolEntry) : Prop where
  name : entry.name < 2 ^ 32
  info : entry.info < 2 ^ 8
  sectionIndex : entry.sectionIndex < 2 ^ 16
  value : entry.value < 2 ^ 64

theorem SectionHeader.ofRecord_record {header : SectionHeader} (fits : header.Fits) :
    ofRecord header.record = header := by
  rcases header with ⟨name, kind, offset, size, link, entrySize⟩
  rcases fits with ⟨nameFits, kindFits, offsetFits, sizeFits, linkFits, entrySizeFits⟩
  simp only [record, ofRecord, mk.injEq]
  refine ⟨?_, ?_, ?_, ?_, ?_, ?_⟩
  · exact field_fieldBytes_cons nameFits _
  all_goals simp only [field_fieldBytes_cons_of_le, Nat.reduceLeDiff, Nat.reduceSub]
  · exact field_fieldBytes_cons kindFits _
  · exact field_fieldBytes_cons offsetFits _
  · exact field_fieldBytes_cons sizeFits _
  · exact field_fieldBytes_cons linkFits _
  · exact field_fieldBytes_cons entrySizeFits _

theorem SymbolEntry.ofRecord_record {entry : SymbolEntry} (fits : entry.Fits) :
    ofRecord entry.record = entry := by
  rcases entry with ⟨name, info, sectionIndex, value⟩
  rcases fits with ⟨nameFits, infoFits, sectionIndexFits, valueFits⟩
  simp only [record, ofRecord, mk.injEq]
  refine ⟨?_, ?_, ?_, ?_⟩
  · exact field_fieldBytes_cons nameFits _
  all_goals simp only [field_fieldBytes_cons_of_le, Nat.reduceLeDiff, Nat.reduceSub]
  · exact field_fieldBytes_cons infoFits _
  · exact field_fieldBytes_cons sectionIndexFits _
  · exact field_fieldBytes_cons valueFits _

end Records

section Slices

variable {data : ByteArray}

/-- A part of the data is the slice behind the parts before it. -/
theorem slice?_of_toList_eq {front record back : List UInt8}
    (whole : data.data.toList = front ++ (record ++ back)) :
    slice? data front.length record.length = some record := by
  have size := congrArg List.length whole
  simp only [Array.length_toList, ByteArray.size_data, List.length_append] at size
  rw [slice?_eq_some_iff, whole, List.drop_left, List.take_left]
  exact ⟨by omega, rfl⟩

/-- The records of a table follow one another. -/
theorem slice?_of_flatMap {α : Type} {record : α → List UInt8} {size : Nat}
    (recordSize : ∀ element, (record element).length = size) {front back : List UInt8}
    {elements : List α} (whole : data.data.toList = front ++ (elements.flatMap record ++ back))
    {index : Nat} {element : α} (here : elements[index]? = some element) :
    slice? data (front.length + size * index) size = some (record element) := by
  obtain ⟨inside, -⟩ := List.getElem?_eq_some_iff.mp here
  have split := congrArg (List.flatMap record) (eq_take_append_cons_drop here)
  rw [List.flatMap_append, List.flatMap_cons] at split
  have regrouped : data.data.toList = (front ++ (elements.take index).flatMap record) ++
      (record element ++ ((elements.drop (index + 1)).flatMap record ++ back)) := by
    rw [whole, split]
    simp only [List.append_assoc]
  have found := slice?_of_toList_eq regrouped
  rwa [List.length_append, length_flatMap_of_length_eq recordSize, recordSize,
    List.length_take_of_le (Nat.le_of_lt inside)] at found

/-- A section header is decoded from its slice. -/
theorem sectionAt_of_slice? {index : Nat} {header : SectionHeader} (fits : header.Fits)
    (found : slice? data (sectionTable data + 64 * index) 64 = some header.record) :
    sectionAt data index = header := by
  rw [← SectionHeader.ofRecord_record fits]
  simp [SectionHeader.ofRecord, sectionAt, field_eq_numberAt found]

theorem entryAt_of_slice? {symbols : SectionHeader} {index : Nat} {entry : SymbolEntry}
    (fits : entry.Fits)
    (found : slice? data (symbols.offset + 24 * index) 24 = some entry.record) :
    entryAt data symbols index = entry := by
  rw [← SymbolEntry.ofRecord_record fits]
  simp [SymbolEntry.ofRecord, entryAt, field_eq_numberAt found]

end Slices

section Strings

theorem zero_ne_ofNat {value : Nat} (positive : 0 < value) (small : value < 256) :
    (0 : UInt8) ≠ UInt8.ofNat value := by
  intro isZero
  have sameValue := congrArg UInt8.toNat isZero
  rw [UInt8.toNat_ofNat_of_lt' small, UInt8.toNat_zero] at sameValue
  omega

/-- Only the zero character has a zero byte. -/
theorem zero_not_mem_utf8EncodeChar {character : Char} (notZero : character ≠ '\x00') :
    0 ∉ String.utf8EncodeChar character := by
  have positive : character.val.toNat ≠ 0 := by
    intro isZero
    apply notZero
    apply Char.ext
    exact UInt32.toNat_inj.mp isZero
  unfold String.utf8EncodeChar
  dsimp only
  split
  · simp only [List.mem_singleton]
    exact zero_ne_ofNat (by omega) (by omega)
  split
  · simp only [List.mem_cons, List.not_mem_nil, or_false, not_or]
    exact ⟨zero_ne_ofNat (by omega) (by omega), zero_ne_ofNat (by omega) (by omega)⟩
  split
  · simp only [List.mem_cons, List.not_mem_nil, or_false, not_or]
    exact ⟨zero_ne_ofNat (by omega) (by omega), zero_ne_ofNat (by omega) (by omega),
      zero_ne_ofNat (by omega) (by omega)⟩
  · simp only [List.mem_cons, List.not_mem_nil, or_false, not_or]
    exact ⟨zero_ne_ofNat (by omega) (by omega), zero_ne_ofNat (by omega) (by omega),
      zero_ne_ofNat (by omega) (by omega), zero_ne_ofNat (by omega) (by omega)⟩

theorem zero_not_mem_toUTF8 {name : String} (plain : '\x00' ∉ name.toList) :
    0 ∉ name.toUTF8.data.toList := by
  rw [Text.toList_data_toUTF8, Text.mem_bytes]
  rintro ⟨character, member, isZero⟩
  have notZero : character ≠ '\x00' := by
    rintro rfl
    exact plain member
  exact zero_not_mem_utf8EncodeChar notZero isZero

theorem fromUTF8?_toUTF8 (name : String) : String.fromUTF8? name.toUTF8 = some name :=
  dif_pos name.isValidUTF8

end Strings

namespace Assembly

section Tables

variable {data : ByteArray} {table : SectionHeader} {front back : List UInt8}
  {before after : List String} {name : String}

/-- A name of a string table is read from where the names before it end. -/
theorem stringAt?_stringTable
    (whole : data.data.toList = front ++ (stringTable (before ++ name :: after) ++ back))
    (offset : table.offset = front.length)
    (size : table.size = (stringTable (before ++ name :: after)).length)
    (plain : '\x00' ∉ name.toList) :
    stringAt? data table (stringTable before).length = some name := by
  have fits := congrArg List.length whole
  simp only [Array.length_toList, ByteArray.size_data, List.length_append] at fits
  have parts := congrArg List.length (stringTable_split before after name)
  rw [List.length_append] at parts
  have rest : bytesFrom data table (stringTable before).length =
      name.toUTF8.data.toList ++ 0 :: joinedNames after := by
    have regrouped : data.data.toList = (front ++ stringTable before) ++
        ((name.toUTF8.data.toList ++ 0 :: joinedNames after) ++ back) := by
      rw [whole, stringTable_split]
      simp only [List.append_assoc]
    rw [bytesFrom, offset, regrouped, ← List.length_append, List.drop_left]
    exact List.take_left' (by omega)
  have upTo : (bytesFrom data table (stringTable before).length).takeWhile (· ≠ 0) =
      name.toUTF8.data.toList := by
    rw [rest, List.takeWhile_append_of_pos]
    · simp
    · intro byte member
      apply decide_eq_true
      rintro rfl
      exact zero_not_mem_toUTF8 plain member
  have terminated : 0 ∈ bytesFrom data table (stringTable before).length := by
    rw [rest]
    exact List.mem_append_right _ List.mem_cons_self
  have inside : (stringTable before).length < table.size := by
    rw [size, parts, List.length_append, List.length_cons]
    omega
  have isUTF8 : name.toUTF8.data.toList.toByteArray = name.toUTF8 := by
    apply ByteArray.ext
    simp
  rw [stringAt?, if_pos ⟨inside, by omega, terminated⟩, upTo, isUTF8, fromUTF8?_toUTF8]

end Tables

section Layout

variable {symbols : List Source}

theorem slice?_fileHeader (symbols : List Source) :
    slice? (assemble symbols) 0 64 = some (fileHeader symbols) := by
  have whole : (assemble symbols).data.toList = [] ++ (fileHeader symbols ++
      (stringTable sectionLabels ++ stringBytes symbols ++ symbolTableBytes symbols ++
        (sectionHeaders symbols).flatMap SectionHeader.record)) := by
    rw [toList_assemble, contents]
    simp only [List.nil_append, List.append_assoc]
  have found := slice?_of_toList_eq whole
  rwa [length_fileHeader] at found

theorem slice?_magic_assemble (symbols : List Source) :
    slice? (assemble symbols) 0 magic.length = some magic := by
  obtain ⟨back, whole⟩ : ∃ back, (assemble symbols).data.toList = [] ++ (magic ++ back) := by
    rw [toList_assemble, contents, fileHeader]
    simp only [List.nil_append, List.append_assoc, List.append_cancel_left_eq, exists_eq']
  have found := slice?_of_toList_eq whole
  rwa [List.length_nil] at found

/-- The file header says where the five section headers are and that the last one
holds their names. -/
theorem header_assemble (assemblable : Assemblable symbols) :
    numberAt (assemble symbols) 4 1 = 2 ∧ numberAt (assemble symbols) 5 1 = 1 ∧
      sectionTable (assemble symbols) = sectionsOffset symbols ∧
      numberAt (assemble symbols) 58 2 = 64 ∧ sectionCount (assemble symbols) = 5 ∧
      sectionNames (assemble symbols) = 4 := by
  have atField : ∀ position width, position + width ≤ 64 →
      numberAt (assemble symbols) position width =
        field (fileHeader symbols) position width := by
    intro position width inside
    have fromRecord := field_eq_numberAt (slice?_fileHeader symbols) inside
    rwa [Nat.zero_add, eq_comm] at fromRecord
  have offset : sectionsOffset symbols < 256 ^ 8 := by
    have small := size_assemble_lt assemblable
    rw [size_assemble] at small
    omega
  have length : magic.length = 4 := rfl
  rw [sectionTable, sectionCount, sectionNames, atField 4 1 (by decide),
    atField 5 1 (by decide), atField 40 8 (by decide), atField 58 2 (by decide),
    atField 60 2 (by decide), atField 62 2 (by decide), fileHeader]
  simp only [field_append_of_length_le, length, field_fieldBytes_cons_of_le,
    Nat.reduceLeDiff, Nat.reduceSub]
  exact ⟨field_fieldBytes_cons (by decide) _, field_fieldBytes_cons (by decide) _,
    field_fieldBytes_cons offset _, field_fieldBytes_cons (by decide) _,
    field_fieldBytes_cons (by decide) _, field_fieldBytes_cons (by decide) _⟩

theorem sectionTable_assemble (assemblable : Assemblable symbols) :
    sectionTable (assemble symbols) = sectionsOffset symbols :=
  (header_assemble assemblable).2.2.1

theorem sectionCount_assemble (assemblable : Assemblable symbols) :
    sectionCount (assemble symbols) = 5 :=
  (header_assemble assemblable).2.2.2.2.1

theorem sectionNames_assemble (assemblable : Assemblable symbols) :
    sectionNames (assemble symbols) = 4 :=
  (header_assemble assemblable).2.2.2.2.2

theorem fits_of_mem_sectionHeaders (assemblable : Assemblable symbols)
    {header : SectionHeader} (member : header ∈ sectionHeaders symbols) : header.Fits := by
  have small := size_assemble_lt assemblable
  have labels : (stringTable sectionLabels).length = 33 := by decide
  have length := length_symbolTableBytes symbols
  rw [size_assemble, sectionsOffset] at small
  have offset := sectionsOffset_eq symbols
  rw [sectionsOffset] at offset
  simp only [sectionHeaders, List.mem_cons, List.not_mem_nil, or_false] at member
  rcases member with rfl | rfl | rfl | rfl | rfl
  · constructor <;> decide
  · constructor <;> decide
  · constructor <;> simp only [symbolTableHeader] <;> omega
  · constructor <;> simp only [stringsHeader, stringsOffset, labels, headerSize] <;> omega
  · constructor <;> decide

theorem slice?_sectionHeaders {index : Nat} {header : SectionHeader}
    (here : (sectionHeaders symbols)[index]? = some header) :
    slice? (assemble symbols) (sectionsOffset symbols + 64 * index) 64 =
      some header.record := by
  have whole : (assemble symbols).data.toList =
      (fileHeader symbols ++ stringTable sectionLabels ++ stringBytes symbols ++
        symbolTableBytes symbols) ++
          ((sectionHeaders symbols).flatMap SectionHeader.record ++ []) := by
    rw [toList_assemble, contents, List.append_nil]
  have found := slice?_of_flatMap SectionHeader.length_record whole here
  rwa [length_before_sections] at found

theorem sectionAt_assemble (assemblable : Assemblable symbols) {index : Nat}
    {header : SectionHeader} (here : (sectionHeaders symbols)[index]? = some header) :
    sectionAt (assemble symbols) index = header := by
  apply sectionAt_of_slice? (fits_of_mem_sectionHeaders assemblable (List.mem_of_getElem? here))
  rw [sectionTable_assemble assemblable]
  exact slice?_sectionHeaders here

theorem map_sectionAt_assemble (assemblable : Assemblable symbols) :
    (List.range (sectionCount (assemble symbols))).map (sectionAt (assemble symbols)) =
      sectionHeaders symbols := by
  apply List.ext_getElem
  · rw [List.length_map, List.length_range, sectionCount_assemble assemblable]
    rfl
  · intro index _ inside
    rw [List.getElem_map, List.getElem_range]
    exact sectionAt_assemble assemblable (List.getElem?_eq_getElem inside)

theorem located_assemble (assemblable : Assemblable symbols) :
    Located (assemble symbols) (symbolTableHeader symbols) where
  header_inside := by
    rw [size_assemble, sectionsOffset_eq]
    omega
  magic := slice?_magic_iff.mp (slice?_magic_assemble symbols)
  fileClass := (header_assemble assemblable).1
  encoding := (header_assemble assemblable).2.1
  sectionEntrySize := (header_assemble assemblable).2.2.2.1
  sections_inside := by
    intro index inside
    rw [sectionCount_assemble assemblable] at inside
    rw [sectionTable_assemble assemblable, size_assemble]
    omega
  symbolTable := by
    rw [symbolTable?, map_sectionAt_assemble assemblable]
    rfl
  entrySize := rfl
  strings := by
    rw [sectionCount_assemble assemblable]
    exact (by decide : 3 < 5)

/-- The name of a section is read from behind the names before it. -/
theorem sectionName?_assemble (assemblable : Assemblable symbols) {index : Nat}
    {header : SectionHeader} (here : (sectionHeaders symbols)[index]? = some header)
    {earlier later : List String} {name : String}
    (labels : sectionLabels = earlier ++ name :: later)
    (offset : header.name = (stringTable earlier).length) (plain : '\x00' ∉ name.toList) :
    sectionName? (assemble symbols) index = some name := by
  have whole : (assemble symbols).data.toList =
      fileHeader symbols ++ (stringTable (earlier ++ name :: later) ++
        (stringBytes symbols ++ symbolTableBytes symbols ++
          (sectionHeaders symbols).flatMap SectionHeader.record)) := by
    rw [toList_assemble, contents, labels]
    simp only [List.append_assoc]
  have names : sectionAt (assemble symbols) 4 = sectionNamesHeader :=
    sectionAt_assemble assemblable rfl
  rw [sectionName?, sectionNames_assemble assemblable, names,
    sectionAt_assemble assemblable here, offset]
  apply stringAt?_stringTable whole
  · rw [length_fileHeader]
    rfl
  · rw [sectionNamesHeader, labels]
  · exact plain

theorem exists_sectionName?_assemble (assemblable : Assemblable symbols) {index : Nat}
    (positive : 0 < index) (small : index < 5) :
    ∃ name, sectionName? (assemble symbols) index = some name ∧
      placeOf index = .named name := by
  have cases : index = 1 ∨ index = 2 ∨ index = 3 ∨ index = 4 := by omega
  have first : sectionLabels = [] ++ ".text" :: [".symtab", ".strtab", ".shstrtab"] := rfl
  have second : sectionLabels = [".text"] ++ ".symtab" :: [".strtab", ".shstrtab"] := rfl
  have third : sectionLabels = [".text", ".symtab"] ++ ".strtab" :: [".shstrtab"] := rfl
  have last : sectionLabels = [".text", ".symtab", ".strtab"] ++ ".shstrtab" :: [] := rfl
  have atFirst : 1 = (stringTable []).length := by decide
  have atSecond : 7 = (stringTable [".text"]).length := by decide
  have atThird : 15 = (stringTable [".text", ".symtab"]).length := by decide
  have atLast : 23 = (stringTable [".text", ".symtab", ".strtab"]).length := by decide
  rcases cases with rfl | rfl | rfl | rfl
  · exact ⟨_, sectionName?_assemble assemblable rfl first atFirst (by decide), rfl⟩
  · exact ⟨_, sectionName?_assemble assemblable rfl second atSecond (by decide), rfl⟩
  · exact ⟨_, sectionName?_assemble assemblable rfl third atThird (by decide), rfl⟩
  · exact ⟨_, sectionName?_assemble assemblable rfl last atLast (by decide), rfl⟩

theorem placeAt_assemble (assemblable : Assemblable symbols) {index : Nat}
    (positive : 0 < index) (hasMeaning : index < 5 ∨ 0xFF00 ≤ index) :
    PlaceReadable (assemble symbols) index ∧
      placeAt (assemble symbols) index = placeOf index := by
  rcases hasMeaning with small | reserved
  · obtain ⟨name, isName, isPlace⟩ := exists_sectionName?_assemble assemblable positive small
    constructor
    · intro _
      rw [sectionCount_assemble assemblable, isName]
      exact ⟨small, fun _ => rfl⟩
    · have notCommon : index ≠ 0xFFF2 := by omega
      have notReserved : ¬ 0xFF00 ≤ index := by omega
      have hasNames : sectionNames (assemble symbols) < sectionCount (assemble symbols) := by
        rw [sectionNames_assemble assemblable, sectionCount_assemble assemblable]
        decide
      rw [placeAt, if_neg notCommon, if_neg notReserved, if_pos hasNames, isName, isPlace]
      rfl
  · constructor
    · intro small
      omega
    · rw [placeAt, placeOf, if_pos reserved, if_pos reserved]

section Symbols

variable {index : Nat} {symbol : Source}

theorem slice?_entries {entry : SymbolEntry} (here : (entries symbols)[index]? = some entry) :
    slice? (assemble symbols) (symbolsOffset symbols + 24 * index) 24 =
      some entry.record := by
  have whole : (assemble symbols).data.toList =
      (fileHeader symbols ++ stringTable sectionLabels ++ stringBytes symbols) ++
        ((entries symbols).flatMap SymbolEntry.record ++
          (sectionHeaders symbols).flatMap SectionHeader.record) := by
    rw [toList_assemble, contents, List.append_assoc _ (symbolTableBytes symbols)]
    rfl
  have found := slice?_of_flatMap SymbolEntry.length_record whole here
  rwa [length_before_symbols] at found

theorem entryAt_assemble (assemblable : Assemblable symbols)
    (here : symbols[index]? = some symbol) :
    entryAt (assemble symbols) (symbolTableHeader symbols) (index + 1) =
      symbol.entry (stringTable ((symbols.take index).map Source.name)).length := by
  have nameFits : (stringTable ((symbols.take index).map Source.name)).length < 2 ^ 32 := by
    have names := assemblable.strings
    rw [stringBytes_split here, stringTable_split, List.length_append] at names
    exact Nat.lt_of_le_of_lt (Nat.le_add_right _ _) names
  apply entryAt_of_slice?
  · exact ⟨nameFits, UInt8.toNat_lt _, UInt16.toNat_lt _, UInt64.toNat_lt _⟩
  · exact slice?_entries (getElem?_entries here)

theorem nameAt?_assemble (assemblable : Assemblable symbols)
    (here : symbols[index]? = some symbol) :
    nameAt? (assemble symbols) (symbolTableHeader symbols) (index + 1) =
      some symbol.name := by
  have whole : (assemble symbols).data.toList =
      (fileHeader symbols ++ stringTable sectionLabels) ++
        (stringTable ((symbols.take index).map Source.name ++
            symbol.name :: (symbols.drop (index + 1)).map Source.name) ++
          (symbolTableBytes symbols ++
            (sectionHeaders symbols).flatMap SectionHeader.record)) := by
    rw [toList_assemble, contents, stringBytes_split here]
    simp only [List.append_assoc]
  have strings : sectionAt (assemble symbols) (symbolTableHeader symbols).link =
      stringsHeader symbols :=
    sectionAt_assemble assemblable rfl
  rw [nameAt?, strings, entryAt_assemble assemblable here]
  apply stringAt?_stringTable whole
  · rw [length_before_strings]
    rfl
  · rw [stringsHeader, stringBytes_split here]
  · exact assemblable.names symbol (List.mem_of_getElem? here)

theorem entryReadable_assemble (assemblable : Assemblable symbols)
    (here : symbols[index]? = some symbol) :
    EntryReadable (assemble symbols) (symbolTableHeader symbols) (index + 1) where
  inside := (slice?_eq_some_iff.mp (slice?_entries (getElem?_entries here))).1
  named := by
    intro _
    rw [nameAt?_assemble assemblable here]
    rfl
  placed := by
    intro _ _ positive
    rw [entryAt_assemble assemblable here] at positive ⊢
    have hasMeaning := assemblable.sections symbol (List.mem_of_getElem? here)
    exact (placeAt_assemble assemblable positive hasMeaning).1

/-- The file describes each symbol as it was listed. -/
theorem symbolAt?_assemble (assemblable : Assemblable symbols)
    (here : symbols[index]? = some symbol) :
    symbolAt? (assemble symbols) (symbolTableHeader symbols) (index + 1) =
      symbol.image? := by
  unfold symbolAt? definitionAt? referenceAt? Source.image? Source.binding
  rw [entryAt_assemble assemblable here, nameAt?_assemble assemblable here]
  simp only [Option.bind_some, Source.entry]
  by_cases isLocal : symbol.info.toNat / 16 = 0
  · simp [isLocal]
  by_cases noName : symbol.name = ""
  · simp [noName]
  by_cases undefined : symbol.sectionIndex.toNat = 0
  · by_cases isGlobal : symbol.info.toNat / 16 = 1
    · simp [noName, undefined, isGlobal]
    · simp [noName, undefined, isGlobal]
  · have hasMeaning := assemblable.sections symbol (List.mem_of_getElem? here)
    have isPlace := (placeAt_assemble assemblable (Nat.pos_of_ne_zero undefined) hasMeaning).2
    simp [isLocal, noName, undefined, isPlace]
    rfl

/-- Going through the entries of a table is going through the elements that they
describe. -/
theorem filterMap_range'_eq {α β : Type} {elements : List α} {start : Nat}
    {read : Nat → Option β} {value : α → Option β}
    (agree : ∀ index element, elements[index]? = some element →
      read (index + start) = value element) :
    (List.range' start elements.length).filterMap read = elements.filterMap value := by
  induction elements generalizing start with
  | nil => rfl
  | cons element elements ih =>
      have first : read start = value element := by
        have there := agree 0 element rfl
        rwa [Nat.zero_add] at there
      have later : (List.range' (start + 1) elements.length).filterMap read =
          elements.filterMap value := by
        apply ih
        intro index other here
        rw [← agree (index + 1) other here, Nat.add_right_comm, Nat.add_assoc]
      rw [List.length_cons, List.range'_succ, List.filterMap_cons, List.filterMap_cons, first,
        later]

theorem readable_assemble (assemblable : Assemblable symbols) :
    Readable (assemble symbols) (symbolTableHeader symbols) where
  toLocated := located_assemble assemblable
  entries := by
    intro index positive inside
    have size : (symbolTableHeader symbols).size = 24 * (symbols.length + 1) :=
      length_symbolTableBytes symbols
    obtain ⟨before, rfl⟩ := Nat.exists_eq_add_of_le' positive
    have listed : before < symbols.length := by omega
    exact entryReadable_assemble assemblable (List.getElem?_eq_getElem listed)

theorem filterMap_symbolAt?_assemble (assemblable : Assemblable symbols) :
    (entryIndices (symbolTableHeader symbols)).filterMap
        (symbolAt? (assemble symbols) (symbolTableHeader symbols)) =
      symbols.filterMap Source.image? := by
  have count : (symbolTableHeader symbols).size / 24 - 1 = symbols.length := by
    have size : (symbolTableHeader symbols).size = 24 * (symbols.length + 1) :=
      length_symbolTableBytes symbols
    omega
  rw [entryIndices, count]
  exact filterMap_range'_eq fun _ _ here => symbolAt?_assemble assemblable here

end Symbols

end Layout

theorem outcome_readUnit_of_readable (name : String) {data : ByteArray}
    (addressable : data.size < UInt64.size) {symbols : SectionHeader}
    (readable : Readable data symbols) :
    (readUnit name data).outcome =
      .ok (.ofSymbols name ((entryIndices symbols).filterMap (symbolAt? data symbols))) := by
  have located := (ofData_eq_ok_iff addressable).mpr ⟨symbols, readable.toLocated, rfl⟩
  have read := (allSymbols_eq_ok_iff addressable).mpr ⟨readable.entries, rfl⟩
  simp only [readUnit, Logged.outcome_bind, Logged.outcome_ofExcept, Logged.outcome_write,
    Logged.outcome_pure, Outcome.bind_eq_ok_iff]
  exact ⟨_, located, _, read, (), trivial, rfl⟩

/-- Reading the file that carries some symbols gives them back. -/
theorem outcome_readUnit_assemble (unit : String) {symbols : List Source}
    (assemblable : Assemblable symbols) :
    (readUnit unit (assemble symbols)).outcome =
      .ok
        { name := unit
          definitions := (symbols.filterMap Source.image?).filterMap UnitSymbol.definition?
          references := (symbols.filterMap Source.image?).filterMap UnitSymbol.reference? } := by
  rw [outcome_readUnit_of_readable unit (size_assemble_lt assemblable)
    (readable_assemble assemblable), filterMap_symbolAt?_assemble assemblable]
  rfl

theorem outcome_readUnit_assemble_vmlinux :
    let symbols : List Source :=
      [⟨"_text", 0x10, 1, 0x1000⟩, ⟨"$x", 0x00, 1, 0x1040⟩, ⟨"größe", 0x20, 0xFFF2, 8⟩,
        ⟨"__pi_early_map_kernel", 0x10, 0, 0⟩, ⟨"arch_hook", 0x20, 0, 0⟩,
        ⟨"_end", 0x11, 0xFFF1, 0x9000⟩, ⟨"", 0x10, 4, 7⟩]
    Assemblable symbols ∧
      (readUnit "vmlinux.o" (assemble symbols)).outcome =
        .ok ⟨"vmlinux.o",
          [⟨⟨"_text"⟩, ⟨0x1000⟩, .named ".text", .strong⟩,
            ⟨⟨"größe"⟩, ⟨8⟩, .named "COMMON", .weak⟩,
            ⟨⟨"_end"⟩, ⟨0x9000⟩, .absolute, .strong⟩],
          [⟨"__pi_early_map_kernel"⟩]⟩ := by
  intro symbols
  have assemblable : Assemblable symbols := by
    constructor <;> decide
  exact ⟨assemblable, outcome_readUnit_assemble "vmlinux.o" assemblable⟩

end Assembly
end Elf
end EarlyBoot
