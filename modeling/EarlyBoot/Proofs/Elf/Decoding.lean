import EarlyBoot.Elf.Read
import EarlyBoot.Proofs.Elf.Format
import EarlyBoot.Proofs.Outcome
import Mathlib.Tactic.SplitIfs

/-!
# Reading is decoding

Reading a file goes through its header, its section headers and its symbols in
order and stops at the first fault.  Each of these steps succeeds exactly where
the format has what it needs and gives what the format says, so that reading the
whole file succeeds exactly on readable files, with the unit that they describe.
-/

namespace EarlyBoot
namespace Elf

open Format

section Bytes

variable {data : ByteArray} {record : List UInt8} {offset size : Nat}

theorem slice?_eq_some_iff :
    slice? data offset size = some record ↔
      offset + size ≤ data.size ∧ record = (data.data.toList.drop offset).take size := by
  unfold slice?
  split
  · next fits => simp [fits, eq_comm]
  · next short => simp [short]

theorem number_cons (byte : UInt8) (bytes : List UInt8) :
    number (byte :: bytes) = byte.toNat + 256 * number bytes :=
  rfl

theorem getElem?_eq_some_getElem (here : offset < data.data.toList.length) :
    data[offset]? = some data.data.toList[offset] := by
  rw [getElem?_pos data offset (by simpa using here)]
  simp [ByteArray.getElem_eq_getElem_data]

theorem number_take_drop {offset width : Nat} (inside : offset + width ≤ data.size) :
    number ((data.data.toList.drop offset).take width) = numberAt data offset width := by
  induction width generalizing offset with
  | zero => simp [number, numberAt]
  | succ width ih =>
      have here : offset < data.data.toList.length := by
        rw [Array.length_toList, ByteArray.size_data]
        omega
      rw [List.drop_eq_getElem_cons here, List.take_succ_cons, number_cons,
        ih (by omega), numberAt, getElem?_eq_some_getElem here]
      rfl

theorem extract_eq_toByteArray (data : ByteArray) (start length : Nat) :
    data.extract start (start + length) =
      ((data.data.toList.drop start).take length).toByteArray := by
  apply ByteArray.ext
  apply Array.toList_inj.mp
  simp

/-- A field of a record is the number at its place in the data. -/
theorem field_eq_numberAt (found : slice? data offset size = some record)
    {position width : Nat} (inside : position + width ≤ size) :
    field record position width = numberAt data (offset + position) width := by
  obtain ⟨fits, rfl⟩ := slice?_eq_some_iff.mp found
  have sameBytes : (((data.data.toList.drop offset).take size).drop position).take width =
      (data.data.toList.drop (offset + position)).take width := by
    rw [List.drop_take, List.drop_drop, List.take_take, Nat.min_eq_left (by omega)]
  rw [field, sameBytes, number_take_drop (by omega)]

end Bytes

section Tables

variable {data : ByteArray}

/-- The header of the file, at the offsets of the format. -/
def headerOf (data : ByteArray) : FileHeader where
  fileClass := numberAt data 4 1
  encoding := numberAt data 5 1
  sectionTableOffset := sectionTable data
  sectionEntrySize := numberAt data 58 2
  sectionCount := sectionCount data
  sectionNamesIndex := sectionNames data

theorem slice?_magic_iff :
    slice? data 0 magic.length = some magic ↔
      data.extract 0 4 = ⟨#[0x7F, 0x45, 0x4C, 0x46]⟩ := by
  have bytes : data.extract 0 4 = ((data.data.toList.drop 0).take 4).toByteArray :=
    extract_eq_toByteArray data 0 4
  have isMagic : (⟨#[0x7F, 0x45, 0x4C, 0x46]⟩ : ByteArray) = magic.toByteArray := rfl
  rw [bytes, isMagic, List.toByteArray_inj, slice?_eq_some_iff]
  constructor
  · rintro ⟨-, starts⟩
    exact starts.symm
  · intro starts
    have length := congrArg List.length starts
    simp only [List.drop_zero, List.length_take, Array.length_toList, ByteArray.size_data]
      at length
    have fits : 0 + magic.length ≤ data.size := by
      change 0 + 4 ≤ data.size
      change _ = 4 at length
      omega
    exact ⟨fits, starts.symm⟩

theorem readHeader_eq_ok_iff {header : FileHeader} :
    readHeader data = .ok header ↔
      (64 ≤ data.size ∧ data.extract 0 4 = ⟨#[0x7F, 0x45, 0x4C, 0x46]⟩) ∧
        header = headerOf data := by
  rw [← slice?_magic_iff]
  unfold readHeader
  cases start : slice? data 0 magic.length with
  | none => simp
  | some bytes =>
      by_cases isMagic : bytes = magic
      · subst isMagic
        cases found : slice? data 0 headerSize with
        | none =>
            have short : ¬ 64 ≤ data.size := by
              intro fits
              simp [slice?, headerSize, fits] at found
            simp [short]
        | some record =>
            have whole : slice? data 0 64 = some record := found
            have decoded : FileHeader.ofRecord record = headerOf data := by
              simp [FileHeader.ofRecord, headerOf, sectionTable, sectionCount, sectionNames,
                field_eq_numberAt whole]
            have large : 64 ≤ data.size := by simpa using (slice?_eq_some_iff.mp whole).1
            simp [decoded, large, eq_comm]
      · simp [isMagic]

theorem checkHeader_eq_ok_iff :
    SymbolTable.checkHeader (headerOf data) = .ok () ↔
      numberAt data 4 1 = 2 ∧ numberAt data 5 1 = 1 ∧ numberAt data 58 2 = 64 := by
  by_cases isClass : numberAt data 4 1 = 2
  · by_cases isLittleEndian : numberAt data 5 1 = 1
    · by_cases isSize : numberAt data 58 2 = 64 <;>
        simp [SymbolTable.checkHeader, headerOf, Table.entrySize, isClass, isLittleEndian,
          isSize]
    · simp [SymbolTable.checkHeader, headerOf, isClass, isLittleEndian]
  · simp [SymbolTable.checkHeader, headerOf, isClass]

/-- Entries of a table that lie in the data are read: the data is shorter than
the address space, so that they begin inside it. -/
theorem readEntry_eq_ok_iff (addressable : data.size < UInt64.size) {table : Table}
    {base index : Nat} {record : List UInt8} :
    readEntry data table base index = .ok record ↔
      slice? data (base + table.entrySize * index) table.entrySize = some record := by
  unfold readEntry
  dsimp only
  split
  · split
    · next missing => simp [missing]
    · next found => simp [found]
  · next overflow =>
      have short : slice? data (base + table.entrySize * index) table.entrySize = none := by
        rw [Option.eq_none_iff_forall_ne_some]
        intro record found
        have fits := (slice?_eq_some_iff.mp found).1
        omega
      simp [short]

/-- An entry is decoded where it lies in the data, to the value that its record has. -/
theorem decodeEntry_eq_ok_iff (addressable : data.size < UInt64.size) {table : Table}
    {base index : Nat} {α : Type} {decode : List UInt8 → α} {value result : α}
    (decoded : ∀ record,
      slice? data (base + table.entrySize * index) table.entrySize = some record →
        decode record = value) :
    (readEntry data table base index).map decode = .ok result ↔
      base + table.entrySize * index + table.entrySize ≤ data.size ∧ result = value := by
  rw [Outcome.map_eq_ok_iff]
  simp only [readEntry_eq_ok_iff addressable]
  constructor
  · rintro ⟨record, found, rfl⟩
    exact ⟨(slice?_eq_some_iff.mp found).1, decoded record found⟩
  · rintro ⟨fits, rfl⟩
    have found := slice?_eq_some_iff.mpr ⟨fits, rfl⟩
    exact ⟨_, found, decoded _ found⟩

theorem readSection_eq_ok_iff (addressable : data.size < UInt64.size) {index : Nat}
    {header : SectionHeader} :
    (readEntry data .sections (sectionTable data) index).map SectionHeader.ofRecord =
        .ok header ↔
      sectionTable data + 64 * index + 64 ≤ data.size ∧ header = sectionAt data index := by
  apply decodeEntry_eq_ok_iff addressable
  intro record found
  simp only [Table.entrySize] at found
  simp [SectionHeader.ofRecord, sectionAt, field_eq_numberAt found]

theorem readSections_eq_ok_iff (addressable : data.size < UInt64.size)
    {sections : List SectionHeader} :
    SymbolTable.readSections data (headerOf data) = .ok sections ↔
      (∀ index < sectionCount data, sectionTable data + 64 * index + 64 ≤ data.size) ∧
        sections = (List.range (sectionCount data)).map (sectionAt data) := by
  have readsOne : ∀ index header,
      (readEntry data .sections (sectionTable data) index).map SectionHeader.ofRecord =
          .ok header ↔
        sectionTable data + 64 * index + 64 ≤ data.size ∧ header = sectionAt data index :=
    fun _ _ => readSection_eq_ok_iff addressable
  have asMap : SymbolTable.readSections data (headerOf data) =
      (List.range (sectionCount data)).mapM fun index =>
        (readEntry data .sections (sectionTable data) index).map SectionHeader.ofRecord :=
    rfl
  rw [asMap, Outcome.mapM_eq_ok_iff readsOne]
  simp only [List.mem_range]

theorem readSymbolEntry_eq_ok_iff (addressable : data.size < UInt64.size)
    {symbols : SectionHeader} {index : Nat} {entry : SymbolEntry} :
    (readEntry data .symbols symbols.offset index).map SymbolEntry.ofRecord = .ok entry ↔
      symbols.offset + 24 * index + 24 ≤ data.size ∧ entry = entryAt data symbols index := by
  apply decodeEntry_eq_ok_iff addressable
  intro record found
  simp only [Table.entrySize] at found
  simp [SymbolEntry.ofRecord, entryAt, field_eq_numberAt found]

end Tables

section Strings

variable {data : ByteArray} {table : SectionHeader} {offset : Nat}

/-- The first zero byte of a stretch of the data stands behind the bytes before
it that are not zero. -/
theorem zeroAt?_eq {start count : Nat} (inside : start + count ≤ data.size) :
    zeroAt? data start count =
      if 0 ∈ (data.data.toList.drop start).take count then
        some (start + (((data.data.toList.drop start).take count).takeWhile (· ≠ 0)).length)
      else
        none := by
  induction count generalizing start with
  | zero => simp [zeroAt?]
  | succ count ih =>
      have here : start < data.data.toList.length := by
        rw [Array.length_toList, ByteArray.size_data]
        omega
      rw [zeroAt?, getElem?_eq_some_getElem here, List.drop_eq_getElem_cons here,
        List.take_succ_cons]
      by_cases isZero : data.data.toList[start] = 0
      · simp [isZero]
      · rw [if_neg (by simpa using isZero), ih (by omega)]
        have isMark : decide (data.data.toList[start] ≠ 0) = true := decide_eq_true isZero
        simp only [List.mem_cons, Ne.symm isZero, false_or, List.takeWhile_cons, isMark,
          if_true, List.length_cons]
        congr 2
        omega

/-- A string is read exactly where the format has one. -/
theorem readString_eq_ok_iff {text : String} :
    readString data table offset = .ok text ↔ stringAt? data table offset = some text := by
  unfold readString stringAt?
  dsimp only
  by_cases inTable : offset < table.size
  · by_cases tableInside : table.offset + table.size ≤ data.size
    · have zero : zeroAt? data (table.offset + offset) (table.size - offset) =
          if 0 ∈ bytesFrom data table offset then
            some (table.offset + offset +
              ((bytesFrom data table offset).takeWhile (· ≠ 0)).length)
          else
            none :=
        zeroAt?_eq (by omega)
      rw [if_pos ⟨inTable, tableInside⟩, zero]
      by_cases terminated : 0 ∈ bytesFrom data table offset
      · have upTo : data.extract (table.offset + offset)
            (table.offset + offset +
              ((bytesFrom data table offset).takeWhile (· ≠ 0)).length) =
            ((bytesFrom data table offset).takeWhile (· ≠ 0)).toByteArray := by
          have isPrefix := (List.takeWhile_prefix (l := bytesFrom data table offset)
            (· ≠ 0)).trans (List.take_prefix _ _)
          rw [extract_eq_toByteArray, ← List.prefix_iff_eq_take.mp isPrefix]
        rw [if_pos terminated, if_pos ⟨inTable, tableInside, terminated⟩]
        simp only [upTo]
        cases String.fromUTF8? ((bytesFrom data table offset).takeWhile (· ≠ 0)).toByteArray <;>
          simp
      · simp [terminated]
    · simp [tableInside]
  · simp [inTable]

theorem readString_cases (data : ByteArray) (table : SectionHeader) (offset : Nat) :
    (∃ text, stringAt? data table offset = some text ∧
        readString data table offset = .ok text) ∨
      stringAt? data table offset = none ∧
        ∃ cause, readString data table offset = .error cause := by
  cases outcome : readString data table offset with
  | ok text => exact Or.inl ⟨text, readString_eq_ok_iff.mp outcome, rfl⟩
  | error cause =>
      right
      refine ⟨?_, cause, rfl⟩
      rw [Option.eq_none_iff_forall_ne_some]
      intro text found
      rw [readString_eq_ok_iff.mpr found] at outcome
      contradiction

end Strings

section Symbols

variable {data : ByteArray} {symbols : SectionHeader}

/-- The tables of a file whose first symbol table has the given header. -/
def tableOf (data : ByteArray) (symbols : SectionHeader) : SymbolTable where
  data := data
  sections := ((List.range (sectionCount data)).map (sectionAt data)).toArray
  symbols := symbols
  strings := sectionAt data symbols.link
  sectionNames := ((List.range (sectionCount data)).map (sectionAt data))[sectionNames data]?

@[simp]
theorem data_tableOf : (tableOf data symbols).data = data :=
  rfl

@[simp]
theorem strings_tableOf : (tableOf data symbols).strings = sectionAt data symbols.link :=
  rfl

theorem entry_tableOf (index : Nat) :
    (tableOf data symbols).entry index =
      (readEntry data .symbols symbols.offset index).map SymbolEntry.ofRecord :=
  rfl

theorem getElem?_sections (data : ByteArray) (index : Nat) :
    ((List.range (sectionCount data)).map (sectionAt data))[index]? =
      if index < sectionCount data then some (sectionAt data index) else none := by
  by_cases inside : index < sectionCount data <;> simp [inside]

theorem locate_eq_ok_iff {table : SymbolTable} :
    SymbolTable.locate data (headerOf data)
        ((List.range (sectionCount data)).map (sectionAt data)) = .ok table ↔
      ∃ symbols, (symbolTable? data = some symbols ∧ symbols.entrySize = 24 ∧
        symbols.link < sectionCount data) ∧ table = tableOf data symbols := by
  have search : ((List.range (sectionCount data)).map (sectionAt data)).find?
      (fun candidate => candidate.kind = symbolTableKind) = symbolTable? data :=
    rfl
  unfold SymbolTable.locate
  rw [search]
  cases symbolTable? data with
  | none => simp
  | some symbols =>
      simp only [Option.some.injEq, and_assoc, exists_eq_left']
      rw [← and_assoc]
      split
      · next otherSize => exact Outcome.error_eq_ok_iff fun both => otherSize both.1
      · next isSize =>
          rw [getElem?_sections]
          by_cases hasStrings : symbols.link < sectionCount data
          · rw [if_pos hasStrings]
            exact Outcome.ok_eq_ok_iff ⟨Decidable.not_not.mp isSize, hasStrings⟩
          · rw [if_neg hasStrings]
            exact Outcome.error_eq_ok_iff fun both => hasStrings both.2

/-- The tables of a file are found when they are where the format puts them. -/
theorem ofData_eq_ok_iff (addressable : data.size < UInt64.size) {table : SymbolTable} :
    SymbolTable.ofData data = .ok table ↔
      ∃ symbols, Located data symbols ∧ table = tableOf data symbols := by
  simp only [SymbolTable.ofData, Outcome.bind_eq_ok_iff, readHeader_eq_ok_iff]
  constructor
  · rintro ⟨_, ⟨⟨large, magic⟩, rfl⟩, ⟨⟩, checked, _, sectionsRead, located⟩
    obtain ⟨fileClass, encoding, entrySize⟩ := checkHeader_eq_ok_iff.mp checked
    obtain ⟨inside, rfl⟩ := (readSections_eq_ok_iff addressable).mp sectionsRead
    obtain ⟨symbols, ⟨found, symbolSize, strings⟩, rfl⟩ := locate_eq_ok_iff.mp located
    exact ⟨symbols, ⟨large, magic, fileClass, encoding, entrySize, inside, found, symbolSize,
      strings⟩, rfl⟩
  · rintro ⟨symbols, located, rfl⟩
    have checked := checkHeader_eq_ok_iff.mpr
      ⟨located.fileClass, located.encoding, located.sectionEntrySize⟩
    have sectionsRead := (readSections_eq_ok_iff addressable).mpr
      ⟨located.sections_inside, rfl⟩
    have found := locate_eq_ok_iff.mpr
      ⟨symbols, ⟨located.symbolTable, located.entrySize, located.strings⟩, rfl⟩
    exact ⟨_, ⟨⟨located.header_inside, located.magic⟩, rfl⟩, (), checked, _, sectionsRead,
      found⟩

theorem getElem?_sections_tableOf (index : Nat) :
    (tableOf data symbols).sections[index]? =
      if index < sectionCount data then some (sectionAt data index) else none := by
  rw [← getElem?_sections]
  exact List.getElem?_toArray ..

theorem sectionNames_tableOf :
    (tableOf data symbols).sectionNames =
      if sectionNames data < sectionCount data then
        some (sectionAt data (sectionNames data))
      else
        none :=
  getElem?_sections data (sectionNames data)

theorem readSectionName_eq_ok_iff {index : Nat} {place : Section} :
    (readString data (sectionAt data (sectionNames data)) (sectionAt data index).name).map
        .named = .ok place ↔
      (sectionName? data index).isSome ∧
        place = .named ((sectionName? data index).getD "") := by
  rcases readString_cases data (sectionAt data (sectionNames data))
      (sectionAt data index).name with ⟨text, found, reads⟩ | ⟨missing, cause, fails⟩
  · have isText : sectionName? data index = some text := found
    rw [reads, isText]
    exact Outcome.ok_eq_ok_iff rfl
  · have noText : sectionName? data index = none := missing
    rw [fails, noText]
    exact Outcome.error_eq_ok_iff Bool.false_ne_true

theorem place_eq_ok_iff {index : Nat} {place : Section} :
    (tableOf data symbols).place index = .ok place ↔
      PlaceReadable data index ∧ place = placeAt data index := by
  unfold SymbolTable.place commonIndex firstReservedIndex placeAt
  split
  · exact Outcome.ok_eq_ok_iff fun small => by omega
  split
  · exact Outcome.ok_eq_ok_iff fun small => by omega
  next notReserved =>
  have small : index < 0xFF00 := Nat.lt_of_not_le notReserved
  rw [getElem?_sections_tableOf, sectionNames_tableOf]
  by_cases isSection : index < sectionCount data
  · rw [if_pos isSection]
    by_cases hasNames : sectionNames data < sectionCount data
    · have readable : PlaceReadable data index ↔ (sectionName? data index).isSome :=
        ⟨fun readable => (readable small).2 hasNames, fun isSome _ => ⟨isSection, fun _ => isSome⟩⟩
      simp only [hasNames, if_true, data_tableOf]
      rw [readSectionName_eq_ok_iff, readable]
    · simp only [hasNames, if_false]
      exact Outcome.ok_eq_ok_iff fun _ => ⟨isSection, fun present => absurd present hasNames⟩
  · rw [if_neg isSection]
    exact Outcome.error_eq_ok_iff fun readable => isSection (readable small).1

/-- What an entry adds to the unit. -/
def symbolAt? (data : ByteArray) (symbols : SectionHeader) (index : Nat) :
    Option UnitSymbol :=
  ((definitionAt? data symbols index).map .defined).or
    ((referenceAt? data symbols index).map .referenced)

theorem named?_eq_ok_iff {index : Nat} {name : String} {found : Option UnitSymbol}
    (isNamed : nameAt? data symbols index = some name) (notEmpty : name ≠ "")
    (notLocal : (entryAt data symbols index).info / 16 ≠ 0) :
    (tableOf data symbols).named? (entryAt data symbols index) name = .ok found ↔
      (0 < (entryAt data symbols index).sectionIndex →
          PlaceReadable data (entryAt data symbols index).sectionIndex) ∧
        found = symbolAt? data symbols index := by
  unfold SymbolTable.named? SymbolEntry.binding undefinedIndex globalBinding weakBinding
  unfold symbolAt? definitionAt? referenceAt?
  by_cases undefined : (entryAt data symbols index).sectionIndex = 0
  · rw [if_pos undefined]
    have vacuous : 0 < (entryAt data symbols index).sectionIndex →
        PlaceReadable data (entryAt data symbols index).sectionIndex :=
      fun positive => absurd undefined (Nat.ne_of_gt positive)
    rw [Outcome.ok_eq_ok_iff vacuous]
    by_cases isGlobal : (entryAt data symbols index).info / 16 = 1
    · simp [isNamed, notEmpty, undefined, isGlobal]
    · simp [isNamed, undefined, isGlobal]
  · rw [if_neg undefined, Outcome.map_eq_ok_iff]
    have positive : 0 < (entryAt data symbols index).sectionIndex := Nat.pos_of_ne_zero undefined
    simp only [place_eq_ok_iff, isNamed, Option.bind_some, ne_eq, notEmpty, notLocal, undefined,
      positive, not_false_iff, and_self, if_true, Option.map_some, true_imp_iff]
    constructor
    · rintro ⟨place, ⟨readable, rfl⟩, rfl⟩
      exact ⟨readable, rfl⟩
    · rintro ⟨readable, rfl⟩
      exact ⟨_, ⟨readable, rfl⟩, rfl⟩

theorem symbol?_eq_ok_iff {index : Nat} {found : Option UnitSymbol} :
    (tableOf data symbols).symbol? (entryAt data symbols index) = .ok found ↔
      (((entryAt data symbols index).info / 16 ≠ 0 → (nameAt? data symbols index).isSome) ∧
        ((entryAt data symbols index).info / 16 ≠ 0 → nameAt? data symbols index ≠ some "" →
          0 < (entryAt data symbols index).sectionIndex →
            PlaceReadable data (entryAt data symbols index).sectionIndex)) ∧
        found = symbolAt? data symbols index := by
  unfold SymbolTable.symbol? SymbolEntry.binding localBinding
  by_cases isLocal : (entryAt data symbols index).info / 16 = 0
  · have nothing : symbolAt? data symbols index = none := by
      simp [symbolAt?, definitionAt?, referenceAt?, isLocal]
    rw [if_pos isLocal, nothing]
    exact Outcome.ok_eq_ok_iff
      ⟨fun notLocal => absurd isLocal notLocal, fun notLocal => absurd isLocal notLocal⟩
  rw [if_neg isLocal, data_tableOf, strings_tableOf]
  rcases readString_cases data (sectionAt data symbols.link)
      (entryAt data symbols index).name with ⟨name, found, reads⟩ | ⟨missing, cause, fails⟩
  · have isNamed : nameAt? data symbols index = some name := found
    rw [reads]
    simp only [bind, Except.bind]
    by_cases isEmpty : name = ""
    · subst isEmpty
      have nothing : symbolAt? data symbols index = none := by
        simp [symbolAt?, definitionAt?, referenceAt?, isNamed]
      rw [if_pos rfl, nothing, isNamed]
      exact Outcome.ok_eq_ok_iff ⟨fun _ => rfl, fun _ differs => absurd rfl differs⟩
    · rw [if_neg isEmpty, named?_eq_ok_iff isNamed isEmpty isLocal]
      simp [isLocal, isNamed, isEmpty]
  · have noName : nameAt? data symbols index = none := missing
    rw [fails, noName]
    exact Outcome.error_eq_ok_iff fun readable => Bool.false_ne_true (readable.1 isLocal)

/-- An entry is read exactly when it is readable. -/
theorem readSymbol_eq_ok_iff (addressable : data.size < UInt64.size) {index : Nat}
    {found : Option UnitSymbol} :
    ((tableOf data symbols).entry index >>= (tableOf data symbols).symbol?) = .ok found ↔
      EntryReadable data symbols index ∧ found = symbolAt? data symbols index := by
  simp only [Outcome.bind_eq_ok_iff, entry_tableOf, readSymbolEntry_eq_ok_iff addressable]
  constructor
  · rintro ⟨entry, ⟨inside, rfl⟩, symbol⟩
    obtain ⟨⟨named, placed⟩, isSymbol⟩ := symbol?_eq_ok_iff.mp symbol
    exact ⟨⟨inside, named, placed⟩, isSymbol⟩
  · rintro ⟨readable, isSymbol⟩
    have symbol := symbol?_eq_ok_iff.mpr ⟨⟨readable.named, readable.placed⟩, isSymbol⟩
    exact ⟨_, ⟨readable.inside, rfl⟩, symbol⟩

/-- Collecting the symbols of successive entries is reading each of them. -/
theorem symbolsFrom_eq_ok_iff (addressable : data.size < UInt64.size) {index count : Nat}
    {found collected : Array UnitSymbol} :
    (tableOf data symbols).symbolsFrom index found count = .ok collected ↔
      (∀ entry ∈ List.range' index count, EntryReadable data symbols entry) ∧
        collected =
          found ++ ((List.range' index count).filterMap (symbolAt? data symbols)).toArray := by
  induction count generalizing index found with
  | zero => simp [SymbolTable.symbolsFrom, eq_comm]
  | succ count ih =>
      have first : (tableOf data symbols).symbolsFrom index found (count + 1) =
          ((tableOf data symbols).entry index >>= (tableOf data symbols).symbol?) >>=
            fun next => (tableOf data symbols).symbolsFrom (index + 1)
              (found ++ next.toArray) count := by
        rw [SymbolTable.symbolsFrom, bind_assoc]
      rw [first, Outcome.bind_eq_ok_iff, List.range'_succ]
      simp only [readSymbol_eq_ok_iff addressable, ih, List.forall_mem_cons]
      have joined : found ++ (symbolAt? data symbols index).toArray ++
          ((List.range' (index + 1) count).filterMap (symbolAt? data symbols)).toArray =
          found ++ ((index :: List.range' (index + 1) count).filterMap
            (symbolAt? data symbols)).toArray := by
        cases here : symbolAt? data symbols index <;> simp [here]
      constructor
      · rintro ⟨next, ⟨readable, isNext⟩, later, whole⟩
        rw [isNext, joined] at whole
        exact ⟨⟨readable, later⟩, whole⟩
      · rintro ⟨⟨readable, later⟩, whole⟩
        rw [← joined] at whole
        exact ⟨symbolAt? data symbols index, ⟨readable, rfl⟩, later, whole⟩

theorem allSymbols_eq_ok_iff (addressable : data.size < UInt64.size)
    {collected : List UnitSymbol} :
    (tableOf data symbols).allSymbols = .ok collected ↔
      (∀ index, 1 ≤ index → index < symbols.size / 24 → EntryReadable data symbols index) ∧
        collected = (entryIndices symbols).filterMap (symbolAt? data symbols) := by
  unfold SymbolTable.allSymbols
  rw [Outcome.map_eq_ok_iff]
  have count : (tableOf data symbols).entryCount = symbols.size / 24 := rfl
  have indices : ∀ index, index ∈ List.range' 1 (symbols.size / 24 - 1) ↔
      1 ≤ index ∧ index < symbols.size / 24 :=
    fun _ => mem_entryIndices
  simp only [symbolsFrom_eq_ok_iff addressable, count, indices, and_imp]
  constructor
  · rintro ⟨_, ⟨readable, rfl⟩, rfl⟩
    exact ⟨readable, by simp [entryIndices]⟩
  · rintro ⟨readable, rfl⟩
    exact ⟨_, ⟨readable, rfl⟩, by simp [entryIndices]⟩

end Symbols

section Units

variable {data : ByteArray} {symbols : SectionHeader}

theorem bind_definition?_symbolAt? (index : Nat) :
    (symbolAt? data symbols index).bind UnitSymbol.definition? =
      definitionAt? data symbols index := by
  unfold symbolAt?
  cases definition : definitionAt? data symbols index with
  | some made => rfl
  | none => cases referenceAt? data symbols index <;> rfl

theorem sectionIndex_ne_zero_of_definitionAt? {index : Nat} {made : Definition}
    (isDefinition : definitionAt? data symbols index = some made) :
    (entryAt data symbols index).sectionIndex ≠ 0 := by
  simp only [definitionAt?, Option.bind_eq_some_iff] at isDefinition
  obtain ⟨name, -, chosen⟩ := isDefinition
  split at chosen
  · next conditions => exact conditions.2.2
  · contradiction

theorem bind_reference?_symbolAt? (index : Nat) :
    (symbolAt? data symbols index).bind UnitSymbol.reference? =
      referenceAt? data symbols index := by
  unfold symbolAt?
  cases definition : definitionAt? data symbols index with
  | none => cases referenceAt? data symbols index <;> rfl
  | some made =>
      have isDefined := sectionIndex_ne_zero_of_definitionAt? definition
      simp [referenceAt?, isDefined, UnitSymbol.reference?]

theorem ofSymbols_symbolAt? (name : String) :
    LinkUnit.ofSymbols name ((entryIndices symbols).filterMap (symbolAt? data symbols)) =
      unitOf name data symbols := by
  simp [LinkUnit.ofSymbols, unitOf, List.filterMap_filterMap, bind_definition?_symbolAt?,
    bind_reference?_symbolAt?]

/-- A file is read as a unit exactly when it is readable, and the unit is the one
that the format describes.  The data of a file is shorter than the address
space. -/
theorem outcome_readUnit_eq_ok_iff (name : String)
    (addressable : data.size < UInt64.size) (unit : LinkUnit) :
    (readUnit name data).outcome = .ok unit ↔
      ∃ symbols, Readable data symbols ∧ unit = unitOf name data symbols := by
  simp only [readUnit, Logged.outcome_bind, Logged.outcome_ofExcept, Logged.outcome_write,
    Logged.outcome_pure, Outcome.bind_eq_ok_iff, ofData_eq_ok_iff addressable]
  constructor
  · rintro ⟨_, ⟨symbols, located, rfl⟩, collected, read, -, -, built⟩
    obtain ⟨readable, rfl⟩ := (allSymbols_eq_ok_iff addressable).mp read
    injection built with isUnit
    rw [ofSymbols_symbolAt?] at isUnit
    exact ⟨symbols, ⟨located, readable⟩, isUnit.symm⟩
  · rintro ⟨symbols, readable, rfl⟩
    have read := (allSymbols_eq_ok_iff addressable).mpr ⟨readable.entries, rfl⟩
    refine ⟨_, ⟨symbols, readable.toLocated, rfl⟩, _, read, (), trivial, ?_⟩
    rw [ofSymbols_symbolAt?]

/-- A file with a symbol table and its strings, which defines one absolute
symbol. -/
def absoluteFile : ByteArray :=
  -- The file header: the section headers begin at 64, and there are two of them.
  ⟨⟨[0x7F, 0x45, 0x4C, 0x46, 2, 1, 1] ++ List.replicate 33 0 ++
    [64, 0, 0, 0, 0, 0, 0, 0] ++ List.replicate 10 0 ++ [64, 0, 2, 0, 9, 0] ++
    -- The symbols lie at 192, and the second section holds their names.
    [0, 0, 0, 0, 2, 0, 0, 0] ++ List.replicate 16 0 ++ [192, 0, 0, 0, 0, 0, 0, 0] ++
    [48, 0, 0, 0, 0, 0, 0, 0] ++ [1, 0, 0, 0] ++ List.replicate 12 0 ++
    [24, 0, 0, 0, 0, 0, 0, 0] ++
    -- The strings lie at 240.
    List.replicate 24 0 ++ [240, 0, 0, 0, 0, 0, 0, 0] ++ [3, 0, 0, 0, 0, 0, 0, 0] ++
    List.replicate 24 0 ++
    -- The reserved entry, the symbol and its name.
    List.replicate 24 0 ++ [1, 0, 0, 0, 0x10, 0, 0xF1, 0xFF, 0, 0x10, 0, 0, 0, 0, 0, 0] ++
    List.replicate 8 0 ++ [0, 0x61, 0]⟩⟩

theorem outcome_readUnit_absoluteFile :
    absoluteFile.size < UInt64.size ∧
      (readUnit "a.o" absoluteFile).outcome =
        .ok ⟨"a.o", [⟨⟨"a"⟩, ⟨0x1000⟩, .absolute, .strong⟩], []⟩ := by
  have addressable : absoluteFile.size < UInt64.size := by decide +kernel
  refine ⟨addressable, (outcome_readUnit_eq_ok_iff "a.o" addressable _).mpr
    ⟨⟨0, 2, 192, 48, 1, 24⟩, ⟨?_, ?_⟩, by decide +kernel⟩⟩
  · constructor <;> decide +kernel
  · intro index positive inside
    obtain rfl : index = 1 := by
      change index < 2 at inside
      omega
    refine ⟨by decide +kernel, fun _ => by decide +kernel, fun _ _ _ small => ?_⟩
    exact absurd small (by decide +kernel)

end Units

end Elf
end EarlyBoot
