import EarlyBoot.Elf.Record
import EarlyBoot.Link.Unit
import Mathlib.Algebra.GroupWithZero.Nat

/-!
# Assembling an object file

A small file that carries a list of symbols: behind the file header come the names
of the sections, the names of the symbols, the symbol table and five section
headers.  Where each part begins depends on the lengths of all parts before it.
-/

namespace EarlyBoot
namespace Elf

/-- The bytes of a number, the lowest first.  What does not fit is cut off. -/
def littleEndian : (width value : Nat) → List UInt8
  | 0, _ => []
  | width + 1, value => UInt8.ofNat value :: littleEndian width (value / 256)

/-- The bytes of numbers, each with its width. -/
def fieldBytes (fields : List (Nat × Nat)) : List UInt8 :=
  fields.flatMap fun field => littleEndian field.1 field.2

def SectionHeader.record (header : SectionHeader) : List UInt8 :=
  fieldBytes
    [(4, header.name), (4, header.kind), (8, 0), (8, 0), (8, header.offset),
      (8, header.size), (4, header.link), (4, 0), (8, 1), (8, header.entrySize)]

def SymbolEntry.record (entry : SymbolEntry) : List UInt8 :=
  fieldBytes
    [(4, entry.name), (1, entry.info), (1, 0), (2, entry.sectionIndex), (8, entry.value),
      (8, 0)]

section Records

theorem length_littleEndian (width value : Nat) :
    (littleEndian width value).length = width := by
  induction width generalizing value with
  | zero => rfl
  | succ width ih => rw [littleEndian, List.length_cons, ih]

theorem length_fieldBytes (fields : List (Nat × Nat)) :
    (fieldBytes fields).length = (fields.map Prod.fst).sum := by
  simp [fieldBytes, List.length_flatMap, length_littleEndian]

theorem SectionHeader.length_record (header : SectionHeader) : header.record.length = 64 :=
  length_fieldBytes _

theorem SymbolEntry.length_record (entry : SymbolEntry) : entry.record.length = 24 :=
  length_fieldBytes _

theorem eq_take_append_cons_drop {α : Type} {elements : List α} {index : Nat} {element : α}
    (here : elements[index]? = some element) :
    elements = elements.take index ++ element :: elements.drop (index + 1) := by
  obtain ⟨inside, rfl⟩ := List.getElem?_eq_some_iff.mp here
  rw [← List.drop_eq_getElem_cons inside, List.take_append_drop]

theorem length_flatMap_of_length_eq {α : Type} {record : α → List UInt8} {size : Nat}
    (recordSize : ∀ element, (record element).length = size) (elements : List α) :
    (elements.flatMap record).length = size * elements.length := by
  simp [List.length_flatMap, recordSize, List.map_const', Nat.mul_comm]

end Records

namespace Assembly

/-- A symbol as it is handed to the assembler. -/
structure Source where
  name : String
  info : UInt8
  sectionIndex : UInt16
  value : UInt64
  deriving DecidableEq, Repr

/-- Names one after another, each with a zero byte at its end. -/
def joinedNames (names : List String) : List UInt8 :=
  names.flatMap fun name => name.toUTF8.data.toList ++ [0]

/-- The names of a table, behind the empty one. -/
def stringTable (names : List String) : List UInt8 :=
  0 :: joinedNames names

def Source.entry (nameOffset : Nat) (symbol : Source) : SymbolEntry where
  name := nameOffset
  info := symbol.info.toNat
  sectionIndex := symbol.sectionIndex.toNat
  value := symbol.value.toNat

/-- The entries of symbols whose names follow one another from an offset on. -/
def entriesFrom : (nameOffset : Nat) → List Source → List SymbolEntry
  | _, [] => []
  | offset, symbol :: symbols =>
      symbol.entry offset ::
        entriesFrom (offset + (joinedNames [symbol.name]).length) symbols

/-- The names of the sections, from the first one that has a name on. -/
def sectionLabels : List String :=
  [".text", ".symtab", ".strtab", ".shstrtab"]

section Parts

variable (symbols : List Source)

def stringBytes : List UInt8 :=
  stringTable (symbols.map Source.name)

/-- The entries of a file.  The first one is reserved. -/
def entries : List SymbolEntry :=
  ⟨0, 0, 0, 0⟩ :: entriesFrom 1 symbols

def symbolTableBytes : List UInt8 :=
  (entries symbols).flatMap SymbolEntry.record

def stringsOffset : Nat :=
  headerSize + (stringTable sectionLabels).length

def symbolsOffset : Nat :=
  stringsOffset + (stringBytes symbols).length

def sectionsOffset : Nat :=
  symbolsOffset symbols + (symbolTableBytes symbols).length

def fileHeader : List UInt8 :=
  magic ++ fieldBytes
    [(1, 2), (1, 1), (1, 1), (9, 0), (2, 2), (2, 0xB7), (4, 1), (8, 0), (8, 0),
      (8, sectionsOffset symbols), (4, 0), (2, 64), (2, 56), (2, 0), (2, 64), (2, 5), (2, 4)]

def symbolTableHeader : SectionHeader :=
  ⟨7, 2, symbolsOffset symbols, (symbolTableBytes symbols).length, 3, 24⟩

def stringsHeader : SectionHeader :=
  ⟨15, 3, stringsOffset, (stringBytes symbols).length, 0, 0⟩

def sectionNamesHeader : SectionHeader :=
  ⟨23, 3, headerSize, (stringTable sectionLabels).length, 0, 0⟩

def sectionHeaders : List SectionHeader :=
  [⟨0, 0, 0, 0, 0, 0⟩, ⟨1, 1, 0, 0, 0, 0⟩, symbolTableHeader symbols, stringsHeader symbols,
    sectionNamesHeader]

def contents : List UInt8 :=
  fileHeader symbols ++ stringTable sectionLabels ++ stringBytes symbols ++
    symbolTableBytes symbols ++ (sectionHeaders symbols).flatMap SectionHeader.record

/-- The file that carries the given symbols. -/
def assemble : ByteArray :=
  (contents symbols).toByteArray

end Parts

/-- What a section index of a file stands for. -/
def placeOf (index : Nat) : Section :=
  if index = 0xFFF2 then
    .named "COMMON"
  else if 0xFF00 ≤ index then
    .absolute
  else if index = 1 then
    .named ".text"
  else if index = 2 then
    .named ".symtab"
  else if index = 3 then
    .named ".strtab"
  else
    .named ".shstrtab"

def Source.binding (symbol : Source) : Nat :=
  symbol.info.toNat / 16

/-- What a symbol is to the linker, if it is anything to it. -/
def Source.image? (symbol : Source) : Option UnitSymbol :=
  if symbol.binding = 0 ∨ symbol.name = "" then
    none
  else if symbol.sectionIndex.toNat = 0 then
    if symbol.binding = 1 then some (.referenced ⟨symbol.name⟩) else none
  else
    some
      (.defined
        { name := ⟨symbol.name⟩
          address := ⟨symbol.value⟩
          place := placeOf symbol.sectionIndex.toNat
          strength := if symbol.binding = 2 then .weak else .strong })

/-- What the assembler expects: names without a zero character, section indices that
stand for something, and offsets of names of at most 32 bits. -/
structure Assemblable (symbols : List Source) : Prop where
  names : ∀ symbol ∈ symbols, '\x00' ∉ symbol.name.toList
  sections : ∀ symbol ∈ symbols,
    symbol.sectionIndex.toNat < 5 ∨ 0xFF00 ≤ symbol.sectionIndex.toNat
  strings : (stringBytes symbols).length < 2 ^ 32

section Lengths

theorem joinedNames_append (first second : List String) :
    joinedNames (first ++ second) = joinedNames first ++ joinedNames second :=
  List.flatMap_append

theorem stringTable_split (before after : List String) (name : String) :
    stringTable (before ++ name :: after) =
      stringTable before ++ (name.toUTF8.data.toList ++ 0 :: joinedNames after) := by
  simp [stringTable, joinedNames]

theorem length_entriesFrom (offset : Nat) (symbols : List Source) :
    (entriesFrom offset symbols).length = symbols.length := by
  induction symbols generalizing offset with
  | nil => rfl
  | cons symbol symbols ih => rw [entriesFrom, List.length_cons, ih, List.length_cons]

theorem entriesFrom_append (offset : Nat) (first second : List Source) :
    entriesFrom offset (first ++ second) =
      entriesFrom offset first ++
        entriesFrom (offset + (joinedNames (first.map Source.name)).length) second := by
  induction first generalizing offset with
  | nil => rfl
  | cons symbol first ih =>
      have names : joinedNames ((symbol :: first).map Source.name) =
          joinedNames [symbol.name] ++ joinedNames (first.map Source.name) :=
        joinedNames_append [symbol.name] _
      rw [List.cons_append, entriesFrom, entriesFrom, ih, names, List.length_append,
        Nat.add_assoc, List.cons_append]

/-- The names of the symbols in front of one take up the string table up to its
name. -/
theorem getElem?_entries {symbols : List Source} {index : Nat} {symbol : Source}
    (here : symbols[index]? = some symbol) :
    (entries symbols)[index + 1]? =
      some (symbol.entry (stringTable ((symbols.take index).map Source.name)).length) := by
  obtain ⟨inside, -⟩ := List.getElem?_eq_some_iff.mp here
  have length : (entriesFrom 1 (symbols.take index)).length = index := by
    rw [length_entriesFrom, List.length_take_of_le (Nat.le_of_lt inside)]
  have split := congrArg (entriesFrom 1) (eq_take_append_cons_drop here)
  rw [entriesFrom_append, entriesFrom] at split
  rw [entries, List.getElem?_cons_succ, split,
    List.getElem?_append_right (Nat.le_of_eq length), length, Nat.sub_self,
    List.getElem?_cons_zero, stringTable, List.length_cons, Nat.add_comm 1]

theorem stringBytes_split {symbols : List Source} {index : Nat} {symbol : Source}
    (here : symbols[index]? = some symbol) :
    stringBytes symbols =
      stringTable ((symbols.take index).map Source.name ++
        symbol.name :: (symbols.drop (index + 1)).map Source.name) := by
  have split := congrArg (List.map Source.name) (eq_take_append_cons_drop here)
  rw [List.map_append, List.map_cons] at split
  rw [stringBytes, split]

theorem length_symbolTableBytes (symbols : List Source) :
    (symbolTableBytes symbols).length = 24 * (symbols.length + 1) := by
  rw [symbolTableBytes, length_flatMap_of_length_eq SymbolEntry.length_record, entries,
    List.length_cons, length_entriesFrom]

/-- Every name takes at least one byte. -/
theorem length_lt_length_stringBytes (symbols : List Source) :
    symbols.length < (stringBytes symbols).length := by
  induction symbols with
  | nil => decide
  | cons symbol symbols ih =>
      simp only [stringBytes, stringTable, joinedNames, List.map_cons, List.flatMap_cons,
        List.length_cons, List.length_append, List.length_nil] at ih ⊢
      omega

theorem length_fileHeader (symbols : List Source) : (fileHeader symbols).length = 64 := by
  rw [fileHeader, List.length_append, length_fieldBytes]
  rfl

theorem length_before_strings (symbols : List Source) :
    (fileHeader symbols ++ stringTable sectionLabels).length = stringsOffset := by
  rw [List.length_append, length_fileHeader]
  rfl

theorem length_before_symbols (symbols : List Source) :
    (fileHeader symbols ++ stringTable sectionLabels ++ stringBytes symbols).length =
      symbolsOffset symbols := by
  rw [List.length_append, length_before_strings]
  rfl

theorem length_before_sections (symbols : List Source) :
    (fileHeader symbols ++ stringTable sectionLabels ++ stringBytes symbols ++
      symbolTableBytes symbols).length = sectionsOffset symbols := by
  rw [List.length_append, length_before_symbols]
  rfl

theorem toList_assemble (symbols : List Source) :
    (assemble symbols).data.toList = contents symbols :=
  List.toList_data_toByteArray

theorem sectionsOffset_eq (symbols : List Source) :
    sectionsOffset symbols = 97 + (stringBytes symbols).length + 24 * (symbols.length + 1) := by
  have offset : stringsOffset = 97 := by decide
  rw [sectionsOffset, symbolsOffset, offset, length_symbolTableBytes]

theorem size_assemble (symbols : List Source) :
    (assemble symbols).size = sectionsOffset symbols + 320 := by
  have size := congrArg List.length (toList_assemble symbols)
  rw [Array.length_toList, ByteArray.size_data, contents, List.length_append,
    length_before_sections, length_flatMap_of_length_eq SectionHeader.length_record] at size
  exact size

/-- All offsets fit into 64 bits when those of the names fit into 32. -/
theorem size_assemble_lt (assemblable : Assemblable symbols) :
    (assemble symbols).size < 2 ^ 64 := by
  have names := length_lt_length_stringBytes symbols
  have strings := assemblable.strings
  rw [size_assemble, sectionsOffset_eq]
  omega

end Lengths

end Assembly
end Elf
end EarlyBoot
