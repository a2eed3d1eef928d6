import EarlyBoot.Elf.Record
import EarlyBoot.Link.Unit

/-!
# The file format, byte by byte

This module says where the numbers and the strings of an object file lie in its
bytes and which unit they describe, without reading the file in any order.  Every
field is a number at an offset of the whole data, every string is a stretch of
bytes up to the first zero byte inside its table, and `Readable` lists what has
to be in place for the file to describe a unit.
-/

namespace EarlyBoot
namespace Elf
namespace Format

/-- The number in some bytes of the data, the lowest byte first. -/
def numberAt (data : ByteArray) (offset : Nat) : (width : Nat) → Nat
  | 0 => 0
  | width + 1 => (data[offset]?.getD 0).toNat + 256 * numberAt data (offset + 1) width

/-- The bytes of a string table from an offset on. -/
def bytesFrom (data : ByteArray) (table : SectionHeader) (offset : Nat) : List UInt8 :=
  (data.data.toList.drop (table.offset + offset)).take (table.size - offset)

/-- The string at an offset of a table that lies in the data.  A zero byte of the
table ends it. -/
def stringAt? (data : ByteArray) (table : SectionHeader) (offset : Nat) : Option String :=
  if offset < table.size ∧ table.offset + table.size ≤ data.size ∧
      0 ∈ bytesFrom data table offset then
    String.fromUTF8? ((bytesFrom data table offset).takeWhile (· ≠ 0)).toByteArray
  else
    none

/-- The offset of the section headers. -/
def sectionTable (data : ByteArray) : Nat := numberAt data 40 8

/-- The number of section headers. -/
def sectionCount (data : ByteArray) : Nat := numberAt data 60 2

/-- The index of the section that holds the names of the sections. -/
def sectionNames (data : ByteArray) : Nat := numberAt data 62 2

/-- The header of a section. -/
def sectionAt (data : ByteArray) (index : Nat) : SectionHeader :=
  let start := sectionTable data + 64 * index
  { name := numberAt data start 4
    kind := numberAt data (start + 4) 4
    offset := numberAt data (start + 24) 8
    size := numberAt data (start + 32) 8
    link := numberAt data (start + 40) 4
    entrySize := numberAt data (start + 56) 8 }

/-- The first section that is a symbol table. -/
def symbolTable? (data : ByteArray) : Option SectionHeader :=
  ((List.range (sectionCount data)).map (sectionAt data)).find? fun header =>
    header.kind = 2

/-- An entry of a symbol table. -/
def entryAt (data : ByteArray) (symbols : SectionHeader) (index : Nat) : SymbolEntry :=
  let start := symbols.offset + 24 * index
  { name := numberAt data start 4
    info := numberAt data (start + 4) 1
    sectionIndex := numberAt data (start + 6) 2
    value := numberAt data (start + 8) 8 }

/-- The name of an entry, from the string table that belongs to the symbols. -/
def nameAt? (data : ByteArray) (symbols : SectionHeader) (index : Nat) : Option String :=
  stringAt? data (sectionAt data symbols.link) (entryAt data symbols index).name

/-- The name of a section, from the table of section names. -/
def sectionName? (data : ByteArray) (index : Nat) : Option String :=
  stringAt? data (sectionAt data (sectionNames data)) (sectionAt data index).name

/-- What a section index of a definition stands for. -/
def placeAt (data : ByteArray) (index : Nat) : Section :=
  if index = 0xFFF2 then
    .named "COMMON"
  else if 0xFF00 ≤ index then
    .absolute
  else if sectionNames data < sectionCount data then
    .named ((sectionName? data index).getD "")
  else
    .named ""

/-- The definition that an entry makes, if it makes one. -/
def definitionAt? (data : ByteArray) (symbols : SectionHeader) (index : Nat) :
    Option Definition :=
  let entry := entryAt data symbols index
  (nameAt? data symbols index).bind fun name =>
    if entry.info / 16 ≠ 0 ∧ name ≠ "" ∧ entry.sectionIndex ≠ 0 then
      some
        { name := ⟨name⟩
          address := ⟨UInt64.ofNat entry.value⟩
          place := placeAt data entry.sectionIndex
          strength := if entry.info / 16 = 2 then .weak else .strong }
    else
      none

/-- The name that an entry refers to, if it is a reference. -/
def referenceAt? (data : ByteArray) (symbols : SectionHeader) (index : Nat) :
    Option SymbolName :=
  let entry := entryAt data symbols index
  (nameAt? data symbols index).bind fun name =>
    if entry.info / 16 = 1 ∧ name ≠ "" ∧ entry.sectionIndex = 0 then
      some ⟨name⟩
    else
      none

/-- The indices of the entries, without the reserved first one. -/
def entryIndices (symbols : SectionHeader) : List Nat :=
  List.range' 1 (symbols.size / 24 - 1)

/-- The unit that a file describes. -/
def unitOf (name : String) (data : ByteArray) (symbols : SectionHeader) : LinkUnit where
  name := name
  definitions := (entryIndices symbols).filterMap (definitionAt? data symbols)
  references := (entryIndices symbols).filterMap (referenceAt? data symbols)

/-- The section of a definition is there and has a readable name. -/
def PlaceReadable (data : ByteArray) (index : Nat) : Prop :=
  index < 0xFF00 → index < sectionCount data ∧
    (sectionNames data < sectionCount data → (sectionName? data index).isSome)

/-- The entry is there, and what it needs of the string tables is readable. -/
structure EntryReadable (data : ByteArray) (symbols : SectionHeader) (index : Nat) :
    Prop where
  inside : symbols.offset + 24 * index + 24 ≤ data.size
  named : (entryAt data symbols index).info / 16 ≠ 0 → (nameAt? data symbols index).isSome
  placed : (entryAt data symbols index).info / 16 ≠ 0 →
    nameAt? data symbols index ≠ some "" →
    0 < (entryAt data symbols index).sectionIndex →
      PlaceReadable data (entryAt data symbols index).sectionIndex

/-- The data is a file with section headers, of which the first symbol table has
the given header. -/
structure Located (data : ByteArray) (symbols : SectionHeader) : Prop where
  header_inside : 64 ≤ data.size
  magic : data.extract 0 4 = ⟨#[0x7F, 0x45, 0x4C, 0x46]⟩
  fileClass : numberAt data 4 1 = 2
  encoding : numberAt data 5 1 = 1
  sectionEntrySize : numberAt data 58 2 = 64
  sections_inside : ∀ index < sectionCount data,
    sectionTable data + 64 * index + 64 ≤ data.size
  symbolTable : symbolTable? data = some symbols
  entrySize : symbols.entrySize = 24
  strings : symbols.link < sectionCount data

/-- All entries of the first symbol table are readable. -/
structure Readable (data : ByteArray) (symbols : SectionHeader) : Prop extends
    Located data symbols where
  entries : ∀ index, 1 ≤ index → index < symbols.size / 24 →
    EntryReadable data symbols index

theorem mem_entryIndices {symbols : SectionHeader} {index : Nat} :
    index ∈ entryIndices symbols ↔ 1 ≤ index ∧ index < symbols.size / 24 := by
  rw [entryIndices, List.mem_range'_1]
  omega

end Format
end Elf
end EarlyBoot
