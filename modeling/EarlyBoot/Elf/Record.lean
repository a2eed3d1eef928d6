import EarlyBoot.Elf.Bytes
import EarlyBoot.Elf.Error

/-!
# Records of an object file

The file header, the section headers and the symbol entries of a 64-bit file with
little-endian numbers, each with the fields that matter for symbols.
-/

namespace EarlyBoot
namespace Elf

/-- The four bytes that every file begins with. -/
def magic : List UInt8 := [0x7F, 0x45, 0x4C, 0x46]

def headerSize : Nat := 64

structure FileHeader where
  fileClass : Nat
  encoding : Nat
  sectionTableOffset : Nat
  sectionEntrySize : Nat
  sectionCount : Nat
  /-- The index of the section that holds the names of the sections. -/
  sectionNamesIndex : Nat
  deriving DecidableEq, Repr

def FileHeader.ofRecord (record : List UInt8) : FileHeader where
  fileClass := field record 4 1
  encoding := field record 5 1
  sectionTableOffset := field record 40 8
  sectionEntrySize := field record 58 2
  sectionCount := field record 60 2
  sectionNamesIndex := field record 62 2

structure SectionHeader where
  /-- The offset of the section's name among the section names. -/
  name : Nat
  kind : Nat
  offset : Nat
  size : Nat
  link : Nat
  entrySize : Nat
  deriving DecidableEq, Repr

def SectionHeader.ofRecord (record : List UInt8) : SectionHeader where
  name := field record 0 4
  kind := field record 4 4
  offset := field record 24 8
  size := field record 32 8
  link := field record 40 4
  entrySize := field record 56 8

def symbolTableKind : Nat := 2

structure SymbolEntry where
  /-- The offset of the symbol's name in the string table. -/
  name : Nat
  info : Nat
  sectionIndex : Nat
  value : Nat
  deriving DecidableEq, Repr

def SymbolEntry.ofRecord (record : List UInt8) : SymbolEntry where
  name := field record 0 4
  info := field record 4 1
  sectionIndex := field record 6 2
  value := field record 8 8

/-- How far the symbol is visible: the upper half of the information byte. -/
def SymbolEntry.binding (entry : SymbolEntry) : Nat :=
  entry.info / 16

def localBinding : Nat := 0

def globalBinding : Nat := 1

def weakBinding : Nat := 2

/-- The section index of a symbol that the file does not define. -/
def undefinedIndex : Nat := 0

/-- The first section index that means no section header. -/
def firstReservedIndex : Nat := 0xFF00

/-- The section index of a symbol that gets its place from the linker. -/
def commonIndex : Nat := 0xFFF2

/-- The header of a file, after its magic. -/
def readHeader (data : ByteArray) : Except Error FileHeader :=
  match slice? data 0 magic.length with
  | none => .error .truncatedHeader
  | some start =>
      if start = magic then
        match slice? data 0 headerSize with
        | none => .error .truncatedHeader
        | some record => .ok (.ofRecord record)
      else
        .error .badMagic

/-- The record of an entry of a table that begins at `base`. -/
def readEntry (data : ByteArray) (table : Table) (base index : Nat) :
    Except Error (List UInt8) :=
  let position := base + table.entrySize * index
  if position < UInt64.size then
    match slice? data position table.entrySize with
    | none => .error (.truncatedEntry table index)
    | some record => .ok record
  else
    .error (.offsetOverflow table index)

/-- The string at an offset of a string table, up to the next zero byte.  The
whole table has to lie in the data. -/
def readString (data : ByteArray) (table : SectionHeader) (offset : Nat) :
    Except Error String :=
  let start := table.offset + offset
  if offset < table.size ∧ table.offset + table.size ≤ data.size then
    match zeroAt? data start (table.size - offset) with
    | none => .error (.stringOutOfBounds offset)
    | some stop =>
        match String.fromUTF8? (data.extract start stop) with
        | none => .error (.invalidString offset)
        | some text => .ok text
  else
    .error (.stringOutOfBounds offset)

end Elf
end EarlyBoot
