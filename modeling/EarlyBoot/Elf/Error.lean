/-!
# Why an object file cannot be read

Each cause carries the entry, the section or the offset at fault, and
`Error.message` puts it into words.
-/

namespace EarlyBoot
namespace Elf

/-- The tables of an object file that have entries of a fixed size. -/
inductive Table where
  | sections
  | symbols
  deriving DecidableEq, Repr

namespace Table

def entrySize : Table → Nat
  | .sections => 64
  | .symbols => 24

def entryLabel : Table → String
  | .sections => "section header"
  | .symbols => "symbol"

end Table

/-- The causes for which a byte string is no unit. -/
inductive Error where
  /-- The first four bytes are those of another format. -/
  | badMagic
  /-- The data ends before the file header does. -/
  | truncatedHeader
  | notElf64
  | notLittleEndian
  | unsupportedEntrySize (table : Table) (size : Nat)
  /-- An entry would begin at an offset of more than 64 bits. -/
  | offsetOverflow (table : Table) (index : Nat)
  /-- The data ends before the entry does. -/
  | truncatedEntry (table : Table) (index : Nat)
  | noSymbolTable
  | missingSection (index : Nat)
  | stringOutOfBounds (offset : Nat)
  | invalidString (offset : Nat)
  deriving DecidableEq, Repr

def Error.message : Error → String
  | .badMagic => "invalid ELF header: BadMagic"
  | .truncatedHeader => "invalid ELF header: UnexpectedEof"
  | .notElf64 => "not an ELF64 file"
  | .notLittleEndian => "not a little-endian ELF file"
  | .unsupportedEntrySize table size =>
      "unsupported " ++ table.entryLabel ++ " entry size " ++ toString size
  | .offsetOverflow table index =>
      table.entryLabel ++ " #" ++ toString index ++
        " lies past the end of the address space"
  | .truncatedEntry table index =>
      "invalid " ++ table.entryLabel ++ " #" ++ toString index ++ ": UnexpectedEof"
  | .noSymbolTable => "no symbol table"
  | .missingSection index => "reference to missing section #" ++ toString index
  | .stringOutOfBounds offset =>
      "string at offset " ++ toString offset ++ " is out of its table"
  | .invalidString offset =>
      "string at offset " ++ toString offset ++ " is not valid UTF-8"

end Elf
end EarlyBoot
