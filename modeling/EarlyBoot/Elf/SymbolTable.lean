import EarlyBoot.Elf.Record
import EarlyBoot.Link.Unit

/-!
# The symbol table of an object file

The symbols of a file are those of its first symbol table, without the first
entry, which is reserved.  A symbol that is local or has no name is left out.  A
symbol without a section is a reference if it is global; every other one is a
definition, and its value is its address.
-/

namespace EarlyBoot
namespace Elf

/-- A file and the tables in which its symbols are described. -/
structure SymbolTable where
  data : ByteArray
  sections : Array SectionHeader
  symbols : SectionHeader
  strings : SectionHeader
  sectionNames : Option SectionHeader

namespace SymbolTable

def readSections (data : ByteArray) (header : FileHeader) :
    Except Error (List SectionHeader) :=
  (List.range header.sectionCount).mapM fun index =>
    (readEntry data .sections header.sectionTableOffset index).map
      SectionHeader.ofRecord

/-- Refuses the files whose header announces another layout. -/
def checkHeader (header : FileHeader) : Except Error Unit :=
  if header.fileClass ≠ 2 then
    .error .notElf64
  else if header.encoding ≠ 1 then
    .error .notLittleEndian
  else if header.sectionEntrySize ≠ Table.sections.entrySize then
    .error (.unsupportedEntrySize .sections header.sectionEntrySize)
  else
    .ok ()

/-- Finds the symbol table and the string tables among the sections. -/
def locate (data : ByteArray) (header : FileHeader) (sections : List SectionHeader) :
    Except Error SymbolTable :=
  match sections.find? fun candidate => candidate.kind = symbolTableKind with
  | none => .error .noSymbolTable
  | some symbols =>
      if symbols.entrySize ≠ Table.symbols.entrySize then
        .error (.unsupportedEntrySize .symbols symbols.entrySize)
      else
        match sections[symbols.link]? with
        | none => .error (.missingSection symbols.link)
        | some strings =>
            .ok
              { data
                sections := sections.toArray
                symbols
                strings
                sectionNames := sections[header.sectionNamesIndex]? }

def ofData (data : ByteArray) : Except Error SymbolTable := do
  let header ← readHeader data
  checkHeader header
  locate data header (← readSections data header)

/-- What a symbol with the given section index is relative to. -/
def place (table : SymbolTable) (index : Nat) : Except Error Section :=
  if index = commonIndex then
    .ok (.named "COMMON")
  else if firstReservedIndex ≤ index then
    .ok .absolute
  else
    match table.sections[index]? with
    | none => .error (.missingSection index)
    | some header =>
        match table.sectionNames with
        | none => .ok (.named "")
        | some names => (readString table.data names header.name).map .named

/-- The symbol that an entry with a name describes. -/
def named? (table : SymbolTable) (entry : SymbolEntry) (name : String) :
    Except Error (Option UnitSymbol) :=
  if entry.sectionIndex = undefinedIndex then
    .ok (if entry.binding = globalBinding then some (.referenced ⟨name⟩) else none)
  else
    (table.place entry.sectionIndex).map fun place =>
      some
        (.defined
          { name := ⟨name⟩
            address := ⟨UInt64.ofNat entry.value⟩
            place
            strength := if entry.binding = weakBinding then .weak else .strong })

/-- The symbol that an entry describes, unless it is local or has no name. -/
def symbol? (table : SymbolTable) (entry : SymbolEntry) :
    Except Error (Option UnitSymbol) :=
  if entry.binding = localBinding then
    .ok none
  else do
    let name ← readString table.data table.strings entry.name
    if name = "" then
      .ok none
    else
      table.named? entry name

def entry (table : SymbolTable) (index : Nat) : Except Error SymbolEntry :=
  (readEntry table.data .symbols table.symbols.offset index).map SymbolEntry.ofRecord

/-- The symbols of the next entries from an index on, after those already found. -/
def symbolsFrom (table : SymbolTable) (index : Nat) (found : Array UnitSymbol) :
    (count : Nat) → Except Error (Array UnitSymbol)
  | 0 => .ok found
  | count + 1 => do
      let next ← table.symbol? (← table.entry index)
      table.symbolsFrom (index + 1) (found ++ next.toArray) count

/-- The number of entries, the reserved one included. -/
def entryCount (table : SymbolTable) : Nat :=
  table.symbols.size / Table.symbols.entrySize

/-- The symbols of all entries but the reserved one. -/
def allSymbols (table : SymbolTable) : Except Error (List UnitSymbol) :=
  (table.symbolsFrom 1 #[] (table.entryCount - 1)).map Array.toList

end SymbolTable
end Elf
end EarlyBoot
