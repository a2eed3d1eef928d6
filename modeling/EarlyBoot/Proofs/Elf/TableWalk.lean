import EarlyBoot.Proofs.Elf.Decoding
import EarlyBoot.Proofs.Elf.Truncation
import Mathlib.Algebra.GroupWithZero.Nat
import Mathlib.Control.Monad.Basic

/-!
# Walks over the tables of a file

The section headers and the symbols of a file are read one after the other, and each
entry is read only when all entries before it lie in the data.  The data ends inside
the address space, so that an entry behind another one begins inside it as well: only
the first entry of a walk can begin beyond it.  The offset of the section headers is
itself an address, which leaves the symbols.  For the same reason the number of symbols
is bounded by the size of the data, whatever the file announces.
-/

namespace EarlyBoot
namespace Elf

open Format

variable {data : ByteArray} {table : Table} {base index : Nat} {cause : Error}

/-- The faults that name an entry of a table. -/
inductive Error.NamesEntry : Error → Prop where
  | overflow (table : Table) (index : Nat) : NamesEntry (.offsetOverflow table index)
  | truncated (table : Table) (index : Nat) : NamesEntry (.truncatedEntry table index)

/-- The bytes of an entry are part of the data. -/
def EntryInside (data : ByteArray) (table : Table) (base index : Nat) : Prop :=
  base + table.entrySize * index + table.entrySize ≤ data.size

/-- Of the entries from a first one on, the one at the index is the first whose bytes
are not all in the data. -/
structure FirstOutside (data : ByteArray) (table : Table) (base first index : Nat) :
    Prop where
  first_le : first ≤ index
  outside : ¬ EntryInside data table base index
  before_inside : ∀ earlier, first ≤ earlier → earlier < index →
    EntryInside data table base earlier

section Entries

theorem entryInside_of_readEntry {record : List UInt8}
    (found : readEntry data table base index = .ok record) :
    EntryInside data table base index := by
  unfold readEntry at found
  dsimp only at found
  split at found
  · split at found
    · contradiction
    · next slice => exact (slice?_eq_some_iff.mp slice).1
  · contradiction

theorem readEntry_eq_error (addressable : data.size < UInt64.size)
    (failed : readEntry data table base index = .error cause) :
    ¬ EntryInside data table base index ∧
      (cause = .truncatedEntry table index ∨
        cause = .offsetOverflow table index ∧
          UInt64.size ≤ base + table.entrySize * index) := by
  unfold readEntry at failed
  dsimp only at failed
  split at failed
  · split at failed
    · next missing =>
        injection failed with isCause
        refine ⟨fun inside => ?_, Or.inl isCause.symm⟩
        rw [slice?_eq_some_iff.mpr ⟨inside, rfl⟩] at missing
        contradiction
    · contradiction
  · next beyond =>
      injection failed with isCause
      refine ⟨fun inside => ?_, Or.inr ⟨isCause.symm, Nat.le_of_not_lt beyond⟩⟩
      unfold EntryInside at inside
      omega

/-- An entry begins where the one before it ends. -/
theorem position_succ (table : Table) (base index : Nat) :
    base + table.entrySize * (index + 1) =
      base + table.entrySize * index + table.entrySize := by
  rw [Nat.mul_succ, Nat.add_assoc]

/-- Where a walk stops, the data ends, unless the first entry of the walk begins beyond
the address space. -/
theorem walk_stops (addressable : data.size < UInt64.size) {first : Nat}
    (notBefore : first ≤ index)
    (inside : ∀ earlier, first ≤ earlier → earlier < index →
      EntryInside data table base earlier)
    (failed : readEntry data table base index = .error cause) :
    FirstOutside data table base first index ∧
      (cause = .truncatedEntry table index ∨
        cause = .offsetOverflow table index ∧ index = first ∧
          UInt64.size ≤ base + table.entrySize * first) := by
  obtain ⟨outside, isCause⟩ := readEntry_eq_error addressable failed
  refine ⟨⟨notBefore, outside, inside⟩, ?_⟩
  rcases isCause with truncated | ⟨overflow, beyond⟩
  · exact Or.inl truncated
  · right
    rcases Nat.eq_or_lt_of_le notBefore with rfl | behind
    · exact ⟨overflow, rfl, beyond⟩
    · obtain ⟨previous, rfl⟩ := Nat.exists_eq_succ_of_ne_zero (Nat.ne_zero_of_lt behind)
      have previousInside := inside previous (Nat.le_of_lt_succ behind) (Nat.lt_succ_self previous)
      rw [position_succ] at beyond
      unfold EntryInside at previousInside
      omega

end Entries

/-- The outcome is a result or a fault that names no entry. -/
inductive NoEntryFault {α : Type} : Except Error α → Prop where
  | ok (result : α) : NoEntryFault (.ok result)
  | error {cause : Error} (unnamed : ¬ cause.NamesEntry) : NoEntryFault (.error cause)

namespace NoEntryFault

variable {α β : Type}

theorem bind {first : Except Error α} {next : α → Except Error β}
    (noFault : NoEntryFault first) (later : ∀ result, NoEntryFault (next result)) :
    NoEntryFault (first >>= next) := by
  cases noFault with
  | ok result => exact later result
  | error unnamed => exact .error unnamed

theorem map {outcome : Except Error α} (noFault : NoEntryFault outcome) (change : α → β) :
    NoEntryFault (outcome.map change) := by
  cases noFault with
  | ok result => exact .ok _
  | error unnamed => exact .error unnamed

theorem ne_error {outcome : Except Error α} (noFault : NoEntryFault outcome)
    (names : cause.NamesEntry) : outcome ≠ .error cause := by
  rintro rfl
  cases noFault with
  | error unnamed => exact unnamed names

end NoEntryFault

section OtherFaults

theorem noEntryFault_readHeader (data : ByteArray) : NoEntryFault (readHeader data) := by
  unfold readHeader
  split
  · exact .error nofun
  · split
    · split
      · exact .error nofun
      · exact .ok _
    · exact .error nofun

theorem noEntryFault_readString (data : ByteArray) (strings : SectionHeader) (offset : Nat) :
    NoEntryFault (readString data strings offset) := by
  unfold readString
  dsimp only
  split
  · split
    · exact .error nofun
    · split
      · exact .error nofun
      · exact .ok _
  · exact .error nofun

namespace SymbolTable

theorem noEntryFault_checkHeader (header : FileHeader) :
    NoEntryFault (checkHeader header) := by
  unfold checkHeader
  split
  · exact .error nofun
  split
  · exact .error nofun
  split
  · exact .error nofun
  · exact .ok _

theorem noEntryFault_locate (data : ByteArray) (header : FileHeader)
    (sections : List SectionHeader) : NoEntryFault (locate data header sections) := by
  unfold locate
  split
  · exact .error nofun
  · split
    · exact .error nofun
    · split
      · exact .error nofun
      · exact .ok _

theorem noEntryFault_place (tables : SymbolTable) (index : Nat) :
    NoEntryFault (tables.place index) := by
  unfold place
  split
  · exact .ok _
  split
  · exact .ok _
  split
  · exact .error nofun
  · split
    · exact .ok _
    · exact (noEntryFault_readString ..).map _

theorem noEntryFault_symbol? (tables : SymbolTable) (entry : SymbolEntry) :
    NoEntryFault (tables.symbol? entry) := by
  unfold symbol?
  split
  · exact .ok _
  · refine (noEntryFault_readString ..).bind fun name => ?_
    split
    · exact .ok _
    · unfold named?
      split
      · exact .ok _
      · exact (noEntryFault_place ..).map _

end SymbolTable

end OtherFaults

section Walks

/-- The section headers are read up to the first one that is not there. -/
theorem exists_of_readSections_eq_error {header : FileHeader}
    (failed : SymbolTable.readSections data header = .error cause) :
    ∃ failing < header.sectionCount,
      (∀ earlier < failing, EntryInside data .sections header.sectionTableOffset earlier) ∧
      readEntry data .sections header.sectionTableOffset failing = .error cause := by
  obtain ⟨before, failing, after, whole, passed, fails⟩ :=
    Outcome.exists_of_mapM_eq_error failed
  rw [List.range_eq_range', List.range'_eq_append_iff] at whole
  obtain ⟨count, -, rfl, isRest⟩ := whole
  obtain ⟨rfl, inTable, -⟩ := List.range'_eq_cons_iff.mp isRest.symm
  simp only [Nat.zero_add, Nat.mul_one] at fails
  refine ⟨count, by omega, fun earlier isEarlier => ?_, Outcome.map_eq_error_iff.mp fails⟩
  obtain ⟨read, isRead⟩ := passed earlier (List.mem_range'_1.mpr (by omega))
  obtain ⟨record, found, -⟩ := Outcome.map_eq_ok_iff.mp isRead
  exact entryInside_of_readEntry found

/-- The symbols are read up to the first entry that is not there. -/
theorem exists_of_symbolsFrom_eq_error {tables : SymbolTable} {found : Array UnitSymbol}
    {count : Nat} (names : cause.NamesEntry)
    (failed : tables.symbolsFrom index found count = .error cause) :
    ∃ failing, index ≤ failing ∧ failing < index + count ∧
      (∀ earlier, index ≤ earlier → earlier < failing →
        EntryInside tables.data .symbols tables.symbols.offset earlier) ∧
      readEntry tables.data .symbols tables.symbols.offset failing = .error cause := by
  induction count generalizing index found with
  | zero => contradiction
  | succ count ih =>
      rw [SymbolTable.symbolsFrom, Outcome.bind_eq_error_iff] at failed
      rcases failed with unread | ⟨entry, isRead, failed⟩
      · refine ⟨index, Nat.le_refl _, by omega, fun earlier notBefore before => ?_,
          Outcome.map_eq_error_iff.mp unread⟩
        omega
      · rw [Outcome.bind_eq_error_iff] at failed
        rcases failed with fault | ⟨next, -, later⟩
        · exact absurd fault ((tables.noEntryFault_symbol? entry).ne_error names)
        · obtain ⟨failing, behind, inWalk, inside, fails⟩ := ih later
          refine ⟨failing, by omega, by omega, fun earlier notBefore before => ?_, fails⟩
          rcases Nat.eq_or_lt_of_le notBefore with rfl | isLater
          · obtain ⟨record, found, -⟩ := Outcome.map_eq_ok_iff.mp isRead
            exact entryInside_of_readEntry found
          · exact inside earlier isLater before

end Walks

section Numbers

theorem numberAt_lt (data : ByteArray) (offset width : Nat) :
    numberAt data offset width < 256 ^ width := by
  induction width generalizing offset with
  | zero => exact Nat.one_pos
  | succ width ih =>
      have lowest := (data[offset]?.getD 0).toNat_lt
      have higher := ih (offset + 1)
      rw [numberAt, Nat.pow_succ]
      omega

/-- The offset of the section headers is an address. -/
theorem sectionTable_lt (data : ByteArray) : sectionTable data < UInt64.size :=
  numberAt_lt data 40 8

end Numbers

section Faults

/-- The tables are found, or a section header is at fault. -/
theorem ofData_eq_error (addressable : data.size < UInt64.size) (names : cause.NamesEntry)
    (failed : SymbolTable.ofData data = .error cause) :
    ∃ index < sectionCount data, cause = .truncatedEntry .sections index ∧
      FirstOutside data .sections (sectionTable data) 0 index := by
  unfold SymbolTable.ofData at failed
  rw [Outcome.bind_eq_error_iff] at failed
  rcases failed with noHeader | ⟨header, isHeader, failed⟩
  · exact absurd noHeader ((noEntryFault_readHeader data).ne_error names)
  obtain ⟨-, rfl⟩ := readHeader_eq_ok_iff.mp isHeader
  rw [Outcome.bind_eq_error_iff] at failed
  rcases failed with refused | ⟨-, -, failed⟩
  · exact absurd refused ((SymbolTable.noEntryFault_checkHeader _).ne_error names)
  rw [Outcome.bind_eq_error_iff] at failed
  rcases failed with unread | ⟨sections, -, missing⟩
  · obtain ⟨index, inTable, inside, fails⟩ := exists_of_readSections_eq_error unread
    obtain ⟨isFirst, truncated | ⟨-, rfl, beyond⟩⟩ := walk_stops addressable
      (Nat.zero_le index) (fun earlier _ before => inside earlier before) fails
    · exact ⟨index, inTable, truncated, isFirst⟩
    · simp only [headerOf, Nat.mul_zero, Nat.add_zero] at beyond
      exact absurd (sectionTable_lt data) (Nat.not_lt_of_le beyond)
  · exact absurd missing ((SymbolTable.noEntryFault_locate ..).ne_error names)

/-- The symbols are found, or an entry is at fault. -/
theorem allSymbols_eq_error (addressable : data.size < UInt64.size) (names : cause.NamesEntry)
    {symbols : SectionHeader} (failed : (tableOf data symbols).allSymbols = .error cause) :
    ∃ index < symbols.size / 24, FirstOutside data .symbols symbols.offset 1 index ∧
      (cause = .truncatedEntry .symbols index ∨
        cause = .offsetOverflow .symbols 1 ∧ UInt64.size ≤ symbols.offset + 24) := by
  obtain ⟨index, notBefore, inTable, inside, fails⟩ :=
    exists_of_symbolsFrom_eq_error names (Outcome.map_eq_error_iff.mp failed)
  have count : (tableOf data symbols).entryCount = symbols.size / 24 := rfl
  obtain ⟨isFirst, truncated | ⟨overflow, rfl, beyond⟩⟩ :=
    walk_stops addressable notBefore inside fails
  · exact ⟨index, by omega, isFirst, Or.inl truncated⟩
  · exact ⟨1, by omega, isFirst, Or.inr ⟨overflow, beyond⟩⟩

/-- A fault that names an entry is a fault of the first entry that is not there. -/
theorem entryFault_of_readUnit (addressable : data.size < UInt64.size) {name : String}
    (names : cause.NamesEntry) (failed : (readUnit name data).outcome = .error cause) :
    (∃ index < sectionCount data, cause = .truncatedEntry .sections index ∧
      FirstOutside data .sections (sectionTable data) 0 index) ∨
    ∃ symbols, symbolTable? data = some symbols ∧
      ∃ index < symbols.size / 24, FirstOutside data .symbols symbols.offset 1 index ∧
        (cause = .truncatedEntry .symbols index ∨
          cause = .offsetOverflow .symbols 1 ∧ UInt64.size ≤ symbols.offset + 24) := by
  rw [outcome_readUnit, Outcome.bind_eq_error_iff] at failed
  rcases failed with noTables | ⟨tables, found, failed⟩
  · exact Or.inl (ofData_eq_error addressable names noTables)
  · obtain ⟨symbols, located, rfl⟩ := (ofData_eq_ok_iff addressable).mp found
    exact Or.inr ⟨symbols, located.symbolTable,
      allSymbols_eq_error addressable names (Outcome.map_eq_error_iff.mp failed)⟩

end Faults

section Counts

theorem length_ofSymbols (name : String) (symbols : List UnitSymbol) :
    (LinkUnit.ofSymbols name symbols).definitions.length +
        (LinkUnit.ofSymbols name symbols).references.length =
      symbols.length := by
  induction symbols with
  | nil => rfl
  | cons symbol symbols ih =>
      cases symbol with
      | defined definition =>
          simp only [LinkUnit.ofSymbols, List.filterMap_cons, UnitSymbol.definition?,
            UnitSymbol.reference?, List.length_cons] at ih ⊢
          omega
      | referenced name =>
          simp only [LinkUnit.ofSymbols, List.filterMap_cons, UnitSymbol.definition?,
            UnitSymbol.reference?, List.length_cons] at ih ⊢
          omega

/-- The last entry that is read ends inside the data. -/
theorem length_entryIndices_le {symbols : SectionHeader}
    (readable : ∀ index, 1 ≤ index → index < symbols.size / 24 →
      EntryReadable data symbols index) :
    (entryIndices symbols).length ≤ data.size / 24 := by
  rw [entryIndices, List.length_range']
  by_cases single : symbols.size / 24 ≤ 1
  · omega
  · have last := (readable (symbols.size / 24 - 1) (by omega) (by omega)).inside
    omega

theorem length_of_readUnit (addressable : data.size < UInt64.size) {name : String}
    {unit : LinkUnit} (read : (readUnit name data).outcome = .ok unit) :
    unit.definitions.length + unit.references.length ≤ data.size / 24 := by
  rw [outcome_readUnit, Outcome.bind_eq_ok_iff] at read
  obtain ⟨tables, found, read⟩ := read
  obtain ⟨symbols, -, rfl⟩ := (ofData_eq_ok_iff addressable).mp found
  obtain ⟨collected, allRead, rfl⟩ := Outcome.map_eq_ok_iff.mp read
  obtain ⟨readable, rfl⟩ := (allSymbols_eq_ok_iff addressable).mp allRead
  rw [length_ofSymbols]
  exact Nat.le_trans (List.length_filterMap_le _ _) (length_entryIndices_le readable)

end Counts

/-- A walk over a table never computes an offset beyond the address space, but for the
first symbol of a table that begins at its very end; where it stops for want of data, it
stops at the first entry that is not all in the data.  A unit never has more symbols than
fit into its file. -/
theorem outcome_readUnit_walks (name : String) (addressable : data.size < UInt64.size) :
    (∀ index, (readUnit name data).outcome ≠ .error (.offsetOverflow .sections index)) ∧
    (∀ index, (readUnit name data).outcome = .error (.offsetOverflow .symbols index) →
      index = 1 ∧ ∃ symbols, symbolTable? data = some symbols ∧
        UInt64.size ≤ symbols.offset + 24) ∧
    (∀ index, (readUnit name data).outcome = .error (.truncatedEntry .sections index) →
      index < sectionCount data ∧ FirstOutside data .sections (sectionTable data) 0 index) ∧
    (∀ index, (readUnit name data).outcome = .error (.truncatedEntry .symbols index) →
      ∃ symbols, symbolTable? data = some symbols ∧ index < symbols.size / 24 ∧
        FirstOutside data .symbols symbols.offset 1 index) ∧
    ∀ unit, (readUnit name data).outcome = .ok unit →
      unit.definitions.length + unit.references.length ≤ data.size / 24 := by
  refine ⟨fun index failed => ?_, fun index failed => ?_, fun index failed => ?_,
    fun index failed => ?_, fun unit => length_of_readUnit addressable⟩
  · rcases entryFault_of_readUnit addressable (.overflow _ _) failed with
      ⟨_, -, impossible, -⟩ | ⟨_, -, _, -, -, impossible | ⟨impossible, -⟩⟩
    all_goals cases impossible
  · rcases entryFault_of_readUnit addressable (.overflow _ _) failed with
      ⟨_, -, impossible, -⟩ | ⟨symbols, found, _, -, -, impossible | ⟨overflow, beyond⟩⟩
    · cases impossible
    · cases impossible
    · injection overflow with _ isFirst
      exact ⟨isFirst, symbols, found, beyond⟩
  · rcases entryFault_of_readUnit addressable (.truncated _ _) failed with
      ⟨_, inTable, truncated, isFirst⟩ | ⟨_, -, _, -, -, impossible | ⟨impossible, -⟩⟩
    · injection truncated with _ same
      subst same
      exact ⟨inTable, isFirst⟩
    all_goals cases impossible
  · rcases entryFault_of_readUnit addressable (.truncated _ _) failed with
      ⟨_, -, impossible, -⟩ | ⟨symbols, found, _, inTable, isFirst, truncated | ⟨impossible, -⟩⟩
    · cases impossible
    · injection truncated with _ same
      subst same
      exact ⟨symbols, found, inTable, isFirst⟩
    · cases impossible

/-- A file with one section, a symbol table that begins with the last bytes of the
address space.  The reserved entry takes all of them. -/
def farFile : ByteArray :=
  -- The file header: the section headers begin at 64, and there is one of them.
  ⟨⟨[0x7F, 0x45, 0x4C, 0x46, 2, 1, 1] ++ List.replicate 33 0 ++
    [64, 0, 0, 0, 0, 0, 0, 0] ++ List.replicate 10 0 ++ [64, 0, 1, 0, 1, 0] ++
    -- The symbols lie far behind the data, and the file has no strings for them.
    [0, 0, 0, 0, 2, 0, 0, 0] ++ List.replicate 16 0 ++
    [0xE8, 0xFF, 0xFF, 0xFF, 0xFF, 0xFF, 0xFF, 0xFF] ++ [48, 0, 0, 0, 0, 0, 0, 0] ++
    List.replicate 16 0 ++ [24, 0, 0, 0, 0, 0, 0, 0]⟩⟩

/-- The first symbol of the file begins beyond the address space.  Without its end the
file has no section. -/
theorem outcome_readUnit_walks_farFile :
    (farFile.size < UInt64.size ∧
      (readUnit "a.o" farFile).outcome = .error (.offsetOverflow .symbols 1) ∧
      ∃ symbols, symbolTable? farFile = some symbols ∧ UInt64.size ≤ symbols.offset + 24) ∧
    (farFile.extract 0 127).size < UInt64.size ∧
      (readUnit "a.o" (farFile.extract 0 127)).outcome =
        .error (.truncatedEntry .sections 0) ∧
      FirstOutside (farFile.extract 0 127) .sections (sectionTable (farFile.extract 0 127))
        0 0 := by
  constructor
  · have addressable : farFile.size < UInt64.size := by decide +kernel
    have failed : (readUnit "a.o" farFile).outcome = .error (.offsetOverflow .symbols 1) := by
      decide +kernel
    obtain ⟨-, overflow, -⟩ := outcome_readUnit_walks "a.o" addressable
    exact ⟨addressable, failed, (overflow 1 failed).2⟩
  · have addressable : (farFile.extract 0 127).size < UInt64.size := by decide +kernel
    have failed : (readUnit "a.o" (farFile.extract 0 127)).outcome =
        .error (.truncatedEntry .sections 0) := by
      decide +kernel
    obtain ⟨-, -, truncated, -⟩ := outcome_readUnit_walks "a.o" addressable
    exact ⟨addressable, failed, (truncated 0 failed).2⟩

end Elf
end EarlyBoot
