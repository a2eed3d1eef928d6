import EarlyBoot.Elf.Read
import EarlyBoot.Proofs.Outcome

/-!
# Files that are cut short

A reader looks at bytes of the data and, of the length of the data, only whether those
bytes are there.  More bytes at the end therefore make no difference to what it finds:
the longer data gives the same result or the same fault, unless the fault was that the
data ended too early.  `Continues` says this of a reading of some data and the reading
of longer data, and it is kept by every step of a reading.
-/

namespace EarlyBoot
namespace Elf

/-- The faults by which a reader reports that bytes are missing. -/
inductive Error.ReportsShortage : Error → Prop where
  | header : ReportsShortage .truncatedHeader
  | entry (table : Table) (index : Nat) : ReportsShortage (.truncatedEntry table index)
  | string (offset : Nat) : ReportsShortage (.stringOutOfBounds offset)

/-- How the readings of some data and of longer data compare: they give related
results, or fail with the same cause, unless the first one runs out of bytes. -/
inductive Continues {α β : Type} (related : α → β → Prop) :
    Except Error α → Except Error β → Prop where
  | ok {result : α} {longer : β} (same : related result longer) :
      Continues related (.ok result) (.ok longer)
  | error (cause : Error) : Continues related (.error cause) (.error cause)
  | shortage {cause : Error} (short : cause.ReportsShortage) (longer : Except Error β) :
      Continues related (.error cause) longer

namespace Continues

variable {α β α' β' : Type} {related : α → β → Prop} {relatedNext : α' → β' → Prop}

theorem refl (outcome : Except Error α) : Continues Eq outcome outcome := by
  cases outcome with
  | ok result => exact .ok rfl
  | error cause => exact .error cause

theorem bind {first : Except Error α} {second : Except Error β}
    {next : α → Except Error α'} {longerNext : β → Except Error β'}
    (continues : Continues related first second)
    (step : ∀ result longer, related result longer →
      Continues relatedNext (next result) (longerNext longer)) :
    Continues relatedNext (first >>= next) (second >>= longerNext) := by
  cases continues with
  | ok same => exact step _ _ same
  | error cause => exact .error cause
  | shortage short longer => exact .shortage short _

theorem map {first : Except Error α} {second : Except Error β} {change : α → α'}
    {longerChange : β → β'} (continues : Continues related first second)
    (step : ∀ result longer, related result longer →
      relatedNext (change result) (longerChange longer)) :
    Continues relatedNext (first.map change) (second.map longerChange) := by
  cases continues with
  | ok same => exact .ok (step _ _ same)
  | error cause => exact .error cause
  | shortage short longer => exact .shortage short _

theorem mapEq {first second : Except Error α} (continues : Continues Eq first second)
    (change : α → α') : Continues Eq (first.map change) (second.map change) :=
  continues.map fun _ _ same => congrArg change same

/-- A list of readings continues where each of them does. -/
theorem mapM {read readLonger : α → Except Error α'} {elements : List α}
    (continues : ∀ element, Continues Eq (read element) (readLonger element)) :
    Continues Eq (elements.mapM read) (elements.mapM readLonger) := by
  induction elements with
  | nil => exact .refl _
  | cons element elements ih =>
      simp only [List.mapM_cons]
      refine (continues element).bind fun result longer same => ?_
      subst same
      refine ih.bind fun results longer same => ?_
      subst same
      exact .refl _

theorem eq_or_shortage {first second : Except Error α} (continues : Continues Eq first second) :
    second = first ∨ ∃ cause, cause.ReportsShortage ∧ first = .error cause := by
  cases continues with
  | ok same => exact Or.inl (congrArg Except.ok same.symm)
  | error cause => exact Or.inl rfl
  | shortage short longer => exact Or.inr ⟨_, short, rfl⟩

end Continues

section Bytes

variable {data : ByteArray}

/-- Bytes that are there stay the same when more follow. -/
theorem extract_append_of_le {start stop : Nat} (inside : stop ≤ data.size)
    (suffix : ByteArray) : (data ++ suffix).extract start stop = data.extract start stop := by
  have nothing : suffix.extract (start - data.size) (stop - data.size) = .empty := by
    rw [ByteArray.extract_eq_empty_iff]
    omega
  rw [ByteArray.extract_append, nothing, ByteArray.append_empty]

theorem slice?_append {offset size : Nat} {record : List UInt8}
    (found : slice? data offset size = some record) (suffix : ByteArray) :
    slice? (data ++ suffix) offset size = some record := by
  unfold slice? at found ⊢
  split at found
  · next inside =>
      rw [if_pos (by rw [ByteArray.size_append]; omega), extract_append_of_le inside]
      exact found
  · contradiction

theorem getElem?_append {position : Nat} (inside : position < data.size)
    (suffix : ByteArray) : (data ++ suffix)[position]? = data[position]? := by
  have insideLonger : position < (data ++ suffix).size := by
    rw [ByteArray.size_append]
    omega
  rw [getElem?_pos data position inside, getElem?_pos (data ++ suffix) position insideLonger,
    ByteArray.getElem_append_left inside]

theorem zeroAt?_append {start count : Nat} (inside : start + count ≤ data.size)
    (suffix : ByteArray) : zeroAt? (data ++ suffix) start count = zeroAt? data start count := by
  induction count generalizing start with
  | zero => rfl
  | succ count ih =>
      rw [zeroAt?, zeroAt?, getElem?_append (by omega), ih (by omega)]

theorem lt_of_zeroAt? {start count stop : Nat}
    (found : zeroAt? data start count = some stop) : stop < start + count := by
  induction count generalizing start with
  | zero => contradiction
  | succ count ih =>
      rw [zeroAt?] at found
      split at found
      · obtain rfl := Option.some.inj found
        omega
      · have later := ih found
        omega

end Bytes

section Records

variable (data suffix : ByteArray)

theorem continues_readHeader :
    Continues Eq (readHeader data) (readHeader (data ++ suffix)) := by
  unfold readHeader
  cases start : slice? data 0 magic.length with
  | none => exact .shortage .header _
  | some bytes =>
      rw [slice?_append start]
      dsimp only
      split
      · cases whole : slice? data 0 headerSize with
        | none => exact .shortage .header _
        | some record =>
            rw [slice?_append whole]
            exact .refl _
      · exact .error _

/-- Whether an entry begins inside the address space does not depend on the data. -/
theorem continues_readEntry (table : Table) (base index : Nat) :
    Continues Eq (readEntry data table base index)
      (readEntry (data ++ suffix) table base index) := by
  unfold readEntry
  dsimp only
  split
  · cases found : slice? data (base + table.entrySize * index) table.entrySize with
    | none => exact .shortage (.entry table index) _
    | some record =>
        rw [slice?_append found]
        exact .refl _
  · exact .error _

/-- A table of strings that lies in the data lies in longer data as well, with the same
strings. -/
theorem continues_readString (table : SectionHeader) (offset : Nat) :
    Continues Eq (readString data table offset)
      (readString (data ++ suffix) table offset) := by
  unfold readString
  dsimp only
  by_cases inside : offset < table.size ∧ table.offset + table.size ≤ data.size
  · have insideLonger :
        offset < table.size ∧ table.offset + table.size ≤ (data ++ suffix).size := by
      rw [ByteArray.size_append]
      omega
    rw [if_pos inside, if_pos insideLonger, zeroAt?_append (by omega)]
    cases zero : zeroAt? data (table.offset + offset) (table.size - offset) with
    | none => exact .error _
    | some stop =>
        have stopInside : stop ≤ data.size := by
          have before := lt_of_zeroAt? zero
          omega
        simp only [extract_append_of_le stopInside]
        exact .refl _
  · rw [if_neg inside]
    exact .shortage (.string offset) _

end Records

namespace SymbolTable

/-- The same tables in a file that goes on. -/
def extend (table : SymbolTable) (suffix : ByteArray) : SymbolTable :=
  { table with data := table.data ++ suffix }

@[simp]
theorem sections_extend (table : SymbolTable) (suffix : ByteArray) :
    (table.extend suffix).sections = table.sections :=
  rfl

@[simp]
theorem sectionNames_extend (table : SymbolTable) (suffix : ByteArray) :
    (table.extend suffix).sectionNames = table.sectionNames :=
  rfl

section Tables

variable (data suffix : ByteArray)

theorem continues_readSections (header : FileHeader) :
    Continues Eq (readSections data header) (readSections (data ++ suffix) header) :=
  .mapM fun index =>
    (continues_readEntry data suffix .sections header.sectionTableOffset index).mapEq _

/-- The tables are found among the section headers, without a look at the data. -/
theorem locate_append (header : FileHeader) (sections : List SectionHeader) :
    locate (data ++ suffix) header sections =
      (locate data header sections).map fun table => table.extend suffix := by
  unfold locate
  cases sections.find? fun candidate => candidate.kind = symbolTableKind with
  | none => rfl
  | some symbols =>
      dsimp only
      split
      · rfl
      · cases sections[symbols.link]? with
        | none => rfl
        | some strings => rfl

theorem continues_locate (header : FileHeader) (sections : List SectionHeader) :
    Continues (fun table longer => longer = table.extend suffix)
      (locate data header sections) (locate (data ++ suffix) header sections) := by
  rw [locate_append]
  cases locate data header sections with
  | ok table => exact .ok rfl
  | error cause => exact .error cause

theorem continues_ofData :
    Continues (fun table longer => longer = table.extend suffix)
      (ofData data) (ofData (data ++ suffix)) := by
  unfold ofData
  refine (continues_readHeader data suffix).bind fun header longer same => ?_
  subst same
  refine (Continues.refl (checkHeader header)).bind fun checked longer same => ?_
  refine (continues_readSections data suffix header).bind fun sections longer same => ?_
  subst same
  exact continues_locate data suffix header sections

end Tables

section Symbols

variable (table : SymbolTable) (suffix : ByteArray)

theorem continues_place (index : Nat) :
    Continues Eq (table.place index) ((table.extend suffix).place index) := by
  unfold place
  split
  · exact .refl _
  split
  · exact .refl _
  rw [sections_extend, sectionNames_extend]
  cases table.sections[index]? with
  | none => exact .refl _
  | some header =>
      cases table.sectionNames with
      | none => exact .refl _
      | some names => exact (continues_readString table.data suffix names header.name).mapEq _

theorem continues_named? (entry : SymbolEntry) (name : String) :
    Continues Eq (table.named? entry name) ((table.extend suffix).named? entry name) := by
  unfold named?
  split
  · exact .refl _
  · exact (table.continues_place suffix entry.sectionIndex).mapEq _

theorem continues_symbol? (entry : SymbolEntry) :
    Continues Eq (table.symbol? entry) ((table.extend suffix).symbol? entry) := by
  unfold symbol?
  split
  · exact .refl _
  · refine (continues_readString table.data suffix table.strings entry.name).bind
      fun name longer same => ?_
    subst same
    split
    · exact .refl _
    · exact table.continues_named? suffix entry name

theorem continues_entry (index : Nat) :
    Continues Eq (table.entry index) ((table.extend suffix).entry index) :=
  (continues_readEntry table.data suffix .symbols table.symbols.offset index).mapEq _

theorem continues_symbolsFrom (index : Nat) (found : Array UnitSymbol) (count : Nat) :
    Continues Eq (table.symbolsFrom index found count)
      ((table.extend suffix).symbolsFrom index found count) := by
  induction count generalizing index found with
  | zero => exact .refl _
  | succ count ih =>
      unfold symbolsFrom
      refine (table.continues_entry suffix index).bind fun entry longer same => ?_
      subst same
      refine (table.continues_symbol? suffix entry).bind fun next longer same => ?_
      subst same
      exact ih (index + 1) (found ++ next.toArray)

theorem continues_allSymbols :
    Continues Eq table.allSymbols (table.extend suffix).allSymbols :=
  (table.continues_symbolsFrom suffix 1 #[] (table.entryCount - 1)).mapEq _

end Symbols

end SymbolTable

theorem outcome_readUnit (name : String) (data : ByteArray) :
    (readUnit name data).outcome =
      SymbolTable.ofData data >>= fun table =>
        table.allSymbols.map (LinkUnit.ofSymbols name) := by
  simp only [readUnit, Logged.outcome_bind, Logged.outcome_ofExcept, Logged.outcome_write,
    Logged.outcome_pure]
  rfl

theorem continues_readUnit (name : String) (data suffix : ByteArray) :
    Continues Eq (readUnit name data).outcome (readUnit name (data ++ suffix)).outcome := by
  rw [outcome_readUnit, outcome_readUnit]
  refine (SymbolTable.continues_ofData data suffix).bind fun table longer same => ?_
  subst same
  exact (table.continues_allSymbols suffix).mapEq _

/-- Bytes that follow a file do not change what is read from it, unless the reading had
failed because bytes were missing.  A file that is cut short is therefore read as the
same unit, or it is refused because bytes are missing. -/
theorem outcome_readUnit_append (name : String) (data : ByteArray) :
    (∀ suffix, (readUnit name (data ++ suffix)).outcome = (readUnit name data).outcome ∨
      ∃ cause, cause.ReportsShortage ∧ (readUnit name data).outcome = .error cause) ∧
    ∀ length,
      (readUnit name (data.extract 0 length)).outcome = (readUnit name data).outcome ∨
        ∃ cause, cause.ReportsShortage ∧
          (readUnit name (data.extract 0 length)).outcome = .error cause := by
  constructor
  · intro suffix
    exact (continues_readUnit name data suffix).eq_or_shortage
  · intro length
    have whole : data.extract 0 length ++ data.extract length data.size = data := by
      rw [ByteArray.extract_append_extract, Nat.zero_min, ByteArray.extract_zero_max_size]
    have continues := continues_readUnit name (data.extract 0 length)
      (data.extract length data.size)
    rw [whole] at continues
    rcases continues.eq_or_shortage with same | shortage
    · exact Or.inl same.symm
    · exact Or.inr shortage

end Elf
end EarlyBoot
