import Std.Data.HashMap
import EarlyBoot.SymbolName

/-!
# Tables of named entries

A name table keeps entries in the order in which their names first appeared and
finds an entry by its name.  Inserting an entry whose name is there already puts
the new entry in the place of the old one.  `NameTable.toList` is the view in
which the operations are described: no two entries of it share a name.
-/

namespace EarlyBoot

/-- What has a symbol name. -/
class Named (α : Type) where
  name : α → SymbolName

/-- Entries in order and the position of every name among them. -/
structure NameTable (α : Type) [Named α] where
  entries : Array α
  positions : Std.HashMap SymbolName Nat
  /-- A name has a position exactly when the entry there carries it. -/
  located : ∀ (name : SymbolName) (position : Nat),
    positions[name]? = some position ↔
      ∃ entry, entries[position]? = some entry ∧ Named.name entry = name

namespace NameTable

variable {α β : Type} [Named α] [Named β]

/-- The table without entries. -/
def empty : NameTable α where
  entries := #[]
  positions := ∅
  located := by simp

/-- The entries in order. -/
def toList (table : NameTable α) : List α :=
  table.entries.toList

/-- The number of entries. -/
def size (table : NameTable α) : Nat :=
  table.entries.size

/-- The entry that carries a name. -/
def find? (table : NameTable α) (name : SymbolName) : Option α :=
  table.positions[name]?.bind fun position => table.entries[position]?

private theorem located_setIfInBounds (table : NameTable α) {entry : α}
    {place : Nat} (found : table.positions[Named.name entry]? = some place)
    (name : SymbolName) (position : Nat) :
    table.positions[name]? = some position ↔
      ∃ other, (table.entries.setIfInBounds place entry)[position]? = some other ∧
        Named.name other = name := by
  obtain ⟨old, oldAt, sameName⟩ := (table.located _ _).mp found
  obtain ⟨inBounds, -⟩ := Array.getElem?_eq_some_iff.mp oldAt
  rw [table.located, Array.getElem?_setIfInBounds]
  by_cases here : place = position
  · subst here
    rw [oldAt]
    simp [inBounds, sameName]
  · simp [here]

private theorem located_push (table : NameTable α) {entry : α}
    (absent : table.positions[Named.name entry]? = none)
    (name : SymbolName) (position : Nat) :
    (table.positions.insert (Named.name entry) table.entries.size)[name]? =
        some position ↔
      ∃ other, (table.entries.push entry)[position]? = some other ∧
        Named.name other = name := by
  rw [Std.HashMap.getElem?_insert, Array.getElem?_push]
  by_cases same : Named.name entry = name
  · subst same
    have elsewhere : ∀ other, table.entries[position]? = some other →
        Named.name other ≠ Named.name entry := by
      intro other otherAt sameName
      simp [(table.located _ _).mpr ⟨other, otherAt, sameName⟩] at absent
    by_cases last : position = table.entries.size
    · simp [last]
    · simp only [beq_self_eq_true, if_true, last, if_false, Option.some.injEq]
      constructor
      · exact fun equal => absurd equal.symm last
      · rintro ⟨other, otherAt, sameName⟩
        exact absurd sameName (elsewhere other otherAt)
  · by_cases last : position = table.entries.size
    · subst last
      have outside : table.positions[name]? ≠ some table.entries.size := by
        intro found
        simpa using (table.located _ _).mp found
      simp [same, outside]
    · simp [same, last, table.located]

/-- Adds an entry, in the place of the entry of the same name if there is one and
at the end otherwise. -/
def insert (table : NameTable α) (entry : α) : NameTable α :=
  match found : table.positions[Named.name entry]? with
  | some place =>
      { entries := table.entries.setIfInBounds place entry
        positions := table.positions
        located := located_setIfInBounds table found }
  | none =>
      let position := table.entries.size
      { entries := table.entries.push entry
        positions := table.positions.insert (Named.name entry) position
        located := located_push table found }

/-- Applies a function that keeps names to every entry. -/
def map (table : NameTable α) (change : α → β)
    (keepsName : ∀ entry, Named.name (change entry) = Named.name entry) :
    NameTable β where
  entries := table.entries.map change
  positions := table.positions
  located := by
    intro name position
    simp only [table.located, Array.getElem?_map, Option.map_eq_some_iff]
    constructor
    · rintro ⟨entry, entryAt, rfl⟩
      exact ⟨change entry, ⟨entry, entryAt, rfl⟩, keepsName entry⟩
    · rintro ⟨_, ⟨entry, entryAt, rfl⟩, rfl⟩
      exact ⟨entry, entryAt, (keepsName entry).symm⟩

@[simp]
theorem toList_empty : (empty : NameTable α).toList = [] :=
  rfl

@[simp]
theorem toList_map (table : NameTable α) (change : α → β)
    (keepsName : ∀ entry, Named.name (change entry) = Named.name entry) :
    (table.map change keepsName).toList = table.toList.map change := by
  simp [toList, map]

@[simp]
theorem find?_empty (name : SymbolName) : (empty : NameTable α).find? name = none := by
  simp [find?, empty]

/-- A name finds in the changed table what becomes of the entry it found. -/
@[simp]
theorem find?_map (table : NameTable α) (change : α → β)
    (keepsName : ∀ entry, Named.name (change entry) = Named.name entry)
    (name : SymbolName) :
    (table.map change keepsName).find? name = (table.find? name).map change := by
  simp only [find?, map, Option.map_bind]
  congr 1
  funext index
  exact Array.getElem?_map

theorem find?_eq_some_iff {table : NameTable α} {name : SymbolName} {entry : α} :
    table.find? name = some entry ↔
      entry ∈ table.toList ∧ Named.name entry = name := by
  constructor
  · intro found
    obtain ⟨position, located, entryAt⟩ := Option.bind_eq_some_iff.mp found
    obtain ⟨other, otherAt, sameName⟩ := (table.located _ _).mp located
    rw [entryAt] at otherAt
    obtain rfl := Option.some.inj otherAt
    exact ⟨Array.mem_toList_iff.mpr (Array.mem_of_getElem? entryAt), sameName⟩
  · rintro ⟨member, rfl⟩
    obtain ⟨position, entryAt⟩ := Array.getElem?_of_mem (Array.mem_toList_iff.mp member)
    have located := (table.located _ _).mpr ⟨entry, entryAt, rfl⟩
    simp [find?, located, entryAt]

/-- A name that is not found is the name of no entry. -/
theorem find?_eq_none_iff {table : NameTable α} {name : SymbolName} :
    table.find? name = none ↔ ∀ entry ∈ table.toList, Named.name entry ≠ name := by
  rw [Option.eq_none_iff_forall_ne_some]
  constructor
  · intro notFound entry member sameName
    exact notFound entry (find?_eq_some_iff.mpr ⟨member, sameName⟩)
  · intro absent entry found
    obtain ⟨member, sameName⟩ := find?_eq_some_iff.mp found
    exact absent entry member sameName

/-- No two entries share a name. -/
theorem nodup_names (table : NameTable α) : (table.toList.map Named.name).Nodup := by
  rw [List.Nodup, List.pairwise_map, List.pairwise_iff_getElem]
  intro first second firstBound secondBound before sameName
  have firstPlace := (table.located (Named.name table.toList[first]) first).mpr
    ⟨_, Array.getElem?_eq_getElem firstBound, rfl⟩
  have secondPlace := (table.located (Named.name table.toList[second]) second).mpr
    ⟨_, Array.getElem?_eq_getElem secondBound, rfl⟩
  rw [sameName, secondPlace] at firstPlace
  exact absurd (Option.some.inj firstPlace) (Nat.ne_of_gt before)

/-- An entry with a new name goes to the end. -/
theorem toList_insert_of_find?_eq_none {table : NameTable α} {entry : α}
    (absent : table.find? (Named.name entry) = none) :
    (table.insert entry).toList = table.toList ++ [entry] := by
  unfold insert
  split
  · next place found =>
      obtain ⟨other, otherAt, -⟩ := (table.located _ _).mp found
      simp [find?, found, otherAt] at absent
  · simp [toList]

/-- An entry with a known name takes the place of the entry of that name. -/
theorem toList_insert_of_find?_eq_some {table : NameTable α} {entry old : α}
    (present : table.find? (Named.name entry) = some old) :
    (table.insert entry).toList =
      table.toList.map fun other =>
        if Named.name other = Named.name entry then entry else other := by
  unfold insert
  split
  · next place found =>
      apply List.ext_getElem?
      intro position
      simp only [toList, Array.toList_setIfInBounds, List.getElem?_set, List.getElem?_map,
        Array.getElem?_toList, Array.length_toList]
      obtain ⟨owner, ownerAt, ownerName⟩ := (table.located _ _).mp found
      by_cases here : place = position
      · subst here
        obtain ⟨inBounds, -⟩ := Array.getElem?_eq_some_iff.mp ownerAt
        rw [ownerAt]
        simp [inBounds, ownerName]
      · rw [if_neg here]
        cases otherAt : table.entries[position]? with
        | none => rfl
        | some other =>
            have otherName : Named.name other ≠ Named.name entry := by
              intro sameName
              have located := (table.located _ _).mpr ⟨other, otherAt, sameName⟩
              rw [found] at located
              exact here (Option.some.inj located)
            simp [otherName]
  · next found => simp [find?, found] at present

/-- Inserting an entry decides what its name finds and nothing else. -/
theorem find?_insert (table : NameTable α) (entry : α) (name : SymbolName) :
    (table.insert entry).find? name =
      if Named.name entry = name then some entry else table.find? name := by
  cases present : table.find? (Named.name entry) with
  | none =>
      split
      · next same =>
          rw [find?_eq_some_iff, toList_insert_of_find?_eq_none present]
          simp [same]
      · next other =>
          apply Option.ext
          intro found
          simp only [find?_eq_some_iff, toList_insert_of_find?_eq_none present,
            List.mem_append, List.mem_singleton]
          constructor
          · rintro ⟨member | rfl, sameName⟩
            · exact ⟨member, sameName⟩
            · exact absurd sameName other
          · rintro ⟨member, sameName⟩
            exact ⟨Or.inl member, sameName⟩
  | some old =>
      obtain ⟨oldMember, oldName⟩ := find?_eq_some_iff.mp present
      split
      · next same =>
          rw [find?_eq_some_iff, toList_insert_of_find?_eq_some present]
          exact ⟨List.mem_map.mpr ⟨old, oldMember, by simp [oldName]⟩, same⟩
      · next other =>
          apply Option.ext
          intro found
          simp only [find?_eq_some_iff, toList_insert_of_find?_eq_some present,
            List.mem_map]
          constructor
          · rintro ⟨⟨before, member, rfl⟩, sameName⟩
            split at sameName
            · exact absurd sameName other
            · next differs => simpa [differs] using ⟨member, sameName⟩
          · rintro ⟨member, sameName⟩
            have differs : Named.name found ≠ Named.name entry := by
              rw [sameName]
              exact Ne.symm other
            exact ⟨⟨found, member, by simp [differs]⟩, sameName⟩

end NameTable
end EarlyBoot
