import EarlyBoot.Proofs.Link.Resolution
import EarlyBoot.Proofs.Messages

/-!
# The units that messages name

A link can be carried out on symbols from the start.  The table then holds the symbols of
the definitions in force, the names whose definition in force is weak are kept beside it,
and the unit of an earlier definition is read off the origin of its symbol.  A symbol that
an alias filled in has no unit, so that a stand-in has to be at hand.  The link on symbols
does what the link on definitions does, whatever the stand-in: no message and no error
ever shows it.
-/

namespace EarlyBoot

/-- The unit that a symbol comes from, or a stand-in if no unit defines it. -/
def Symbol.unitOr (standIn : String) (symbol : Symbol) : String :=
  symbol.origin.unit?.getD standIn

theorem Contribution.unitOr_toSymbol (standIn : String) (contribution : Contribution) :
    contribution.toSymbol.unitOr standIn = contribution.unit :=
  rfl

namespace NameTable

variable {α β : Type} [Named α] [Named β]

theorem size_map (table : NameTable α) (change : α → β)
    (keepsName : ∀ entry, Named.name (change entry) = Named.name entry) :
    (table.map change keepsName).size = table.size :=
  Array.size_map

theorem ext_entries {first second : NameTable α} (sameEntries : first.entries = second.entries)
    (samePositions : first.positions = second.positions) : first = second := by
  rcases first with ⟨entries, positions, _⟩
  rcases second with ⟨otherEntries, otherPositions, _⟩
  obtain rfl := sameEntries
  obtain rfl := samePositions
  rfl

/-- An entry may be changed before it is inserted or afterwards. -/
theorem map_insert (table : NameTable α) (entry : α) (change : α → β)
    (keepsName : ∀ entry, Named.name (change entry) = Named.name entry) :
    (table.insert entry).map change keepsName =
      (table.map change keepsName).insert (change entry) := by
  -- Both sides look for one name among the same positions, so that the mixed cases of the
  -- two look-ups do not occur.
  unfold insert
  split
  · next place found =>
      split
      · next otherPlace otherFound =>
          have samePlace : place = otherPlace := by
            rw [keepsName] at otherFound
            exact Option.some.inj (found.symm.trans otherFound)
          subst samePlace
          exact ext_entries (Array.map_setIfInBounds ..) rfl
      · next absent =>
          rw [keepsName] at absent
          exact absurd (found.symm.trans absent) (by simp)
  · next absent =>
      split
      · next otherPlace otherFound =>
          rw [keepsName] at otherFound
          exact absurd (absent.symm.trans otherFound) (by simp)
      · next stillAbsent =>
          refine ext_entries (Array.map_push ..) ?_
          simp [map, keepsName]

end NameTable

namespace Link

variable {capacity : Nat} {units : List LinkUnit} {declarations : List AliasDecl}

/-- The symbols of the definitions in force, and the names of which only weak definitions
have been seen. -/
structure Draft where
  symbols : NameTable Symbol
  weak : List SymbolName

namespace Draft

def empty : Draft :=
  ⟨.empty, []⟩

/-- Lets one more definition compete for its name. -/
def settle (standIn : String) (draft : Draft) (contribution : Contribution) :
    Logged LinkError Draft :=
  let definition := contribution.definition
  let inserted := draft.symbols.insert contribution.toSymbol
  match draft.symbols.find? definition.name with
  | none =>
      pure ⟨inserted,
        if definition.strength = .weak then definition.name :: draft.weak else draft.weak⟩
  | some present =>
      let first := present.unitOr standIn
      match definition.strength with
      | .weak => do
          Logged.write .debug (ignoredText contribution first)
          pure draft
      | .strong =>
          if definition.name ∈ draft.weak then do
            Logged.write .debug (overridesText contribution first)
            pure ⟨inserted, draft.weak.filter fun name => name ≠ definition.name⟩
          else
            Logged.fail (.multipleDefinition definition.name first contribution.unit)

/-- A draft goes with a table of definitions. -/
structure Represents (table : NameTable Contribution) (draft : Draft) : Prop where
  symbols_eq : draft.symbols = table.map Contribution.toSymbol Contribution.name_toSymbol
  mem_weak_iff : ∀ name, name ∈ draft.weak ↔
    ∃ contribution, table.find? name = some contribution ∧
      contribution.definition.strength = .weak

namespace Represents

variable {table : NameTable Contribution} {draft : Draft}

theorem empty : Represents .empty .empty where
  symbols_eq := NameTable.ext_entries Array.map_empty.symm rfl
  mem_weak_iff name := by simp [Draft.empty]

theorem find?_eq (represents : Represents table draft) (name : SymbolName) :
    draft.symbols.find? name = (table.find? name).map Contribution.toSymbol := by
  rw [represents.symbols_eq]
  exact NameTable.find?_map table _ Contribution.name_toSymbol name

/-- A definition that comes into force is weak or not, and no other name is concerned. -/
theorem insert (represents : Represents table draft) {contribution : Contribution}
    {weak : List SymbolName}
    (atName : contribution.definition.name ∈ weak ↔ contribution.definition.strength = .weak)
    (elsewhere : ∀ name, name ≠ contribution.definition.name →
      (name ∈ weak ↔ name ∈ draft.weak)) :
    Represents (table.insert contribution)
      ⟨draft.symbols.insert contribution.toSymbol, weak⟩ where
  symbols_eq := by
    rw [represents.symbols_eq]
    exact (NameTable.map_insert table contribution _ Contribution.name_toSymbol).symm
  mem_weak_iff name := by
    have lookup : (table.insert contribution).find? name =
        if contribution.definition.name = name then some contribution
        else table.find? name :=
      table.find?_insert contribution name
    rw [lookup]
    by_cases same : contribution.definition.name = name
    · rw [if_pos same, ← same]
      simpa using atName
    · rw [if_neg same]
      exact (elsewhere name (Ne.symm same)).trans (represents.mem_weak_iff name)

/-- One more definition is treated alike in a table and in a draft. -/
theorem settle (represents : Represents table draft) (standIn : String)
    (contribution : Contribution) :
    Logged.Alike Represents (Link.settle table contribution)
      (draft.settle standIn contribution) := by
  have lookup := represents.find?_eq contribution.definition.name
  have weakIff := represents.mem_weak_iff contribution.definition.name
  cases found : table.find? contribution.definition.name with
  | none =>
      rw [found] at lookup weakIff
      have notWeak : contribution.definition.name ∉ draft.weak := by simp [weakIff]
      rw [settle_of_absent found]
      simp only [Draft.settle, lookup, Option.map_none]
      refine .ok [] (represents.insert ?_ ?_)
      · split
        · next weak => simp [weak]
        · next strong => simp [strong, notWeak]
      · intro name differs
        split
        · simp [differs]
        · exact Iff.rfl
  | some inForce =>
      rw [found] at lookup weakIff
      cases strength : contribution.definition.strength with
      | weak =>
          rw [settle_of_weak found strength]
          simp only [Draft.settle, lookup, Option.map_some, strength,
            Contribution.unitOr_toSymbol]
          exact .ok [_] represents
      | strong =>
          cases rival : inForce.definition.strength with
          | weak =>
              -- The name leaves the weak ones when the strong definition takes it over.
              have isWeak : contribution.definition.name ∈ draft.weak := by
                simp [weakIff, rival]
              rw [settle_of_override found strength rival]
              simp only [Draft.settle, lookup, Option.map_some, strength, if_pos isWeak,
                Contribution.unitOr_toSymbol]
              refine .ok [_] (represents.insert (by simp [strength]) ?_)
              intro name differs
              simp [differs]
          | strong =>
              have notWeak : contribution.definition.name ∉ draft.weak := by
                simp [weakIff, rival]
              rw [settle_of_conflict found strength rival]
              simp only [Draft.settle, lookup, Option.map_some, strength, if_neg notWeak,
                Contribution.unitOr_toSymbol]
              exact .error [] _

end Represents

end Draft

/-- Applies one declaration, with a stand-in for the unit of a symbol without one. -/
def applyAliasNaming (standIn : String) (image : Image) (declaration : AliasDecl) :
    Logged LinkError Image :=
  match image.find? declaration.name with
  | some present => do
      Logged.write .notice
        (givesWayText declaration (present.unitOr standIn) present.address)
      pure { image with overridden := image.overridden ++ [declaration.name] }
  | none =>
      match image.find? declaration.target with
      | none =>
          Logged.fail (.unresolvedTarget declaration.name declaration.target)
      | some target => do
          Logged.write .debug (providesText declaration target.address target.place)
          pure { image with symbols := image.symbols.insert (provide declaration target) }

/-- Resolves the symbols of all units together with the aliases of a registry, on symbols
and with a stand-in for a unit that is not there. -/
def linkNaming (standIn : String) (units : List LinkUnit) (registry : AliasRegistry capacity) :
    Logged LinkError Image := do
  let draft ← (allContributions units).foldlM (Draft.settle standIn) .empty
  let image ← registry.declarations.foldlM (applyAliasNaming standIn) ⟨draft.symbols, []⟩
  match firstUndefined? units image with
  | some cause => Logged.fail cause
  | none =>
      Logged.write .info (summary units.length draft.symbols.size image)
      pure image

/-- A declaration only gives way to a symbol that a unit defines: its alias is new, so
that no earlier declaration has filled it in. -/
theorem Applied.applyAliasNaming_eq {applied : List AliasDecl} {image : Image}
    {declaration : AliasDecl} (before : Applied units applied image)
    (fresh : ∀ earlier ∈ applied, earlier.name ≠ declaration.name) (standIn : String) :
    applyAliasNaming standIn image declaration = applyAlias image declaration := by
  have ofName := before.find?_of_no_alias fresh
  unfold applyAliasNaming applyAlias
  cases named : inForce? (allContributions units) declaration.name with
  | none =>
      simp only [ofName, named, Option.map_none]
      rfl
  | some contribution =>
      simp only [ofName, named, Option.map_some]
      rfl

theorem alike_settleAll (standIn : String) (units : List LinkUnit) :
    Logged.Alike Draft.Represents (settleAll units)
      ((allContributions units).foldlM (Draft.settle standIn) .empty) := by
  let related : List Contribution → NameTable Contribution → Draft → Prop :=
    fun _ => Draft.Represents
  have steps : ∀ taken contribution later table draft,
      allContributions units = taken ++ contribution :: later → related taken table draft →
        Logged.Alike (related (taken ++ [contribution])) (settle table contribution)
          (draft.settle standIn contribution) := by
    intro _ contribution _ table draft _ represents
    exact Draft.Represents.settle represents standIn contribution
  exact Logged.Alike.foldlM steps .empty

theorem alike_applyAll {registry : AliasRegistry capacity} (wellFormed : registry.WellFormed)
    (standIn : String) {image : Image} (start : Applied units [] image) :
    Logged.Alike (fun first second => first = second ∧
        Applied units registry.declarations first)
      (registry.declarations.foldlM applyAlias image)
      (registry.declarations.foldlM (applyAliasNaming standIn) image) := by
  have steps : ∀ applied declaration later state other,
      registry.declarations = applied ++ declaration :: later →
        state = other ∧ Applied units applied state →
          Logged.Alike (fun first second =>
              first = second ∧ Applied units (applied ++ [declaration]) first)
            (applyAlias state declaration) (applyAliasNaming standIn other declaration) := by
    rintro applied declaration later state _ whole ⟨rfl, before⟩
    have fresh := wellFormed.name_ne_of_before whole
    have final := wellFormed.name_ne_target_of_before whole
    refine .of_eq (before.applyAliasNaming_eq fresh standIn).symm ?_
    intro next applies
    rcases before.applyAlias_cases fresh final with ⟨_, runs, after⟩ | ⟨_, -, fails⟩
    · rw [applies] at runs
      injection runs with isNext
      exact ⟨rfl, isNext ▸ after⟩
    · rw [applies] at fails
      contradiction
  exact Logged.Alike.foldlM steps ⟨rfl, start⟩

/-- The link on symbols is the link on definitions.  It comes to the same image or error
and writes the same messages for every stand-in, and so it never shows it. -/
theorem linkNaming_eq (standIn : String) (units : List LinkUnit)
    {registry : AliasRegistry capacity} (wellFormed : registry.WellFormed) :
    linkNaming standIn units registry = link units registry := by
  symm
  apply Logged.Alike.eq
  refine (alike_settleAll standIn units).with_outcome.bind ?_
  rintro table ⟨_, weak⟩ ⟨⟨rfl, -⟩, settles⟩
  have settled : Settled (allContributions units) table := by
    rcases settleAll_cases units with ⟨_, reached, settled⟩ | ⟨_, _, -, fails⟩
    · rw [settles] at reached
      injection reached with isTable
      exact isTable ▸ settled
    · rw [settles] at fails
      contradiction
  refine (alike_applyAll wellFormed standIn (.ofContributions settled)).bind ?_
  rintro image _ ⟨rfl, -⟩
  rw [NameTable.size_map]
  exact .of_eq rfl fun _ _ => rfl

end Link
end EarlyBoot
