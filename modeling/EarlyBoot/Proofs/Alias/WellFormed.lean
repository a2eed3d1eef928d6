import EarlyBoot.Proofs.Fragment.Reading
import EarlyBoot.Proofs.SymbolName
import Mathlib.Data.List.Nodup
import Mathlib.Tactic.SplitIfs

/-!
# Well-formed registries

A registry starts without declarations, as the registry of the image variables,
or as what a fragment declares, and grows by declarations that it accepts.  Every
registry of this kind has room for its declarations, gives no name two targets,
and keeps the two name spaces apart: no target is an alias.
-/

namespace EarlyBoot

/-- What a registry checks of a declaration on its own. -/
structure AliasDecl.WellFormed (declaration : AliasDecl) : Prop where
  validName : declaration.name.isValid = true
  validTarget : declaration.target.isValid = true
  earlyName : declaration.name.final?.isSome = true
  finalTarget : declaration.target.isEarly = false

namespace AliasRegistry

variable {capacity : Nat}

/-- The registries that a program can hold. -/
inductive Reachable : {capacity : Nat} → AliasRegistry capacity → Prop where
  | empty {capacity : Nat} : Reachable (empty : AliasRegistry capacity)
  | imageVars : Reachable imageVars
  | read {capacity : Nat} {text : String} {registry : AliasRegistry capacity}
      (accepted : Fragment.read capacity text = .ok registry) : Reachable registry
  | declare {capacity : Nat} {registry next : AliasRegistry capacity}
      {name target : SymbolName} (earlier : Reachable registry)
      (accepted : registry.declare name target = .ok next) : Reachable next

/-- What the operations on registries keep true. -/
structure WellFormed (registry : AliasRegistry capacity) : Prop where
  size_le : registry.size ≤ capacity
  nodup_names : (registry.declarations.map AliasDecl.name).Nodup
  declarations : ∀ declaration ∈ registry.declarations, declaration.WellFormed

theorem lookup?_eq_none_iff {registry : AliasRegistry capacity} {name : SymbolName} :
    registry.lookup? name = none ↔
      ∀ declaration ∈ registry.declarations, declaration.name ≠ name := by
  simp [lookup?]

/-- Only its room can make a registry refuse a well-formed declaration of a new
alias. -/
theorem declare_of_fresh {registry : AliasRegistry capacity} {name target : SymbolName}
    (wellFormed : AliasDecl.WellFormed ⟨name, target⟩)
    (fresh : ∀ declaration ∈ registry.declarations, declaration.name ≠ name) :
    registry.declare name target =
      if capacity ≤ registry.size then .error (.full capacity)
      else .ok ⟨registry.declarations ++ [⟨name, target⟩]⟩ := by
  have hasFinal := wellFormed.earlyName
  rw [Option.isSome_iff_ne_none] at hasFinal
  rw [← lookup?_eq_none_iff] at fresh
  simp [declare, wellFormed.validName, wellFormed.validTarget, wellFormed.finalTarget,
    hasFinal, fresh]

/-- A second declaration of an alias is refused, whether or not there is room. -/
theorem declare_of_known {registry : AliasRegistry capacity} {name target : SymbolName}
    (wellFormed : AliasDecl.WellFormed ⟨name, target⟩)
    {known : AliasDecl} (member : known ∈ registry.declarations) (same : known.name = name) :
    registry.declare name target = .error (.duplicate name) := by
  have hasFinal : name.final?.isNone = false := by simpa using wellFormed.earlyName
  have found : (registry.lookup? name).isSome = true := by
    rw [Option.isSome_iff_ne_none, ne_eq, lookup?_eq_none_iff]
    exact fun fresh => fresh known member same
  simp [declare, wellFormed.validName, wellFormed.validTarget, wellFormed.finalTarget, hasFinal,
    found]

/-- A declaration that is not well formed is refused by every registry, for the same
cause, which is not its room. -/
theorem declare_of_not_wellFormed {name target : SymbolName}
    (malformed : ¬ AliasDecl.WellFormed ⟨name, target⟩) :
    ∃ cause, (∀ room, cause ≠ .full room) ∧
      ∀ {capacity : Nat} (registry : AliasRegistry capacity),
        registry.declare name target = .error cause := by
  by_cases validName : name.isValid = true
  · by_cases validTarget : target.isValid = true
    · by_cases earlyName : name.final?.isSome = true
      · have isFinal : name.final?.isNone = false := by simpa using earlyName
        by_cases finalTarget : target.isEarly = false
        · exact absurd ⟨validName, validTarget, earlyName, finalTarget⟩ malformed
        · refine ⟨.earlyTarget target, by simp, fun registry => ?_⟩
          simp [declare, validName, validTarget, isFinal, finalTarget]
      · have noFinal : name.final?.isNone = true := by simpa using earlyName
        refine ⟨.notEarly name, by simp, fun registry => ?_⟩
        simp only [declare, validName, validTarget, noFinal]
        rfl
    · refine ⟨.invalidName target, by simp, fun registry => ?_⟩
      simp [declare, validName, validTarget]
  · refine ⟨.invalidName name, by simp, fun registry => ?_⟩
    simp [declare, validName]

/-- A registry and one with further declarations refuse a declaration for the same cause,
unless it is well formed and its alias is new to the first. -/
theorem declare_of_subset {otherCapacity : Nat} {registry : AliasRegistry capacity}
    {longer : AliasRegistry otherCapacity}
    (included : registry.declarations ⊆ longer.declarations) (name target : SymbolName) :
    (∃ cause, (∀ room, cause ≠ .full room) ∧ registry.declare name target = .error cause ∧
      longer.declare name target = .error cause) ∨
    AliasDecl.WellFormed ⟨name, target⟩ ∧
      ∀ declaration ∈ registry.declarations, declaration.name ≠ name := by
  by_cases wellFormed : AliasDecl.WellFormed ⟨name, target⟩
  · by_cases known : ∃ declaration ∈ registry.declarations, declaration.name = name
    · obtain ⟨declaration, member, same⟩ := known
      exact Or.inl ⟨.duplicate name, by simp, declare_of_known wellFormed member same,
        declare_of_known wellFormed (included member) same⟩
    · exact Or.inr ⟨wellFormed, fun declaration member same =>
        known ⟨declaration, member, same⟩⟩
  · obtain ⟨cause, notFull, refused⟩ := declare_of_not_wellFormed wellFormed
    exact Or.inl ⟨cause, notFull, refused registry, refused longer⟩

/-- A declaration is accepted when it is well formed, its alias is new and there
is room, and it then goes to the end. -/
theorem declare_eq_ok_iff {registry next : AliasRegistry capacity}
    {name target : SymbolName} :
    registry.declare name target = .ok next ↔
      AliasDecl.WellFormed ⟨name, target⟩ ∧
        (∀ declaration ∈ registry.declarations, declaration.name ≠ name) ∧
        registry.size < capacity ∧
        next = ⟨registry.declarations ++ [⟨name, target⟩]⟩ := by
  constructor
  · rw [← lookup?_eq_none_iff]
    unfold declare
    intro accepted
    split_ifs at accepted with invalidName invalidTarget notEarly earlyTarget duplicate full
    injection accepted with built
    refine ⟨⟨by simpa using invalidName, by simpa using invalidTarget, ?_,
      by simpa using earlyTarget⟩, by simpa using duplicate, by omega, built.symm⟩
    simpa [Option.isSome_iff_ne_none] using notEarly
  · rintro ⟨wellFormed, fresh, room, rfl⟩
    rw [declare_of_fresh wellFormed fresh, if_neg (by omega)]

theorem wellFormed_empty : (empty : AliasRegistry capacity).WellFormed where
  size_le := Nat.zero_le capacity
  nodup_names := List.nodup_nil
  declarations := by simp [empty]

theorem wellFormed_imageVars : imageVars.WellFormed where
  size_le := by decide
  nodup_names := by decide
  declarations := by
    intro declaration member
    obtain ⟨place, -, rfl⟩ := List.mem_map.mp member
    constructor <;> cases place <;> decide

theorem WellFormed.declare {registry next : AliasRegistry capacity}
    {name target : SymbolName} (wellFormed : registry.WellFormed)
    (accepted : registry.declare name target = .ok next) : next.WellFormed := by
  obtain ⟨added, fresh, room, rfl⟩ := declare_eq_ok_iff.mp accepted
  refine ⟨?_, ?_, ?_⟩
  · rw [size, List.length_append]
    exact room
  · rw [List.map_append, List.map_singleton, List.nodup_append]
    refine ⟨wellFormed.nodup_names, List.nodup_singleton _, ?_⟩
    intro known isKnown new isNew
    obtain ⟨declaration, member, rfl⟩ := List.mem_map.mp isKnown
    rw [List.mem_singleton.mp isNew]
    exact fresh declaration member
  · intro declaration member
    rcases List.mem_append.mp member with old | new
    · exact wellFormed.declarations declaration old
    · rw [List.mem_singleton.mp new]
      exact added

theorem wellFormed_of_read {text : String} {registry : AliasRegistry capacity}
    (accepted : Fragment.read capacity text = .ok registry) : registry.WellFormed :=
  Fragment.holds_of_read (fun _ _ _ _ before declared => WellFormed.declare before declared)
    wellFormed_empty accepted

/-- Every registry that a program can hold is well formed. -/
theorem Reachable.wellFormed {registry : AliasRegistry capacity}
    (reachable : registry.Reachable) : registry.WellFormed := by
  induction reachable with
  | empty => exact wellFormed_empty
  | imageVars => exact wellFormed_imageVars
  | read accepted => exact wellFormed_of_read accepted
  | declare _ accepted ih => exact ih.declare accepted

/-- The alias of a declaration is new where the declaration stands. -/
theorem WellFormed.name_ne_of_before {registry : AliasRegistry capacity}
    (wellFormed : registry.WellFormed) {earlier later : List AliasDecl}
    {declaration : AliasDecl}
    (whole : registry.declarations = earlier ++ declaration :: later) :
    ∀ other ∈ earlier, other.name ≠ declaration.name := by
  intro other member
  have distinct := wellFormed.nodup_names
  rw [whole, List.map_append, List.nodup_append] at distinct
  exact distinct.2.2 _ (List.mem_map_of_mem member) _ List.mem_cons_self

theorem WellFormed.lookup?_eq_some {registry : AliasRegistry capacity}
    (wellFormed : registry.WellFormed) {declaration : AliasDecl}
    (member : declaration ∈ registry.declarations) :
    registry.lookup? declaration.name = some declaration := by
  obtain ⟨before, after, whole⟩ := List.append_of_mem member
  rw [lookup?, List.find?_eq_some_iff_append]
  refine ⟨decide_eq_true rfl, before, after, whole, ?_⟩
  intro earlier earlierMember
  simpa using wellFormed.name_ne_of_before whole earlier earlierMember

/-- A look-up finds the declaration of the alias, and nothing else. -/
theorem WellFormed.lookup?_eq_some_iff {registry : AliasRegistry capacity}
    (wellFormed : registry.WellFormed) {name : SymbolName} {declaration : AliasDecl} :
    registry.lookup? name = some declaration ↔
      declaration ∈ registry.declarations ∧ declaration.name = name := by
  constructor
  · intro found
    exact ⟨List.mem_of_find?_eq_some found, by simpa using List.find?_some found⟩
  · rintro ⟨member, rfl⟩
    exact wellFormed.lookup?_eq_some member

/-- The target of a declaration is never itself an alias. -/
theorem WellFormed.target_ne_name {registry : AliasRegistry capacity}
    (wellFormed : registry.WellFormed) {declaration other : AliasDecl}
    (member : declaration ∈ registry.declarations)
    (otherMember : other ∈ registry.declarations) :
    declaration.target ≠ other.name := by
  intro same
  have finalTarget := (wellFormed.declarations declaration member).finalTarget
  have early := SymbolName.isEarly_of_isSome_final?
    (wellFormed.declarations other otherMember).earlyName
  rw [same, early] at finalTarget
  contradiction

/-- No declaration makes an alias of a later target. -/
theorem WellFormed.name_ne_target_of_before {registry : AliasRegistry capacity}
    (wellFormed : registry.WellFormed) {earlier later : List AliasDecl}
    {declaration : AliasDecl}
    (whole : registry.declarations = earlier ++ declaration :: later) :
    ∀ other ∈ earlier, other.name ≠ declaration.target := by
  intro other otherMember
  have member : declaration ∈ registry.declarations := by
    rw [whole]
    exact List.mem_append_right _ List.mem_cons_self
  have inRegistry : other ∈ registry.declarations := by
    rw [whole]
    exact List.mem_append_left _ otherMember
  exact (wellFormed.target_ne_name member inRegistry).symm

end AliasRegistry
end EarlyBoot
