import EarlyBoot.Proofs.Alias.History

/-!
# What a registry objects to

Six things can be held against a declaration.  A registry goes through them in a fixed
order and answers with the first that applies; a declaration without one goes to the end.
A refused declaration leaves no trace: the answers to later ones are those of a registry
that never saw it.
-/

namespace EarlyBoot
namespace AliasRegistry

variable {capacity : Nat} {registry next : AliasRegistry capacity}
  {name target : SymbolName}

/-- What can be held against a declaration. -/
inductive Objection where
  | invalidName
  | invalidTarget
  | notEarly
  | earlyTarget
  | duplicate
  | full
  deriving DecidableEq, Repr

namespace Objection

/-- The objections in the order in which a registry considers them. -/
def all : List Objection :=
  [.invalidName, .invalidTarget, .notEarly, .earlyTarget, .duplicate, .full]

/-- Whether an objection can be raised in a registry against the declaration of two
names. -/
def Applies (registry : AliasRegistry capacity) (name target : SymbolName) :
    Objection → Prop
  | .invalidName => ¬ name.IsPlain
  | .invalidTarget => ¬ target.IsPlain
  | .notEarly => ¬ ∃ first rest, name.text.toList = "__pi_".toList ++ first :: rest
  | .earlyTarget => "__pi_".toList <+: target.text.toList
  | .duplicate => ∃ declaration ∈ registry.declarations, declaration.name = name
  | .full => registry.declarations.length = capacity

/-- The answer of a registry that raises the objection. -/
def cause (capacity : Nat) (name target : SymbolName) : Objection → AliasError
  | .invalidName => .invalidName name
  | .invalidTarget => .invalidName target
  | .notEarly => .notEarly name
  | .earlyTarget => .earlyTarget target
  | .duplicate => .duplicate name
  | .full => .full capacity

/-- The test by which a registry decides whether to raise an objection. -/
def isRaised (registry : AliasRegistry capacity) (name target : SymbolName) :
    Objection → Bool
  | .invalidName => !name.isValid
  | .invalidTarget => !target.isValid
  | .notEarly => name.final?.isNone
  | .earlyTarget => target.isEarly
  | .duplicate => (registry.lookup? name).isSome
  | .full => capacity ≤ registry.size

/-- Refuses a declaration when the objection is raised. -/
def demand (registry : AliasRegistry capacity) (name target : SymbolName)
    (objection : Objection) : Except AliasError Unit :=
  if objection.isRaised registry name target then
    .error (objection.cause capacity name target)
  else
    .ok ()

theorem mem_all (objection : Objection) : objection ∈ all := by
  cases objection <;> decide

/-- The tests decide the objections.  A registry that a program can hold never has more
declarations than it has room for, so that it is full when there is no room left. -/
theorem isRaised_iff (wellFormed : registry.WellFormed) {objection : Objection} :
    objection.isRaised registry name target = true ↔
      objection.Applies registry name target := by
  cases objection with
  | invalidName => simp [isRaised, Applies, ← SymbolName.isValid_iff]
  | invalidTarget => simp [isRaised, Applies, ← SymbolName.isValid_iff]
  | notEarly =>
      rw [isRaised, Applies, ← SymbolName.isSome_final?_iff]
      simp
  | earlyTarget => exact SymbolName.isEarly_iff
  | duplicate =>
      rw [isRaised, Applies, Option.isSome_iff_ne_none, ne_eq, lookup?_eq_none_iff]
      simp
  | full =>
      have fits := wellFormed.size_le
      rw [size] at fits
      rw [isRaised, Applies, decide_eq_true_iff, size]
      omega

theorem demand_eq_ok_iff (wellFormed : registry.WellFormed) {objection : Objection} :
    objection.demand registry name target = .ok () ↔
      ¬ objection.Applies registry name target := by
  rw [← isRaised_iff wellFormed, demand]
  split
  · next raised => simp [raised]
  · next passed => simp [passed]

theorem demand_eq_error_iff (wellFormed : registry.WellFormed) {objection : Objection}
    {answer : AliasError} :
    objection.demand registry name target = .error answer ↔
      objection.Applies registry name target ∧
        answer = objection.cause capacity name target := by
  rw [← isRaised_iff wellFormed, demand]
  split
  · next raised => simp [raised, eq_comm]
  · next passed => simp [passed]

end Objection

section Answers

/-- The cause of the refusal, where a declaration is refused. -/
def answer? (registry : AliasRegistry capacity) (declaration : AliasDecl) :
    Option AliasError :=
  match registry.declare declaration.name declaration.target with
  | .ok _ => none
  | .error cause => some cause

/-- The answers to some declarations that are tried in order. -/
def answers (registry : AliasRegistry capacity) : List AliasDecl → List (Option AliasError)
  | [] => []
  | declaration :: later =>
      registry.answer? declaration :: (registry.attempt declaration).answers later

end Answers

end AliasRegistry
end EarlyBoot
