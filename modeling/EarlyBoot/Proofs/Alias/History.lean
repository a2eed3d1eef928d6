import EarlyBoot.Proofs.Alias.WellFormed

/-!
# Registries over time

A registry changes only by declarations that it accepts: each of them goes to the
end, and a refused one leaves the registry as it was.  However a registry came about,
it gives every alias one target, keeps early and final names apart, and answers a
look-up with the one declaration of the alias.
-/

namespace EarlyBoot
namespace AliasRegistry

variable {capacity : Nat} {registry next : AliasRegistry capacity}

/-- Tries a declaration.  A refused one leaves the registry as it is. -/
def attempt (registry : AliasRegistry capacity) (declaration : AliasDecl) :
    AliasRegistry capacity :=
  match registry.declare declaration.name declaration.target with
  | .ok next => next
  | .error _ => registry

/-- Tries some declarations in order, whatever becomes of each. -/
def attemptAll (registry : AliasRegistry capacity) (attempts : List AliasDecl) :
    AliasRegistry capacity :=
  attempts.foldl attempt registry

/-- What a registry can be relied on for at any time. -/
structure Consistent (registry : AliasRegistry capacity) : Prop where
  length_le : registry.declarations.length ≤ capacity
  names_differ : registry.declarations.Pairwise fun first second =>
    first.name ≠ second.name
  names_plain : ∀ declaration ∈ registry.declarations, declaration.name.IsPlain
  targets_plain : ∀ declaration ∈ registry.declarations, declaration.target.IsPlain
  names_early : ∀ declaration ∈ registry.declarations,
    ∃ first rest, declaration.name.text.toList = "__pi_".toList ++ first :: rest
  targets_final : ∀ declaration ∈ registry.declarations,
    ¬ "__pi_".toList <+: declaration.target.text.toList
  target_ne_name : ∀ declaration ∈ registry.declarations,
    ∀ other ∈ registry.declarations, declaration.target ≠ other.name
  lookup?_eq_some_iff : ∀ (name : SymbolName) (declaration : AliasDecl),
    registry.lookup? name = some declaration ↔
      declaration ∈ registry.declarations ∧ declaration.name = name
  target?_eq_some_iff : ∀ name target : SymbolName,
    registry.target? name = some target ↔ ⟨name, target⟩ ∈ registry.declarations

section Lookup

theorem WellFormed.target?_eq_some_iff (wellFormed : registry.WellFormed)
    {name target : SymbolName} :
    registry.target? name = some target ↔ ⟨name, target⟩ ∈ registry.declarations := by
  rw [target?, Option.map_eq_some_iff]
  simp only [wellFormed.lookup?_eq_some_iff]
  constructor
  · rintro ⟨declaration, ⟨member, rfl⟩, rfl⟩
    exact member
  · intro member
    exact ⟨⟨name, target⟩, ⟨member, rfl⟩, rfl⟩

theorem WellFormed.consistent (wellFormed : registry.WellFormed) : registry.Consistent where
  length_le := wellFormed.size_le
  names_differ := List.pairwise_map.mp wellFormed.nodup_names
  names_plain declaration member :=
    SymbolName.isValid_iff.mp (wellFormed.declarations declaration member).validName
  targets_plain declaration member :=
    SymbolName.isValid_iff.mp (wellFormed.declarations declaration member).validTarget
  names_early declaration member :=
    SymbolName.isSome_final?_iff.mp (wellFormed.declarations declaration member).earlyName
  targets_final declaration member := by
    rw [← SymbolName.isEarly_iff, (wellFormed.declarations declaration member).finalTarget]
    exact Bool.false_ne_true
  target_ne_name _ member _ otherMember := wellFormed.target_ne_name member otherMember
  lookup?_eq_some_iff _ _ := wellFormed.lookup?_eq_some_iff
  target?_eq_some_iff _ _ := wellFormed.target?_eq_some_iff

end Lookup

section Attempts

/-- An attempt is an accepted declaration, or it changes nothing. -/
theorem attempt_cases (registry : AliasRegistry capacity) (declaration : AliasDecl) :
    registry.declare declaration.name declaration.target =
        .ok (registry.attempt declaration) ∨
      registry.attempt declaration = registry := by
  unfold attempt
  split
  · next next accepted => exact Or.inl accepted
  · exact Or.inr rfl

theorem Reachable.attempt (reachable : registry.Reachable) (declaration : AliasDecl) :
    (registry.attempt declaration).Reachable := by
  rcases registry.attempt_cases declaration with accepted | unchanged
  · exact reachable.declare accepted
  · rw [unchanged]
    exact reachable

theorem Reachable.attemptAll (reachable : registry.Reachable) (attempts : List AliasDecl) :
    (registry.attemptAll attempts).Reachable := by
  induction attempts generalizing registry with
  | nil => exact reachable
  | cons declaration attempts ih => exact ih (reachable.attempt declaration)

end Attempts

section Growth

theorem prefix_of_declare {name target : SymbolName}
    (accepted : registry.declare name target = .ok next) :
    registry.declarations <+: next.declarations := by
  obtain ⟨-, -, -, rfl⟩ := declare_eq_ok_iff.mp accepted
  exact List.prefix_append _ _

theorem prefix_attempt (registry : AliasRegistry capacity) (declaration : AliasDecl) :
    registry.declarations <+: (registry.attempt declaration).declarations := by
  rcases registry.attempt_cases declaration with accepted | unchanged
  · exact prefix_of_declare accepted
  · simp only [unchanged, List.prefix_refl]

/-- Declarations keep their places whatever is tried after them. -/
theorem prefix_attemptAll (registry : AliasRegistry capacity) (attempts : List AliasDecl) :
    registry.declarations <+: (registry.attemptAll attempts).declarations := by
  induction attempts generalizing registry with
  | nil => exact List.prefix_refl _
  | cons declaration attempts ih =>
      exact (registry.prefix_attempt declaration).trans (ih (registry.attempt declaration))

/-- Declarations that come first still do after another declaration. -/
theorem prefix_declared (first : AliasRegistry capacity) :
    ∀ (before : AliasRegistry capacity) (name target : SymbolName)
      (after : AliasRegistry capacity), first.declarations <+: before.declarations →
        before.declare name target = .ok after → first.declarations <+: after.declarations :=
  fun _ _ _ _ grown accepted => grown.trans (prefix_of_declare accepted)

/-- Declarations keep their places while the statements of a fragment are read. -/
theorem prefix_of_readPiece {piece : Fragment.Piece}
    (ran : Fragment.readPiece registry piece = .ok next) :
    registry.declarations <+: next.declarations :=
  Fragment.holds_of_readPiece registry.prefix_declared (List.prefix_refl _) ran

theorem attemptAll_append (registry : AliasRegistry capacity)
    (earlier later : List AliasDecl) :
    registry.attemptAll (earlier ++ later) =
      (registry.attemptAll earlier).attemptAll later :=
  List.foldl_append

end Growth

/-- At any time of its history a registry is consistent, and the declarations that it
has at one time are the first ones that it has at every later time.  This goes for
declarations that are tried one by one and for those that a fragment makes. -/
theorem consistent_of_history (reachable : registry.Reachable)
    (earlier later : List AliasDecl) :
    (registry.attemptAll earlier).Consistent ∧
      (registry.attemptAll earlier).declarations <+:
        (registry.attemptAll (earlier ++ later)).declarations ∧
      ∀ piece next, Fragment.readPiece (registry.attemptAll earlier) piece = .ok next →
        next.Consistent ∧
          (registry.attemptAll earlier).declarations <+: next.declarations := by
  have wellFormed := (reachable.attemptAll earlier).wellFormed
  refine ⟨wellFormed.consistent, ?_, ?_⟩
  · rw [attemptAll_append]
    exact prefix_attemptAll _ later
  · intro piece next ran
    have nextWellFormed : next.WellFormed := Fragment.holds_of_readPiece
      (fun _ _ _ _ before accepted => WellFormed.declare before accepted) wellFormed ran
    exact ⟨nextWellFormed.consistent, prefix_of_readPiece ran⟩

/-- A second target for an alias and an alias with a blank are refused; what stands
between them is declared. -/
theorem consistent_of_history_imageVars :
    let earlier : List AliasDecl :=
      [⟨⟨"__pi__text"⟩, ⟨"_stext"⟩⟩, ⟨⟨"__pi_start"⟩, ⟨"_text"⟩⟩]
    let later : List AliasDecl := [⟨⟨"__pi_a b"⟩, ⟨"a"⟩⟩]
    imageVars.Reachable ∧ (imageVars.attemptAll earlier).Consistent ∧
      (imageVars.attemptAll earlier).declarations <+:
        (imageVars.attemptAll (earlier ++ later)).declarations ∧
      (imageVars.attemptAll earlier).target? ⟨"__pi__text"⟩ = some ⟨"_text"⟩ ∧
      (imageVars.attemptAll earlier).target? ⟨"__pi_start"⟩ = some ⟨"_text"⟩ := by
  intro earlier later
  obtain ⟨consistent, grows, -⟩ := consistent_of_history .imageVars earlier later
  refine ⟨.imageVars, consistent, grows, ?_, ?_⟩
  · exact (consistent.target?_eq_some_iff _ _).mpr (by decide)
  · exact (consistent.target?_eq_some_iff _ _).mpr (by decide)

end AliasRegistry
end EarlyBoot
