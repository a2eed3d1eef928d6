import EarlyBoot.Fragment.Read
import EarlyBoot.Proofs.Outcome

/-!
# Reading as a run of declarations

Whatever a fragment holds, reading it does nothing to a registry but declare
aliases.  A property of registries that every accepted declaration keeps is
therefore kept by statements, by pieces of code and by whole fragments.
-/

namespace EarlyBoot
namespace Fragment

variable {capacity : Nat}

theorem readPiece_of_isSkipped {piece : Piece}
    (skipped : isSkipped (Text.trim piece.code) = true)
    (registry : AliasRegistry capacity) : readPiece registry piece = .ok registry := by
  simp [readPiece, skipped]

theorem readPiece_of_not_isSkipped {piece : Piece}
    (kept : isSkipped (Text.trim piece.code) = false)
    (registry : AliasRegistry capacity) :
    readPiece registry piece =
      readStatements piece.line registry (Text.trim piece.code) := by
  simp [readPiece, kept]

theorem foldlM_readPiece_of_isSkipped {pieces : List Piece}
    (skipped : ∀ piece ∈ pieces, isSkipped (Text.trim piece.code) = true)
    (registry : AliasRegistry capacity) : pieces.foldlM readPiece registry = .ok registry := by
  induction pieces with
  | nil => rfl
  | cons piece pieces ih =>
      rw [List.forall_mem_cons] at skipped
      rw [List.foldlM_cons, readPiece_of_isSkipped skipped.1]
      exact ih skipped.2

/-- Pieces that are skipped make no difference around the others. -/
theorem read_eq_of_scan {text : String} {before pieces after : List Piece}
    (scanned : scan text.toList = (before ++ pieces ++ after, none))
    (beforeSkipped : ∀ piece ∈ before, isSkipped (Text.trim piece.code) = true)
    (afterSkipped : ∀ piece ∈ after, isSkipped (Text.trim piece.code) = true) :
    read capacity text = pieces.foldlM readPiece .empty := by
  have unread : (before ++ pieces ++ after).foldlM readPiece
      (.empty : AliasRegistry capacity) = pieces.foldlM readPiece .empty := by
    rw [List.foldlM_append, List.foldlM_append,
      foldlM_readPiece_of_isSkipped beforeSkipped]
    change (pieces.foldlM readPiece .empty >>= fun registry =>
      after.foldlM readPiece registry) = _
    cases pieces.foldlM readPiece (.empty : AliasRegistry capacity) with
    | error cause => rfl
    | ok registry => exact foldlM_readPiece_of_isSkipped afterSkipped registry
  rw [read, scanned]
  simp only [unread]
  cases pieces.foldlM readPiece (.empty : AliasRegistry capacity) <;> rfl

/-- Refuses what stands after the last semicolon of some code. -/
def endCode (line : Nat) (rest : List Char) (registry : AliasRegistry capacity) :
    Except FragmentError (AliasRegistry capacity) :=
  if rest = [] then .ok registry else .error (.missingSemicolon line (String.ofList rest))

theorem readStatements_eq (line : Nat) (registry : AliasRegistry capacity)
    (code : List Char) :
    readStatements line registry code =
      ((Text.Terminated.split ';' code).pieces.map Text.trim).foldlM (readStatement line)
          registry >>=
        endCode line (Text.trim (Text.Terminated.split ';' code).remainder) :=
  rfl

theorem endCode_eq_ok_iff {line : Nat} {rest : List Char}
    {registry next : AliasRegistry capacity} :
    endCode line rest registry = .ok next ↔ rest = [] ∧ next = registry := by
  unfold endCode
  split
  · next atEnd => exact Outcome.ok_eq_ok_iff atEnd
  · next goesOn => exact Outcome.error_eq_ok_iff goesOn

section Induction

variable {holds : AliasRegistry capacity → Prop}
  (declared : ∀ registry name target next, holds registry →
    registry.declare name target = .ok next → holds next)

include declared

theorem holds_of_readStatement {line : Nat} {registry next : AliasRegistry capacity}
    {statement : List Char} (before : holds registry)
    (ran : readStatement line registry statement = .ok next) : holds next := by
  unfold readStatement at ran
  split at ran
  · injection ran with same
    exact same ▸ before
  · split at ran
    · contradiction
    · next name target _ =>
        have accepted := Outcome.mapError_eq_ok_iff.mp ran
        exact declared registry name target next before accepted

theorem holds_of_readStatements {line : Nat} {registry next : AliasRegistry capacity}
    {code : List Char} (before : holds registry)
    (ran : readStatements line registry code = .ok next) : holds next := by
  obtain ⟨result, statementsRan, rest⟩ := Outcome.bind_eq_ok_iff.mp ran
  have kept : holds result := Outcome.holds_of_foldlM_eq_ok
    (fun _ _ _ before ran => holds_of_readStatement declared before ran)
    before statementsRan
  dsimp only at rest
  split at rest
  · injection rest with same
    exact same ▸ kept
  · contradiction

theorem holds_of_readPiece {registry next : AliasRegistry capacity} {piece : Piece}
    (before : holds registry) (ran : readPiece registry piece = .ok next) :
    holds next := by
  cases skipped : isSkipped (Text.trim piece.code) with
  | true =>
      rw [readPiece_of_isSkipped skipped] at ran
      injection ran with same
      exact same ▸ before
  | false =>
      rw [readPiece_of_not_isSkipped skipped] at ran
      exact holds_of_readStatements declared before ran

theorem holds_of_read {text : String} {registry : AliasRegistry capacity}
    (atStart : holds .empty) (accepted : read capacity text = .ok registry) :
    holds registry := by
  obtain ⟨result, piecesRan, rest⟩ := Outcome.bind_eq_ok_iff.mp accepted
  have kept : holds result := Outcome.holds_of_foldlM_eq_ok
    (fun _ _ _ before ran => holds_of_readPiece declared before ran)
    atStart piecesRan
  split at rest
  · injection rest with same
    exact same ▸ kept
  · contradiction

end Induction

end Fragment
end EarlyBoot
