import EarlyBoot.Proofs.Fragment.Characters
import EarlyBoot.Proofs.Fragment.Reading

/-!
# Two readings of the same lines

The same lines may be read into two registries, perhaps further down in one text than in
the other.  As long as both registries take in the same declarations the readings go on
side by side.  Only one of them may be stopped by what its registry cannot take, and then
the other has found no fault on an earlier line.  What is shown of single declarations
carries over to statements, to pieces of code and to all lines of a text.
-/

namespace EarlyBoot

namespace FragmentError

/-- The line at fault. -/
def line : FragmentError → Nat
  | .malformed line _ => line
  | .missingSemicolon line _ => line
  | .refused line _ => line
  | .unterminatedComment line => line

/-- The same fault some lines further down. -/
def shift (offset : Nat) : FragmentError → FragmentError
  | .malformed line found => .malformed (offset + line) found
  | .missingSemicolon line found => .missingSemicolon (offset + line) found
  | .refused line cause => .refused (offset + line) cause
  | .unterminatedComment line => .unterminatedComment (offset + line)

/-- The fault is a block comment that does not end. -/
def IsUnterminated (cause : FragmentError) : Prop :=
  ∃ line, cause = .unterminatedComment line

end FragmentError

namespace Fragment

/-- In what two readings agree, and what may part them.  The second reading is the one
that may be stopped. -/
structure Comparison (α β : Type) where
  /-- The readings have come to these states side by side. -/
  related : α → β → Prop
  /-- Both readings end with the same fault. -/
  sameFault : FragmentError → FragmentError → Prop
  /-- The second reading is stopped by a fault, at a line of the first. -/
  stops : Nat → FragmentError → Prop
  /-- The first reading has come where the second could not follow. -/
  beyond : α → Prop

/-- How two readings of some lines end: in related states, with the same fault, or with
the second one stopped at one of the lines.  If the first one then has no fault it ends
where the second could not follow, and otherwise its fault is not on an earlier line. -/
inductive Comparison.Holds {α β : Type} (comparison : Comparison α β) (lines : List Nat) :
    Except FragmentError α → Except FragmentError β → Prop where
  | ok {state : α} {other : β} (related : comparison.related state other) :
      Holds comparison lines (.ok state) (.ok other)
  | error {fault otherFault : FragmentError} (same : comparison.sameFault fault otherFault) :
      Holds comparison lines (.error fault) (.error otherFault)
  | stopped {outcome : Except FragmentError α} {line : Nat} {fault : FragmentError}
      (inLines : line ∈ lines) (stops : comparison.stops line fault)
      (beyond : ∀ state, outcome = .ok state → comparison.beyond state)
      (noEarlier : ∀ earlier, outcome = .error earlier → line ≤ earlier.line) :
      Holds comparison lines outcome (.error fault)

section Readings

variable {α β : Type} {comparison : Comparison α β} {lines later : List Nat}
  {outcome : Except FragmentError α} {otherOutcome : Except FragmentError β}

namespace Comparison.Holds

theorem mono (holds : comparison.Holds lines outcome otherOutcome)
    (included : ∀ line ∈ lines, line ∈ later) :
    comparison.Holds later outcome otherOutcome := by
  cases holds with
  | ok related => exact .ok related
  | error same => exact .error same
  | stopped inLines stops beyond noEarlier =>
      exact .stopped (included _ inLines) stops beyond noEarlier

/-- Two readings that compare are followed by others that compare, when the first goes
on from beyond to beyond and finds no fault on earlier lines. -/
theorem bind (first : comparison.Holds lines outcome otherOutcome)
    {next : α → Except FragmentError α} {otherNext : β → Except FragmentError β}
    (step : ∀ state other, comparison.related state other →
      comparison.Holds later (next state) (otherNext other))
    (keeps : ∀ state result, comparison.beyond state → next state = .ok result →
      comparison.beyond result)
    (behind : ∀ state fault, next state = .error fault → ∀ line ∈ lines, line ≤ fault.line) :
    comparison.Holds (lines ++ later) (outcome >>= next) (otherOutcome >>= otherNext) := by
  cases first with
  | ok related =>
      exact (step _ _ related).mono fun line inLater => List.mem_append_right lines inLater
  | error same => exact .error same
  | @stopped outcome line fault inLines stops beyond noEarlier =>
      refine .stopped (List.mem_append_left _ inLines) stops ?_ ?_
      · intro result ran
        obtain ⟨state, ranFirst, ranNext⟩ := Outcome.bind_eq_ok_iff.mp ran
        exact keeps state result (beyond state ranFirst) ranNext
      · intro earlier failed
        rcases Outcome.bind_eq_error_iff.mp failed with here | ⟨state, -, inNext⟩
        · exact noEarlier earlier here
        · exact behind state earlier inNext line inLines

/-- Steps that compare run along elements whose lines do not decrease. -/
theorem foldlM {ι : Type} (lineOf : ι → Nat) {step : α → ι → Except FragmentError α}
    {otherStep : β → ι → Except FragmentError β}
    (steps : ∀ state other element, comparison.related state other →
      comparison.Holds [lineOf element] (step state element) (otherStep other element))
    (keeps : ∀ state element next, comparison.beyond state →
      step state element = .ok next → comparison.beyond next)
    (atLine : ∀ state element fault, step state element = .error fault →
      fault.line = lineOf element)
    {elements : List ι} (inOrder : (elements.map lineOf).Pairwise (· ≤ ·))
    {state : α} {other : β} (related : comparison.related state other) :
    comparison.Holds (elements.map lineOf) (elements.foldlM step state)
      (elements.foldlM otherStep other) := by
  induction elements generalizing state other with
  | nil => exact .ok related
  | cons element elements ih =>
      rw [List.map_cons, List.pairwise_cons] at inOrder
      rw [List.foldlM_cons, List.foldlM_cons]
      refine (steps state other element related).bind
        (fun _ _ stillRelated => ih inOrder.2 stillRelated) ?_ ?_
      · intro before result beyond ran
        exact Outcome.holds_of_foldlM_eq_ok keeps beyond ran
      · intro before fault failed line isLine
        obtain ⟨failing, member, reached, fails⟩ := Outcome.exists_of_foldlM_eq_error failed
        rw [List.mem_singleton.mp isLine, atLine _ _ _ fails]
        exact inOrder.1 _ (List.mem_map_of_mem member)

end Comparison.Holds

end Readings

section Faults

variable {capacity line : Nat} {registry : AliasRegistry capacity} {fault : FragmentError}

theorem line_of_readStatement {statement : List Char}
    (failed : readStatement line registry statement = .error fault) : fault.line = line := by
  unfold readStatement at failed
  split at failed
  · contradiction
  · split at failed
    · injection failed with isFault
      rw [← isFault, FragmentError.line]
    · obtain ⟨cause, -, rfl⟩ := Outcome.mapError_eq_error_iff.mp failed
      rfl

theorem line_of_endCode {rest : List Char} (failed : endCode line rest registry = .error fault) :
    fault.line = line := by
  unfold endCode at failed
  split at failed
  · contradiction
  · injection failed with isFault
    rw [← isFault, FragmentError.line]

theorem line_of_readPiece {piece : Piece} (failed : readPiece registry piece = .error fault) :
    fault.line = piece.line := by
  unfold readPiece at failed
  dsimp only at failed
  split at failed
  · contradiction
  · rcases Outcome.bind_eq_error_iff.mp failed with inStatement | ⟨result, -, atEnd⟩
    · obtain ⟨statement, -, state, fails⟩ := Outcome.exists_of_foldlM_eq_error inStatement
      exact line_of_readStatement fails
    · exact line_of_endCode atEnd

end Faults

/-- The same code some lines further down. -/
def Piece.shift (offset : Nat) (piece : Piece) : Piece :=
  { piece with line := offset + piece.line }

/-- What was scanned, some lines further down. -/
def shiftScanned (offset : Nat) (scanned : List Piece × Option Nat) :
    List Piece × Option Nat :=
  (scanned.1.map (Piece.shift offset), scanned.2.map (offset + ·))

section Registries

variable {capacity otherCapacity : Nat}

/-- Refuses a block comment that is still open behind the last line. -/
def endText (openedAt : Option Nat) (registry : AliasRegistry capacity) :
    Except FragmentError (AliasRegistry capacity) :=
  match openedAt with
  | none => .ok registry
  | some line => .error (.unterminatedComment line)

/-- Reads what was scanned of a text into a registry. -/
def readScanned (registry : AliasRegistry capacity) (scanned : List Piece × Option Nat) :
    Except FragmentError (AliasRegistry capacity) :=
  scanned.1.foldlM readPiece registry >>= endText scanned.2

theorem read_eq (capacity : Nat) (text : String) :
    read capacity text = readScanned .empty (scan text.toList) :=
  rfl

theorem endText_eq_ok_iff {openedAt : Option Nat} {registry next : AliasRegistry capacity} :
    endText openedAt registry = .ok next ↔ openedAt = none ∧ next = registry := by
  cases openedAt with
  | none => simp [endText, eq_comm]
  | some line => simp [endText]

theorem isUnterminated_of_endText {openedAt : Option Nat}
    {registry : AliasRegistry capacity} {cause : FragmentError}
    (failed : endText openedAt registry = .error cause) : cause.IsUnterminated := by
  cases openedAt with
  | none => contradiction
  | some line =>
      injection failed with isCause
      exact ⟨line, isCause.symm⟩

/-- Two registries compare whatever is declared in both, and so do two readings of which
the second goes on some lines further down. -/
structure Comparison.Carries
    (comparison : Comparison (AliasRegistry capacity) (AliasRegistry otherCapacity))
    (offset : Nat) : Prop where
  declare : ∀ registry other name target line, comparison.related registry other →
    comparison.Holds [line] ((registry.declare name target).mapError (.refused line))
      ((other.declare name target).mapError (.refused (offset + line)))
  malformed : ∀ line found,
    comparison.sameFault (.malformed line found) (.malformed (offset + line) found)
  missingSemicolon : ∀ line found,
    comparison.sameFault (.missingSemicolon line found)
      (.missingSemicolon (offset + line) found)
  unterminatedComment : ∀ line,
    comparison.sameFault (.unterminatedComment line) (.unterminatedComment (offset + line))
  declared : ∀ registry name target next, comparison.beyond registry →
    registry.declare name target = .ok next → comparison.beyond next

namespace Comparison.Carries

variable {comparison : Comparison (AliasRegistry capacity) (AliasRegistry otherCapacity)}
  {offset line : Nat} {registry : AliasRegistry capacity}
  {other : AliasRegistry otherCapacity}

theorem readStatement (carries : comparison.Carries offset)
    (related : comparison.related registry other) (statement : List Char) :
    comparison.Holds [line] (readStatement line registry statement)
      (readStatement (offset + line) other statement) := by
  unfold Fragment.readStatement
  split
  · exact .ok related
  · split
    · exact .error (carries.malformed line _)
    · exact carries.declare registry other _ _ line related

theorem endCode (carries : comparison.Carries offset)
    (related : comparison.related registry other) (rest : List Char) :
    comparison.Holds [line] (endCode line rest registry)
      (endCode (offset + line) rest other) := by
  unfold Fragment.endCode
  split
  · exact .ok related
  · exact .error (carries.missingSemicolon line _)

theorem readStatements (carries : comparison.Carries offset)
    (related : comparison.related registry other) (code : List Char) :
    comparison.Holds [line] (readStatements line registry code)
      (readStatements (offset + line) other code) := by
  have inOrder : (((Text.Terminated.split ';' code).pieces.map Text.trim).map
      fun _ => line).Pairwise (· ≤ ·) := by
    rw [List.pairwise_map]
    exact List.pairwise_of_forall fun _ _ => Nat.le_refl line
  have statements := Holds.foldlM (fun _ => line)
    (fun _ _ statement related => carries.readStatement related statement)
    (fun _ _ _ beyond ran => holds_of_readStatement carries.declared beyond ran)
    (fun _ _ _ failed => line_of_readStatement failed) inOrder related
  rw [readStatements_eq, readStatements_eq]
  refine (statements.bind (fun _ _ related => carries.endCode related _) ?_ ?_).mono ?_
  · intro before result beyond ran
    obtain ⟨-, rfl⟩ := endCode_eq_ok_iff.mp ran
    exact beyond
  · intro before fault failed earlier member
    obtain ⟨_, -, rfl⟩ := List.mem_map.mp member
    exact Nat.le_of_eq (line_of_endCode failed).symm
  · intro earlier member
    rcases List.mem_append.mp member with inStatements | isLine
    · obtain ⟨_, -, rfl⟩ := List.mem_map.mp inStatements
      exact List.mem_cons_self
    · exact isLine

theorem readPiece (carries : comparison.Carries offset)
    (related : comparison.related registry other) (piece : Piece) :
    comparison.Holds [piece.line] (readPiece registry piece)
      (readPiece other (piece.shift offset)) := by
  unfold Fragment.readPiece Piece.shift
  dsimp only
  split
  · exact .ok related
  · exact carries.readStatements related (Text.trim piece.code)

theorem readPieces (carries : comparison.Carries offset)
    (related : comparison.related registry other) {pieces : List Piece}
    (inOrder : (pieces.map Piece.line).Pairwise (· ≤ ·)) :
    comparison.Holds (pieces.map Piece.line) (pieces.foldlM Fragment.readPiece registry)
      ((pieces.map (Piece.shift offset)).foldlM Fragment.readPiece other) := by
  rw [List.foldlM_map]
  exact Holds.foldlM Piece.line (fun _ _ piece related => carries.readPiece related piece)
    (fun _ _ _ beyond ran => holds_of_readPiece carries.declared beyond ran)
    (fun _ _ _ failed => line_of_readPiece failed) inOrder related

/-- How the readings of all lines end.  Only a block comment that stays open is found
when every line is read, wherever it opened. -/
theorem readScanned_cases (carries : comparison.Carries offset)
    (related : comparison.related registry other) {scanned : List Piece × Option Nat}
    (inOrder : (scanned.1.map Piece.line).Pairwise (· ≤ ·)) :
    (∃ result otherResult, readScanned registry scanned = .ok result ∧
      readScanned other (shiftScanned offset scanned) = .ok otherResult ∧
      comparison.related result otherResult) ∨
    (∃ fault otherFault, readScanned registry scanned = .error fault ∧
      readScanned other (shiftScanned offset scanned) = .error otherFault ∧
      comparison.sameFault fault otherFault) ∨
    ∃ line ∈ scanned.1.map Piece.line, ∃ fault, comparison.stops line fault ∧
      readScanned other (shiftScanned offset scanned) = .error fault ∧
      (∀ result, readScanned registry scanned = .ok result → comparison.beyond result) ∧
      ∀ earlier, readScanned registry scanned = .error earlier →
        ¬ earlier.IsUnterminated → line ≤ earlier.line := by
  have compared := carries.readPieces related inOrder
  rcases scanned with ⟨pieces, openedAt⟩
  unfold readScanned shiftScanned
  dsimp only at compared ⊢
  generalize pieces.foldlM Fragment.readPiece registry = outcome at compared ⊢
  generalize (pieces.map (Piece.shift offset)).foldlM Fragment.readPiece other = otherOutcome
    at compared ⊢
  cases compared with
  | @ok result otherResult stillRelated =>
      cases openedAt with
      | none => exact Or.inl ⟨result, otherResult, rfl, rfl, stillRelated⟩
      | some line => exact Or.inr (Or.inl ⟨_, _, rfl, rfl, carries.unterminatedComment line⟩)
  | @error fault otherFault same => exact Or.inr (Or.inl ⟨fault, otherFault, rfl, rfl, same⟩)
  | @stopped outcome line fault inLines stops beyond noEarlier =>
      refine Or.inr (Or.inr ⟨line, inLines, fault, stops, rfl, ?_, ?_⟩)
      · intro result ran
        obtain ⟨state, piecesRan, atEnd⟩ := Outcome.bind_eq_ok_iff.mp ran
        obtain ⟨-, rfl⟩ := endText_eq_ok_iff.mp atEnd
        exact beyond result piecesRan
      · intro earlier failed terminated
        rcases Outcome.bind_eq_error_iff.mp failed with inPieces | ⟨state, -, atEnd⟩
        · exact noEarlier earlier inPieces
        · exact absurd (isUnterminated_of_endText atEnd) terminated

end Comparison.Carries

end Registries

section Lines

theorem line_of_mem_walk {zone : Zone} {text : List Char} {piece : Piece} {line : Nat}
    (member : piece ∈ (walk line zone text).1) : piece.line = line := by
  induction zone, text using walk.induct line with
  | case1 code =>
      rw [walk, List.mem_singleton] at member
      rw [member]
  | case2 code tail =>
      rw [walk, List.mem_singleton] at member
      rw [member]
  | case3 code rest pieces stillOpen isWalk ih =>
      rw [walk] at member
      rcases List.mem_cons.mp member with rfl | inRest
      · rfl
      · exact ih inRest
  | case4 code character rest noLine noBlock ih =>
      rw [walk.eq_4 _ _ _ _ noLine noBlock] at member
      exact ih member
  | case5 start => contradiction
  | case6 start rest ih =>
      rw [walk] at member
      exact ih member
  | case7 start character rest noClosing ih =>
      rw [walk.eq_7 _ _ _ _ noClosing] at member
      exact ih member

theorem le_line_of_mem_scanLines {openedAt : Option Nat} {texts : List (List Char)}
    {piece : Piece} {line : Nat} (member : piece ∈ (scanLines line openedAt texts).1) :
    line ≤ piece.line := by
  induction texts generalizing line openedAt with
  | nil => contradiction
  | cons text texts ih =>
      rw [scanLines_cons] at member
      rcases List.mem_append.mp member with here | later
      · rw [← walk_atStart] at here
        exact Nat.le_of_eq (line_of_mem_walk here).symm
      · exact Nat.le_of_succ_le (ih later)

/-- The pieces of a text come in the order of their lines. -/
theorem pairwise_line_scanLines (line : Nat) (openedAt : Option Nat)
    (texts : List (List Char)) :
    ((scanLines line openedAt texts).1.map Piece.line).Pairwise (· ≤ ·) := by
  induction texts generalizing line openedAt with
  | nil => exact List.Pairwise.nil
  | cons text texts ih =>
      rw [scanLines_cons, ← walk_atStart, List.map_append, List.pairwise_append]
      have here : ∀ other ∈ (walk line (.atStart openedAt) text).1.map Piece.line,
          other = line := by
        intro other member
        obtain ⟨piece, inLine, rfl⟩ := List.mem_map.mp member
        exact line_of_mem_walk inLine
      refine ⟨?_, ih _ _, ?_⟩
      · rw [List.pairwise_iff_forall_sublist]
        intro first second together
        have isFirst := here first (together.subset List.mem_cons_self)
        have isSecond := here second (together.subset (by simp))
        omega
      · intro first inLine second inLater
        obtain ⟨piece, member, rfl⟩ := List.mem_map.mp inLater
        have below : line + 1 ≤ piece.line := le_line_of_mem_scanLines member
        rw [here first inLine]
        omega

end Lines

end Fragment

end EarlyBoot
