import EarlyBoot.Fragment.Read
import EarlyBoot.Proofs.Text

/-!
# Lines and the comments in them

The scanner goes through a line comment by comment.  These equations say what it
does with code before the first slash, with a block comment from its opening to
its closing, and with a sequence of lines; they take the place of the recursion on
the length of a line.
-/

namespace EarlyBoot
namespace Fragment

/-- What is skipped as a whole is skipped up to any point of it. -/
theorem isSkipped_trim_of_prefix {text code : List Char}
    (skipped : isSkipped text = true) (isPrefix : code <+: text) :
    isSkipped (Text.trim code) = true := by
  cases code with
  | nil => rfl
  | cons first rest =>
      obtain ⟨following, rfl⟩ := isPrefix
      obtain rfl : first = '#' := by simpa [isSkipped] using skipped
      obtain ⟨trimmed, trimEq⟩ := Text.trim_cons (by decide : Text.isBlank '#' = false) rest
      rw [trimEq]
      rfl

theorem not_infix_blockOpening {text : List Char} (plain : '/' ∉ text) :
    ¬ blockOpening <:+: text :=
  Text.not_infix_of_not_mem List.mem_cons_self plain

theorem not_infix_blockClosing {text : List Char} (plain : '/' ∉ text) :
    ¬ blockClosing <:+: text :=
  Text.not_infix_of_not_mem (List.mem_cons_of_mem _ List.mem_cons_self) plain

theorem firstComment_of_not_mem {text : List Char} (plain : '/' ∉ text) :
    firstComment text = .lineEnd := by
  have noCut : ∀ mark, Text.cutAt? ['/', mark] text = none := by
    intro mark
    rw [Text.cutAt?_eq_none_iff]
    exact Text.not_infix_of_not_mem List.mem_cons_self plain
  rw [firstComment, blockOpening, lineOpening, noCut, noCut]

/-- A text without the opening of a block comment is code up to some point. -/
theorem firstComment_of_not_infix {text : List Char}
    (noOpening : ¬ blockOpening <:+: text) :
    firstComment text = .lineEnd ∨
      ∃ code, code <+: text ∧ firstComment text = .lineComment code := by
  rw [firstComment, Text.cutAt?_eq_none_iff.mpr noOpening]
  cases cut : Text.cutAt? lineOpening text with
  | none => exact Or.inl rfl
  | some parts =>
      refine Or.inr ⟨parts.1, ?_, rfl⟩
      rw [Text.eq_append_of_cutAt? cut, List.append_assoc]
      exact List.prefix_append _ _

theorem prefix_of_firstComment_lineComment {text code : List Char}
    (first : firstComment text = .lineComment code) : code <+: text := by
  have shorter : ∀ before after, Text.cutAt? lineOpening text = some (before, after) →
      before <+: text := by
    intro before after cut
    rw [Text.eq_append_of_cutAt? cut, List.append_assoc]
    exact List.prefix_append _ _
  unfold firstComment at first
  split at first
  · contradiction
  · next before after _ cut =>
      injection first with isCode
      exact isCode ▸ shorter before after cut
  · contradiction
  · next before after _ cut =>
      split at first
      · injection first with isCode
        exact isCode ▸ shorter _ _ cut
      · contradiction

theorem eq_append_of_firstComment_blockComment {text code rest : List Char}
    (first : firstComment text = .blockComment code rest) :
    text = code ++ blockOpening ++ rest := by
  unfold firstComment at first
  split at first
  · contradiction
  · contradiction
  · next before after cut _ =>
      injection first with isCode isRest
      rw [← isCode, ← isRest]
      exact Text.eq_append_of_cutAt? cut
  · next before after _ _ cut _ =>
      split at first
      · contradiction
      · injection first with isCode isRest
        rw [← isCode, ← isRest]
        exact Text.eq_append_of_cutAt? cut

theorem firstComment_append_blockOpening {code : List Char} (plain : '/' ∉ code)
    (rest : List Char) :
    firstComment (code ++ blockOpening ++ rest) = .blockComment code rest := by
  have blockCut : Text.cutAt? blockOpening (code ++ blockOpening ++ rest) =
      some (code, rest) := by
    rw [List.append_assoc, blockOpening, Text.cutAt?_append_of_not_mem plain]
    simp [Text.cutAt?, Text.after?]
  have lineCut : Text.cutAt? lineOpening (code ++ blockOpening ++ rest) =
      (Text.cutAt? lineOpening ('*' :: rest)).map fun parts =>
        (code ++ '/' :: parts.1, parts.2) := by
    rw [List.append_assoc, lineOpening, Text.cutAt?_append_of_not_mem plain]
    simp [blockOpening, Text.cutAt?.eq_2 _ '/', Text.after?, Function.comp_def]
  rw [firstComment, blockCut, lineCut]
  cases Text.cutAt? lineOpening ('*' :: rest) with
  | none => rfl
  | some parts => simp

theorem scanLine_of_not_mem {text : List Char} (plain : '/' ∉ text) (line : Nat) :
    scanLine line none text = ([⟨line, text⟩], none) := by
  rw [scanLine, firstComment_of_not_mem plain]

theorem scanLine_of_not_infix {text : List Char} (noOpening : ¬ blockOpening <:+: text)
    (line : Nat) :
    ∃ code, code <+: text ∧ scanLine line none text = ([⟨line, code⟩], none) := by
  rcases firstComment_of_not_infix noOpening with first | ⟨code, isPrefix, first⟩
  · exact ⟨text, List.prefix_rfl, by rw [scanLine, first]⟩
  · exact ⟨code, isPrefix, by rw [scanLine, first]⟩

theorem scanLine_append_blockOpening {code : List Char} (plain : '/' ∉ code)
    (line : Nat) (rest : List Char) :
    scanLine line none (code ++ blockOpening ++ rest) =
      (⟨line, code⟩ :: (scanLine line (some line) rest).1,
        (scanLine line (some line) rest).2) := by
  rw [scanLine.eq_2, firstComment_append_blockOpening plain]

theorem scanLine_of_not_closed {text : List Char} (noClosing : ¬ blockClosing <:+: text)
    (line start : Nat) : scanLine line (some start) text = ([], some start) := by
  rw [scanLine, Text.cutAt?_eq_none_iff.mpr noClosing]

theorem scanLine_append_blockClosing {inner : List Char}
    (first : ¬ blockClosing <:+: inner ++ ['*']) (line start : Nat) (rest : List Char) :
    scanLine line (some start) (inner ++ blockClosing ++ rest) = scanLine line none rest := by
  rw [scanLine, Text.cutAt?_append first]

theorem scanLines_cons (line : Nat) (openedAt : Option Nat) (text : List Char)
    (texts : List (List Char)) :
    scanLines line openedAt (text :: texts) =
      ((scanLine line openedAt text).1 ++
          (scanLines (line + 1) (scanLine line openedAt text).2 texts).1,
        (scanLines (line + 1) (scanLine line openedAt text).2 texts).2) :=
  rfl

theorem scanLines_append (line : Nat) (openedAt : Option Nat)
    (first second : List (List Char)) :
    scanLines line openedAt (first ++ second) =
      ((scanLines line openedAt first).1 ++
          (scanLines (line + first.length) (scanLines line openedAt first).2 second).1,
        (scanLines (line + first.length) (scanLines line openedAt first).2 second).2) := by
  induction first generalizing line openedAt with
  | nil => rfl
  | cons text first ih =>
      simp only [List.cons_append, scanLines_cons, ih, List.length_cons, List.append_assoc,
        Nat.add_comm first.length 1, Nat.add_assoc]

/-- Each line as one piece. -/
def wholeLines (line : Nat) : List (List Char) → List Piece
  | [] => []
  | text :: texts => ⟨line, text⟩ :: wholeLines (line + 1) texts

/-- Lines without a slash are not divided. -/
theorem scanLines_of_not_mem {texts : List (List Char)}
    (plain : ∀ text ∈ texts, '/' ∉ text) (line : Nat) :
    scanLines line none texts = (wholeLines line texts, none) := by
  induction texts generalizing line with
  | nil => rfl
  | cons text texts ih =>
      rw [List.forall_mem_cons] at plain
      rw [scanLines_cons, scanLine_of_not_mem plain.1, ih plain.2]
      rfl

/-- The lines hold nothing to be read, and take the scanner from one state of the
comments to another. -/
def Skips (line : Nat) (openedAt : Option Nat) (texts : List (List Char))
    (stillOpen : Option Nat) : Prop :=
  (∀ piece ∈ (scanLines line openedAt texts).1,
      isSkipped (Text.trim piece.code) = true) ∧
    (scanLines line openedAt texts).2 = stillOpen

namespace Skips

theorem nil (line : Nat) (openedAt : Option Nat) : Skips line openedAt [] openedAt :=
  ⟨by simp [scanLines], rfl⟩

/-- A directive without a block comment, up to any point of it, is skipped. -/
theorem directive {line : Nat} {stillOpen : Option Nat} {row text : List Char}
    {texts : List (List Char)} (isPrefix : text <+: row) (skipped : isSkipped row = true)
    (noOpening : ¬ blockOpening <:+: row)
    (later : Skips (line + 1) none texts stillOpen) :
    Skips line none (text :: texts) stillOpen := by
  have notInText : ¬ blockOpening <:+: text :=
    fun inside => noOpening (inside.trans isPrefix.isInfix)
  obtain ⟨code, codePrefix, scanned⟩ := scanLine_of_not_infix notInText line
  rw [Skips, scanLines_cons, scanned]
  refine ⟨?_, later.2⟩
  intro piece member
  rcases List.mem_cons.mp member with rfl | inLater
  · exact isSkipped_trim_of_prefix skipped (codePrefix.trans isPrefix)
  · exact later.1 piece inLater

theorem opening {line : Nat} {stillOpen : Option Nat} {code rest : List Char}
    {texts : List (List Char)} (skipped : isSkipped code = true) (plain : '/' ∉ code)
    (following : Skips line (some line) (rest :: texts) stillOpen) :
    Skips line none ((code ++ blockOpening ++ rest) :: texts) stillOpen := by
  rw [Skips, scanLines_cons] at following
  rw [Skips, scanLines_cons, scanLine_append_blockOpening plain]
  refine ⟨?_, following.2⟩
  intro piece member
  rcases List.mem_cons.mp member with rfl | inFollowing
  · exact isSkipped_trim_of_prefix skipped List.prefix_rfl
  · exact following.1 piece inFollowing

theorem inside {line start : Nat} {stillOpen : Option Nat} {text : List Char}
    {texts : List (List Char)} (noClosing : ¬ blockClosing <:+: text)
    (later : Skips (line + 1) (some start) texts stillOpen) :
    Skips line (some start) (text :: texts) stillOpen := by
  rw [Skips, scanLines_cons, scanLine_of_not_closed noClosing]
  exact later

theorem closing {line start : Nat} {stillOpen : Option Nat} {inner rest : List Char}
    {texts : List (List Char)} (first : ¬ blockClosing <:+: inner ++ ['*'])
    (following : Skips line none (rest :: texts) stillOpen) :
    Skips line (some start) ((inner ++ blockClosing ++ rest) :: texts) stillOpen := by
  rw [Skips, scanLines_cons, scanLine_append_blockClosing first]
  exact following

end Skips

end Fragment
end EarlyBoot
