/-!
# Cutting a text at a pattern

`cutAt? pattern text` splits a text around the first occurrence of a pattern.
The main statement is that nothing is lost: the part before, the pattern and the
part after concatenate to the text.
-/

namespace EarlyBoot
namespace Text

/-- The text after a pattern it begins with, if it begins with it. -/
def after? : (pattern text : List Char) → Option (List Char)
  | [], text => some text
  | _ :: _, [] => none
  | mark :: marks, character :: rest =>
      if mark = character then after? marks rest else none

/-- The text before a character that it ends with, if it ends with it. -/
def before? (mark : Char) (text : List Char) : Option (List Char) :=
  if text.getLast? = some mark then some text.dropLast else none

/-- The text before and the text after the first occurrence of the pattern. -/
def cutAt? (pattern : List Char) : List Char → Option (List Char × List Char)
  | [] => (after? pattern []).map fun rest => ([], rest)
  | character :: rest =>
      match after? pattern (character :: rest) with
      | some following => some ([], following)
      | none =>
          (cutAt? pattern rest).map fun (before, following) =>
            (character :: before, following)

theorem after?_eq_some_iff {pattern text following : List Char} :
    after? pattern text = some following ↔ text = pattern ++ following := by
  induction pattern generalizing text with
  | nil => simp [after?]
  | cons mark marks ih =>
      cases text with
      | nil => simp [after?]
      | cons character rest =>
          by_cases same : mark = character
          · simp [after?, same, ih]
          · simp [after?, same, Ne.symm same]

theorem before?_eq_some_iff {mark : Char} {text front : List Char} :
    before? mark text = some front ↔ text = front ++ [mark] := by
  unfold before?
  constructor
  · intro found
    split at found
    · next last =>
        obtain rfl := Option.some.inj found
        obtain ⟨notEmpty, lastEq⟩ := List.getLast?_eq_some_iff.mp last
        simp [lastEq]
    · contradiction
  · rintro rfl
    simp

/-- The two parts and the pattern between them make up the text. -/
theorem eq_append_of_cutAt? {pattern text before following : List Char}
    (cut : cutAt? pattern text = some (before, following)) :
    text = before ++ pattern ++ following := by
  induction text generalizing before with
  | nil =>
      simp only [cutAt?, Option.map_eq_some_iff, Prod.mk.injEq] at cut
      obtain ⟨rest, found, rfl, rfl⟩ := cut
      simpa using after?_eq_some_iff.mp found
  | cons character rest ih =>
      rw [cutAt?] at cut
      split at cut
      · next found =>
          simp only [Option.some.injEq, Prod.mk.injEq] at cut
          obtain ⟨rfl, rfl⟩ := cut
          simpa using after?_eq_some_iff.mp found
      · simp only [Option.map_eq_some_iff, Prod.exists, Prod.mk.injEq] at cut
        obtain ⟨shorter, last, found, rfl, rfl⟩ := cut
        simp [ih found]

/-- What follows a pattern that is not empty is shorter than the text. -/
theorem length_lt_of_cutAt? {pattern text before following : List Char}
    (cut : cutAt? pattern text = some (before, following))
    (notEmpty : pattern ≠ []) : following.length < text.length := by
  have positive := List.length_pos_iff.mpr notEmpty
  rw [eq_append_of_cutAt? cut]
  simp only [List.length_append]
  omega

end Text
end EarlyBoot
