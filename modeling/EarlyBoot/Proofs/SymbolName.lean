import EarlyBoot.SymbolName
import EarlyBoot.Text.Blank

/-!
# Valid names and the order of names

A valid name is written with letters, digits and three marks.  It holds no blank
and none of the characters that a linker script gives a meaning.  The checks of a
name are restated here as patterns of characters.  The order of names is that of
their bytes: it is transitive, and it tells different names apart.
-/

namespace EarlyBoot
namespace SymbolName

/-- The characters `[A-Za-z_.$]`. -/
def IsLetterOrMark (character : Char) : Prop :=
  ('A' ≤ character ∧ character ≤ 'Z') ∨ ('a' ≤ character ∧ character ≤ 'z') ∨
    character = '_' ∨ character = '.' ∨ character = '$'

/-- The names `[A-Za-z_.$][A-Za-z0-9_.$]*`. -/
def IsPlain (name : SymbolName) : Prop :=
  ∃ first rest, name.text.toList = first :: rest ∧ IsLetterOrMark first ∧
    ∀ character ∈ rest,
      IsLetterOrMark character ∨ ('0' ≤ character ∧ character ≤ '9')

theorem isAlpha_iff {character : Char} :
    character.isAlpha = true ↔
      ('A' ≤ character ∧ character ≤ 'Z') ∨ ('a' ≤ character ∧ character ≤ 'z') := by
  have upper : character.isUpper = true ↔ 'A' ≤ character ∧ character ≤ 'Z' :=
    decide_eq_true_iff
  have lower : character.isLower = true ↔ 'a' ≤ character ∧ character ≤ 'z' :=
    Bool.and_eq_true_iff.trans (and_congr decide_eq_true_iff decide_eq_true_iff)
  rw [← upper, ← lower]
  exact Bool.or_eq_true_iff

theorem canStart_iff {character : Char} :
    canStart character = true ↔ IsLetterOrMark character := by
  simp only [canStart, Bool.or_eq_true, isAlpha_iff, beq_iff_eq, IsLetterOrMark, or_assoc]

theorem canContinue_iff {character : Char} :
    canContinue character = true ↔
      IsLetterOrMark character ∨ ('0' ≤ character ∧ character ≤ '9') := by
  have digit : character.isDigit = true ↔ '0' ≤ character ∧ character ≤ '9' :=
    Bool.and_eq_true_iff.trans (and_congr decide_eq_true_iff decide_eq_true_iff)
  rw [canContinue, Bool.or_eq_true, canStart_iff, digit]

/-- The valid names are the plain ones. -/
theorem isValid_iff {name : SymbolName} : name.isValid = true ↔ name.IsPlain := by
  unfold isValid IsPlain
  cases name.text.toList with
  | nil => simp
  | cons first rest =>
      simp only [Bool.and_eq_true, List.all_eq_true, canStart_iff, canContinue_iff]
      constructor
      · rintro ⟨starts, continues⟩
        exact ⟨first, rest, rfl, starts, continues⟩
      · rintro ⟨_, _, whole, starts, continues⟩
        obtain ⟨rfl, rfl⟩ := List.cons_eq_cons.mp whole
        exact ⟨starts, continues⟩

theorem isEarly_iff {name : SymbolName} :
    name.isEarly = true ↔ "__pi_".toList <+: name.text.toList := by
  rw [isEarly, Option.isSome_iff_exists]
  simp only [Text.after?_eq_some_iff]
  constructor
  · rintro ⟨rest, whole⟩
    exact ⟨rest, whole.symm⟩
  · rintro ⟨rest, whole⟩
    exact ⟨rest, whole.symm⟩

/-- A name stands for a final one when something follows the mark. -/
theorem isSome_final?_iff {name : SymbolName} :
    name.final?.isSome = true ↔
      ∃ first rest, name.text.toList = "__pi_".toList ++ first :: rest := by
  constructor
  · intro hasFinal
    unfold final? at hasFinal
    split at hasFinal
    · next first rest found =>
        exact ⟨first, rest, Text.after?_eq_some_iff.mp found⟩
    · contradiction
    · contradiction
  · rintro ⟨first, rest, whole⟩
    have found : Text.after? earlyMark.toList name.text.toList = some (first :: rest) :=
      Text.after?_eq_some_iff.mpr whole
    simp [final?, found]

theorem isEarly_of_isSome_final? {name : SymbolName}
    (hasFinal : name.final?.isSome = true) : name.isEarly = true := by
  obtain ⟨first, rest, whole⟩ := isSome_final?_iff.mp hasFinal
  exact isEarly_iff.mpr ⟨first :: rest, whole.symm⟩

theorem canContinue_of_mem {name : SymbolName} (valid : name.isValid = true)
    {character : Char} (member : character ∈ name.text.toList) :
    canContinue character = true := by
  unfold isValid at valid
  split at valid
  · contradiction
  · next first rest whole =>
      rw [Bool.and_eq_true, List.all_eq_true] at valid
      rw [whole, List.mem_cons] at member
      rcases member with rfl | inRest
      · simp [canContinue, valid.1]
      · exact valid.2 character inRest

theorem not_mem_of_isValid {name : SymbolName} (valid : name.isValid = true)
    {mark : Char} (foreign : canContinue mark = false) : mark ∉ name.text.toList := by
  intro member
  rw [canContinue_of_mem valid member] at foreign
  contradiction

theorem toNat_of_isAlpha {character : Char} (alpha : character.isAlpha = true) :
    'A'.toNat ≤ character.toNat ∧ character.toNat ≤ 'Z'.toNat ∨
      'a'.toNat ≤ character.toNat ∧ character.toNat ≤ 'z'.toNat :=
  isAlpha_iff.mp alpha

/-- The characters of names are printed ASCII characters other than the space. -/
theorem toNat_of_canContinue {character : Char}
    (continues : canContinue character = true) :
    0x20 < character.toNat ∧ character.toNat < 0x7F := by
  simp only [canContinue, canStart, Bool.or_eq_true, beq_iff_eq] at continues
  rcases continues with (((alpha | rfl) | rfl) | rfl) | digit
  · have upperFirst : 'A'.toNat = 65 := rfl
    have upperLast : 'Z'.toNat = 90 := rfl
    have lowerFirst : 'a'.toNat = 97 := rfl
    have lowerLast : 'z'.toNat = 122 := rfl
    rcases toNat_of_isAlpha alpha with upper | lower
    · omega
    · omega
  · decide
  · decide
  · decide
  · have first : '0'.toNat = 48 := rfl
    have last : '9'.toNat = 57 := rfl
    have range := Char.isDigit_iff_toNat.mp digit
    omega

theorem isBlank_eq_false_of_canContinue {character : Char}
    (continues : canContinue character = true) : Text.isBlank character = false := by
  have range := toNat_of_canContinue continues
  rw [← Bool.not_eq_true]
  intro blank
  simp only [Text.isBlank, Text.blankRanges, List.any_cons, List.any_nil, Bool.or_eq_true,
    Bool.and_eq_true, decide_eq_true_eq, Bool.or_false] at blank
  omega

/-- Names with the same bytes are the same. -/
theorem bytes_inj {first second : SymbolName} :
    first.bytes = second.bytes ↔ first = second := by
  rw [SymbolName.mk.injEq, ← String.toByteArray_inj, ByteArray.ext_iff, ← Array.toList_inj]
  rfl

instance : Std.TransOrd SymbolName :=
  inferInstanceAs (Std.TransCmp (compareOn bytes))

/-- Two names compare as equal when they are the same name. -/
instance : Std.LawfulEqOrd SymbolName where
  eq_of_compare same := bytes_inj.mp (Std.LawfulEqOrd.eq_of_compare same)

end SymbolName
end EarlyBoot
