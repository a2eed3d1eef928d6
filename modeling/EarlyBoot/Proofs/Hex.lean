import EarlyBoot.Hex
import EarlyBoot.Proofs.Text
import Mathlib.Algebra.GroupWithZero.Nat

/-!
# Reading and comparing numerals

A numeral that can be read holds digits only, and its length bounds the number that it
stands for.  So the shortest numeral of a number begins with a zero for zero alone, and
numerals of the same length are ordered byte by byte as their numbers are.  A word in two
groups of digits is such a numeral, with the same marks in the same places for all words.
-/

namespace EarlyBoot
namespace Hex

/-- The characters `[0-9a-f]`. -/
def IsDigit (character : Char) : Prop :=
  ('0' ≤ character ∧ character ≤ '9') ∨ ('a' ≤ character ∧ character ≤ 'f')

instance : DecidablePred IsDigit :=
  fun character => inferInstanceAs (Decidable
    (('0' ≤ character ∧ character ≤ '9') ∨ ('a' ≤ character ∧ character ≤ 'f')))

section Digits

variable {character : Char} {value : Nat}

/-- A digit stands for a value exactly if it is the character at that place of its range. -/
theorem digitValue?_eq_some_iff :
    digitValue? character = some value ↔
      (value < 10 ∧ character.toNat = 48 + value) ∨
        (10 ≤ value ∧ value < 16 ∧ character.toNat = 87 + value) := by
  have figure : '0' ≤ character ∧ character ≤ '9' ↔
      48 ≤ character.toNat ∧ character.toNat ≤ 57 := Iff.rfl
  have letter : 'a' ≤ character ∧ character ≤ 'f' ↔
      97 ≤ character.toNat ∧ character.toNat ≤ 102 := Iff.rfl
  have firstFigure : '0'.toNat = 48 := rfl
  have firstLetter : 'a'.toNat = 97 := rfl
  unfold digitValue?
  split
  · next range =>
      rw [figure] at range
      rw [Option.some.injEq]
      omega
  split
  · next range =>
      rw [letter] at range
      rw [Option.some.injEq]
      omega
  · next notFigure notLetter =>
      rw [figure] at notFigure
      rw [letter] at notLetter
      constructor
      · intro impossible
        contradiction
      · omega

theorem isDigit_of_digitValue? (read : digitValue? character = some value) :
    IsDigit character := by
  unfold digitValue? at read
  split at read
  · next figure => exact .inl figure
  split at read
  · next letter => exact .inr letter
  · contradiction

/-- Digits are ASCII characters, so each is written as one byte. -/
theorem bytes_cons_of_digitValue? (read : digitValue? character = some value)
    (rest : List Char) :
    Text.bytes (character :: rest) = character.val.toUInt8 :: Text.bytes rest := by
  have code := digitValue?_eq_some_iff.mp read
  have oneByte : character.utf8Size = 1 := by
    rw [Char.utf8Size_eq_one_iff]
    show character.toNat ≤ 127
    omega
  rw [Text.bytes, List.flatMap_cons, String.utf8EncodeChar_eq_singleton oneByte]
  rfl

/-- The bytes of digits are ordered as the values of the digits. -/
theorem byte_lt_byte {other : Char} {otherValue : Nat}
    (read : digitValue? character = some value)
    (readOther : digitValue? other = some otherValue) (below : value < otherValue) :
    character.val.toUInt8 < other.val.toUInt8 := by
  have code := digitValue?_eq_some_iff.mp read
  have otherCode := digitValue?_eq_some_iff.mp readOther
  rw [UInt8.lt_iff_toNat_lt, UInt32.toNat_toUInt8, UInt32.toNat_toUInt8]
  show character.toNat % 256 < other.toNat % 256
  omega

/-- A value has one digit. -/
theorem eq_of_digitValue? {other : Char} (read : digitValue? character = some value)
    (readOther : digitValue? other = some value) : character = other := by
  have code := digitValue?_eq_some_iff.mp read
  have otherCode := digitValue?_eq_some_iff.mp readOther
  apply Char.toNat_inj.mp
  omega

end Digits

section Reading

variable {text : List Char} {start number : Nat}

theorem value?_eq_some_iff :
    value? text = some number ↔ text ≠ [] ∧ continue? 0 text = some number := by
  by_cases empty : text = []
  · simp [value?, empty]
  · simp [value?, empty]

theorem continue?_cons_eq_some_iff {character : Char} :
    continue? start (character :: text) = some number ↔
      ∃ value, digitValue? character = some value ∧
        continue? (16 * start + value) text = some number := by
  rw [continue?]
  cases digitValue? character with
  | none => simp
  | some value => simp

/-- What can be read holds digits only. -/
theorem isDigit_of_continue? (read : continue? start text = some number) :
    ∀ character ∈ text, IsDigit character := by
  induction text generalizing start with
  | nil => simp
  | cons first rest ih =>
      obtain ⟨value, readFirst, readRest⟩ := continue?_cons_eq_some_iff.mp read
      rw [List.forall_mem_cons]
      exact ⟨isDigit_of_digitValue? readFirst, ih readRest⟩

/-- A numeral takes as many bytes as it has digits. -/
theorem length_bytes_of_continue? (read : continue? start text = some number) :
    (Text.bytes text).length = text.length := by
  induction text generalizing start with
  | nil => rfl
  | cons first rest ih =>
      obtain ⟨value, readFirst, readRest⟩ := continue?_cons_eq_some_iff.mp read
      rw [bytes_cons_of_digitValue? readFirst, List.length_cons, List.length_cons, ih readRest]

/-- Each further digit multiplies the number by sixteen and leaves what is added below
sixteen. -/
theorem bounds_of_continue? (read : continue? start text = some number) :
    start * 16 ^ text.length ≤ number ∧ number < (start + 1) * 16 ^ text.length := by
  induction text generalizing start with
  | nil =>
      obtain rfl := Option.some.inj read
      simp
  | cons first rest ih =>
      obtain ⟨value, readFirst, readRest⟩ := continue?_cons_eq_some_iff.mp read
      have small : value < 16 := by
        have code := digitValue?_eq_some_iff.mp readFirst
        omega
      obtain ⟨atLeast, below⟩ := ih readRest
      rw [List.length_cons, Nat.pow_succ', ← Nat.mul_assoc, ← Nat.mul_assoc]
      constructor
      · calc start * 16 * 16 ^ rest.length
            ≤ (16 * start + value) * 16 ^ rest.length :=
              Nat.mul_le_mul_right _ (by omega)
          _ ≤ number := atLeast
      · calc number
            < (16 * start + value + 1) * 16 ^ rest.length := below
          _ ≤ (start + 1) * 16 * 16 ^ rest.length :=
              Nat.mul_le_mul_right _ (by omega)

/-- The number read so far decides, whatever digits follow, because they make up for less
than one in its place. -/
theorem lt_of_continue? {other : List Char} {otherStart otherNumber : Nat}
    (sameLength : text.length = other.length) (below : start < otherStart)
    (read : continue? start text = some number)
    (readOther : continue? otherStart other = some otherNumber) : number < otherNumber := by
  have otherAtLeast := (bounds_of_continue? readOther).1
  rw [← sameLength] at otherAtLeast
  calc number < (start + 1) * 16 ^ text.length := (bounds_of_continue? read).2
    _ ≤ otherStart * 16 ^ text.length := Nat.mul_le_mul_right _ below
    _ ≤ otherNumber := otherAtLeast

/-- Digits read behind others count for as much as they do on their own. -/
theorem continue?_add (read : continue? start text = some number) (more : Nat) :
    continue? (more + start) text = some (more * 16 ^ text.length + number) := by
  induction text generalizing start more with
  | nil =>
      obtain rfl := Option.some.inj read
      simp [continue?]
  | cons first rest ih =>
      obtain ⟨value, readFirst, readRest⟩ := continue?_cons_eq_some_iff.mp read
      rw [continue?_cons_eq_some_iff]
      refine ⟨value, readFirst, ?_⟩
      have shifted : 16 * (more + start) + value = 16 * more + (16 * start + value) := by omega
      rw [shifted, ih readRest, List.length_cons, Nat.pow_succ', ← Nat.mul_assoc,
        Nat.mul_comm more]

end Reading

section Writing

variable {width number : Nat}

theorem fixedDigits_zero (width : Nat) : fixedDigits width 0 = List.replicate width '0' := by
  induction width with
  | zero => rfl
  | succ width ih =>
      rw [fixedDigits, List.replicate_succ', Nat.zero_div, ih]
      rfl

/-- A number that fits is filled up to exactly its last digits. -/
theorem paddedDigits_eq_fixedDigits (positive : 0 < width) (fits : number < 16 ^ width) :
    paddedDigits width number = fixedDigits width number := by
  induction width generalizing number with
  | zero => contradiction
  | succ width ih =>
      by_cases small : number < 16
      · rw [paddedDigits, digits, Nat.toDigits_of_lt_base small, fixedDigits,
          Nat.div_eq_of_lt small, Nat.mod_eq_of_lt small, fixedDigits_zero]
        simp [List.leftpad]
      · have large : 16 ≤ number := Nat.le_of_not_lt small
        have frontFits : number / 16 < 16 ^ width := by
          rw [Nat.pow_succ] at fits
          omega
        have wide : 0 < width := by
          rcases width with _ | width
          · omega
          · exact Nat.succ_pos width
        rw [fixedDigits, ← ih wide frontFits, paddedDigits, paddedDigits, digits, digits,
          Nat.toDigits_of_base_le (by decide) large]
        simp [List.leftpad]

theorem continue?_replicate_zero (count : Nat) :
    continue? 0 (List.replicate count '0') = some 0 := by
  induction count with
  | zero => rfl
  | succ count ih =>
      rw [List.replicate_succ, continue?_cons_eq_some_iff]
      exact ⟨0, rfl, ih⟩

/-- Zeros in front do not change the number. -/
theorem continue?_paddedDigits (width number : Nat) :
    continue? 0 (paddedDigits width number) = some number := by
  rw [paddedDigits, List.leftpad, continue?_append, continue?_replicate_zero]
  exact continue?_digits number

theorem value?_digits (number : Nat) : value? (digits number) = some number :=
  value?_eq_some_iff.mpr ⟨digits_ne_nil number, continue?_digits number⟩

/-- No numeral but that of zero begins with a zero: without the zero the number would
have a numeral that is shorter than its shortest one. -/
theorem digits_eq_of_head?_zero (front : (digits number).head? = some '0') :
    digits number = ['0'] := by
  obtain ⟨rest, whole⟩ := List.head?_eq_some_iff.mp front
  have read := continue?_digits number
  rw [whole, continue?_cons_eq_some_iff] at read
  obtain ⟨value, readZero, readRest⟩ := read
  obtain rfl : 0 = value := Option.some.inj readZero
  have below := (bounds_of_continue? readRest).2
  by_cases alone : rest = []
  · rw [whole, alone]
  · have notEmpty : 0 < rest.length := List.length_pos_iff.mpr alone
    have shorter : (digits number).length ≤ rest.length :=
      (Nat.length_toDigits_le_iff (by decide) notEmpty).mpr (by simpa using below)
    rw [whole, List.length_cons] at shorter
    omega

end Writing

section Order

/-- Lists that begin with parts of the same length are compared by these parts first. -/
theorem compare_append {α : Type} [Ord α] {first second : List α}
    (sameLength : first.length = second.length) (firstRest secondRest : List α) :
    compare (first ++ firstRest) (second ++ secondRest) =
      (compare first second).then (compare firstRest secondRest) := by
  induction first generalizing second with
  | nil =>
      obtain rfl := List.eq_nil_of_length_eq_zero sameLength.symm
      rfl
  | cons left first ih =>
      cases second with
      | nil => contradiction
      | cons right second =>
          rw [List.cons_append, List.cons_append, List.compare_cons_cons,
            List.compare_cons_cons, ih (Nat.succ.inj sameLength)]
          cases compare left right <;> rfl

theorem compare_append_left {α : Type} [Ord α] [Std.ReflOrd α] (front first second : List α) :
    compare (front ++ first) (front ++ second) = compare first second := by
  rw [compare_append rfl, Std.compare_self]
  rfl

/-- What two lists hold alike in the same place makes no difference between them. -/
theorem compare_insert {α : Type} [Ord α] [Std.ReflOrd α] {first second : List α}
    (sameLength : first.length = second.length) (between firstRest secondRest : List α) :
    compare (first ++ (between ++ firstRest)) (second ++ (between ++ secondRest)) =
      compare (first ++ firstRest) (second ++ secondRest) := by
  rw [compare_append sameLength, compare_append_left, compare_append sameLength]

/-- Numerals of the same length are ordered byte by byte as their numbers: in both orders
the first digit in which they differ decides. -/
theorem compare_of_continue? {first second : List Char} {start left right : Nat}
    (sameLength : first.length = second.length)
    (readFirst : continue? start first = some left)
    (readSecond : continue? start second = some right) :
    compare (Text.bytes first) (Text.bytes second) = compare left right := by
  induction first generalizing second start with
  | nil =>
      obtain rfl := List.eq_nil_of_length_eq_zero sameLength.symm
      obtain rfl : left = right := Option.some.inj (readFirst.symm.trans readSecond)
      rw [Std.compare_self, Std.compare_self]
  | cons character first ih =>
      cases second with
      | nil => contradiction
      | cons other second =>
          obtain ⟨value, readCharacter, readRest⟩ := continue?_cons_eq_some_iff.mp readFirst
          obtain ⟨otherValue, readOther, readOtherRest⟩ :=
            continue?_cons_eq_some_iff.mp readSecond
          have sameRest : first.length = second.length := Nat.succ.inj sameLength
          rw [bytes_cons_of_digitValue? readCharacter, bytes_cons_of_digitValue? readOther,
            List.compare_cons_cons]
          rcases Nat.lt_trichotomy value otherValue with below | rfl | above
          · have less : left < right :=
              lt_of_continue? sameRest (by omega) readRest readOtherRest
            rw [Std.compare_eq_lt.mpr (byte_lt_byte readCharacter readOther below),
              Nat.compare_eq_lt.mpr less]
            rfl
          · obtain rfl := eq_of_digitValue? readCharacter readOther
            rw [Std.compare_self, ih sameRest readRest readOtherRest]
            rfl
          · have greater : right < left :=
              lt_of_continue? sameRest.symm (by omega) readOtherRest readRest
            rw [Std.compare_eq_gt.mpr (byte_lt_byte readOther readCharacter above),
              Nat.compare_eq_gt.mpr greater]
            rfl

end Order

/-- Eight lower-case digits. -/
structure IsGroup (text : List Char) : Prop where
  length_eq : text.length = 8
  digits : ∀ character ∈ text, IsDigit character

section Groups

variable (word : UInt64)

theorem toNat_highHalf : (word >>> 32).toNat = word.toNat / 2 ^ 32 := by
  rw [UInt64.toNat_shiftRight]
  exact Nat.shiftRight_eq_div_pow word.toNat 32

theorem toNat_lowHalf : (word &&& 0xffffffff).toNat = word.toNat % 2 ^ 32 := by
  rw [UInt64.toNat_and]
  exact Nat.and_two_pow_sub_one_eq_mod word.toNat 32

theorem isGroup_paddedDigits {number : Nat} (fits : number < 16 ^ 8) :
    IsGroup (paddedDigits 8 number) where
  length_eq := by rw [paddedDigits_eq_fixedDigits (by decide) fits, length_fixedDigits]
  digits := isDigit_of_continue? (continue?_paddedDigits 8 number)

theorem isGroup_highGroup : IsGroup (highGroup word) := by
  have fits := word.toNat_lt
  apply isGroup_paddedDigits
  rw [toNat_highHalf]
  omega

theorem isGroup_lowGroup : IsGroup (lowGroup word) := by
  apply isGroup_paddedDigits
  rw [toNat_lowHalf]
  exact Nat.mod_lt _ (by decide)

/-- The digits of both groups are a numeral of the word. -/
theorem continue?_groups : continue? 0 (highGroup word ++ lowGroup word) = some word.toNat := by
  have high : continue? 0 (highGroup word) = some (word.toNat / 2 ^ 32) := by
    rw [highGroup, continue?_paddedDigits, toNat_highHalf]
  have low : continue? 0 (lowGroup word) = some (word.toNat % 2 ^ 32) := by
    rw [lowGroup, continue?_paddedDigits, toNat_lowHalf]
  have behind := continue?_add low (word.toNat / 2 ^ 32)
  rw [Nat.add_zero, (isGroup_lowGroup word).length_eq] at behind
  rw [continue?_append, high, Option.bind_some, behind, Option.some.injEq]
  exact Nat.div_add_mod' word.toNat (2 ^ 32)

theorem value?_groups : value? (highGroup word ++ lowGroup word) = some word.toNat := by
  refine value?_eq_some_iff.mpr ⟨?_, continue?_groups word⟩
  apply List.ne_nil_of_length_pos
  rw [List.length_append, (isGroup_highGroup word).length_eq]
  omega

theorem toList_grouped (form : Form) :
    (grouped form word).toList =
      form.opening.toList ++ (highGroup word ++ (['\''] ++ lowGroup word)) := by
  simp [grouped]

theorem bytes_grouped (form : Form) :
    (grouped form word).toUTF8.data.toList =
      Text.bytes form.opening.toList ++ (Text.bytes (highGroup word) ++
        (Text.bytes ['\''] ++ Text.bytes (lowGroup word))) := by
  rw [Text.toList_data_toUTF8, toList_grouped, Text.bytes_append, Text.bytes_append,
    Text.bytes_append]

theorem length_bytes_highGroup : (Text.bytes (highGroup word)).length = 8 := by
  rw [highGroup, length_bytes_of_continue? (continue?_paddedDigits 8 _)]
  exact (isGroup_highGroup word).length_eq

/-- The mark stands in front of a marked text only; a plain one begins with digits. -/
theorem mark_prefix_grouped_iff (form : Form) :
    mark.toList <+: (grouped form word).toList ↔ form = .marked := by
  rw [toList_grouped]
  cases form with
  | marked => exact ⟨fun _ => rfl, fun _ => List.prefix_append mark.toList _⟩
  | plain =>
      constructor
      · rintro ⟨rest, whole⟩
        have eight := (isGroup_highGroup word).length_eq
        have front := congrArg (List.take 8) whole
        rw [Form.opening, String.toList_empty, List.nil_append, List.take_left' eight] at front
        have inGroup : 'x' ∈ highGroup word := by
          rw [← front]
          simp [mark]
        have notDigit : ¬ IsDigit 'x' := by decide
        exact absurd ((isGroup_highGroup word).digits 'x' inGroup) notDigit
      · intro impossible
        contradiction

end Groups

/-- Words printed in one form are ordered byte by byte as the words: the opening and the
apostrophe are the same in both texts, and the digits are numerals of the same length. -/
theorem compare_grouped (form : Form) (first second : UInt64) :
    compare (grouped form first).toUTF8.data.toList (grouped form second).toUTF8.data.toList =
      compare first.toNat second.toNat := by
  have sameLength : (highGroup first ++ lowGroup first).length =
      (highGroup second ++ lowGroup second).length := by
    rw [List.length_append, List.length_append, (isGroup_highGroup first).length_eq,
      (isGroup_lowGroup first).length_eq, (isGroup_highGroup second).length_eq,
      (isGroup_lowGroup second).length_eq]
  calc compare (grouped form first).toUTF8.data.toList (grouped form second).toUTF8.data.toList
      = compare
          (Text.bytes form.opening.toList ++ (Text.bytes (highGroup first) ++
            (Text.bytes ['\''] ++ Text.bytes (lowGroup first))))
          (Text.bytes form.opening.toList ++ (Text.bytes (highGroup second) ++
            (Text.bytes ['\''] ++ Text.bytes (lowGroup second)))) := by
        rw [bytes_grouped, bytes_grouped]
    _ = compare (Text.bytes (highGroup first) ++ Text.bytes (lowGroup first))
          (Text.bytes (highGroup second) ++ Text.bytes (lowGroup second)) := by
        rw [compare_append_left, compare_insert (by simp only [length_bytes_highGroup])]
    _ = compare first.toNat second.toNat := by
        rw [← Text.bytes_append, ← Text.bytes_append]
        exact compare_of_continue? sameLength (continue?_groups first) (continue?_groups second)

theorem grouped_inj {form : Form} {first second : UInt64} :
    grouped form first = grouped form second ↔ first = second := by
  constructor
  · intro same
    have order := compare_grouped form first second
    rw [same, Std.compare_self] at order
    exact UInt64.toNat_inj.mp (Nat.compare_eq_eq.mp order.symm)
  · rintro rfl
    rfl

end Hex
end EarlyBoot
