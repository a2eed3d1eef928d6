import EarlyBoot.Text.Cut

/-!
# Hexadecimal numerals

Numbers are written in lower case, either with as few digits as possible or filled
up with zeros; words also in two groups of digits.  A numeral is read digit by
digit, whatever its length.
-/

namespace EarlyBoot
namespace Hex

/-- The digits of a number, without superfluous zeros. -/
def digits (number : Nat) : List Char :=
  Nat.toDigits 16 number

/-- The last `width` digits of a number, filled up with zeros. -/
def fixedDigits : (width number : Nat) → List Char
  | 0, _ => []
  | width + 1, number =>
      fixedDigits width (number / 16) ++ [Nat.digitChar (number % 16)]

/-- The digits of a number, with zeros in front if there are fewer than `width`. -/
def paddedDigits (width number : Nat) : List Char :=
  (digits number).leftpad width '0'

/-- What a numeral begins with. -/
def mark : String := "0x"

/-- A number as a numeral with its mark. -/
def literal (number : Nat) : String :=
  mark ++ String.ofList (digits number)

/-- Whether a numeral is written with its mark. -/
inductive Form
  | plain
  | marked
  deriving DecidableEq, Repr

def Form.opening : Form → String
  | plain => ""
  | marked => mark

/-- The digits of the upper half of a word. -/
def highGroup (word : UInt64) : List Char :=
  paddedDigits 8 (word >>> 32).toNat

/-- The digits of the lower half of a word. -/
def lowGroup (word : UInt64) : List Char :=
  paddedDigits 8 (word &&& 0xffffffff).toNat

/-- A word in two groups of digits with an apostrophe between them. -/
def grouped (form : Form) (word : UInt64) : String :=
  form.opening ++ String.ofList (highGroup word) ++ "'" ++ String.ofList (lowGroup word)

/-- The value of a lower-case digit. -/
def digitValue? (character : Char) : Option Nat :=
  if '0' ≤ character ∧ character ≤ '9' then
    some (character.toNat - '0'.toNat)
  else if 'a' ≤ character ∧ character ≤ 'f' then
    some (character.toNat - 'a'.toNat + 10)
  else
    none

/-- Reads further digits after those that gave `number`. -/
def continue? (number : Nat) : List Char → Option Nat
  | [] => some number
  | character :: rest =>
      match digitValue? character with
      | some value => continue? (16 * number + value) rest
      | none => none

def value? (text : List Char) : Option Nat :=
  if text = [] then none else continue? 0 text

def ofLiteral? (text : String) : Option Nat :=
  (Text.after? mark.toList text.toList).bind value?

theorem digitValue?_digitChar {value : Nat} (small : value < 16) :
    digitValue? (Nat.digitChar value) = some value := by
  rcases value with _ | _ | _ | _ | _ | _ | _ | _ | _ | _ | _ | _ | _ | _ | _ | _ | value
  all_goals first | rfl | omega

@[simp]
theorem length_fixedDigits (width number : Nat) :
    (fixedDigits width number).length = width := by
  induction width generalizing number with
  | zero => rfl
  | succ width ih => simp [fixedDigits, ih]

theorem continue?_append (number : Nat) (first second : List Char) :
    continue? number (first ++ second) =
      (continue? number first).bind fun middle => continue? middle second := by
  induction first generalizing number with
  | nil => rfl
  | cons character first ih =>
      cases value : digitValue? character <;> simp [continue?, value, ih]

theorem digits_ne_nil (number : Nat) : digits number ≠ [] := by
  by_cases small : number < 16
  · simp [digits, Nat.toDigits_of_lt_base small]
  · simp [digits, Nat.toDigits_of_base_le (by decide) (Nat.le_of_not_lt small)]

/-- Reading the digits of a number gives the number. -/
theorem continue?_digits (number : Nat) : continue? 0 (digits number) = some number := by
  induction number using Nat.strongRecOn with
  | _ number ih =>
      by_cases small : number < 16
      · simp [digits, Nat.toDigits_of_lt_base small, continue?,
          digitValue?_digitChar small]
      · have large : 16 ≤ number := Nat.le_of_not_lt small
        have lastDigit : number % 16 < 16 := Nat.mod_lt _ (by decide)
        have front : continue? 0 (Nat.toDigits 16 (number / 16)) = some (number / 16) :=
          ih (number / 16) (Nat.div_lt_self (by omega) (by decide))
        rw [digits, Nat.toDigits_of_base_le (by decide) large, continue?_append, front]
        simp [continue?, digitValue?_digitChar lastDigit, Nat.div_add_mod]

/-- A numeral reads back as the number it was written for. -/
theorem ofLiteral?_literal (number : Nat) : ofLiteral? (literal number) = some number := by
  have marked : Text.after? mark.toList (literal number).toList = some (digits number) :=
    Text.after?_eq_some_iff.mpr (by simp [literal])
  simp [ofLiteral?, marked, value?, digits_ne_nil, continue?_digits]

end Hex
end EarlyBoot
