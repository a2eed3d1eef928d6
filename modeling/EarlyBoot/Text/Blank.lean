/-!
# Blank characters

A character is blank when it has the Unicode property `White_Space`.  Names,
statements and lines of a linker script are trimmed by this property, so that a
no-break space or an ideographic space counts as a blank and a zero-width space
does not.
-/

namespace EarlyBoot
namespace Text

/-- The code points with the property `White_Space`, as inclusive ranges in
increasing order. -/
def blankRanges : List (Nat × Nat) :=
  [(0x09, 0x0D), (0x20, 0x20), (0x85, 0x85), (0xA0, 0xA0), (0x1680, 0x1680),
    (0x2000, 0x200A), (0x2028, 0x2029), (0x202F, 0x202F), (0x205F, 0x205F),
    (0x3000, 0x3000)]

def isBlank (character : Char) : Bool :=
  blankRanges.any fun (first, last) =>
    first ≤ character.toNat && character.toNat ≤ last

def trimStart (text : List Char) : List Char :=
  text.dropWhile isBlank

def trimEnd (text : List Char) : List Char :=
  (trimStart text.reverse).reverse

def trim (text : List Char) : List Char :=
  trimEnd (trimStart text)

/-- Trimming the start leaves a text that is empty or begins with a character
that is not blank. -/
theorem not_isBlank_of_mem_head?_trimStart {text : List Char} {character : Char}
    (isHead : character ∈ (trimStart text).head?) : isBlank character = false := by
  induction text with
  | nil => simp [trimStart] at isHead
  | cons first rest ih =>
      by_cases blank : isBlank first = true
      · apply ih
        simpa [trimStart, blank] using isHead
      · simp only [trimStart, List.dropWhile_cons, blank] at isHead
        simp only [Bool.false_eq_true, if_false, List.head?_cons, Option.mem_def,
          Option.some.injEq] at isHead
        subst isHead
        simpa using blank

end Text
end EarlyBoot
