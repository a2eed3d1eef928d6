import EarlyBoot.Text.Blank
import EarlyBoot.Text.Cut
import EarlyBoot.Text.Terminated

/-!
# Taking texts apart

Texts are put together from parts, and taken apart by trimming blanks, by cutting
at a pattern and by splitting into lines.  Each of these operations finds the
parts again when no part holds what separates them.
-/

namespace EarlyBoot
namespace Text

theorem trimStart_eq_self {text : List Char}
    (plain : ∀ character ∈ text.head?, isBlank character = false) :
    trimStart text = text := by
  cases text with
  | nil => rfl
  | cons first rest =>
      have firstPlain := plain first rfl
      simp [trimStart, firstPlain]

/-- What is trimmed away at the start is blank. -/
theorem exists_eq_append_trimStart (text : List Char) :
    ∃ front, (∀ character ∈ front, isBlank character = true) ∧
      text = front ++ trimStart text :=
  ⟨text.takeWhile isBlank, List.all_eq_true.mp List.all_takeWhile,
    List.takeWhile_append_dropWhile.symm⟩

theorem trimStart_append {blanks : List Char}
    (blank : ∀ character ∈ blanks, isBlank character = true) (text : List Char) :
    trimStart (blanks ++ text) = trimStart text :=
  List.dropWhile_append_of_pos blank

theorem trimStart_prefix_trimStart {text whole : List Char} (isPrefix : text <+: whole) :
    trimStart text <+: trimStart whole := by
  obtain ⟨rest, rfl⟩ := isPrefix
  rw [trimStart, trimStart, List.dropWhile_append]
  split
  · next nothing =>
      rw [List.isEmpty_iff.mp nothing]
      exact List.nil_prefix
  · exact List.prefix_append _ _

theorem trimEnd_eq_self {text : List Char}
    (plain : ∀ character ∈ text.getLast?, isBlank character = false) :
    trimEnd text = text := by
  rw [trimEnd, trimStart_eq_self, List.reverse_reverse]
  simpa using plain

/-- What is trimmed away at the end is blank. -/
theorem exists_eq_append_trimEnd (text : List Char) :
    ∃ back, (∀ character ∈ back, isBlank character = true) ∧
      text = trimEnd text ++ back := by
  obtain ⟨back, blank, whole⟩ := exists_eq_append_trimStart text.reverse
  refine ⟨back.reverse, by simpa using blank, ?_⟩
  rw [trimEnd, ← List.reverse_append, ← whole, List.reverse_reverse]

theorem trimEnd_append {blanks : List Char}
    (blank : ∀ character ∈ blanks, isBlank character = true) (text : List Char) :
    trimEnd (text ++ blanks) = trimEnd text := by
  rw [trimEnd, List.reverse_append, trimStart_append (by simpa using blank), trimEnd]

theorem trim_eq_self {text : List Char}
    (plainStart : ∀ character ∈ text.head?, isBlank character = false)
    (plainEnd : ∀ character ∈ text.getLast?, isBlank character = false) :
    trim text = text := by
  rw [trim, trimStart_eq_self plainStart, trimEnd_eq_self plainEnd]

/-- Trimming finds a text again between blanks when it neither begins nor ends with
one. -/
theorem trim_append_append_of_ends {front text back : List Char}
    (blankFront : ∀ character ∈ front, isBlank character = true)
    (plainStart : ∀ character ∈ text.head?, isBlank character = false)
    (plainEnd : ∀ character ∈ text.getLast?, isBlank character = false)
    (blankBack : ∀ character ∈ back, isBlank character = true) :
    trim (front ++ text ++ back) = text := by
  rw [List.append_assoc, trim, trimStart_append blankFront]
  cases text with
  | nil =>
      rw [List.nil_append, ← List.append_nil back, trimStart_append blankBack]
      rfl
  | cons first rest =>
      rw [trimStart_eq_self (by simpa using plainStart), trimEnd_append blankBack,
        trimEnd_eq_self plainEnd]

/-- Trimming finds a text without blanks again between blanks. -/
theorem trim_append_append {front text back : List Char}
    (blankFront : ∀ character ∈ front, isBlank character = true)
    (plain : ∀ character ∈ text, isBlank character = false)
    (blankBack : ∀ character ∈ back, isBlank character = true) :
    trim (front ++ text ++ back) = text :=
  trim_append_append_of_ends blankFront
    (fun character isHead => plain character (List.mem_of_mem_head? isHead))
    (fun character isLast => plain character (List.mem_of_mem_getLast? isLast)) blankBack

theorem trim_append_of_blank_front {front : List Char}
    (blank : ∀ character ∈ front, isBlank character = true) (text : List Char) :
    trim (front ++ text) = trim text := by
  rw [trim, trimStart_append blank, trim]

/-- What trimming takes away are blanks on both sides. -/
theorem exists_eq_append_trim (text : List Char) :
    ∃ front back, (∀ character ∈ front, isBlank character = true) ∧
      (∀ character ∈ back, isBlank character = true) ∧ text = front ++ trim text ++ back := by
  obtain ⟨front, blankFront, isStart⟩ := exists_eq_append_trimStart text
  obtain ⟨back, blankBack, isEnd⟩ := exists_eq_append_trimEnd (trimStart text)
  refine ⟨front, back, blankFront, blankBack, ?_⟩
  rw [List.append_assoc, trim, ← isEnd]
  exact isStart

theorem trim_infix_self (text : List Char) : trim text <:+: text := by
  obtain ⟨front, back, -, -, whole⟩ := exists_eq_append_trim text
  exact ⟨front, back, whole.symm⟩

/-- What is trimmed begins with no blank. -/
theorem not_isBlank_of_mem_head?_trim {text : List Char} {character : Char}
    (isHead : character ∈ (trim text).head?) : isBlank character = false := by
  obtain ⟨back, -, isEnd⟩ := exists_eq_append_trimEnd (trimStart text)
  have isFirst : character ∈ (trimStart text).head? := by
    rw [isEnd, List.head?_append, ← trim, Option.mem_def.mp isHead]
    rfl
  exact not_isBlank_of_mem_head?_trimStart isFirst

/-- What is trimmed ends with no blank. -/
theorem not_isBlank_of_mem_getLast?_trim {text : List Char} {character : Char}
    (isLast : character ∈ (trim text).getLast?) : isBlank character = false := by
  rw [trim, trimEnd, List.getLast?_reverse] at isLast
  exact not_isBlank_of_mem_head?_trimStart isLast

/-- Trimming leaves nothing of blanks only. -/
theorem trim_eq_nil_iff {text : List Char} :
    trim text = [] ↔ ∀ character ∈ text, isBlank character = true := by
  constructor
  · intro nothing
    obtain ⟨front, back, blankFront, blankBack, whole⟩ := exists_eq_append_trim text
    rw [whole, nothing, List.append_nil]
    intro character member
    rcases List.mem_append.mp member with inFront | inBack
    · exact blankFront character inFront
    · exact blankBack character inBack
  · intro blank
    have trimmed := trim_append_of_blank_front blank []
    rw [List.append_nil] at trimmed
    exact trimmed

theorem trim_append_of_blank_back {back : List Char}
    (blank : ∀ character ∈ back, isBlank character = true) (text : List Char) :
    trim (text ++ back) = trim text := by
  rw [trim, trim, trimStart, trimStart, List.dropWhile_append]
  split
  · next nothing =>
      rw [List.isEmpty_iff.mp nothing, ← List.append_nil back,
        List.dropWhile_append_of_pos blank]
      rfl
  · exact trimEnd_append blank _

/-- Trimming keeps a first character that is not blank. -/
theorem trim_cons {first : Char} (plain : isBlank first = false) (rest : List Char) :
    ∃ trimmed, trim (first :: rest) = first :: trimmed := by
  rw [trim, trimStart_eq_self (by simpa using plain), trimEnd, trimStart,
    List.reverse_cons, List.dropWhile_append]
  split
  · exact ⟨[], by simp [plain]⟩
  · exact ⟨(rest.reverse.dropWhile isBlank).reverse, by simp⟩

theorem not_infix_of_not_mem {pattern text : List Char} {mark : Char}
    (inPattern : mark ∈ pattern) (absent : mark ∉ text) : ¬ pattern <:+: text :=
  fun inside => absent (inside.subset inPattern)

/-- A pattern without some character lies on one side of it. -/
theorem infix_append_cons_iff {pattern first second : List Char} {mark : Char}
    (absent : mark ∉ pattern) :
    pattern <:+: first ++ mark :: second ↔ pattern <:+: first ∨ pattern <:+: second := by
  constructor
  · rw [List.infix_append_iff]
    rintro (inFirst | inRest | ⟨left, right, rfl, isEnd, isStart⟩)
    · exact Or.inl inFirst
    · rcases List.infix_cons_iff.mp inRest with atStart | inSecond
      · rcases List.prefix_cons_iff.mp atStart with rfl | ⟨rest, rfl, -⟩
        · exact Or.inl List.nil_infix
        · exact absurd List.mem_cons_self absent
      · exact Or.inr inSecond
    · rcases List.prefix_cons_iff.mp isStart with rfl | ⟨rest, rfl, -⟩
      · rw [List.append_nil]
        exact Or.inl isEnd.isInfix
      · exact absurd (List.mem_append_right left List.mem_cons_self) absent
  · rintro (inFirst | inSecond)
    · exact List.infix_append_of_infix_left inFirst
    · exact List.infix_append_of_infix_right (List.infix_cons inSecond)

theorem after?_eq_none_iff {pattern text : List Char} :
    after? pattern text = none ↔ ¬ pattern <+: text := by
  rw [Option.eq_none_iff_forall_ne_some]
  simp only [ne_eq, after?_eq_some_iff]
  constructor
  · rintro never ⟨following, whole⟩
    exact never following whole.symm
  · rintro notPrefix following rfl
    exact notPrefix (List.prefix_append pattern following)

/-- A pattern of two characters does not stand where not both of them do. -/
theorem after?_pair_eq_none {first second character : Char} {rest : List Char}
    (elsewhere : ∀ tail, character = first → rest = second :: tail → False) :
    after? [first, second] (character :: rest) = none := by
  rw [Option.eq_none_iff_forall_ne_some]
  intro tail found
  rw [after?_eq_some_iff] at found
  simp only [List.cons_append, List.nil_append, List.cons.injEq] at found
  exact elsewhere tail found.1 found.2

theorem cutAt?_eq_none_iff {pattern text : List Char} :
    cutAt? pattern text = none ↔ ¬ pattern <:+: text := by
  induction text with
  | nil =>
      rw [cutAt?, Option.map_eq_none_iff, after?_eq_none_iff]
      simp
  | cons character rest ih =>
      rw [cutAt?, List.infix_cons_iff, not_or, ← ih, ← after?_eq_none_iff]
      cases after? pattern (character :: rest) <;> simp

/-- The text is cut where the pattern stands first: it neither lies in the part
before nor starts there. -/
theorem cutAt?_append {pattern before : List Char}
    (first : ¬ pattern <:+: before ++ pattern.dropLast) (rest : List Char) :
    cutAt? pattern (before ++ pattern ++ rest) = some (before, rest) := by
  have notEmpty : pattern ≠ [] := by
    rintro rfl
    exact first List.nil_infix
  induction before with
  | nil =>
      cases pattern with
      | nil => contradiction
      | cons mark marks =>
          have found : after? (mark :: marks) (mark :: (marks ++ rest)) = some rest :=
            after?_eq_some_iff.mpr rfl
          simp [cutAt?, found]
  | cons character before ih =>
      rw [List.cons_append, List.infix_cons_iff, not_or] at first
      have whole : pattern.dropLast ++ (pattern.getLast notEmpty :: rest) =
          pattern ++ rest := by
        rw [← List.singleton_append, ← List.append_assoc, List.dropLast_concat_getLast]
      -- Where the pattern starts it ends before the last mark of the later one.
      have notHere : after? pattern (character :: (before ++ pattern ++ rest)) = none := by
        rw [after?_eq_none_iff]
        intro here
        apply first.1
        apply List.prefix_of_prefix_length_le here
        · refine ⟨pattern.getLast notEmpty :: rest, ?_⟩
          rw [List.cons_append, List.append_assoc, whole, ← List.append_assoc]
        · have positive := List.length_pos_iff.mpr notEmpty
          simp only [List.length_cons, List.length_append, List.length_dropLast]
          omega
      rw [List.cons_append, List.cons_append, cutAt?, notHere]
      simp only [ih first.2, Option.map_some]

/-- Characters other than the first one of the pattern are passed over. -/
theorem cutAt?_append_of_not_mem {mark : Char} {marks before : List Char}
    (absent : mark ∉ before) (text : List Char) :
    cutAt? (mark :: marks) (before ++ text) =
      (cutAt? (mark :: marks) text).map fun parts => (before ++ parts.1, parts.2) := by
  induction before with
  | nil => simp
  | cons character before ih =>
      rw [List.mem_cons, not_or] at absent
      have notHere : after? (mark :: marks) (character :: (before ++ text)) = none := by
        simp [after?, absent.1]
      rw [List.cons_append, cutAt?, notHere, ih absent.2]
      simp [Function.comp_def]

/-- A text is cut at a single character where that character stands first. -/
theorem cutAt?_singleton_eq_some_iff {mark : Char} {text before following : List Char} :
    cutAt? [mark] text = some (before, following) ↔
      text = before ++ mark :: following ∧ mark ∉ before := by
  have cutAtFirst : ∀ {front : List Char}, mark ∉ front → ∀ back,
      cutAt? [mark] (front ++ mark :: back) = some (front, back) := by
    intro front absent back
    rw [cutAt?_append_of_not_mem absent]
    simp [cutAt?, after?]
  constructor
  · intro cut
    have whole := eq_append_of_cutAt? cut
    have member : mark ∈ text := by
      rw [whole]
      simp
    obtain ⟨front, back, isSplit, absent⟩ := List.eq_append_cons_of_mem member
    rw [isSplit, cutAtFirst absent, Option.some.injEq, Prod.mk.injEq] at cut
    obtain ⟨rfl, rfl⟩ := cut
    exact ⟨isSplit, absent⟩
  · rintro ⟨rfl, absent⟩
    exact cutAtFirst absent following

theorem split_flatMap {mark : Char} {rows : List (List Char)}
    (absent : ∀ row ∈ rows, mark ∉ row) :
    Terminated.split mark (rows.flatMap fun row => row ++ [mark]) = ⟨rows, []⟩ := by
  induction rows with
  | nil => rfl
  | cons row rows ih =>
      rw [List.forall_mem_cons] at absent
      rw [List.flatMap_cons, List.append_assoc, List.singleton_append,
        Terminated.split_append_mark absent.1, ih absent.2]

/-- The lines of a text are the rows that it was put together from, up to the
carriage returns at their ends. -/
theorem lines_flatMap {rows : List (List Char)} (absent : ∀ row ∈ rows, '\n' ∉ row) :
    lines (rows.flatMap fun row => row ++ ['\n']) = rows.map dropCarriageReturn := by
  simp [lines, split_flatMap absent]

/-- A mark closes what stands in front of it, whatever follows. -/
theorem split_append_cons (mark : Char) (first second : List Char) :
    Terminated.split mark (first ++ mark :: second) =
      ⟨(Terminated.split mark first).pieces ++
          (Terminated.split mark first).remainder :: (Terminated.split mark second).pieces,
        (Terminated.split mark second).remainder⟩ := by
  induction first with
  | nil => simp [Terminated.cons]
  | cons character first ih =>
      rw [List.cons_append, Terminated.split_cons, ih, Terminated.split_cons]
      by_cases isMark : character = mark
      · simp [Terminated.cons, isMark]
      · cases pieces : (Terminated.split mark first).pieces with
        | nil => simp [Terminated.cons, isMark, pieces]
        | cons piece pieces => simp [Terminated.cons, isMark, pieces]

/-- The lines of a text that ends with a line stay the same in front of another
text. -/
theorem lines_append {first : List Char} (endsLine : first = [] ∨ ∃ front, first = front ++ ['\n'])
    (second : List Char) : lines (first ++ second) = lines first ++ lines second := by
  rcases endsLine with rfl | ⟨front, rfl⟩
  · rfl
  · rw [List.append_assoc, List.singleton_append, lines, split_append_cons, lines,
      split_append_cons, lines]
    simp

theorem dropCarriageReturn_append_singleton {text : List Char} {last : Char}
    (plain : last ≠ '\r') : dropCarriageReturn (text ++ [last]) = text ++ [last] := by
  simp [dropCarriageReturn, plain]

theorem dropCarriageReturn_prefix_self (text : List Char) :
    dropCarriageReturn text <+: text := by
  unfold dropCarriageReturn
  split
  · exact List.dropLast_prefix text
  · exact List.prefix_rfl

/-- The bytes of a text are those of its characters, one after the other. -/
def bytes (text : List Char) : List UInt8 :=
  text.flatMap String.utf8EncodeChar

theorem toList_data_toUTF8 (text : String) : text.toUTF8.data.toList = bytes text.toList := by
  rw [String.toUTF8_eq_toByteArray, ← String.utf8Encode_toList, List.utf8Encode,
    List.toList_data_toByteArray, bytes]

theorem bytes_append (first second : List Char) :
    bytes (first ++ second) = bytes first ++ bytes second :=
  List.flatMap_append

theorem mem_bytes {text : List Char} {byte : UInt8} :
    byte ∈ bytes text ↔ ∃ character ∈ text, byte ∈ String.utf8EncodeChar character :=
  List.mem_flatMap

end Text
end EarlyBoot
