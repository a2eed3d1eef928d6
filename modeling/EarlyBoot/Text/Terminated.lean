/-!
# Pieces that end with a mark

A text is read as a list of pieces, each closed by a mark, and a remainder after
the last mark.  Lines are such pieces with the line feed as the mark, and
statements are such pieces with the semicolon as the mark.
-/

namespace EarlyBoot
namespace Text

/-- The pieces of a text that a mark closes, without the mark, and what stands
after the last mark. -/
structure Terminated where
  pieces : List (List Char)
  remainder : List Char
  deriving DecidableEq, Repr

namespace Terminated

/-- Puts one character in front of the text. -/
def cons (mark character : Char) (text : Terminated) : Terminated :=
  if character = mark then
    ⟨[] :: text.pieces, text.remainder⟩
  else
    match text.pieces with
    | [] => ⟨[], character :: text.remainder⟩
    | piece :: pieces => ⟨(character :: piece) :: pieces, text.remainder⟩

def split (mark : Char) (text : List Char) : Terminated :=
  text.foldr (cons mark) ⟨[], []⟩

@[simp]
theorem split_nil (mark : Char) : split mark [] = ⟨[], []⟩ :=
  rfl

@[simp]
theorem split_cons (mark character : Char) (text : List Char) :
    split mark (character :: text) = cons mark character (split mark text) :=
  rfl

/-- A text without the mark is all remainder. -/
theorem split_of_not_mem {mark : Char} {text : List Char} (absent : mark ∉ text) :
    split mark text = ⟨[], text⟩ := by
  induction text with
  | nil => rfl
  | cons character text ih =>
      simp only [List.mem_cons, not_or] at absent
      simp [cons, ih absent.2, Ne.symm absent.1]

/-- A piece without the mark, the mark and a text: the piece comes first. -/
theorem split_append_mark {mark : Char} {piece : List Char} (absent : mark ∉ piece)
    (text : List Char) :
    split mark (piece ++ mark :: text) =
      ⟨piece :: (split mark text).pieces, (split mark text).remainder⟩ := by
  induction piece with
  | nil => simp [cons]
  | cons character piece ih =>
      simp only [List.mem_cons, not_or] at absent
      simp [cons, ih absent.2, Ne.symm absent.1]

end Terminated

/-- Removes one carriage return from the end of a line. -/
def dropCarriageReturn (line : List Char) : List Char :=
  if line.getLast? = some '\r' then line.dropLast else line

/-- The lines of a text.  A line feed closes a line, a carriage return right
before it belongs to the line end, and nothing after the last line feed is no
line. -/
def lines (text : List Char) : List (List Char) :=
  let rows := Terminated.split '\n' text
  rows.pieces.map dropCarriageReturn ++
    if rows.remainder = [] then [] else [rows.remainder]

end Text
end EarlyBoot
