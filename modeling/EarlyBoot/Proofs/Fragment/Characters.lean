import EarlyBoot.Proofs.Fragment.Scanning

/-!
# Comments, character by character

The scanner looks for the next opening or closing of a comment in the rest of a
line and goes on behind it, turn by turn.  `walk` reads the line from left to
right instead, one character at a time, and only knows whether it stands in code
or in a block comment.  Both divide every line in the same way, so that a fragment
may be read by either.
-/

namespace EarlyBoot
namespace Fragment

variable {capacity : Nat} {line : Nat}

/-- Where a reader stands in a line: in code, behind some characters of a piece,
or in a block comment that opened on some line. -/
inductive Zone where
  | code (piece : List Char)
  | comment (openedAt : Nat)
  deriving DecidableEq, Repr

/-- Where a reader stands at the start of a line. -/
def Zone.atStart : Option Nat → Zone
  | none => .code []
  | some start => .comment start

/-- Divides the rest of a line character by character. -/
def walk (line : Nat) : Zone → List Char → List Piece × Option Nat
  | .code piece, [] => ([⟨line, piece⟩], none)
  | .code piece, '/' :: '/' :: _ => ([⟨line, piece⟩], none)
  | .code piece, '/' :: '*' :: rest =>
      let (pieces, stillOpen) := walk line (.comment line) rest
      (⟨line, piece⟩ :: pieces, stillOpen)
  | .code piece, character :: rest => walk line (.code (piece ++ [character])) rest
  | .comment start, [] => ([], some start)
  | .comment _, '*' :: '/' :: rest => walk line (.code []) rest
  | .comment start, _ :: rest => walk line (.comment start) rest

/-- Reads the pieces of each line in order, line after line, up to the first
fault.  A block comment that is open behind the last line is a fault as well. -/
def readLines (line : Nat) (openedAt : Option Nat) (registry : AliasRegistry capacity) :
    List (List Char) → Except FragmentError (AliasRegistry capacity)
  | [] =>
      match openedAt with
      | none => .ok registry
      | some start => .error (.unterminatedComment start)
  | row :: rows => do
      let (pieces, stillOpen) := walk line (.atStart openedAt) row
      let next ← pieces.foldlM readPiece registry
      readLines (line + 1) stillOpen next rows

/-- What one turn of the scanner does with the rest of a line. -/
inductive Turn where
  /-- The line ends with these pieces. -/
  | last (pieces : List Piece) (stillOpen : Option Nat)
  /-- A piece ends where a block comment opens, in front of the rest. -/
  | next (piece : Piece) (rest : List Char)
  deriving DecidableEq, Repr

/-- Looks for the first comment in code. -/
def codeTurn (line : Nat) (text : List Char) : Turn :=
  match firstComment text with
  | .lineEnd => .last [⟨line, text⟩] none
  | .lineComment code => .last [⟨line, code⟩] none
  | .blockComment code rest => .next ⟨line, code⟩ rest

/-- Leaves the comment that is open, if there is one, and looks for the next. -/
def turn (line : Nat) (openedAt : Option Nat) (text : List Char) : Turn :=
  match openedAt with
  | none => codeTurn line text
  | some start =>
      match Text.cutAt? blockClosing text with
      | none => .last [] (some start)
      | some (_, rest) => codeTurn line rest

/-- The turns for a line come to an end, with these pieces. -/
inductive Ends (line : Nat) : Option Nat → List Char → List Piece → Option Nat → Prop where
  | last {openedAt stillOpen : Option Nat} {text : List Char} {pieces : List Piece}
      (isLast : turn line openedAt text = .last pieces stillOpen) :
      Ends line openedAt text pieces stillOpen
  | next {openedAt stillOpen : Option Nat} {text rest : List Char} {piece : Piece}
      {pieces : List Piece} (goesOn : turn line openedAt text = .next piece rest)
      (later : Ends line (some line) rest pieces stillOpen) :
      Ends line openedAt text (piece :: pieces) stillOpen

section Turns

theorem scanLine_none_eq_turn (text : List Char) :
    scanLine line none text =
      match turn line none text with
      | .last pieces stillOpen => (pieces, stillOpen)
      | .next piece rest =>
          (piece :: (scanLine line (some line) rest).1, (scanLine line (some line) rest).2) := by
  rw [scanLine.eq_2, turn, codeTurn]
  cases firstComment text with
  | lineEnd => rfl
  | lineComment code => rfl
  | blockComment code rest => rfl

/-- The scanner does one turn after another. -/
theorem scanLine_eq_turn (openedAt : Option Nat) (text : List Char) :
    scanLine line openedAt text =
      match turn line openedAt text with
      | .last pieces stillOpen => (pieces, stillOpen)
      | .next piece rest =>
          (piece :: (scanLine line (some line) rest).1, (scanLine line (some line) rest).2) := by
  cases openedAt with
  | none => exact scanLine_none_eq_turn text
  | some start =>
      cases cut : Text.cutAt? blockClosing text with
      | none => rw [scanLine, turn, cut]
      | some parts =>
          have sameTurn : turn line (some start) text = turn line none parts.2 := by
            simp only [turn, cut]
          have sameScan : scanLine line (some start) text = scanLine line none parts.2 := by
            rw [scanLine, cut]
          rw [sameTurn, sameScan]
          exact scanLine_none_eq_turn parts.2

theorem length_lt_of_codeTurn_next {text rest : List Char} {piece : Piece}
    (goesOn : codeTurn line text = .next piece rest) : rest.length < text.length := by
  unfold codeTurn at goesOn
  split at goesOn
  · contradiction
  · contradiction
  · next first =>
      injection goesOn with _ restEq
      exact restEq ▸ length_lt_of_firstComment first

/-- A turn that is not the last one leaves less of the line, whether or not it
began inside a comment. -/
theorem length_lt_of_turn_next {openedAt : Option Nat} {text rest : List Char}
    {piece : Piece} (goesOn : turn line openedAt text = .next piece rest) :
    rest.length < text.length := by
  unfold turn at goesOn
  split at goesOn
  · exact length_lt_of_codeTurn_next goesOn
  · split at goesOn
    · contradiction
    · next closed =>
        have closedShorter := Text.length_lt_of_cutAt? closed (by decide)
        exact Nat.lt_trans (length_lt_of_codeTurn_next goesOn) closedShorter

theorem scanLine_of_ends {openedAt stillOpen : Option Nat} {text : List Char}
    {pieces : List Piece} (ends : Ends line openedAt text pieces stillOpen) :
    scanLine line openedAt text = (pieces, stillOpen) := by
  induction ends with
  | last isLast => rw [scanLine_eq_turn, isLast]
  | next goesOn _ ih =>
      rw [scanLine_eq_turn, goesOn]
      simp only [ih]

/-- The turns end on every line, since each leaves less of it. -/
theorem ends_scanLine (openedAt : Option Nat) (text : List Char) :
    Ends line openedAt text (scanLine line openedAt text).1 (scanLine line openedAt text).2 := by
  induction length : text.length using Nat.strongRecOn generalizing openedAt text with
  | ind _ shorter =>
      rw [scanLine_eq_turn]
      cases taken : turn line openedAt text with
      | last pieces stillOpen => exact .last taken
      | next piece rest =>
          have less := length_lt_of_turn_next taken
          rw [length] at less
          exact .next taken (shorter rest.length less (some line) rest rfl)

theorem ends_iff {openedAt stillOpen : Option Nat} {text : List Char} {pieces : List Piece} :
    Ends line openedAt text pieces stillOpen ↔
      scanLine line openedAt text = (pieces, stillOpen) := by
  constructor
  · exact scanLine_of_ends
  · intro scanned
    have ends : Ends line openedAt text (scanLine line openedAt text).1
        (scanLine line openedAt text).2 := ends_scanLine openedAt text
    rw [scanned] at ends
    exact ends

end Turns

section Equations

/-- Puts a character in front of the code that a comment or the line end closes. -/
def CodeEnd.cons (character : Char) : CodeEnd → CodeEnd
  | .lineEnd => .lineEnd
  | .lineComment code => .lineComment (character :: code)
  | .blockComment code rest => .blockComment (character :: code) rest

/-- Puts characters in front of the first piece of a line. -/
def extendFirst (front : List Char) (scanned : List Piece × Option Nat) :
    List Piece × Option Nat :=
  (scanned.1.modifyHead fun piece => { piece with code := front ++ piece.code }, scanned.2)

/-- The first comment stands where it did when a character in front of it opens
none. -/
theorem firstComment_cons {character : Char} {rest : List Char}
    (noLine : Text.after? lineOpening (character :: rest) = none)
    (noBlock : Text.after? blockOpening (character :: rest) = none) :
    firstComment (character :: rest) = (firstComment rest).cons character := by
  unfold firstComment
  rw [Text.cutAt?, Text.cutAt?, noLine, noBlock]
  cases Text.cutAt? blockOpening rest with
  | none => cases Text.cutAt? lineOpening rest <;> rfl
  | some block =>
      cases Text.cutAt? lineOpening rest with
      | none => rfl
      | some lineParts =>
          simp only [Option.map_some, List.length_cons, Nat.add_lt_add_iff_right]
          split <;> rfl

theorem scanLine_code_cons {character : Char} {rest : List Char}
    (noLine : ∀ tail, character = '/' → rest = '/' :: tail → False)
    (noBlock : ∀ tail, character = '/' → rest = '*' :: tail → False) :
    scanLine line none (character :: rest) =
      extendFirst [character] (scanLine line none rest) := by
  rw [scanLine.eq_2, scanLine.eq_2,
    firstComment_cons (Text.after?_pair_eq_none noLine) (Text.after?_pair_eq_none noBlock)]
  cases firstComment rest with
  | lineEnd => rfl
  | lineComment code => rfl
  | blockComment code following => rfl

theorem scanLine_code_lineOpening (tail : List Char) :
    scanLine line none ('/' :: '/' :: tail) = ([⟨line, []⟩], none) := by
  have lineCut : Text.cutAt? lineOpening ('/' :: '/' :: tail) = some ([], tail) := rfl
  have blockCut : Text.cutAt? blockOpening ('/' :: '/' :: tail) =
      (Text.cutAt? blockOpening ('/' :: tail)).map fun parts => ('/' :: parts.1, parts.2) :=
    rfl
  rw [scanLine.eq_2, firstComment, lineCut, blockCut]
  cases Text.cutAt? blockOpening ('/' :: tail) with
  | none => rfl
  | some parts => rfl

theorem scanLine_comment_cons {start : Nat} {character : Char} {rest : List Char}
    (noClosing : ∀ tail, character = '*' → rest = '/' :: tail → False) :
    scanLine line (some start) (character :: rest) = scanLine line (some start) rest := by
  have cut : Text.cutAt? blockClosing (character :: rest) =
      (Text.cutAt? blockClosing rest).map fun parts => (character :: parts.1, parts.2) := by
    rw [Text.cutAt?, blockClosing, Text.after?_pair_eq_none noClosing]
  rw [scanLine.eq_1, scanLine.eq_1, cut]
  cases Text.cutAt? blockClosing rest with
  | none => rfl
  | some parts => rfl

theorem extendFirst_nil (scanned : List Piece × Option Nat) :
    extendFirst [] scanned = scanned := by
  rcases scanned with ⟨_ | ⟨piece, pieces⟩, stillOpen⟩ <;> rfl

theorem extendFirst_append (front back : List Char) (scanned : List Piece × Option Nat) :
    extendFirst (front ++ back) scanned = extendFirst front (extendFirst back scanned) := by
  rcases scanned with ⟨_ | ⟨piece, pieces⟩, stillOpen⟩
  · rfl
  · simp [extendFirst]

/-- What the scanner finds in the rest of a line from a zone on. -/
def Zone.scan (line : Nat) : Zone → List Char → List Piece × Option Nat
  | .code piece, text => extendFirst piece (scanLine line none text)
  | .comment start, text => scanLine line (some start) text

/-- Both scanners divide the rest of a line in the same way, wherever they stand. -/
theorem walk_eq_scan (zone : Zone) (text : List Char) :
    walk line zone text = zone.scan line text := by
  induction zone, text using walk.induct line with
  | case1 piece =>
      rw [walk, Zone.scan, scanLine_of_not_mem List.not_mem_nil]
      simp [extendFirst]
  | case2 piece tail =>
      rw [walk, Zone.scan, scanLine_code_lineOpening]
      simp [extendFirst]
  | case3 piece rest pieces stillOpen _ ih =>
      have opens : '/' :: '*' :: rest = [] ++ blockOpening ++ rest := rfl
      rw [walk, ih, Zone.scan, Zone.scan, opens,
        scanLine_append_blockOpening List.not_mem_nil]
      simp [extendFirst]
  | case4 piece character rest noLine noBlock ih =>
      rw [walk.eq_4 _ _ _ _ noLine noBlock, ih, Zone.scan, Zone.scan,
        scanLine_code_cons noLine noBlock]
      exact extendFirst_append piece [character] _
  | case5 start =>
      rw [walk, Zone.scan, scanLine_of_not_closed (not_infix_blockClosing List.not_mem_nil)]
  | case6 start rest ih =>
      have closes : '*' :: '/' :: rest = [] ++ blockClosing ++ rest := rfl
      have first : ¬ blockClosing <:+: [] ++ ['*'] := not_infix_blockClosing (by decide)
      rw [walk, ih, Zone.scan, Zone.scan, closes, scanLine_append_blockClosing first,
        extendFirst_nil]
  | case7 start character rest noClosing ih =>
      rw [walk.eq_7 _ _ _ _ noClosing, ih, Zone.scan, Zone.scan,
        scanLine_comment_cons noClosing]

/-- The star that opens a comment does not close it. -/
example : walk 1 (.code []) "a/*/b*/c//*".toList = ([⟨1, ['a']⟩, ⟨1, ['c']⟩], none) := by
  decide

theorem walk_atStart (openedAt : Option Nat) (text : List Char) :
    walk line (.atStart openedAt) text = scanLine line openedAt text := by
  rw [walk_eq_scan]
  cases openedAt with
  | none => exact extendFirst_nil _
  | some start => rfl

end Equations

/-- Reading line after line is reading the pieces of all lines, and then looking
for a comment that is still open. -/
theorem readLines_eq (openedAt : Option Nat) (registry : AliasRegistry capacity)
    (rows : List (List Char)) :
    readLines line openedAt registry rows =
      ((scanLines line openedAt rows).1.foldlM readPiece registry >>= fun result =>
        match (scanLines line openedAt rows).2 with
        | none => .ok result
        | some start => .error (.unterminatedComment start)) := by
  induction rows generalizing line openedAt registry with
  | nil => cases openedAt <;> rfl
  | cons row rows ih =>
      rw [readLines, scanLines_cons, List.foldlM_append, bind_assoc, walk_atStart]
      simp only [ih]

theorem read_eq_lines (capacity : Nat) (text : String) :
    read capacity text = readLines 1 none .empty (Text.lines text.toList) :=
  (readLines_eq none .empty _).symm

/-- The turns for every line end, with the pieces that a walk over its characters
finds, and reading a text is reading its lines in that way. -/
theorem read_eq_readLines (capacity : Nat) (text : String) :
    (∀ line openedAt row pieces stillOpen, Ends line openedAt row pieces stillOpen ↔
      walk line (.atStart openedAt) row = (pieces, stillOpen)) ∧
    read capacity text = readLines 1 none .empty (Text.lines text.toList) := by
  constructor
  · intro line openedAt row pieces stillOpen
    rw [ends_iff, walk_atStart]
  · rw [readLines_eq]
    rfl

end Fragment
end EarlyBoot
