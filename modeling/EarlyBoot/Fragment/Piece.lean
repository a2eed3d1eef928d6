import EarlyBoot.Text.Cut
import EarlyBoot.Text.Terminated

/-!
# The code of a fragment

Comments divide the lines of a text into pieces of code.  A block comment may go
on over many lines; a line comment takes the rest of its line.  A piece never
reaches over a comment or a line end.
-/

namespace EarlyBoot
namespace Fragment

/-- Code between comments, and the number of its line. -/
structure Piece where
  line : Nat
  code : List Char
  deriving DecidableEq, Repr

/-- What ends a stretch of code. -/
inductive CodeEnd where
  | lineEnd
  | lineComment (code : List Char)
  | blockComment (code rest : List Char)
  deriving DecidableEq, Repr

def blockOpening : List Char := ['/', '*']

def blockClosing : List Char := ['*', '/']

def lineOpening : List Char := ['/', '/']

/-- The first comment that opens in a text.  A line comment hides the block
comments that open after it, and the other way round. -/
def firstComment (text : List Char) : CodeEnd :=
  match Text.cutAt? blockOpening text, Text.cutAt? lineOpening text with
  | none, none => .lineEnd
  | none, some (code, _) => .lineComment code
  | some (code, rest), none => .blockComment code rest
  | some (blockCode, rest), some (lineCode, _) =>
      if lineCode.length < blockCode.length then
        .lineComment lineCode
      else
        .blockComment blockCode rest

theorem length_lt_of_firstComment {text code rest : List Char}
    (first : firstComment text = .blockComment code rest) :
    rest.length < text.length := by
  have shorter : ∀ before following, Text.cutAt? blockOpening text =
      some (before, following) → following.length < text.length := by
    intro before following cut
    exact Text.length_lt_of_cutAt? cut (by decide)
  unfold firstComment at first
  split at first
  · contradiction
  · contradiction
  · next before following cut _ =>
      injection first with _ restEq
      exact restEq ▸ shorter _ _ cut
  · next before following _ _ cut _ =>
      split at first
      · contradiction
      · injection first with _ restEq
        exact restEq ▸ shorter _ _ cut

/-- The pieces of a line and the line at which a block comment opened that is
still open at its end.  The argument `openedAt` says the same of its start. -/
def scanLine (line : Nat) (openedAt : Option Nat) (text : List Char) :
    List Piece × Option Nat :=
  match openedAt with
  | some start =>
      match _closed : Text.cutAt? blockClosing text with
      | none => ([], some start)
      | some (_, rest) => scanLine line none rest
  | none =>
      match _first : firstComment text with
      | .lineEnd => ([⟨line, text⟩], none)
      | .lineComment code => ([⟨line, code⟩], none)
      | .blockComment code rest =>
          let (pieces, stillOpen) := scanLine line (some line) rest
          (⟨line, code⟩ :: pieces, stillOpen)
termination_by text.length
decreasing_by
  · exact Text.length_lt_of_cutAt? ‹_› (by decide)
  · exact length_lt_of_firstComment ‹_›

/-- The pieces of successive lines, of which the first has the given number. -/
def scanLines (line : Nat) (openedAt : Option Nat) :
    List (List Char) → List Piece × Option Nat
  | [] => ([], openedAt)
  | text :: texts =>
      let (pieces, stillOpen) := scanLine line openedAt text
      let (later, atEnd) := scanLines (line + 1) stillOpen texts
      (pieces ++ later, atEnd)

/-- The pieces of a text, and the line of a block comment that does not end. -/
def scan (text : List Char) : List Piece × Option Nat :=
  scanLines 1 none (Text.lines text)

end Fragment
end EarlyBoot
