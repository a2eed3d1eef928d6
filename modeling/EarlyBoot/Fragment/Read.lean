import EarlyBoot.Fragment.Error
import EarlyBoot.Fragment.Piece
import EarlyBoot.Fragment.Statement

/-!
# Reading a fragment

The pieces of a text are read in order.  A blank piece and a piece that begins
with `#` hold nothing; any other piece holds statements, each closed by a
semicolon.  The first fault ends the reading, and a block comment that does not
end is the last fault to be found.
-/

namespace EarlyBoot
namespace Fragment

variable {capacity : Nat}

/-- Whether nothing is read from some trimmed code: it is empty or a directive. -/
def isSkipped : List Char → Bool
  | [] => true
  | character :: _ => character == '#'

/-- Reads one statement, which is trimmed and may be empty. -/
def readStatement (line : Nat) (registry : AliasRegistry capacity)
    (statement : List Char) : Except FragmentError (AliasRegistry capacity) :=
  if statement = [] then
    .ok registry
  else
    match names? statement with
    | none => .error (.malformed line (String.ofList statement))
    | some (name, target) => (registry.declare name target).mapError (.refused line)

/-- Reads the statements of trimmed code, and refuses what stands after the last
semicolon. -/
def readStatements (line : Nat) (registry : AliasRegistry capacity)
    (code : List Char) : Except FragmentError (AliasRegistry capacity) := do
  let divided := Text.Terminated.split ';' code
  let result ← (divided.pieces.map Text.trim).foldlM (readStatement line) registry
  let rest := Text.trim divided.remainder
  if rest = [] then
    .ok result
  else
    .error (.missingSemicolon line (String.ofList rest))

/-- Reads one piece of code. -/
def readPiece (registry : AliasRegistry capacity) (piece : Piece) :
    Except FragmentError (AliasRegistry capacity) :=
  let code := Text.trim piece.code
  if isSkipped code then
    .ok registry
  else
    readStatements piece.line registry code

/-- Reads the declarations of a fragment into an empty registry. -/
def read (capacity : Nat) (text : String) :
    Except FragmentError (AliasRegistry capacity) := do
  let (pieces, openedAt) := scan text.toList
  let registry ← pieces.foldlM readPiece .empty
  match openedAt with
  | none => .ok registry
  | some line => .error (.unterminatedComment line)

end Fragment
end EarlyBoot
