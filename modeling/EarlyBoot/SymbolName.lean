import EarlyBoot.Text.Cut

/-!
# Symbol names

Code that runs before the image is mapped lives in a name space of its own: its
names begin with `__pi_`.  A name made of that mark and a further name, which is
not empty, stands for the further name in the final image.
-/

namespace EarlyBoot

structure SymbolName where
  text : String
  deriving DecidableEq, Hashable, Repr

namespace SymbolName

/-- The mark that the names of the early name space begin with. -/
def earlyMark : String := "__pi_"

def isEarly (name : SymbolName) : Bool :=
  (Text.after? earlyMark.toList name.text.toList).isSome

/-- The name that an early name stands for in the final image.  The bare mark
stands for nothing. -/
def final? (name : SymbolName) : Option SymbolName :=
  match Text.after? earlyMark.toList name.text.toList with
  | some (character :: rest) => some ⟨String.ofList (character :: rest)⟩
  | some [] | none => none

def early (name : SymbolName) : SymbolName :=
  ⟨earlyMark ++ name.text⟩

/-- The ASCII letters and the three marks that a name may begin with. -/
def canStart (character : Char) : Bool :=
  character.isAlpha || character == '_' || character == '.' || character == '$'

/-- What may follow the first character of a name: digits as well. -/
def canContinue (character : Char) : Bool :=
  canStart character || character.isDigit

/-- Whether a linker script takes the name without quotes. -/
def isValid (name : SymbolName) : Bool :=
  match name.text.toList with
  | [] => false
  | character :: rest => canStart character && rest.all canContinue

def quoted (name : SymbolName) : String :=
  "`" ++ name.text ++ "`"

def bytes (name : SymbolName) : List UInt8 :=
  name.text.toUTF8.data.toList

/-- Names are ordered by their bytes. -/
instance : Ord SymbolName :=
  ⟨compareOn bytes⟩

end SymbolName
end EarlyBoot
