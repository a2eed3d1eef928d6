import EarlyBoot.Alias.Error

/-!
# Why a fragment cannot be read

Each cause carries the line at fault, and `FragmentError.message` puts it into
words.
-/

namespace EarlyBoot

/-- The causes for which a text is no fragment.  Lines count from one. -/
inductive FragmentError where
  /-- A statement of some other form. -/
  | malformed (line : Nat) (found : String)
  /-- A statement that does not end on its line. -/
  | missingSemicolon (line : Nat) (found : String)
  | refused (line : Nat) (cause : AliasError)
  | unterminatedComment (line : Nat)
  deriving DecidableEq, Repr

def FragmentError.message : FragmentError → String
  | .malformed line found =>
      "line " ++ toString line ++ ": expected 'PROVIDE(alias = target);', found '" ++
        found ++ "'"
  | .missingSemicolon line found =>
      "line " ++ toString line ++ ": missing ';' after '" ++ found ++ "'"
  | .refused line cause => "line " ++ toString line ++ ": " ++ cause.message
  | .unterminatedComment line =>
      "unterminated comment starting at line " ++ toString line

end EarlyBoot
