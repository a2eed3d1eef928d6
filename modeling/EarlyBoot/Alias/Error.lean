import EarlyBoot.SymbolName

/-!
# Why an alias declaration is refused

Each cause carries the name at fault, and `AliasError.message` puts it into words.
-/

namespace EarlyBoot

/-- The causes for which a registry refuses a declaration. -/
inductive AliasError where
  /-- A name that no linker script takes without quotes. -/
  | invalidName (name : SymbolName)
  /-- An alias that stands for no final name. -/
  | notEarly (name : SymbolName)
  /-- A target that is no final name. -/
  | earlyTarget (name : SymbolName)
  | duplicate (name : SymbolName)
  /-- A registry without room for another declaration. -/
  | full (capacity : Nat)
  deriving DecidableEq, Repr

def AliasError.message : AliasError → String
  | .invalidName name => "invalid symbol name '" ++ name.text ++ "'"
  | .notEarly name =>
      "alias '" ++ name.text ++ "' is outside the '" ++ SymbolName.earlyMark ++
        "' namespace"
  | .earlyTarget name =>
      "alias target '" ++ name.text ++ "' belongs to the '" ++
        SymbolName.earlyMark ++ "' namespace"
  | .duplicate name => "alias '" ++ name.text ++ "' is declared more than once"
  | .full capacity =>
      "alias registry is full (" ++ toString capacity ++ " declarations)"

end EarlyBoot
