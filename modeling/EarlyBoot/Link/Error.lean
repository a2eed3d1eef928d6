import EarlyBoot.SymbolName

/-!
# Why a link fails

Each cause carries the names and the units at fault, and `LinkError.message` puts
it into words.
-/

namespace EarlyBoot

/-- The causes for which a link has no image. -/
inductive LinkError where
  /-- A declaration of which neither the alias nor the target is defined. -/
  | unresolvedTarget (name target : SymbolName)
  /-- Two strong definitions of one name. -/
  | multipleDefinition (name : SymbolName) (first second : String)
  /-- A reference to a name that is not in the image. -/
  | undefinedReference (name : SymbolName) (unit : String)
  deriving DecidableEq, Repr

def LinkError.message : LinkError → String
  | .unresolvedTarget name target =>
      "undefined alias target '" ++ target.text ++ "' (needed by '" ++ name.text ++ "')"
  | .multipleDefinition name first second =>
      "multiple definition of '" ++ name.text ++ "': first in '" ++ first ++
        "', again in '" ++ second ++ "'"
  | .undefinedReference name unit =>
      "undefined reference to '" ++ name.text ++ "' in '" ++ unit ++ "'"

end EarlyBoot
