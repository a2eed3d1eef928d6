import EarlyBoot.Alias.Registry
import EarlyBoot.Link.Error
import EarlyBoot.Link.Image
import EarlyBoot.Log

/-!
# Symbol resolution

A link first settles the definitions of all units: a strong definition wins over
weak ones, among weak ones the first wins, and two strong ones are an error.  It
then goes through the alias declarations in order and fills in the names that are
still missing.  Last, every reference has to name a symbol of the image.
-/

namespace EarlyBoot
namespace Link

/-- Lets one more contribution compete for its name.  A strong one takes the place
of a weak one; a weak one leaves the table as it is. -/
def settle (table : NameTable Contribution) (contribution : Contribution) :
    Logged LinkError (NameTable Contribution) :=
  let name := contribution.definition.name
  match table.find? name with
  | none => pure (table.insert contribution)
  | some inForce =>
      match contribution.definition.strength, inForce.definition.strength with
      | .weak, _ => do
          Logged.write .debug
            ("weak " ++ name.text ++ " of '" ++ contribution.unit ++
              "' ignored, already defined by '" ++ inForce.unit ++ "'")
          pure table
      | .strong, .weak => do
          Logged.write .debug
            (name.text ++ " of '" ++ contribution.unit ++
              "' overrides weak definition of '" ++ inForce.unit ++ "'")
          pure (table.insert contribution)
      | .strong, .strong =>
          Logged.fail (.multipleDefinition name inForce.unit contribution.unit)

/-- Settles the contributions of all units, in order. -/
def settleAll (units : List LinkUnit) : Logged LinkError (NameTable Contribution) :=
  (allContributions units).foldlM settle .empty

/-- The symbol that a declaration provides, given the symbol of its target. -/
def provide (declaration : AliasDecl) (target : Symbol) : Symbol where
  name := declaration.name
  address := target.address
  place := target.place
  origin := .provided declaration.target

/-- Applies one declaration: it gives way to a symbol of its name, and otherwise
takes address and section of its target, which has to be there. -/
def applyAlias (image : Image) (declaration : AliasDecl) : Logged LinkError Image :=
  match image.find? declaration.name with
  | some present => do
      Logged.write .notice
        (declaration.name.text ++ " defined by '" ++ present.origin.unit?.getD "?" ++
          "' at " ++ present.address.groupedText ++ ", alias to " ++
          declaration.target.text ++ " ignored")
      pure { image with overridden := image.overridden ++ [declaration.name] }
  | none =>
      match image.find? declaration.target with
      | none =>
          Logged.fail (.unresolvedTarget declaration.name declaration.target)
      | some target => do
          Logged.write .debug
            ("PROVIDE " ++ declaration.name.text ++ " = " ++ declaration.target.text ++
              " (" ++ target.address.groupedText ++ " in " ++ target.place.label ++ ")")
          pure { image with symbols := image.symbols.insert (provide declaration target) }

/-- The first reference of a unit that names no symbol of the image. -/
def undefinedIn? (unit : LinkUnit) (image : Image) : Option LinkError :=
  (unit.references.find? fun name => (image.find? name).isNone).map
    fun name => .undefinedReference name unit.name

/-- The first reference, unit after unit, that names no symbol of the image. -/
def firstUndefined? (units : List LinkUnit) (image : Image) : Option LinkError :=
  units.findSome? fun unit => undefinedIn? unit image

/-- The closing line of a link that went through. -/
def summary (unitCount explicitCount : Nat) (image : Image) : String :=
  "linked " ++ toString unitCount ++ " units: " ++ toString explicitCount ++
    " symbols, " ++ toString (image.size - explicitCount) ++ " provided, " ++
    toString image.overridden.length ++ " overridden"

/-- Resolves the symbols of all units together with the aliases of a registry. -/
def link {capacity : Nat} (units : List LinkUnit) (registry : AliasRegistry capacity) :
    Logged LinkError Image := do
  let table ← settleAll units
  let image ← registry.declarations.foldlM applyAlias (Image.ofContributions table)
  match firstUndefined? units image with
  | some cause => Logged.fail cause
  | none =>
      Logged.write .info (summary units.length table.size image)
      pure image

end Link
end EarlyBoot
