import EarlyBoot.Link.NameTable
import EarlyBoot.Link.Unit

/-!
# Contributions

A contribution is a definition together with the unit that makes it.  The
contributions of a list of units, in scan order, compete for the names.
-/

namespace EarlyBoot

/-- A definition and the unit that makes it. -/
structure Contribution where
  unit : String
  definition : Definition
  deriving DecidableEq, Repr

instance : Named Symbol :=
  ⟨Symbol.name⟩

namespace Contribution

instance : Named Contribution :=
  ⟨fun contribution => contribution.definition.name⟩

/-- The symbol that an image gets from a contribution in force. -/
def toSymbol (contribution : Contribution) : Symbol where
  name := contribution.definition.name
  address := contribution.definition.address
  place := contribution.definition.place
  origin := .explicit contribution.unit

theorem name_toSymbol (contribution : Contribution) :
    Named.name contribution.toSymbol = Named.name contribution :=
  rfl

end Contribution

def LinkUnit.contributions (unit : LinkUnit) : List Contribution :=
  unit.definitions.map fun definition => ⟨unit.name, definition⟩

def allContributions (units : List LinkUnit) : List Contribution :=
  units.flatMap LinkUnit.contributions

end EarlyBoot
