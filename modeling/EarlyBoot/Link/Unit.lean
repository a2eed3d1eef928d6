import EarlyBoot.Symbol

/-!
# Link units

A unit is one input of a link: what it defines, in order, and what it expects
some unit to define.
-/

namespace EarlyBoot

/-- Whether a definition gives way to others of the same name. -/
inductive Strength where
  | weak
  | strong
  deriving DecidableEq, Repr

structure Definition where
  name : SymbolName
  address : Address
  place : Section
  strength : Strength
  deriving DecidableEq, Repr

/-- One input of a link. -/
structure LinkUnit where
  name : String
  definitions : List Definition
  references : List SymbolName
  deriving DecidableEq, Repr

/-- A global symbol of a unit, defined or only referred to. -/
inductive UnitSymbol where
  | defined (definition : Definition)
  | referenced (name : SymbolName)
  deriving DecidableEq, Repr

namespace UnitSymbol

def definition? : UnitSymbol → Option Definition
  | .defined definition => some definition
  | .referenced _ => none

def reference? : UnitSymbol → Option SymbolName
  | .defined _ => none
  | .referenced name => some name

end UnitSymbol

/-- The unit with the given symbols.  Definitions and references keep their order
among themselves. -/
def LinkUnit.ofSymbols (name : String) (symbols : List UnitSymbol) : LinkUnit :=
  ⟨name, symbols.filterMap UnitSymbol.definition?,
    symbols.filterMap UnitSymbol.reference?⟩

end EarlyBoot
