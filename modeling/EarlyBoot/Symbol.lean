import EarlyBoot.Address
import EarlyBoot.SymbolName

/-!
# Symbols of an image

A symbol of a linked image has a name, an address relative to a section, and an
origin: a unit defined it, or an alias declaration filled it in.
-/

namespace EarlyBoot

/-- What a symbol is relative to. -/
inductive Section where
  | absolute
  | named (name : String)
  deriving DecidableEq, Repr

def Section.label : Section → String
  | .absolute => "*ABS*"
  | .named name => name

/-- How a symbol came to be defined. -/
inductive Origin where
  /-- A definition of the named unit. -/
  | explicit (unit : String)
  /-- An alias declaration that shares the target's address. -/
  | provided (target : SymbolName)
  deriving DecidableEq, Repr

def Origin.unit? : Origin → Option String
  | .explicit unit => some unit
  | .provided _ => none

structure Symbol where
  name : SymbolName
  address : Address
  place : Section
  origin : Origin
  deriving DecidableEq, Repr

def Symbol.isProvided (symbol : Symbol) : Bool :=
  match symbol.origin with
  | .explicit _ => false
  | .provided _ => true

end EarlyBoot
