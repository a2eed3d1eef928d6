import EarlyBoot.Alias.Error
import EarlyBoot.ImageVar

/-!
# Alias registries

A declaration says that an early name takes the address of a final name unless
some unit defines the early name.  A registry is a list of declarations in the
order in which they were made, with room for a fixed number of them.
-/

namespace EarlyBoot

/-- "The alias is the target, unless it is defined." -/
structure AliasDecl where
  name : SymbolName
  target : SymbolName
  deriving DecidableEq, Repr

/-- Declarations in the order in which they were made. -/
structure AliasRegistry (capacity : Nat) where
  declarations : List AliasDecl
  deriving DecidableEq, Repr

namespace AliasRegistry

variable {capacity : Nat}

/-- The capacity of a registry when no other is asked for. -/
def defaultCapacity : Nat := 32

def empty : AliasRegistry capacity :=
  ⟨[]⟩

def lookup? (registry : AliasRegistry capacity) (name : SymbolName) :
    Option AliasDecl :=
  registry.declarations.find? fun declaration => declaration.name = name

def target? (registry : AliasRegistry capacity) (name : SymbolName) :
    Option SymbolName :=
  (registry.lookup? name).map AliasDecl.target

def size (registry : AliasRegistry capacity) : Nat :=
  registry.declarations.length

def isEmpty (registry : AliasRegistry capacity) : Bool :=
  registry.declarations.isEmpty

/-- Adds a declaration at the end.  Both names must be valid, the alias must stand
for some final name, the target must be a final name, the alias must be new, and
there must be room; the first of these that fails is the cause of the refusal. -/
def declare (registry : AliasRegistry capacity) (name target : SymbolName) :
    Except AliasError (AliasRegistry capacity) :=
  if !name.isValid then
    .error (.invalidName name)
  else if !target.isValid then
    .error (.invalidName target)
  else if name.final?.isNone then
    .error (.notEarly name)
  else if target.isEarly then
    .error (.earlyTarget target)
  else if (registry.lookup? name).isSome then
    .error (.duplicate name)
  else if capacity ≤ registry.size then
    .error (.full capacity)
  else
    .ok ⟨registry.declarations ++ [⟨name, target⟩]⟩

/-- The registry that gives every image variable its early name. -/
def imageVars : AliasRegistry defaultCapacity :=
  ⟨ImageVar.all.map fun place => ⟨place.earlyName, place.finalName⟩⟩

end AliasRegistry
end EarlyBoot
