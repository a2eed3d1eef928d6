import EarlyBoot.Link.Contribution

/-!
# Linked images

An image is the table of symbols that a link leaves behind and the list of the
aliases that it did not apply because some unit defines their names.
-/

namespace EarlyBoot

/-- The symbols of a finished link. -/
structure Image where
  symbols : NameTable Symbol
  /-- The aliases that gave way to a definition, in declaration order. -/
  overridden : List SymbolName

namespace Image

/-- The image of the definitions in force, before any alias. -/
def ofContributions (table : NameTable Contribution) : Image where
  symbols := table.map Contribution.toSymbol Contribution.name_toSymbol
  overridden := []

def toList (image : Image) : List Symbol :=
  image.symbols.toList

def size (image : Image) : Nat :=
  image.symbols.size

def isEmpty (image : Image) : Bool :=
  image.size == 0

def find? (image : Image) (name : SymbolName) : Option Symbol :=
  image.symbols.find? name

def address? (image : Image) (name : SymbolName) : Option Address :=
  (image.find? name).map Symbol.address

/-- The symbols that alias declarations filled in. -/
def provided (image : Image) : List Symbol :=
  image.toList.filter Symbol.isProvided

/-- Two images are the same when they list the same symbols in the same order and
the same overridden aliases. -/
def isSame (first second : Image) : Bool :=
  first.toList = second.toList && first.overridden = second.overridden

end Image
end EarlyBoot
