import EarlyBoot.Elf.SymbolTable
import EarlyBoot.Log

/-!
# Object files as link units

Reading a file either gives a unit and logs how much it holds, or fails with the
first cause and logs nothing.
-/

namespace EarlyBoot
namespace Elf

/-- The line that the log gets for a unit that was read. -/
def summary (unit : LinkUnit) : String :=
  unit.name ++ ": " ++ toString unit.definitions.length ++ " definitions, " ++
    toString unit.references.length ++ " references"

/-- Reads a file as a unit of the given name. -/
def readUnit (name : String) (data : ByteArray) : Logged Error LinkUnit := do
  let table ← Logged.ofExcept (SymbolTable.ofData data)
  let symbols ← Logged.ofExcept table.allSymbols
  let unit := LinkUnit.ofSymbols name symbols
  Logged.write .debug (summary unit)
  pure unit

end Elf
end EarlyBoot
