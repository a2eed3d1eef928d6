import EarlyBoot.Alias.Registry
import EarlyBoot.Text.Blank
import EarlyBoot.Text.Cut

/-!
# Statements of a fragment

A statement, without its semicolon, is `PROVIDE(alias = target)` or
`PROVIDE_HIDDEN(alias = target)`, with any blanks between its parts.
-/

namespace EarlyBoot
namespace Fragment

/-- What follows the keyword of a statement. -/
def afterKeyword? (statement : List Char) : Option (List Char) :=
  Text.after? "PROVIDE_HIDDEN".toList statement <|>
    Text.after? "PROVIDE".toList statement

/-- What stands between the parentheses of a statement. -/
def arguments? (statement : List Char) : Option (List Char) := do
  let rest ← afterKeyword? statement
  let inner ← Text.after? ['('] (Text.trimStart rest)
  Text.before? ')' (Text.trimEnd inner)

/-- The alias and the target of a statement, at the first equals sign. -/
def names? (statement : List Char) : Option (SymbolName × SymbolName) := do
  let (left, right) ← Text.cutAt? ['='] (← arguments? statement)
  pure (⟨String.ofList (Text.trim left)⟩, ⟨String.ofList (Text.trim right)⟩)

end Fragment
end EarlyBoot
