import EarlyBoot.Alias.Registry

/-!
# Writing a registry as a linker-script fragment

The fragment is included by the linker script of the final image.  It has one
`PROVIDE` statement for each declaration, with the equals signs in one column,
between a guard against double inclusion.
-/

namespace EarlyBoot
namespace Fragment

/-- The guard of a fragment when no other is asked for. -/
def defaultGuard : String := "__NUCLOID_IMAGE_VARS_H"

/-- The bytes that the longest alias takes. -/
def aliasWidth (declarations : List AliasDecl) : Nat :=
  (declarations.map fun declaration => declaration.name.text.utf8ByteSize).foldl max 0

/-- A text and as many spaces as it lacks characters. -/
def padded (width : Nat) (text : String) : String :=
  text ++ String.ofList (List.replicate (width - text.length) ' ')

def statement (width : Nat) (declaration : AliasDecl) : String :=
  "PROVIDE(" ++ padded width declaration.name.text ++ " = " ++
    declaration.target.text ++ ");"

def header (guard : String) : List String :=
  ["/* SPDX-License-Identifier: GPL-2.0-or-later */",
    "/*",
    " * Linker script variables to be set after section resolution.",
    " * Generated from the early-boot alias registry, do not edit.",
    " */",
    "#ifndef " ++ guard,
    "#define " ++ guard,
    "",
    "#ifndef LINKER_SCRIPT",
    "#error This file should only be included in the kernel linker script",
    "#endif",
    ""]

def footer (guard : String) : List String :=
  ["", "#endif /* " ++ guard ++ " */"]

def statements (declarations : List AliasDecl) : List String :=
  declarations.map (statement (aliasWidth declarations))

/-- The fragment as text.  Every line ends with a line feed. -/
def render {capacity : Nat} (guard : String) (registry : AliasRegistry capacity) :
    String :=
  String.join
    ((header guard ++ statements registry.declarations ++ footer guard).map
      fun line => line ++ "\n")

end Fragment
end EarlyBoot
