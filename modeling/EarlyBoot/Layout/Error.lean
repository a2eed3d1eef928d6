import EarlyBoot.Address
import EarlyBoot.ImageVar

/-!
# Why a layout is refused

Each cause carries the image variables at fault, and `LayoutError.message` puts it
into words by their names in the final image.
-/

namespace EarlyBoot

/-- The causes for which an image has no usable layout. -/
inductive LayoutError where
  /-- A variable without an early name in the image. -/
  | missing (place : ImageVar)
  /-- Two variables in the wrong order, with their addresses. -/
  | misordered (lower : ImageVar) (lowerAddress : Address)
      (upper : ImageVar) (upperAddress : Address)
  /-- A page table that does not begin with a page. -/
  | misaligned (root : ImageVar) (address : Address)
  /-- A page table that is not inside the image. -/
  | outsideImage (root : ImageVar)
  deriving DecidableEq, Repr

def LayoutError.message : LayoutError → String
  | .missing place =>
      "image variable '" ++ place.earlyName.text ++ "' is not defined"
  | .misordered lower lowerAddress upper upperAddress =>
      "'" ++ lower.finalName.text ++ "' (" ++ lowerAddress.text ++ ") lies above '" ++
        upper.finalName.text ++ "' (" ++ upperAddress.text ++ ")"
  | .misaligned root address =>
      "page table '" ++ root.finalName.text ++ "' at " ++ address.text ++
        " is not page-aligned"
  | .outsideImage root =>
      "page table '" ++ root.finalName.text ++ "' lies outside of the kernel image"

end EarlyBoot
