import EarlyBoot.Layout
import EarlyBoot.Layout.Error
import EarlyBoot.Link.Image

/-!
# The layout of an image

Early code resolves the early names of the image variables.  An image has a
layout when all sixteen of them are among its symbols, whether a unit defines
them or an alias declaration filled them in.
-/

namespace EarlyBoot
namespace Layout

/-- The first image variable whose early name is missing. -/
def firstMissing? (image : Image) : Option ImageVar :=
  ImageVar.all.find? fun place => (image.address? place.earlyName).isNone

theorem isSome_address?_of_firstMissing? {image : Image}
    (complete : firstMissing? image = none) (place : ImageVar) :
    (image.address? place.earlyName).isSome := by
  have present := List.find?_eq_none.mp complete place place.mem_all
  simpa [Option.isNone_iff_eq_none, ← Option.isSome_iff_ne_none] using present

/-- The layout that early code sees. -/
def ofImage (image : Image) : Except LayoutError Layout :=
  match complete : firstMissing? image with
  | some place => .error (.missing place)
  | none =>
      .ok ⟨fun place => (image.address? place.earlyName).get
        (isSome_address?_of_firstMissing? complete place)⟩

end Layout
end EarlyBoot
