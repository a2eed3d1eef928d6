import EarlyBoot.Layout
import EarlyBoot.Layout.Error

/-!
# Checking a layout

Early code can map a layout whose section boundaries increase and whose page
tables begin with a page and lie in the image.  The checks run in a fixed order,
and the first that fails is the error.
-/

namespace EarlyBoot
namespace Layout

/-- The section boundaries, the lowest first. -/
def boundaries : List ImageVar :=
  [.text, .stext, .etext, .startRodata, .inittextBegin, .inittextEnd,
    .initdataBegin, .initdataEnd, .data, .bssStart, .imageEnd]

/-- A page table: its root and the end of its pages. -/
structure PageTable where
  root : ImageVar
  limit : ImageVar
  deriving DecidableEq, Repr

/-- The page tables in the order of their checks.  Of the last one only the root
is known. -/
def pageTables : List PageTable :=
  [⟨.initIdmapPgDir, .initIdmapPgEnd⟩, ⟨.initPgDir, .initPgEnd⟩,
    ⟨.swapperPgDir, .swapperPgDir⟩]

def checkOrder (layout : Layout) (lower upper : ImageVar) : Except LayoutError Unit :=
  if layout.address lower ≤ layout.address upper then
    .ok ()
  else
    .error (.misordered lower (layout.address lower) upper (layout.address upper))

/-- Compares the neighbours in a list of variables. -/
def checkBoundaries (layout : Layout) : List ImageVar → Except LayoutError Unit
  | lower :: upper :: others => do
      layout.checkOrder lower upper
      layout.checkBoundaries (upper :: others)
  | [_] | [] => .ok ()

/-- Checks the alignment, the order and the place of a page table. -/
def checkPageTable (layout : Layout) (table : PageTable) : Except LayoutError Unit := do
  let pages := layout.between table.root table.limit
  let image := layout.kernelImage
  if pages.start.isPageAligned then
    layout.checkOrder table.root table.limit
    if image.start ≤ pages.start ∧ pages.limit ≤ image.limit then
      .ok ()
    else
      .error (.outsideImage table.root)
  else
    .error (.misaligned table.root pages.start)

def check (layout : Layout) : Except LayoutError Unit := do
  layout.checkBoundaries boundaries
  pageTables.forM layout.checkPageTable

end Layout
end EarlyBoot
