import EarlyBoot.Address
import EarlyBoot.ImageVar

/-!
# Layouts

A layout gives every image variable its address.  Segments and page tables are
ranges between two variables, and an image that was loaded elsewhere keeps the
distances.
-/

namespace EarlyBoot

/-- The addresses from a start up to, but without, a limit. -/
structure AddressRange where
  start : Address
  limit : Address
  deriving DecidableEq, Repr

def AddressRange.contains (range : AddressRange) (address : Address) : Bool :=
  range.start ≤ address && address < range.limit

/-- The address of every image variable. -/
structure Layout where
  address : ImageVar → Address

namespace Layout

def between (layout : Layout) (start limit : ImageVar) : AddressRange :=
  ⟨layout.address start, layout.address limit⟩

def kernelImage (layout : Layout) : AddressRange :=
  layout.between .text .imageEnd

/-- The code that stays. -/
def textSegment (layout : Layout) : AddressRange :=
  layout.between .stext .etext

/-- The constants. -/
def rodataSegment (layout : Layout) : AddressRange :=
  layout.between .startRodata .inittextBegin

/-- The text that is dropped once the kernel runs. -/
def inittext (layout : Layout) : AddressRange :=
  layout.between .inittextBegin .inittextEnd

/-- The data that is dropped once the kernel runs. -/
def initdata (layout : Layout) : AddressRange :=
  layout.between .initdataBegin .initdataEnd

/-- The data with initial values. -/
def dataSegment (layout : Layout) : AddressRange :=
  layout.between .data .bssStart

/-- The data that is zero at first. -/
def bss (layout : Layout) : AddressRange :=
  layout.between .bssStart .imageEnd

/-- The page tables of the identity mapping. -/
def initIdmapPages (layout : Layout) : AddressRange :=
  layout.between .initIdmapPgDir .initIdmapPgEnd

/-- The page tables of the first kernel mapping. -/
def initPages (layout : Layout) : AddressRange :=
  layout.between .initPgDir .initPgEnd

/-- The number of bytes of the image, unless its end lies below its start. -/
def imageSize? (layout : Layout) : Option Nat :=
  (layout.address .imageEnd).offsetFrom? (layout.address .text)

/-- Where an address lies when the image was loaded at `base`.  The end of the
image has such a place too; an address above it or below the start has none. -/
def loadAddress? (layout : Layout) (address base : Address) : Option Address :=
  if layout.address .imageEnd < address then
    none
  else
    (address.offsetFrom? (layout.address .text)).bind base.advance?

end Layout
end EarlyBoot
