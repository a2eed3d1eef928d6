import EarlyBoot.Hex

/-!
# Addresses

An address is a 64-bit word.  Addresses are compared as numbers, distances
between them are natural numbers, and arithmetic that leaves the address space
has no result.
-/

namespace EarlyBoot

/-- A place in the 64-bit address space. -/
structure Address where
  value : UInt64
  deriving DecidableEq, Hashable, Repr

namespace Address

/-- The number of addresses. -/
def spaceSize : Nat := UInt64.size

def toNat (address : Address) : Nat :=
  address.value.toNat

/-- The address that a number stands for, if it is one. -/
def ofNat? (number : Nat) : Option Address :=
  if number < spaceSize then some ⟨UInt64.ofNat number⟩ else none

instance : LE Address :=
  ⟨fun first second => first.toNat ≤ second.toNat⟩

instance : LT Address :=
  ⟨fun first second => first.toNat < second.toNat⟩

instance (first second : Address) : Decidable (first ≤ second) :=
  inferInstanceAs (Decidable (first.toNat ≤ second.toNat))

instance (first second : Address) : Decidable (first < second) :=
  inferInstanceAs (Decidable (first.toNat < second.toNat))

instance : Ord Address :=
  ⟨fun first second => compare first.toNat second.toNat⟩

def pageSize : Nat := 4096

def isPageAligned (address : Address) : Bool :=
  address.toNat % pageSize == 0

/-- How far the address lies above a base, unless it lies below it. -/
def offsetFrom? (address base : Address) : Option Nat :=
  if base ≤ address then some (address.toNat - base.toNat) else none

/-- The address that lies a distance above this one, if there is one. -/
def advance? (address : Address) (distance : Nat) : Option Address :=
  ofNat? (address.toNat + distance)

def text (address : Address) : String :=
  Hex.literal address.toNat

def ofText? (text : String) : Option Address :=
  (Hex.ofLiteral? text).bind ofNat?

/-- The sixteen digits of the address, with an apostrophe between the halves. -/
def groupedIn (form : Hex.Form) (address : Address) : String :=
  Hex.grouped form address.value

def grouped (address : Address) : String :=
  address.groupedIn .plain

def groupedText (address : Address) : String :=
  address.groupedIn .marked

theorem le_iff_toNat_le {first second : Address} :
    first ≤ second ↔ first.toNat ≤ second.toNat :=
  Iff.rfl

theorem lt_iff_toNat_lt {first second : Address} :
    first < second ↔ first.toNat < second.toNat :=
  Iff.rfl

theorem toNat_lt_spaceSize (address : Address) : address.toNat < spaceSize :=
  address.value.toNat_lt

theorem toNat_inj {first second : Address} :
    first.toNat = second.toNat ↔ first = second := by
  cases first
  cases second
  simp [toNat, UInt64.toNat_inj]

/-- Every number below the size of the space is an address. -/
theorem exists_toNat_eq_iff {number : Nat} :
    (∃ address : Address, address.toNat = number) ↔ number < spaceSize := by
  constructor
  · rintro ⟨address, rfl⟩
    exact address.toNat_lt_spaceSize
  · intro fits
    exact ⟨⟨UInt64.ofNat number⟩, UInt64.toNat_ofNat_of_lt' fits⟩

theorem ofNat?_eq_some_iff {number : Nat} {address : Address} :
    ofNat? number = some address ↔ address.toNat = number := by
  unfold ofNat?
  constructor
  · intro found
    split at found
    · next fits =>
        obtain rfl := Option.some.inj found
        exact UInt64.toNat_ofNat_of_lt' fits
    · contradiction
  · rintro rfl
    rw [if_pos address.toNat_lt_spaceSize]
    simp [toNat]

theorem offsetFrom?_eq_some_iff {address base : Address} {distance : Nat} :
    address.offsetFrom? base = some distance ↔ base.toNat + distance = address.toNat := by
  unfold offsetFrom?
  split
  · next above =>
      rw [le_iff_toNat_le] at above
      rw [Option.some.injEq]
      omega
  · next below =>
      rw [le_iff_toNat_le] at below
      constructor
      · intro impossible
        contradiction
      · intro reaches
        omega

theorem advance?_eq_some_iff {address next : Address} {distance : Nat} :
    address.advance? distance = some next ↔ next.toNat = address.toNat + distance :=
  ofNat?_eq_some_iff

/-- The text of an address reads back as the address. -/
theorem ofText?_text (address : Address) : ofText? address.text = some address := by
  simp [ofText?, text, Hex.ofLiteral?_literal, ofNat?_eq_some_iff]

end Address
end EarlyBoot
