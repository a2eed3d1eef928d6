import EarlyBoot.Proofs.Layout.Segments

/-!
# Load addresses

An image that was loaded at some base keeps the distances between its addresses.  The
load address of an address lies as far above the base as the address lies above the
start of the image, and no sum wraps around.  The translation accepts one address more
than the image has: the limit of the image, although it is the first one behind it.
-/

namespace EarlyBoot
namespace Layout

variable {layout : Layout} {address base loaded : Address}

/-- An address has a load address exactly when it is part of the image and the sum is an
address.  The load address then lies as far above the base as the address lies above the
start of the image. -/
def TranslatesImage (layout : Layout) (address base : Address) : Prop :=
  ∀ loaded, layout.loadAddress? address base = some loaded ↔
    layout.kernelImage.contains address = true ∧
      loaded.toNat = base.toNat + (address.toNat - (layout.address .text).toNat)

/-- The limit of the image has a load address: it does not lie below the start, and the
image fits above the base. -/
def TranslatesLimit (layout : Layout) (base : Address) : Prop :=
  layout.address .text ≤ layout.address .imageEnd ∧
    base.toNat + ((layout.address .imageEnd).toNat - (layout.address .text).toNat) <
      Address.spaceSize

section Translation

theorem loadAddress?_eq_some_iff :
    layout.loadAddress? address base = some loaded ↔
      layout.address .text ≤ address ∧ address ≤ layout.address .imageEnd ∧
        loaded.toNat = base.toNat + (address.toNat - (layout.address .text).toNat) := by
  have byDistance : layout.loadAddress? address base = some loaded ↔
      address ≤ layout.address .imageEnd ∧ ∃ distance,
        (layout.address .text).toNat + distance = address.toNat ∧
          loaded.toNat = base.toNat + distance := by
    unfold loadAddress?
    split
    · next above =>
        have notIn : ¬ address ≤ layout.address .imageEnd := Nat.not_le.mpr above
        simp [notIn]
    · next notAbove =>
        have upTo : address ≤ layout.address .imageEnd := Nat.not_lt.mp notAbove
        simp only [Option.bind_eq_some_iff, Address.offsetFrom?_eq_some_iff,
          Address.advance?_eq_some_iff, upTo, true_and]
  rw [byDistance]
  constructor
  · rintro ⟨upTo, distance, reaches, lies⟩
    refine ⟨Nat.le.intro reaches, upTo, ?_⟩
    omega
  · rintro ⟨fromStart, upTo, lies⟩
    exact ⟨upTo, _, Nat.add_sub_cancel' fromStart, lies⟩

/-- An address from the start of the image up to its limit has a load address unless the
sum lies behind the last address. -/
theorem exists_loadAddress?_iff :
    (∃ loaded, layout.loadAddress? address base = some loaded) ↔
      layout.address .text ≤ address ∧ address ≤ layout.address .imageEnd ∧
        base.toNat + (address.toNat - (layout.address .text).toNat) < Address.spaceSize := by
  simp only [loadAddress?_eq_some_iff, exists_and_left, Address.exists_toNat_eq_iff]

/-- An address of the image lies between its ends and is not the upper one. -/
theorem kernelImage_contains_iff :
    layout.kernelImage.contains address = true ↔
      layout.address .text ≤ address ∧ address ≤ layout.address .imageEnd ∧
        address ≠ layout.address .imageEnd := by
  rw [AddressRange.contains_iff, Address.lt_iff_toNat_lt, Nat.lt_iff_le_and_ne, ne_eq,
    Address.toNat_inj]
  exact Iff.rfl

end Translation

/-- Exactly the addresses from the start of the image up to its limit have a load address,
as far above the base as they lie above the start, as long as that is an address.  So
every address but the limit is translated exactly if it is part of the image, and the
limit is so only where it has no load address. -/
theorem loadAddress?_of_layout (layout : Layout) (address base : Address) :
    (∀ loaded, layout.loadAddress? address base = some loaded ↔
      layout.address .text ≤ address ∧ address ≤ layout.address .imageEnd ∧
        loaded.toNat = base.toNat + (address.toNat - (layout.address .text).toNat)) ∧
    (layout.TranslatesImage address base ↔
      ¬ (address = layout.address .imageEnd ∧ layout.TranslatesLimit base)) := by
  refine ⟨fun loaded => loadAddress?_eq_some_iff, ?_⟩
  constructor
  · rintro onlyImage ⟨rfl, notBelow, fits⟩
    obtain ⟨loaded, found⟩ := exists_loadAddress?_iff.mpr ⟨notBelow, Nat.le_refl _, fits⟩
    obtain ⟨member, -⟩ := (onlyImage loaded).mp found
    exact (kernelImage_contains_iff.mp member).2.2 rfl
  · intro notLimit loaded
    rw [loadAddress?_eq_some_iff, kernelImage_contains_iff]
    constructor
    · rintro ⟨fromStart, upTo, lies⟩
      refine ⟨⟨fromStart, upTo, ?_⟩, lies⟩
      rintro rfl
      exact notLimit ⟨rfl, fromStart, lies ▸ loaded.toNat_lt_spaceSize⟩
    · rintro ⟨⟨fromStart, upTo, -⟩, lies⟩
      exact ⟨fromStart, upTo, lies⟩

/-- The first address behind an image that passes its check has a load address, although
it is not part of the image. -/
theorem not_translatesImage_imageEnd :
    let layout : Layout := ⟨fun place => if place = .imageEnd then ⟨0x9000⟩ else ⟨0x8000⟩⟩
    layout.check = .ok () ∧ layout.kernelImage.contains ⟨0x9000⟩ = false ∧
      layout.loadAddress? ⟨0x9000⟩ ⟨0x40200000⟩ = some ⟨0x40201000⟩ ∧
      ¬ layout.TranslatesImage ⟨0x9000⟩ ⟨0x40200000⟩ := by
  intro layout
  have found : layout.loadAddress? ⟨0x9000⟩ ⟨0x40200000⟩ = some ⟨0x40201000⟩ := by decide
  have notMember : layout.kernelImage.contains ⟨0x9000⟩ = false := by decide
  refine ⟨check_eq_ok_iff_holds.mpr (by decide), notMember, found, ?_⟩
  intro onlyImage
  obtain ⟨member, -⟩ := (onlyImage _).mp found
  rw [notMember] at member
  contradiction

section Distances

variable {lower upper : Address}

/-- Loading moves the image as a whole.  Where an address has a load address, so has every
lower one of the image, at the same distance from it and as far above the base as it lies
above the start of the image.  At another base the load address lies as far away as that
base does. -/
theorem loadAddress?_of_le (ordered : lower ≤ upper) (fromStart : layout.address .text ≤ lower)
    (found : layout.loadAddress? upper base = some loaded) :
    (∃ first, layout.loadAddress? lower base = some first ∧ first ≤ loaded ∧
      (loaded.toNat : Int) - first.toNat = upper.toNat - lower.toNat ∧
      (first.toNat : Int) - base.toNat = lower.toNat - (layout.address .text).toNat ∧
      ∀ alignment : Int, alignment ∣ first.toNat - base.toNat ↔
        alignment ∣ lower.toNat - (layout.address .text).toNat) ∧
    ∀ otherBase otherLoaded, layout.loadAddress? upper otherBase = some otherLoaded →
      (otherLoaded.toNat : Int) - loaded.toNat = otherBase.toNat - base.toNat := by
  obtain ⟨-, upTo, lies⟩ := loadAddress?_eq_some_iff.mp found
  have bound := loaded.toNat_lt_spaceSize
  have lowerUpTo : lower ≤ layout.address .imageEnd := Nat.le_trans ordered upTo
  rw [Address.le_iff_toNat_le] at ordered fromStart
  -- The sum for the upper address is an address, so that the lower sum does not wrap.
  have fits : base.toNat + (lower.toNat - (layout.address .text).toNat) < Address.spaceSize := by
    omega
  constructor
  · obtain ⟨first, foundFirst⟩ := exists_loadAddress?_iff.mpr ⟨fromStart, lowerUpTo, fits⟩
    obtain ⟨-, -, firstLies⟩ := loadAddress?_eq_some_iff.mp foundFirst
    have aboveBase : (first.toNat : Int) - base.toNat =
        lower.toNat - (layout.address .text).toNat := by
      omega
    refine ⟨first, foundFirst, ?_, ?_, aboveBase, fun alignment => by rw [aboveBase]⟩
    · rw [Address.le_iff_toNat_le]
      omega
    · omega
  · intro otherBase otherLoaded otherFound
    obtain ⟨-, -, otherLies⟩ := loadAddress?_eq_some_iff.mp otherFound
    omega

/-- An address keeps its distance from one that is loaded at the last address of all. -/
theorem loadAddress?_of_le_last_address :
    let layout : Layout := ⟨fun place =>
      if place = .text then ⟨0xFFFFFFFFFFFF0000⟩ else ⟨0xFFFFFFFFFFFFF000⟩⟩
    layout.loadAddress? ⟨0xFFFFFFFFFFFFC000⟩ ⟨0xFFFFFFFFFFFF3FFF⟩ =
        some ⟨0xFFFFFFFFFFFFFFFF⟩ ∧
      layout.loadAddress? ⟨0xFFFFFFFFFFFF8000⟩ ⟨0xFFFFFFFFFFFF3FFF⟩ =
        some ⟨0xFFFFFFFFFFFFBFFF⟩ := by
  intro layout
  have found : layout.loadAddress? ⟨0xFFFFFFFFFFFFC000⟩ ⟨0xFFFFFFFFFFFF3FFF⟩ =
      some ⟨0xFFFFFFFFFFFFFFFF⟩ := by
    decide
  have ordered : (⟨0xFFFFFFFFFFFF8000⟩ : Address) ≤ ⟨0xFFFFFFFFFFFFC000⟩ := by decide
  obtain ⟨⟨first, foundFirst, -, apart, -⟩, -⟩ := loadAddress?_of_le ordered (by decide) found
  have isFirst : first = ⟨0xFFFFFFFFFFFFBFFF⟩ := by
    rw [← Address.toNat_inj]
    simp only [Address.toNat, UInt64.reduceToNat] at apart ⊢
    omega
  exact ⟨found, isFirst ▸ foundFirst⟩

end Distances

end Layout
end EarlyBoot
