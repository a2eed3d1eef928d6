import EarlyBoot.Proofs.Layout.Segments
import Mathlib.Data.List.Forall2
import Mathlib.Tactic.Choose

/-!
# Shifted layouts

An image may be linked at other addresses.  A layout whose addresses all lie at one
distance from those of another layout keeps the order of its places, and if the distance
is a number of whole pages, their alignment.  The checks only ask for these, so that a
shifted layout passes or is refused as before, and all that is measured between two of
its addresses stays the same.
-/

namespace EarlyBoot

/-- An address lies at a distance, above or below, from another one. -/
def Address.ShiftedBy (distance : Int) (address shifted : Address) : Prop :=
  (shifted.toNat : Int) = address.toNat + distance

instance (distance : Int) (address shifted : Address) :
    Decidable (address.ShiftedBy distance shifted) :=
  inferInstanceAs (Decidable ((shifted.toNat : Int) = address.toNat + distance))

/-- Both ends of a range lie at a distance from those of another one. -/
structure AddressRange.ShiftedBy (distance : Int) (range shifted : AddressRange) : Prop where
  start : range.start.ShiftedBy distance shifted.start
  limit : range.limit.ShiftedBy distance shifted.limit

/-- A layout gives every place an address at a distance from that of another layout. -/
def Layout.ShiftedBy (distance : Int) (layout shifted : Layout) : Prop :=
  ∀ place, (layout.address place).ShiftedBy distance (shifted.address place)

/-- Two refusals of one kind name the same places, and the addresses that they carry lie
at a distance from each other. -/
inductive LayoutError.ShiftedBy (distance : Int) : LayoutError → LayoutError → Prop where
  | missing (place : ImageVar) : ShiftedBy distance (.missing place) (.missing place)
  | misordered (lower upper : ImageVar)
      {lowerAddress upperAddress lowerShifted upperShifted : Address}
      (lowerMoves : lowerAddress.ShiftedBy distance lowerShifted)
      (upperMoves : upperAddress.ShiftedBy distance upperShifted) :
      ShiftedBy distance (.misordered lower lowerAddress upper upperAddress)
        (.misordered lower lowerShifted upper upperShifted)
  | misaligned (root : ImageVar) {address shifted : Address}
      (moves : address.ShiftedBy distance shifted) :
      ShiftedBy distance (.misaligned root address) (.misaligned root shifted)
  | outsideImage (root : ImageVar) :
      ShiftedBy distance (.outsideImage root) (.outsideImage root)

namespace Address

variable {distance : Int} {address shifted base shiftedBase : Address}

theorem exists_shiftedBy_iff :
    (∃ shifted, address.ShiftedBy distance shifted) ↔
      0 ≤ (address.toNat : Int) + distance ∧ (address.toNat : Int) + distance < spaceSize := by
  constructor
  · rintro ⟨shifted, moves⟩
    have bound := shifted.toNat_lt_spaceSize
    rw [ShiftedBy] at moves
    omega
  · rintro ⟨notBelow, fits⟩
    obtain ⟨number, isNumber⟩ := Int.eq_ofNat_of_zero_le notBelow
    obtain ⟨shifted, isShifted⟩ := exists_toNat_eq_iff.mpr (show number < spaceSize by omega)
    refine ⟨shifted, ?_⟩
    rw [ShiftedBy]
    omega

namespace ShiftedBy

variable (moves : address.ShiftedBy distance shifted)
  (baseMoves : base.ShiftedBy distance shiftedBase)

include moves

/-- A number of whole pages moves an address from the start of a page to the start of
another one. -/
theorem dvd_iff (wholePages : 4096 ∣ distance) : 4096 ∣ shifted.toNat ↔ 4096 ∣ address.toNat := by
  rw [ShiftedBy] at moves
  omega

include baseMoves

theorem le_iff : shifted ≤ shiftedBase ↔ address ≤ base := by
  rw [ShiftedBy] at moves baseMoves
  rw [le_iff_toNat_le, le_iff_toNat_le]
  omega

theorem lt_iff : shifted < shiftedBase ↔ address < base := by
  rw [ShiftedBy] at moves baseMoves
  rw [lt_iff_toNat_lt, lt_iff_toNat_lt]
  omega

/-- Two addresses that are shifted together keep the distance between them. -/
theorem offsetFrom?_eq : shifted.offsetFrom? shiftedBase = address.offsetFrom? base := by
  rw [ShiftedBy] at moves baseMoves
  apply Option.ext
  intro offset
  rw [offsetFrom?_eq_some_iff, offsetFrom?_eq_some_iff]
  omega

end ShiftedBy
end Address

namespace Layout

variable {distance : Int} {layout shifted : Layout}

/-- A layout can be shifted when none of its addresses leaves the address space. -/
theorem exists_shiftedBy_iff :
    (∃ shifted, layout.ShiftedBy distance shifted) ↔
      ∀ place, 0 ≤ ((layout.address place).toNat : Int) + distance ∧
        ((layout.address place).toNat : Int) + distance < Address.spaceSize := by
  simp only [← Address.exists_shiftedBy_iff]
  constructor
  · rintro ⟨shifted, moves⟩ place
    exact ⟨shifted.address place, moves place⟩
  · intro eachMoves
    choose address moves using eachMoves
    exact ⟨⟨address⟩, moves⟩

namespace ShiftedBy

variable (moves : layout.ShiftedBy distance shifted)

include moves

theorem between (start limit : ImageVar) :
    (layout.between start limit).ShiftedBy distance (shifted.between start limit) :=
  ⟨moves start, moves limit⟩

theorem ranges :
    List.Forall₂ (AddressRange.ShiftedBy distance) (layout.kernelImage :: layout.mappedRanges)
      (shifted.kernelImage :: shifted.mappedRanges) := by
  simp only [mappedRanges, segments, List.cons_append, List.nil_append, List.forall₂_cons,
    List.forall₂_nil_left_iff, and_true]
  exact ⟨moves.between _ _, moves.between _ _, moves.between _ _, moves.between _ _,
    moves.between _ _, moves.between _ _, moves.between _ _, moves.between _ _,
    moves.between _ _⟩

theorem imageSize?_eq : shifted.imageSize? = layout.imageSize? :=
  (moves .imageEnd).offsetFrom?_eq (moves .text)

/-- The translation compares with the limit of the image and measures from its start. -/
theorem loadAddress?_eq {address shiftedAddress : Address}
    (addressMoves : address.ShiftedBy distance shiftedAddress) (base : Address) :
    shifted.loadAddress? shiftedAddress base = layout.loadAddress? address base := by
  simp only [loadAddress?, (moves .imageEnd).lt_iff addressMoves,
    addressMoves.offsetFrom?_eq (moves .text)]

/-- A requirement asks for an order or for whole pages, and both are kept. -/
theorem holds_iff (wholePages : 4096 ∣ distance) (requirement : Requirement) :
    requirement.Holds shifted ↔ requirement.Holds layout := by
  cases requirement with
  | ordered lower upper => exact (moves lower).le_iff (moves upper)
  | aligned root => exact (moves root).dvd_iff wholePages
  | inside root limit =>
      exact and_congr ((moves .text).le_iff (moves root)) ((moves limit).le_iff (moves .imageEnd))

theorem cause (requirement : Requirement) :
    (requirement.cause layout).ShiftedBy distance (requirement.cause shifted) := by
  cases requirement with
  | ordered lower upper => exact .misordered lower upper (moves lower) (moves upper)
  | aligned root => exact .misaligned root (moves root)
  | inside root limit => exact .outsideImage root

theorem check_eq_ok_iff (wholePages : 4096 ∣ distance) :
    shifted.check = .ok () ↔ layout.check = .ok () := by
  simp only [check_eq_ok_iff_holds, moves.holds_iff wholePages]

/-- The first requirement that a layout does not meet stays the first one. -/
theorem check_eq_error (wholePages : 4096 ∣ distance) {cause : LayoutError}
    (refused : layout.check = .error cause) :
    ∃ shiftedCause, shifted.check = .error shiftedCause ∧
      cause.ShiftedBy distance shiftedCause := by
  obtain ⟨violated, first, rfl⟩ := check_eq_error_iff.mp refused
  have stillFirst : shifted.FirstViolation violated := by
    simpa only [FirstViolation, moves.holds_iff wholePages] using first
  exact ⟨violated.cause shifted, check_eq_error_iff.mpr ⟨violated, stillFirst, rfl⟩,
    moves.cause violated⟩

end ShiftedBy

/-- Two layouts differ by a distance and in nothing else: they pass the check or are
refused alike, the image has the same size, each range lies at the distance, and addresses
at the distance have the same load address. -/
structure SameButShifted (distance : Int) (layout shifted : Layout) : Prop where
  check_eq_ok_iff : shifted.check = .ok () ↔ layout.check = .ok ()
  check_eq_error : ∀ cause, layout.check = .error cause →
    ∃ shiftedCause, shifted.check = .error shiftedCause ∧ cause.ShiftedBy distance shiftedCause
  imageSize?_eq : shifted.imageSize? = layout.imageSize?
  ranges : List.Forall₂ (AddressRange.ShiftedBy distance)
    (layout.kernelImage :: layout.mappedRanges) (shifted.kernelImage :: shifted.mappedRanges)
  loadAddress?_eq : ∀ address shiftedAddress base,
    address.ShiftedBy distance shiftedAddress →
      shifted.loadAddress? shiftedAddress base = layout.loadAddress? address base

/-- A layout whose addresses stay in the address space can be shifted by any number of
whole pages, up or down, and then differs from what it was by that distance only. -/
theorem sameButShifted_of_wholePages (layout : Layout) (wholePages : 4096 ∣ distance) :
    ((∃ shifted, layout.ShiftedBy distance shifted) ↔
      ∀ place, 0 ≤ ((layout.address place).toNat : Int) + distance ∧
        ((layout.address place).toNat : Int) + distance < Address.spaceSize) ∧
    ∀ shifted, layout.ShiftedBy distance shifted → SameButShifted distance layout shifted := by
  refine ⟨exists_shiftedBy_iff, ?_⟩
  intro shifted moves
  exact
    { check_eq_ok_iff := moves.check_eq_ok_iff wholePages
      check_eq_error := fun _ => moves.check_eq_error wholePages
      imageSize?_eq := moves.imageSize?_eq
      ranges := moves.ranges
      loadAddress?_eq := fun _ _ base addressMoves => moves.loadAddress?_eq addressMoves base }

/-- A layout that is refused for the order of two places is refused for them three pages
further down, with their addresses there. -/
theorem sameButShifted_of_wholePages_down :
    let layout : Layout := ⟨fun place => if place = .etext then ⟨0x7000⟩ else ⟨0x8000⟩⟩
    let shifted : Layout := ⟨fun place => if place = .etext then ⟨0x4000⟩ else ⟨0x5000⟩⟩
    layout.ShiftedBy (-0x3000) shifted ∧
      layout.check = .error (.misordered .stext ⟨0x8000⟩ .etext ⟨0x7000⟩) ∧
      shifted.check = .error (.misordered .stext ⟨0x5000⟩ .etext ⟨0x4000⟩) := by
  intro layout shifted
  have moves : layout.ShiftedBy (-0x3000) shifted := by
    intro place
    cases place <;> decide
  have refused : layout.check = .error (.misordered .stext ⟨0x8000⟩ .etext ⟨0x7000⟩) := rfl
  have wholePages : (4096 : Int) ∣ -0x3000 := by decide
  obtain ⟨-, sameBut⟩ := sameButShifted_of_wholePages layout wholePages
  obtain ⟨shiftedCause, shiftedRefused, related⟩ :=
    (sameBut shifted moves).check_eq_error _ refused
  cases related with
  | @misordered _ _ _ _ lowerShifted upperShifted lowerMoves upperMoves =>
      have lower : lowerShifted = ⟨0x5000⟩ := Address.toNat_inj.mp (Int.ofNat_inj.mp lowerMoves)
      have upper : upperShifted = ⟨0x4000⟩ := Address.toNat_inj.mp (Int.ofNat_inj.mp upperMoves)
      exact ⟨moves, refused, lower ▸ upper ▸ shiftedRefused⟩

end Layout
end EarlyBoot
