import EarlyBoot.Proofs.Layout.Mappable

/-!
# The segments of a layout

The segments and page tables that early code maps pick their ends from different
places of a layout.  In a layout that passes its check no range ends below its start,
every range is part of the image, and the segments come one after the other, so that
no address belongs to two of them and their bytes fit into the image.
-/

namespace EarlyBoot

namespace AddressRange

variable {range first second outer : AddressRange} {address lower upper : Address}
  {ranges : List AddressRange}

/-- The number of addresses of a range whose limit is not below its start. -/
def size (range : AddressRange) : Nat :=
  range.limit.toNat - range.start.toNat

/-- The number of addresses of some ranges, each counted on its own. -/
def totalSize (ranges : List AddressRange) : Nat :=
  ranges.foldr (fun range total => range.size + total) 0

/-- One range is part of another. -/
structure Within (range outer : AddressRange) : Prop where
  start_le : outer.start ≤ range.start
  limit_le : range.limit ≤ outer.limit

/-- One range ends where another starts, or below. -/
def Before (first second : AddressRange) : Prop :=
  first.limit ≤ second.start

/-- Ranges that come one after the other between two addresses, each with its limit not
below its start. -/
def InTurn (lower upper : Address) : List AddressRange → Prop
  | [] => lower ≤ upper
  | range :: ranges =>
      lower ≤ range.start ∧ range.start ≤ range.limit ∧ InTurn range.limit upper ranges

theorem contains_iff :
    range.contains address = true ↔ range.start ≤ address ∧ address < range.limit := by
  simp [contains]

theorem Within.contains (within : range.Within outer)
    (member : range.contains address = true) : outer.contains address = true := by
  rw [contains_iff] at member ⊢
  exact ⟨Nat.le_trans within.start_le member.1, Nat.lt_of_lt_of_le member.2 within.limit_le⟩

/-- An address of a range is no address of a later one. -/
theorem Before.not_contains (before : first.Before second)
    (member : first.contains address = true) : ¬ second.contains address = true := by
  rw [contains_iff] at member ⊢
  rintro ⟨above, -⟩
  exact Nat.lt_irrefl _ (Nat.lt_of_lt_of_le member.2 (Nat.le_trans before above))

theorem InTurn.lower_le_upper (inTurn : InTurn lower upper ranges) : lower ≤ upper := by
  induction ranges generalizing lower with
  | nil => exact inTurn
  | cons range ranges ih =>
      obtain ⟨above, ordered, later⟩ := inTurn
      exact Nat.le_trans (Nat.le_trans above ordered) (ih later)

theorem InTurn.bounds (inTurn : InTurn lower upper ranges) :
    ∀ range ∈ ranges, range.start ≤ range.limit ∧ range.Within ⟨lower, upper⟩ := by
  induction ranges generalizing lower with
  | nil => simp
  | cons range ranges ih =>
      obtain ⟨above, ordered, later⟩ := inTurn
      rw [List.forall_mem_cons]
      refine ⟨⟨ordered, above, later.lower_le_upper⟩, ?_⟩
      intro other member
      obtain ⟨otherOrdered, within⟩ := ih later other member
      exact ⟨otherOrdered, Nat.le_trans (Nat.le_trans above ordered) within.start_le,
        within.limit_le⟩

theorem InTurn.pairwise_before (inTurn : InTurn lower upper ranges) :
    ranges.Pairwise Before := by
  induction ranges generalizing lower with
  | nil => exact List.Pairwise.nil
  | cons range ranges ih =>
      obtain ⟨-, -, later⟩ := inTurn
      refine List.pairwise_cons.mpr ⟨?_, ih later⟩
      intro other member
      exact (later.bounds other member).2.start_le

theorem InTurn.totalSize_le (inTurn : InTurn lower upper ranges) :
    lower.toNat + totalSize ranges ≤ upper.toNat := by
  induction ranges generalizing lower with
  | nil => exact inTurn
  | cons range ranges ih =>
      obtain ⟨above, ordered, later⟩ := inTurn
      have rest := ih later
      rw [Address.le_iff_toNat_le] at above ordered
      change lower.toNat + (range.size + totalSize ranges) ≤ upper.toNat
      rw [size]
      omega

/-- No address belongs to two ranges that come one before the other. -/
theorem countP_contains_le_one (apart : ranges.Pairwise Before) (address : Address) :
    ranges.countP (fun range => range.contains address) ≤ 1 := by
  induction ranges with
  | nil => exact Nat.zero_le 1
  | cons range ranges ih =>
      obtain ⟨before, later⟩ := List.pairwise_cons.mp apart
      rw [List.countP_cons]
      split
      · next member =>
          have noOther : ranges.countP (fun range => range.contains address) = 0 :=
            List.countP_eq_zero.mpr fun other otherMember =>
              (before other otherMember).not_contains member
          omega
      · exact ih later

end AddressRange

namespace Layout

variable {layout : Layout}

/-- The segments of the image, the lowest first. -/
def segments (layout : Layout) : List AddressRange :=
  [layout.textSegment, layout.rodataSegment, layout.inittext, layout.initdata,
    layout.dataSegment, layout.bss]

/-- The ranges that early code maps: the segments and the page tables it fills. -/
def mappedRanges (layout : Layout) : List AddressRange :=
  layout.segments ++ [layout.initIdmapPages, layout.initPages]

/-- The order of the boundaries is the order of the segments. -/
theorem Mappable.segments_inTurn (mappable : layout.Mappable) :
    AddressRange.InTurn (layout.address .text) (layout.address .imageEnd) layout.segments :=
  ⟨mappable.text_le_stext, mappable.stext_le_etext,
    mappable.etext_le_startRodata, mappable.startRodata_le_inittextBegin,
    Nat.le_refl _, mappable.inittextBegin_le_inittextEnd,
    mappable.inittextEnd_le_initdataBegin, mappable.initdataBegin_le_initdataEnd,
    mappable.initdataEnd_le_data, mappable.data_le_bssStart,
    Nat.le_refl _, mappable.bssStart_le_imageEnd, Nat.le_refl _⟩

/-- Pages from a place of the image to a higher one are part of the image. -/
theorem within_kernelImage {root limit : ImageVar} (rootIn : layout.InImage root)
    (limitIn : layout.InImage limit) :
    (layout.between root limit).Within layout.kernelImage :=
  ⟨rootIn.1, limitIn.2⟩

theorem Mappable.mappedRanges_within (mappable : layout.Mappable) :
    ∀ range ∈ layout.mappedRanges,
      range.start ≤ range.limit ∧ range.Within layout.kernelImage := by
  intro range member
  rcases List.mem_append.mp member with segment | pages
  · exact mappable.segments_inTurn.bounds range segment
  · simp only [List.mem_cons, List.not_mem_nil, or_false] at pages
    rcases pages with rfl | rfl
    · exact ⟨mappable.initIdmapPgDir_le_initIdmapPgEnd,
        within_kernelImage mappable.initIdmapPgDir_inImage mappable.initIdmapPgEnd_inImage⟩
    · exact ⟨mappable.initPgDir_le_initPgEnd,
        within_kernelImage mappable.initPgDir_inImage mappable.initPgEnd_inImage⟩

theorem imageSize?_eq_some_iff {size : Nat} :
    layout.imageSize? = some size ↔
      (layout.address .text).toNat + size = (layout.address .imageEnd).toNat :=
  Address.offsetFrom?_eq_some_iff

/-- A layout that passes its check divides the image.  The size of the image is the
distance from its start to its end.  No range that early code maps ends below its start
or leaves the image.  The segments follow one another, so that no address belongs to two
of them and their sizes add up to no more than the size of the image. -/
theorem segments_of_check (passes : layout.check = .ok ()) :
    (∃ size, layout.imageSize? = some size ∧
      (layout.address .text).toNat + size = (layout.address .imageEnd).toNat ∧
      AddressRange.totalSize layout.segments ≤ size) ∧
    (∀ range ∈ layout.mappedRanges,
      range.start ≤ range.limit ∧ range.Within layout.kernelImage ∧
      ∀ address, range.contains address = true →
        layout.kernelImage.contains address = true) ∧
    layout.segments.Pairwise AddressRange.Before ∧
    ∀ address, layout.segments.countP (fun range => range.contains address) ≤ 1 := by
  have mappable : layout.Mappable :=
    mappable_iff_holds.mpr (check_eq_ok_iff_holds.mp passes)
  have inTurn := mappable.segments_inTurn
  have apart := inTurn.pairwise_before
  refine ⟨?_, ?_, apart, AddressRange.countP_contains_le_one apart⟩
  · have fits := inTurn.totalSize_le
    obtain ⟨size, whole⟩ := Nat.exists_eq_add_of_le inTurn.lower_le_upper
    refine ⟨size, imageSize?_eq_some_iff.mpr whole.symm, whole.symm, ?_⟩
    omega
  · intro range member
    obtain ⟨ordered, within⟩ := mappable.mappedRanges_within range member
    exact ⟨ordered, within, fun _ => within.contains⟩

/-- Segments may touch, a segment and a page table may be empty, and a page table may
lie where the image ends. -/
theorem segments_of_check_touching :
    let address : ImageVar → Address
      | .text | .stext => ⟨0x8000⟩
      | .etext | .startRodata | .inittextBegin => ⟨0x9000⟩
      | .inittextEnd | .initdataBegin | .swapperPgDir => ⟨0xA000⟩
      | .initdataEnd | .data | .bssStart => ⟨0xB800⟩
      | .initIdmapPgDir | .initIdmapPgEnd | .initPgDir | .initPgEnd | .imageEnd => ⟨0xC000⟩
    let layout : Layout := ⟨address⟩
    layout.check = .ok () ∧ layout.imageSize? = some 0x4000 ∧
      layout.segments.map AddressRange.size = [0x1000, 0, 0x1000, 0x1800, 0, 0x800] ∧
      layout.initPages.Within layout.kernelImage ∧
      layout.segments.countP (fun range => range.contains ⟨0x9000⟩) ≤ 1 := by
  intro address layout
  have passes : layout.check = .ok () := check_eq_ok_iff_holds.mpr (by decide)
  obtain ⟨⟨size, isSize, whole, -⟩, mapped, -, atMostOne⟩ := segments_of_check passes
  have isWhole : (layout.address .text).toNat + 0x4000 = (layout.address .imageEnd).toNat := by
    decide
  obtain rfl : size = 0x4000 := by omega
  have isMapped : layout.initPages ∈ layout.mappedRanges :=
    List.mem_append_right _ (List.mem_cons_of_mem _ List.mem_cons_self)
  obtain ⟨-, within, -⟩ := mapped layout.initPages isMapped
  exact ⟨passes, isSize, by decide, within, atMostOne ⟨0x9000⟩⟩

end Layout
end EarlyBoot
