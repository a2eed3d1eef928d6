import EarlyBoot.Proofs.Layout.LoadAddress

/-!
# The roots of page tables

The check of a layout compares the pages of a table with the image as ranges.  A table of
which only the root is known has no pages, and the tables that early code fills may have
none either.  Pages that are none may start where the image ends, and then the root of the
table is the first address behind the image.  Every other root of a layout that passes its
check is an address of the image.
-/

namespace EarlyBoot
namespace Layout

variable {layout other : Layout} {table : PageTable}

/-- The root of every page table is an address of the image. -/
def RootsInImage (layout : Layout) : Prop :=
  ∀ table ∈ pageTables, layout.kernelImage.contains (layout.address table.root) = true

/-- The same layout, but for a page table without pages at the end of the image. -/
def emptyAtEnd (layout : Layout) (table : PageTable) : Layout where
  address place :=
    if place = table.root ∨ place = table.limit then layout.address .imageEnd
    else layout.address place

namespace Requirement

/-- The places whose addresses decide whether a requirement is met. -/
def places : Requirement → List ImageVar
  | .ordered lower upper => [lower, upper]
  | .aligned root => [root]
  | .inside root limit => [.text, root, limit, .imageEnd]

theorem holds_congr {requirement : Requirement}
    (same : ∀ place ∈ requirement.places, other.address place = layout.address place) :
    requirement.Holds other ↔ requirement.Holds layout := by
  cases requirement with
  | ordered lower upper =>
      simp only [places, List.forall_mem_cons] at same
      simp only [Holds, same]
  | aligned root =>
      simp only [places, List.forall_mem_cons] at same
      simp only [Holds, same]
  | inside root limit =>
      simp only [places, List.forall_mem_cons] at same
      simp only [Holds, same]

/-- What is required of other places than those of a table does not look at them. -/
theorem mem_requirements_or_not_mem_places : ∀ table ∈ pageTables, ∀ requirement ∈ all,
    requirement ∈ table.requirements ∨
      table.root ∉ requirement.places ∧ table.limit ∉ requirement.places := by
  decide

end Requirement

section Bounds

theorem requirements_subset_all (member : table ∈ pageTables) :
    table.requirements ⊆ Requirement.all := by
  have inAll : ∀ table ∈ pageTables, table.requirements ⊆ Requirement.all := by decide
  exact inAll table member

/-- The pages of a table of a layout that passes its check are a range from one address
of the image or its end to another. -/
theorem table_bounds_of_check (passes : layout.check = .ok ()) (member : table ∈ pageTables) :
    layout.address .text ≤ layout.address table.root ∧
      layout.address table.root ≤ layout.address table.limit ∧
      layout.address table.limit ≤ layout.address .imageEnd := by
  have holds := check_eq_ok_iff_holds.mp passes
  have required := requirements_subset_all member
  have ordered : (Requirement.ordered table.root table.limit).Holds layout :=
    holds _ (required (by simp [PageTable.requirements]))
  have inside : (Requirement.inside table.root table.limit).Holds layout :=
    holds _ (required (by simp [PageTable.requirements]))
  exact ⟨inside.1, ordered, inside.2⟩

/-- A root lies in the image unless it is the end of the image, and then its table has no
pages. -/
theorem root_of_check (passes : layout.check = .ok ()) (member : table ∈ pageTables) :
    layout.address .text ≤ layout.address table.root ∧
      layout.address table.root ≤ layout.address .imageEnd ∧
      (layout.kernelImage.contains (layout.address table.root) = true ↔
        layout.address table.root ≠ layout.address .imageEnd) ∧
      (layout.address table.root = layout.address .imageEnd →
        layout.address table.limit = layout.address .imageEnd) := by
  obtain ⟨fromStart, ordered, upTo⟩ := table_bounds_of_check passes member
  have rootUpTo : layout.address table.root ≤ layout.address .imageEnd :=
    Nat.le_trans ordered upTo
  refine ⟨fromStart, rootUpTo, ?_, ?_⟩
  · rw [kernelImage_contains_iff]
    constructor
    · rintro ⟨-, -, notEnd⟩
      exact notEnd
    · intro notEnd
      exact ⟨fromStart, rootUpTo, notEnd⟩
  · intro atEnd
    rw [atEnd] at ordered
    exact Address.toNat_inj.mp (Nat.le_antisymm upTo ordered)

end Bounds

section Ends

theorem address_emptyAtEnd_of_ne {place : ImageVar} (notRoot : place ≠ table.root)
    (notLimit : place ≠ table.limit) :
    (layout.emptyAtEnd table).address place = layout.address place := by
  simp [emptyAtEnd, notRoot, notLimit]

theorem address_emptyAtEnd_root :
    (layout.emptyAtEnd table).address table.root = layout.address .imageEnd := by
  simp [emptyAtEnd]

theorem address_emptyAtEnd_limit :
    (layout.emptyAtEnd table).address table.limit = layout.address .imageEnd := by
  simp [emptyAtEnd]

theorem address_emptyAtEnd_imageEnd :
    (layout.emptyAtEnd table).address .imageEnd = layout.address .imageEnd := by
  simp [emptyAtEnd]

/-- A table without pages at the end of the image meets what is required of a table. -/
theorem holds_emptyAtEnd (alignedEnd : 4096 ∣ (layout.address .imageEnd).toNat)
    (ordered : layout.address .text ≤ layout.address .imageEnd)
    (member : table ∈ pageTables) :
    ∀ requirement ∈ table.requirements, requirement.Holds (layout.emptyAtEnd table) := by
  have apart : ∀ table ∈ pageTables, .text ≠ table.root ∧ .text ≠ table.limit := by decide
  have sameStart : (layout.emptyAtEnd table).address .text = layout.address .text :=
    address_emptyAtEnd_of_ne (apart table member).1 (apart table member).2
  simp only [PageTable.requirements, List.forall_mem_cons, List.not_mem_nil, false_imp_iff,
    implies_true, and_true, Requirement.Holds, address_emptyAtEnd_root,
    address_emptyAtEnd_limit, address_emptyAtEnd_imageEnd, sameStart]
  exact ⟨alignedEnd, Nat.le_refl _, ordered, Nat.le_refl _⟩

theorem check_emptyAtEnd (passes : layout.check = .ok ()) (member : table ∈ pageTables)
    (alignedEnd : 4096 ∣ (layout.address .imageEnd).toNat) :
    (layout.emptyAtEnd table).check = .ok () := by
  have holds := check_eq_ok_iff_holds.mp passes
  obtain ⟨fromStart, ordered, upTo⟩ := table_bounds_of_check passes member
  have imageOrdered : layout.address .text ≤ layout.address .imageEnd :=
    Nat.le_trans fromStart (Nat.le_trans ordered upTo)
  refine check_eq_ok_iff_holds.mpr fun requirement required => ?_
  rcases Requirement.mem_requirements_or_not_mem_places table member requirement required with
    ofTable | ⟨noRoot, noLimit⟩
  · exact holds_emptyAtEnd alignedEnd imageOrdered member requirement ofTable
  · refine (Requirement.holds_congr fun place read => ?_).mpr (holds requirement required)
    apply address_emptyAtEnd_of_ne
    · rintro rfl
      exact noRoot read
    · rintro rfl
      exact noLimit read

end Ends

/-- In a layout that passes its check a root lies between the start and the end of the
image.  It is an address of the image unless it is the end, and then its table has no
pages.  So all roots are addresses of the image exactly if none of them is the end.  The
check does not see to that: if the end is the start of a page, each of the tables may be
put there. -/
theorem tableRoots_of_check (passes : layout.check = .ok ()) :
    (∀ table ∈ pageTables,
      layout.address .text ≤ layout.address table.root ∧
        layout.address table.root ≤ layout.address .imageEnd ∧
        (layout.kernelImage.contains (layout.address table.root) = true ↔
          layout.address table.root ≠ layout.address .imageEnd) ∧
        (layout.address table.root = layout.address .imageEnd →
          layout.address table.limit = layout.address .imageEnd)) ∧
    (layout.RootsInImage ↔
      ∀ table ∈ pageTables, layout.address table.root ≠ layout.address .imageEnd) ∧
    (4096 ∣ (layout.address .imageEnd).toNat → ∀ table ∈ pageTables,
      (layout.emptyAtEnd table).check = .ok () ∧
        ¬ (layout.emptyAtEnd table).RootsInImage) := by
  refine ⟨fun table member => root_of_check passes member, ?_, ?_⟩
  · refine forall₂_congr fun table member => ?_
    obtain ⟨-, -, inImage, -⟩ := root_of_check passes member
    exact inImage
  · intro alignedEnd table member
    refine ⟨check_emptyAtEnd passes member alignedEnd, fun rootsIn => ?_⟩
    have rootIn := rootsIn table member
    rw [kernelImage_contains_iff, address_emptyAtEnd_root, address_emptyAtEnd_imageEnd] at rootIn
    exact rootIn.2.2 rfl

/-- The table that is filled first has pages in the image, and the next one has none and
starts where the image ends. -/
theorem tableRoots_of_check_one_empty :
    let address : ImageVar → Address
      | .initIdmapPgDir | .swapperPgDir => ⟨0xA000⟩
      | .initIdmapPgEnd => ⟨0xB000⟩
      | .initPgDir | .initPgEnd | .imageEnd => ⟨0xC000⟩
      | _ => ⟨0x8000⟩
    let layout : Layout := ⟨address⟩
    layout.check = .ok () ∧
      layout.kernelImage.contains (layout.address .initIdmapPgDir) = true ∧
      layout.kernelImage.contains (layout.address .swapperPgDir) = true ∧
      ¬ layout.RootsInImage ∧
      (layout.emptyAtEnd ⟨.swapperPgDir, .swapperPgDir⟩).check = .ok () := by
  intro address layout
  have passes : layout.check = .ok () := check_eq_ok_iff_holds.mpr (by decide)
  obtain ⟨roots, inImage, atEnd⟩ := tableRoots_of_check passes
  obtain ⟨-, -, idmapIn, -⟩ := roots ⟨.initIdmapPgDir, .initIdmapPgEnd⟩ (by decide)
  obtain ⟨-, -, swapperIn, -⟩ := roots ⟨.swapperPgDir, .swapperPgDir⟩ (by decide)
  refine ⟨passes, idmapIn.mpr (by decide), swapperIn.mpr (by decide), ?_, ?_⟩
  · intro rootsIn
    exact inImage.mp rootsIn ⟨.initPgDir, .initPgEnd⟩ (by decide) rfl
  · exact (atEnd (by decide) ⟨.swapperPgDir, .swapperPgDir⟩ (by decide)).1

/-- A layout passes its check although one of its page tables, of which only the root is
known, is the first address behind the image. -/
theorem not_rootsInImage_swapperPgDir :
    let layout : Layout := ⟨fun place =>
      if place = .imageEnd ∨ place = .swapperPgDir then ⟨0x9000⟩ else ⟨0x8000⟩⟩
    layout.check = .ok () ∧
      layout.kernelImage.contains (layout.address .swapperPgDir) = false ∧
      ¬ layout.RootsInImage := by
  intro layout
  have notMember : layout.kernelImage.contains (layout.address .swapperPgDir) = false := by
    decide
  refine ⟨check_eq_ok_iff_holds.mpr (by decide), notMember, ?_⟩
  intro rootsIn
  have member := rootsIn ⟨.swapperPgDir, .swapperPgDir⟩ (by decide)
  rw [notMember] at member
  contradiction

end Layout
end EarlyBoot
