import EarlyBoot.Layout.Check
import EarlyBoot.Proofs.Outcome

/-!
# Layouts that early code can map

A layout is mappable when its boundaries increase and its page tables begin with a
page and lie in the image.  The check of a layout goes through nineteen requirements,
one after the other, and the first that the layout does not meet is the cause of the
refusal.  A layout meets all of them exactly when it is mappable.
-/

namespace EarlyBoot
namespace Layout

variable {layout : Layout}

/-- The place lies in the image, the end of which counts as part of it. -/
def InImage (layout : Layout) (place : ImageVar) : Prop :=
  layout.address .text ≤ layout.address place ∧
    layout.address place ≤ layout.address .imageEnd

/-- What early code relies on when it maps the image. -/
structure Mappable (layout : Layout) : Prop where
  text_le_stext : layout.address .text ≤ layout.address .stext
  stext_le_etext : layout.address .stext ≤ layout.address .etext
  etext_le_startRodata : layout.address .etext ≤ layout.address .startRodata
  startRodata_le_inittextBegin :
    layout.address .startRodata ≤ layout.address .inittextBegin
  inittextBegin_le_inittextEnd :
    layout.address .inittextBegin ≤ layout.address .inittextEnd
  inittextEnd_le_initdataBegin :
    layout.address .inittextEnd ≤ layout.address .initdataBegin
  initdataBegin_le_initdataEnd :
    layout.address .initdataBegin ≤ layout.address .initdataEnd
  initdataEnd_le_data : layout.address .initdataEnd ≤ layout.address .data
  data_le_bssStart : layout.address .data ≤ layout.address .bssStart
  bssStart_le_imageEnd : layout.address .bssStart ≤ layout.address .imageEnd
  initIdmapPgDir_aligned : 4096 ∣ (layout.address .initIdmapPgDir).toNat
  initPgDir_aligned : 4096 ∣ (layout.address .initPgDir).toNat
  swapperPgDir_aligned : 4096 ∣ (layout.address .swapperPgDir).toNat
  initIdmapPgDir_le_initIdmapPgEnd :
    layout.address .initIdmapPgDir ≤ layout.address .initIdmapPgEnd
  initPgDir_le_initPgEnd : layout.address .initPgDir ≤ layout.address .initPgEnd
  initIdmapPgDir_inImage : layout.InImage .initIdmapPgDir
  initIdmapPgEnd_inImage : layout.InImage .initIdmapPgEnd
  initPgDir_inImage : layout.InImage .initPgDir
  initPgEnd_inImage : layout.InImage .initPgEnd
  swapperPgDir_inImage : layout.InImage .swapperPgDir

/-- One thing that is required of a layout. -/
inductive Requirement where
  | ordered (lower upper : ImageVar)
  | aligned (root : ImageVar)
  /-- The pages from a root up to a limit are part of the image. -/
  | inside (root limit : ImageVar)
  deriving DecidableEq, Repr

namespace Requirement

def Holds (layout : Layout) : Requirement → Prop
  | .ordered lower upper => layout.address lower ≤ layout.address upper
  | .aligned root => 4096 ∣ (layout.address root).toNat
  | .inside root limit =>
      layout.address .text ≤ layout.address root ∧
        layout.address limit ≤ layout.address .imageEnd

instance (layout : Layout) (requirement : Requirement) :
    Decidable (requirement.Holds layout) :=
  match requirement with
  | .ordered lower upper =>
      inferInstanceAs (Decidable (layout.address lower ≤ layout.address upper))
  | .aligned root => inferInstanceAs (Decidable (4096 ∣ (layout.address root).toNat))
  | .inside root limit =>
      inferInstanceAs (Decidable (layout.address .text ≤ layout.address root ∧
        layout.address limit ≤ layout.address .imageEnd))

/-- The cause of the refusal when a layout does not meet the requirement. -/
def cause (layout : Layout) : Requirement → LayoutError
  | .ordered lower upper =>
      .misordered lower (layout.address lower) upper (layout.address upper)
  | .aligned root => .misaligned root (layout.address root)
  | .inside root _ => .outsideImage root

/-- The requirements in the order of their checks: the boundaries from the lowest to
the highest, then each page table. -/
def all : List Requirement :=
  [.ordered .text .stext, .ordered .stext .etext, .ordered .etext .startRodata,
    .ordered .startRodata .inittextBegin, .ordered .inittextBegin .inittextEnd,
    .ordered .inittextEnd .initdataBegin, .ordered .initdataBegin .initdataEnd,
    .ordered .initdataEnd .data, .ordered .data .bssStart, .ordered .bssStart .imageEnd,
    .aligned .initIdmapPgDir, .ordered .initIdmapPgDir .initIdmapPgEnd,
    .inside .initIdmapPgDir .initIdmapPgEnd,
    .aligned .initPgDir, .ordered .initPgDir .initPgEnd, .inside .initPgDir .initPgEnd,
    .aligned .swapperPgDir, .ordered .swapperPgDir .swapperPgDir,
    .inside .swapperPgDir .swapperPgDir]

/-- Refuses a layout that does not meet the requirement. -/
def demand (layout : Layout) (requirement : Requirement) : Except LayoutError Unit :=
  if requirement.Holds layout then .ok () else .error (requirement.cause layout)

theorem demand_eq_ok_iff {requirement : Requirement} :
    requirement.demand layout = .ok () ↔ requirement.Holds layout := by
  unfold demand
  split
  · next holds => simp [holds]
  · next fails => simp [fails]

theorem demand_eq_error_iff {requirement : Requirement} {cause : LayoutError} :
    requirement.demand layout = .error cause ↔
      ¬ requirement.Holds layout ∧ cause = requirement.cause layout := by
  unfold demand
  split
  · next holds => simp [holds]
  · next fails => simp [fails, eq_comm]

end Requirement

/-- The requirement is the first one that the layout does not meet. -/
def FirstViolation (layout : Layout) (violated : Requirement) : Prop :=
  ∃ before after, Requirement.all = before ++ violated :: after ∧
    (∀ earlier ∈ before, earlier.Holds layout) ∧ ¬ violated.Holds layout

section Checks

theorem checkOrder_eq_demand (lower upper : ImageVar) :
    layout.checkOrder lower upper = (Requirement.ordered lower upper).demand layout :=
  rfl

/-- That each of some variables is not above the next. -/
def orderings : List ImageVar → List Requirement
  | lower :: upper :: others => .ordered lower upper :: orderings (upper :: others)
  | [_] | [] => []

theorem checkBoundaries_eq_forM (places : List ImageVar) :
    layout.checkBoundaries places =
      (orderings places).forM (Requirement.demand layout) := by
  induction places using orderings.induct with
  | case1 lower upper others ih =>
      rw [checkBoundaries, orderings, Outcome.forM_cons, ih, checkOrder_eq_demand]
  | case2 place => rfl
  | case3 => rfl

/-- What is required of a page table. -/
def PageTable.requirements (table : PageTable) : List Requirement :=
  [.aligned table.root, .ordered table.root table.limit, .inside table.root table.limit]

theorem isPageAligned_iff {address : Address} :
    address.isPageAligned = true ↔ 4096 ∣ address.toNat := by
  rw [Address.isPageAligned, beq_iff_eq, Address.pageSize, Nat.dvd_iff_mod_eq_zero]

theorem checkPageTable_eq_forM (table : PageTable) :
    layout.checkPageTable table = table.requirements.forM (Requirement.demand layout) := by
  have last : (Requirement.inside table.root table.limit).demand layout =
      (Requirement.inside table.root table.limit).demand layout >>= fun _ => .ok () := by
    cases (Requirement.inside table.root table.limit).demand layout <;> rfl
  have inTurn : table.requirements.forM (Requirement.demand layout) =
      (Requirement.aligned table.root).demand layout >>= fun _ =>
        (Requirement.ordered table.root table.limit).demand layout >>= fun _ =>
          (Requirement.inside table.root table.limit).demand layout := by
    rw [last]
    rfl
  rw [inTurn]
  unfold checkPageTable
  dsimp only
  by_cases aligned : 4096 ∣ (layout.address table.root).toNat
  · have startAligned : (layout.between table.root table.limit).start.isPageAligned = true :=
      isPageAligned_iff.mpr aligned
    have passes : (Requirement.aligned table.root).demand layout = .ok () :=
      Requirement.demand_eq_ok_iff.mpr aligned
    rw [if_pos startAligned, passes]
    rfl
  · have startMisaligned :
        ¬ (layout.between table.root table.limit).start.isPageAligned = true :=
      fun startAligned => aligned (isPageAligned_iff.mp startAligned)
    have fails : (Requirement.aligned table.root).demand layout =
        .error (.misaligned table.root (layout.address table.root)) :=
      Requirement.demand_eq_error_iff.mpr ⟨aligned, rfl⟩
    rw [if_neg startMisaligned, fails]
    rfl

/-- The check of a layout goes through the requirements in their order. -/
theorem check_eq_forM : layout.check = Requirement.all.forM (Requirement.demand layout) := by
  have inOrder : Requirement.all =
      orderings boundaries ++ pageTables.flatMap PageTable.requirements :=
    rfl
  have eachTable : layout.checkPageTable =
      fun table => table.requirements.forM (Requirement.demand layout) :=
    funext checkPageTable_eq_forM
  rw [inOrder, Outcome.forM_append, Outcome.forM_flatMap, ← checkBoundaries_eq_forM, check,
    eachTable]

end Checks

section Verdicts

theorem check_eq_ok_iff_holds :
    layout.check = .ok () ↔ ∀ requirement ∈ Requirement.all, requirement.Holds layout := by
  rw [check_eq_forM, Outcome.forM_eq_ok_iff]
  simp only [Requirement.demand_eq_ok_iff]

theorem check_eq_error_iff {cause : LayoutError} :
    layout.check = .error cause ↔
      ∃ violated, layout.FirstViolation violated ∧ cause = violated.cause layout := by
  rw [check_eq_forM, Outcome.forM_eq_error_iff]
  simp only [Requirement.demand_eq_ok_iff, Requirement.demand_eq_error_iff]
  constructor
  · rintro ⟨before, violated, after, inOrder, held, fails, isCause⟩
    exact ⟨violated, ⟨before, after, inOrder, held, fails⟩, isCause⟩
  · rintro ⟨violated, ⟨before, after, inOrder, held, fails⟩, isCause⟩
    exact ⟨before, violated, after, inOrder, held, fails, isCause⟩

/-- The root of pages in the right order that are part of the image is in the image. -/
theorem inImage_of_inside_left {root limit : ImageVar}
    (ordered : (Requirement.ordered root limit).Holds layout)
    (inside : (Requirement.inside root limit).Holds layout) : layout.InImage root :=
  ⟨inside.1, Nat.le_trans ordered inside.2⟩

theorem inImage_of_inside_right {root limit : ImageVar}
    (ordered : (Requirement.ordered root limit).Holds layout)
    (inside : (Requirement.inside root limit).Holds layout) : layout.InImage limit :=
  ⟨Nat.le_trans inside.1 ordered, inside.2⟩

/-- Meeting all requirements is being mappable. -/
theorem mappable_iff_holds :
    layout.Mappable ↔ ∀ requirement ∈ Requirement.all, requirement.Holds layout := by
  simp only [Requirement.all, List.forall_mem_cons, List.not_mem_nil, false_imp_iff,
    implies_true, and_true]
  constructor
  · intro mappable
    exact ⟨mappable.text_le_stext, mappable.stext_le_etext, mappable.etext_le_startRodata,
      mappable.startRodata_le_inittextBegin, mappable.inittextBegin_le_inittextEnd,
      mappable.inittextEnd_le_initdataBegin, mappable.initdataBegin_le_initdataEnd,
      mappable.initdataEnd_le_data, mappable.data_le_bssStart, mappable.bssStart_le_imageEnd,
      mappable.initIdmapPgDir_aligned, mappable.initIdmapPgDir_le_initIdmapPgEnd,
      ⟨mappable.initIdmapPgDir_inImage.1, mappable.initIdmapPgEnd_inImage.2⟩,
      mappable.initPgDir_aligned, mappable.initPgDir_le_initPgEnd,
      ⟨mappable.initPgDir_inImage.1, mappable.initPgEnd_inImage.2⟩,
      mappable.swapperPgDir_aligned, Nat.le_refl _, mappable.swapperPgDir_inImage⟩
  · rintro ⟨stext, etext, startRodata, inittextBegin, inittextEnd, initdataBegin, initdataEnd,
      data, bssStart, imageEnd, idmapAligned, idmapOrdered, idmapInside, initAligned,
      initOrdered, initInside, swapperAligned, -, swapperInside⟩
    exact
      { text_le_stext := stext
        stext_le_etext := etext
        etext_le_startRodata := startRodata
        startRodata_le_inittextBegin := inittextBegin
        inittextBegin_le_inittextEnd := inittextEnd
        inittextEnd_le_initdataBegin := initdataBegin
        initdataBegin_le_initdataEnd := initdataEnd
        initdataEnd_le_data := data
        data_le_bssStart := bssStart
        bssStart_le_imageEnd := imageEnd
        initIdmapPgDir_aligned := idmapAligned
        initPgDir_aligned := initAligned
        swapperPgDir_aligned := swapperAligned
        initIdmapPgDir_le_initIdmapPgEnd := idmapOrdered
        initPgDir_le_initPgEnd := initOrdered
        initIdmapPgDir_inImage := inImage_of_inside_left idmapOrdered idmapInside
        initIdmapPgEnd_inImage := inImage_of_inside_right idmapOrdered idmapInside
        initPgDir_inImage := inImage_of_inside_left initOrdered initInside
        initPgEnd_inImage := inImage_of_inside_right initOrdered initInside
        swapperPgDir_inImage := swapperInside }

/-- An order that a layout violates is violated by the addresses of the two places. -/
theorem misordered_of_violation {violated : Requirement} {lower upper : ImageVar}
    {lowerAddress upperAddress : Address} (fails : ¬ violated.Holds layout)
    (isCause : .misordered lower lowerAddress upper upperAddress = violated.cause layout) :
    lowerAddress = layout.address lower ∧ upperAddress = layout.address upper ∧
      upperAddress < lowerAddress := by
  cases violated with
  | ordered lower upper =>
      injection isCause with lowerEq lowerAddressEq upperEq upperAddressEq
      subst lowerEq lowerAddressEq upperEq upperAddressEq
      exact ⟨rfl, rfl, Nat.lt_of_not_le fails⟩
  | aligned root => contradiction
  | inside root limit => contradiction

end Verdicts

/-- A layout passes its check exactly when early code can map it.  Any other layout is
refused for the first requirement that it does not meet, and a refusal for the order of
two places carries their addresses, the first of which is the greater one. -/
theorem check_of_layout (layout : Layout) :
    (layout.check = .ok () ↔ layout.Mappable) ∧
    (∀ cause, layout.check = .error cause ↔
      ∃ violated, layout.FirstViolation violated ∧ cause = violated.cause layout) ∧
    ∀ lower lowerAddress upper upperAddress,
      layout.check = .error (.misordered lower lowerAddress upper upperAddress) →
        lowerAddress = layout.address lower ∧ upperAddress = layout.address upper ∧
          upperAddress < lowerAddress := by
  refine ⟨?_, fun cause => check_eq_error_iff, ?_⟩
  · rw [mappable_iff_holds, check_eq_ok_iff_holds]
  · intro lower lowerAddress upper upperAddress refused
    obtain ⟨violated, ⟨-, -, -, -, fails⟩, isCause⟩ := check_eq_error_iff.mp refused
    exact misordered_of_violation fails isCause

end Layout
end EarlyBoot
