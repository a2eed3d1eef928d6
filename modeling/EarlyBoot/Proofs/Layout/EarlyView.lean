import EarlyBoot.Layout.Read
import EarlyBoot.Proofs.Link.Verdict

/-!
# What early code sees of an image

Early code resolves sixteen early names.  When the registry of the image variables
takes part in the link, each of them is there: a unit defines it, or it shares the
address of its final name.  An image without one of them has no layout, and the
first that is missing is the cause.
-/

namespace EarlyBoot
namespace Layout

open Link

variable {capacity : Nat} {units : List LinkUnit} {image : Image}

/-- A place with its two names. -/
structure NamedPlace where
  place : ImageVar
  early : SymbolName
  final : SymbolName
  deriving DecidableEq, Repr

/-- The places in the order in which early code resolves them. -/
def nameTable : List NamedPlace :=
  [⟨.initIdmapPgDir, ⟨"__pi_init_idmap_pg_dir"⟩, ⟨"init_idmap_pg_dir"⟩⟩,
    ⟨.initIdmapPgEnd, ⟨"__pi_init_idmap_pg_end"⟩, ⟨"init_idmap_pg_end"⟩⟩,
    ⟨.initPgDir, ⟨"__pi_init_pg_dir"⟩, ⟨"init_pg_dir"⟩⟩,
    ⟨.initPgEnd, ⟨"__pi_init_pg_end"⟩, ⟨"init_pg_end"⟩⟩,
    ⟨.swapperPgDir, ⟨"__pi_swapper_pg_dir"⟩, ⟨"swapper_pg_dir"⟩⟩,
    ⟨.text, ⟨"__pi__text"⟩, ⟨"_text"⟩⟩,
    ⟨.stext, ⟨"__pi__stext"⟩, ⟨"_stext"⟩⟩,
    ⟨.etext, ⟨"__pi__etext"⟩, ⟨"_etext"⟩⟩,
    ⟨.startRodata, ⟨"__pi___start_rodata"⟩, ⟨"__start_rodata"⟩⟩,
    ⟨.inittextBegin, ⟨"__pi___inittext_begin"⟩, ⟨"__inittext_begin"⟩⟩,
    ⟨.inittextEnd, ⟨"__pi___inittext_end"⟩, ⟨"__inittext_end"⟩⟩,
    ⟨.initdataBegin, ⟨"__pi___initdata_begin"⟩, ⟨"__initdata_begin"⟩⟩,
    ⟨.initdataEnd, ⟨"__pi___initdata_end"⟩, ⟨"__initdata_end"⟩⟩,
    ⟨.data, ⟨"__pi__data"⟩, ⟨"_data"⟩⟩,
    ⟨.bssStart, ⟨"__pi___bss_start"⟩, ⟨"__bss_start"⟩⟩,
    ⟨.imageEnd, ⟨"__pi__end"⟩, ⟨"_end"⟩⟩]

/-- The address that the definition in force gives a name. -/
def definedAddress? (units : List LinkUnit) (name : SymbolName) : Option Address :=
  (inForce? (allContributions units) name).map fun contribution =>
    contribution.definition.address

/-- The address that an early name ends up with: its own one if a unit defines it,
and otherwise that of the final name. -/
def seenAddress? (units : List LinkUnit) (early final : SymbolName) : Option Address :=
  if IsDefined units early then definedAddress? units early
  else definedAddress? units final

/-- The first entry of the table whose early name the image lacks. -/
def FirstAbsent (image : Image) (entry : NamedPlace) : Prop :=
  ∃ before after, nameTable = before ++ entry :: after ∧
    image.find? entry.early = none ∧
    ∀ earlier ∈ before, image.find? earlier.early ≠ none

section Table

theorem nameTable_eq :
    nameTable = ImageVar.all.map fun place => ⟨place, place.earlyName, place.finalName⟩ := by
  decide

theorem entry_eq_of_mem {entry : NamedPlace} (member : entry ∈ nameTable) :
    entry = ⟨entry.place, entry.place.earlyName, entry.place.finalName⟩ := by
  rw [nameTable_eq, List.mem_map] at member
  obtain ⟨place, -, rfl⟩ := member
  rfl

theorem mem_nameTable (place : ImageVar) :
    ⟨place, place.earlyName, place.finalName⟩ ∈ nameTable := by
  rw [nameTable_eq]
  exact List.mem_map_of_mem place.mem_all

end Table

theorem FirstAbsent.early_eq {entry : NamedPlace} (absent : FirstAbsent image entry) :
    entry.early = entry.place.earlyName := by
  obtain ⟨before, after, whole, -, -⟩ := absent
  have member : entry ∈ nameTable := by
    rw [whole]
    exact List.mem_append_right _ List.mem_cons_self
  exact congrArg NamedPlace.early (entry_eq_of_mem member)

section Images

theorem ofImage_eq_ok_iff {layout : Layout} :
    ofImage image = .ok layout ↔
      ∀ place, image.address? place.earlyName = some (layout.address place) := by
  unfold ofImage
  split
  · next absent missing =>
      constructor
      · intro impossible
        contradiction
      · intro complete
        have isAbsent := List.find?_some missing
        simp [complete] at isAbsent
  · next complete =>
      constructor
      · intro built
        injection built with isLayout
        subst isLayout
        intro place
        exact (Option.some_get _).symm
      · intro found
        have sameAddress : ∀ place, (image.address? place.earlyName).get
            (isSome_address?_of_firstMissing? complete place) = layout.address place := by
          intro place
          simp [found]
        simp only [sameAddress]

/-- The first place without an early name is the first entry without one. -/
theorem firstMissing?_eq_some_iff {place : ImageVar} :
    firstMissing? image = some place ↔
      ∃ entry, FirstAbsent image entry ∧ entry.place = place := by
  have searched : firstMissing? image =
      (nameTable.find? fun entry => (image.find? entry.early).isNone).map
        NamedPlace.place := by
    rw [nameTable_eq, List.find?_map, Option.map_map]
    simp [firstMissing?, Image.address?, Function.comp_def]
  rw [searched, Option.map_eq_some_iff]
  apply exists_congr
  intro entry
  rw [List.find?_eq_some_iff_append, FirstAbsent]
  simp only [Option.isNone_iff_eq_none, Bool.not_eq_true', Option.isNone_eq_false_iff,
    Option.isSome_iff_ne_none]
  constructor
  · rintro ⟨⟨absent, before, after, whole, earlier⟩, samePlace⟩
    exact ⟨⟨before, after, whole, absent, earlier⟩, samePlace⟩
  · rintro ⟨⟨before, after, whole, absent, earlier⟩, samePlace⟩
    exact ⟨⟨absent, before, after, whole, earlier⟩, samePlace⟩

/-- An image has no layout only for lack of a name. -/
theorem ofImage_eq_error_iff {cause : LayoutError} :
    ofImage image = .error cause ↔
      ∃ entry, FirstAbsent image entry ∧ cause = .missing entry.place := by
  have missing : ofImage image = .error cause ↔
      ∃ place, firstMissing? image = some place ∧ cause = .missing place := by
    unfold ofImage
    split
    · next place missing => simp [missing, eq_comm]
    · next complete => simp [complete]
  rw [missing]
  constructor
  · rintro ⟨place, isFirst, rfl⟩
    obtain ⟨entry, absent, rfl⟩ := firstMissing?_eq_some_iff.mp isFirst
    exact ⟨entry, absent, rfl⟩
  · rintro ⟨entry, absent, rfl⟩
    exact ⟨entry.place, firstMissing?_eq_some_iff.mpr ⟨entry, absent, rfl⟩, rfl⟩

end Images

section Links

theorem definedAddress?_of_inForce? {name : SymbolName} {contribution : Contribution}
    (inForce : inForce? (allContributions units) name = some contribution) :
    definedAddress? units name = some contribution.definition.address := by
  rw [definedAddress?, inForce]
  rfl

/-- A declared alias always has an address in an image that applies the
declaration. -/
theorem address?_of_declared {registry : AliasRegistry capacity}
    (wellFormed : registry.WellFormed)
    (applied : Applied units registry.declarations image) {declaration : AliasDecl}
    (member : declaration ∈ registry.declarations) :
    ∃ address, seenAddress? units declaration.name declaration.target = some address ∧
      image.address? declaration.name = some address := by
  by_cases defined : IsDefined units declaration.name
  · obtain ⟨contribution, inForce⟩ := exists_inForce?_of_isDefined defined
    refine ⟨contribution.definition.address, ?_, ?_⟩
    · rw [seenAddress?, if_pos defined, definedAddress?_of_inForce? inForce]
    · rw [Image.address?, applied.find?_of_inForce? inForce]
      rfl
  · obtain ⟨target, inForce, -, ofName⟩ :=
      applied.find?_of_declared wellFormed member defined
    refine ⟨target.definition.address, ?_, ?_⟩
    · rw [seenAddress?, if_neg defined, definedAddress?_of_inForce? inForce]
    · rw [Image.address?, ofName]
      rfl

theorem address?_of_link (linked : (link units .imageVars).outcome = .ok image)
    (place : ImageVar) :
    ∃ address, seenAddress? units place.earlyName place.finalName = some address ∧
      image.address? place.earlyName = some address := by
  have applied := applied_of_link AliasRegistry.wellFormed_imageVars linked
  have declared : ⟨place.earlyName, place.finalName⟩ ∈
      AliasRegistry.imageVars.declarations := List.mem_map_of_mem place.mem_all
  exact address?_of_declared AliasRegistry.wellFormed_imageVars applied declared

theorem exists_layout_of_link (linked : (link units .imageVars).outcome = .ok image) :
    ∃ layout, ofImage image = .ok layout ∧ ∀ place : ImageVar,
      seenAddress? units place.earlyName place.finalName = some (layout.address place) := by
  choose address seen found using address?_of_link linked
  exact ⟨⟨address⟩, ofImage_eq_ok_iff.mpr found, seen⟩

/-- Early code reads back the layout that the units define by its final names. -/
theorem ofImage_of_defined (linked : (link units .imageVars).outcome = .ok image)
    {written : Layout} (notEarly : ∀ place : ImageVar, ¬ IsDefined units place.earlyName)
    (defined : ∀ place : ImageVar,
      definedAddress? units place.finalName = some (written.address place)) :
    ofImage image = .ok written := by
  rw [ofImage_eq_ok_iff]
  intro place
  obtain ⟨address, seen, found⟩ := address?_of_link linked place
  rw [seenAddress?, if_neg (notEarly place), defined] at seen
  rw [found, seen]

/-- A unit that defines every place by its final name. -/
def definingUnit (layout : Layout) : LinkUnit where
  name := "vmlinux.o"
  definitions := nameTable.map fun entry =>
    ⟨entry.final, layout.address entry.place, .absolute, .strong⟩
  references := []

theorem not_conflicts_definingUnit (layout : Layout) : ¬ Conflicts [definingUnit layout] := by
  have names : (((allContributions [definingUnit layout]).filter
      fun contribution => contribution.definition.strength = .strong).map
        fun contribution => contribution.definition.name) =
      nameTable.map NamedPlace.final := rfl
  rw [conflicts_iff, not_not, names]
  decide

/-- There is a link for every layout. -/
theorem exists_link_of_layout (layout : Layout) :
    ∃ image, (link [definingUnit layout] .imageVars).outcome = .ok image ∧
      ofImage image = .ok layout := by
  have notEarly : ∀ place : ImageVar, ¬ IsDefined [definingUnit layout] place.earlyName := by
    intro place
    rw [not_isDefined_iff]
    cases place <;> rfl
  have defined : ∀ place : ImageVar,
      definedAddress? [definingUnit layout] place.finalName =
        some (layout.address place) := by
    intro place
    cases place <;> rfl
  have resolved : ∀ declaration ∈ AliasRegistry.imageVars.declarations,
      ¬ Unresolved [definingUnit layout] declaration := by
    intro declaration member unresolved
    obtain ⟨place, -, rfl⟩ := List.mem_map.mp member
    have isDefined := defined place
    rw [definedAddress?, not_isDefined_iff.mp unresolved.2] at isDefined
    contradiction
  obtain ⟨image, linked⟩ := (verdict_link [definingUnit layout]
    AliasRegistry.wellFormed_imageVars).exists_image (not_conflicts_definingUnit layout)
      resolved (by simp [definingUnit])
  exact ⟨image, linked, ofImage_of_defined linked notEarly defined⟩

end Links

/-- The registry of the image variables makes every image complete: early code sees
each place where a unit defines its early name, and otherwise where its final name
is.  Without early definitions it reads back any layout that the units define.  Of
any other image the layout fails only for lack of a name, and the first one that is
missing is the cause. -/
theorem ofImage_of_link (units : List LinkUnit) :
    (∀ image, (link units .imageVars).outcome = .ok image →
      ∃ layout, ofImage image = .ok layout ∧
        (∀ entry ∈ nameTable,
          seenAddress? units entry.early entry.final = some (layout.address entry.place)) ∧
        ∀ written : Layout,
          (∀ entry ∈ nameTable, ¬ IsDefined units entry.early ∧
            definedAddress? units entry.final = some (written.address entry.place)) →
          ofImage image = .ok written) ∧
    ∀ image cause, ofImage image = .error cause ↔
      ∃ entry, FirstAbsent image entry ∧ entry.early = entry.place.earlyName ∧
        cause = .missing entry.place := by
  constructor
  · intro image linked
    obtain ⟨layout, built, seen⟩ := exists_layout_of_link linked
    have seenEntry : ∀ entry ∈ nameTable,
        seenAddress? units entry.early entry.final = some (layout.address entry.place) := by
      intro entry member
      rw [entry_eq_of_mem member]
      exact seen entry.place
    refine ⟨layout, built, seenEntry, ?_⟩
    intro written defines
    exact ofImage_of_defined linked (fun place => (defines _ (mem_nameTable place)).1)
      fun place => (defines _ (mem_nameTable place)).2
  · intro image cause
    rw [ofImage_eq_error_iff]
    apply exists_congr
    intro entry
    constructor
    · rintro ⟨absent, isCause⟩
      exact ⟨absent, absent.early_eq, isCause⟩
    · rintro ⟨absent, -, isCause⟩
      exact ⟨absent, isCause⟩

/-- Early code sees the page table that it brings along, and the text of the image.
With a registry of no declarations the first name is missing. -/
theorem ofImage_of_link_swapperPgDir :
    let early : LinkUnit :=
      ⟨"pi.o", [⟨⟨"__pi_swapper_pg_dir"⟩, ⟨0x7000⟩, .named ".data", .weak⟩], []⟩
    let final : LinkUnit :=
      ⟨"vmlinux.o", nameTable.map fun entry =>
        ⟨entry.final, ⟨0x1000⟩, .named ".text", .strong⟩, [⟨"__pi__text"⟩]⟩
    (∃ image layout, (link [early, final] .imageVars).outcome = .ok image ∧
      ofImage image = .ok layout ∧ layout.address .swapperPgDir = ⟨0x7000⟩ ∧
      layout.address .text = ⟨0x1000⟩) ∧
    ∃ image, (link [early] (.empty : AliasRegistry 4)).outcome = .ok image ∧
      ofImage image = .error (.missing .initIdmapPgDir) := by
  intro early final
  constructor
  · obtain ⟨image, linked⟩ := (verdict_link [early, final]
      AliasRegistry.wellFormed_imageVars).exists_image (by decide) (by decide) (by decide)
    obtain ⟨layout, built, seen, -⟩ := (ofImage_of_link [early, final]).1 image linked
    have ofTable := seen _ (mem_nameTable .swapperPgDir)
    have ofText := seen _ (mem_nameTable .text)
    have tableAddress : seenAddress? [early, final] ⟨"__pi_swapper_pg_dir"⟩
        ⟨"swapper_pg_dir"⟩ = some ⟨0x7000⟩ := by
      decide
    have textAddress : seenAddress? [early, final] ⟨"__pi__text"⟩ ⟨"_text"⟩ =
        some ⟨0x1000⟩ := by
      decide
    exact ⟨image, layout, linked, built, Option.some.inj (ofTable.symm.trans tableAddress),
      Option.some.inj (ofText.symm.trans textAddress)⟩
  · have wellFormed : (AliasRegistry.empty : AliasRegistry 4).WellFormed :=
      AliasRegistry.wellFormed_empty
    obtain ⟨image, linked⟩ := (verdict_link [early] wellFormed).exists_image
      (by decide) (by decide) (by decide)
    have absent : image.find? ⟨"__pi_init_idmap_pg_dir"⟩ = none :=
      (applied_of_link wellFormed linked).find?_eq_none_iff.mpr (by decide)
    have isFirst : FirstAbsent image
        ⟨.initIdmapPgDir, ⟨"__pi_init_idmap_pg_dir"⟩, ⟨"init_idmap_pg_dir"⟩⟩ :=
      ⟨[], nameTable.tail, rfl, absent, by simp⟩
    refine ⟨image, linked, ?_⟩
    exact ((ofImage_of_link [early]).2 image _).mpr ⟨_, isFirst, rfl, rfl⟩

end Layout
end EarlyBoot
