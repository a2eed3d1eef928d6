import EarlyBoot.Proofs.Link.Reordering
import Mathlib.Data.List.Induction

/-!
# The order of units in an image

A name keeps the place in the table at which it was first defined.  A strong definition of
a later unit takes over the place of a weak one, so that the symbols of an image follow the
units that define their names first, and not the units whose definitions are in force.  The
two orders part where a name that was taken over stands in front of a name that an earlier
unit has kept.
-/

namespace EarlyBoot

namespace LinkUnit

/-- Whether a unit defines a name. -/
def defines (unit : LinkUnit) (name : SymbolName) : Bool :=
  unit.definitions.any fun definition => definition.name = name

/-- Whether a unit has a strong definition of a name. -/
def definesStrongly (unit : LinkUnit) (name : SymbolName) : Bool :=
  unit.definitions.any fun definition =>
    definition.strength = .strong ∧ definition.name = name

end LinkUnit

namespace Link

variable {capacity : Nat} {units : List LinkUnit} {declarations : List AliasDecl}
  {image : Image} {name : SymbolName}

/-- The place of the first unit that defines a name. -/
def firstPlace (units : List LinkUnit) (name : SymbolName) : Nat :=
  units.findIdx fun unit => unit.defines name

/-- The place of the unit whose definition of a name is in force: the first one with a
strong definition, or else the first one that defines the name. -/
def ownerPlace (units : List LinkUnit) (name : SymbolName) : Nat :=
  if units.any fun unit => unit.definesStrongly name then
    units.findIdx fun unit => unit.definesStrongly name
  else
    firstPlace units name

/-- The names of all definitions, in scan order. -/
def scannedNames (units : List LinkUnit) : List SymbolName :=
  (allContributions units).map fun contribution => contribution.definition.name

/-- The symbols that units define stand in the order of the units whose definitions they
are. -/
def InUnitOrder (units : List LinkUnit) (image : Image) : Prop :=
  (image.explicit.map fun symbol => ownerPlace units symbol.name).Pairwise (· ≤ ·)

section Owners

variable {unit : LinkUnit} {strength : Strength} {contribution : Contribution}

theorem defines_iff :
    unit.defines name = true ↔
      ∃ contribution ∈ unit.contributions, contribution.definition.name = name := by
  simp [LinkUnit.defines, LinkUnit.contributions]

theorem definesStrongly_iff :
    unit.definesStrongly name = true ↔
      definitionsOf unit.contributions .strong name ≠ [] := by
  simp [LinkUnit.definesStrongly, LinkUnit.contributions, definitionsOf]

theorem defines_of_definesStrongly (strongly : unit.definesStrongly name = true) :
    unit.defines name = true := by
  obtain ⟨contribution, listed⟩ := List.exists_mem_of_ne_nil _ (definesStrongly_iff.mp strongly)
  obtain ⟨member, -, sameName⟩ := mem_definitionsOf.mp listed
  exact defines_iff.mpr ⟨contribution, member, sameName⟩

/-- A unit without a strong definition of a name can only define it weakly. -/
theorem defines_iff_of_no_strong
    (noStrong : definitionsOf unit.contributions .strong name = []) :
    unit.defines name = true ↔ definitionsOf unit.contributions .weak name ≠ [] := by
  constructor
  · intro defined
    obtain ⟨contribution, member, sameName⟩ := defines_iff.mp defined
    cases strength : contribution.definition.strength with
    | weak => exact List.ne_nil_of_mem (mem_definitionsOf.mpr ⟨member, strength, sameName⟩)
    | strong =>
        have listed := mem_definitionsOf.mpr ⟨member, strength, sameName⟩
        rw [noStrong] at listed
        contradiction
  · intro hasWeak
    obtain ⟨contribution, listed⟩ := List.exists_mem_of_ne_nil _ hasWeak
    obtain ⟨member, -, sameName⟩ := mem_definitionsOf.mp listed
    exact defines_iff.mpr ⟨contribution, member, sameName⟩

theorem definitionsOf_allContributions (units : List LinkUnit) (strength : Strength)
    (name : SymbolName) :
    definitionsOf (allContributions units) strength name =
      units.flatMap fun unit => definitionsOf unit.contributions strength name :=
  List.filter_flatMap

theorem firstPlace_le_ownerPlace (units : List LinkUnit) (name : SymbolName) :
    firstPlace units name ≤ ownerPlace units name := by
  unfold ownerPlace
  split
  · exact List.findIdx_le_findIdx fun unit _ => defines_of_definesStrongly
  · exact Nat.le_refl _

/-- The first definition of some strength comes from the first unit that has one. -/
theorem exists_unit_of_head? {accepts : LinkUnit → Bool}
    (hasOne : ∀ unit ∈ units,
      accepts unit = true ↔ definitionsOf unit.contributions strength name ≠ [])
    (isHead : (definitionsOf (allContributions units) strength name).head? = some contribution) :
    ∃ unit, units[units.findIdx accepts]? = some unit ∧
      contribution ∈ definitionsOf unit.contributions strength name := by
  rw [definitionsOf_allContributions] at isHead
  induction units with
  | nil => contradiction
  | cons unit units ih =>
      rw [List.forall_mem_cons] at hasOne
      rw [List.flatMap_cons] at isHead
      by_cases accepted : accepts unit = true
      · obtain ⟨first, rest, isCons⟩ := List.exists_cons_of_ne_nil (hasOne.1.mp accepted)
        rw [isCons, List.cons_append, List.head?_cons, Option.some.injEq] at isHead
        refine ⟨unit, by simp [List.findIdx_cons, accepted], ?_⟩
        rw [isCons, isHead]
        exact List.mem_cons_self
      · have noneHere : definitionsOf unit.contributions strength name = [] :=
          not_not.mp (mt hasOne.1.mpr accepted)
        rw [noneHere, List.nil_append] at isHead
        obtain ⟨owner, atPlace, listed⟩ := ih hasOne.2 isHead
        exact ⟨owner, by simpa [List.findIdx_cons, accepted] using atPlace, listed⟩

/-- The definition of a name that is in force comes from the unit at the owner's place. -/
theorem exists_owner_of_inForce?
    (inForce : inForce? (allContributions units) name = some contribution) :
    ∃ unit, units[ownerPlace units name]? = some unit ∧ contribution ∈ unit.contributions := by
  unfold ownerPlace
  rcases inForce?_eq_some_iff.mp inForce with isHead | ⟨noStrong, isHead⟩
  · obtain ⟨unit, atPlace, listed⟩ :=
      exists_unit_of_head? (fun _ _ => definesStrongly_iff) isHead
    have strongly : unit.definesStrongly name = true :=
      definesStrongly_iff.mpr (List.ne_nil_of_mem listed)
    rw [if_pos (List.any_eq_true.mpr ⟨unit, List.mem_of_getElem? atPlace, strongly⟩)]
    exact ⟨unit, atPlace, (mem_definitionsOf.mp listed).1⟩
  · rw [definitionsOf_allContributions, List.flatMap_eq_nil_iff] at noStrong
    have noneStrongly : ¬ (units.any fun unit => unit.definesStrongly name) = true := by
      rw [List.any_eq_true]
      rintro ⟨unit, member, strongly⟩
      exact definesStrongly_iff.mp strongly (noStrong unit member)
    obtain ⟨unit, atPlace, listed⟩ :=
      exists_unit_of_head? (fun unit member => defines_iff_of_no_strong (noStrong unit member))
        isHead
    rw [if_neg noneStrongly]
    exact ⟨unit, atPlace, (mem_definitionsOf.mp listed).1⟩

end Owners

section Order

/-- The elements of a list without repetitions keep an order that holds between whatever
stands in front of the first occurrence of an element and that element. -/
theorem pairwise_eraseDups {names : List SymbolName} {order : SymbolName → SymbolName → Prop}
    (ordered : ∀ before name after, names = before ++ name :: after → name ∉ before →
      ∀ earlier ∈ before, order earlier name) : names.eraseDups.Pairwise order := by
  induction names using List.reverseRecOn with
  | nil => exact List.Pairwise.nil
  | append_singleton names last ih =>
      have shorter : names.eraseDups.Pairwise order := by
        apply ih
        intro before name after whole
        apply ordered before name (after ++ [last])
        rw [whole, List.append_assoc, List.cons_append]
      rw [List.eraseDups_append]
      by_cases known : last ∈ names
      · simpa [List.removeAll, known] using shorter
      · have lastAlone : ([last].removeAll names).eraseDups = [last] := by
          simp [List.removeAll, known, List.eraseDups_cons]
        rw [lastAlone, List.pairwise_append]
        refine ⟨shorter, List.pairwise_singleton _ _, ?_⟩
        intro earlier member other isLast
        rw [List.mem_singleton.mp isLast]
        exact ordered names last [] rfl known earlier (List.mem_eraseDups.mp member)

theorem scannedNames_append (first second : List LinkUnit) :
    scannedNames (first ++ second) = scannedNames first ++ scannedNames second := by
  rw [scannedNames, allContributions, List.flatMap_append, List.map_append]
  rfl

theorem mem_scannedNames_iff :
    name ∈ scannedNames units ↔ ∃ unit ∈ units, unit.defines name = true := by
  simp only [scannedNames, allContributions, List.mem_map, List.mem_flatMap, defines_iff]
  constructor
  · rintro ⟨contribution, ⟨unit, member, inUnit⟩, sameName⟩
    exact ⟨unit, member, contribution, inUnit, sameName⟩
  · rintro ⟨unit, member, contribution, inUnit, sameName⟩
    exact ⟨contribution, ⟨unit, member, inUnit⟩, sameName⟩

theorem mem_scannedNames_take_iff {count : Nat} (inUnits : count ≤ units.length) :
    name ∈ scannedNames (units.take count) ↔ firstPlace units name < count := by
  have inTake : (∃ unit ∈ units.take count, unit.defines name = true) ↔
      (units.take count).findIdx (fun unit => unit.defines name) < (units.take count).length :=
    List.findIdx_lt_length.symm
  rw [mem_scannedNames_iff, inTake, List.findIdx_take, List.length_take, firstPlace]
  omega

/-- The defined names follow the units that define them first. -/
theorem pairwise_firstPlace_definedNames (units : List LinkUnit) :
    (definedNames units).Pairwise fun first second =>
      firstPlace units first ≤ firstPlace units second := by
  apply pairwise_eraseDups
  intro before name after whole new earlier member
  by_contra notAfter
  -- The units up to the first one that defines the name make up the front of the scan, and
  -- none of them defines the earlier name.
  have inUnits : firstPlace units name + 1 ≤ units.length :=
    Nat.lt_of_lt_of_le (Nat.lt_of_not_le notAfter) List.findIdx_le_length
  have nameInFront : name ∈ scannedNames (units.take (firstPlace units name + 1)) :=
    (mem_scannedNames_take_iff inUnits).mpr (Nat.lt_succ_self _)
  have earlierNotInFront : earlier ∉ scannedNames (units.take (firstPlace units name + 1)) := by
    rw [mem_scannedNames_take_iff inUnits]
    omega
  have split : scannedNames (units.take (firstPlace units name + 1)) ++
      scannedNames (units.drop (firstPlace units name + 1)) = before ++ name :: after := by
    rw [← scannedNames_append, List.take_append_drop]
    exact whole
  rcases List.append_eq_append_iff.mp split with ⟨between, isBefore, -⟩ | ⟨between, isFront, -⟩
  · rw [isBefore] at new
    exact new (List.mem_append_left _ nameInFront)
  · rw [isFront] at earlierNotInFront
    exact earlierNotInFront (List.mem_append_left _ member)

/-- An order that is not after the order of the first definitions can only fail behind a
name that was taken over. -/
theorem pairwise_ownerPlace_iff (units : List LinkUnit) :
    ((definedNames units).Pairwise fun first second =>
      ownerPlace units first ≤ ownerPlace units second) ↔
    (definedNames units).Pairwise fun first second =>
      firstPlace units first < ownerPlace units first →
        ownerPlace units first ≤ ownerPlace units second := by
  constructor
  · intro ordered
    refine ordered.imp ?_
    intro first second inOrder _
    exact inOrder
  · intro ordered
    refine (ordered.and (pairwise_firstPlace_definedNames units)).imp ?_
    intro first second ⟨takenOver, firstOrdered⟩
    by_cases later : firstPlace units first < ownerPlace units first
    · exact takenOver later
    · have ownerSecond := firstPlace_le_ownerPlace units second
      omega

end Order

section Images

variable {registry : AliasRegistry capacity}

theorem Listed.pairwise_explicit_iff (listed : Listed units declarations image)
    (place : SymbolName → Nat) :
    (image.explicit.map fun symbol => place symbol.name).Pairwise (· ≤ ·) ↔
      (definedNames units).Pairwise fun first second => place first ≤ place second := by
  obtain ⟨-, names, -⟩ := listed.parts
  rw [← names, List.pairwise_map, List.pairwise_map]

/-- A symbol that units define is made by the unit at the owner's place. -/
theorem Applied.exists_owner (applied : Applied units declarations image)
    (listed : Listed units declarations image) {symbol : Symbol}
    (member : symbol ∈ image.explicit) :
    ∃ unit, units[ownerPlace units symbol.name]? = some unit ∧
      symbol ∈ unit.contributions.map Contribution.toSymbol := by
  obtain ⟨-, names, -⟩ := listed.parts
  have defined : IsDefined units symbol.name := by
    rw [← mem_definedNames, ← names]
    exact List.mem_map_of_mem member
  obtain ⟨contribution, inForce⟩ := exists_inForce?_of_isDefined defined
  have found : image.find? symbol.name = some symbol :=
    NameTable.find?_eq_some_iff.mpr ⟨List.mem_of_mem_filter member, rfl⟩
  rw [applied.find?_of_inForce? inForce, Option.some.injEq] at found
  obtain ⟨unit, atPlace, inUnit⟩ := exists_owner_of_inForce? inForce
  exact ⟨unit, atPlace, List.mem_map.mpr ⟨contribution, inUnit, found⟩⟩

/-- An image lists the symbols that units define before those that it provides, and in the
order of the units that define their names first.  Each is made by the unit whose definition
of its name is in force.  The symbols are in the order of those units too, unless a name that
a later unit took over stands in front of a name that a unit before that one has. -/
theorem unitOrder_of_link (reachable : registry.Reachable)
    (linked : (link units registry).outcome = .ok image) :
    image.toList = image.explicit ++ image.provided ∧
    (image.explicit.map fun symbol => firstPlace units symbol.name).Pairwise (· ≤ ·) ∧
    (∀ symbol ∈ image.explicit, ∃ unit, units[ownerPlace units symbol.name]? = some unit ∧
      symbol ∈ unit.contributions.map Contribution.toSymbol) ∧
    (InUnitOrder units image ↔
      (definedNames units).Pairwise fun first second =>
        firstPlace units first < ownerPlace units first →
          ownerPlace units first ≤ ownerPlace units second) := by
  have listed := Listed.of_link reachable.wellFormed linked
  have applied := applied_of_link reachable.wellFormed linked
  obtain ⟨whole, -, -⟩ := listed.parts
  refine ⟨whole, ?_, ?_, ?_⟩
  · rw [listed.pairwise_explicit_iff (firstPlace units)]
    exact pairwise_firstPlace_definedNames units
  · intro symbol member
    exact applied.exists_owner listed member
  · rw [InUnitOrder, listed.pairwise_explicit_iff (ownerPlace units)]
    exact pairwise_ownerPlace_iff units

/-- The last name of a unit may be taken over by the next unit without a change of the
order. -/
theorem unitOrder_of_link_last_name :
    let head : LinkUnit :=
      ⟨"head.o", [⟨⟨"_text"⟩, ⟨0x1000⟩, .named ".head.text", .strong⟩,
        ⟨⟨"arch_hook"⟩, ⟨0x2000⟩, .named ".text", .weak⟩], []⟩
    let arch : LinkUnit :=
      ⟨"arch.o", [⟨⟨"arch_hook"⟩, ⟨0x3000⟩, .named ".text", .strong⟩,
        ⟨⟨"_end"⟩, ⟨0x9000⟩, .absolute, .strong⟩], []⟩
    let registry : AliasRegistry 1 := ⟨[⟨⟨"__pi__text"⟩, ⟨"_text"⟩⟩]⟩
    registry.Reachable ∧
      ∃ image, (link [head, arch] registry).outcome = .ok image ∧
        firstPlace [head, arch] ⟨"arch_hook"⟩ = 0 ∧
        ownerPlace [head, arch] ⟨"arch_hook"⟩ = 1 ∧
        InUnitOrder [head, arch] image := by
  intro head arch registry
  have accepted : AliasRegistry.empty.declare ⟨"__pi__text"⟩ ⟨"_text"⟩ = .ok registry := rfl
  have reachable : registry.Reachable := .declare .empty accepted
  obtain ⟨image, linked⟩ := (verdict_link [head, arch] reachable.wellFormed).exists_image
    (by decide) (by decide) (by decide)
  obtain ⟨-, -, -, inOrder⟩ := unitOrder_of_link reachable linked
  exact ⟨reachable, image, linked, by decide, by decide, inOrder.mpr (by decide)⟩

/-- A strong definition of the second unit stands in front of a symbol of the first unit,
in the place of the weak definition that it took over. -/
theorem not_inUnitOrder_taken_over :
    let weak : LinkUnit :=
      ⟨"a.o", [⟨⟨"f"⟩, ⟨0x1000⟩, .named ".text", .weak⟩,
        ⟨⟨"g"⟩, ⟨0x2000⟩, .named ".text", .strong⟩], []⟩
    let strong : LinkUnit := ⟨"b.o", [⟨⟨"f"⟩, ⟨0x3000⟩, .named ".text", .strong⟩], []⟩
    ∃ image, (link [weak, strong] (.empty : AliasRegistry 0)).outcome = .ok image ∧
      image.explicit.map (fun symbol => (symbol.name, symbol.origin)) =
        [(⟨"f"⟩, .explicit "b.o"), (⟨"g"⟩, .explicit "a.o")] ∧
      ¬ InUnitOrder [weak, strong] image := by
  intro weak strong
  have reachable : (.empty : AliasRegistry 0).Reachable := .empty
  obtain ⟨image, linked⟩ := (verdict_link [weak, strong] reachable.wellFormed).exists_image
    (by decide) (by decide) (by decide)
  have listed := Listed.of_link reachable.wellFormed linked
  have sameLookup := funext (applied_of_link reachable.wellFormed linked).find?_eq
  refine ⟨image, linked, ?_, ?_⟩
  · rw [listed.explicit_eq, sameLookup]
    decide
  · rw [InUnitOrder, listed.pairwise_explicit_iff (ownerPlace [weak, strong])]
    decide

end Images

end Link
end EarlyBoot
