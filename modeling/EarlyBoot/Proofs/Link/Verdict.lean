import EarlyBoot.Proofs.Link.Resolution

/-!
# The outcome of a link

Two statements about every link with a registry that a program can hold: what
each name of the image stands for when there is an image, and which fault is
reported when there is none.
-/

namespace EarlyBoot
namespace Link

variable {capacity : Nat} {units : List LinkUnit} {declarations : List AliasDecl}

namespace Verdict

variable {outcome : Except LinkError Image}

theorem multipleDefinition_iff (verdict : Verdict units declarations outcome) :
    (∃ name first second, outcome = .error (.multipleDefinition name first second)) ↔
      Conflicts units := by
  constructor
  · rintro ⟨name, first, second, rfl⟩
    cases verdict with
    | conflict conflict => exact conflicts_of_firstConflict conflict
  · intro conflicts
    cases verdict with
    | conflict => exact ⟨_, _, _, rfl⟩
    | unresolved noConflict => exact absurd conflicts noConflict
    | dangling noConflict => exact absurd conflicts noConflict
    | linked noConflict => exact absurd conflicts noConflict

theorem noConflict {image : Image} (verdict : Verdict units declarations (.ok image)) :
    ¬ Conflicts units := by
  cases verdict with
  | linked noConflict => exact noConflict

theorem unresolvedTarget_iff (verdict : Verdict units declarations outcome)
    (noConflict : ¬ Conflicts units) :
    (∃ name target, outcome = .error (.unresolvedTarget name target)) ↔
      ∃ declaration ∈ declarations, Unresolved units declaration := by
  constructor
  · rintro ⟨name, target, rfl⟩
    cases verdict with
    | unresolved _ unresolved =>
        obtain ⟨before, after, rfl, isUnresolved, -⟩ := unresolved
        exact ⟨_, List.mem_append_right _ List.mem_cons_self, isUnresolved⟩
  · rintro ⟨declaration, member, isUnresolved⟩
    cases verdict with
    | conflict conflict => exact absurd (conflicts_of_firstConflict conflict) noConflict
    | unresolved => exact ⟨_, _, rfl⟩
    | dangling _ allResolved => exact absurd isUnresolved (allResolved declaration member)
    | linked _ _ applied => exact absurd isUnresolved (applied.resolved declaration member)

theorem undefinedReference_iff (verdict : Verdict units declarations outcome)
    (noConflict : ¬ Conflicts units)
    (allResolved : ∀ declaration ∈ declarations, ¬ Unresolved units declaration) :
    (∃ name unit, outcome = .error (.undefinedReference name unit)) ↔
      ∃ unit ∈ units, ∃ name ∈ unit.references, Dangling units declarations name := by
  constructor
  · rintro ⟨name, unitName, rfl⟩
    cases verdict with
    | dangling _ _ dangling =>
        obtain ⟨⟨before, after, rfl, -⟩, earlier, later, references, isDangling, -⟩ := dangling
        refine ⟨_, List.mem_append_right _ List.mem_cons_self, name, ?_, isDangling⟩
        rw [references]
        exact List.mem_append_right _ List.mem_cons_self
  · rintro ⟨unit, unitMember, name, member, isDangling⟩
    cases verdict with
    | conflict conflict => exact absurd (conflicts_of_firstConflict conflict) noConflict
    | unresolved _ unresolved =>
        obtain ⟨before, after, rfl, isUnresolved, -⟩ := unresolved
        exact absurd isUnresolved
          (allResolved _ (List.mem_append_right _ List.mem_cons_self))
    | dangling => exact ⟨_, _, rfl⟩
    | linked _ noneDangling => exact absurd isDangling (noneDangling unit unitMember name member)

theorem exists_image (verdict : Verdict units declarations outcome)
    (noConflict : ¬ Conflicts units)
    (allResolved : ∀ declaration ∈ declarations, ¬ Unresolved units declaration)
    (noneDangling : ∀ unit ∈ units, ∀ name ∈ unit.references,
      ¬ Dangling units declarations name) :
    ∃ image, outcome = .ok image := by
  have noConflictError := mt verdict.multipleDefinition_iff.mp noConflict
  have noTargetError := mt (verdict.unresolvedTarget_iff noConflict).mp
    (by simpa using allResolved)
  have noReferenceError := mt (verdict.undefinedReference_iff noConflict allResolved).mp
    (by simpa using noneDangling)
  rcases outcome with (cause | image)
  · cases cause with
    | multipleDefinition name first second => exact absurd ⟨_, _, _, rfl⟩ noConflictError
    | unresolvedTarget name target => exact absurd ⟨_, _, rfl⟩ noTargetError
    | undefinedReference name unit => exact absurd ⟨_, _, rfl⟩ noReferenceError
  · exact ⟨image, rfl⟩

end Verdict

theorem strong_or_first_weak {name : SymbolName} {contribution : Contribution}
    (noConflict : ¬ Conflicts units)
    (found : inForce? (allContributions units) name = some contribution) :
    definitionsOf (allContributions units) .strong name = [contribution] ∨
      definitionsOf (allContributions units) .strong name = [] ∧
        (definitionsOf (allContributions units) .weak name).head? = some contribution := by
  rcases inForce?_eq_some_iff.mp found with isHead | firstWeak
  · left
    obtain ⟨rest, whole⟩ := List.head?_eq_some_iff.mp isHead
    have atMostOne : ¬ 2 ≤ (definitionsOf (allContributions units) .strong name).length :=
      fun two => noConflict ⟨name, two⟩
    have noMore : rest = [] := by
      rw [whole, List.length_cons] at atMostOne
      exact List.eq_nil_of_length_eq_zero (by omega)
    rw [whole, noMore]
  · exact Or.inr firstWeak

theorem Applied.find?_of_declared {registry : AliasRegistry capacity}
    (wellFormed : registry.WellFormed) {image : Image}
    (applied : Applied units registry.declarations image) {declaration : AliasDecl}
    (member : declaration ∈ registry.declarations)
    (undefined : ¬ IsDefined units declaration.name) :
    ∃ target, inForce? (allContributions units) declaration.target = some target ∧
      image.find? declaration.target = some target.toSymbol ∧
      image.find? declaration.name = some (provide declaration target.toSymbol) := by
  have defined : IsDefined units declaration.target := by
    by_contra notDefined
    exact applied.resolved declaration member ⟨undefined, notDefined⟩
  obtain ⟨target, inForce⟩ := exists_inForce?_of_isDefined defined
  have lookup : registry.lookup? declaration.name = some declaration :=
    wellFormed.lookup?_eq_some member
  refine ⟨target, inForce, applied.find?_of_inForce? inForce, ?_⟩
  rw [applied.find?_eq]
  unfold AliasRegistry.lookup? at lookup
  simp [resolution?, not_isDefined_iff.mp undefined, lookup, inForce]

/-- In a linked image a defined name stands for its strong definition, or for its
first weak one if it has no strong one.  An alias that is not defined shares
address and section with its target, which is defined.  No other name stands for
anything. -/
theorem find?_of_link {registry : AliasRegistry capacity} (reachable : registry.Reachable)
    {image : Image} (linked : (link units registry).outcome = .ok image)
    (name : SymbolName) :
    (IsDefined units name → ∃ contribution,
      (definitionsOf (allContributions units) .strong name = [contribution] ∨
        definitionsOf (allContributions units) .strong name = [] ∧
          (definitionsOf (allContributions units) .weak name).head? = some contribution) ∧
      image.find? name = some
        { name
          address := contribution.definition.address
          place := contribution.definition.place
          origin := .explicit contribution.unit }) ∧
    (¬ IsDefined units name → ∀ declaration ∈ registry.declarations,
      declaration.name = name → ∃ target unit,
        image.find? declaration.target = some target ∧
        target.origin = .explicit unit ∧
        image.find? name = some
          { name
            address := target.address
            place := target.place
            origin := .provided declaration.target }) ∧
    (¬ IsDefined units name →
      (∀ declaration ∈ registry.declarations, declaration.name ≠ name) →
        image.find? name = none) := by
  have wellFormed := reachable.wellFormed
  have verdict := verdict_link units wellFormed
  rw [linked] at verdict
  cases verdict with
  | linked noConflict _ applied =>
      refine ⟨?_, ?_, ?_⟩
      · intro defined
        obtain ⟨contribution, inForce⟩ := exists_inForce?_of_isDefined defined
        refine ⟨contribution, strong_or_first_weak noConflict inForce, ?_⟩
        obtain ⟨-, rfl⟩ := mem_of_inForce? inForce
        simp [applied.find?_eq, resolution?, inForce, Contribution.toSymbol]
      · rintro undefined declaration member rfl
        obtain ⟨target, -, ofTarget, ofName⟩ :=
          applied.find?_of_declared wellFormed member undefined
        exact ⟨target.toSymbol, target.unit, ofTarget, rfl, ofName⟩
      · intro undefined noAlias
        exact applied.find?_eq_none_iff.mpr ⟨undefined, noAlias⟩

theorem find?_of_link_weak_strong_alias :
    let weak : LinkUnit :=
      ⟨"weak.o", [⟨⟨"_text"⟩, ⟨0x1000⟩, .named ".text", .weak⟩], []⟩
    let strong : LinkUnit :=
      ⟨"head.o", [⟨⟨"_text"⟩, ⟨0x2000⟩, .named ".head.text", .strong⟩], [⟨"__pi__text"⟩]⟩
    let registry : AliasRegistry 1 := ⟨[⟨⟨"__pi__text"⟩, ⟨"_text"⟩⟩]⟩
    registry.Reachable ∧
      ∃ image, (link [weak, strong] registry).outcome = .ok image ∧
        image.find? ⟨"__pi__text"⟩ =
          some ⟨⟨"__pi__text"⟩, ⟨0x2000⟩, .named ".head.text", .provided ⟨"_text"⟩⟩ := by
  intro weak strong registry
  have accepted : AliasRegistry.empty.declare ⟨"__pi__text"⟩ ⟨"_text"⟩ = .ok registry := rfl
  have reachable : registry.Reachable := .declare .empty accepted
  obtain ⟨image, linked⟩ := (verdict_link [weak, strong] reachable.wellFormed).exists_image
    (by decide) (by decide) (by decide)
  have ofTarget := find?_of_link reachable linked ⟨"_text"⟩
  have ofAlias := find?_of_link reachable linked ⟨"__pi__text"⟩
  obtain ⟨contribution, inForce, defined⟩ := ofTarget.1 (by decide)
  obtain ⟨target, unit, found, -, provided⟩ :=
    ofAlias.2.1 (by decide) ⟨⟨"__pi__text"⟩, ⟨"_text"⟩⟩ List.mem_cons_self rfl
  have isStrong : definitionsOf (allContributions [weak, strong]) .strong ⟨"_text"⟩ =
      [⟨"head.o", ⟨⟨"_text"⟩, ⟨0x2000⟩, .named ".head.text", .strong⟩⟩] := by
    decide
  rw [isStrong] at inForce
  obtain rfl : ⟨"head.o", ⟨⟨"_text"⟩, ⟨0x2000⟩, .named ".head.text", .strong⟩⟩ =
      contribution := by
    simpa using inForce
  rw [defined] at found
  obtain rfl := Option.some.inj found
  exact ⟨reachable, image, linked, provided⟩

/-- A link reports a second strong definition if there is one, else an unresolved
declaration if there is one, else a dangling reference if there is one, and it
reports the first of its kind.  Otherwise there is an image. -/
theorem outcome_link (units : List LinkUnit) {registry : AliasRegistry capacity}
    (reachable : registry.Reachable) :
    ((∃ name first second, (link units registry).outcome =
        .error (.multipleDefinition name first second)) ↔ Conflicts units) ∧
    (∀ name first second, (link units registry).outcome =
        .error (.multipleDefinition name first second) →
      ∃ before after, FirstConflict units before after ∧
        name = after.definition.name ∧ first = before.unit ∧ second = after.unit) ∧
    (¬ Conflicts units →
      ((∃ name target, (link units registry).outcome =
          .error (.unresolvedTarget name target)) ↔
        ∃ declaration ∈ registry.declarations, Unresolved units declaration)) ∧
    (∀ name target, (link units registry).outcome =
        .error (.unresolvedTarget name target) →
      FirstUnresolved units registry.declarations ⟨name, target⟩) ∧
    (¬ Conflicts units →
      (∀ declaration ∈ registry.declarations, ¬ Unresolved units declaration) →
      ((∃ name unit, (link units registry).outcome =
          .error (.undefinedReference name unit)) ↔
        ∃ unit ∈ units, ∃ name ∈ unit.references,
          Dangling units registry.declarations name)) ∧
    (∀ name unitName, (link units registry).outcome =
        .error (.undefinedReference name unitName) →
      ∃ unit, FirstDangling units registry.declarations unit name ∧
        unitName = unit.name) ∧
    (¬ Conflicts units →
      (∀ declaration ∈ registry.declarations, ¬ Unresolved units declaration) →
      (∀ unit ∈ units, ∀ name ∈ unit.references,
        ¬ Dangling units registry.declarations name) →
      ∃ image, (link units registry).outcome = .ok image) := by
  have verdict := verdict_link units reachable.wellFormed
  refine ⟨verdict.multipleDefinition_iff, ?_, verdict.unresolvedTarget_iff, ?_,
    verdict.undefinedReference_iff, ?_, verdict.exists_image⟩
  · intro name first second fails
    rw [fails] at verdict
    cases verdict with
    | conflict conflict => exact ⟨_, _, conflict, rfl, rfl, rfl⟩
  · intro name target fails
    rw [fails] at verdict
    cases verdict with
    | unresolved _ unresolved => exact unresolved
  · intro name unitName fails
    rw [fails] at verdict
    cases verdict with
    | dangling _ _ dangling => exact ⟨_, dangling, rfl⟩

theorem outcome_link_two_strong :
    let weak : LinkUnit :=
      ⟨"weak.o", [⟨⟨"_text"⟩, ⟨0x1000⟩, .named ".text", .weak⟩], []⟩
    let strong (name : String) : LinkUnit :=
      ⟨name, [⟨⟨"_text"⟩, ⟨0x2000⟩, .named ".text", .strong⟩], []⟩
    AliasRegistry.imageVars.Reachable ∧
      (link [weak, strong "head.o", strong "vmlinux.o"] .imageVars).outcome =
        .error (.multipleDefinition ⟨"_text"⟩ "head.o" "vmlinux.o") := by
  intro weak strong
  have faults := outcome_link [weak, strong "head.o", strong "vmlinux.o"] .imageVars
  obtain ⟨name, first, second, fails⟩ := faults.1.mpr (by decide)
  obtain ⟨before, after, ⟨scanned, later, whole, isStrong, onlyOne, -⟩, rfl, rfl, rfl⟩ :=
    faults.2.1 name first second fails
  refine ⟨.imageVars, fails.trans ?_⟩
  simp only [allContributions, List.flatMap_cons, List.flatMap_nil, LinkUnit.contributions,
    List.map_cons, List.map_nil, List.append_nil, List.cons_append, List.nil_append, weak,
    strong] at whole
  clear faults
  -- The definition at fault is the third one: no strong one stands before the second.
  rcases scanned with _ | ⟨firstScanned, _ | ⟨secondScanned, _ | ⟨thirdScanned, scanned⟩⟩⟩
  · simp [definitionsOf] at onlyOne
  · simp only [List.cons_append, List.nil_append, List.cons.injEq] at whole
    obtain ⟨rfl, rfl, -⟩ := whole
    simp [definitionsOf] at onlyOne
  · simp only [List.cons_append, List.nil_append, List.cons.injEq] at whole
    obtain ⟨rfl, rfl, rfl, -⟩ := whole
    simp only [definitionsOf] at onlyOne
    obtain rfl : _ = before := by simpa using onlyOne
    rfl
  · simp at whole

end Link
end EarlyBoot
