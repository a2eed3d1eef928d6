import EarlyBoot.Proofs.Alias.WellFormed
import EarlyBoot.Proofs.Link.Competition

/-!
# What a link resolves and what it blames

A link goes through three phases: it settles the definitions, applies the
declarations, and looks up the references.  `Verdict` says what may come out of
them, with the first fault in the order of the phases, and `verdict_link` shows
that a link with a well-formed registry ends so.  What every name of an image
stands for, and which fault a failing link reports, are read off the verdict.
-/

namespace EarlyBoot
namespace Link

variable {capacity : Nat} {units : List LinkUnit} {declarations : List AliasDecl}

/-- Neither the alias nor the target of a declaration is defined. -/
def Unresolved (units : List LinkUnit) (declaration : AliasDecl) : Prop :=
  ¬ IsDefined units declaration.name ∧ ¬ IsDefined units declaration.target

/-- No unit defines the name, and it is no alias. -/
def Dangling (units : List LinkUnit) (declarations : List AliasDecl)
    (name : SymbolName) : Prop :=
  ¬ IsDefined units name ∧ ∀ declaration ∈ declarations, declaration.name ≠ name

instance (units : List LinkUnit) (declaration : AliasDecl) :
    Decidable (Unresolved units declaration) :=
  inferInstanceAs
    (Decidable (¬ IsDefined units declaration.name ∧ ¬ IsDefined units declaration.target))

instance (units : List LinkUnit) (declarations : List AliasDecl) (name : SymbolName) :
    Decidable (Dangling units declarations name) :=
  inferInstanceAs
    (Decidable (¬ IsDefined units name ∧
      ∀ declaration ∈ declarations, declaration.name ≠ name))

/-- The first declaration that is unresolved. -/
def FirstUnresolved (units : List LinkUnit) (declarations : List AliasDecl)
    (declaration : AliasDecl) : Prop :=
  ∃ before after, declarations = before ++ declaration :: after ∧
    Unresolved units declaration ∧ ∀ earlier ∈ before, ¬ Unresolved units earlier

/-- The first unit with a dangling reference, and its first one. -/
def FirstDangling (units : List LinkUnit) (declarations : List AliasDecl)
    (unit : LinkUnit) (name : SymbolName) : Prop :=
  (∃ before after, units = before ++ unit :: after ∧
    ∀ earlier ∈ before, ∀ other ∈ earlier.references,
      ¬ Dangling units declarations other) ∧
  ∃ before after, unit.references = before ++ name :: after ∧
    Dangling units declarations name ∧
    ∀ earlier ∈ before, ¬ Dangling units declarations earlier

/-- The symbol of a name once some declarations have been applied. -/
def resolution? (scanned : List Contribution) (applied : List AliasDecl)
    (name : SymbolName) : Option Symbol :=
  match inForce? scanned name with
  | some contribution => some contribution.toSymbol
  | none =>
      (applied.find? fun declaration => declaration.name = name).bind fun declaration =>
        (inForce? scanned declaration.target).map fun target =>
          provide declaration target.toSymbol

/-- What the image holds after some declarations have been applied. -/
structure Applied (units : List LinkUnit) (applied : List AliasDecl) (image : Image) :
    Prop where
  find?_eq : ∀ name, image.find? name = resolution? (allContributions units) applied name
  resolved : ∀ declaration ∈ applied, ¬ Unresolved units declaration

/-- How a link can end. -/
inductive Verdict (units : List LinkUnit) (declarations : List AliasDecl) :
    Except LinkError Image → Prop where
  | conflict {first second : Contribution} (conflict : FirstConflict units first second) :
      Verdict units declarations
        (.error (.multipleDefinition second.definition.name first.unit second.unit))
  | unresolved {declaration : AliasDecl} (noConflict : ¬ Conflicts units)
      (unresolved : FirstUnresolved units declarations declaration) :
      Verdict units declarations
        (.error (.unresolvedTarget declaration.name declaration.target))
  | dangling {unit : LinkUnit} {name : SymbolName} (noConflict : ¬ Conflicts units)
      (allResolved : ∀ declaration ∈ declarations, ¬ Unresolved units declaration)
      (dangling : FirstDangling units declarations unit name) :
      Verdict units declarations (.error (.undefinedReference name unit.name))
  | linked {image : Image} (noConflict : ¬ Conflicts units)
      (noneDangling : ∀ unit ∈ units, ∀ name ∈ unit.references,
        ¬ Dangling units declarations name)
      (applied : Applied units declarations image) :
      Verdict units declarations (.ok image)

section Aliases

variable {scanned : List Contribution} {applied : List AliasDecl}
  {declaration : AliasDecl} {image : Image}

theorem resolution?_of_no_alias {name : SymbolName}
    (noAlias : ∀ declaration ∈ applied, declaration.name ≠ name) :
    resolution? scanned applied name =
      (inForce? scanned name).map Contribution.toSymbol := by
  have notFound : applied.find? (fun declaration => declaration.name = name) = none := by
    simpa using noAlias
  unfold resolution?
  cases inForce? scanned name with
  | some contribution => rfl
  | none => simp [notFound]

theorem resolution?_append_of_ne {name : SymbolName} (differs : declaration.name ≠ name) :
    resolution? scanned (applied ++ [declaration]) name =
      resolution? scanned applied name := by
  simp [resolution?, differs]

/-- A defined name stands for its definition in force, whatever aliases are declared. -/
theorem Applied.find?_of_inForce? (before : Applied units applied image) {name : SymbolName}
    {contribution : Contribution}
    (inForce : inForce? (allContributions units) name = some contribution) :
    image.find? name = some contribution.toSymbol := by
  rw [before.find?_eq, resolution?, inForce]

/-- A name that is no alias stands for its definition in force, if it has one. -/
theorem Applied.find?_of_no_alias (before : Applied units applied image) {name : SymbolName}
    (noAlias : ∀ declaration ∈ applied, declaration.name ≠ name) :
    image.find? name = (inForce? (allContributions units) name).map Contribution.toSymbol := by
  rw [before.find?_eq, resolution?_of_no_alias noAlias]

/-- Says that an alias gives way to a definition. -/
def givesWayText (declaration : AliasDecl) (unit : String) (address : Address) : String :=
  declaration.name.text ++ " defined by '" ++ unit ++ "' at " ++ address.groupedText ++
    ", alias to " ++ declaration.target.text ++ " ignored"

/-- Says what an alias stands for. -/
def providesText (declaration : AliasDecl) (address : Address) (place : Section) : String :=
  "PROVIDE " ++ declaration.name.text ++ " = " ++ declaration.target.text ++ " (" ++
    address.groupedText ++ " in " ++ place.label ++ ")"

theorem applyAlias_of_defined {present : Symbol}
    (defined : image.find? declaration.name = some present) :
    applyAlias image declaration =
      ⟨[⟨.notice, givesWayText declaration (present.origin.unit?.getD "?") present.address⟩],
        .ok { image with overridden := image.overridden ++ [declaration.name] }⟩ := by
  simp only [applyAlias, defined]
  rfl

theorem applyAlias_of_unresolved (noAlias : image.find? declaration.name = none)
    (noTarget : image.find? declaration.target = none) :
    applyAlias image declaration =
      ⟨[], .error (.unresolvedTarget declaration.name declaration.target)⟩ := by
  simp only [applyAlias, noAlias, noTarget]
  rfl

theorem applyAlias_of_provided {target : Symbol}
    (noAlias : image.find? declaration.name = none)
    (found : image.find? declaration.target = some target) :
    applyAlias image declaration =
      ⟨[⟨.debug, providesText declaration target.address target.place⟩],
        .ok { image with symbols := image.symbols.insert (provide declaration target) }⟩ := by
  simp only [applyAlias, noAlias, found]
  rfl

theorem outcome_applyAlias_of_defined {present : Symbol}
    (defined : image.find? declaration.name = some present) :
    (applyAlias image declaration).outcome =
      .ok { image with overridden := image.overridden ++ [declaration.name] } :=
  congrArg Logged.outcome (applyAlias_of_defined defined)

theorem outcome_applyAlias_of_unresolved
    (noAlias : image.find? declaration.name = none)
    (noTarget : image.find? declaration.target = none) :
    (applyAlias image declaration).outcome =
      .error (.unresolvedTarget declaration.name declaration.target) :=
  congrArg Logged.outcome (applyAlias_of_unresolved noAlias noTarget)

theorem outcome_applyAlias_of_provided {target : Symbol}
    (noAlias : image.find? declaration.name = none)
    (found : image.find? declaration.target = some target) :
    (applyAlias image declaration).outcome =
      .ok { image with symbols := image.symbols.insert (provide declaration target) } :=
  congrArg Logged.outcome (applyAlias_of_provided noAlias found)

theorem Applied.ofContributions {table : NameTable Contribution}
    (settled : Settled (allContributions units) table) :
    Applied units [] (.ofContributions table) where
  find?_eq name := by
    rw [resolution?_of_no_alias (by simp), ← settled.find?_eq]
    exact NameTable.find?_map table _ Contribution.name_toSymbol name
  resolved := by simp

theorem Applied.resolved_append (before : Applied units applied image)
    (resolves : ¬ Unresolved units declaration) :
    ∀ earlier ∈ applied ++ [declaration], ¬ Unresolved units earlier := by
  intro earlier member
  rcases List.mem_append.mp member with old | new
  · exact before.resolved earlier old
  · rw [List.mem_singleton.mp new]
    exact resolves

/-- A declaration whose alias is defined changes no symbol. -/
theorem Applied.overridden (before : Applied units applied image)
    (defined : IsDefined units declaration.name) (overridden : List SymbolName) :
    Applied units (applied ++ [declaration]) { image with overridden } where
  find?_eq name := by
    change image.find? name = _
    rw [before.find?_eq]
    by_cases same : declaration.name = name
    · subst same
      obtain ⟨contribution, inForce⟩ := exists_inForce?_of_isDefined defined
      simp [resolution?, inForce]
    · rw [resolution?_append_of_ne same]
  resolved := before.resolved_append fun unresolved => unresolved.1 defined

/-- A declaration whose alias is not defined gives it what its target stands for. -/
theorem Applied.provided (before : Applied units applied image)
    (fresh : ∀ earlier ∈ applied, earlier.name ≠ declaration.name)
    (undefined : ¬ IsDefined units declaration.name) {target : Contribution}
    (inForce : inForce? (allContributions units) declaration.target = some target) :
    Applied units (applied ++ [declaration])
      { image with
        symbols := image.symbols.insert (provide declaration target.toSymbol) } where
  find?_eq name := by
    have lookup : (image.symbols.insert (provide declaration target.toSymbol)).find? name =
        if declaration.name = name then some (provide declaration target.toSymbol)
        else image.find? name :=
      NameTable.find?_insert ..
    refine lookup.trans ?_
    by_cases same : declaration.name = name
    · subst same
      have firstAlias : applied.find?
          (fun earlier => earlier.name = declaration.name) = none := by
        simpa using fresh
      simp [resolution?, not_isDefined_iff.mp undefined, firstAlias, inForce]
    · rw [if_neg same, before.find?_eq, resolution?_append_of_ne same]
  resolved := by
    apply before.resolved_append
    rintro ⟨-, noTarget⟩
    rw [not_isDefined_iff, inForce] at noTarget
    contradiction

/-- A declaration is the first unresolved one, and the cause says so. -/
def RefusesDeclaration (units : List LinkUnit) (applied : List AliasDecl)
    (declaration : AliasDecl) (cause : LinkError) : Prop :=
  Unresolved units declaration ∧ (∀ earlier ∈ applied, ¬ Unresolved units earlier) ∧
    cause = .unresolvedTarget declaration.name declaration.target

/-- One more declaration is applied, or it is the first unresolved one.  Its
target is no alias, so that the symbols provided so far cannot serve it. -/
theorem Applied.applyAlias_cases (before : Applied units applied image)
    (fresh : ∀ earlier ∈ applied, earlier.name ≠ declaration.name)
    (final : ∀ earlier ∈ applied, earlier.name ≠ declaration.target) :
    (∃ next, (applyAlias image declaration).outcome = .ok next ∧
        Applied units (applied ++ [declaration]) next) ∨
      ∃ cause, RefusesDeclaration units applied declaration cause ∧
        (applyAlias image declaration).outcome = .error cause := by
  have ofName := before.find?_of_no_alias fresh
  have ofTarget := before.find?_of_no_alias final
  cases named : inForce? (allContributions units) declaration.name with
  | some contribution =>
      left
      rw [named] at ofName
      have defined : IsDefined units declaration.name := by
        by_contra undefined
        rw [not_isDefined_iff, named] at undefined
        contradiction
      exact ⟨_, outcome_applyAlias_of_defined ofName, before.overridden defined _⟩
  | none =>
      rw [named] at ofName
      have undefined := not_isDefined_iff.mpr named
      cases inForce : inForce? (allContributions units) declaration.target with
      | some target =>
          left
          rw [inForce] at ofTarget
          exact ⟨_, outcome_applyAlias_of_provided ofName ofTarget,
            before.provided fresh undefined inForce⟩
      | none =>
          right
          rw [inForce] at ofTarget
          have unresolved : Unresolved units declaration :=
            ⟨undefined, not_isDefined_iff.mpr inForce⟩
          exact ⟨_, ⟨unresolved, before.resolved, rfl⟩,
            outcome_applyAlias_of_unresolved ofName ofTarget⟩

end Aliases

theorem Applied.find?_eq_none_iff {image : Image}
    (applied : Applied units declarations image) {name : SymbolName} :
    image.find? name = none ↔ Dangling units declarations name := by
  constructor
  · intro absent
    have undefined : inForce? (allContributions units) name = none := by
      cases found : inForce? (allContributions units) name with
      | none => rfl
      | some contribution =>
          rw [applied.find?_of_inForce? found] at absent
          contradiction
    refine ⟨not_isDefined_iff.mpr undefined, ?_⟩
    intro declaration member sameName
    have isSome : (declarations.find? fun other => other.name = name).isSome :=
      List.find?_isSome.mpr ⟨declaration, member, decide_eq_true sameName⟩
    obtain ⟨first, found⟩ := Option.isSome_iff_exists.mp isSome
    have firstName : first.name = name := by
      simpa using List.find?_some found
    rw [applied.find?_eq] at absent
    simp only [resolution?, undefined, found, Option.bind_some, Option.map_eq_none_iff]
      at absent
    apply applied.resolved first (List.mem_of_find?_eq_some found)
    rw [Unresolved, firstName]
    exact ⟨not_isDefined_iff.mpr undefined, not_isDefined_iff.mpr absent⟩
  · rintro ⟨undefined, noAlias⟩
    rw [applied.find?_of_no_alias noAlias, not_isDefined_iff.mp undefined]
    rfl

theorem firstUndefined?_eq_none_iff {image : Image}
    (applied : Applied units declarations image) :
    firstUndefined? units image = none ↔
      ∀ unit ∈ units, ∀ name ∈ unit.references, ¬ Dangling units declarations name := by
  simp [firstUndefined?, undefinedIn?, ← applied.find?_eq_none_iff]

theorem firstDangling_of_firstUndefined? {image : Image} {cause : LinkError}
    (applied : Applied units declarations image)
    (found : firstUndefined? units image = some cause) :
    ∃ unit name, FirstDangling units declarations unit name ∧
      cause = .undefinedReference name unit.name := by
  obtain ⟨before, unit, after, whole, inUnit, noneBefore⟩ :=
    List.findSome?_eq_some_iff.mp found
  obtain ⟨name, first, rfl⟩ := Option.map_eq_some_iff.mp inUnit
  obtain ⟨absent, earlier, later, references, present⟩ :=
    List.find?_eq_some_iff_append.mp first
  refine ⟨unit, name, ⟨⟨before, after, whole, ?_⟩, earlier, later, references, ?_, ?_⟩, rfl⟩
  · intro other member reference referenceMember
    have nothing := noneBefore other member
    rw [undefinedIn?, Option.map_eq_none_iff, List.find?_eq_none] at nothing
    rw [← applied.find?_eq_none_iff]
    simpa using nothing reference referenceMember
  · rw [← applied.find?_eq_none_iff]
    simpa using absent
  · intro reference member
    have found := present reference member
    rw [← applied.find?_eq_none_iff]
    intro absent
    simp [absent] at found

/-- All declarations are applied, or the first unresolved one is reported. -/
theorem applyAll_cases {registry : AliasRegistry capacity}
    (wellFormed : registry.WellFormed) {image : Image} (start : Applied units [] image) :
    (∃ last, (registry.declarations.foldlM applyAlias image).outcome = .ok last ∧
        Applied units registry.declarations last) ∨
      ∃ declaration, FirstUnresolved units registry.declarations declaration ∧
        (registry.declarations.foldlM applyAlias image).outcome =
          .error (.unresolvedTarget declaration.name declaration.target) := by
  have stepCases : ∀ earlier declaration later state,
      registry.declarations = earlier ++ declaration :: later →
        Applied units earlier state →
          (∃ next, (applyAlias state declaration).outcome = .ok next ∧
            Applied units (earlier ++ [declaration]) next) ∨
          ∃ cause, RefusesDeclaration units earlier declaration cause ∧
            (applyAlias state declaration).outcome = .error cause := by
    intro earlier declaration later state whole applied
    exact applied.applyAlias_cases (wellFormed.name_ne_of_before whole)
      (wellFormed.name_ne_target_of_before whole)
  rw [Logged.outcome_foldlM]
  rcases Outcome.foldlM_cases _ registry.declarations start stepCases with
    ⟨last, runs, applied⟩ | ⟨earlier, declaration, later, cause, whole, refused, fails⟩
  · exact Or.inl ⟨last, runs, applied⟩
  · obtain ⟨unresolved, earlierResolved, rfl⟩ := refused
    exact Or.inr ⟨declaration, ⟨earlier, later, whole, unresolved, earlierResolved⟩, fails⟩

/-- A link with a well-formed registry ends with one of the verdicts. -/
theorem verdict_link (units : List LinkUnit) {registry : AliasRegistry capacity}
    (wellFormed : registry.WellFormed) :
    Verdict units registry.declarations (link units registry).outcome := by
  unfold link
  rw [Logged.outcome_bind]
  rcases settleAll_cases units with ⟨table, settles, settled⟩ |
    ⟨first, second, conflict, fails⟩
  · rw [settles]
    change Verdict units _ (Logged.outcome (_ >>= _))
    rw [Logged.outcome_bind]
    have noConflict := settled.not_conflicts
    rcases applyAll_cases wellFormed (Applied.ofContributions settled) with
      ⟨image, applies, applied⟩ | ⟨declaration, unresolved, fails⟩
    · rw [applies]
      simp only [bind, Except.bind]
      cases missing : firstUndefined? units image with
      | none =>
          have noneDangling := (firstUndefined?_eq_none_iff applied).mp missing
          exact .linked noConflict noneDangling applied
      | some cause =>
          obtain ⟨unit, name, dangling, rfl⟩ :=
            firstDangling_of_firstUndefined? applied missing
          exact .dangling noConflict applied.resolved dangling
    · rw [fails]
      exact .unresolved noConflict unresolved
  · rw [fails]
    exact .conflict conflict

theorem applied_of_link {registry : AliasRegistry capacity}
    (wellFormed : registry.WellFormed) {image : Image}
    (linked : (link units registry).outcome = .ok image) :
    Applied units registry.declarations image := by
  have verdict := verdict_link units wellFormed
  rw [linked] at verdict
  cases verdict with
  | linked _ _ applied => exact applied

end Link
end EarlyBoot
