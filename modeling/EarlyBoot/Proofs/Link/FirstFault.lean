import EarlyBoot.Proofs.Link.Verdict

/-!
# The first fault

A link reports the first fault of its kind, and there is only one first fault.  Which
kind it is depends on three questions alone: whether two strong definitions conflict,
whether a declaration is unresolved, and whether a reference dangles.  Two links for
which they have the same answers end alike.
-/

namespace EarlyBoot

namespace LinkError

inductive Kind where
  | unresolvedTarget
  | multipleDefinition
  | undefinedReference
  deriving DecidableEq, Repr

def kind : LinkError → Kind
  | .unresolvedTarget _ _ => .unresolvedTarget
  | .multipleDefinition _ _ _ => .multipleDefinition
  | .undefinedReference _ _ => .undefinedReference

end LinkError

namespace Link

variable {units others : List LinkUnit} {declarations otherDeclarations : List AliasDecl}

section Uniqueness

variable {α : Type} {before before' after after' : List α} {element element' : α}

/-- A list is split in only one way in front of its first element with a property.
The property may depend on the elements before. -/
theorem split_unique (stops : List α → α → Prop)
    (whole : before ++ element :: after = before' ++ element' :: after')
    (stopsAt : stops before element) (stopsAt' : stops before' element')
    (noneEarlier : ∀ earlier other later, before = earlier ++ other :: later →
      ¬ stops earlier other)
    (noneEarlier' : ∀ earlier other later, before' = earlier ++ other :: later →
      ¬ stops earlier other) :
    before = before' ∧ element = element' := by
  rcases List.append_eq_append_iff.mp whole with ⟨between, longer, rest⟩ |
    ⟨between, longer, rest⟩
  · cases between with
    | nil =>
        obtain ⟨sameElement, -⟩ := List.cons_eq_cons.mp rest
        exact ⟨by simpa using longer.symm, sameElement⟩
    | cons other between =>
        obtain ⟨rfl, -⟩ := List.cons_eq_cons.mp rest
        exact absurd stopsAt (noneEarlier' _ _ _ longer)
  · cases between with
    | nil =>
        obtain ⟨sameElement, -⟩ := List.cons_eq_cons.mp rest
        exact ⟨by simpa using longer, sameElement.symm⟩
    | cons other between =>
        obtain ⟨rfl, -⟩ := List.cons_eq_cons.mp rest
        exact absurd stopsAt' (noneEarlier _ _ _ longer)

theorem split_unique_of_forall (stops : α → Prop)
    (whole : before ++ element :: after = before' ++ element' :: after')
    (stopsAt : stops element) (stopsAt' : stops element')
    (noneEarlier : ∀ earlier ∈ before, ¬ stops earlier)
    (noneEarlier' : ∀ earlier ∈ before', ¬ stops earlier) : element = element' := by
  refine (split_unique (fun _ => stops) whole stopsAt stopsAt' ?_ ?_).2
  · rintro earlier other later rfl
    exact noneEarlier other (List.mem_append_right _ List.mem_cons_self)
  · rintro earlier other later rfl
    exact noneEarlier' other (List.mem_append_right _ List.mem_cons_self)

end Uniqueness

/-- Where no name has had two strong definitions, none had one before another. -/
theorem not_strong_before {scanned earlier later : List Contribution}
    {contribution : Contribution}
    (noEarlier : ∀ name, (definitionsOf scanned .strong name).length ≤ 1)
    (whole : scanned = earlier ++ contribution :: later) :
    ¬ (contribution.definition.strength = .strong ∧
      definitionsOf earlier .strong contribution.definition.name ≠ []) := by
  rintro ⟨strong, known⟩
  have atMostOne := noEarlier contribution.definition.name
  have split : earlier ++ contribution :: later = earlier ++ ([contribution] ++ later) := rfl
  rw [whole, split, definitionsOf_append, definitionsOf_append, ← strong,
    definitionsOf_singleton_self, List.length_append, List.length_append,
    List.length_singleton] at atMostOne
  have positive := List.length_pos_iff.mpr known
  rw [← strong] at positive
  omega

theorem FirstConflict.unique {first second first' second' : Contribution}
    (conflict : FirstConflict units first second)
    (conflict' : FirstConflict units first' second') : first = first' ∧ second = second' := by
  obtain ⟨scanned, later, whole, strong, onlyOne, noEarlier⟩ := conflict
  obtain ⟨scanned', later', whole', strong', onlyOne', noEarlier'⟩ := conflict'
  obtain ⟨rfl, rfl⟩ := split_unique
    (fun scanned contribution => contribution.definition.strength = .strong ∧
      definitionsOf scanned .strong contribution.definition.name ≠ [])
    (whole.symm.trans whole') ⟨strong, by simp [onlyOne]⟩ ⟨strong', by simp [onlyOne']⟩
    (fun _ _ _ => not_strong_before noEarlier) (fun _ _ _ => not_strong_before noEarlier')
  rw [onlyOne] at onlyOne'
  exact ⟨List.singleton_inj.mp onlyOne', rfl⟩

theorem FirstUnresolved.unique {declaration declaration' : AliasDecl}
    (unresolved : FirstUnresolved units declarations declaration)
    (unresolved' : FirstUnresolved units declarations declaration') :
    declaration = declaration' := by
  obtain ⟨before, after, whole, isUnresolved, noneEarlier⟩ := unresolved
  obtain ⟨before', after', whole', isUnresolved', noneEarlier'⟩ := unresolved'
  exact split_unique_of_forall (Unresolved units) (whole.symm.trans whole') isUnresolved
    isUnresolved' noneEarlier noneEarlier'

theorem FirstDangling.unique {unit unit' : LinkUnit} {name name' : SymbolName}
    (dangling : FirstDangling units declarations unit name)
    (dangling' : FirstDangling units declarations unit' name') :
    unit = unit' ∧ name = name' := by
  obtain ⟨⟨before, after, whole, noneEarlier⟩,
    front, back, references, isDangling, noneFront⟩ := dangling
  obtain ⟨⟨before', after', whole', noneEarlier'⟩,
    front', back', references', isDangling', noneFront'⟩ := dangling'
  have member : name ∈ unit.references := by
    rw [references]
    exact List.mem_append_right _ List.mem_cons_self
  have member' : name' ∈ unit'.references := by
    rw [references']
    exact List.mem_append_right _ List.mem_cons_self
  obtain rfl := split_unique_of_forall
    (fun unit => ∃ name ∈ unit.references, Dangling units declarations name)
    (whole.symm.trans whole') ⟨name, member, isDangling⟩ ⟨name', member', isDangling'⟩
    (fun unit earlier ⟨other, isReference, dangles⟩ =>
      noneEarlier unit earlier other isReference dangles)
    (fun unit earlier ⟨other, isReference, dangles⟩ =>
      noneEarlier' unit earlier other isReference dangles)
  exact ⟨rfl, split_unique_of_forall (Dangling units declarations)
    (references.symm.trans references') isDangling isDangling' noneFront noneFront'⟩

/-- Two links end alike: both have an image, and the images are related, or both fail
with a cause of one kind, and the causes are related. -/
inductive EndAlike (images : Image → Image → Prop) (causes : LinkError → LinkError → Prop) :
    Except LinkError Image → Except LinkError Image → Prop where
  | linked {image image' : Image} (related : images image image') :
      EndAlike images causes (.ok image) (.ok image')
  | failed {cause cause' : LinkError} (sameKind : cause.kind = cause'.kind)
      (related : causes cause cause') :
      EndAlike images causes (.error cause) (.error cause')

/-- The questions that decide how a link ends have the same answers. -/
structure SameAnswers (units others : List LinkUnit)
    (declarations otherDeclarations : List AliasDecl) : Prop where
  conflicts : Conflicts units ↔ Conflicts others
  unresolved : (∃ declaration ∈ declarations, Unresolved units declaration) ↔
    ∃ declaration ∈ otherDeclarations, Unresolved others declaration
  dangling : (∃ unit ∈ units, ∃ name ∈ unit.references, Dangling units declarations name) ↔
    ∃ unit ∈ others, ∃ name ∈ unit.references, Dangling others otherDeclarations name

namespace SameAnswers

variable (same : SameAnswers units others declarations otherDeclarations)

include same

theorem noConflict (noConflict : ¬ Conflicts units) : ¬ Conflicts others :=
  mt same.conflicts.mpr noConflict

theorem allResolved (allResolved : ∀ declaration ∈ declarations, ¬ Unresolved units declaration) :
    ∀ declaration ∈ otherDeclarations, ¬ Unresolved others declaration := by
  intro declaration member isUnresolved
  obtain ⟨declaration', member', isUnresolved'⟩ :=
    same.unresolved.mpr ⟨declaration, member, isUnresolved⟩
  exact allResolved declaration' member' isUnresolved'

theorem noneDangling
    (noneDangling : ∀ unit ∈ units, ∀ name ∈ unit.references,
      ¬ Dangling units declarations name) :
    ∀ unit ∈ others, ∀ name ∈ unit.references, ¬ Dangling others otherDeclarations name := by
  intro unit unitMember name member isDangling
  obtain ⟨unit', unitMember', name', member', isDangling'⟩ :=
    same.dangling.mpr ⟨unit, unitMember, name, member, isDangling⟩
  exact noneDangling unit' unitMember' name' member' isDangling'

end SameAnswers

/-- Links with the same answers end alike, if their first faults are related and so are
their images. -/
theorem Verdict.endAlike {outcome outcome' : Except LinkError Image}
    {images : Image → Image → Prop} {causes : LinkError → LinkError → Prop}
    (verdict : Verdict units declarations outcome)
    (verdict' : Verdict others otherDeclarations outcome')
    (same : SameAnswers units others declarations otherDeclarations)
    (conflict : ∀ first second first' second', FirstConflict units first second →
      FirstConflict others first' second' →
        causes (.multipleDefinition second.definition.name first.unit second.unit)
          (.multipleDefinition second'.definition.name first'.unit second'.unit))
    (unresolved : ∀ declaration declaration', FirstUnresolved units declarations declaration →
      FirstUnresolved others otherDeclarations declaration' →
        causes (.unresolvedTarget declaration.name declaration.target)
          (.unresolvedTarget declaration'.name declaration'.target))
    (dangling : ∀ unit name unit' name', FirstDangling units declarations unit name →
      FirstDangling others otherDeclarations unit' name' →
        causes (.undefinedReference name unit.name) (.undefinedReference name' unit'.name))
    (linked : ∀ image image', outcome = .ok image → outcome' = .ok image' →
      images image image') :
    EndAlike images causes outcome outcome' := by
  cases verdict with
  | conflict first =>
      obtain ⟨_, _, _, rfl⟩ := verdict'.multipleDefinition_iff.mpr
        (same.conflicts.mp (conflicts_of_firstConflict first))
      cases verdict' with
      | conflict first' => exact .failed rfl (conflict _ _ _ _ first first')
  | unresolved noConflict first =>
      have isUnresolved :=
        ((Verdict.unresolved noConflict first).unresolvedTarget_iff noConflict).mp ⟨_, _, rfl⟩
      obtain ⟨_, _, rfl⟩ := (verdict'.unresolvedTarget_iff (same.noConflict noConflict)).mpr
        (same.unresolved.mp isUnresolved)
      cases verdict' with
      | unresolved _ first' => exact .failed rfl (unresolved _ _ first first')
  | dangling noConflict allResolved first =>
      have isDangling := ((Verdict.dangling noConflict allResolved first).undefinedReference_iff
        noConflict allResolved).mp ⟨_, _, rfl⟩
      obtain ⟨_, _, rfl⟩ := (verdict'.undefinedReference_iff (same.noConflict noConflict)
        (same.allResolved allResolved)).mpr (same.dangling.mp isDangling)
      cases verdict' with
      | dangling _ _ first' => exact .failed rfl (dangling _ _ _ _ first first')
  | linked noConflict noneDangling applied =>
      obtain ⟨image', rfl⟩ := verdict'.exists_image (same.noConflict noConflict)
        (same.allResolved applied.resolved) (same.noneDangling noneDangling)
      exact .linked (linked _ _ rfl rfl)

end Link
end EarlyBoot
