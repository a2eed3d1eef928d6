import EarlyBoot.Proofs.Link.FirstFault
import EarlyBoot.Proofs.Link.Listing

/-!
# Links of reordered inputs

The aliases of a registry are distinct and none of them is a target, so that the order
of the declarations decides in which order the aliases are listed and nothing else.
The order of the units decides which of several weak definitions of a name comes first.
Neither of them decides whether a link goes through or what kind of fault it reports.
-/

namespace EarlyBoot
namespace Link

variable {capacity otherCapacity : Nat} {units others : List LinkUnit}
  {declarations otherDeclarations : List AliasDecl} {image image' : Image}

section Congruence

theorem resolution?_congr {scanned scanned' : List Contribution}
    {applied applied' : List AliasDecl} {name : SymbolName}
    (sameForce : ∀ name, inForce? scanned name = inForce? scanned' name)
    (sameAlias : (applied.find? fun declaration => declaration.name = name) =
      applied'.find? fun declaration => declaration.name = name) :
    resolution? scanned applied name = resolution? scanned' applied' name := by
  simp only [resolution?, sameForce, sameAlias]

theorem dangling_congr (sameDefined : ∀ name, IsDefined units name ↔ IsDefined others name)
    (sameDeclared : ∀ declaration,
      declaration ∈ declarations ↔ declaration ∈ otherDeclarations) (name : SymbolName) :
    Dangling units declarations name ↔ Dangling others otherDeclarations name := by
  simp only [Dangling, sameDefined, sameDeclared]

/-- The explicit symbols are what the defined names stand for. -/
theorem Listed.explicit_eq (listed : Listed units declarations image) :
    image.explicit = (definedNames units).filterMap image.find? := by
  rw [← listed.parts.2.1]
  exact (NameTable.filterMap_find?_map_name fun _ member => List.mem_of_mem_filter member).symm

/-- The provided symbols are what the aliases that no unit defines stand for. -/
theorem Listed.provided_eq (listed : Listed units declarations image) :
    image.provided =
      ((providedBy units declarations).map AliasDecl.name).filterMap image.find? := by
  rw [← listed.provided_names]
  exact (NameTable.filterMap_find?_map_name fun _ member => List.mem_of_mem_filter member).symm

end Congruence

section Declarations

variable {registry : AliasRegistry capacity} {other : AliasRegistry otherCapacity}

/-- Two images give every name the same symbol and list the explicit symbols alike; the
aliases may come in another order. -/
structure SameSymbols (image image' : Image) : Prop where
  find?_eq : ∀ name, image.find? name = image'.find? name
  explicit_eq : image.explicit = image'.explicit
  provided_perm : image.provided.Perm image'.provided
  overridden_perm : image.overridden.Perm image'.overridden

theorem perm_of_mem_iff (wellFormed : registry.WellFormed) (otherWellFormed : other.WellFormed)
    (same : ∀ declaration,
      declaration ∈ registry.declarations ↔ declaration ∈ other.declarations) :
    registry.declarations.Perm other.declarations := by
  have distinct := List.Nodup.of_map _ wellFormed.nodup_names
  have otherDistinct := List.Nodup.of_map _ otherWellFormed.nodup_names
  exact (List.perm_ext_iff_of_nodup distinct otherDistinct).mpr same

/-- A look-up does not depend on the order of the declarations. -/
theorem lookup?_eq_of_mem_iff (wellFormed : registry.WellFormed)
    (otherWellFormed : other.WellFormed)
    (same : ∀ declaration,
      declaration ∈ registry.declarations ↔ declaration ∈ other.declarations)
    (name : SymbolName) : registry.lookup? name = other.lookup? name := by
  apply Option.ext
  intro declaration
  rw [wellFormed.lookup?_eq_some_iff, otherWellFormed.lookup?_eq_some_iff, same]

theorem sameSymbols_of_link (wellFormed : registry.WellFormed)
    (otherWellFormed : other.WellFormed)
    (same : ∀ declaration,
      declaration ∈ registry.declarations ↔ declaration ∈ other.declarations)
    (linked : (link units registry).outcome = .ok image)
    (linked' : (link units other).outcome = .ok image') : SameSymbols image image' := by
  have applied := applied_of_link wellFormed linked
  have applied' := applied_of_link otherWellFormed linked'
  have listed := Listed.of_link wellFormed linked
  have listed' := Listed.of_link otherWellFormed linked'
  have permuted := perm_of_mem_iff wellFormed otherWellFormed same
  have resolved : ∀ name, image.find? name = image'.find? name := by
    intro name
    rw [applied.find?_eq, applied'.find?_eq]
    exact resolution?_congr (fun _ => rfl)
      (lookup?_eq_of_mem_iff wellFormed otherWellFormed same name)
  have sameLookup : image.find? = image'.find? := funext resolved
  refine ⟨resolved, ?_, ?_, ?_⟩
  · rw [listed.explicit_eq, listed'.explicit_eq, sameLookup]
  · rw [listed.provided_eq, listed'.provided_eq, sameLookup]
    exact ((permuted.filter _).map _).filterMap _
  · rw [listed.overridden, listed'.overridden]
    exact (permuted.filter _).map _

/-- The order in which aliases are declared does not decide what is resolved: a link
with a reordered registry goes through with the same symbols, or it fails in the same
way.  Only the unresolved declaration that is reported may be another one. -/
theorem endAlike_of_same_declarations (units : List LinkUnit) (reachable : registry.Reachable)
    (otherReachable : other.Reachable)
    (same : ∀ declaration,
      declaration ∈ registry.declarations ↔ declaration ∈ other.declarations) :
    EndAlike SameSymbols
      (fun cause cause' => cause.kind ≠ .unresolvedTarget → cause = cause')
      (link units registry).outcome (link units other).outcome := by
  have sameDangling : ∀ name, Dangling units registry.declarations name ↔
      Dangling units other.declarations name :=
    dangling_congr (fun _ => Iff.rfl) same
  apply (verdict_link units reachable.wellFormed).endAlike
    (verdict_link units otherReachable.wellFormed)
  · exact ⟨Iff.rfl, by simp only [same], by simp only [sameDangling]⟩
  · intro first second first' second' conflict conflict' _
    obtain ⟨rfl, rfl⟩ := conflict.unique conflict'
    rfl
  · intro declaration declaration' _ _ otherKind
    exact absurd rfl otherKind
  · intro unit name unit' name' dangling dangling' _
    simp only [FirstDangling, sameDangling] at dangling
    obtain ⟨rfl, rfl⟩ := FirstDangling.unique dangling dangling'
    rfl
  · intro image image' linked linked'
    exact sameSymbols_of_link reachable.wellFormed otherReachable.wellFormed same linked linked'

theorem endAlike_of_same_declarations_swapped :
    let head : LinkUnit :=
      ⟨"head.o", [⟨⟨"_text"⟩, ⟨0x1000⟩, .named ".text", .weak⟩,
        ⟨⟨"_end"⟩, ⟨0x9000⟩, .absolute, .strong⟩], [⟨"__pi__text"⟩, ⟨"__pi__end"⟩]⟩
    let start : AliasDecl := ⟨⟨"__pi__text"⟩, ⟨"_text"⟩⟩
    let stop : AliasDecl := ⟨⟨"__pi__end"⟩, ⟨"_end"⟩⟩
    let registry : AliasRegistry 2 := ⟨[start, stop]⟩
    let other : AliasRegistry 3 := ⟨[stop, start]⟩
    registry.Reachable ∧ other.Reachable ∧
      ∃ image image', (link [head] registry).outcome = .ok image ∧
        (link [head] other).outcome = .ok image' ∧ SameSymbols image image' := by
  intro head start stop registry other
  have startFirst : AliasRegistry.empty.declare ⟨"__pi__text"⟩ ⟨"_text"⟩ =
      .ok (⟨[start]⟩ : AliasRegistry 2) := rfl
  have stopSecond : (⟨[start]⟩ : AliasRegistry 2).declare ⟨"__pi__end"⟩ ⟨"_end"⟩ =
      .ok registry := rfl
  have stopFirst : AliasRegistry.empty.declare ⟨"__pi__end"⟩ ⟨"_end"⟩ =
      .ok (⟨[stop]⟩ : AliasRegistry 3) := rfl
  have startSecond : (⟨[stop]⟩ : AliasRegistry 3).declare ⟨"__pi__text"⟩ ⟨"_text"⟩ =
      .ok other := rfl
  have reachable : registry.Reachable := .declare (.declare .empty startFirst) stopSecond
  have otherReachable : other.Reachable := .declare (.declare .empty stopFirst) startSecond
  have same : ∀ declaration,
      declaration ∈ registry.declarations ↔ declaration ∈ other.declarations :=
    fun _ => (List.Perm.swap stop start []).mem_iff
  have alike := endAlike_of_same_declarations [head] reachable otherReachable same
  obtain ⟨image, linked⟩ := (verdict_link [head] reachable.wellFormed).exists_image
    (by decide) (by decide) (by decide)
  rw [linked] at alike
  generalize (link [head] other).outcome = outcome at alike ⊢
  cases alike with
  | linked related => exact ⟨reachable, otherReachable, image, _, linked, rfl, related⟩

end Declarations

section Units

/-- Two images define the same names, provide and override the same aliases, and agree
on what the units settle: on every name with a strong definition, and on all names if no
name is left to several weak ones. -/
structure SameButForWeakTies (units : List LinkUnit) (image image' : Image) : Prop where
  find?_eq_none_iff : ∀ name, image.find? name = none ↔ image'.find? name = none
  overridden_eq : image.overridden = image'.overridden
  provided_names_eq : image.provided.map Symbol.name = image'.provided.map Symbol.name
  strong : ∀ name, definitionsOf (allContributions units) .strong name ≠ [] →
    ∃ contribution ∈ definitionsOf (allContributions units) .strong name,
      image.find? name = some contribution.toSymbol ∧
        image'.find? name = some contribution.toSymbol
  untied : (∀ name, 2 ≤ (definitionsOf (allContributions units) .weak name).length →
      definitionsOf (allContributions units) .strong name ≠ []) →
    ∀ name, image.find? name = image'.find? name

section Permuted

variable (permuted : units.Perm others)

include permuted

theorem perm_definitionsOf (strength : Strength) (name : SymbolName) :
    (definitionsOf (allContributions units) strength name).Perm
      (definitionsOf (allContributions others) strength name) :=
  (permuted.flatMap_right LinkUnit.contributions).filter _

theorem isDefined_iff_of_perm (name : SymbolName) :
    IsDefined units name ↔ IsDefined others name := by
  simp only [IsDefined, permuted.mem_iff]

theorem unresolved_iff_of_perm (declaration : AliasDecl) :
    Unresolved units declaration ↔ Unresolved others declaration := by
  simp only [Unresolved, isDefined_iff_of_perm permuted]

theorem dangling_iff_of_perm (name : SymbolName) :
    Dangling units declarations name ↔ Dangling others declarations name :=
  dangling_congr (isDefined_iff_of_perm permuted) (fun _ => Iff.rfl) name

theorem conflicts_iff_of_perm : Conflicts units ↔ Conflicts others := by
  simp only [Conflicts, (perm_definitionsOf permuted _ _).length_eq]

theorem sameAnswers_of_perm (declarations : List AliasDecl) :
    SameAnswers units others declarations declarations where
  conflicts := conflicts_iff_of_perm permuted
  unresolved := by simp only [unresolved_iff_of_perm permuted]
  dangling := by simp only [dangling_iff_of_perm permuted, permuted.mem_iff]

/-- A list of one definition at most has only one order. -/
theorem definitionsOf_eq_of_perm {strength : Strength} {name : SymbolName}
    (atMostOne : (definitionsOf (allContributions units) strength name).length ≤ 1) :
    definitionsOf (allContributions units) strength name =
      definitionsOf (allContributions others) strength name := by
  have reordered := perm_definitionsOf permuted strength name
  match whole : definitionsOf (allContributions units) strength name with
  | [] =>
      rw [whole] at reordered
      exact (List.nil_perm.mp reordered).symm
  | [only] =>
      rw [whole] at reordered
      exact List.singleton_perm.mp reordered
  | _ :: _ :: _ =>
      rw [whole] at atMostOne
      simp at atMostOne

/-- The definition in force does not depend on the order of the units, unless there is
no strong one and several weak ones. -/
theorem inForce?_eq_of_perm {name : SymbolName} (noConflict : ¬ Conflicts units)
    (noTie : 2 ≤ (definitionsOf (allContributions units) .weak name).length →
      definitionsOf (allContributions units) .strong name ≠ []) :
    inForce? (allContributions units) name = inForce? (allContributions others) name := by
  have atMostOne : (definitionsOf (allContributions units) .strong name).length ≤ 1 := by
    by_contra several
    exact noConflict ⟨name, by omega⟩
  have sameStrong := definitionsOf_eq_of_perm permuted atMostOne
  rw [inForce?, inForce?, ← sameStrong]
  by_cases tie : 2 ≤ (definitionsOf (allContributions units) .weak name).length
  · obtain ⟨strong, rest, whole⟩ := List.exists_cons_of_ne_nil (noTie tie)
    simp [whole]
  · have sameWeak : definitionsOf (allContributions units) .weak name =
        definitionsOf (allContributions others) .weak name :=
      definitionsOf_eq_of_perm permuted (by omega)
    rw [sameWeak]

theorem sameButForWeakTies_of_link {registry : AliasRegistry capacity}
    (wellFormed : registry.WellFormed)
    (linked : (link units registry).outcome = .ok image)
    (linked' : (link others registry).outcome = .ok image') :
    SameButForWeakTies units image image' := by
  have noConflict : ¬ Conflicts units := by
    have verdict := verdict_link units wellFormed
    rw [linked] at verdict
    exact verdict.noConflict
  have applied := applied_of_link wellFormed linked
  have applied' := applied_of_link wellFormed linked'
  have listed := Listed.of_link wellFormed linked
  have listed' := Listed.of_link wellFormed linked'
  refine ⟨?_, ?_, ?_, ?_, ?_⟩
  · intro name
    rw [applied.find?_eq_none_iff, applied'.find?_eq_none_iff, dangling_iff_of_perm permuted]
  · rw [listed.overridden, listed'.overridden]
    simp only [overriddenBy, isDefined_iff_of_perm permuted]
  · rw [listed.provided_names, listed'.provided_names]
    simp only [providedBy, isDefined_iff_of_perm permuted]
  · intro name hasStrong
    obtain ⟨strong, isStrong, inForce⟩ := exists_inForce?_of_strong hasStrong
    have inForce' := inForce
    rw [inForce?_eq_of_perm permuted noConflict fun _ => hasStrong] at inForce'
    exact ⟨strong, isStrong, applied.find?_of_inForce? inForce,
      applied'.find?_of_inForce? inForce'⟩
  · intro noTies name
    rw [applied.find?_eq, applied'.find?_eq]
    exact resolution?_congr
      (fun name => inForce?_eq_of_perm permuted noConflict (noTies name)) rfl

end Permuted

/-- The order of the units matters only where several weak definitions of a name compete:
a link of reordered units goes through with images that agree but for such ties, or it
fails in the same way, and an unresolved declaration that is reported is the same. -/
theorem endAlike_of_perm_units {registry : AliasRegistry capacity}
    (permuted : units.Perm others) (reachable : registry.Reachable) :
    EndAlike (SameButForWeakTies units)
      (fun cause cause' => cause.kind = .unresolvedTarget → cause = cause')
      (link units registry).outcome (link others registry).outcome := by
  apply (verdict_link units reachable.wellFormed).endAlike
    (verdict_link others reachable.wellFormed)
    (sameAnswers_of_perm permuted registry.declarations)
  · intro first second first' second' _ _ isUnresolvedTarget
    cases isUnresolvedTarget
  · intro declaration declaration' unresolved unresolved' _
    simp only [FirstUnresolved, unresolved_iff_of_perm permuted] at unresolved
    obtain rfl := FirstUnresolved.unique unresolved unresolved'
    rfl
  · intro unit name unit' name' _ _ isUnresolvedTarget
    cases isUnresolvedTarget
  · intro image image' linked linked'
    exact sameButForWeakTies_of_link permuted reachable.wellFormed linked linked'

/-- The strong definition settles the tie of the two weak ones, so that every name stands
for the same symbol. -/
theorem endAlike_of_perm_units_settled :
    let head : LinkUnit :=
      ⟨"head.o", [⟨⟨"_text"⟩, ⟨0x1000⟩, .named ".text", .weak⟩], [⟨"__pi__text"⟩]⟩
    let main : LinkUnit :=
      ⟨"main.o", [⟨⟨"_text"⟩, ⟨0x2000⟩, .named ".text", .weak⟩,
        ⟨⟨"_text"⟩, ⟨0x3000⟩, .named ".head.text", .strong⟩], []⟩
    let registry : AliasRegistry 1 := ⟨[⟨⟨"__pi__text"⟩, ⟨"_text"⟩⟩]⟩
    registry.Reachable ∧
      ∃ image image', (link [head, main] registry).outcome = .ok image ∧
        (link [main, head] registry).outcome = .ok image' ∧
        ∀ name, image.find? name = image'.find? name := by
  intro head main registry
  have accepted : AliasRegistry.empty.declare ⟨"__pi__text"⟩ ⟨"_text"⟩ = .ok registry := rfl
  have reachable : registry.Reachable := .declare .empty accepted
  have alike := endAlike_of_perm_units (List.Perm.swap main head []) reachable
  obtain ⟨image, linked⟩ := (verdict_link [head, main] reachable.wellFormed).exists_image
    (by decide) (by decide) (by decide)
  rw [linked] at alike
  generalize (link [main, head] registry).outcome = outcome at alike ⊢
  have settled : ∀ name,
      2 ≤ (definitionsOf (allContributions [head, main]) .weak name).length →
        definitionsOf (allContributions [head, main]) .strong name ≠ [] := by
    intro name
    by_cases isText : name = ⟨"_text"⟩
    · subst isText
      decide
    · simp [definitionsOf, allContributions, LinkUnit.contributions, head, main,
        Ne.symm isText]
  cases alike with
  | linked related => exact ⟨reachable, image, _, linked, rfl, related.untied settled⟩

end Units

end Link
end EarlyBoot
