import EarlyBoot.Proofs.Link.Reordering

/-!
# Linking an image again

A finished image can take the place of the units that it was linked from: one unit
defines all its symbols.  No two of them share a name, so that the definitions do not
compete, and every alias of the registry is among them, so that none is left to provide.
Linking that unit gives the image back.
-/

namespace EarlyBoot

/-- The strong definition that gives a symbol its address. -/
def Symbol.toDefinition (symbol : Symbol) : Definition where
  name := symbol.name
  address := symbol.address
  place := symbol.place
  strength := .strong

/-- The symbol with a definition of a unit as its origin. -/
def Symbol.definedBy (symbol : Symbol) (unit : String) : Symbol :=
  { symbol with origin := .explicit unit }

/-- The unit that defines the symbols of an image in their order. -/
def LinkUnit.ofImage (name : String) (image : Image) : LinkUnit where
  name := name
  definitions := image.toList.map Symbol.toDefinition
  references := []

namespace Link

variable {capacity : Nat} {units : List LinkUnit} {declarations : List AliasDecl}
  {image : Image}

/-- Strong definitions, no two of them of one name. -/
structure Uncontested (scanned : List Contribution) : Prop where
  strong : ∀ contribution ∈ scanned, contribution.definition.strength = .strong
  nodup_names : (scanned.map fun contribution => contribution.definition.name).Nodup

section Uncontested

variable {scanned : List Contribution} {contribution : Contribution}

theorem eraseDups_of_nodup {names : List SymbolName} (distinct : names.Nodup) :
    names.eraseDups = names := by
  induction names with
  | nil => rfl
  | cons name names ih =>
      obtain ⟨new, distinct⟩ := List.nodup_cons.mp distinct
      have noneErased : names.filter (fun other => !other == name) = names := by
        rw [List.filter_eq_self]
        intro other member
        simpa using ne_of_mem_of_not_mem member new
      rw [List.eraseDups_cons, noneErased, ih distinct]

/-- A definition without rivals is in force. -/
theorem Uncontested.inForce?_eq (uncontested : Uncontested scanned)
    (member : contribution ∈ scanned) :
    inForce? scanned contribution.definition.name = some contribution := by
  have isStrong : contribution ∈ definitionsOf scanned .strong contribution.definition.name :=
    mem_definitionsOf.mpr ⟨member, uncontested.strong contribution member, rfl⟩
  obtain ⟨winner, isWinner, inForce⟩ := exists_inForce?_of_strong (List.ne_nil_of_mem isStrong)
  obtain ⟨winnerMember, -, sameName⟩ := mem_definitionsOf.mp isWinner
  have same : winner = contribution :=
    List.inj_on_of_nodup_map uncontested.nodup_names winnerMember member sameName
  rw [inForce, same]

theorem Uncontested.not_conflicts (uncontested : Uncontested (allContributions units)) :
    ¬ Conflicts units := by
  rw [conflicts_iff, not_not]
  exact uncontested.nodup_names.sublist (List.filter_sublist.map _)

/-- Where no definition has a rival, each gives the image a symbol, in scan order. -/
theorem Uncontested.explicit_eq (uncontested : Uncontested (allContributions units))
    (listed : Listed units declarations image) (applied : Applied units declarations image) :
    image.explicit = (allContributions units).map Contribution.toSymbol := by
  have found : ∀ contribution ∈ allContributions units,
      image.find? contribution.definition.name = some contribution.toSymbol :=
    fun contribution member => applied.find?_of_inForce? (uncontested.inForce?_eq member)
  rw [listed.explicit_eq, definedNames, firstNames, eraseDups_of_nodup uncontested.nodup_names,
    List.filterMap_map]
  exact (List.filterMap_congr found).trans (congrFun List.filterMap_eq_map _)

end Uncontested

section Images

variable {registry : AliasRegistry capacity} {name : String}

theorem allContributions_ofImage (name : String) (image : Image) :
    allContributions [.ofImage name image] =
      image.toList.map fun symbol => ⟨name, symbol.toDefinition⟩ := by
  simp [allContributions, LinkUnit.contributions, LinkUnit.ofImage]

/-- The symbols of an image have distinct names. -/
theorem uncontested_ofImage (name : String) (image : Image) :
    Uncontested (allContributions [.ofImage name image]) where
  strong := by
    rw [allContributions_ofImage]
    intro contribution member
    obtain ⟨symbol, -, rfl⟩ := List.mem_map.mp member
    rfl
  nodup_names := by
    rw [allContributions_ofImage, List.map_map]
    exact image.symbols.nodup_names

theorem isDefined_ofImage_iff {symbolName : SymbolName} :
    IsDefined [.ofImage name image] symbolName ↔ image.find? symbolName ≠ none := by
  have notFound : image.find? symbolName = none ↔ ∀ symbol ∈ image.toList,
      symbol.name ≠ symbolName := NameTable.find?_eq_none_iff
  rw [isDefined_iff, allContributions_ofImage, ne_eq, notFound]
  simp [Symbol.toDefinition]

/-- Every alias of the registry is a symbol of the image, provided or not. -/
theorem Applied.isDefined_ofImage (applied : Applied units registry.declarations image) :
    ∀ declaration ∈ registry.declarations, IsDefined [.ofImage name image] declaration.name := by
  intro declaration member
  rw [isDefined_ofImage_iff, ne_eq, applied.find?_eq_none_iff]
  rintro ⟨-, noAlias⟩
  exact noAlias declaration member rfl

/-- A link in which every alias is defined provides none and overrides all. -/
theorem Listed.of_all_defined (listed : Listed units declarations image)
    (defined : ∀ declaration ∈ declarations, IsDefined units declaration.name) :
    image.toList = image.explicit ∧ image.provided = [] ∧
      image.overridden = declarations.map AliasDecl.name := by
  have allOverridden : overriddenBy units declarations = declarations := by
    simpa [overriddenBy, List.filter_eq_self] using defined
  have noneProvided : providedBy units declarations = [] := by
    simpa [providedBy, List.filter_eq_nil_iff] using defined
  obtain ⟨whole, -, sources⟩ := listed.parts
  rw [noneProvided, List.map_nil, List.map_eq_nil_iff] at sources
  rw [sources, List.append_nil] at whole
  exact ⟨whole, sources, by rw [listed.overridden, allOverridden]⟩

/-- An image that is linked again as one unit comes back: the same names, addresses and
sections in the same order, each now defined by that unit.  No alias is provided, and all
of them are overridden, in the order of their declarations. -/
theorem link_ofImage_of_link (reachable : registry.Reachable)
    (linked : (link units registry).outcome = .ok image) (name : String) :
    ∃ again, (link [.ofImage name image] registry).outcome = .ok again ∧
      again.toList = image.toList.map (fun symbol => symbol.definedBy name) ∧
      again.provided = [] ∧
      again.overridden = registry.declarations.map AliasDecl.name := by
  have wellFormed := reachable.wellFormed
  have uncontested := uncontested_ofImage name image
  have defined : ∀ declaration ∈ registry.declarations,
      IsDefined [.ofImage name image] declaration.name :=
    (applied_of_link wellFormed linked).isDefined_ofImage
  obtain ⟨again, relinked⟩ := (verdict_link [.ofImage name image] wellFormed).exists_image
    uncontested.not_conflicts
    (fun declaration member unresolved => unresolved.1 (defined declaration member))
    (by simp [LinkUnit.ofImage])
  have listed := Listed.of_link wellFormed relinked
  obtain ⟨allExplicit, noneProvided, allOverridden⟩ := listed.of_all_defined defined
  refine ⟨again, relinked, ?_, noneProvided, allOverridden⟩
  rw [allExplicit, uncontested.explicit_eq listed (applied_of_link wellFormed relinked),
    allContributions_ofImage, List.map_map]
  rfl

/-- An image with a strong definition in the place of a weak one, an alias that a unit
defines and one that is provided comes back with both aliases overridden. -/
theorem link_ofImage_of_link_override :
    let weak : LinkUnit :=
      ⟨"weak.o", [⟨⟨"_text"⟩, ⟨0x1000⟩, .named ".text", .weak⟩,
        ⟨⟨"_end"⟩, ⟨0x9000⟩, .absolute, .strong⟩], [⟨"__pi__text"⟩]⟩
    let strong : LinkUnit :=
      ⟨"head.o", [⟨⟨"__pi__end"⟩, ⟨0x7000⟩, .absolute, .weak⟩,
        ⟨⟨"_text"⟩, ⟨0x2000⟩, .named ".head.text", .strong⟩], []⟩
    let registry : AliasRegistry 2 :=
      ⟨[⟨⟨"__pi__text"⟩, ⟨"_text"⟩⟩, ⟨⟨"__pi__end"⟩, ⟨"_end"⟩⟩]⟩
    registry.Reachable ∧
      ∃ image again, (link [weak, strong] registry).outcome = .ok image ∧
        image.overridden = [⟨"__pi__end"⟩] ∧
        (link [.ofImage "image.o" image] registry).outcome = .ok again ∧
        again.toList = image.toList.map (fun symbol => symbol.definedBy "image.o") ∧
        again.overridden = [⟨"__pi__text"⟩, ⟨"__pi__end"⟩] := by
  intro weak strong registry
  have first : AliasRegistry.empty.declare ⟨"__pi__text"⟩ ⟨"_text"⟩ =
      .ok (⟨[⟨⟨"__pi__text"⟩, ⟨"_text"⟩⟩]⟩ : AliasRegistry 2) := rfl
  have second : (⟨[⟨⟨"__pi__text"⟩, ⟨"_text"⟩⟩]⟩ : AliasRegistry 2).declare ⟨"__pi__end"⟩
      ⟨"_end"⟩ = .ok registry := rfl
  have reachable : registry.Reachable := .declare (.declare .empty first) second
  obtain ⟨image, linked⟩ := (verdict_link [weak, strong] reachable.wellFormed).exists_image
    (by decide) (by decide) (by decide)
  have overridden : image.overridden = [⟨"__pi__end"⟩] := by
    rw [(Listed.of_link reachable.wellFormed linked).overridden]
    decide
  obtain ⟨again, relinked, sameList, -, allOverridden⟩ :=
    link_ofImage_of_link reachable linked "image.o"
  exact ⟨reachable, image, again, linked, overridden, relinked, sameList, allOverridden⟩

end Images

end Link
end EarlyBoot
