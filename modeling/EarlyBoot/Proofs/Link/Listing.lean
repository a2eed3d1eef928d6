import EarlyBoot.Proofs.Link.Verdict
import Mathlib.Data.List.Perm.Basic

/-!
# The symbols of an image in order

A name enters the table when it is first defined and keeps its place whoever wins
it later.  The aliases that are still missing follow in the order of their
declarations.  The list of the symbols of an image is therefore known from the
units and the registry, and the look-up by name is known from the list.
-/

namespace EarlyBoot

namespace NameTable

variable {α : Type} [Named α] {table : NameTable α} {entry old : α}

theorem find?_eq_none_iff_not_mem {name : SymbolName} :
    table.find? name = none ↔ name ∉ table.toList.map Named.name := by
  simp [find?_eq_none_iff]

theorem map_name_insert_of_find?_eq_none
    (absent : table.find? (Named.name entry) = none) :
    (table.insert entry).toList.map Named.name =
      table.toList.map Named.name ++ [Named.name entry] := by
  rw [toList_insert_of_find?_eq_none absent, List.map_append, List.map_singleton]

/-- An entry that takes the place of another one carries its name. -/
theorem map_name_insert_of_find?_eq_some
    (present : table.find? (Named.name entry) = some old) :
    (table.insert entry).toList.map Named.name = table.toList.map Named.name := by
  rw [toList_insert_of_find?_eq_some present, List.map_map]
  apply List.map_congr_left
  intro other _
  simp only [Function.comp_apply]
  split
  · next same => exact same.symm
  · rfl

/-- Looking up the names of some entries of a table gives the entries back. -/
theorem filterMap_find?_map_name {entries : List α}
    (members : ∀ entry ∈ entries, entry ∈ table.toList) :
    (entries.map Named.name).filterMap table.find? = entries := by
  have found : ∀ entry ∈ entries, table.find? (Named.name entry) = some entry :=
    fun entry member => find?_eq_some_iff.mpr ⟨members entry member, rfl⟩
  rw [List.filterMap_map]
  exact (List.filterMap_congr found).trans List.filterMap_some

end NameTable

/-- The symbols of an image that units define. -/
def Image.explicit (image : Image) : List Symbol :=
  image.toList.filter fun symbol => !symbol.isProvided

namespace Link

variable {capacity : Nat} {units : List LinkUnit} {declarations : List AliasDecl}

/-- The names of some definitions, each at the place where it comes first. -/
def firstNames (scanned : List Contribution) : List SymbolName :=
  (scanned.map fun contribution => contribution.definition.name).eraseDups

/-- The defined names in the order in which each of them is first defined. -/
def definedNames (units : List LinkUnit) : List SymbolName :=
  firstNames (allContributions units)

/-- The declarations whose aliases a unit defines. -/
def overriddenBy (units : List LinkUnit) (declarations : List AliasDecl) : List AliasDecl :=
  declarations.filter fun declaration => IsDefined units declaration.name

/-- The declarations whose aliases no unit defines. -/
def providedBy (units : List LinkUnit) (declarations : List AliasDecl) : List AliasDecl :=
  declarations.filter fun declaration => ¬ IsDefined units declaration.name

theorem mem_definedNames {name : SymbolName} :
    name ∈ definedNames units ↔ IsDefined units name := by
  simp [definedNames, firstNames, isDefined_iff]

section Definitions

variable {scanned : List Contribution} {contribution : Contribution}
  {table next : NameTable Contribution}

theorem firstNames_append_of_mem
    (known : contribution.definition.name ∈ firstNames scanned) :
    firstNames (scanned ++ [contribution]) = firstNames scanned := by
  rw [firstNames, List.mem_eraseDups] at known
  rw [firstNames, firstNames, List.map_append, List.eraseDups_append, List.map_singleton]
  simp only [List.removeAll, List.filter_cons, List.elem_eq_mem, known]
  simp

theorem firstNames_append_of_not_mem
    (new : contribution.definition.name ∉ firstNames scanned) :
    firstNames (scanned ++ [contribution]) =
      firstNames scanned ++ [contribution.definition.name] := by
  rw [firstNames, List.mem_eraseDups] at new
  rw [firstNames, firstNames, List.map_append, List.eraseDups_append, List.map_singleton]
  simp only [List.removeAll, List.filter_cons, List.elem_eq_mem, new]
  rfl

/-- Settling a definition leaves every name where it is.  A new name goes to the
end. -/
theorem names_of_settle (before : table.toList.map Named.name = firstNames scanned)
    (settles : (settle table contribution).outcome = .ok next) :
    next.toList.map Named.name = firstNames (scanned ++ [contribution]) := by
  cases found : table.find? contribution.definition.name with
  | none =>
      have new : contribution.definition.name ∉ firstNames scanned := by
        rw [← before]
        exact NameTable.find?_eq_none_iff_not_mem.mp found
      rw [outcome_settle_of_absent found] at settles
      injection settles with isNext
      rw [← isNext, NameTable.map_name_insert_of_find?_eq_none found, before,
        firstNames_append_of_not_mem new]
      rfl
  | some inForce =>
      have known : contribution.definition.name ∈ firstNames scanned := by
        by_contra new
        rw [← before, ← NameTable.find?_eq_none_iff_not_mem, found] at new
        contradiction
      rw [firstNames_append_of_mem known, ← before]
      cases strength : contribution.definition.strength with
      | weak =>
          rw [outcome_settle_of_weak found strength] at settles
          injection settles with isNext
          rw [isNext]
      | strong =>
          cases rival : inForce.definition.strength with
          | weak =>
              rw [outcome_settle_of_override found strength rival] at settles
              injection settles with isNext
              rw [← isNext, NameTable.map_name_insert_of_find?_eq_some found]
          | strong =>
              rw [outcome_settle_of_conflict found strength rival] at settles
              contradiction

theorem names_of_settleAll (settles : (settleAll units).outcome = .ok table) :
    table.toList.map Named.name = definedNames units := by
  rw [settleAll, Logged.outcome_foldlM] at settles
  exact Outcome.invariant_of_foldlM_eq_ok
    (fun scanned table => table.toList.map Named.name = firstNames scanned)
    rfl (fun _ _ _ _ _ _ before settles => names_of_settle before settles) settles

end Definitions

/-- The symbols of an image after some declarations have been applied: those of the
defined names, in the order of their first definitions, and those of the aliases
that were missing, in the order of their declarations. -/
structure Listed (units : List LinkUnit) (applied : List AliasDecl) (image : Image) :
    Prop where
  symbols : ∃ explicit provided, image.toList = explicit ++ provided ∧
    explicit.map Symbol.name = definedNames units ∧
    (∀ symbol ∈ explicit, ∃ unit, symbol.origin = .explicit unit) ∧
    provided.map (fun symbol => (symbol.name, symbol.origin)) =
      (providedBy units applied).map fun declaration =>
        (declaration.name, .provided declaration.target)
  overridden : image.overridden = (overriddenBy units applied).map AliasDecl.name

section Aliases

variable {applied : List AliasDecl} {declaration : AliasDecl} {image next : Image}

theorem Listed.ofContributions {table : NameTable Contribution}
    (names : table.toList.map Named.name = definedNames units) :
    Listed units [] (.ofContributions table) where
  symbols := by
    refine ⟨table.toList.map Contribution.toSymbol, [], ?_, ?_, ?_, rfl⟩
    · rw [List.append_nil]
      exact NameTable.toList_map table _ Contribution.name_toSymbol
    · rw [List.map_map, ← names]
      rfl
    · intro symbol member
      obtain ⟨contribution, -, rfl⟩ := List.mem_map.mp member
      exact ⟨contribution.unit, rfl⟩
  overridden := rfl

theorem Listed.names (listed : Listed units applied image) :
    image.toList.map Symbol.name =
      definedNames units ++ (providedBy units applied).map AliasDecl.name := by
  obtain ⟨explicit, provided, whole, explicitNames, -, sources⟩ := listed.symbols
  have providedNames := congrArg (List.map Prod.fst) sources
  simp only [List.map_map, Function.comp_def] at providedNames
  rw [whole, List.map_append, explicitNames]
  exact congrArg _ providedNames

/-- An alias that is new to the image is in it only if a unit defines it. -/
theorem Listed.find?_eq_none_iff (listed : Listed units applied image)
    {name : SymbolName} (fresh : ∀ earlier ∈ applied, earlier.name ≠ name) :
    image.find? name = none ↔ ¬ IsDefined units name := by
  have notProvided : name ∉ (providedBy units applied).map AliasDecl.name := by
    intro member
    obtain ⟨earlier, filtered, sameName⟩ := List.mem_map.mp member
    exact fresh earlier (List.mem_of_mem_filter filtered) sameName
  have atName : image.find? name = none ↔ name ∉ image.toList.map Symbol.name :=
    NameTable.find?_eq_none_iff_not_mem
  rw [atName, listed.names, List.mem_append, mem_definedNames]
  simp [notProvided]

/-- A declaration is overridden by a definition of its alias, or provides it. -/
theorem Listed.applyAlias (listed : Listed units applied image)
    (fresh : ∀ earlier ∈ applied, earlier.name ≠ declaration.name)
    (applies : (applyAlias image declaration).outcome = .ok next) :
    Listed units (applied ++ [declaration]) next := by
  obtain ⟨explicit, provided, whole, explicitNames, areExplicit, sources⟩ := listed.symbols
  cases ofName : image.find? declaration.name with
  | some present =>
      have defined : IsDefined units declaration.name := by
        by_contra undefined
        rw [← listed.find?_eq_none_iff fresh, ofName] at undefined
        contradiction
      rw [outcome_applyAlias_of_defined ofName] at applies
      injection applies with isNext
      subst isNext
      refine ⟨⟨explicit, provided, whole, explicitNames, areExplicit, ?_⟩, ?_⟩
      · simp [sources, providedBy, List.filter_append, defined]
      · simp [listed.overridden, overriddenBy, List.filter_append, defined]
  | none =>
      have undefined := (listed.find?_eq_none_iff fresh).mp ofName
      cases ofTarget : image.find? declaration.target with
      | none =>
          rw [outcome_applyAlias_of_unresolved ofName ofTarget] at applies
          contradiction
      | some target =>
          rw [outcome_applyAlias_of_provided ofName ofTarget] at applies
          injection applies with isNext
          subst isNext
          have longer : (image.symbols.insert (provide declaration target)).toList =
              image.symbols.toList ++ [provide declaration target] :=
            NameTable.toList_insert_of_find?_eq_none ofName
          refine ⟨⟨explicit, provided ++ [provide declaration target], ?_, explicitNames,
            areExplicit, ?_⟩, ?_⟩
          · rw [← List.append_assoc, ← whole]
            exact longer
          · simp [sources, providedBy, List.filter_append, undefined, provide]
          · simp [listed.overridden, overriddenBy, List.filter_append, undefined]

theorem Listed.applyAll {registry : AliasRegistry capacity} (wellFormed : registry.WellFormed)
    (start : Listed units [] image)
    (applies : (registry.declarations.foldlM Link.applyAlias image).outcome = .ok next) :
    Listed units registry.declarations next := by
  rw [Logged.outcome_foldlM] at applies
  refine Outcome.invariant_of_foldlM_eq_ok (Listed units) start ?_ applies
  intro earlier declaration later state after whole listed stepped
  exact listed.applyAlias (wellFormed.name_ne_of_before whole) stepped

end Aliases

/-- An image comes from definitions that are settled and declarations that are
applied. -/
theorem exists_table_of_link {registry : AliasRegistry capacity} {image : Image}
    (linked : (link units registry).outcome = .ok image) :
    ∃ table, (settleAll units).outcome = .ok table ∧
      (registry.declarations.foldlM applyAlias (.ofContributions table)).outcome =
        .ok image := by
  simp only [link, Logged.outcome_bind, Outcome.bind_eq_ok_iff] at linked
  obtain ⟨table, settles, reached, applies, checked⟩ := linked
  refine ⟨table, settles, ?_⟩
  cases missing : firstUndefined? units reached with
  | some cause =>
      rw [missing] at checked
      contradiction
  | none =>
      rw [missing] at checked
      injection checked with isImage
      exact isImage ▸ applies

theorem Listed.of_link {registry : AliasRegistry capacity} (wellFormed : registry.WellFormed)
    {image : Image} (linked : (link units registry).outcome = .ok image) :
    Listed units registry.declarations image := by
  obtain ⟨table, settles, applies⟩ := exists_table_of_link linked
  exact Listed.applyAll wellFormed (.ofContributions (names_of_settleAll settles)) applies

/-- The table of an image is in order: its list of symbols is as the units and the
declarations make it, the index agrees with the list, and every declared alias is
either provided or overridden. -/
structure Tabulated (units : List LinkUnit) (declarations : List AliasDecl)
    (image : Image) : Prop extends Listed units declarations image where
  nodup_names : (image.toList.map Symbol.name).Nodup
  find?_eq_some_iff : ∀ (name : SymbolName) (symbol : Symbol),
    image.find? name = some symbol ↔ symbol ∈ image.toList ∧ symbol.name = name
  /-- The index knows a place for exactly the names that some symbol there carries. -/
  position_eq_some_iff : ∀ (name : SymbolName) (position : Nat),
    image.symbols.positions[name]? = some position ↔
      ∃ symbol : Symbol, image.toList[position]? = some symbol ∧ symbol.name = name
  provided_names : image.provided.map Symbol.name =
    (providedBy units declarations).map AliasDecl.name
  perm_aliases : (image.provided.map Symbol.name ++ image.overridden).Perm
    (declarations.map AliasDecl.name)
  disjoint_aliases : (image.provided.map Symbol.name).Disjoint image.overridden
  size_add_eq : image.size + image.overridden.length =
    (definedNames units).length + declarations.length

section Images

variable {image : Image}

/-- An image lists the symbols that units define before those that it provides. -/
theorem Listed.parts (listed : Listed units declarations image) :
    image.toList = image.explicit ++ image.provided ∧
      image.explicit.map Symbol.name = definedNames units ∧
      image.provided.map (fun symbol => (symbol.name, symbol.origin)) =
        (providedBy units declarations).map fun declaration =>
          (declaration.name, .provided declaration.target) := by
  obtain ⟨explicit, provided, whole, explicitNames, areExplicit, sources⟩ := listed.symbols
  have isExplicit : ∀ symbol ∈ explicit, symbol.isProvided = false := by
    intro symbol member
    obtain ⟨unit, origin⟩ := areExplicit symbol member
    simp [Symbol.isProvided, origin]
  have isProvided : ∀ symbol ∈ provided, symbol.isProvided = true := by
    intro symbol member
    have source : (symbol.name, symbol.origin) ∈
        provided.map fun symbol => (symbol.name, symbol.origin) := List.mem_map_of_mem member
    rw [sources, List.mem_map] at source
    obtain ⟨declaration, -, same⟩ := source
    injection same with _ origin
    simp [Symbol.isProvided, ← origin]
  have explicitPart : image.explicit = explicit := by
    rw [Image.explicit, whole, List.filter_append, List.filter_eq_self.mpr (by simpa),
      List.filter_eq_nil_iff.mpr (by simpa), List.append_nil]
  have providedPart : image.provided = provided := by
    rw [Image.provided, whole, List.filter_append, List.filter_eq_nil_iff.mpr (by simpa),
      List.filter_eq_self.mpr isProvided, List.nil_append]
  rw [explicitPart, providedPart]
  exact ⟨whole, explicitNames, sources⟩

theorem Listed.provided_names (listed : Listed units declarations image) :
    image.provided.map Symbol.name = (providedBy units declarations).map AliasDecl.name := by
  obtain ⟨-, -, sources⟩ := listed.parts
  have providedNames := congrArg (List.map Prod.fst) sources
  simp only [List.map_map, Function.comp_def] at providedNames
  exact providedNames

theorem perm_providedBy_overriddenBy (units : List LinkUnit) (declarations : List AliasDecl) :
    (providedBy units declarations ++ overriddenBy units declarations).Perm declarations := by
  have split := List.filter_append_perm
    (fun declaration : AliasDecl => decide (IsDefined units declaration.name)) declarations
  simp only [← decide_not] at split
  exact List.perm_append_comm.trans split

theorem size_eq_length_toList (image : Image) : image.size = image.toList.length :=
  rfl

theorem Listed.tabulated (listed : Listed units declarations image) :
    Tabulated units declarations image where
  toListed := listed
  nodup_names := image.symbols.nodup_names
  find?_eq_some_iff _ _ := NameTable.find?_eq_some_iff
  position_eq_some_iff name position := by
    simp only [image.symbols.located, ← Array.getElem?_toList]
    rfl
  provided_names := listed.provided_names
  perm_aliases := by
    rw [listed.provided_names, listed.overridden, ← List.map_append]
    exact (perm_providedBy_overriddenBy units declarations).map AliasDecl.name
  disjoint_aliases := by
    rw [listed.provided_names, listed.overridden]
    intro name isProvided isOverridden
    obtain ⟨_, provided, rfl⟩ := List.mem_map.mp isProvided
    obtain ⟨_, overridden, same⟩ := List.mem_map.mp isOverridden
    have undefined := List.of_mem_filter provided
    have defined := List.of_mem_filter overridden
    rw [same] at defined
    simp [of_decide_eq_true defined] at undefined
  size_add_eq := by
    have names := congrArg List.length listed.names
    have split := (perm_providedBy_overriddenBy units declarations).length_eq
    simp only [List.length_append, List.length_map] at names split
    rw [size_eq_length_toList, listed.overridden, List.length_map]
    omega

end Images

/-- The same list of symbols answers every look-up in the same way. -/
theorem find?_eq_of_toList_eq {first second : Image}
    (same : first.toList = second.toList) (name : SymbolName) :
    first.find? name = second.find? name := by
  apply Option.ext
  intro symbol
  have ofFirst : first.find? name = some symbol ↔
      symbol ∈ first.toList ∧ symbol.name = name := NameTable.find?_eq_some_iff
  have ofSecond : second.find? name = some symbol ↔
      symbol ∈ second.toList ∧ symbol.name = name := NameTable.find?_eq_some_iff
  rw [ofFirst, ofSecond, same]

/-- The table of a linked image is in order.  An image that compares equal to it
answers every question about a name in the same way. -/
theorem tabulated_of_link {registry : AliasRegistry capacity} (reachable : registry.Reachable)
    {image : Image} (linked : (link units registry).outcome = .ok image) :
    Tabulated units registry.declarations image ∧
      ∀ other : Image, image.isSame other = true →
        (∀ name, image.find? name = other.find? name ∧
          image.address? name = other.address? name) ∧
        image.provided = other.provided ∧ image.overridden = other.overridden := by
  refine ⟨(Listed.of_link reachable.wellFormed linked).tabulated, ?_⟩
  intro other same
  simp only [Image.isSame, Bool.and_eq_true, decide_eq_true_eq] at same
  obtain ⟨sameList, sameOverridden⟩ := same
  have sameSymbol := find?_eq_of_toList_eq sameList
  refine ⟨fun name => ⟨sameSymbol name, ?_⟩, ?_, sameOverridden⟩
  · rw [Image.address?, Image.address?, sameSymbol]
  · rw [Image.provided, Image.provided, sameList]

/-- A strong definition takes the place of the weak one before it, and an alias
that a unit defines is not listed among the provided ones. -/
theorem tabulated_of_link_override :
    let weak : LinkUnit :=
      ⟨"weak.o", [⟨⟨"_text"⟩, ⟨0x1000⟩, .named ".text", .weak⟩,
        ⟨⟨"_end"⟩, ⟨0x9000⟩, .absolute, .strong⟩], []⟩
    let strong : LinkUnit :=
      ⟨"head.o", [⟨⟨"__pi__end"⟩, ⟨0x7000⟩, .absolute, .weak⟩,
        ⟨⟨"_text"⟩, ⟨0x2000⟩, .named ".head.text", .strong⟩], []⟩
    let registry : AliasRegistry 2 :=
      ⟨[⟨⟨"__pi__end"⟩, ⟨"_end"⟩⟩, ⟨⟨"__pi__text"⟩, ⟨"_text"⟩⟩]⟩
    registry.Reachable ∧
      ∃ image, (link [weak, strong] registry).outcome = .ok image ∧
        image.toList.map Symbol.name =
          [⟨"_text"⟩, ⟨"_end"⟩, ⟨"__pi__end"⟩, ⟨"__pi__text"⟩] ∧
        image.overridden = [⟨"__pi__end"⟩] := by
  intro weak strong registry
  have first : AliasRegistry.empty.declare ⟨"__pi__end"⟩ ⟨"_end"⟩ =
      .ok (⟨[⟨⟨"__pi__end"⟩, ⟨"_end"⟩⟩]⟩ : AliasRegistry 2) := rfl
  have second : (⟨[⟨⟨"__pi__end"⟩, ⟨"_end"⟩⟩]⟩ : AliasRegistry 2).declare ⟨"__pi__text"⟩
      ⟨"_text"⟩ = .ok registry := rfl
  have reachable : registry.Reachable := .declare (.declare .empty first) second
  obtain ⟨image, linked⟩ := (verdict_link [weak, strong] reachable.wellFormed).exists_image
    (by decide) (by decide) (by decide)
  obtain ⟨tabulated, -⟩ := tabulated_of_link reachable linked
  refine ⟨reachable, image, linked, ?_, ?_⟩
  · rw [tabulated.names]
    decide
  · rw [tabulated.overridden]
    decide

end Link
end EarlyBoot
