import EarlyBoot.Proofs.Link.Listing
import EarlyBoot.Proofs.Link.Naming

/-!
# What a link says about itself

The log of a link accounts for what it decided.  It holds one message about each
definition that meets another one, then one about each declaration, and a closing message
when there is an image.  A link that fails has said what it had to say up to there.  Every
message is known from the units and the declarations.
-/

namespace EarlyBoot
namespace Link

variable {capacity : Nat} {units : List LinkUnit} {declarations : List AliasDecl}

/-- What is said of a definition that comes behind others.  One that is new in the scan
is not worth a message, and a second strong one is an error. -/
def definitionMessage? (scanned : List Contribution) (contribution : Contribution) :
    Option Message :=
  (inForce? scanned contribution.definition.name).bind fun inForce =>
    match contribution.definition.strength, inForce.definition.strength with
    | .weak, _ => some ⟨.debug, ignoredText contribution inForce.unit⟩
    | .strong, .weak => some ⟨.debug, overridesText contribution inForce.unit⟩
    | .strong, .strong => none

/-- What is said of a declaration: the definition that it gives way to, or what it
provides.  There is nothing to say if neither its alias nor its target is defined. -/
def declarationMessage? (units : List LinkUnit) (declaration : AliasDecl) :
    Option Message :=
  match inForce? (allContributions units) declaration.name with
  | some present =>
      some ⟨.notice, givesWayText declaration present.unit present.definition.address⟩
  | none =>
      (inForce? (allContributions units) declaration.target).map fun target =>
        ⟨.debug, providesText declaration target.definition.address target.definition.place⟩

/-- What is said of some definitions in scan order. -/
def definitionLog (contributions : List Contribution) : List Message :=
  Logged.messagesAlong definitionMessage? [] contributions

/-- What is said of some declarations in their order. -/
def declarationLog (units : List LinkUnit) (declarations : List AliasDecl) : List Message :=
  declarations.filterMap (declarationMessage? units)

/-- The numbers of units, of defined names, of provided and of overridden aliases. -/
def closingMessage (units : List LinkUnit) (declarations : List AliasDecl) : Message :=
  ⟨.info, "linked " ++ toString units.length ++ " units: " ++
    toString (definedNames units).length ++ " symbols, " ++
    toString (providedBy units declarations).length ++ " provided, " ++
    toString (overriddenBy units declarations).length ++ " overridden"⟩

/-- How a link can end, and what it has written until then. -/
inductive Account (units : List LinkUnit) (declarations : List AliasDecl) :
    Logged LinkError Image → Prop where
  | conflict {scanned later : List Contribution} {second : Contribution} {cause : LinkError}
      (whole : allContributions units = scanned ++ second :: later)
      (refused : RefusesDefinition scanned second cause) :
      Account units declarations ⟨definitionLog scanned, .error cause⟩
  | unresolved {before later : List AliasDecl} {declaration : AliasDecl} {cause : LinkError}
      (noConflict : ¬ Conflicts units)
      (whole : declarations = before ++ declaration :: later)
      (refused : RefusesDeclaration units before declaration cause) :
      Account units declarations
        ⟨definitionLog (allContributions units) ++ declarationLog units before,
          .error cause⟩
  | dangling {unit : LinkUnit} {name : SymbolName} (noConflict : ¬ Conflicts units)
      (allResolved : ∀ declaration ∈ declarations, ¬ Unresolved units declaration)
      (dangling : FirstDangling units declarations unit name) :
      Account units declarations
        ⟨definitionLog (allContributions units) ++ declarationLog units declarations,
          .error (.undefinedReference name unit.name)⟩
  | linked {image : Image} (noConflict : ¬ Conflicts units)
      (allResolved : ∀ declaration ∈ declarations, ¬ Unresolved units declaration)
      (noneDangling : ∀ unit ∈ units, ∀ name ∈ unit.references,
        ¬ Dangling units declarations name)
      (listed : Listed units declarations image) :
      Account units declarations
        ⟨definitionLog (allContributions units) ++ declarationLog units declarations ++
          [closingMessage units declarations], .ok image⟩

section Definitions

variable {scanned : List Contribution} {table : NameTable Contribution}
  {contribution : Contribution}

/-- Every definition that meets an earlier one of its name without conflict is worth a
message. -/
theorem definitionMessage?_eq_none_iff :
    definitionMessage? scanned contribution = none ↔
      (∀ earlier ∈ scanned, earlier.definition.name ≠ contribution.definition.name) ∨
      contribution.definition.strength = .strong ∧
        definitionsOf scanned .strong contribution.definition.name ≠ [] := by
  rw [← inForce?_eq_none_iff, definitionMessage?]
  cases found : inForce? scanned contribution.definition.name with
  | none => simp
  | some inForce =>
      have strongIff : inForce.definition.strength = .strong ↔
          definitionsOf scanned .strong contribution.definition.name ≠ [] := by
        constructor
        · intro strong isEmpty
          obtain ⟨member, sameName⟩ := mem_of_inForce? found
          have listed := mem_definitionsOf.mpr ⟨member, strong, sameName⟩
          rw [isEmpty] at listed
          contradiction
        · intro hasStrong
          obtain ⟨strong, listed, wins⟩ := exists_inForce?_of_strong hasStrong
          obtain rfl : inForce = strong := Option.some.inj (found.symm.trans wins)
          exact (mem_definitionsOf.mp listed).2.1
      rw [← strongIff, Option.bind_some]
      cases contribution.definition.strength with
      | weak => simp
      | strong => cases rival : inForce.definition.strength <;> simp

theorem Settled.log_settle (settled : Settled scanned table) (contribution : Contribution) :
    (settle table contribution).log = (definitionMessage? scanned contribution).toList := by
  rw [definitionMessage?, ← settled.find?_eq]
  cases found : table.find? contribution.definition.name with
  | none => rw [settle_of_absent found, Option.bind_none, Option.toList_none]
  | some inForce =>
      rw [Option.bind_some]
      cases strength : contribution.definition.strength with
      | weak =>
          rw [settle_of_weak found strength]
          rfl
      | strong =>
          cases rival : inForce.definition.strength with
          | weak =>
              rw [settle_of_override found strength rival]
              rfl
          | strong =>
              rw [settle_of_conflict found strength rival]
              rfl

/-- One more definition is settled with its message, or refused without one. -/
theorem Settled.settle_eq_cases (settled : Settled scanned table)
    (contribution : Contribution) :
    (∃ next, settle table contribution =
        ⟨(definitionMessage? scanned contribution).toList, .ok next⟩ ∧
      Settled (scanned ++ [contribution]) next) ∨
    ∃ cause, RefusesDefinition scanned contribution cause ∧
      settle table contribution = ⟨[], .error cause⟩ := by
  have isLog := settled.log_settle contribution
  rcases settled.settle_cases contribution with ⟨next, settles, after⟩ | ⟨cause, refused, fails⟩
  · exact Or.inl ⟨next, Logged.eq_mk isLog settles, after⟩
  · obtain ⟨first, strong, onlyOne, -⟩ := id refused
    have noMessage : definitionMessage? scanned contribution = none :=
      definitionMessage?_eq_none_iff.mpr (Or.inr ⟨strong, by simp [onlyOne]⟩)
    rw [noMessage] at isLog
    exact Or.inr ⟨cause, refused, Logged.eq_mk isLog fails⟩

theorem settleAll_eq_cases (units : List LinkUnit) :
    (∃ table, settleAll units = ⟨definitionLog (allContributions units), .ok table⟩ ∧
      Settled (allContributions units) table) ∨
    ∃ scanned second later cause, allContributions units = scanned ++ second :: later ∧
      RefusesDefinition scanned second cause ∧
      settleAll units = ⟨definitionLog scanned, .error cause⟩ :=
  Logged.foldlM_cases settle definitionMessage? (allContributions units) Settled.empty
    fun _ contribution _ _ _ settled => settled.settle_eq_cases contribution

end Definitions

section Aliases

variable {applied : List AliasDecl} {declaration : AliasDecl} {image : Image}

theorem declarationMessage?_eq_none_iff :
    declarationMessage? units declaration = none ↔ Unresolved units declaration := by
  rw [Unresolved, not_isDefined_iff, not_isDefined_iff, declarationMessage?]
  cases inForce? (allContributions units) declaration.name with
  | none => simp
  | some present => simp

theorem Applied.log_applyAlias (before : Applied units applied image)
    (fresh : ∀ earlier ∈ applied, earlier.name ≠ declaration.name)
    (final : ∀ earlier ∈ applied, earlier.name ≠ declaration.target) :
    (applyAlias image declaration).log = (declarationMessage? units declaration).toList := by
  have ofName := before.find?_of_no_alias fresh
  have ofTarget := before.find?_of_no_alias final
  unfold declarationMessage?
  cases named : inForce? (allContributions units) declaration.name with
  | some present =>
      rw [named] at ofName
      rw [applyAlias_of_defined ofName]
      rfl
  | none =>
      rw [named] at ofName
      cases inForce : inForce? (allContributions units) declaration.target with
      | none =>
          rw [inForce] at ofTarget
          rw [applyAlias_of_unresolved ofName ofTarget]
          rfl
      | some target =>
          rw [inForce] at ofTarget
          rw [applyAlias_of_provided ofName ofTarget]
          rfl

/-- One more declaration is applied with its message, or refused without one. -/
theorem Applied.applyAlias_eq_cases (before : Applied units applied image)
    (fresh : ∀ earlier ∈ applied, earlier.name ≠ declaration.name)
    (final : ∀ earlier ∈ applied, earlier.name ≠ declaration.target) :
    (∃ next, applyAlias image declaration =
        ⟨(declarationMessage? units declaration).toList, .ok next⟩ ∧
      Applied units (applied ++ [declaration]) next) ∨
    ∃ cause, RefusesDeclaration units applied declaration cause ∧
      applyAlias image declaration = ⟨[], .error cause⟩ := by
  have isLog := before.log_applyAlias fresh final
  rcases before.applyAlias_cases fresh final with ⟨next, applies, after⟩ | ⟨cause, refused, fails⟩
  · exact Or.inl ⟨next, Logged.eq_mk isLog applies, after⟩
  · rw [declarationMessage?_eq_none_iff.mpr refused.1] at isLog
    exact Or.inr ⟨cause, refused, Logged.eq_mk isLog fails⟩

theorem applyAll_eq_cases {registry : AliasRegistry capacity}
    (wellFormed : registry.WellFormed) (start : Applied units [] image) :
    (∃ last, registry.declarations.foldlM applyAlias image =
        ⟨declarationLog units registry.declarations, .ok last⟩ ∧
      Applied units registry.declarations last) ∨
    ∃ before declaration later cause,
      registry.declarations = before ++ declaration :: later ∧
      RefusesDeclaration units before declaration cause ∧
      registry.declarations.foldlM applyAlias image =
        ⟨declarationLog units before, .error cause⟩ := by
  have cases := Logged.foldlM_cases applyAlias (fun _ => declarationMessage? units)
    registry.declarations start fun _ _ _ _ whole before =>
      before.applyAlias_eq_cases (wellFormed.name_ne_of_before whole)
        (wellFormed.name_ne_target_of_before whole)
  simp only [Logged.messagesAlong_eq_filterMap] at cases
  exact cases

end Aliases

/-- The closing line counts what it says it does. -/
theorem summary_eq {table : NameTable Contribution} {image : Image}
    (names : table.toList.map Named.name = definedNames units)
    (listed : Listed units declarations image) :
    (⟨.info, summary units.length table.size image⟩ : Message) =
      closingMessage units declarations := by
  have explicitCount : table.size = (definedNames units).length := by
    rw [← names, List.length_map]
    rfl
  have whole := congrArg List.length listed.names
  rw [List.length_map, List.length_append, List.length_map, ← size_eq_length_toList] at whole
  have providedCount : image.size - table.size = (providedBy units declarations).length := by
    omega
  have overriddenCount : image.overridden.length =
      (overriddenBy units declarations).length := by
    rw [listed.overridden, List.length_map]
  delta summary closingMessage
  rw [providedCount, explicitCount, overriddenCount]

theorem account_link (units : List LinkUnit) {registry : AliasRegistry capacity}
    (wellFormed : registry.WellFormed) :
    Account units registry.declarations (link units registry) := by
  rcases settleAll_eq_cases units with
    ⟨table, settles, settled⟩ | ⟨scanned, second, later, cause, whole, refused, fails⟩
  · have noConflict := settled.not_conflicts
    have names := names_of_settleAll (congrArg Logged.outcome settles)
    rcases applyAll_eq_cases wellFormed (Applied.ofContributions settled) with
      ⟨image, applies, applied⟩ | ⟨before, declaration, later, cause, whole, refused, fails⟩
    · have listed : Listed units registry.declarations image :=
        Listed.applyAll wellFormed (.ofContributions names)
          (congrArg Logged.outcome applies)
      rw [link, settles, Logged.bind_ok, applies, Logged.bind_ok]
      cases missing : firstUndefined? units image with
      | none =>
          have noneDangling := (firstUndefined?_eq_none_iff applied).mp missing
          have account := Account.linked noConflict applied.resolved noneDangling listed
          rw [← summary_eq names listed, List.append_assoc] at account
          exact account
      | some cause =>
          obtain ⟨unit, name, dangling, rfl⟩ :=
            firstDangling_of_firstUndefined? applied missing
          have account := Account.dangling noConflict applied.resolved dangling
          rw [← List.append_nil (declarationLog units registry.declarations)] at account
          exact account
    · rw [link, settles, Logged.bind_ok, fails, Logged.bind_error]
      exact .unresolved noConflict whole refused
  · rw [link, fails, Logged.bind_error]
    exact .conflict whole refused

theorem severity_of_mem_definitionLog {contributions : List Contribution} {message : Message}
    (member : message ∈ definitionLog contributions) : message.severity = .debug := by
  obtain ⟨scanned, contribution, isMessage⟩ := Logged.exists_of_mem_messagesAlong member
  obtain ⟨inForce, -, isMessage⟩ := Option.bind_eq_some_iff.mp isMessage
  split at isMessage
  · injection isMessage with isMessage
    rw [← isMessage]
  · injection isMessage with isMessage
    rw [← isMessage]
  · contradiction

theorem severity_of_mem_declarationLog {message : Message}
    (member : message ∈ declarationLog units declarations) :
    message.severity = .debug ∨ message.severity = .notice := by
  obtain ⟨declaration, -, isMessage⟩ := List.mem_filterMap.mp member
  unfold declarationMessage? at isMessage
  split at isMessage
  · injection isMessage with isMessage
    exact Or.inr (isMessage ▸ rfl)
  · obtain ⟨target, -, rfl⟩ := Option.map_eq_some_iff.mp isMessage
    exact Or.inl rfl

namespace Account

variable {logged : Logged LinkError Image}

theorem log_of_ok (account : Account units declarations logged) {image : Image}
    (linked : logged.outcome = .ok image) :
    logged.log = definitionLog (allContributions units) ++
      declarationLog units declarations ++ [closingMessage units declarations] := by
  cases account with
  | conflict => contradiction
  | unresolved => contradiction
  | dangling => contradiction
  | linked => rfl

/-- Before the closing message there is none of its kind. -/
theorem exists_of_info (account : Account units declarations logged) {message : Message}
    (member : message ∈ logged.log) (isInfo : message.severity = .info) :
    ∃ image, logged.outcome = .ok image := by
  have notDefinition : ∀ contributions, message ∉ definitionLog contributions := by
    intro contributions inLog
    rw [severity_of_mem_definitionLog inLog] at isInfo
    contradiction
  have notDeclaration : ∀ applied, message ∉ declarationLog units applied := by
    intro applied inLog
    rcases severity_of_mem_declarationLog inLog with isDebug | isNotice
    · rw [isDebug] at isInfo
      contradiction
    · rw [isNotice] at isInfo
      contradiction
  cases account with
  | conflict => exact absurd member (notDefinition _)
  | unresolved =>
      rcases List.mem_append.mp member with inLog | inLog
      · exact absurd inLog (notDefinition _)
      · exact absurd inLog (notDeclaration _)
  | dangling =>
      rcases List.mem_append.mp member with inLog | inLog
      · exact absurd inLog (notDefinition _)
      · exact absurd inLog (notDeclaration _)
  | @linked image => exact ⟨image, rfl⟩

/-- A closing message is written exactly when there is an image. -/
theorem exists_info_iff (account : Account units declarations logged) :
    (∃ message ∈ logged.log, message.severity = .info) ↔
      ∃ image, logged.outcome = .ok image := by
  constructor
  · rintro ⟨message, member, isInfo⟩
    exact account.exists_of_info member isInfo
  · rintro ⟨image, linked⟩
    refine ⟨closingMessage units declarations, ?_, rfl⟩
    rw [account.log_of_ok linked]
    exact List.mem_append_right _ List.mem_cons_self

end Account

/-- The log of a link accounts for every decision.  Its messages are those of the
definitions in scan order, those of the declarations in their order and, exactly when
there is an image, the closing one; a link that fails has written those in front of what
it fails at.  Each definition that meets an earlier one without conflict has its message,
and so has each declaration that is resolved.  No stand-in for the unit of a symbol is
ever shown. -/
theorem log_link (units : List LinkUnit) {registry : AliasRegistry capacity}
    (reachable : registry.Reachable) :
    Account units registry.declarations (link units registry) ∧
    ((∃ message ∈ (link units registry).log, message.severity = .info) ↔
      ∃ image, (link units registry).outcome = .ok image) ∧
    (∀ scanned contribution, definitionMessage? scanned contribution = none ↔
      (∀ earlier ∈ scanned, earlier.definition.name ≠ contribution.definition.name) ∨
      contribution.definition.strength = .strong ∧
        definitionsOf scanned .strong contribution.definition.name ≠ []) ∧
    (∀ declaration, declarationMessage? units declaration = none ↔
      Unresolved units declaration) ∧
    ∀ standIn, linkNaming standIn units registry = link units registry := by
  have account := account_link units reachable.wellFormed
  refine ⟨account, account.exists_info_iff, ?_, ?_, ?_⟩
  · intro scanned contribution
    exact definitionMessage?_eq_none_iff
  · intro declaration
    exact declarationMessage?_eq_none_iff
  · intro standIn
    exact linkNaming_eq standIn units reachable.wellFormed

/-- A weak definition is overridden and another one is ignored; one alias gives way to a
definition and the other one is provided. -/
theorem log_link_two_units :
    let early : LinkUnit :=
      ⟨"early.o", [⟨⟨"_text"⟩, ⟨0x1000⟩, .named ".text", .weak⟩,
        ⟨⟨"_end"⟩, ⟨0x9000⟩, .absolute, .strong⟩], []⟩
    let head : LinkUnit :=
      ⟨"head.o", [⟨⟨"__pi__end"⟩, ⟨0x7000⟩, .absolute, .weak⟩,
        ⟨⟨"_text"⟩, ⟨0x2000⟩, .named ".head.text", .strong⟩,
        ⟨⟨"_end"⟩, ⟨0x8000⟩, .absolute, .weak⟩], []⟩
    let registry : AliasRegistry 2 :=
      ⟨[⟨⟨"__pi__end"⟩, ⟨"_end"⟩⟩, ⟨⟨"__pi__text"⟩, ⟨"_text"⟩⟩]⟩
    registry.Reachable ∧
      (link [early, head] registry).log =
        [⟨.debug, "_text of 'head.o' overrides weak definition of 'early.o'"⟩,
          ⟨.debug, "weak _end of 'head.o' ignored, already defined by 'early.o'"⟩,
          ⟨.notice, "__pi__end defined by 'head.o' at 0x00000000'00007000, " ++
            "alias to _end ignored"⟩,
          ⟨.debug, "PROVIDE __pi__text = _text (0x00000000'00002000 in .head.text)"⟩,
          ⟨.info, "linked 2 units: 3 symbols, 1 provided, 1 overridden"⟩] ∧
      linkNaming "?" [early, head] registry = link [early, head] registry := by
  intro early head registry
  have first : AliasRegistry.empty.declare ⟨"__pi__end"⟩ ⟨"_end"⟩ =
      .ok (⟨[⟨⟨"__pi__end"⟩, ⟨"_end"⟩⟩]⟩ : AliasRegistry 2) := rfl
  have second : (⟨[⟨⟨"__pi__end"⟩, ⟨"_end"⟩⟩]⟩ : AliasRegistry 2).declare ⟨"__pi__text"⟩
      ⟨"_text"⟩ = .ok registry := rfl
  have reachable : registry.Reachable := .declare (.declare .empty first) second
  obtain ⟨image, linked⟩ := (verdict_link [early, head] reachable.wellFormed).exists_image
    (by decide) (by decide) (by decide)
  obtain ⟨account, -, -, -, sameForAll⟩ := log_link [early, head] reachable
  refine ⟨reachable, ?_, sameForAll "?"⟩
  exact (account.log_of_ok linked).trans (by decide +kernel)

end Link
end EarlyBoot
