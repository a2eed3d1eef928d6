import EarlyBoot.Link.Resolve
import EarlyBoot.Proofs.Outcome
import Mathlib.Data.List.Count
import Mathlib.Data.List.Nodup

/-!
# Who wins a name

The definitions of all units compete for their names in scan order.  The strong
definition of a name is in force if there is one, and the first weak one
otherwise.  Settling the definitions one after another keeps exactly that: the
table finds for every name the definition in force among those already scanned,
and it stops at the first name that gets a second strong definition.
-/

namespace EarlyBoot
namespace Link

/-- The definitions of a name that have a strength, in scan order. -/
def definitionsOf (scanned : List Contribution) (strength : Strength)
    (name : SymbolName) : List Contribution :=
  scanned.filter fun contribution =>
    contribution.definition.strength = strength ∧ contribution.definition.name = name

/-- The definition of a name that is in force after the scan. -/
def inForce? (scanned : List Contribution) (name : SymbolName) : Option Contribution :=
  (definitionsOf scanned .strong name).head?.or (definitionsOf scanned .weak name).head?

/-- Some unit defines the name. -/
def IsDefined (units : List LinkUnit) (name : SymbolName) : Prop :=
  ∃ unit ∈ units, ∃ definition ∈ unit.definitions, definition.name = name

/-- Some name has more than one strong definition. -/
def Conflicts (units : List LinkUnit) : Prop :=
  ∃ name, 2 ≤ (definitionsOf (allContributions units) .strong name).length

/-- The second strong definition of a name, and the first one of that name, where
no name has had two strong definitions before. -/
def FirstConflict (units : List LinkUnit) (first second : Contribution) : Prop :=
  ∃ scanned later, allContributions units = scanned ++ second :: later ∧
    second.definition.strength = .strong ∧
    definitionsOf scanned .strong second.definition.name = [first] ∧
    ∀ other, (definitionsOf scanned .strong other).length ≤ 1

instance (units : List LinkUnit) (name : SymbolName) : Decidable (IsDefined units name) :=
  inferInstanceAs
    (Decidable (∃ unit ∈ units, ∃ definition ∈ unit.definitions, definition.name = name))

theorem mem_definitionsOf {scanned : List Contribution} {strength : Strength}
    {name : SymbolName} {contribution : Contribution} :
    contribution ∈ definitionsOf scanned strength name ↔
      contribution ∈ scanned ∧ contribution.definition.strength = strength ∧
        contribution.definition.name = name := by
  simp [definitionsOf]

theorem definitionsOf_append (before after : List Contribution) (strength : Strength)
    (name : SymbolName) :
    definitionsOf (before ++ after) strength name =
      definitionsOf before strength name ++ definitionsOf after strength name :=
  List.filter_append ..

theorem definitionsOf_singleton_self (contribution : Contribution) :
    definitionsOf [contribution] contribution.definition.strength
      contribution.definition.name = [contribution] := by
  simp [definitionsOf]

theorem definitionsOf_singleton_of_strength_ne {contribution : Contribution}
    {strength : Strength} (differs : contribution.definition.strength ≠ strength)
    (name : SymbolName) : definitionsOf [contribution] strength name = [] := by
  simp [definitionsOf, differs]

theorem definitionsOf_singleton_of_name_ne {contribution : Contribution}
    {name : SymbolName} (differs : contribution.definition.name ≠ name)
    (strength : Strength) : definitionsOf [contribution] strength name = [] := by
  simp [definitionsOf, differs]

theorem inForce?_eq_some_iff {scanned : List Contribution} {name : SymbolName}
    {contribution : Contribution} :
    inForce? scanned name = some contribution ↔
      (definitionsOf scanned .strong name).head? = some contribution ∨
        definitionsOf scanned .strong name = [] ∧
          (definitionsOf scanned .weak name).head? = some contribution := by
  simp [inForce?]

theorem definitionsOf_eq_nil_of_inForce?_eq_none {scanned : List Contribution}
    {name : SymbolName} (absent : inForce? scanned name = none) (strength : Strength) :
    definitionsOf scanned strength name = [] := by
  simp only [inForce?, Option.or_eq_none_iff, List.head?_eq_none_iff] at absent
  cases strength with
  | weak => exact absent.2
  | strong => exact absent.1

theorem inForce?_eq_none_iff {scanned : List Contribution} {name : SymbolName} :
    inForce? scanned name = none ↔
      ∀ contribution ∈ scanned, contribution.definition.name ≠ name := by
  constructor
  · intro absent contribution member sameName
    have listed := mem_definitionsOf.mpr ⟨member, rfl, sameName⟩
    rw [definitionsOf_eq_nil_of_inForce?_eq_none absent] at listed
    contradiction
  · intro absent
    have empty : ∀ strength, definitionsOf scanned strength name = [] := by
      intro strength
      apply List.eq_nil_iff_forall_not_mem.mpr
      intro contribution listed
      obtain ⟨member, -, sameName⟩ := mem_definitionsOf.mp listed
      exact absent contribution member sameName
    simp [inForce?, empty]

theorem mem_of_inForce? {scanned : List Contribution} {name : SymbolName}
    {contribution : Contribution} (found : inForce? scanned name = some contribution) :
    contribution ∈ scanned ∧ contribution.definition.name = name := by
  rcases inForce?_eq_some_iff.mp found with strong | ⟨-, weak⟩
  · obtain ⟨member, -, sameName⟩ := mem_definitionsOf.mp (List.mem_of_head? strong)
    exact ⟨member, sameName⟩
  · obtain ⟨member, -, sameName⟩ := mem_definitionsOf.mp (List.mem_of_head? weak)
    exact ⟨member, sameName⟩

/-- Where there is a strong definition, a strong definition is in force. -/
theorem exists_inForce?_of_strong {scanned : List Contribution} {name : SymbolName}
    (hasStrong : definitionsOf scanned .strong name ≠ []) :
    ∃ strong ∈ definitionsOf scanned .strong name, inForce? scanned name = some strong := by
  refine ⟨(definitionsOf scanned .strong name).head hasStrong, List.head_mem _, ?_⟩
  exact inForce?_eq_some_iff.mpr (Or.inl (List.head?_eq_some_head _))

theorem inForce?_append_of_name_ne {contribution : Contribution} {name : SymbolName}
    (differs : contribution.definition.name ≠ name) (scanned : List Contribution) :
    inForce? (scanned ++ [contribution]) name = inForce? scanned name := by
  simp [inForce?, definitionsOf_append, definitionsOf_singleton_of_name_ne differs]

theorem isDefined_iff {units : List LinkUnit} {name : SymbolName} :
    IsDefined units name ↔
      ∃ contribution ∈ allContributions units, contribution.definition.name = name := by
  constructor
  · rintro ⟨unit, unitMember, definition, member, sameName⟩
    refine ⟨⟨unit.name, definition⟩, ?_, sameName⟩
    exact List.mem_flatMap.mpr ⟨unit, unitMember, List.mem_map.mpr ⟨definition, member, rfl⟩⟩
  · rintro ⟨contribution, member, sameName⟩
    obtain ⟨unit, unitMember, fromUnit⟩ := List.mem_flatMap.mp member
    obtain ⟨definition, definitionMember, rfl⟩ := List.mem_map.mp fromUnit
    exact ⟨unit, unitMember, definition, definitionMember, sameName⟩

theorem not_isDefined_iff {units : List LinkUnit} {name : SymbolName} :
    ¬ IsDefined units name ↔ inForce? (allContributions units) name = none := by
  simp [isDefined_iff, inForce?_eq_none_iff]

theorem exists_inForce?_of_isDefined {units : List LinkUnit} {name : SymbolName}
    (defined : IsDefined units name) :
    ∃ contribution, inForce? (allContributions units) name = some contribution := by
  rw [← Option.ne_none_iff_exists']
  exact fun absent => not_isDefined_iff.mpr absent defined

section Settle

variable {table : NameTable Contribution} {contribution inForce : Contribution}

/-- Says that a weak definition is ignored. -/
def ignoredText (contribution : Contribution) (first : String) : String :=
  "weak " ++ contribution.definition.name.text ++ " of '" ++ contribution.unit ++
    "' ignored, already defined by '" ++ first ++ "'"

/-- Says that a strong definition takes the place of a weak one. -/
def overridesText (contribution : Contribution) (first : String) : String :=
  contribution.definition.name.text ++ " of '" ++ contribution.unit ++
    "' overrides weak definition of '" ++ first ++ "'"

theorem settle_of_absent (absent : table.find? contribution.definition.name = none) :
    settle table contribution = ⟨[], .ok (table.insert contribution)⟩ := by
  simp only [settle, absent]
  rfl

theorem settle_of_weak (found : table.find? contribution.definition.name = some inForce)
    (weak : contribution.definition.strength = .weak) :
    settle table contribution =
      ⟨[⟨.debug, ignoredText contribution inForce.unit⟩], .ok table⟩ := by
  simp only [settle, found, weak]
  rfl

theorem settle_of_override (found : table.find? contribution.definition.name = some inForce)
    (strong : contribution.definition.strength = .strong)
    (weak : inForce.definition.strength = .weak) :
    settle table contribution =
      ⟨[⟨.debug, overridesText contribution inForce.unit⟩],
        .ok (table.insert contribution)⟩ := by
  simp only [settle, found, strong, weak]
  rfl

theorem settle_of_conflict (found : table.find? contribution.definition.name = some inForce)
    (strong : contribution.definition.strength = .strong)
    (rival : inForce.definition.strength = .strong) :
    settle table contribution =
      ⟨[], .error (.multipleDefinition contribution.definition.name inForce.unit
        contribution.unit)⟩ := by
  simp only [settle, found, strong, rival]
  rfl

theorem outcome_settle_of_absent
    (absent : table.find? contribution.definition.name = none) :
    (settle table contribution).outcome = .ok (table.insert contribution) :=
  congrArg Logged.outcome (settle_of_absent absent)

theorem outcome_settle_of_weak
    (found : table.find? contribution.definition.name = some inForce)
    (weak : contribution.definition.strength = .weak) :
    (settle table contribution).outcome = .ok table :=
  congrArg Logged.outcome (settle_of_weak found weak)

theorem outcome_settle_of_override
    (found : table.find? contribution.definition.name = some inForce)
    (strong : contribution.definition.strength = .strong)
    (weak : inForce.definition.strength = .weak) :
    (settle table contribution).outcome = .ok (table.insert contribution) :=
  congrArg Logged.outcome (settle_of_override found strong weak)

theorem outcome_settle_of_conflict
    (found : table.find? contribution.definition.name = some inForce)
    (strong : contribution.definition.strength = .strong)
    (rival : inForce.definition.strength = .strong) :
    (settle table contribution).outcome =
      .error (.multipleDefinition contribution.definition.name inForce.unit
        contribution.unit) :=
  congrArg Logged.outcome (settle_of_conflict found strong rival)

end Settle

/-- What the table holds after some definitions have been scanned. -/
structure Settled (scanned : List Contribution) (table : NameTable Contribution) :
    Prop where
  find?_eq : ∀ name, table.find? name = inForce? scanned name
  strong_le_one : ∀ name, (definitionsOf scanned .strong name).length ≤ 1

/-- A definition is the second strong one of its name and the first such one of all,
and the cause says so. -/
def RefusesDefinition (scanned : List Contribution) (second : Contribution) (cause : LinkError) :
    Prop :=
  ∃ first, second.definition.strength = .strong ∧
    definitionsOf scanned .strong second.definition.name = [first] ∧
    (∀ other, (definitionsOf scanned .strong other).length ≤ 1) ∧
    cause = .multipleDefinition second.definition.name first.unit second.unit

namespace Settled

variable {scanned : List Contribution} {table : NameTable Contribution}
  {contribution : Contribution}

theorem empty : Settled [] .empty where
  find?_eq _ := by simp [inForce?, definitionsOf]
  strong_le_one _ := by simp [definitionsOf]

theorem strong_eq_singleton (settled : Settled scanned table) {name : SymbolName}
    (found : table.find? name = some contribution)
    (strong : contribution.definition.strength = .strong) :
    definitionsOf scanned .strong name = [contribution] := by
  have atMostOne := settled.strong_le_one name
  rw [settled.find?_eq] at found
  rcases inForce?_eq_some_iff.mp found with isHead | ⟨-, isHead⟩
  · obtain ⟨rest, listEq⟩ := List.head?_eq_some_iff.mp isHead
    have restEmpty : rest = [] := by
      rw [listEq] at atMostOne
      simpa using atMostOne
    rw [listEq, restEmpty]
  · obtain ⟨-, weak, -⟩ := mem_definitionsOf.mp (List.mem_of_head? isHead)
    rw [strong] at weak
    contradiction

theorem strong_eq_nil (settled : Settled scanned table) {name : SymbolName}
    (found : table.find? name = some contribution)
    (weak : contribution.definition.strength = .weak) :
    definitionsOf scanned .strong name = [] := by
  rw [settled.find?_eq] at found
  rcases inForce?_eq_some_iff.mp found with isHead | ⟨empty, -⟩
  · obtain ⟨-, strong, -⟩ := mem_definitionsOf.mp (List.mem_of_head? isHead)
    rw [weak] at strong
    contradiction
  · exact empty

/-- A definition that no strong one of its name precedes may be put in force. -/
theorem insert (settled : Settled scanned table)
    (noStrong : definitionsOf scanned .strong contribution.definition.name = [])
    (wins : contribution.definition.strength = .strong ∨
      table.find? contribution.definition.name = none) :
    Settled (scanned ++ [contribution]) (table.insert contribution) where
  find?_eq name := by
    have lookup : (table.insert contribution).find? name =
        if contribution.definition.name = name then some contribution
        else table.find? name :=
      table.find?_insert contribution name
    by_cases same : contribution.definition.name = name
    · subst same
      rw [lookup, if_pos rfl]
      symm
      apply inForce?_eq_some_iff.mpr
      rw [definitionsOf_append, definitionsOf_append, noStrong]
      cases strength : contribution.definition.strength with
      | strong =>
          left
          rw [← strength, definitionsOf_singleton_self]
          rfl
      | weak =>
          right
          have absent : table.find? contribution.definition.name = none := by
            rcases wins with strong | absent
            · rw [strength] at strong
              contradiction
            · exact absent
          rw [settled.find?_eq] at absent
          rw [definitionsOf_eq_nil_of_inForce?_eq_none absent, ← strength,
            definitionsOf_singleton_self,
            definitionsOf_singleton_of_strength_ne (by simp [strength])]
          exact ⟨rfl, rfl⟩
    · rw [lookup, if_neg same, settled.find?_eq, inForce?_append_of_name_ne same]
  strong_le_one name := by
    rw [definitionsOf_append]
    by_cases same : contribution.definition.name = name
    · subst same
      rw [noStrong, List.nil_append]
      exact List.length_filter_le _ [contribution]
    · rw [definitionsOf_singleton_of_name_ne same, List.append_nil]
      exact settled.strong_le_one name

/-- A weak definition of a name that is defined changes nothing. -/
theorem ignore (settled : Settled scanned table)
    (weak : contribution.definition.strength = .weak) {inForce : Contribution}
    (found : table.find? contribution.definition.name = some inForce) :
    Settled (scanned ++ [contribution]) table where
  find?_eq name := by
    by_cases same : contribution.definition.name = name
    · subst same
      rw [found]
      rw [settled.find?_eq] at found
      symm
      apply inForce?_eq_some_iff.mpr
      rw [definitionsOf_append, definitionsOf_append,
        definitionsOf_singleton_of_strength_ne (by simp [weak]), List.append_nil]
      rcases inForce?_eq_some_iff.mp found with strong | ⟨noStrong, isHead⟩
      · exact Or.inl strong
      · right
        rw [List.head?_append, isHead]
        exact ⟨noStrong, rfl⟩
    · rw [settled.find?_eq, inForce?_append_of_name_ne same]
  strong_le_one name := by
    rw [definitionsOf_append, definitionsOf_singleton_of_strength_ne (by simp [weak]),
      List.append_nil]
    exact settled.strong_le_one name

/-- One more definition is settled, or it is the second strong one of its name. -/
theorem settle_cases (settled : Settled scanned table) (contribution : Contribution) :
    (∃ next, (settle table contribution).outcome = .ok next ∧
        Settled (scanned ++ [contribution]) next) ∨
      ∃ cause, RefusesDefinition scanned contribution cause ∧
        (settle table contribution).outcome = .error cause := by
  cases found : table.find? contribution.definition.name with
  | none =>
      left
      have absent := found
      rw [settled.find?_eq] at absent
      exact ⟨_, outcome_settle_of_absent found,
        settled.insert (definitionsOf_eq_nil_of_inForce?_eq_none absent _) (Or.inr found)⟩
  | some inForce =>
      cases strength : contribution.definition.strength with
      | weak =>
          left
          exact ⟨table, outcome_settle_of_weak found strength, settled.ignore strength found⟩
      | strong =>
          cases rival : inForce.definition.strength with
          | weak =>
              left
              have noStrong := settled.strong_eq_nil found rival
              exact ⟨_, outcome_settle_of_override found strength rival,
                settled.insert noStrong (Or.inl strength)⟩
          | strong =>
              right
              have onlyOne := settled.strong_eq_singleton found rival
              exact ⟨_, ⟨inForce, strength, onlyOne, settled.strong_le_one, rfl⟩,
                outcome_settle_of_conflict found strength rival⟩

end Settled

/-- All definitions are settled, or the first conflict is reported. -/
theorem settleAll_cases (units : List LinkUnit) :
    (∃ table, (settleAll units).outcome = .ok table ∧
        Settled (allContributions units) table) ∨
      ∃ first second, FirstConflict units first second ∧
        (settleAll units).outcome =
          .error (.multipleDefinition second.definition.name first.unit second.unit) := by
  rw [settleAll, Logged.outcome_foldlM]
  rcases Outcome.foldlM_cases _ (allContributions units) Settled.empty
      (fun _ contribution _ _ _ settled => settled.settle_cases contribution) with
    ⟨table, settles, settled⟩ | ⟨scanned, second, later, cause, whole, refused, fails⟩
  · exact Or.inl ⟨table, settles, settled⟩
  · obtain ⟨first, strong, onlyOne, noEarlier, rfl⟩ := refused
    exact Or.inr ⟨first, second, ⟨scanned, later, whole, strong, onlyOne, noEarlier⟩, fails⟩

theorem length_definitionsOf_strong (scanned : List Contribution) (name : SymbolName) :
    (definitionsOf scanned .strong name).length =
      ((scanned.filter fun contribution => contribution.definition.strength = .strong).map
        fun contribution => contribution.definition.name).count name := by
  induction scanned with
  | nil => rfl
  | cons contribution scanned ih =>
      have front : definitionsOf (contribution :: scanned) .strong name =
          definitionsOf [contribution] .strong name ++ definitionsOf scanned .strong name :=
        definitionsOf_append [contribution] scanned .strong name
      rw [front, List.length_append, ih]
      by_cases strong : contribution.definition.strength = .strong
      · by_cases same : contribution.definition.name = name
        · simp [definitionsOf, strong, same, Nat.add_comm]
        · simp [definitionsOf, strong, same]
      · simp [definitionsOf, strong]

/-- No name has two strong definitions when the names of the strong definitions
are distinct. -/
theorem conflicts_iff {units : List LinkUnit} :
    Conflicts units ↔
      ¬ (((allContributions units).filter
          fun contribution => contribution.definition.strength = .strong).map
        fun contribution => contribution.definition.name).Nodup := by
  simp only [Conflicts, length_definitionsOf_strong, List.nodup_iff_count_le_one,
    not_forall, Nat.not_le]
  exact Iff.rfl

instance (units : List LinkUnit) : Decidable (Conflicts units) :=
  decidable_of_iff' _ conflicts_iff

theorem conflicts_of_firstConflict {units : List LinkUnit} {first second : Contribution}
    (conflict : FirstConflict units first second) : Conflicts units := by
  obtain ⟨scanned, later, whole, strong, onlyOne, -⟩ := conflict
  refine ⟨second.definition.name, ?_⟩
  have split : scanned ++ second :: later = scanned ++ ([second] ++ later) := rfl
  rw [whole, split, definitionsOf_append, definitionsOf_append, onlyOne, ← strong,
    definitionsOf_singleton_self]
  simp

theorem Settled.not_conflicts {units : List LinkUnit} {table : NameTable Contribution}
    (settled : Settled (allContributions units) table) : ¬ Conflicts units := by
  rintro ⟨name, two⟩
  have one := settled.strong_le_one name
  omega

end Link
end EarlyBoot
