import EarlyBoot.Log

/-!
# Outcomes of folds

The outcome of a computation that writes messages does not depend on them, so
that a run of such computations is a fold in `Except`.  Such a fold either takes
every element in and keeps an invariant, or stops at the first element that its
step refuses.  The invariant speaks of the elements already taken in.
-/

namespace EarlyBoot

namespace Logged

variable {ε α β : Type}

@[simp]
theorem outcome_pure (result : α) :
    (pure result : Logged ε α).outcome = .ok result :=
  rfl

@[simp]
theorem outcome_write (severity : Severity) (text : String) :
    (write severity text : Logged ε Unit).outcome = .ok () :=
  rfl

@[simp]
theorem outcome_ofExcept (outcome : Except ε α) :
    (ofExcept outcome).outcome = outcome :=
  rfl

@[simp]
theorem outcome_bind (first : Logged ε α) (next : α → Logged ε β) :
    (first >>= next).outcome = first.outcome >>= fun result => (next result).outcome := by
  rcases first with ⟨log, outcome⟩
  cases outcome <;> rfl

theorem outcome_foldlM (step : β → α → Logged ε β) (start : β) (elements : List α) :
    (elements.foldlM step start).outcome =
      elements.foldlM (fun state element => (step state element).outcome) start := by
  induction elements generalizing start with
  | nil => rfl
  | cons element elements ih =>
      simp only [List.foldlM_cons, outcome_bind, ih]

end Logged

namespace Outcome

variable {ε α σ : Type}

theorem bind_eq_ok_iff {β : Type} {first : Except ε α} {next : α → Except ε β}
    {result : β} :
    (first >>= next) = .ok result ↔
      ∃ middle, first = .ok middle ∧ next middle = .ok result := by
  cases first with
  | error cause => simp [bind, Except.bind]
  | ok middle => simp [bind, Except.bind]

theorem ok_eq_ok_iff {condition : Prop} (holds : condition) {value result : α} :
    (.ok value : Except ε α) = .ok result ↔ condition ∧ result = value := by
  simp [holds, eq_comm]

theorem error_eq_ok_iff {condition : Prop} (fails : ¬ condition) {cause : ε}
    {value result : α} :
    (.error cause : Except ε α) = .ok result ↔ condition ∧ result = value := by
  simp [fails]

theorem map_eq_ok_iff {β : Type} {outcome : Except ε α} {change : α → β} {result : β} :
    outcome.map change = .ok result ↔
      ∃ before, outcome = .ok before ∧ change before = result := by
  cases outcome <;> simp [Except.map]

theorem bind_eq_error_iff {β : Type} {first : Except ε α} {next : α → Except ε β}
    {cause : ε} :
    (first >>= next) = .error cause ↔
      first = .error cause ∨ ∃ middle, first = .ok middle ∧ next middle = .error cause := by
  cases first with
  | error earlier => simp [bind, Except.bind]
  | ok middle => simp [bind, Except.bind]

theorem map_eq_error_iff {β : Type} {outcome : Except ε α} {change : α → β} {cause : ε} :
    outcome.map change = .error cause ↔ outcome = .error cause := by
  cases outcome <;> simp [Except.map]

theorem mapError_eq_ok_iff {ε' : Type} {outcome : Except ε α} {change : ε → ε'}
    {result : α} : outcome.mapError change = .ok result ↔ outcome = .ok result := by
  cases outcome with
  | error cause =>
      constructor
      · intro impossible
        contradiction
      · intro impossible
        contradiction
  | ok value =>
      constructor
      · intro same
        injection same with valueEq
        rw [valueEq]
      · rintro ⟨rfl⟩
        rfl

theorem mapError_eq_error_iff {ε' : Type} {outcome : Except ε α} {change : ε → ε'}
    {cause : ε'} :
    outcome.mapError change = .error cause ↔
      ∃ before, outcome = .error before ∧ change before = cause := by
  cases outcome with
  | error before =>
      constructor
      · intro same
        injection same with causeEq
        exact ⟨before, rfl, causeEq⟩
      · rintro ⟨_, ⟨rfl⟩, rfl⟩
        rfl
  | ok value =>
      constructor
      · intro impossible
        contradiction
      · rintro ⟨_, impossible, -⟩
        contradiction

/-- A list of readings succeeds where each of them does, with their results. -/
theorem mapM_eq_ok_iff {β : Type} {read : α → Except ε β} {succeeds : α → Prop}
    {value : α → β}
    (readsOne : ∀ element result,
      read element = .ok result ↔ succeeds element ∧ result = value element)
    (elements : List α) (results : List β) :
    elements.mapM read = .ok results ↔
      (∀ element ∈ elements, succeeds element) ∧ results = elements.map value := by
  induction elements generalizing results with
  | nil => simp [pure, Except.pure, eq_comm]
  | cons element elements ih =>
      rw [List.mapM_cons, bind_eq_ok_iff]
      simp only [bind_eq_ok_iff, readsOne, ih, List.forall_mem_cons, List.map_cons]
      constructor
      · rintro ⟨first, ⟨here, rfl⟩, rest, ⟨later, rfl⟩, built⟩
        injection built with whole
        exact ⟨⟨here, later⟩, whole.symm⟩
      · rintro ⟨⟨here, later⟩, rfl⟩
        exact ⟨_, ⟨here, rfl⟩, _, ⟨later, rfl⟩, rfl⟩

/-- A list of readings fails at the first of them that does. -/
theorem exists_of_mapM_eq_error {β : Type} {read : α → Except ε β} {elements : List α}
    {cause : ε} (failed : elements.mapM read = .error cause) :
    ∃ before element after, elements = before ++ element :: after ∧
      (∀ earlier ∈ before, ∃ result, read earlier = .ok result) ∧
      read element = .error cause := by
  induction elements with
  | nil => contradiction
  | cons element elements ih =>
      rw [List.mapM_cons, bind_eq_error_iff] at failed
      rcases failed with here | ⟨result, passed, later⟩
      · exact ⟨[], element, elements, rfl, by simp, here⟩
      · rw [bind_eq_error_iff] at later
        rcases later with later | ⟨results, -, impossible⟩
        · obtain ⟨before, failing, after, rfl, passes, fails⟩ := ih later
          refine ⟨element :: before, failing, after, rfl, ?_, fails⟩
          exact List.forall_mem_cons.mpr ⟨⟨result, passed⟩, passes⟩
        · contradiction

section Checks

variable {check : α → Except ε Unit}

theorem forM_cons (element : α) (elements : List α) :
    (element :: elements).forM check = check element >>= fun _ => elements.forM check :=
  rfl

theorem forM_append (first second : List α) :
    (first ++ second).forM check = first.forM check >>= fun _ => second.forM check := by
  induction first with
  | nil => rfl
  | cons element first ih => rw [List.cons_append, forM_cons, forM_cons, ih, bind_assoc]

theorem forM_flatMap {β : Type} (expand : β → List α) (elements : List β) :
    (elements.flatMap expand).forM check =
      elements.forM fun element => (expand element).forM check := by
  induction elements with
  | nil => rfl
  | cons element elements ih => rw [List.flatMap_cons, forM_append, ih, forM_cons]

/-- Some checks in order fail with the cause of the first that fails. -/
theorem forM_eq_error_iff {elements : List α} {cause : ε} :
    elements.forM check = .error cause ↔
      ∃ before element after, elements = before ++ element :: after ∧
        (∀ earlier ∈ before, check earlier = .ok ()) ∧ check element = .error cause := by
  constructor
  · induction elements with
    | nil =>
        intro impossible
        contradiction
    | cons element elements ih =>
        rw [forM_cons]
        intro fails
        cases outcome : check element with
        | error first =>
            rw [outcome] at fails
            injection fails with same
            exact ⟨[], element, elements, rfl, by simp, same ▸ outcome⟩
        | ok passed =>
            rw [outcome] at fails
            obtain ⟨before, failing, after, rfl, passes, fails⟩ := ih fails
            refine ⟨element :: before, failing, after, rfl, ?_, fails⟩
            exact List.forall_mem_cons.mpr ⟨outcome, passes⟩
  · rintro ⟨before, element, after, rfl, passes, fails⟩
    induction before with
    | nil =>
        rw [List.nil_append, forM_cons, fails]
        rfl
    | cons earlier before ih =>
        rw [List.forall_mem_cons] at passes
        rw [List.cons_append, forM_cons, passes.1]
        exact ih passes.2

theorem forM_eq_ok_iff {elements : List α} :
    elements.forM check = .ok () ↔ ∀ element ∈ elements, check element = .ok () := by
  induction elements with
  | nil => simp [pure, Except.pure]
  | cons element elements ih =>
      rw [forM_cons, bind_eq_ok_iff, List.forall_mem_cons, ← ih]
      constructor
      · rintro ⟨⟨⟩, here, later⟩
        exact ⟨here, later⟩
      · rintro ⟨here, later⟩
        exact ⟨(), here, later⟩

end Checks

/-- A step that succeeds from every state with a property ends in one. -/
theorem holds_of_foldlM_eq_ok {step : σ → α → Except ε σ} {holds : σ → Prop}
    (preserved : ∀ state element next,
      holds state → step state element = .ok next → holds next)
    {elements : List α} {start last : σ} (atStart : holds start)
    (ran : elements.foldlM step start = .ok last) : holds last := by
  induction elements generalizing start with
  | nil =>
      obtain rfl : start = last := by simpa [pure, Except.pure] using ran
      exact atStart
  | cons element elements ih =>
      rw [List.foldlM_cons] at ran
      obtain ⟨middle, first, rest⟩ := bind_eq_ok_iff.mp ran
      exact ih (preserved _ _ _ atStart first) rest

/-- A fold that fails does so at one of its elements. -/
theorem exists_of_foldlM_eq_error {step : σ → α → Except ε σ} {elements : List α}
    {start : σ} {cause : ε} (failed : elements.foldlM step start = .error cause) :
    ∃ element ∈ elements, ∃ state, step state element = .error cause := by
  induction elements generalizing start with
  | nil => contradiction
  | cons element elements ih =>
      rw [List.foldlM_cons, bind_eq_error_iff] at failed
      rcases failed with here | ⟨middle, -, later⟩
      · exact ⟨element, List.mem_cons_self, start, here⟩
      · obtain ⟨failing, member, state, fails⟩ := ih later
        exact ⟨failing, List.mem_cons_of_mem _ member, state, fails⟩

/-- A fold keeps an invariant of the elements taken in so far, or stops at the
first element that its step refuses. -/
theorem foldlM_cases (step : σ → α → Except ε σ) (elements : List α)
    {invariant : List α → σ → Prop} {refuses : List α → α → ε → Prop} {start : σ}
    (atStart : invariant [] start)
    (stepCases : ∀ taken element later state, elements = taken ++ element :: later →
      invariant taken state →
        (∃ next, step state element = .ok next ∧ invariant (taken ++ [element]) next) ∨
          ∃ cause, refuses taken element cause ∧ step state element = .error cause) :
    (∃ last, elements.foldlM step start = .ok last ∧ invariant elements last) ∨
      ∃ taken element later cause, elements = taken ++ element :: later ∧
        refuses taken element cause ∧ elements.foldlM step start = .error cause := by
  -- Induction on the elements still to come, with those taken in held fixed.
  suffices general : ∀ later taken state, elements = taken ++ later →
      invariant taken state →
        (∃ last, later.foldlM step state = .ok last ∧ invariant elements last) ∨
          ∃ before element after cause, elements = before ++ element :: after ∧
            refuses before element cause ∧ later.foldlM step state = .error cause from
    general elements [] start rfl atStart
  intro later
  induction later with
  | nil =>
      intro taken state whole holds
      rw [List.append_nil] at whole
      subst whole
      exact Or.inl ⟨state, rfl, holds⟩
  | cons element later ih =>
      intro taken state whole holds
      rcases stepCases taken element later state whole holds with
        ⟨next, stepped, holdsNext⟩ | ⟨cause, refused, stopped⟩
      · have regrouped : elements = (taken ++ [element]) ++ later := by
          rw [whole, List.append_assoc, List.singleton_append]
        have continues : (element :: later).foldlM step state =
            later.foldlM step next := by
          rw [List.foldlM_cons, stepped]
          rfl
        rw [continues]
        exact ih (taken ++ [element]) next regrouped holdsNext
      · have stops : (element :: later).foldlM step state = .error cause := by
          rw [List.foldlM_cons, stopped]
          rfl
        exact Or.inr ⟨taken, element, later, cause, whole, refused, stops⟩

/-- An invariant of the elements taken in that every step keeps holds at the end. -/
theorem invariant_of_foldlM_eq_ok {step : σ → α → Except ε σ}
    (invariant : List α → σ → Prop) {elements : List α} {start last : σ}
    (atStart : invariant [] start)
    (preserved : ∀ taken element later state next, elements = taken ++ element :: later →
      invariant taken state → step state element = .ok next →
        invariant (taken ++ [element]) next)
    (ran : elements.foldlM step start = .ok last) : invariant elements last := by
  have stepCases : ∀ taken element later state, elements = taken ++ element :: later →
      invariant taken state →
        (∃ next, step state element = .ok next ∧ invariant (taken ++ [element]) next) ∨
          ∃ cause, True ∧ step state element = .error cause := by
    intro taken element later state whole before
    cases outcome : step state element with
    | ok next => exact Or.inl ⟨next, rfl, preserved _ _ _ _ _ whole before outcome⟩
    | error cause => exact Or.inr ⟨cause, trivial, rfl⟩
  rcases foldlM_cases step elements atStart stepCases with
    ⟨reached, runs, holds⟩ | ⟨_, _, _, cause, _, _, fails⟩
  · rw [ran] at runs
    injection runs with same
    exact same ▸ holds
  · rw [ran] at fails
    contradiction

end Outcome
end EarlyBoot
