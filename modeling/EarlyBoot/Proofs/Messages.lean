import EarlyBoot.Proofs.Outcome

/-!
# Messages of folds

A fold of computations that write messages leaves those of its steps one after another,
up to the step that fails.  Two folds that go through related states and whose steps
write the same messages write the same messages.
-/

namespace EarlyBoot
namespace Logged

variable {ε α β σ τ : Type}

theorem bind_ok (log : List Message) (result : α) (next : α → Logged ε β) :
    ((⟨log, .ok result⟩ : Logged ε α) >>= next) =
      ⟨log ++ (next result).log, (next result).outcome⟩ :=
  rfl

theorem bind_error (log : List Message) (cause : ε) (next : α → Logged ε β) :
    ((⟨log, .error cause⟩ : Logged ε α) >>= next) = ⟨log, .error cause⟩ :=
  rfl

theorem eq_mk {logged : Logged ε α} {log : List Message} {outcome : Except ε α}
    (isLog : logged.log = log) (isOutcome : logged.outcome = outcome) :
    logged = ⟨log, outcome⟩ := by
  rw [← isLog, ← isOutcome]

/-- The messages about some elements behind others.  What is said of an element may
depend on those in front of it. -/
def messagesAlong (message? : List α → α → Option Message) :
    List α → List α → List Message
  | _, [] => []
  | taken, element :: later =>
      (message? taken element).toList ++ messagesAlong message? (taken ++ [element]) later

theorem messagesAlong_eq_filterMap (message? : α → Option Message)
    (taken elements : List α) :
    messagesAlong (fun _ => message?) taken elements = elements.filterMap message? := by
  induction elements generalizing taken with
  | nil => rfl
  | cons element elements ih =>
      rw [messagesAlong, ih, List.filterMap_cons]
      cases message? element <;> rfl

theorem exists_of_mem_messagesAlong {message? : List α → α → Option Message}
    {taken elements : List α} {message : Message}
    (member : message ∈ messagesAlong message? taken elements) :
    ∃ before element, message? before element = some message := by
  induction elements generalizing taken with
  | nil => contradiction
  | cons element elements ih =>
      rcases List.mem_append.mp member with here | later
      · exact ⟨taken, element, Option.mem_toList.mp here⟩
      · exact ih later

/-- A fold writes a message about every element that it takes in and keeps an invariant
of them, or stops at the first element that its step refuses. -/
theorem foldlM_cases (step : σ → α → Logged ε σ) (message? : List α → α → Option Message)
    (elements : List α) {invariant : List α → σ → Prop}
    {refuses : List α → α → ε → Prop} {start : σ} (atStart : invariant [] start)
    (stepCases : ∀ taken element later state, elements = taken ++ element :: later →
      invariant taken state →
        (∃ next, step state element = ⟨(message? taken element).toList, .ok next⟩ ∧
          invariant (taken ++ [element]) next) ∨
        ∃ cause, refuses taken element cause ∧ step state element = ⟨[], .error cause⟩) :
    (∃ last, elements.foldlM step start = ⟨messagesAlong message? [] elements, .ok last⟩ ∧
      invariant elements last) ∨
    ∃ taken element later cause, elements = taken ++ element :: later ∧
      refuses taken element cause ∧
      elements.foldlM step start = ⟨messagesAlong message? [] taken, .error cause⟩ := by
  -- Induction on the elements still to come, with those taken in held fixed.
  suffices general : ∀ later taken state, elements = taken ++ later →
      invariant taken state →
        (∃ last, later.foldlM step state = ⟨messagesAlong message? taken later, .ok last⟩ ∧
          invariant elements last) ∨
        ∃ passed element after cause, later = passed ++ element :: after ∧
          refuses (taken ++ passed) element cause ∧
          later.foldlM step state = ⟨messagesAlong message? taken passed, .error cause⟩ from
    general elements [] start rfl atStart
  intro later
  induction later with
  | nil =>
      intro taken state whole holds
      rw [List.append_nil] at whole
      exact Or.inl ⟨state, rfl, whole ▸ holds⟩
  | cons element later ih =>
      intro taken state whole holds
      rw [List.foldlM_cons]
      rcases stepCases taken element later state whole holds with
        ⟨next, stepped, holdsNext⟩ | ⟨cause, refused, stopped⟩
      · have regrouped : elements = (taken ++ [element]) ++ later := by
          rw [whole, List.append_assoc, List.singleton_append]
        rw [stepped, bind_ok]
        rcases ih (taken ++ [element]) next regrouped holdsNext with
          ⟨last, runs, holdsLast⟩ | ⟨passed, failing, after, cause, split, refused, stops⟩
        · rw [runs]
          exact Or.inl ⟨last, rfl, holdsLast⟩
        · rw [List.append_assoc, List.singleton_append] at refused
          rw [stops]
          exact Or.inr ⟨element :: passed, failing, after, cause, congrArg _ split, refused, rfl⟩
      · rw [stopped, bind_error]
        refine Or.inr ⟨[], element, later, cause, rfl, ?_, rfl⟩
        rw [List.append_nil]
        exact refused

/-- Two computations write the same messages and end with the same error or with related
results. -/
inductive Alike (related : σ → τ → Prop) : Logged ε σ → Logged ε τ → Prop where
  | ok (log : List Message) {first : σ} {second : τ} (holds : related first second) :
      Alike related ⟨log, .ok first⟩ ⟨log, .ok second⟩
  | error (log : List Message) (cause : ε) :
      Alike related ⟨log, .error cause⟩ ⟨log, .error cause⟩

namespace Alike

theorem of_eq {related : σ → σ → Prop} {first second : Logged ε σ} (same : first = second)
    (holds : ∀ result, first.outcome = .ok result → related result result) :
    Alike related first second := by
  subst same
  rcases first with ⟨log, cause | result⟩
  · exact .error log cause
  · exact .ok log (holds result rfl)

theorem eq {first second : Logged ε σ} (alike : Alike (· = ·) first second) :
    first = second := by
  cases alike with
  | ok log same => rw [same]
  | error log cause => rfl

section Relations

variable {related : σ → τ → Prop} {first : Logged ε σ} {second : Logged ε τ}

/-- The results are also those that the computations end with. -/
theorem with_outcome (alike : Alike related first second) :
    Alike (fun state other => related state other ∧ first.outcome = .ok state) first
      second := by
  cases alike with
  | ok log holds => exact .ok log ⟨holds, rfl⟩
  | error log cause => exact .error log cause

theorem bind {σ' τ' : Type} {later : σ' → τ' → Prop} (alike : Alike related first second)
    {next : σ → Logged ε σ'} {otherNext : τ → Logged ε τ'}
    (step : ∀ state other, related state other →
      Alike later (next state) (otherNext other)) :
    Alike later (first >>= next) (second >>= otherNext) := by
  cases alike with
  | error log cause => exact .error log cause
  | @ok log state other holds =>
      have following := step state other holds
      rw [bind_ok, bind_ok]
      generalize next state = logged at following
      generalize otherNext other = otherLogged at following
      cases following with
      | ok rest holdsLater => exact .ok (log ++ rest) holdsLater
      | error rest cause => exact .error (log ++ rest) cause

end Relations

/-- Folds whose steps write the same messages from related states do so as a whole.  The
relation may speak of the elements already taken in. -/
theorem foldlM {related : List α → σ → τ → Prop} {step : σ → α → Logged ε σ}
    {otherStep : τ → α → Logged ε τ} {elements : List α}
    (steps : ∀ taken element later state other, elements = taken ++ element :: later →
      related taken state other →
        Alike (related (taken ++ [element])) (step state element) (otherStep other element))
    {start : σ} {otherStart : τ} (atStart : related [] start otherStart) :
    Alike (related elements) (elements.foldlM step start)
      (elements.foldlM otherStep otherStart) := by
  suffices general : ∀ later taken state other, elements = taken ++ later →
      related taken state other →
        Alike (related elements) (later.foldlM step state) (later.foldlM otherStep other) from
    general elements [] start otherStart rfl atStart
  intro later
  induction later with
  | nil =>
      intro taken state other whole holds
      rw [List.append_nil] at whole
      exact .ok [] (whole ▸ holds)
  | cons element later ih =>
      intro taken state other whole holds
      have regrouped : elements = (taken ++ [element]) ++ later := by
        rw [whole, List.append_assoc, List.singleton_append]
      rw [List.foldlM_cons, List.foldlM_cons]
      exact (steps taken element later state other whole holds).bind
        fun next otherNext => ih (taken ++ [element]) next otherNext regrouped

end Alike

end Logged
end EarlyBoot
