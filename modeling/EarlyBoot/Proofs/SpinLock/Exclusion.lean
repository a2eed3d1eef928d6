import EarlyBoot.SpinLock

/-!
# One guard at a time

A run of a lock is a list of attempts of its clients, in whatever order they come,
and the history of a run keeps what became of each attempt.  The history alone says
which guards are out and which value was written last.  The lock is held exactly
while one guard is out, there is never a second one, and every guard shows the value
that was written last.

Which exchanges fail spuriously is part of a run, so that what holds of every run holds
whatever the machine decides.  Such a failure changes nothing, and a call for a guard
goes on after it: the call gets its guard exactly if the lock is free.
-/

namespace EarlyBoot
namespace Clients

variable {κ α : Type}

/-- An attempt of a client and what the client learned from it. -/
structure Event (κ α : Type) where
  client : κ
  attempt : Attempt α
  reply : Reply α

namespace Event

/-- Whether the client got a guard. -/
def takesGuard : Event κ α → Bool
  | ⟨_, .acquire _, .done⟩ => true
  | _ => false

/-- Whether the client gave its guard up. -/
def returnsGuard : Event κ α → Bool
  | ⟨_, .release, .done⟩ => true
  | _ => false

/-- The value that the client wrote through its guard, if it wrote one. -/
def written? : Event κ α → Option α
  | ⟨_, .write value, .done⟩ => some value
  | _ => none

end Event

/-- The value that was written last, through whichever guard, or the given one if
none was written. -/
def lastWritten (value : α) (history : List (Event κ α)) : α :=
  (history.filterMap Event.written?).getLast?.getD value

theorem lastWritten_append_singleton (value : α) (history : List (Event κ α))
    (event : Event κ α) :
    lastWritten value (history ++ [event]) =
      event.written?.getD (lastWritten value history) := by
  cases written : event.written? <;> simp [lastWritten, List.filterMap_append, written]

/-- What becomes of a call on a free lock: some failures, and then the guard. -/
def lockEvents (client : κ) : (failures : Nat) → List (Event κ α)
  | 0 => [⟨client, .acquire false, .done⟩]
  | failures + 1 =>
      ⟨client, .acquire true, .failed⟩ :: ⟨client, .idle, .done⟩ ::
        lockEvents client failures

theorem acquire_mem_lockEvents (client : κ) (failures : Nat) :
    (⟨client, .acquire false, .done⟩ : Event κ α) ∈ lockEvents client failures := by
  induction failures with
  | zero => exact List.mem_cons_self
  | succ failures ih => exact List.mem_cons_of_mem _ (List.mem_cons_of_mem _ ih)

section Runs

variable [DecidableEq κ]

/-- The guards that a client got. -/
def guardsTaken (history : List (Event κ α)) (client : κ) : Nat :=
  history.countP fun event => event.client = client && event.takesGuard

/-- The guards that a client gave up. -/
def guardsReturned (history : List (Event κ α)) (client : κ) : Nat :=
  history.countP fun event => event.client = client && event.returnsGuard

theorem guardsTaken_append_singleton (history : List (Event κ α)) (event : Event κ α)
    (client : κ) :
    guardsTaken (history ++ [event]) client =
      guardsTaken history client + if event.client = client && event.takesGuard then 1 else 0 := by
  rw [guardsTaken, List.countP_append, List.countP_singleton]
  rfl

theorem guardsReturned_append_singleton (history : List (Event κ α)) (event : Event κ α)
    (client : κ) :
    guardsReturned (history ++ [event]) client =
      guardsReturned history client +
        if event.client = client && event.returnsGuard then 1 else 0 := by
  rw [guardsReturned, List.countP_append, List.countP_singleton]
  rfl

/-- The clients after some attempts. -/
def after (clients : Clients κ α) (attempts : List (κ × Attempt α)) : Clients κ α :=
  attempts.foldl (fun clients made => (clients.step made.1 made.2).2) clients

/-- What becomes of some attempts. -/
def history (clients : Clients κ α) : List (κ × Attempt α) → List (Event κ α)
  | [] => []
  | (client, attempt) :: later =>
      ⟨client, attempt, (clients.step client attempt).1⟩ ::
        (clients.step client attempt).2.history later

variable {clients : Clients κ α}

theorem after_append (clients : Clients κ α) (earlier later : List (κ × Attempt α)) :
    clients.after (earlier ++ later) = (clients.after earlier).after later :=
  List.foldl_append

theorem history_append (clients : Clients κ α) (earlier later : List (κ × Attempt α)) :
    clients.history (earlier ++ later) =
      clients.history earlier ++ (clients.after earlier).history later := by
  induction earlier generalizing clients with
  | nil => rfl
  | cons made earlier ih =>
      rw [List.cons_append, history, history, ih]
      rfl

/-- What one attempt can do: it gets a guard of a free lock, gives a guard up, writes
through a guard, or changes nothing. -/
theorem step_cases (clients : Clients κ α) (client : κ) (attempt : Attempt α) :
    (attempt = .acquire false ∧ clients.lock.locked = false ∧
      clients.step client attempt =
        (.done, ⟨⟨true, clients.lock.guarded⟩, client :: clients.holders⟩)) ∨
    (attempt = .release ∧ client ∈ clients.holders ∧
      clients.step client attempt =
        (.done, ⟨⟨false, clients.lock.guarded⟩, clients.holders.erase client⟩)) ∨
    (∃ value, attempt = .write value ∧ client ∈ clients.holders ∧
      clients.step client attempt =
        (.done, ⟨⟨clients.lock.locked, value⟩, clients.holders⟩)) ∨
    ∃ reply, clients.step client attempt = (reply, clients) ∧
      (Event.mk client attempt reply).takesGuard = false ∧
      (Event.mk client attempt reply).returnsGuard = false ∧
      (Event.mk client attempt reply).written? = none := by
  cases attempt with
  | acquire spurious =>
      cases locked : clients.lock.locked with
      | true =>
          right; right; right
          exact ⟨.wouldBlock, by simp [step, locked], rfl, rfl, rfl⟩
      | false =>
          cases spurious with
          | false => exact Or.inl ⟨rfl, rfl, by simp [step, locked]⟩
          | true =>
              right; right; right
              exact ⟨.failed, by simp [step, locked], rfl, rfl, rfl⟩
  | release =>
      by_cases holds : client ∈ clients.holders
      · exact Or.inr (Or.inl ⟨rfl, holds, by simp [step, holds]⟩)
      · right; right; right
        exact ⟨.noGuard, by simp [step, holds], rfl, rfl, rfl⟩
  | read =>
      right; right; right
      by_cases holds : client ∈ clients.holders
      · exact ⟨.value clients.lock.guarded, by simp [step, holds], rfl, rfl, rfl⟩
      · exact ⟨.noGuard, by simp [step, holds], rfl, rfl, rfl⟩
  | write value =>
      by_cases holds : client ∈ clients.holders
      · exact Or.inr (Or.inr (Or.inl ⟨value, rfl, holds, by simp [step, holds]⟩))
      · right; right; right
        exact ⟨.noGuard, by simp [step, holds], rfl, rfl, rfl⟩
  | idle =>
      right; right; right
      exact ⟨.done, rfl, rfl, rfl, rfl⟩

/-- What a lock and its clients keep true of the history since the lock was made
around a value. -/
structure Ledger (value : α) (history : List (Event κ α)) (clients : Clients κ α) :
    Prop where
  holders : clients.holders = [] ∧ clients.lock.locked = false ∨
    ∃ client, clients.holders = [client] ∧ clients.lock.locked = true
  guards : ∀ client, clients.holders.count client + guardsReturned history client =
    guardsTaken history client
  guarded : clients.lock.guarded = lastWritten value history

namespace Ledger

variable {value : α} {events : List (Event κ α)}

theorem start (value : α) : Ledger value [] (Clients.start value : Clients κ α) where
  holders := Or.inl ⟨rfl, rfl⟩
  guards _ := rfl
  guarded := rfl

theorem holders_of_mem (ledger : Ledger value events clients) {client : κ}
    (holds : client ∈ clients.holders) :
    clients.holders = [client] ∧ clients.lock.locked = true := by
  rcases ledger.holders with ⟨none, -⟩ | ⟨holder, one, locked⟩
  · rw [none] at holds
    contradiction
  · rw [one, List.mem_singleton] at holds
    subst holds
    exact ⟨one, locked⟩

theorem holders_of_free (ledger : Ledger value events clients)
    (free : clients.lock.locked = false) : clients.holders = [] := by
  rcases ledger.holders with ⟨none, -⟩ | ⟨-, -, locked⟩
  · exact none
  · rw [locked] at free
    contradiction

/-- One attempt of any client keeps the ledger. -/
theorem step (ledger : Ledger value events clients) (client : κ) (attempt : Attempt α) :
    Ledger value (events ++ [⟨client, attempt, (clients.step client attempt).1⟩])
      (clients.step client attempt).2 := by
  rcases clients.step_cases client attempt with
    ⟨rfl, free, stepped⟩ | ⟨rfl, holds, stepped⟩ | ⟨written, rfl, holds, stepped⟩ |
      ⟨reply, stepped, takesNone, returnsNone, writesNone⟩
  · rw [stepped]
    have nobody := ledger.holders_of_free free
    refine ⟨Or.inr ⟨client, by rw [nobody], rfl⟩, fun other => ?_, ?_⟩
    · have before := ledger.guards other
      rw [nobody, List.count_nil, Nat.zero_add] at before
      rw [guardsTaken_append_singleton, guardsReturned_append_singleton, before, nobody]
      by_cases same : client = other <;>
        simp [Event.takesGuard, Event.returnsGuard, same, Nat.add_comm]
    · rw [lastWritten_append_singleton]
      exact ledger.guarded
  · rw [stepped]
    obtain ⟨one, -⟩ := ledger.holders_of_mem holds
    refine ⟨Or.inl ⟨by simp [one], rfl⟩, fun other => ?_, ?_⟩
    · have before := ledger.guards other
      rw [one] at before
      rw [guardsTaken_append_singleton, guardsReturned_append_singleton, ← before, one]
      by_cases same : client = other <;>
        simp [Event.takesGuard, Event.returnsGuard, same, Nat.add_comm]
    · rw [lastWritten_append_singleton]
      exact ledger.guarded
  · rw [stepped]
    refine ⟨ledger.holders, fun other => ?_, ?_⟩
    · rw [guardsTaken_append_singleton, guardsReturned_append_singleton,
        ← ledger.guards other]
      simp [Event.takesGuard, Event.returnsGuard]
    · rw [lastWritten_append_singleton]
      rfl
  · rw [stepped]
    refine ⟨ledger.holders, fun other => ?_, ?_⟩
    · rw [guardsTaken_append_singleton, guardsReturned_append_singleton,
        ← ledger.guards other]
      simp [takesNone, returnsNone]
    · rw [lastWritten_append_singleton, writesNone]
      exact ledger.guarded

/-- A whole run keeps the ledger. -/
theorem run (ledger : Ledger value events clients) (attempts : List (κ × Attempt α)) :
    Ledger value (events ++ clients.history attempts) (clients.after attempts) := by
  induction attempts generalizing events clients with
  | nil => simpa [history, after] using ledger
  | cons made attempts ih =>
      have later := ih (ledger.step made.1 made.2)
      rw [List.append_assoc, List.singleton_append] at later
      exact later

end Ledger

section Calls

variable (client : κ)

/-- An exchange that fails spuriously, and the look at the lock after it, change nothing. -/
theorem after_lockCall_succ (clients : Clients κ α) (failures : Nat) :
    clients.after ((Attempt.lockCall (failures + 1)).map (Prod.mk client)) =
      clients.after ((Attempt.lockCall failures).map (Prod.mk client)) := by
  have fails : (clients.step client (.acquire true)).2 = clients := by
    cases locked : clients.lock.locked <;> simp [step, locked]
  rw [Attempt.lockCall, List.map_cons, List.map_cons, after, List.foldl_cons,
    List.foldl_cons, fails]
  rfl

theorem after_lockCall (clients : Clients κ α) (failures : Nat) :
    clients.after ((Attempt.lockCall failures).map (Prod.mk client)) =
      (clients.step client (.acquire false)).2 := by
  induction failures with
  | zero => rfl
  | succ failures ih => rw [after_lockCall_succ, ih]

theorem history_lockCall (free : clients.lock.locked = false) (failures : Nat) :
    clients.history ((Attempt.lockCall failures).map (Prod.mk client)) =
      lockEvents client failures := by
  induction failures with
  | zero => simp [Attempt.lockCall, history, step, free, lockEvents]
  | succ failures ih =>
      simp [Attempt.lockCall, history, step, free, lockEvents, ih]

theorem takesGuard_of_mem_history_lockCall (held : clients.lock.locked = true)
    (failures : Nat) : ∀ event ∈ clients.history
      ((Attempt.lockCall failures).map (Prod.mk client)), event.takesGuard = false := by
  induction failures with
  | zero => simp [Attempt.lockCall, history, step, held, Event.takesGuard]
  | succ failures ih =>
      simpa [Attempt.lockCall, history, step, held, Event.takesGuard] using ih

/-- A call gets its guard exactly if the lock is free, however many of its exchanges fail
spuriously. -/
theorem exists_takesGuard_lockCall_iff (clients : Clients κ α) (failures : Nat) :
    (∃ event ∈ clients.history ((Attempt.lockCall failures).map (Prod.mk client)),
      event.takesGuard = true) ↔ clients.lock.locked = false := by
  cases locked : clients.lock.locked with
  | true =>
      have nothing := takesGuard_of_mem_history_lockCall client locked failures
      constructor
      · rintro ⟨event, member, takes⟩
        rw [nothing event member] at takes
        contradiction
      · intro impossible
        contradiction
  | false =>
      refine iff_of_true ⟨⟨client, .acquire false, .done⟩, ?_, rfl⟩ rfl
      rw [history_lockCall client locked]
      exact acquire_mem_lockEvents client failures

end Calls

/-- What clients can rely on when the given events took place since the lock was made
around a value. -/
structure Exclusive (value : α) (history : List (Event κ α)) (clients : Clients κ α) :
    Prop where
  locked_iff : clients.lock.locked = true ↔ clients.holders.length = 1
  one_guard : clients.holders.length ≤ 1
  guards : ∀ client, clients.holders.count client + guardsReturned history client =
    guardsTaken history client
  /-- An exchange succeeds exactly if the lock is free, unless it fails spuriously. -/
  acquire_iff : ∀ client spurious,
    (clients.step client (.acquire spurious)).1 = .done ↔
      clients.lock.locked = false ∧ spurious = false
  acquired : ∀ client, clients.lock.locked = false →
    clients.step client (.acquire false) =
      (.done, ⟨⟨true, clients.lock.guarded⟩, [client]⟩)
  failed : ∀ client, clients.lock.locked = false →
    clients.step client (.acquire true) = (.failed, clients)
  blocked : ∀ client spurious, clients.lock.locked = true →
    clients.step client (.acquire spurious) = (.wouldBlock, clients)
  /-- A call for a guard succeeds exactly if the lock is free. -/
  call_iff : ∀ client failures,
    (∃ event ∈ clients.history ((Attempt.lockCall failures).map (Prod.mk client)),
      event.takesGuard = true) ↔ clients.lock.locked = false
  called : ∀ client failures,
    clients.after ((Attempt.lockCall failures).map (Prod.mk client)) =
      (clients.step client (.acquire false)).2
  read : ∀ client ∈ clients.holders,
    clients.step client .read = (.value (lastWritten value history), clients)
  write : ∀ client ∈ clients.holders, ∀ next,
    clients.step client (.write next) = (.done, ⟨⟨true, next⟩, [client]⟩)
  release : ∀ client ∈ clients.holders,
    clients.step client .release = (.done, ⟨⟨false, lastWritten value history⟩, []⟩)
  foreign : ∀ client ∉ clients.holders, ∀ attempt : Attempt α,
    (∀ spurious, attempt ≠ .acquire spurious) → attempt ≠ .idle →
      clients.step client attempt = (.noGuard, clients)

theorem Ledger.exclusive {value : α} {events : List (Event κ α)}
    (ledger : Ledger value events clients) : Exclusive value events clients where
  locked_iff := by
    rcases ledger.holders with ⟨none, free⟩ | ⟨_, one, locked⟩
    · simp [none, free]
    · simp [one, locked]
  one_guard := by
    rcases ledger.holders with ⟨none, -⟩ | ⟨_, one, -⟩
    · simp [none]
    · simp [one]
  guards := ledger.guards
  acquire_iff client spurious := by
    cases locked : clients.lock.locked <;> cases spurious <;> simp [Clients.step, locked]
  acquired client free := by
    simp [Clients.step, free, ledger.holders_of_free free]
  failed client free := by
    simp [Clients.step, free]
  blocked client spurious locked := by
    simp [Clients.step, locked]
  call_iff client failures := exists_takesGuard_lockCall_iff client clients failures
  called client failures := after_lockCall client clients failures
  read client holds := by
    simp [Clients.step, holds, ledger.guarded]
  write client holds next := by
    obtain ⟨one, locked⟩ := ledger.holders_of_mem holds
    simp [Clients.step, one, locked]
  release client holds := by
    obtain ⟨one, -⟩ := ledger.holders_of_mem holds
    simp [Clients.step, one, ledger.guarded]
  foreign client outside attempt notAcquire notIdle := by
    cases attempt with
    | acquire spurious => exact absurd rfl (notAcquire spurious)
    | idle => contradiction
    | release => simp [Clients.step, outside]
    | read => simp [Clients.step, outside]
    | write next => simp [Clients.step, outside]

/-- Whatever the clients attempt, and in whatever order, they can rely on the lock. -/
theorem exclusive_after_start (value : α) (attempts : List (κ × Attempt α)) :
    Exclusive value ((start value).history attempts) ((start value).after attempts) :=
  ((Ledger.start value).run attempts).exclusive

end Runs

end Clients
end EarlyBoot
