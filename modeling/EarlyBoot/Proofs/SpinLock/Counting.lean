import EarlyBoot.Proofs.SpinLock.Exclusion
import Mathlib.Data.List.Induction

/-!
# Clients that count

A client that counts goes through rounds: it takes the lock, reads the value, writes
the next one and gives its guard up.  No round is lost when any number of clients
count at the same time, because the value that a client has read stays the last one
written until the client itself writes.
-/

namespace EarlyBoot
namespace Clients

/-- Where a client that counts is in its round. -/
inductive Phase where
  | outside
  | entered
  | seen (value : UInt64)
  | written
  deriving DecidableEq, Repr

namespace Phase

/-- What the client may attempt next.  It may look at the lock at any time, and its call
for a guard takes as many exchanges as it needs. -/
def Allows (phase : Phase) : Attempt UInt64 → Prop
  | .idle => True
  | .acquire _ => phase = .outside
  | .read => phase = .entered
  | .write next => ∃ value, phase = .seen value ∧ next = value + 1
  | .release => phase = .written

theorem exists_seen_iff {phase : Phase} {next : UInt64} :
    phase = .seen (next - 1) ↔ ∃ value, phase = .seen value ∧ next = value + 1 := by
  constructor
  · intro seen
    exact ⟨next - 1, seen, (UInt64.sub_add_cancel next 1).symm⟩
  · rintro ⟨value, seen, rfl⟩
    rw [UInt64.add_sub_cancel, seen]

instance (phase : Phase) (attempt : Attempt UInt64) : Decidable (phase.Allows attempt) :=
  match attempt with
  | .idle => isTrue trivial
  | .acquire _ => inferInstanceAs (Decidable (phase = .outside))
  | .read => inferInstanceAs (Decidable (phase = .entered))
  | .write _ => decidable_of_iff _ exists_seen_iff
  | .release => inferInstanceAs (Decidable (phase = .written))

/-- Where an attempt and its reply take the client.  A client that has to wait, or whose
exchange fails, stays where it is. -/
def next : Phase → Attempt UInt64 → Reply UInt64 → Phase
  | .outside, .acquire _, .done => .entered
  | .entered, .read, .value value => .seen value
  | .seen _, .write _, .done => .written
  | .written, .release, .done => .outside
  | phase, _, _ => phase

/-- How far the value is ahead of the completed rounds. -/
def ahead : Phase → UInt64
  | .outside | .entered | .seen _ => 0
  | .written => 1

end Phase

/-- The completed rounds: each of them ends with a guard that is given up. -/
def rounds {κ : Type} (history : List (Event κ UInt64)) : Nat :=
  history.countP Event.returnsGuard

variable {κ : Type} [DecidableEq κ]

/-- Where a client that counts is after some events. -/
def phaseOf (history : List (Event κ UInt64)) (client : κ) : Phase :=
  history.foldl
    (fun phase event =>
      if event.client = client then phase.next event.attempt event.reply else phase)
    .outside

/-- Every client does nothing but count. -/
def Counts (history : List (Event κ UInt64)) : Prop :=
  ∀ place (inside : place < history.length),
    (phaseOf (history.take place) history[place].client).Allows history[place].attempt

instance (history : List (Event κ UInt64)) : Decidable (Counts history) :=
  inferInstanceAs (Decidable (∀ place (inside : place < history.length),
    (phaseOf (history.take place) history[place].client).Allows history[place].attempt))

theorem phaseOf_append_singleton (history : List (Event κ UInt64))
    (event : Event κ UInt64) (client : κ) :
    phaseOf (history ++ [event]) client =
      if event.client = client then (phaseOf history client).next event.attempt event.reply
      else phaseOf history client := by
  simp [phaseOf]

theorem counts_append_singleton {history : List (Event κ UInt64)}
    {event : Event κ UInt64} (counts : Counts (history ++ [event])) :
    Counts history ∧ (phaseOf history event.client).Allows event.attempt := by
  constructor
  · intro place inside
    have here := counts place (by simp; omega)
    rwa [List.getElem_append_left inside, List.take_append_of_le_length (by omega)] at here
  · have last := counts history.length (by simp)
    simpa using last

/-- How the value and the phases of clients that count fit together. -/
structure Tally (value : UInt64) (history : List (Event κ UInt64))
    (clients : Clients κ UInt64) : Prop where
  inside : ∀ client, phaseOf history client ≠ .outside ↔ client ∈ clients.holders
  settled : clients.holders = [] →
    clients.lock.guarded = value + UInt64.ofNat (rounds history)
  pending : ∀ client ∈ clients.holders,
    clients.lock.guarded =
      value + UInt64.ofNat (rounds history) + (phaseOf history client).ahead
  seen : ∀ client seen, phaseOf history client = .seen seen → seen = clients.lock.guarded

namespace Tally

variable {value : UInt64} {events : List (Event κ UInt64)} {clients : Clients κ UInt64}

theorem start (value : UInt64) :
    Tally value [] (Clients.start value : Clients κ UInt64) where
  inside _ := by simp [phaseOf, Clients.start]
  settled _ := by simp [rounds, Clients.start, SpinLock.new]
  pending _ member := by simp [Clients.start] at member
  seen _ _ found := by simp [phaseOf] at found

/-- A client that stays where it is in its round changes nothing. -/
theorem stay (tally : Tally value events clients) {event : Event κ UInt64}
    (stays : (phaseOf events event.client).next event.attempt event.reply =
      phaseOf events event.client)
    (returnsNone : event.returnsGuard = false) :
    Tally value (events ++ [event]) clients := by
  have samePhase : ∀ other, phaseOf (events ++ [event]) other = phaseOf events other := by
    intro other
    rw [phaseOf_append_singleton]
    split
    · next same =>
        subst same
        exact stays
    · rfl
  have sameRounds : rounds (events ++ [event]) = rounds events := by
    simp [rounds, returnsNone]
  constructor
  · simpa only [samePhase] using tally.inside
  · simpa only [sameRounds] using tally.settled
  · simpa only [samePhase, sameRounds] using tally.pending
  · simpa only [samePhase] using tally.seen

/-- The turn of the client that holds the only guard, or that has just got or given up
one, changes the phase of no other client. -/
theorem turn (tally : Tally value events clients) {client : κ}
    (alone : ∀ holder ∈ clients.holders, holder = client) {event : Event κ UInt64}
    (isClient : event.client = client) {next : Clients κ UInt64} (phase : Phase)
    (advances : (phaseOf events client).next event.attempt event.reply = phase)
    (holders : next.holders = if phase = .outside then [] else [client])
    (guarded : next.lock.guarded =
      value + UInt64.ofNat (rounds (events ++ [event])) + phase.ahead)
    (seen : ∀ seen, phase = .seen seen → seen = next.lock.guarded) :
    Tally value (events ++ [event]) next := by
  have others : ∀ other, other ≠ client → phaseOf events other = .outside := by
    intro other differs
    by_contra notOutside
    exact differs (alone other ((tally.inside other).mp notOutside))
  have phases : ∀ other, phaseOf (events ++ [event]) other =
      if other = client then phase else .outside := by
    intro other
    rw [phaseOf_append_singleton, isClient]
    by_cases same : other = client
    · rw [if_pos same.symm, if_pos same, same, advances]
    · rw [if_neg (Ne.symm same), if_neg same, others other same]
  constructor
  · intro other
    rw [phases, holders]
    by_cases same : other = client <;> by_cases left : phase = .outside <;>
      simp [same, left]
  · intro nobody
    have left : phase = .outside := by
      by_contra stays
      rw [holders, if_neg stays] at nobody
      contradiction
    rw [guarded, left]
    exact UInt64.add_zero _
  · intro holder member
    have isHolder : holder = client := by
      rw [holders] at member
      split at member
      · contradiction
      · exact List.mem_singleton.mp member
    rw [phases, if_pos isHolder, guarded]
  · intro other value found
    rw [phases] at found
    split at found
    · exact seen value found
    · contradiction

/-- One attempt of a client that counts keeps the tally.  What it attempts tells where
it is in its round. -/
theorem step (tally : Tally value events clients) (ledger : Ledger value events clients)
    {client : κ} {attempt : Attempt UInt64}
    (allows : (phaseOf events client).Allows attempt) :
    Tally value (events ++ [⟨client, attempt, (clients.step client attempt).1⟩])
      (clients.step client attempt).2 := by
  have exclusive := ledger.exclusive
  -- A client in the middle of a round holds the guard, and nobody else holds one.
  have holds : phaseOf events client ≠ .outside →
      client ∈ clients.holders ∧ ∀ holder ∈ clients.holders, holder = client := by
    intro notOutside
    have member := (tally.inside client).mp notOutside
    refine ⟨member, fun holder other => ?_⟩
    rw [(ledger.holders_of_mem member).1] at other
    exact List.mem_singleton.mp other
  cases attempt with
  | idle =>
      refine tally.stay ?_ rfl
      cases phaseOf events client <;> rfl
  | acquire spurious =>
      have phase : phaseOf events client = .outside := allows
      cases locked : clients.lock.locked with
      | true =>
          simp only [exclusive.blocked client spurious locked]
          exact tally.stay (by rw [phase]; rfl) rfl
      | false =>
          cases spurious with
          | true =>
              simp only [exclusive.failed client locked]
              exact tally.stay (by rw [phase]; rfl) rfl
          | false =>
              have nobody := ledger.holders_of_free locked
              simp only [exclusive.acquired client locked]
              refine tally.turn (by simp [nobody]) rfl .entered ?_ rfl ?_ (by simp)
              · rw [phase]
                rfl
              · simp [rounds, Event.returnsGuard, Phase.ahead, tally.settled nobody]
  | read =>
      have phase : phaseOf events client = .entered := allows
      obtain ⟨member, alone⟩ := holds (by simp [phase])
      have pending := tally.pending client member
      simp only [exclusive.read client member, ← ledger.guarded]
      refine tally.turn alone rfl (.seen clients.lock.guarded) ?_ ?_ ?_ (by simp)
      · rw [phase]
        rfl
      · simp [(ledger.holders_of_mem member).1]
      · simpa [rounds, Event.returnsGuard, Phase.ahead, phase] using pending
  | write next =>
      obtain ⟨value, phase, rfl⟩ := allows
      obtain ⟨member, alone⟩ := holds (by simp [phase])
      have pending := tally.pending client member
      simp only [exclusive.write client member]
      refine tally.turn alone rfl .written ?_ rfl ?_ (by simp)
      · rw [phase]
        rfl
      · rw [tally.seen client value phase]
        simpa [rounds, Event.returnsGuard, Phase.ahead, phase] using pending
  | release =>
      have phase : phaseOf events client = .written := allows
      obtain ⟨member, alone⟩ := holds (by simp [phase])
      have pending := tally.pending client member
      simp only [exclusive.release client member, ← ledger.guarded]
      refine tally.turn alone rfl .outside ?_ rfl ?_ (by simp)
      · rw [phase]
        rfl
      · simpa [rounds, Event.returnsGuard, Phase.ahead, phase, UInt64.add_assoc] using pending

/-- A whole run of clients that count keeps the tally. -/
theorem run (value : UInt64) (attempts : List (κ × Attempt UInt64))
    (counts : Counts ((Clients.start value).history attempts)) :
    Tally value ((Clients.start value).history attempts)
      ((Clients.start value).after attempts) := by
  induction attempts using List.reverseRecOn with
  | nil => exact start value
  | append_singleton attempts made ih =>
      rw [history_append] at counts ⊢
      obtain ⟨countsBefore, countsNow⟩ := counts_append_singleton counts
      rw [after_append]
      exact (ih countsBefore).step ((Ledger.start value).run attempts) countsNow

end Tally

/-- A lock is held exactly while one of its clients has a guard, and no second client
ever gets one.  An exchange succeeds exactly when the lock is free and it does not fail
spuriously, so that a call for a guard succeeds exactly when the lock is free, and who
has a guard reads the value that was written last.  When all clients count, the value is
ahead of the first one by the completed rounds whenever no guard is out. -/
theorem exclusive_and_counted :
    (∀ {α : Type} (value : α) (attempts : List (κ × Attempt α)),
      Exclusive value ((start value).history attempts) ((start value).after attempts)) ∧
    ∀ (value : UInt64) (attempts : List (κ × Attempt UInt64)),
      Counts ((start value).history attempts) →
      ((start value).after attempts).holders = [] →
        ((start value).after attempts).lock.guarded.toNat =
          (value.toNat + rounds ((start value).history attempts)) % UInt64.size := by
  refine ⟨exclusive_after_start, fun value attempts counts nobody => ?_⟩
  rw [(Tally.run value attempts counts).settled nobody, UInt64.toNat_add,
    UInt64.toNat_ofNat']
  exact Nat.add_mod_mod _ _ _

/-- The second client waits until the first one has counted over the largest word, and
each of them once fails spuriously. -/
theorem exclusive_and_counted_over_the_end :
    let value : UInt64 := 0xFFFFFFFFFFFFFFFF
    let attempts : List (Bool × Attempt UInt64) :=
      [(false, .acquire true), (false, .acquire false), (true, .acquire false),
        (false, .read), (false, .write 0), (true, .acquire false), (false, .release),
        (true, .acquire true), (true, .idle), (true, .acquire false), (true, .read),
        (true, .write 1), (true, .release)]
    Counts ((start value).history attempts) ∧ ((start value).after attempts).holders = [] ∧
      ((start value).after attempts).lock.guarded.toNat = (value.toNat + 2) % UInt64.size := by
  intro value attempts
  have counts : Counts ((start value).history attempts) := by decide
  have nobody : ((start value).after attempts).holders = [] := by decide
  exact ⟨counts, nobody, exclusive_and_counted.2 value attempts counts nobody⟩

end Clients
end EarlyBoot
