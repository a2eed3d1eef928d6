import EarlyBoot.Log.Router
import EarlyBoot.Proofs.SpinLock.Exclusion
import Mathlib.Data.List.Induction
import Mathlib.Data.List.Perm.Basic

/-!
# What each recorder receives

A program installs recorders and logs messages in any order.  Which recorder is
installed at some time is told by the calls before that time alone.  Each message goes
to the recorder that is installed when it is logged, or is dropped while none is: the
messages that the recorders received and those that were dropped are together the
logged ones, and what a recorder has received is never changed.

The installed recorder is guarded by a spin lock.  Each call takes the lock, after as
many failures as the machine likes, and gives it up again, so that no later call has to
wait.
-/

namespace EarlyBoot
namespace Router

variable {ρ : Type}

/-- What a program asks of the router.  There is one way to log for each severity. -/
inductive Call (ρ : Type) where
  | install (next : Option ρ)
  | log (severity : Severity) (text : String)

namespace Call

/-- The recorder that the call installs, if it installs one. -/
def installed? : Call ρ → Option (Option ρ)
  | .install next => some next
  | .log _ _ => none

def message? : Call ρ → Option Message
  | .install _ => none
  | .log severity text => some ⟨severity, text⟩

end Call

/-- The recorder that was installed last, or the first one if none was. -/
def lastInstalled (first : Option ρ) (calls : List (Call ρ)) : Option ρ :=
  (calls.filterMap Call.installed?).getLast?.getD first

theorem lastInstalled_append_singleton (first : Option ρ) (calls : List (Call ρ))
    (call : Call ρ) :
    lastInstalled first (calls ++ [call]) =
      call.installed?.getD (lastInstalled first calls) := by
  cases call <;> simp [lastInstalled, List.filterMap_append, Call.installed?]

section Locking

variable {κ : Type}

/-- What a call does with the installed recorder while it has the guard.  The guard is
given up after the message is written. -/
def Call.underGuard : Call ρ → List (Attempt (Option ρ))
  | .install next => [.read, .write next, .release]
  | .log _ _ => [.read, .release]

/-- What a client attempts, to make a call, on the lock around the installed recorder,
when some exchanges fail spuriously. -/
def Call.attempts (failures : Nat) (call : Call ρ) : List (Attempt (Option ρ)) :=
  Attempt.lockCall failures ++ call.underGuard

/-- The attempts of a client that makes some calls, given how many exchanges fail
spuriously in each of them. -/
def attemptsOf (client : κ) (failures : Nat → Nat) (calls : List (Call ρ)) :
    List (κ × Attempt (Option ρ)) :=
  calls.zipIdx.flatMap fun (call, place) =>
    (call.attempts (failures place)).map (Prod.mk client)

theorem attemptsOf_append_singleton (client : κ) (failures : Nat → Nat)
    (calls : List (Call ρ)) (call : Call ρ) :
    attemptsOf client failures (calls ++ [call]) =
      attemptsOf client failures calls ++
        (call.attempts (failures calls.length)).map (Prod.mk client) := by
  simp [attemptsOf, List.zipIdx_append]

/-- The recorder that a client found under its guard. -/
def found? : Clients.Event κ (Option ρ) → Option (Option ρ)
  | ⟨_, .read, .value recorder⟩ => some recorder
  | _ => none

/-- The client neither has to wait nor lacks a guard. -/
def IsServed (event : Clients.Event κ (Option ρ)) : Prop :=
  event.reply ≠ .wouldBlock ∧ event.reply ≠ .noGuard

theorem isServed_of_mem_lockEvents (client : κ) (failures : Nat) :
    ∀ event ∈ (Clients.lockEvents client failures : List (Clients.Event κ (Option ρ))),
      IsServed event := by
  induction failures with
  | zero => simp [Clients.lockEvents, IsServed]
  | succ failures ih => simpa [Clients.lockEvents, IsServed] using ih

theorem filterMap_found?_lockEvents (client : κ) (failures : Nat) :
    (Clients.lockEvents client failures : List (Clients.Event κ (Option ρ))).filterMap
      found? = [] := by
  induction failures with
  | zero => rfl
  | succ failures ih => exact ih

variable [DecidableEq κ]

/-- A client that makes some calls never waits, finds the recorder that is installed at
the time, and leaves the lock free, however many exchanges fail spuriously. -/
structure LocksInTurn (client : κ) (failures : Nat → Nat) (first : Option ρ)
    (calls : List (Call ρ)) : Prop where
  never_waits : ∀ event ∈ (Clients.start first).history (attemptsOf client failures calls),
    IsServed event
  finds : ((Clients.start first).history (attemptsOf client failures calls)).filterMap found? =
    (List.range calls.length).map fun place => lastInstalled first (calls.take place)
  leaves_free : (Clients.start first).after (attemptsOf client failures calls) =
    Clients.start (lastInstalled first calls)

section OneCall

variable (client : κ) (failures : Nat) (first : Option ρ)

theorem after_lockCall_start :
    (Clients.start first).after ((Attempt.lockCall failures).map (Prod.mk client)) =
      ⟨⟨true, first⟩, [client]⟩ := by
  rw [Clients.after_lockCall]
  rfl

/-- What becomes of one call on a free lock. -/
theorem history_attempts (call : Call ρ) :
    ∃ events, (Clients.start first).history
        ((call.attempts failures).map (Prod.mk client)) =
          Clients.lockEvents client failures ++ ⟨client, .read, .value first⟩ :: events ∧
      (∀ event ∈ events, IsServed event) ∧ events.filterMap found? = [] := by
  rw [Call.attempts, List.map_append, Clients.history_append,
    Clients.history_lockCall client rfl, after_lockCall_start]
  cases call with
  | install next =>
      refine ⟨[⟨client, .write next, .done⟩, ⟨client, .release, .done⟩], ?_, ?_, rfl⟩
      · simp [Call.underGuard, Clients.history, Clients.step]
      · simp [IsServed]
  | log severity text =>
      refine ⟨[⟨client, .release, .done⟩], ?_, ?_, rfl⟩
      · simp [Call.underGuard, Clients.history, Clients.step]
      · simp [IsServed]

theorem after_attempts (call : Call ρ) :
    (Clients.start first).after ((call.attempts failures).map (Prod.mk client)) =
      Clients.start (call.installed?.getD first) := by
  rw [Call.attempts, List.map_append, Clients.after_append, after_lockCall_start]
  cases call <;>
    simp [Call.underGuard, Clients.after, Clients.step, Clients.start, SpinLock.new,
      Call.installed?]

end OneCall

theorem locksInTurn (client : κ) (failures : Nat → Nat) (first : Option ρ)
    (calls : List (Call ρ)) : LocksInTurn client failures first calls := by
  induction calls using List.reverseRecOn with
  | nil => constructor <;> simp [attemptsOf, Clients.history, Clients.after, lastInstalled]
  | append_singleton calls call ih =>
      obtain ⟨events, last, served, noneFound⟩ := history_attempts client
        (failures calls.length) (lastInstalled first calls) call
      have history :
          (Clients.start first).history (attemptsOf client failures (calls ++ [call])) =
            (Clients.start first).history (attemptsOf client failures calls) ++
              (Clients.lockEvents client (failures calls.length) ++
                ⟨client, .read, .value (lastInstalled first calls)⟩ :: events) := by
        rw [attemptsOf_append_singleton, Clients.history_append, ih.leaves_free, last]
      constructor
      · rw [history]
        have called := isServed_of_mem_lockEvents (ρ := ρ) client (failures calls.length)
        have found : IsServed (ρ := ρ)
            ⟨client, .read, .value (lastInstalled first calls)⟩ := by simp [IsServed]
        exact List.forall_mem_append.mpr ⟨ih.never_waits, List.forall_mem_append.mpr
          ⟨called, List.forall_mem_cons.mpr ⟨found, served⟩⟩⟩
      · have earlier : (List.range calls.length).map (fun place =>
            lastInstalled first ((calls ++ [call]).take place)) =
              (List.range calls.length).map fun place =>
                lastInstalled first (calls.take place) := by
          apply List.map_congr_left
          intro place member
          rw [List.take_append_of_le_length (by have := List.mem_range.mp member; omega)]
        have size : (calls ++ [call]).length = calls.length + 1 := List.length_append
        rw [history, List.filterMap_append, ih.finds, List.filterMap_append,
          filterMap_found?_lockEvents, List.filterMap_cons, noneFound, size, List.range_succ,
          List.map_append, earlier]
        simp [found?]
      · rw [attemptsOf_append_singleton, Clients.after_append, ih.leaves_free,
          after_attempts, lastInstalled_append_singleton]

end Locking

section Receiving

variable [DecidableEq ρ]

/-- The messages logged while the given recorder, or none, was installed. -/
def heard (first : Option ρ) (calls : List (Call ρ)) (recorder : Option ρ) :
    List Message :=
  (List.range calls.length).filterMap fun place =>
    if lastInstalled first (calls.take place) = recorder then
      calls[place]?.bind Call.message?
    else
      none

theorem heard_append_singleton (first : Option ρ) (calls : List (Call ρ)) (call : Call ρ)
    (recorder : Option ρ) :
    heard first (calls ++ [call]) recorder =
      heard first calls recorder ++
        if lastInstalled first calls = recorder then call.message?.toList else [] := by
  have before : (List.range calls.length).filterMap (fun place =>
      if lastInstalled first ((calls ++ [call]).take place) = recorder then
        (calls ++ [call])[place]?.bind Call.message?
      else none) = heard first calls recorder := by
    apply List.filterMap_congr
    intro place member
    have inside := List.mem_range.mp member
    rw [List.take_append_of_le_length (by omega), List.getElem?_append_left inside]
  rw [heard, List.length_append, List.length_singleton, List.range_succ,
    List.filterMap_append, before]
  split
  · next here => cases message : call.message? <;> simp [here, message]
  · next elsewhere => simp [elsewhere]

/-- Logs a text in the way that is named after a severity. -/
def logAs (router : Router ρ) (text : String) : Severity → Router ρ
  | .debug => router.debug text
  | .info => router.info text
  | .notice => router.notice text
  | .warning => router.warning text
  | .error => router.error text
  | .critical => router.critical text
  | .alert => router.alert text
  | .emergency => router.emergency text

/-- The router after a call. -/
def apply (router : Router ρ) : Call ρ → Router ρ
  | .install next => (router.install next).2
  | .log severity text => router.logAs text severity

/-- The router after some calls. -/
def after (router : Router ρ) (calls : List (Call ρ)) : Router ρ :=
  calls.foldl apply router

/-- What the calls that install a recorder give back. -/
def answers (router : Router ρ) : List (Call ρ) → List (Option ρ)
  | [] => []
  | .install next :: later =>
      (router.install next).1 :: (router.install next).2.answers later
  | .log severity text :: later => (router.logAs text severity).answers later

variable {router : Router ρ}

theorem after_append (router : Router ρ) (earlier later : List (Call ρ)) :
    router.after (earlier ++ later) = (router.after earlier).after later :=
  List.foldl_append

theorem after_append_singleton (router : Router ρ) (calls : List (Call ρ))
    (call : Call ρ) : router.after (calls ++ [call]) = (router.after calls).apply call :=
  after_append router calls [call]

/-- Each way to log hands on the severity that it is named after. -/
theorem logAs_eq_write (router : Router ρ) (text : String) (severity : Severity) :
    router.logAs text severity = router.write ⟨severity, text⟩ := by
  cases severity <;> rfl

theorem installed_apply (router : Router ρ) (call : Call ρ) :
    (router.apply call).installed = call.installed?.getD router.installed := by
  cases call with
  | install next => rfl
  | log severity text =>
      rw [apply, logAs_eq_write]
      rfl

/-- A call hands its message, if it has one, to the installed recorder and to no other. -/
theorem records_apply (router : Router ρ) (call : Call ρ) (recorder : ρ) :
    (router.apply call).records recorder =
      router.records recorder ++
        if router.installed = some recorder then call.message?.toList else [] := by
  cases call with
  | install next => simp [apply, install, Call.message?]
  | log severity text =>
      by_cases here : router.installed = some recorder <;>
        simp [apply, logAs_eq_write, write, Call.message?, here]

theorem installed_after (router : Router ρ) (calls : List (Call ρ)) :
    (router.after calls).installed = lastInstalled router.installed calls := by
  induction calls using List.reverseRecOn with
  | nil => rfl
  | append_singleton calls call ih =>
      rw [after_append_singleton, installed_apply, ih, lastInstalled_append_singleton]

theorem records_after (router : Router ρ) (calls : List (Call ρ)) (recorder : ρ) :
    (router.after calls).records recorder =
      router.records recorder ++ heard router.installed calls (some recorder) := by
  induction calls using List.reverseRecOn with
  | nil => simp [after, heard]
  | append_singleton calls call ih =>
      rw [after_append_singleton, records_apply, ih, installed_after,
        heard_append_singleton, List.append_assoc]

/-- Each installation gives back the recorder that the one before it installed. -/
theorem answers_eq (router : Router ρ) (calls : List (Call ρ)) :
    router.answers calls =
      (router.installed :: calls.filterMap Call.installed?).dropLast := by
  induction calls generalizing router with
  | nil => rfl
  | cons call calls ih =>
      cases call with
      | install next =>
          rw [answers, ih]
          rfl
      | log severity text =>
          rw [answers, ih, logAs_eq_write]
          rfl

/-- What is meant for one destination is there once. -/
theorem flatMap_chosen {destinations : List (Option ρ)} (nodup : destinations.Nodup)
    {chosen : Option ρ} (member : chosen ∈ destinations) (messages : List Message) :
    (destinations.flatMap fun destination =>
      if chosen = destination then messages else []) = messages := by
  obtain ⟨before, behind, rfl⟩ := List.append_of_mem member
  rw [List.nodup_append, List.nodup_cons] at nodup
  obtain ⟨-, ⟨notBehind, -⟩, apart⟩ := nodup
  have noneBefore : (before.flatMap fun destination =>
      if chosen = destination then messages else []) = [] := by
    rw [List.flatMap_eq_nil_iff]
    intro destination inFront
    exact if_neg (Ne.symm (apart destination inFront chosen List.mem_cons_self))
  have noneBehind : (behind.flatMap fun destination =>
      if chosen = destination then messages else []) = [] := by
    rw [List.flatMap_eq_nil_iff]
    intro destination isBehind
    rw [if_neg]
    rintro rfl
    exact notBehind isBehind
  rw [List.flatMap_append, List.flatMap_cons, if_pos rfl, noneBefore, noneBehind,
    List.nil_append, List.append_nil]

/-- No message is lost and none is duplicated. -/
theorem perm_heard (first : Option ρ) (calls : List (Call ρ))
    {destinations : List (Option ρ)} (nodup : destinations.Nodup)
    (complete : first :: calls.filterMap Call.installed? ⊆ destinations) :
    (destinations.flatMap (heard first calls)).Perm (calls.filterMap Call.message?) := by
  induction calls using List.reverseRecOn with
  | nil => simp [heard]
  | append_singleton calls call ih =>
      have completeBefore : first :: calls.filterMap Call.installed? ⊆ destinations := by
        intro destination member
        apply complete
        rw [List.filterMap_append, ← List.cons_append]
        exact List.mem_append_left _ member
      have chosen : lastInstalled first calls ∈ destinations := by
        apply completeBefore
        unfold lastInstalled
        cases last : (calls.filterMap Call.installed?).getLast? with
        | none => exact List.mem_cons_self
        | some recorder => exact List.mem_cons_of_mem _ (List.mem_of_getLast? last)
      have messages : (calls ++ [call]).filterMap Call.message? =
          calls.filterMap Call.message? ++ call.message?.toList := by
        cases call <;> simp [List.filterMap_append, Call.message?]
      have received : destinations.flatMap (heard first (calls ++ [call])) =
          destinations.flatMap fun destination => heard first calls destination ++
            if lastInstalled first calls = destination then call.message?.toList else [] :=
        List.flatMap_congr fun destination _ => heard_append_singleton ..
      have toChosen := flatMap_chosen nodup chosen call.message?.toList
      rw [messages, received]
      refine (List.flatMap_append_perm destinations _ _).symm.trans ?_
      rw [toChosen]
      exact (ih completeBefore).append_right _

/-- What a program can rely on when it makes some calls one after another. -/
structure Delivers (router : Router ρ) (calls : List (Call ρ)) : Prop where
  answers : router.answers calls =
    (router.installed :: calls.filterMap Call.installed?).dropLast
  records : ∀ recorder, (router.after calls).records recorder =
    router.records recorder ++ heard router.installed calls (some recorder)
  everything : ∀ destinations : List (Option ρ), destinations.Nodup →
    router.installed :: calls.filterMap Call.installed? ⊆ destinations →
      (destinations.flatMap (heard router.installed calls)).Perm
        (calls.filterMap Call.message?)
  keeps : ∀ earlier later, calls = earlier ++ later → ∀ recorder,
    (router.after earlier).records recorder <+: (router.after calls).records recorder
  changes_nothing : ∀ earlier call later, calls = earlier ++ call :: later →
    call.message? = none ∨ lastInstalled router.installed earlier = none →
      (router.after (earlier ++ [call])).records = (router.after earlier).records

/-- Each message reaches the recorder that is installed when it is logged and no other,
each installation gives back the recorder before, and nothing else changes what the
recorders received.  Under the lock, the calls find the same recorders. -/
theorem delivers_of_calls {κ : Type} [DecidableEq κ] (client : κ) (failures : Nat → Nat)
    (router : Router ρ) (calls : List (Call ρ)) :
    router.Delivers calls ∧ LocksInTurn client failures router.installed calls := by
  refine ⟨⟨answers_eq router calls, records_after router calls, ?_, ?_, ?_⟩,
    locksInTurn client failures router.installed calls⟩
  · intro destinations nodup complete
    exact perm_heard router.installed calls nodup complete
  · rintro earlier later rfl recorder
    rw [after_append, records_after (router.after earlier) later]
    exact List.prefix_append _ _
  · rintro earlier call later - silent
    funext recorder
    rw [after_append_singleton, records_apply, installed_after]
    rcases silent with noMessage | nobody
    · simp [noMessage]
    · simp [nobody]

/-- A message is dropped while no recorder is installed, and a recorder may replace
itself. -/
example :
    let calls : List (Call Bool) :=
      [.log .info "one", .install none, .log .error "two", .install (some true),
        .install (some true), .log .debug "three"]
    let router := Router.start (some false)
    (router.after calls).records false = [⟨.info, "one"⟩] ∧
      (router.after calls).records true = [⟨.debug, "three"⟩] ∧
      router.answers calls = [some false, none, some true] := by
  decide

end Receiving

end Router
end EarlyBoot
