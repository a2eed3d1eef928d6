/-!
# Spin locks

A spin lock guards one value.  A client that finds the lock free gets a guard,
reads and writes the value through it, and frees the lock by giving the guard
up.  `Clients` is a lock together with the clients that hold a guard.

The lock is taken by a weak exchange, which may fail on a free lock as well.  A
client that calls for a guard looks at the lock after a failure and tries again.
-/

namespace EarlyBoot

/-- A value and whether a client holds it. -/
structure SpinLock (α : Type) where
  locked : Bool
  guarded : α
  deriving DecidableEq, Repr

/-- A free lock around a value. -/
def SpinLock.new {α : Type} (value : α) : SpinLock α :=
  ⟨false, value⟩

/-- A lock and the clients that hold a guard of it. -/
structure Clients (κ α : Type) where
  lock : SpinLock α
  holders : List κ

/-- What a client attempts.  Each attempt is one atomic operation; whether an exchange
fails spuriously is up to the machine.  A client that only looks at the lock is idle. -/
inductive Attempt (α : Type) where
  | acquire (spurious : Bool)
  | release
  | read
  | write (value : α)
  | idle
  deriving DecidableEq, Repr

/-- The attempts of a call for a guard, up to the first exchange that does not fail
spuriously.  After each other exchange the call looks at the lock and tries again. -/
def Attempt.lockCall {α : Type} : (failures : Nat) → List (Attempt α)
  | 0 => [.acquire false]
  | failures + 1 => .acquire true :: .idle :: lockCall failures

/-- What a client learns from an attempt.  An exchange that finds the lock held would
block; one that finds it free and fails spuriously has failed. -/
inductive Reply (α : Type) where
  | done
  | failed
  | wouldBlock
  | noGuard
  | value (value : α)
  deriving DecidableEq, Repr

namespace Clients

variable {κ α : Type} [DecidableEq κ]

/-- A free lock around a value, without holders. -/
def start (value : α) : Clients κ α :=
  ⟨.new value, []⟩

/-- One attempt of one client. -/
def step (clients : Clients κ α) (client : κ) : Attempt α → Reply α × Clients κ α
  | .acquire spurious =>
      if clients.lock.locked then
        (.wouldBlock, clients)
      else if spurious then
        (.failed, clients)
      else
        (.done, ⟨{ clients.lock with locked := true }, client :: clients.holders⟩)
  | .release =>
      if client ∈ clients.holders then
        (.done, ⟨{ clients.lock with locked := false }, clients.holders.erase client⟩)
      else
        (.noGuard, clients)
  | .read =>
      if client ∈ clients.holders then
        (.value clients.lock.guarded, clients)
      else
        (.noGuard, clients)
  | .write value =>
      if client ∈ clients.holders then
        (.done, { clients with lock := { clients.lock with guarded := value } })
      else
        (.noGuard, clients)
  | .idle => (.done, clients)

end Clients
end EarlyBoot
