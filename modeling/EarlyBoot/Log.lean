/-!
# Log messages

A message has a severity and a text.  `Logged` is a computation that writes
messages and ends with a result or an error; what it wrote before an error is
kept.
-/

namespace EarlyBoot

/-- How urgent a message is, the least urgent first. -/
inductive Severity where
  | debug
  | info
  | notice
  | warning
  | error
  | critical
  | alert
  | emergency
  deriving DecidableEq, Repr

namespace Severity

def rank : Severity → Nat
  | .debug => 0
  | .info => 1
  | .notice => 2
  | .warning => 3
  | .error => 4
  | .critical => 5
  | .alert => 6
  | .emergency => 7

def label : Severity → String
  | .debug => "debug"
  | .info => "info"
  | .notice => "notice"
  | .warning => "warn"
  | .error => "error"
  | .critical => "critical"
  | .alert => "alert"
  | .emergency => "emerg"

instance : Ord Severity :=
  ⟨fun first second => compare first.rank second.rank⟩

end Severity

/-- One entry of a log. -/
structure Message where
  severity : Severity
  text : String
  deriving DecidableEq, Repr

def Message.line (message : Message) : String :=
  message.severity.label ++ ": " ++ message.text

/-- The outcome of a computation and the messages that it wrote, oldest first. -/
structure Logged (ε α : Type) where
  log : List Message
  outcome : Except ε α

namespace Logged

variable {ε α β : Type}

/-- Ends with a result and writes nothing. -/
def ok (result : α) : Logged ε α :=
  ⟨[], .ok result⟩

/-- Ends with an error and writes nothing. -/
def fail (cause : ε) : Logged ε α :=
  ⟨[], .error cause⟩

def write (severity : Severity) (text : String) : Logged ε Unit :=
  ⟨[⟨severity, text⟩], .ok ()⟩

/-- Ends as a computation that writes nothing does. -/
def ofExcept (outcome : Except ε α) : Logged ε α :=
  ⟨[], outcome⟩

/-- Goes on with the result of the first computation, unless that is an error. -/
def andThen : Logged ε α → (α → Logged ε β) → Logged ε β
  | ⟨log, .ok result⟩, next =>
      let following := next result
      ⟨log ++ following.log, following.outcome⟩
  | ⟨log, .error cause⟩, _ => ⟨log, .error cause⟩

instance : Monad (Logged ε) where
  pure := ok
  bind := andThen

instance : LawfulMonad (Logged ε) :=
  LawfulMonad.mk' (Logged ε)
    (by
      rintro α ⟨log, outcome⟩
      cases outcome <;> simp [Functor.map, andThen, ok])
    (by
      intro α β result next
      simp [bind, pure, andThen, ok])
    (by
      rintro α β γ ⟨log, outcome⟩ next last
      cases outcome with
      | error cause => rfl
      | ok result =>
          simp only [bind, andThen]
          rcases next result with ⟨later, middle⟩
          cases middle <;> simp)

end Logged
end EarlyBoot
