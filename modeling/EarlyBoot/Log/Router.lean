import EarlyBoot.Log

/-!
# The router of messages

Messages go to the recorder that is installed when they are written.  While none
is installed they are dropped.
-/

namespace EarlyBoot

/-- The installed recorder, if any, and what each recorder has received, oldest
message first. -/
structure Router (ρ : Type) where
  installed : Option ρ
  records : ρ → List Message

namespace Router

variable {ρ : Type} [DecidableEq ρ]

/-- A router whose recorders have received nothing. -/
def start (installed : Option ρ) : Router ρ :=
  ⟨installed, fun _ => []⟩

/-- Installs another recorder, or none, and gives back the one before. -/
def install (router : Router ρ) (next : Option ρ) : Option ρ × Router ρ :=
  (router.installed, { router with installed := next })

/-- Hands a message to the installed recorder. -/
def write (router : Router ρ) (message : Message) : Router ρ :=
  { router with
    records := fun recorder =>
      if router.installed = some recorder then
        router.records recorder ++ [message]
      else
        router.records recorder }

/-- Logs a text with a severity.  The ways to log below differ in their severity only. -/
def log (router : Router ρ) (severity : Severity) (text : String) : Router ρ :=
  router.write ⟨severity, text⟩

def debug (router : Router ρ) (text : String) : Router ρ :=
  router.log .debug text

def info (router : Router ρ) (text : String) : Router ρ :=
  router.log .info text

def notice (router : Router ρ) (text : String) : Router ρ :=
  router.log .notice text

def warning (router : Router ρ) (text : String) : Router ρ :=
  router.log .warning text

def error (router : Router ρ) (text : String) : Router ρ :=
  router.log .error text

def critical (router : Router ρ) (text : String) : Router ρ :=
  router.log .critical text

def alert (router : Router ρ) (text : String) : Router ρ :=
  router.log .alert text

def emergency (router : Router ρ) (text : String) : Router ρ :=
  router.log .emergency text

end Router
end EarlyBoot
