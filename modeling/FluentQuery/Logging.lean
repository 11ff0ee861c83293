import FluentQuery.Data.Text

/-!
# Log levels and the state of the logger

Nothing is logged before the logger is initialised; changing its level or asking for it initialises
it.
-/

namespace FluentQuery

set_option autoImplicit false

inductive LogLevel where
  | trace | debug | info | warn | error | critical
deriving DecidableEq, Repr, Inhabited

namespace LogLevel

def name : LogLevel → String
  | trace => "trace"
  | debug => "debug"
  | info => "info"
  | warn => "warn"
  | error => "error"
  | critical => "critical"

/-- How severe a level is, from 0 on. -/
def severity : LogLevel → Nat
  | trace => 0
  | debug => 1
  | info => 2
  | warn => 3
  | error => 4
  | critical => 5

/-- The level with the given name, in any case; an unknown name means `info`. -/
def ofName (name : String) : LogLevel :=
  match Text.lowercase name with
  | "trace" => trace
  | "debug" => debug
  | "warn" | "warning" => warn
  | "error" | "err" => error
  | "critical" | "crit" => critical
  | _ => info

end LogLevel

/-- The logger: its level once it is initialised. -/
structure Logger where
  level : Option LogLevel := none
deriving DecidableEq, Repr, Inhabited

namespace Logger

def isInitialized (l : Logger) : Bool :=
  l.level.isSome

/-- Initialises the logger, again if need be. -/
def start (_ : Logger) (level : LogLevel) : Logger :=
  ⟨some level⟩

/-- The logger no longer logs. -/
def shutdown (_ : Logger) : Logger :=
  ⟨none⟩

/-- The logger as it is used: initialised at `info` if it was not. -/
def use (l : Logger) : Logger :=
  ⟨some (l.level.getD .info)⟩

/-- Changes the level. -/
def setLevel (_ : Logger) (level : LogLevel) : Logger :=
  ⟨some level⟩

end Logger

end FluentQuery
