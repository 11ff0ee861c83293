import FluentQuery.Data.Text
import FluentQuery.Error.Fault
import FluentQuery.Json.Value

/-!
# Errors and how they are reported

A `CompileError` is a fault together with the place where it was noticed: the statement being
compiled, its table and the method being processed.  A `Diagnostic` is what a caller sees of it.
Loading a document may fail in one more way, a value of the wrong JSON type.
-/

namespace FluentQuery

set_option autoImplicit false

/-- Where an error was noticed. -/
structure ErrorContext where
  operation : String := ""
  table : String := ""
  method : String := ""
deriving DecidableEq, Repr, Inhabited

namespace ErrorContext

def toJson (c : ErrorContext) : Json :=
  .object [("operation", .str c.operation), ("table", .str c.table), ("method", .str c.method)]

/-- The parts of the context that are known, as `label=value` pairs. -/
def describe (c : ErrorContext) : String :=
  let parts := [("operation", c.operation), ("table", c.table), ("method", c.method)]
  let known := parts.filter fun part => !part.2.isEmpty
  String.intercalate ", " (known.map fun part => part.1 ++ "=" ++ part.2)

end ErrorContext

/-- An error as it is reported. -/
structure Diagnostic where
  kind : ErrorKind
  message : String
  context : ErrorContext
deriving DecidableEq, Repr

namespace Diagnostic

def toJson (d : Diagnostic) : Json :=
  .object
    [("kind", .str d.kind.name), ("message", .str d.message), ("context", d.context.toJson)]

/-- One line with the kind, the message and, in brackets, the known context.  A NUL character in
any of them ends the line. -/
def what (d : Diagnostic) : String :=
  let place := d.context.describe
  Text.untilNul
    (d.kind.name ++ ": " ++ d.message ++ (if place.isEmpty then "" else " [" ++ place ++ "]"))

end Diagnostic

/-- A fault and the place where it was noticed. -/
structure CompileError where
  fault : Fault
  context : ErrorContext := {}
deriving DecidableEq, Repr

namespace CompileError

/-- How the error is reported. -/
def diagnostic (e : CompileError) : Diagnostic :=
  ⟨e.fault.kind, e.fault.message, e.context⟩

end CompileError

/-- Why a document could not be read. -/
inductive Failure where
  | compile (error : CompileError)
  | json (error : Json.TypeError)
deriving DecidableEq, Repr

/-- A fault noticed outside of any query. -/
def Failure.ofFault (fault : Fault) : Failure :=
  .compile ⟨fault, {}⟩

/-- The outcome of an access to JSON as the outcome of reading a document. -/
def liftJson {α : Type} (x : Except Json.TypeError α) : Except Failure α :=
  x.mapError .json

end FluentQuery
