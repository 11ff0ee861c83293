import FluentQuery.Data.Text
import FluentQuery.Error.Basic

/-!
# Dialects

The two SQL back ends differ in how placeholders are written, in whether statements can return
rows, in whether an offset needs a limit, and in how parameter values are handed to the driver.
-/

namespace FluentQuery

set_option autoImplicit false

/-- A SQL back end. -/
inductive Dialect where
  | postgres
  | sqlite
deriving DecidableEq, Repr, Inhabited

namespace Dialect

def name : Dialect → String
  | postgres => "postgres"
  | sqlite => "sqlite"

/-- How the placeholder of a parameter is written. -/
def placeholder (d : Dialect) (param : String) : String :=
  match d with
  | postgres => "$(" ++ param ++ ")"
  | sqlite => "@" ++ param

/-- Whether an execution layer can read rows from a RETURNING clause. -/
def supportsReturning : Dialect → Bool
  | postgres => true
  | sqlite => false

/-- Whether OFFSET may only follow a LIMIT. -/
def offsetRequiresLimit : Dialect → Bool
  | postgres => false
  | sqlite => true

/-- A parameter value as the driver takes it: where there are no booleans they bind as 1 and 0. -/
def normalizeValue : Json → Json
  | .bool b => .int (if b then 1 else 0)
  | v => v

/-- Parameters as the driver takes them. -/
def normalizeParams (d : Dialect) (params : Json) : Json :=
  match d with
  | postgres => params
  | sqlite => .obj (params.members.map fun entry => (entry.1, normalizeValue entry.2))

/-- The dialect with the given name, in any case. -/
def ofName (name : String) : Except CompileError Dialect :=
  match Text.lowercase name with
  | "postgres" | "postgresql" | "pg" => .ok postgres
  | "sqlite" | "sqlite3" => .ok sqlite
  | _ => .error ⟨SqlFault.unknownDialect name, { method := "dialectByName" }⟩

end Dialect

end FluentQuery
