import FluentQuery.Plan.Handle
import FluentQuery.Sql.Statement

/-!
# Compiling plans

The last step: SQL for a plan handle and the parameters of a caller.
-/

namespace FluentQuery

set_option autoImplicit false

namespace Dialect

/-- The SQL of a plan. -/
def compile (d : Dialect) (h : Handle) (params : Json) : Session SqlResult := do
  let plan ← h.finalize params
  Session.ofExcept (d.toSql plan.toBoundQuery)

/-- The prepared statement of a plan. -/
def prepareHandle (d : Dialect) (h : Handle) (params : Json) : Session PreparedStatement := do
  let plan ← h.finalize params
  Session.ofExcept (d.prepare plan.toBoundQuery)

end Dialect

/-- An outcome of compiling that is reported rather than raised. -/
inductive CompileOutcome where
  | success (result : SqlResult)
  | failure (error : CompileError)
deriving Inhabited

namespace CompileOutcome

def toJson : CompileOutcome → Json
  | success result =>
    .object
      [("success", .bool true), ("error_message", .str ""), ("error_detail", .null),
        ("error_kind", .null), ("result", result.toJson)]
  | failure error =>
    let diagnostic := error.diagnostic
    .object
      [("success", .bool false), ("error_message", .str diagnostic.message),
        ("error_detail", diagnostic.toJson), ("error_kind", .str diagnostic.kind.name),
        ("result", ({} : SqlResult).toJson)]

end CompileOutcome

/-- Compiles a plan and reports a failure in its outcome. -/
def Dialect.tryCompile (d : Dialect) (h : Handle) (params : Json) : Session CompileOutcome :=
  fun w =>
    match d.compile h params w with
    | .ok result w => .ok (.success result) w
    | .error e w => .ok (.failure e) w

end FluentQuery
