import FluentQuery.Operation.Json
import FluentQuery.Workspace

/-!
# Plans

A plan is a query that can be extended call by call, together with the schema it was defined on.
Finalizing it merges its parameters with those of the caller and applies the row filters.
-/

namespace FluentQuery

set_option autoImplicit false

/-- A plan. -/
structure PlanState where
  query : ParsedQuery
  schema : Schema
deriving Inhabited

/-- A query with all its parameters, ready for a dialect. -/
structure FinalizedPlan extends BoundQuery where
  autoParamInfos : Assoc AutoParamInfo
deriving Inhabited

namespace FinalizedPlan

def toJson (plan : FinalizedPlan) : Json :=
  .object
    [("operation", Operation.toJson plan.operation), ("params", plan.params),
      ("autoParamInfos", .obj (plan.autoParamInfos.map fun entry => (entry.1, entry.2.toJson)))]

end FinalizedPlan

/-- The parameters of a query: automatic ones and those of the caller, who wins. -/
def mergeParams (autoParams params : Json) : Except CompileError Json :=
  match params with
  | .null => .ok (.obj autoParams.members)
  | .obj given => .ok (.obj (Assoc.merge autoParams.members given))
  | _ => .error ⟨PlanFault.paramsNotObject, {}⟩

namespace PlanState

/-- The plan of a parsed query. -/
def ofQuery (query : ParsedQuery) (schema : Schema) : PlanState :=
  ⟨{ query with operation := query.operation.normalize }, schema⟩

def operation (state : PlanState) : Operation :=
  state.query.operation

/-- The plan extended by a call of one more method. -/
def append (state : PlanState) (method : String) (arguments : List Node) :
    Except CompileError PlanState := do
  let query ← state.query.append method arguments
  return { state with query }

/-- The finished plan for the given parameters. -/
def finalize (state : PlanState) (params : Json) : Session FinalizedPlan := do
  let scope := state.query.scope
  let merged ← Session.ofExcept (mergeParams (.obj scope.autoParams) params)
  let bound ←
    Session.applyRowFilters state.schema ⟨state.operation, merged⟩ scope.autoParamCounter
  return ⟨bound, scope.autoParamInfos⟩

end PlanState

end FluentQuery
