import FluentQuery.Ast.Builder
import FluentQuery.Resolve.Chain

/-!
# Queries

A query-building function `(q, params, helpers) => q.from(…)…` is parsed into the operation its
chain denotes, in normal form, together with the scope after its last call.  The scope is what
further calls continue from.
-/

namespace FluentQuery

set_option autoImplicit false

/-- A parsed query. -/
structure ParsedQuery where
  operation : Operation
  scope : Scope
deriving Inhabited

namespace Node

/-- The scope in which a query-building function is resolved: its parameters name the query
builder, the parameters of the query and the helpers. -/
def rootScope : Node → Except CompileError Scope
  | arrow params _ =>
    match params with
    | [] => .ok {}
    | [q] => .ok { builder := q }
    | [q, p] => .ok { builder := q, bindings := { params := [p] } }
    | [q, p, h] => .ok { builder := q, bindings := { params := [p] }, helpers := h }
    | _ => .error ⟨ChainFault.builderParameters, {}⟩
  | _ => .ok {}

/-- The query a query-building function denotes. -/
def parseQuery (builder : Node) : Except CompileError ParsedQuery := do
  let scope ← builder.rootScope
  match builder.chain .step [] scope with
  | .ok op scope => .ok ⟨op.normalize, scope⟩
  | .error e _ => .error e

end Node

namespace ParsedQuery

/-- A query extended by a call of one more method. -/
def append (q : ParsedQuery) (method : String) (arguments : List Node) :
    Except CompileError ParsedQuery :=
  let call := (Node.identifier planSeed).invoke method arguments
  match call.chain .step q.operation q.scope with
  | .ok op scope => .ok ⟨op.normalize, scope⟩
  | .error e _ => .error e

end ParsedQuery

end FluentQuery
