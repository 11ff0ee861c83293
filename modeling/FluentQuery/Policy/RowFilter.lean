import FluentQuery.Policy.Schema
import FluentQuery.Resolve.Method

/-!
# Row filters of a table

A declared predicate `(row, ctx, helpers) => …` is parsed into an expression.  Its literals become
automatic parameters, and every access `ctx.key` becomes a parameter of its own, under a name that
callers cannot reach by accident.
-/

namespace FluentQuery

set_option autoImplicit false

/-- A parsed row filter. -/
structure RowFilter where
  predicate : Expr
  autoParams : Assoc Json
  /-- The keys of the context that the predicate uses. -/
  contextKeys : NameSet
  /-- The number of automatic parameters after parsing. -/
  autoParamCounter : Int
deriving Inhabited

namespace RowFilter

/-- How the names of parameters that carry values of the context begin. -/
def contextNamespace : String :=
  "__sqlforge_row_filter_ctx__"

/-- The name of the parameter that carries the value of a context key. -/
def contextParam (key : String) : String :=
  contextNamespace ++ key

/-- Records the use of a context key and gives the name of its parameter. -/
def useContextKey (property : String) (isIndexed : Bool) : EStateM PolicyFault NameSet String := do
  if property.isEmpty || isIndexed || property.toList.contains '.' then
    throw .contextAccess
  modify fun keys => NameSet.insert keys property
  return contextParam property

/-- The replacement of an access to the context; other nodes stay. -/
def bindContextNode (context : String) : Expr → EStateM PolicyFault NameSet (Option Expr)
  | .param p property index =>
    if p = context then do
      let name ← useContextKey property index.isSome
      return some (.param name "" none)
    else return none
  | .booleanParam p property =>
    if p = context then do
      let name ← useContextKey property false
      return some (.booleanParam name "")
    else return none
  | _ => return none

/-- The predicate with every access to the context replaced by its parameter, and the keys that were
used.  Without a name the context cannot be accessed. -/
def bindContext (context : String) (predicate : Expr) : Except PolicyFault (Expr × NameSet) :=
  if context.isEmpty then .ok (predicate, [])
  else
    match (predicate.replaceM (bindContextNode context)) [] with
    | .ok e keys => .ok (e, keys)
    | .error fault _ => .error fault

/-- Binds the row and the context of a filter. -/
def bindParams : List String → Resolve Unit
  | [] => return ()
  | [row] => Resolve.bind (·.bindTable row)
  | row :: context :: rest => do
    if rest.length > 1 then Resolve.fail PolicyFault.filterParameters
    Resolve.bind (·.bindTable row)
    if !context.isEmpty then Resolve.bind (·.bindParam context)

/-- The names a filter gives to the context and the helpers. -/
def paramNames : Node → String × String
  | .arrow (_ :: context :: helpers :: _) _ => (context, helpers)
  | .arrow [_, context] _ => (context, "")
  | _ => ("", "")

/-- Parses a declared predicate; automatic parameters are numbered after `counter`. -/
def parse (declared : Node) (table : String) (kind : FilterKind) (counter : Int) :
    Except CompileError RowFilter :=
  let (context, helpers) := paramNames declared
  let scope : Scope :=
    { autoParamCounter := counter, table, operation := kind.name, method := "rowFilter"
      tableCount := 1, helpers }
  let work : Resolve Expr := do
    Resolve.predicate (← declared.resolveLambda true "rowFilter" bindParams)
  match work scope with
  | .error e _ => .error e
  | .ok predicate scope =>
    match bindContext context predicate with
    | .error fault => .error ⟨fault, kind.place table⟩
    | .ok (predicate, contextKeys) =>
      .ok ⟨predicate, scope.autoParams, contextKeys, scope.autoParamCounter⟩

end RowFilter

/-- Parsed filters by table, kind and the number their automatic parameters start from. -/
abbrev RowFilterMemo := Assoc RowFilter

end FluentQuery
