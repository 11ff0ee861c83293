import FluentQuery.Resolve.Method

/-!
# Methods of one SELECT

Filters, projections, grouping, sorting, paging and the terminal methods.
-/

namespace FluentQuery

set_option autoImplicit false

namespace Resolve

/-- `where(row => …)`, on a SELECT, UPDATE or DELETE. -/
def filter (source : Operation) : List Node → Resolve Operation
  | [argument] =>
    match source with
    | .update s :: rest => do
      let predicate ← rowPredicate argument
      return .update { s with predicate := Expr.conj s.predicate predicate } :: rest
    | .delete s :: rest => do
      let predicate ← rowPredicate argument
      return .delete { s with predicate := Expr.conj s.predicate predicate } :: rest
    | source => do
      requireSelect source
      let predicate ← rowPredicate argument
      return .filter predicate :: source
  | arguments => failArguments 1 1 arguments.length

/-- `select(row => …)`; later lambdas see the projected row.  Window results have no shape. -/
def select (source : Operation) (arguments : List Node) : Resolve Operation := do
  requireSelect source
  match arguments with
  | [argument] =>
    let selector ← rowValue argument
    modify fun s => { s with groupByKey := .absent }
    setShape (if selector.hasWindow then none else selector.resultShape)
    return .select selector :: source
  | arguments => failArguments 1 1 arguments.length

/-- `groupBy(row => …)`, once per query. -/
def groupBy (source : Operation) (arguments : List Node) : Resolve Operation := do
  requireSelect source
  match arguments with
  | [argument] =>
    if !(← get).groupByKey.isAbsent then fail ChainFault.groupByTwice
    let key ← rowValue argument
    modify fun s => { s with groupByKey := key }
    return .groupBy key :: source
  | arguments => failArguments 1 1 arguments.length

/-- `orderBy(row => …)` and its kin; `thenBy` needs an `orderBy` before it. -/
def sort (kind : SortKind) (descending : Bool) (source : Operation) (arguments : List Node) :
    Resolve Operation := do
  requireSelect source
  match arguments with
  | [argument] =>
    if kind = .thenBy && !(Operation.level source).any Step.isOrderBy then
      fail (ChainFault.thenByFirst (← get).method)
    let key ← rowValue argument
    return .sort kind key descending :: source
  | arguments => failArguments 1 1 arguments.length

/-- What an automatic parameter that counts rows is recorded as. -/
def pageField : PageKind → String
  | .take => "LIMIT"
  | .skip => "OFFSET"

/-- `take(n)` and `skip(n)`; a literal count is an integer that is not negative in 64 bits. -/
def page (kind : PageKind) (source : Operation) (arguments : List Node) : Resolve Operation := do
  requireSelect source
  match arguments with
  | [.literal value] =>
    match value with
    | .int n =>
      if Json.wrapSigned 64 n < 0 then fail (ChainFault.pagingCount (← get).method)
      let count ← autoParam value (pageField kind) none
      return .page kind count :: source
    | _ => fail (ChainFault.pagingCount (← get).method)
  | [argument] =>
    let count ← argument.resolve false
    return .page kind count :: source
  | arguments => failArguments 1 1 arguments.length

theorem page_many (kind : PageKind) (source : Operation) (first second : Node) (rest : List Node) :
    page kind source (first :: second :: rest) =
      requireSelect source >>= fun _ => failArguments 1 1 (rest.length + 2) := by
  cases first <;> rfl

/-- A method without arguments that adds a step. -/
def mark (step : Step) (source : Operation) (arguments : List Node) : Resolve Operation := do
  requireSelect source
  if arguments.isEmpty then return step :: source else failArguments 0 0 arguments.length

/-- A terminal method with a predicate, which only `all` has to be given. -/
def terminal (kind : TerminalKind) (source : Operation) (arguments : List Node) :
    Resolve Operation := do
  requireSelect source
  match arguments with
  | [argument] =>
    let predicate ← rowPredicate argument
    return .terminal kind predicate :: source
  | arguments =>
    let least := if kind = .all then 1 else 0
    if least ≤ arguments.length && arguments.length ≤ 1 then return .terminal kind .absent :: source
    else failArguments least 1 arguments.length

/-- `contains(value)` -/
def contains (source : Operation) (arguments : List Node) : Resolve Operation := do
  requireSelect source
  match arguments with
  | [argument] =>
    let value ←
      match argument with
      | .literal value =>
        if value.isNull then literal value .absent else autoParam value "CONTAINS" none
      | argument => argument.resolve false
    return .contains value :: source
  | arguments => failArguments 1 1 arguments.length

/-- A terminal method that aggregates; without a selector it aggregates what was selected. -/
def aggregate (kind : AggregateKind) (source : Operation) (arguments : List Node) :
    Resolve Operation := do
  requireSelect source
  match arguments with
  | [] => return .aggregate kind .absent :: source
  | [argument] =>
    let selector ← rowValue argument
    return .aggregate kind selector :: source
  | arguments => failArguments 0 1 arguments.length

end Resolve

end FluentQuery
