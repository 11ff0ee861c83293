import FluentQuery.Operation.Normalize
import FluentQuery.Resolve.Expr

/-!
# Methods of a query chain

The methods that can be chained on a query, by name, and the checks they share.  A method sees the
query so far as an operation and extends it.
-/

namespace FluentQuery

set_option autoImplicit false

/-- A method that can be called on a query. -/
inductive Method where
  | filter
  | select
  | groupBy
  | sort (kind : SortKind) (descending : Bool)
  | page (kind : PageKind)
  | distinct
  | reverse
  | join (kind : JoinKind)
  | groupJoin
  | selectMany
  | defaultIfEmpty
  | terminal (kind : TerminalKind)
  | contains
  | aggregate (kind : AggregateKind)
  | values
  | onConflict
  | doNothing
  | doUpdateSet
  | returning
  | set
  | allowFullTableUpdate
  | allowFullTableDelete
deriving DecidableEq, Repr

namespace Method

/-- The names under which methods are called. -/
def table : List (String × Method) :=
  [("where", filter), ("select", select), ("groupBy", groupBy),
    ("orderBy", sort .orderBy false), ("orderByDescending", sort .orderBy true),
    ("thenBy", sort .thenBy false), ("thenByDescending", sort .thenBy true),
    ("take", page .take), ("skip", page .skip), ("distinct", distinct), ("reverse", reverse),
    ("join", join .inner), ("leftJoin", join .left), ("rightJoin", join .right),
    ("fullJoin", join .full), ("crossJoin", join .cross), ("groupJoin", groupJoin),
    ("selectMany", selectMany), ("defaultIfEmpty", defaultIfEmpty),
    ("first", terminal .first), ("firstOrDefault", terminal .firstOrDefault),
    ("single", terminal .single), ("singleOrDefault", terminal .singleOrDefault),
    ("last", terminal .last), ("lastOrDefault", terminal .lastOrDefault),
    ("any", terminal .any), ("all", terminal .all), ("count", terminal .count),
    ("longCount", terminal .longCount), ("contains", contains),
    ("sum", aggregate .sum), ("average", aggregate .average), ("avg", aggregate .average),
    ("min", aggregate .min), ("max", aggregate .max),
    ("values", values), ("onConflict", onConflict), ("doNothing", doNothing),
    ("doUpdateSet", doUpdateSet), ("returning", returning), ("set", set),
    ("allowFullTableUpdate", allowFullTableUpdate),
    ("allowFullTableDelete", allowFullTableDelete)]

/-- The method with the given name. -/
def ofName? (name : String) : Option Method :=
  Assoc.find? table name

/-- The names of all methods, in order. -/
def names : NameSet :=
  NameSet.ofList (table.map Prod.fst)

end Method

namespace Resolve

variable {α : Type}

/-- Fails because of the number of arguments of the current method. -/
def failArguments (least most got : Nat) : Resolve α := do
  fail (ChainFault.argumentCount (← get).method least most got)

/-- Only a SELECT that has not ended in a terminal step can be extended. -/
def requireSelect (source : Operation) : Resolve Unit := do
  let method := (← get).method
  match source with
  | step :: _ =>
    if step.isCrud then fail (ChainFault.notOnStatement method step.typeName)
    else if step.isTerminal then fail (ChainFault.afterTerminal method step.typeName)
  | [] => return ()

/-- Binds the parameters of a row lambda: the row, then the parameters of the query. -/
def bindRowParams (params : List String) : Resolve Unit := do
  match params with
  | [] => return ()
  | [row] => bindRow row
  | [row, query] =>
    bindRow row
    bind (·.bindParam query)
  | _ => fail (ChainFault.lambdaParameters (← get).method)

/-- The value of a row lambda. -/
def rowValue (node : Node) : Resolve Expr := do
  node.resolveLambda false (← get).method bindRowParams

/-- The predicate of a row lambda. -/
def rowPredicate (node : Node) : Resolve Expr := do
  predicate (← node.resolveLambda true (← get).method bindRowParams)

/-- Binds the first parameter of a lambda to the row of the FROM table. -/
def bindTableParam (params : List String) : Resolve Unit :=
  match params with
  | [] => return ()
  | name :: _ => bind (·.bindTable name)

/-- Sets the shape of the rows that later lambdas see. -/
def setShape (shape : Option ResultShape) : Resolve Unit :=
  bind fun b => { b with shape }

end Resolve

end FluentQuery
