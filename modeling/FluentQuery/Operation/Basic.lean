import FluentQuery.Expr.Traverse
import FluentQuery.Shape

/-!
# Operations

An operation is the list of steps a query was built with, the last call first: the operation of
`q.from("users").where(p).take(3)` is `take`, `where`, `from`.  Steps may hold operations of their
own, such as the joined query of a join.  `Operation.chain` gives the steps that one SELECT
statement is made of, in call order.
-/

namespace FluentQuery

set_option autoImplicit false

inductive JoinKind where
  | inner | left | right | full | cross
deriving DecidableEq, Repr

inductive SortKind where
  | orderBy | thenBy
deriving DecidableEq, Repr

inductive PageKind where
  | take | skip
deriving DecidableEq, Repr

/-- Terminal steps that carry a predicate. -/
inductive TerminalKind where
  | first | firstOrDefault | single | singleOrDefault | last | lastOrDefault | any | all | count
  | longCount
deriving DecidableEq, Repr

/-- Terminal steps that aggregate a selected value. -/
inductive AggregateKind where
  | sum | average | min | max
deriving DecidableEq, Repr

namespace JoinKind

def name : JoinKind → String
  | inner => "inner"
  | left => "left"
  | right => "right"
  | full => "full"
  | cross => "cross"

def all : List JoinKind := [inner, left, right, full, cross]

end JoinKind

namespace SortKind

def name : SortKind → String
  | orderBy => "orderBy"
  | thenBy => "thenBy"

end SortKind

namespace PageKind

def name : PageKind → String
  | take => "take"
  | skip => "skip"

end PageKind

namespace TerminalKind

def name : TerminalKind → String
  | first => "first"
  | firstOrDefault => "firstOrDefault"
  | single => "single"
  | singleOrDefault => "singleOrDefault"
  | last => "last"
  | lastOrDefault => "lastOrDefault"
  | any => "any"
  | all => "all"
  | count => "count"
  | longCount => "longCount"

end TerminalKind

namespace AggregateKind

def name : AggregateKind → String
  | sum => "sum"
  | average => "average"
  | min => "min"
  | max => "max"

end AggregateKind

/-- The columns a join compares; the outer one belongs to the table with the given index. -/
structure JoinKeys where
  outer : String := ""
  outerSource : Option Int := none
  inner : String := ""
deriving DecidableEq, Repr, Inhabited

/-- Columns and the expressions assigned to them. -/
abbrev Assignments := List (String × Expr)

/-- What an insertion does with a row that is already there. -/
inductive ConflictAction where
  /-- Not yet said. -/
  | none
  | nothing
  | update
deriving DecidableEq, Repr, Inhabited

/-- The conflict clause of an insertion.  Its assignments are expressions of the statement whatever
the action is; they take effect in an update. -/
structure OnConflict where
  target : List String
  action : ConflictAction := .none
  assignments : Option Assignments := none
deriving Repr, Inhabited

structure InsertStatement where
  table : String
  schema : String
  values : Option Assignments := none
  returning : Expr := .absent
  onConflict : Option OnConflict := none
deriving Repr, Inhabited

structure UpdateStatement where
  table : String
  schema : String
  assignments : Option Assignments := none
  predicate : Expr := .absent
  allowFullTable : Bool := false
  returning : Expr := .absent
deriving Repr, Inhabited

structure DeleteStatement where
  table : String
  schema : String
  predicate : Expr := .absent
  allowFullTable : Bool := false
deriving Repr, Inhabited

/-- One call of a query chain. -/
inductive Step where
  /-- A base table, or a derived table when there is a subquery. -/
  | fromSource (table schema : String) (subquery : List Step) (aliasHint : String)
  | filter (predicate : Expr)
  | select (selector : Expr)
  | join (kind : JoinKind) (inner : List Step) (keys : JoinKeys) (selector : Expr)
      (shape : Option ResultShape)
  /-- A join whose matching rows are kept as a group; the two names are the members of the result
  that hold the outer row and the group. -/
  | groupJoin (inner : List Step) (keys : JoinKeys) (selector : Expr) (shape : Option ResultShape)
      (outerName groupName : String)
  /-- Flattening of the group found under `path`, or of an independent collection. -/
  | selectMany (collection : List Step) (path : String) (selector : Expr)
      (shape : Option ResultShape) (defaultIfEmpty : Bool)
  | defaultIfEmpty
  | groupBy (key : Expr)
  | sort (kind : SortKind) (key : Expr) (descending : Bool)
  | distinct
  | reverse
  | page (kind : PageKind) (count : Expr)
  | terminal (kind : TerminalKind) (predicate : Expr)
  | contains (value : Expr)
  | aggregate (kind : AggregateKind) (selector : Expr)
  | insert (statement : InsertStatement)
  | update (statement : UpdateStatement)
  | delete (statement : DeleteStatement)
deriving Repr, Inhabited

/-- A query: its steps, the last call first.  The empty list is no query at all. -/
abbrev Operation := List Step

/-- A query together with the values of its parameters. -/
structure BoundQuery where
  operation : Operation
  params : Json
deriving Inhabited

namespace Assignments

/-- Whether a value is a parameter that was not given. -/
def isUndefined (params : Json) : Expr → Bool
  | .param p property _ => !params.contains (Expr.placeholderName p property)
  | _ => false

/-- The assignments that are made: those with a value that is not left out. -/
def given (params : Json) (assignments : Assignments) : Assignments :=
  assignments.filter fun entry => !(entry.2.isAbsent || isUndefined params entry.2)

end Assignments

namespace Step

/-- The name of a step's type. -/
def typeName : Step → String
  | fromSource _ _ _ _ => "from"
  | filter _ => "where"
  | select _ => "select"
  | join _ _ _ _ _ => "join"
  | groupJoin _ _ _ _ _ _ => "groupJoin"
  | selectMany _ _ _ _ _ => "selectMany"
  | defaultIfEmpty => "defaultIfEmpty"
  | groupBy _ => "groupBy"
  | sort kind _ _ => kind.name
  | distinct => "distinct"
  | reverse => "reverse"
  | page kind _ => kind.name
  | terminal kind _ => kind.name
  | contains _ => "contains"
  | aggregate kind _ => kind.name
  | insert _ => "insert"
  | update _ => "update"
  | delete _ => "delete"

def isFrom : Step → Bool
  | fromSource _ _ _ _ => true
  | _ => false

/-- Whether nothing can be chained after a step. -/
def isTerminal : Step → Bool
  | terminal _ _ | contains _ | aggregate _ _ => true
  | _ => false

/-- Whether a step is the root of a statement that changes rows. -/
def isCrud : Step → Bool
  | insert _ | update _ | delete _ => true
  | _ => false

def isOrderBy : Step → Bool
  | sort .orderBy _ _ => true
  | _ => false

/-- The assignments as an object expression. -/
def assignmentExprs (assignments : Option Assignments) : List Expr :=
  match assignments with
  | some properties => [.object properties]
  | none => []

/-- The assignments of a conflict clause. -/
def conflictExprs (conflict : Option OnConflict) : List Expr :=
  match conflict with
  | some conflict => assignmentExprs conflict.assignments
  | none => []

/-- The expressions a step holds itself, empty slots left out. -/
def expressions (step : Step) : List Expr :=
  let slots : List Expr :=
    match step with
    | filter e | select e | groupBy e | sort _ e _ | page _ e | terminal _ e | contains e
    | aggregate _ e | join _ _ _ e _ | groupJoin _ _ e _ _ _ | selectMany _ _ e _ _ => [e]
    | insert s => assignmentExprs s.values ++ [s.returning] ++ conflictExprs s.onConflict
    | update s => assignmentExprs s.assignments ++ [s.predicate, s.returning]
    | delete s => [s.predicate]
    | fromSource _ _ _ _ | defaultIfEmpty | distinct | reverse => []
  slots.filter fun e => !e.isAbsent

/-- The operation nested in a step, empty if there is none. -/
def nested : Step → Operation
  | fromSource _ _ subquery _ => subquery
  | join _ inner _ _ _ => inner
  | groupJoin inner _ _ _ _ _ => inner
  | selectMany collection _ _ _ _ => collection
  | _ => []

end Step

namespace Operation

/-- The steps down to the first `from`, the last call first. -/
def level : List Step → List Step
  | [] => []
  | step :: rest => if step.isFrom then [step] else step :: level rest

/-- The steps of one statement in call order, starting at its `from`. -/
def chain (op : Operation) : List Step :=
  (level op).reverse

/-- The `from` a chain starts at. -/
def rootFrom? (op : Operation) : Option Step :=
  op.find? Step.isFrom

mutual

/-- The table a query is about. -/
def targetTable : List Step → String
  | [] => ""
  | .insert s :: _ => s.table
  | .update s :: _ => s.table
  | .delete s :: _ => s.table
  | step :: rest => (originTable? step).getD (rootTable rest)

/-- The table of the first `from` of a list of steps. -/
def rootTable : List Step → String
  | [] => ""
  | step :: rest => (originTable? step).getD (rootTable rest)

/-- The table of a `from`: its own, that of its subquery, or the name hinted at. -/
def originTable? : Step → Option String
  | .fromSource table _ [] aliasHint => some (if table.isEmpty then aliasHint else table)
  | .fromSource table _ (s :: rest) _ =>
    some (if table.isEmpty then targetTable (s :: rest) else table)
  | _ => none

end

/-- Which kind of statement a query makes. -/
def statementKind : Operation → String
  | .insert _ :: _ => "insert"
  | .update _ :: _ => "update"
  | .delete _ :: _ => "delete"
  | _ => "select"

end Operation

end FluentQuery
