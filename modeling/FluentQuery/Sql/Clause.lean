import FluentQuery.Operation.Basic
import FluentQuery.Sql.Dialect

/-!
# The clauses of a SELECT

Each clause of a SELECT statement is picked out of the chain of steps by what the steps are, not by
where they stand.  The functions of this module make those choices, on chains in call order;
rendering only writes down what they chose.
-/

namespace FluentQuery

set_option autoImplicit false

namespace Clause

/-! ### Looking for steps -/

/-- The first terminal step of one of the given kinds, with its predicate. -/
def terminal? (kinds : List TerminalKind) : List Step → Option (TerminalKind × Expr)
  | [] => none
  | .terminal kind predicate :: rest =>
    if kinds.contains kind then some (kind, predicate) else terminal? kinds rest
  | _ :: rest => terminal? kinds rest

/-- The value the first `contains` step looks for. -/
def contained? : List Step → Option Expr
  | [] => none
  | .contains value :: _ => some value
  | _ :: rest => contained? rest

/-- The selector of the first aggregate step of the given kind. -/
def aggregate? (kind : AggregateKind) : List Step → Option Expr
  | [] => none
  | .aggregate k selector :: rest => if k = kind then some selector else aggregate? kind rest
  | _ :: rest => aggregate? kind rest

/-- The selector of the last `select` step. -/
def lastSelector? : List Step → Option Expr
  | [] => none
  | .select selector :: rest => some ((lastSelector? rest).getD selector)
  | _ :: rest => lastSelector? rest

/-- The key of the first `groupBy` step. -/
def groupKey? : List Step → Option Expr
  | [] => none
  | .groupBy key :: _ => some key
  | _ :: rest => groupKey? rest

/-- The count of the first paging step of the given kind. -/
def page? (kind : PageKind) : List Step → Option Expr
  | [] => none
  | .page k count :: rest => if k = kind then some count else page? kind rest
  | _ :: rest => page? kind rest

def isPage : Step → Bool
  | .page _ _ => true
  | _ => false

def isReverse : Step → Bool
  | .reverse => true
  | _ => false

def isDistinct : Step → Bool
  | .distinct => true
  | _ => false

/-! ### Predicates -/

/-- The predicates of the `where` steps. -/
def filters : List Step → List Expr
  | [] => []
  | .filter predicate :: rest => predicate :: filters rest
  | _ :: rest => filters rest

/-- The kinds of terminal step that may narrow the rows by a predicate of their own, in the order in
which their predicates are added. -/
def narrowing : List (List TerminalKind) :=
  [[.first, .firstOrDefault], [.single, .singleOrDefault], [.last, .lastOrDefault],
    [.count, .longCount]]

/-- The predicates of the terminal steps. -/
def terminalPredicates (chain : List Step) : List Expr :=
  (narrowing.filterMap fun kinds => (terminal? kinds chain).map Prod.snd).filter (!·.isAbsent)

/-- All predicates a row has to satisfy. -/
def predicates (chain : List Step) : List Expr :=
  filters chain ++ terminalPredicates chain

/-! ### Projection -/

/-- What a statement yields of each row, or of all of them. -/
inductive Projection where
  | count
  | aggregate (kind : AggregateKind) (operand : Expr)
  | selector (selector : Expr)
  /-- A group key that is a single value. -/
  | key (key : Expr)
  | all
deriving Repr, Inhabited

/-- A selector whose value can be aggregated. -/
def isScalar (selector : Expr) : Bool :=
  !(selector.isAbsent || selector.isObject || selector.isAllColumns)

/-- What an aggregate step aggregates: its own selector, or the scalar selected last. -/
def aggregateOperand (kind : AggregateKind) (selector : Expr) (chain : List Step) :
    Except SqlFault Expr :=
  if !selector.isAbsent then .ok selector
  else
    match lastSelector? chain with
    | some selected =>
      if isScalar selected then .ok selected else .error (.aggregateWithoutSelector kind.name)
    | none => .error (.aggregateWithoutSelector kind.name)

/-- The first kind of aggregate a chain asks for, with its selector. -/
def firstAggregate? (chain : List Step) : Option (AggregateKind × Expr) :=
  [AggregateKind.sum, .average, .min, .max].findSome? fun kind =>
    (aggregate? kind chain).map fun selector => (kind, selector)

/-- Whether a join names its result, which only an explicit projection can use. -/
def namesJoinResult : Step → Bool
  | .join _ _ _ selector _ => !selector.isAbsent
  | _ => false

/-- The projection of a chain. -/
def projection (chain : List Step) : Except SqlFault Projection :=
  match terminal? [.count, .longCount] chain with
  | some _ => .ok .count
  | none =>
    match firstAggregate? chain with
    | some (kind, selector) => .aggregate kind <$> aggregateOperand kind selector chain
    | none =>
      match lastSelector? chain with
      | some selector => .ok (.selector selector)
      | none =>
        if chain.any namesJoinResult then .error .joinWithoutProjection
        else
          match groupKey? chain with
          | some key => .ok (if key.isObject then .selector key else .key key)
          | none => .ok .all

/-! ### Order -/

/-- How rows are sorted; the flag of a key says whether it descends. -/
inductive Order where
  | none
  | firstColumn (descending : Bool)
  | keys (keys : List (Expr × Bool))
deriving Repr, Inhabited

/-- The sorting keys in force: those of the last `orderBy` and of the `thenBy` steps after it. -/
def sortKeys (chain : List Step) : Option (List (Expr × Bool)) :=
  chain.foldl
    (fun keys step =>
      match step with
      | .sort .orderBy key descending => some [(key, descending)]
      | .sort .thenBy key descending => keys.map (· ++ [(key, descending)])
      | _ => keys)
    Option.none

/-- Whether the rows are asked for in reverse: two reversals cancel out. -/
def isReversed (chain : List Step) : Bool :=
  chain.countP isReverse % 2 = 1

/-- Whether rows are reversed after some of them were cut off. -/
def reversesPage (chain : List Step) : Bool :=
  isReversed chain && (chain.dropWhile (!isPage ·)).any isReverse

/-- The order of a chain.  Asking for the last row turns the order round, as a reversal does. -/
def order (chain : List Step) : Order :=
  let isLast := (terminal? [.last, .lastOrDefault] chain).isSome
  let flip := isLast != isReversed chain
  match sortKeys chain with
  | some keys => .keys (keys.map fun key => (key.1, key.2 != flip))
  | Option.none => if isLast || isReversed chain then .firstColumn flip else .none

/-! ### Paging -/

/-- How many rows are wanted. -/
inductive Limit where
  | none
  | rows (count : Nat)
  | given (count : Expr)
  /-- No bound, written out because the dialect needs one before an offset. -/
  | unbounded
deriving Repr, Inhabited

/-- The limit of a chain.  Two rows are enough to see that a row is not the only one. -/
def limit (d : Dialect) (chain : List Step) : Limit :=
  if (terminal? [.single, .singleOrDefault] chain).isSome then .rows 2
  else if (terminal? [.first, .firstOrDefault] chain).isSome
      || (terminal? [.last, .lastOrDefault] chain).isSome then .rows 1
  else
    match page? .take chain with
    | some count => .given count
    | Option.none =>
      if (page? .skip chain).isSome && d.offsetRequiresLimit then .unbounded else .none

end Clause

end FluentQuery
