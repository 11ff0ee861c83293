import FluentQuery.Operation.Basic

/-!
# Normal form of operations

Two passes bring an operation into the form from which SQL is made.  `Operation.lowerJoins` turns
a group join that is flattened at once into a join, flattening of an independent collection into
a cross join, and drops the marks for empty collections.  `Operation.isolateWindows` moves a filter
that comes after a window projection to an outer query over that projection.
-/

namespace FluentQuery

set_option autoImplicit false

namespace Operation

/-- A `selectMany` over the given earlier steps, as a join if it can be one. -/
def lowerSelectMany (collection : Operation) (path : String) (selector : Expr)
    (shape : Option ResultShape) (usesDefault : Bool) (earlier : Operation) : Operation :=
  match collection, earlier with
  | [], .groupJoin inner keys groupSelector groupShape outerName groupName :: rest =>
    if groupName = path then
      .join (if usesDefault then .left else .inner) inner keys selector shape :: rest
    else
      .selectMany [] path selector shape usesDefault ::
        .groupJoin inner keys groupSelector groupShape outerName groupName :: rest
  | [], earlier => .selectMany [] path selector shape usesDefault :: earlier
  | collection, earlier => .join .cross collection {} selector shape :: earlier

/-- A step over the given earlier steps, lowered: a mark for empty collections is dropped, and a
`selectMany` becomes a join if it can be one. -/
def lowerStep (step : Step) (earlier : Operation) : Operation :=
  match step with
  | .selectMany collection path selector shape usesDefault =>
    lowerSelectMany collection path selector shape usesDefault earlier
  | .defaultIfEmpty => earlier
  | step => step :: earlier

mutual

/-- Turns flattened collections into joins, in nested operations too.  What precedes a `from` is no
part of the query. -/
def lowerJoins : List Step → List Step
  | [] => []
  | step :: rest =>
    if step.isFrom then lowerNested step :: rest
    else lowerStep (lowerNested step) (lowerJoins rest)

/-- A step whose nested operation is lowered. -/
def lowerNested : Step → Step
  | .fromSource table schema subquery aliasHint =>
    .fromSource table schema (lowerJoins subquery) aliasHint
  | .join kind inner keys selector shape => .join kind (lowerJoins inner) keys selector shape
  | .groupJoin inner keys selector shape outerName groupName =>
    .groupJoin (lowerJoins inner) keys selector shape outerName groupName
  | .selectMany collection path selector shape usesDefault =>
    .selectMany (lowerJoins collection) path selector shape usesDefault
  | step => step

end

/-- Whether a projection of this statement uses a window function. -/
def selectsWindow : List Step → Bool
  | [] => false
  | .fromSource _ _ _ _ :: _ => false
  | .select selector :: rest => selector.hasWindow || selectsWindow rest
  | _ :: rest => selectsWindow rest

/-- A step over the given earlier steps; a filter of window results goes to an outer query. -/
def isolateStep (step : Step) (earlier : Operation) : Operation :=
  match step with
  | .filter predicate =>
    if selectsWindow earlier then [.filter predicate, .fromSource "" "" earlier ""]
    else .filter predicate :: earlier
  | step => step :: earlier

mutual

/-- Filters window results in an outer query, in nested operations too. -/
def isolateWindows : List Step → List Step
  | [] => []
  | step :: rest =>
    if step.isFrom then isolateNested step :: rest
    else isolateStep (isolateNested step) (isolateWindows rest)

/-- A step in whose nested operation window results are filtered in an outer query. -/
def isolateNested : Step → Step
  | .fromSource table schema subquery aliasHint =>
    .fromSource table schema (isolateWindows subquery) aliasHint
  | .join kind inner keys selector shape => .join kind (isolateWindows inner) keys selector shape
  | .groupJoin inner keys selector shape outerName groupName =>
    .groupJoin (isolateWindows inner) keys selector shape outerName groupName
  | .selectMany collection path selector shape usesDefault =>
    .selectMany (isolateWindows collection) path selector shape usesDefault
  | step => step

end

/-- The normal form of an operation. -/
def normalize (op : Operation) : Operation :=
  isolateWindows (lowerJoins op)

end Operation

end FluentQuery
