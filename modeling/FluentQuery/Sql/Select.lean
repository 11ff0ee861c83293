import FluentQuery.Sql.Change
import FluentQuery.Sql.Clause

/-!
# SQL of SELECT statements

A statement is written from its steps, each given together with the SQL of the operation nested in
it.  Tables get aliases `t0`, `t1`, … in the order FROM, first JOIN, second JOIN when the
statement joins anything; only then are columns qualified.
-/

namespace FluentQuery

set_option autoImplicit false

namespace Sql

/-- A step together with the SQL of the operation nested in it. -/
structure RenderedStep where
  step : Step
  nested : Except CompileError Fragment

/-- A join to be written. -/
structure JoinSource where
  kind : JoinKind
  inner : Operation
  keys : JoinKeys
  nested : Except CompileError Fragment

/-- The alias of the table with the given index. -/
def tableAlias (index : Nat) : String :=
  "t" ++ toString index

/-- The aliases of the first tables of a statement. -/
def tableAliases (count : Nat) : List String :=
  (List.range count).map tableAlias

/-- How the join of a kind is written. -/
def joinKeyword : JoinKind → String
  | .inner => "INNER JOIN"
  | .left => "LEFT OUTER JOIN"
  | .right => "RIGHT OUTER JOIN"
  | .full => "FULL OUTER JOIN"
  | .cross => "CROSS JOIN"

def aggregateKeyword : AggregateKind → String
  | .sum => "SUM"
  | .average => "AVG"
  | .min => "MIN"
  | .max => "MAX"

/-- A derived table under an alias. -/
def derivedTable (query : Fragment) (name : String) : Fragment :=
  Fragment.text "(" ++ query ++ Fragment.text (") AS " ++ quoteIdentifier name)

/-- What is joined: a base table as it is, anything else as a derived table. -/
def joinTarget (join : JoinSource) (name : String) : Except CompileError Fragment :=
  match join.inner with
  | [.fromSource table schema [] _] =>
    .ok (Fragment.text (quoteTable schema table ++ " AS " ++ quoteIdentifier name))
  | _ => (derivedTable · name) <$> join.nested

/-- The JOIN clause of the table with the given index. -/
def joinClause (scope : SqlScope) (join : JoinSource) (index : Nat) :
    Except CompileError Fragment := do
  let target ← joinTarget join (tableAlias index)
  let clause := Fragment.text (joinKeyword join.kind ++ " ") ++ target
  if join.kind = .cross then return clause
  let outer ← unplaced <|
    { scope with aliases := tableAliases (index + 1) }.aliasFor (join.keys.outerSource.getD 0)
  return clause ++ Fragment.text
    (" ON " ++ quoteIdentifier outer ++ "." ++ quoteIdentifier join.keys.outer ++ " = " ++
      quoteIdentifier (tableAlias index) ++ "." ++ quoteIdentifier join.keys.inner)

/-- The JOIN clauses of tables numbered from the given index on. -/
def joinClauses (scope : SqlScope) : List JoinSource → Nat → Except CompileError (List Fragment)
  | [], _ => .ok []
  | join :: rest, index => do
    let clause ← joinClause scope join index
    return clause :: (← joinClauses scope rest (index + 1))

/-- The joins of a chain. -/
def joinSources : List RenderedStep → List JoinSource
  | [] => []
  | ⟨.join kind inner keys _ _, nested⟩ :: rest => ⟨kind, inner, keys, nested⟩ :: joinSources rest
  | _ :: rest => joinSources rest

/-- The FROM clause and the aliases it introduces. -/
def fromClause (hasJoins : Bool) (table schema : String) (subquery : Operation)
    (aliasHint : String) (nested : Except CompileError Fragment) :
    Except CompileError (Fragment × List String) :=
  if subquery.isEmpty then
    let name := quoteTable schema table
    if hasJoins then
      .ok (Fragment.text ("FROM " ++ name ++ " AS " ++ quoteIdentifier (tableAlias 0)),
        [tableAlias 0])
    else .ok (Fragment.text ("FROM " ++ name), [])
  else do
    let query ← nested
    let name := if hasJoins || aliasHint.isEmpty then tableAlias 0 else aliasHint
    return (Fragment.text "FROM " ++ derivedTable query name, [name])

/-- A SELECT chain: its steps in call order with their nested SQL, and where its errors are
noticed. -/
structure SelectChain where
  dialect : Dialect
  params : Json
  rendered : List RenderedStep

namespace SelectChain

/-- The steps of the chain. -/
def steps (c : SelectChain) : List Step :=
  c.rendered.map RenderedStep.step

/-- Where an error of the chain is noticed. -/
def place (c : SelectChain) (method : String) : ErrorContext :=
  let table :=
    match c.steps.find? Step.isFrom with
    | some (.fromSource table _ _ _) => table
    | _ => ""
  ⟨"select", table, method⟩

/-- Steps that have no SQL of their own have to be lowered first. -/
def rejectUnlowered (c : SelectChain) : Except CompileError Unit :=
  let fault? : Option (SqlFault × String) := c.steps.findSome? fun
    | .groupJoin _ _ _ _ _ _ => some (.groupJoinNotFlattened, "groupJoin")
    | .selectMany _ _ _ _ _ => some (.selectManyNotFlattened, "selectMany")
    | _ => none
  match fault? with
  | some (fault, method) => .error ⟨fault, c.place method⟩
  | none => .ok ()

/-- The FROM and JOIN clauses, and the scope of the expressions of the statement. -/
def sources (c : SelectChain) : Except CompileError (List Fragment × SqlScope) := do
  let joins := joinSources c.rendered
  let scope : SqlScope := ⟨c.dialect, c.params, [], !joins.isEmpty⟩
  match c.rendered.find? (·.step.isFrom) with
  | some ⟨.fromSource table schema subquery aliasHint, nested⟩ =>
    let (clause, aliases) ←
      fromClause scope.hasJoins table schema subquery aliasHint nested
    let clauses ← joinClauses scope joins 1
    let aliases := if joins.isEmpty then aliases else tableAliases (joins.length + 1)
    return (clause :: clauses, { scope with aliases })
  | _ => throw ⟨SqlFault.noFrom, c.place "from"⟩

/-- The conditions of a WHERE clause. -/
def conditions (scope : SqlScope) (predicates : List Expr) :
    Except CompileError (List Fragment) :=
  unplaced (Expr.sqlList scope .predicate predicates)

/-- The WHERE clause, if there is a condition. -/
def whereOf (conditions : List Fragment) : List Fragment :=
  if conditions.isEmpty then []
  else [Fragment.text "WHERE " ++ Fragment.separated " AND " conditions]

/-- The SELECT clause. -/
def projection (c : SelectChain) (scope : SqlScope) : Except CompileError Fragment := do
  let distinct := Fragment.text (if c.steps.any Clause.isDistinct then "DISTINCT " else "")
  let chosen ← (Clause.projection c.steps).mapError fun (fault : SqlFault) =>
    let method :=
      match fault with
      | .aggregateWithoutSelector method => method
      | _ => "join"
    (⟨fault, c.place method⟩ : CompileError)
  match chosen with
  | .count => return Fragment.text "COUNT(*)"
  | .aggregate kind operand =>
    let operand ← unplaced (operand.sql scope .value)
    return Fragment.text (aggregateKeyword kind ++ "(") ++ operand ++ Fragment.text ")"
  | .selector selector => return distinct ++ (← unplaced (selector.projectionSql scope))
  | .key key => return distinct ++ (← unplaced (key.sql scope .value))
  | .all => return distinct ++ Fragment.text "*"

/-- The GROUP BY clause, if rows are grouped. -/
def groupBy (c : SelectChain) (scope : SqlScope) : Except CompileError (List Fragment) :=
  match Clause.groupKey? c.steps with
  | none => .ok []
  | some key => do
    let keys :=
      match key with
      | .object properties => properties.map Prod.snd
      | key => [key]
    let parts ← unplaced (Expr.sqlList scope .value keys)
    return [Fragment.text "GROUP BY " ++ Fragment.separated ", " parts]

/-- The ORDER BY clause, if rows are sorted. -/
def orderBy (c : SelectChain) (scope : SqlScope) : Except CompileError (List Fragment) :=
  match Clause.order c.steps with
  | .none => .ok []
  | .firstColumn descending =>
    .ok [Fragment.text (if descending then "ORDER BY 1 DESC" else "ORDER BY 1 ASC")]
  | .keys keys => do
    let parts ← unplaced (Expr.sqlOrders scope keys)
    return [Fragment.text "ORDER BY " ++ Fragment.separated ", " parts]

/-- The LIMIT and OFFSET clauses. -/
def paging (c : SelectChain) (scope : SqlScope) : Except CompileError (List Fragment) := do
  let offset : List Fragment ←
    match Clause.page? .skip c.steps with
    | some count => do
      let count ← unplaced (count.sql scope .value)
      pure [Fragment.text "OFFSET " ++ count]
    | none => pure []
  let limit : List Fragment ←
    match Clause.limit c.dialect c.steps with
    | .none => pure []
    | .rows count => pure [Fragment.text ("LIMIT " ++ toString count)]
    | .given count => do
      let count ← unplaced (count.sql scope .value)
      pure [Fragment.text "LIMIT " ++ count]
    | .unbounded => pure [Fragment.text "LIMIT -1"]
  return limit ++ offset

/-- A statement that yields rows or an aggregate of them. -/
def selectQuery (c : SelectChain) : Except CompileError Fragment := do
  c.rejectUnlowered
  if Clause.reversesPage c.steps then throw ⟨SqlFault.reverseAfterPaging, c.place "reverse"⟩
  let (sources, scope) ← c.sources
  let projection ← c.projection scope
  let conditions ← conditions scope (Clause.predicates c.steps)
  let groupBy ← c.groupBy scope
  let orderBy ← c.orderBy scope
  let paging ← c.paging scope
  return Fragment.separated " "
    ((Fragment.text "SELECT " ++ projection) ::
      (sources ++ whereOf conditions ++ groupBy ++ orderBy ++ paging))

/-- A truth value as a number. -/
def truthQuery (test : String) (query : Fragment) : Fragment :=
  Fragment.text ("SELECT CASE WHEN " ++ test ++ "(") ++ query ++
    Fragment.text ") THEN 1 ELSE 0 END"

/-- A statement that says whether some row satisfies a predicate, if there is one. -/
def anyQuery (c : SelectChain) (predicate : Expr) : Except CompileError Fragment := do
  c.rejectUnlowered
  let (sources, scope) ← c.sources
  let added := if predicate.isAbsent then [] else [predicate]
  let conditions ← conditions scope (Clause.filters c.steps ++ added)
  return truthQuery "EXISTS" <| Fragment.separated " "
    (Fragment.text "SELECT 1" :: (sources ++ whereOf conditions))

/-- A statement that says whether every row satisfies a predicate: no row refutes it. -/
def allQuery (c : SelectChain) (predicate : Expr) : Except CompileError Fragment := do
  c.rejectUnlowered
  let (sources, scope) ← c.sources
  let conditions ← conditions scope (Clause.filters c.steps)
  if predicate.isAbsent then throw ⟨SqlFault.allWithoutPredicate, c.place "all"⟩
  let condition ← unplaced (predicate.sql scope .predicate)
  let refuting := Fragment.text "NOT (" ++ condition ++ Fragment.text ")"
  return truthQuery "NOT EXISTS" <| Fragment.separated " "
    (Fragment.text "SELECT 1" :: (sources ++ whereOf (conditions ++ [refuting])))

/-- The scalar that `contains` compares with its value. -/
def searchedSelector (c : SelectChain) : Except CompileError Expr :=
  let refused : Except CompileError Expr :=
    .error ⟨SqlFault.containsNotScalar, c.place "contains"⟩
  match Clause.lastSelector? c.steps with
  | some selector =>
    if Clause.isScalar selector && !selector.isReference then .ok selector else refused
  | none => refused

/-- A statement that says whether a value is among the selected ones. -/
def containsQuery (c : SelectChain) (value : Expr) : Except CompileError Fragment := do
  c.rejectUnlowered
  if c.steps.any Clause.isPage then
    throw ⟨SqlFault.containsWithPaging, c.place "contains"⟩
  let selector ← c.searchedSelector
  let (sources, scope) ← c.sources
  let selected ← unplaced (selector.sql scope .value)
  let conditions ← conditions scope (Clause.filters c.steps)
  let groupBy ← c.groupBy scope
  let value ← unplaced (value.sql scope .value)
  let query := Fragment.separated " "
    ((Fragment.text "SELECT " ++ selected ++ Fragment.text " AS \"__sqlforge_value\"") ::
      (sources ++ whereOf conditions ++ groupBy))
  return truthQuery "EXISTS" <| Fragment.text "SELECT 1 FROM (" ++ query ++
    Fragment.text
      ") AS \"__sqlforge_contains\" WHERE \"__sqlforge_contains\".\"__sqlforge_value\" = " ++ value

/-- The statement of a chain. -/
def statement (c : SelectChain) : Except CompileError Fragment :=
  match Clause.terminal? [.any, .all] c.steps with
  | some (.all, predicate) => c.allQuery predicate
  | some (_, predicate) => c.anyQuery predicate
  | none =>
    match Clause.contained? c.steps with
    | some value => c.containsQuery value
    | none => c.selectQuery

end SelectChain

end Sql

end FluentQuery
