import FluentQuery.Sql.Select

/-!
# SQL of operations

`Operation.sql` renders an operation, nested operations included.  A prepared statement also says how
its result is to be read, and exposes every item of an array parameter under a name of its own,
which is how lists of values are bound.
-/

namespace FluentQuery

set_option autoImplicit false

namespace Sql

/-- The statement of an operation whose nested operations are already rendered. -/
def assemble (d : Dialect) (params : Json) (op : List RenderedStep) :
    Except CompileError Fragment :=
  match op with
  | [] => .error ⟨SqlFault.emptyOperation, {}⟩
  | ⟨.insert s, _⟩ :: _ => insert ⟨d, params, [], false⟩ s
  | ⟨.update s, _⟩ :: _ => update ⟨d, params, [], false⟩ s
  | ⟨.delete s, _⟩ :: _ => delete ⟨d, params, [], false⟩ s
  | op => SelectChain.statement ⟨d, params, op.reverse⟩

mutual

/-- A step with the SQL of its nested operation.  A joined query that is just a derived table is
rendered as the query it is derived from. -/
def renderStep (d : Dialect) (params : Json) : Step → RenderedStep
  | .fromSource table schema subquery aliasHint =>
    ⟨.fromSource table schema subquery aliasHint,
      assemble d params (renderLevel d params subquery)⟩
  | .join kind [.fromSource table schema (step :: rest) aliasHint] keys selector shape =>
    ⟨.join kind [.fromSource table schema (step :: rest) aliasHint] keys selector shape,
      assemble d params (renderLevel d params (step :: rest))⟩
  | .join kind inner keys selector shape =>
    ⟨.join kind inner keys selector shape, assemble d params (renderLevel d params inner)⟩
  | step => ⟨step, .ok []⟩

/-- The steps of one statement, down to its `from`. -/
def renderLevel (d : Dialect) (params : Json) : List Step → List RenderedStep
  | [] => []
  | step :: rest =>
    if step.isFrom then [renderStep d params step]
    else renderStep d params step :: renderLevel d params rest

end

end Sql

/-- The SQL of an operation. -/
def Operation.sql (d : Dialect) (params : Json) (op : Operation) : Except CompileError Fragment :=
  Sql.assemble d params (Sql.renderLevel d params op)

/-- How the rows of a statement are to be read. -/
inductive ResultKind where
  | rows
  | firstRow
  | firstRowOrDefault
  | singleRow
  | singleRowOrDefault
  | lastRow
  | lastRowOrDefault
  /-- The first column of the first row. -/
  | scalar
  /-- The first column of the first row, as 0 or 1. -/
  | boolean
  | affectedRows
  | returningRows
deriving DecidableEq, Repr, Inhabited

namespace ResultKind

def name : ResultKind → String
  | rows => "rows"
  | firstRow => "firstRow"
  | firstRowOrDefault => "firstRowOrDefault"
  | singleRow => "singleRow"
  | singleRowOrDefault => "singleRowOrDefault"
  | lastRow => "lastRow"
  | lastRowOrDefault => "lastRowOrDefault"
  | scalar => "scalar"
  | boolean => "boolean"
  | affectedRows => "affectedRows"
  | returningRows => "returningRows"

/-- How the result of a terminal step is read. -/
def ofTerminal : TerminalKind → ResultKind
  | .first => firstRow
  | .firstOrDefault => firstRowOrDefault
  | .single => singleRow
  | .singleOrDefault => singleRowOrDefault
  | .last => lastRow
  | .lastOrDefault => lastRowOrDefault
  | .any | .all => boolean
  | .count | .longCount => scalar

/-- How the result of a change is read. -/
def ofReturning (returning : Expr) : ResultKind :=
  if returning.isAbsent then affectedRows else returningRows

end ResultKind

/-- How the result of an operation is read: its last step decides. -/
def Operation.resultKind : Operation → ResultKind
  | .terminal kind _ :: _ => .ofTerminal kind
  | .aggregate _ _ :: _ => .scalar
  | .contains _ :: _ => .boolean
  | .insert s :: _ => .ofReturning s.returning
  | .update s :: _ => .ofReturning s.returning
  | .delete _ :: _ => .affectedRows
  | _ => .rows

namespace Sql

/-- The entries that bind the items of an array parameter. -/
def itemEntries (name : String) (items : List Json) : List (String × Json) :=
  items.mapIdx fun i item => (name ++ "_" ++ toString i, item)

/-- Parameters with every item of an array parameter bound to a name of its own as well; such a name
replaces a parameter that has it. -/
def expandArrayParams (params : Json) : Json :=
  let additions := params.members.flatMap fun (name, value) =>
    match value with
    | .arr items => itemEntries name items
    | _ => []
  .obj (Assoc.merge params.members additions)

end Sql

/-- An SQL text with the values of its placeholders. -/
structure SqlResult where
  sql : String := ""
  params : Json := .obj []
deriving Inhabited

/-- An SQL text with values as the driver takes them, and how its result is read. -/
structure PreparedStatement where
  sql : String
  params : Json
  resultKind : ResultKind
deriving Inhabited

namespace SqlResult

def toJson (r : SqlResult) : Json :=
  .object [("sql", .str r.sql), ("params", r.params)]

end SqlResult

namespace PreparedStatement

def toJson (s : PreparedStatement) : Json :=
  .object [("sql", .str s.sql), ("params", s.params), ("resultKind", .str s.resultKind.name)]

end PreparedStatement

namespace Dialect

/-- The SQL text of a query with its parameters. -/
def toSql (d : Dialect) (query : BoundQuery) : Except CompileError SqlResult := do
  let sql ← query.operation.sql d query.params
  return ⟨sql.render d, Sql.expandArrayParams query.params⟩

/-- A statement ready for the driver; asking for rows a back end cannot return is refused. -/
def prepare (d : Dialect) (query : BoundQuery) : Except CompileError PreparedStatement := do
  let kind := query.operation.resultKind
  if kind = .returningRows && !d.supportsReturning then
    throw ⟨SqlFault.returningUnsupported d.name,
      ⟨query.operation.statementKind, Operation.targetTable query.operation, "returning"⟩⟩
  let result ← d.toSql query
  return ⟨result.sql, d.normalizeParams result.params, kind⟩

end Dialect

end FluentQuery
