import FluentQuery.Expr.Json
import FluentQuery.Expr.Projection

/-!
# Scopes

While the lambdas of a query are resolved, a `Scope` says what every name stands for, which table and
method are being looked at, and which literals have become parameters so far.  `Resolve` is the
state of that work: a resolution that fails keeps the scope it had reached, so that parameters
created before the failure remain visible.
-/

namespace FluentQuery

set_option autoImplicit false

/-- Where an automatic parameter came from. -/
structure AutoParamInfo where
  value : Json
  /-- The column the literal is compared with or assigned to, if any. -/
  fieldName : String := ""
  tableName : String := ""
  /-- The index of that column's table in a join. -/
  sourceTable : Option Int := none
deriving Repr, Inhabited

namespace AutoParamInfo

def toJson (info : AutoParamInfo) : Json :=
  .object <|
    [("value", info.value)] ++ Json.memberUnlessEmpty "fieldName" info.fieldName ++
      Json.memberUnlessEmpty "tableName" info.tableName ++
      Json.memberOfOption "sourceTable" (info.sourceTable.map Json.int)

end AutoParamInfo

/-- What the names of lambda parameters stand for.  An empty name binds nothing. -/
structure Bindings where
  /-- Names of the row of the FROM table. -/
  tables : NameSet := []
  /-- Names of the query's parameters. -/
  params : NameSet := []
  /-- Names of a group of rows. -/
  groupings : NameSet := []
  /-- Names of rows of the table with a given index. -/
  joins : Assoc Int := []
  /-- The name of a row of the current shape. -/
  joinResult : String := ""
  /-- The name of the row an insertion proposed. -/
  excluded : String := ""
  /-- The shape of the current rows, if it is known. -/
  shape : Option ResultShape := none
deriving Repr, Inhabited

namespace Bindings

/-- Binds a name to the row of the FROM table. -/
def bindTable (b : Bindings) (name : String) : Bindings :=
  { b with
    joins := b.joins.erase name
    groupings := NameSet.erase b.groupings name
    params := NameSet.erase b.params name
    tables := NameSet.insert b.tables name }

/-- Binds a name to a row of the table with the given index. -/
def bindJoin (b : Bindings) (name : String) (index : Int) : Bindings :=
  { b with
    tables := NameSet.erase b.tables name
    groupings := NameSet.erase b.groupings name
    params := NameSet.erase b.params name
    joinResult := if b.joinResult = name then "" else b.joinResult
    joins := b.joins.insert name index }

/-- Binds a name to a row of the given shape. -/
def bindShape (b : Bindings) (name : String) (shape : Option ResultShape) : Bindings :=
  { b with
    tables := NameSet.erase b.tables name
    joins := b.joins.erase name
    groupings := NameSet.erase b.groupings name
    params := NameSet.erase b.params name
    joinResult := name
    shape }

/-- Binds a name to the parameters of the query. -/
def bindParam (b : Bindings) (name : String) : Bindings :=
  { b with
    tables := NameSet.erase b.tables name
    joins := b.joins.erase name
    params := NameSet.insert b.params name }

/-- Binds a name to the row an insertion proposed. -/
def bindExcluded (b : Bindings) (name : String) : Bindings :=
  { b with excluded := name }

/-- Binds a name to a row of the current shape, or of the FROM table if there is no shape. -/
def bindElement (b : Bindings) (name : String) : Bindings :=
  match b.shape with
  | some shape => b.bindShape name (some shape)
  | none => b.bindTable name

/-- Whether a name is bound to anything but the proposed row. -/
def binds (b : Bindings) (name : String) : Bool :=
  b.tables.contains name || b.params.contains name || b.groupings.contains name
    || Assoc.contains b.joins name || name = b.joinResult

end Bindings

/-- The state of resolving a query. -/
structure Scope where
  /-- The name of the query builder. -/
  builder : String := ""
  /-- The name of the object with the helper functions. -/
  helpers : String := ""
  bindings : Bindings := {}
  /-- The literals that have become parameters. -/
  autoParams : Assoc Json := []
  /-- How many of them there have been. -/
  autoParamCounter : Int := 0
  autoParamInfos : Assoc AutoParamInfo := []
  /-- The key by which rows are grouped. -/
  groupByKey : Expr := .absent
  /-- The table of the current statement. -/
  table : String := ""
  /-- How many tables the current statement has. -/
  tableCount : Int := 0
  /-- The kind of the current statement. -/
  operation : String := ""
  /-- The method being resolved. -/
  method : String := ""
deriving Repr, Inhabited

namespace Scope

/-- Where an error noticed now is reported. -/
def place (s : Scope) : ErrorContext :=
  ⟨s.operation, s.table, s.method⟩

/-- The name of the automatic parameter with the given number. -/
def autoParamName (number : Int) : String :=
  "__p" ++ toString number

/-- The scope with one more automatic parameter, and the name of that parameter. -/
def addAutoParam (s : Scope) (value : Json) (fieldName : String) (sourceTable : Option Int) :
    String × Scope :=
  let counter := s.autoParamCounter + 1
  let name := autoParamName counter
  (name,
    { s with
      autoParamCounter := counter
      autoParams := s.autoParams.insert name value
      autoParamInfos := s.autoParamInfos.insert name ⟨value, fieldName, s.table, sourceTable⟩ })

/-- Where the automatic parameters came from. -/
def autoParamInfosJson (s : Scope) : Json :=
  .obj (s.autoParamInfos.map fun entry => (entry.1, entry.2.toJson))

/-- The description of a scope. -/
def toJson (s : Scope) : Json :=
  .object <|
    [("queryBuilderParam", .str s.builder),
      ("tableParams", .strings s.bindings.tables),
      ("queryParams", .strings s.bindings.params),
      ("helpersParam", .str s.helpers),
      ("groupingParams", .strings s.bindings.groupings),
      ("joinParams", .obj (s.bindings.joins.map fun entry => (entry.1, .int entry.2))),
      ("joinResultParam", .str s.bindings.joinResult),
      ("autoParams", .obj s.autoParams),
      ("autoParamCounter", .int s.autoParamCounter),
      ("currentTable", .str s.table),
      ("tableCount", .int s.tableCount)] ++
    Json.memberOfOption "currentResultShape" (s.bindings.shape.map ResultShape.toJson) ++
    (if s.groupByKey.isAbsent then [] else [("groupByKey", s.groupByKey.toJson)])

end Scope

/-- Work that reads and extends a scope and may fail. -/
abbrev Resolve := EStateM CompileError Scope

namespace Resolve

variable {α : Type}

/-- Fails at the place the scope has reached. -/
def fail (fault : Fault) : Resolve α := do
  throw ⟨fault, (← get).place⟩

/-- Fails without a place. -/
def failUnplaced (fault : Fault) : Resolve α :=
  throw ⟨fault, {}⟩

/-- The outcome of a look-up, its failure placed in the scope. -/
def ofExcept (x : Except ExprFault α) : Resolve α :=
  match x with
  | .ok a => pure a
  | .error fault => fail fault

theorem ofExcept_ok (a : α) : ofExcept (.ok a) = pure a := rfl

/-- Does some work and takes back the bindings it made, whether it succeeds or not. -/
def withBindings (work : Resolve α) : Resolve α := fun s =>
  match work s with
  | .ok a s' => .ok a { s' with bindings := s.bindings }
  | .error e s' => .error e { s' with bindings := s.bindings }

/-- Does the work of a lambda's body with its parameters bound. -/
def withParams (bindParams : List String → Resolve Unit) (params : List String)
    (body : Resolve α) : Resolve α :=
  withBindings do
    bindParams params
    body

/-- Does the work of a nested query: of what it does to the scope only the automatic parameters
remain. -/
def nested (work : Resolve α) : Resolve α := fun s =>
  let restore (s' : Scope) : Scope :=
    { s with
      autoParams := s'.autoParams
      autoParamCounter := s'.autoParamCounter
      autoParamInfos := s'.autoParamInfos }
  match work s with
  | .ok a s' => .ok a (restore s')
  | .error e s' => .error e (restore s')

/-- Changes what names are bound to. -/
def bind (change : Bindings → Bindings) : Resolve Unit :=
  modify fun s => { s with bindings := change s.bindings }

/-- Binds the row of a lambda: a group once rows are grouped, else a row of the current shape or of
the FROM table. -/
def bindRow (name : String) : Resolve Unit :=
  modify fun s =>
    let b := s.bindings
    { s with
      bindings :=
        if s.groupByKey.isAbsent then b.bindElement name
        else { b with groupings := NameSet.insert b.groupings name } }

/-- A new automatic parameter for a literal. -/
def autoParam (value : Json) (fieldName : String) (sourceTable : Option Int) : Resolve Expr := do
  let (name, s) := (← get).addAutoParam value fieldName sourceTable
  set s
  return .param name "" none

end Resolve

end FluentQuery
