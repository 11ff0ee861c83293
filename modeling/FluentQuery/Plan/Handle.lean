import FluentQuery.Plan.Stage
import FluentQuery.Plan.State

/-!
# Plan handles

A handle is a plan together with what may be done with it next.  `Handle.call?` has no outcome when
the handle does not have the method with that number of arguments.
-/

namespace FluentQuery

set_option autoImplicit false

/-- A plan of a known kind and stage. -/
inductive Handle where
  | select (state : PlanState)
  /-- A SELECT that ended in a terminal step. -/
  | terminal (state : PlanState)
  | insert (stage : InsertStage) (state : PlanState)
  | update (stage : UpdateStage) (state : PlanState)
  | delete (stage : DeleteStage) (state : PlanState)
  /-- A plan to which calls are appended unchecked. -/
  | raw (state : PlanState)
deriving Inhabited

namespace Handle

/-- The plan behind a handle. -/
def state : Handle → PlanState
  | select state => state
  | terminal state => state
  | insert _ state => state
  | update _ state => state
  | delete _ state => state
  | raw state => state

/-- The kind of a handle, with its stage or its terminal step. -/
def name : Handle → String
  | select _ => "select"
  | terminal state =>
    "terminal:" ++ (state.operation.head?.map Step.typeName).getD ""
  | insert stage _ => "insert:" ++ stage.name
  | update stage _ => "update:" ++ stage.name
  | delete stage _ => "delete:" ++ stage.name
  | raw _ => "raw"

/-- The description of a handle. -/
def toJson (h : Handle) : Json :=
  .object
    [("handle", .str h.name), ("operation", Operation.toJson h.state.operation),
      ("autoParams", .obj h.state.query.scope.autoParams),
      ("autoParamInfos", h.state.query.scope.autoParamInfosJson)]

/-! ### Calls -/

/-- Methods of a SELECT that take one argument and can be followed by others. -/
def chainable : List String :=
  ["where", "select", "orderBy", "orderByDescending", "thenBy", "thenByDescending", "groupBy"]

/-- Methods of a SELECT that take one argument and end it. -/
def endingWithArgument : List String :=
  ["first", "firstOrDefault", "single", "singleOrDefault", "last", "lastOrDefault", "any", "all",
    "count", "longCount", "contains", "sum", "average", "min", "max"]

/-- Methods of a SELECT that take no argument and end it, aggregates apart. -/
def endingAlone : List String :=
  ["first", "firstOrDefault", "single", "singleOrDefault", "last", "lastOrDefault", "any", "count",
    "longCount"]

/-- Aggregates that may go without a selector. -/
def aggregates : List String :=
  ["sum", "average", "min", "max"]

/-- Whether the last projection of a SELECT is a scalar, with no join or grouping after it. -/
def projectsScalar : List Step → Bool
  | [] => false
  | .select selector :: _ =>
    !(selector.isAbsent || selector.isObject || selector.isAllColumns || selector.isReference)
  | .groupBy _ :: _ => false
  | .join _ _ _ _ _ :: _ => false
  | .fromSource _ _ _ _ :: _ => false
  | _ :: rest => projectsScalar rest

/-- An aggregate without a selector, which takes the scalar projected before. -/
def aggregateProjected (state : PlanState) (method : String) : Except CompileError Handle :=
  if projectsScalar state.operation then terminal <$> state.append method []
  else
    .error ⟨SqlFault.aggregateWithoutSelector method,
      ⟨"select", Operation.targetTable state.operation, method⟩⟩

/-- A call on a SELECT; `count` is the number given to `take` and `skip`. -/
def callSelect? (state : PlanState) (method : String) (arguments : List Node) (count : Int) :
    Option (Except CompileError Handle) :=
  match arguments with
  | [_] =>
    if chainable.contains method then some (select <$> state.append method arguments)
    else if endingWithArgument.contains method then
      some (terminal <$> state.append method arguments)
    else none
  | [] =>
    if method = "take" || method = "skip" then
      some (select <$> state.append method [.literal (.int count)])
    else if method = "distinct" || method = "reverse" then some (select <$> state.append method [])
    else if endingAlone.contains method then some (terminal <$> state.append method [])
    else if aggregates.contains method then some (aggregateProjected state method)
    else none
  | _ => none

/-- The stage an INSERT reaches by a call, if it has that method. -/
def insertNext? (stage : InsertStage) (method : String) (arguments : Nat) : Option InsertStage :=
  match stage, method, arguments with
  | .initial, "values", 1 => some .withValues
  | .withValues, "onConflict", _ => some .withConflictTarget
  | .withValues, "returning", 1 => some .withReturning
  | .withConflictTarget, "doNothing", 0 => some .withValues
  | .withConflictTarget, "doUpdateSet", 1 => some .withValues
  | _, _, _ => none

/-- The stage an UPDATE reaches by a call, if it has that method. -/
def updateNext? (stage : UpdateStage) (method : String) (arguments : Nat) : Option UpdateStage :=
  match stage, method, arguments with
  | .initial, "set", 1 => some .withSet
  | .withSet, "where", 1 => some .complete
  | .withSet, "returning", 1 => some .withReturning
  | .withSet, "allowFullTableUpdate", 0 => some .complete
  | .complete, "where", 1 => some .complete
  | .complete, "returning", 1 => some .withReturning
  | _, _, _ => none

/-- The stage a DELETE reaches by a call, if it has that method. -/
def deleteNext? (stage : DeleteStage) (method : String) (arguments : Nat) : Option DeleteStage :=
  match stage, method, arguments with
  | _, "where", 1 => some .complete
  | .initial, "allowFullTableDelete", 0 => some .complete
  | _, _, _ => none

/-- A call of a method on a handle. -/
def call? (h : Handle) (method : String) (arguments : List Node) (count : Int) :
    Option (Except CompileError Handle) :=
  match h with
  | select state => callSelect? state method arguments count
  | insert stage state =>
    (insertNext? stage method arguments.length).map fun next =>
      insert next <$> state.append method arguments
  | update stage state =>
    (updateNext? stage method arguments.length).map fun next =>
      update next <$> state.append method arguments
  | delete stage state =>
    (deleteNext? stage method arguments.length).map fun next =>
      delete next <$> state.append method arguments
  | terminal _ => none
  | raw _ => none

/-- Any method called on the plan of a handle. -/
def append (h : Handle) (method : String) (arguments : List Node) : Except CompileError Handle :=
  raw <$> h.state.append method arguments

/-! ### Finishing -/

/-- Why the statement of a handle cannot be finished yet. -/
def unfinished? : Handle → Option (PlanFault × String)
  | insert .initial _ => some (.insertWithoutValues, "insert")
  | insert .withConflictTarget _ => some (.upsertWithoutAction, "insert")
  | update .initial _ => some (.updateWithoutSet, "update")
  | _ => none

/-- The finished plan of a handle. -/
def finalize (h : Handle) (params : Json) : Session FinalizedPlan :=
  match h.unfinished? with
  | some (fault, statement) =>
    throw ⟨fault, ⟨statement, Operation.targetTable h.state.operation, "finalize"⟩⟩
  | none => h.state.finalize params

/-! ### Defining -/

/-- Where an error about an operation is reported. -/
def placeOf (op : Operation) (method : String) : ErrorContext :=
  ⟨op.statementKind, Operation.targetTable op, method⟩

/-- What is asked of a query-building function. -/
inductive Definition where
  | select
  | terminal
  | insert (stage : InsertStage)
  | update (stage : UpdateStage)
  | delete (stage : DeleteStage)
deriving DecidableEq, Repr

/-- A SELECT plan of the given query. -/
def selectState (schema : Schema) (query : ParsedQuery) : Except CompileError PlanState :=
  match query.operation with
  | step :: _ =>
    if step.isCrud then
      .error ⟨PlanFault.notSelect, placeOf query.operation "defineSelect"⟩
    else .ok (.ofQuery query schema)
  | [] => .ok (.ofQuery query schema)

/-- Fails because the operation is of another kind than asked for. -/
def wrongStatement (expected : String) (op : Operation) : CompileError :=
  ⟨PlanFault.wrongStatement expected ((op.head?.map Step.typeName).getD ""),
    placeOf op "parseQuery"⟩

/-- Fails because the statement has reached another stage than asked for. -/
def wrongStage (entry expected got : String) (op : Operation) : CompileError :=
  ⟨PlanFault.wrongStage entry expected got, placeOf op entry⟩

/-- The handle of a parsed query. -/
def ofQuery (definition : Definition) (schema : Schema) (query : ParsedQuery) :
    Except CompileError Handle :=
  let state := PlanState.ofQuery query schema
  let op := state.operation
  match definition with
  | .select => do
    let state ← selectState schema query
    match state.operation with
    | step :: _ =>
      if step.isTerminal then
        .error ⟨PlanFault.endsInTerminal step.typeName,
          ⟨"select", Operation.targetTable state.operation, "defineSelect"⟩⟩
      else return select state
    | [] => return select state
  | .terminal => do
    let state ← selectState schema query
    match state.operation with
    | step :: _ =>
      if step.isTerminal then return terminal state
      else
        .error ⟨PlanFault.notTerminal,
          ⟨"select", Operation.targetTable state.operation, "defineSelectTerminal"⟩⟩
    | [] => return terminal state
  | .insert stage =>
    match op with
    | .insert s :: _ =>
      if s.stage = stage then .ok (insert stage state)
      else .error (wrongStage "defineInsert" stage.name s.stage.name op)
    | _ => .error (wrongStatement "insert" query.operation)
  | .update stage =>
    match op with
    | .update s :: _ =>
      if s.stage = stage then .ok (update stage state)
      else .error (wrongStage "defineUpdate" stage.name s.stage.name op)
    | _ => .error (wrongStatement "update" query.operation)
  | .delete stage =>
    match op with
    | .delete s :: _ =>
      if s.stage = stage then .ok (delete stage state)
      else .error (wrongStage "defineDelete" stage.name s.stage.name op)
    | _ => .error (wrongStatement "delete" query.operation)

/-- The handle of a query-building function. -/
def define (definition : Definition) (schema : Schema) (builder : Node) (useCache : Bool)
    (sourceText : String) : Session Handle := do
  let query ← Session.parse builder useCache sourceText
  Session.ofExcept (ofQuery definition schema query)

end Handle

end FluentQuery
