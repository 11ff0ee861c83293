import FluentQuery.Resolve.Method

/-!
# Methods of INSERT, UPDATE and DELETE

Each clause of such a statement is given by one method, at most once.  Assigned literals become
parameters that remember the column they are assigned to.
-/

namespace FluentQuery

set_option autoImplicit false

namespace Resolve

variable {α : Type}

/-- The current method belongs to another kind of statement. -/
def failStatement (statement : String) : Resolve α := do
  fail (ChainFault.onlyOnStatement (← get).method statement)

/-- The INSERT a method is called on. -/
def requireInsert : Operation → Resolve (InsertStatement × Operation)
  | .insert s :: rest => return (s, rest)
  | _ => failStatement "INSERT"

/-- The UPDATE a method is called on. -/
def requireUpdate : Operation → Resolve (UpdateStatement × Operation)
  | .update s :: rest => return (s, rest)
  | _ => failStatement "UPDATE"

/-- The DELETE a method is called on. -/
def requireDelete : Operation → Resolve (DeleteStatement × Operation)
  | .delete s :: rest => return (s, rest)
  | _ => failStatement "DELETE"

/-! ### Assignments -/

/-- The value assigned to a column. -/
def assignedValue (column : String) : Node → Resolve Expr
  | .literal .null => return .constant .null
  | .literal value => autoParam value column none
  | node => node.resolve false

/-- Assignments added to those already read; no column is assigned twice. -/
def assignmentsFrom (done : Assignments) : List Property → Resolve Assignments
  | [] => return done
  | .spread _ :: _ => do fail (ChainFault.assignmentSpread (← get).method)
  | .named column value _ :: rest => do
    if (done.map Prod.fst).contains column then
      fail (ChainFault.assignedTwice (← get).method column)
    let e ← assignedValue column value
    assignmentsFrom (done ++ [(column, e)]) rest

/-- The assignments of an object literal. -/
def assignments : Node → Resolve Assignments
  | .object properties => assignmentsFrom [] properties
  | _ => do fail (ChainFault.assignmentsNotObject (← get).method)

/-- The assignments of an object literal, or of a lambda that returns one. -/
def assignmentArgument (bindParams : List String → Resolve Unit) : Node → Resolve Assignments
  | .arrow params body =>
    withBindings do
      bindParams params
      match body.lambdaBody with
      | .ok value => assignments value
      | .error fault => failUnplaced fault
  | node => assignments node

/-- Binds the parameters of the query. -/
def bindQueryParam : List String → Resolve Unit
  | [] => return ()
  | name :: _ => bind (·.bindParam name)

/-- Binds the present row and the row an insertion proposed. -/
def bindConflictParams : List String → Resolve Unit
  | [] => return ()
  | [row] => bind (·.bindTable row)
  | row :: proposed :: _ => bind fun b => (b.bindTable row).bindExcluded proposed

/-- Binds the present row and the parameters of the query. -/
def bindUpdateParams : List String → Resolve Unit
  | [] => return ()
  | [row] => bind (·.bindTable row)
  | row :: query :: _ => bind fun b => (b.bindTable row).bindParam query

/-! ### INSERT -/

/-- `values({ … })` -/
def values (source : Operation) (arguments : List Node) : Resolve Operation := do
  let (s, rest) ← requireInsert source
  match arguments with
  | [argument] =>
    if s.values.isSome then fail ChainFault.valuesTwice
    let assigned ← assignmentArgument bindQueryParam argument
    if assigned.isEmpty then fail ChainFault.valuesEmpty
    return .insert { s with values := some assigned } :: rest
  | arguments => failArguments 1 1 arguments.length

/-- The columns of a conflict target, added to those already read. -/
def conflictTarget (done : List String) : List Node → Resolve (List String)
  | [] => return done
  | argument :: rest => do
    match ← argument.resolveLambda false "onConflict" bindTableParam with
    | .column name table _ =>
      if !table.isEmpty then fail ChainFault.conflictTargetNotColumn
      if done.contains name then fail ChainFault.conflictTargetRepeated
      conflictTarget (done ++ [name]) rest
    | _ => fail ChainFault.conflictTargetNotColumn

/-- `onConflict(row => row.column, …)` -/
def onConflict (source : Operation) (arguments : List Node) : Resolve Operation := do
  let (s, rest) ← requireInsert source
  if arguments.isEmpty then fail ChainFault.conflictWithoutTarget
  if s.values.isNone then fail ChainFault.conflictBeforeValues
  if s.onConflict.isSome then fail ChainFault.conflictTwice
  let target ← conflictTarget [] arguments
  return .insert { s with onConflict := some { target } } :: rest

/-- The conflict clause that still lacks its action. -/
def openConflict (s : InsertStatement) : Resolve OnConflict := do
  match s.onConflict with
  | none => fail (ChainFault.actionWithoutConflict (← get).method)
  | some conflict =>
    match conflict.action with
    | .none => return conflict
    | _ => fail ChainFault.actionTwice

/-- `doNothing()` -/
def doNothing (source : Operation) (arguments : List Node) : Resolve Operation := do
  let (s, rest) ← requireInsert source
  if !arguments.isEmpty then failArguments 0 0 arguments.length
  let conflict ← openConflict s
  return .insert { s with onConflict := some { conflict with action := .nothing } } :: rest

/-- `doUpdateSet((row, excluded) => ({ … }))` -/
def doUpdateSet (source : Operation) (arguments : List Node) : Resolve Operation := do
  let (s, rest) ← requireInsert source
  match arguments with
  | [argument] =>
    let conflict ← openConflict s
    let assigned ← assignmentArgument bindConflictParams argument
    if assigned.isEmpty then fail ChainFault.conflictUpdateEmpty
    let conflict : OnConflict := { conflict with action := .update, assignments := some assigned }
    return .insert { s with onConflict := some conflict } :: rest
  | arguments => failArguments 1 1 arguments.length

/-- The selector of `returning(row => …)`. -/
def returningSelector : List Node → Resolve Expr
  | [argument] => argument.resolveLambda false "returning" bindTableParam
  | arguments => failArguments 1 1 arguments.length

/-- `returning(row => …)`, on an INSERT or UPDATE. -/
def returning (source : Operation) (arguments : List Node) : Resolve Operation := do
  match source with
  | .insert s :: rest =>
    if s.values.isNone then fail ChainFault.returningBeforeValues
    let selector ← returningSelector arguments
    return .insert { s with returning := selector } :: rest
  | .update s :: rest =>
    let selector ← returningSelector arguments
    return .update { s with returning := selector } :: rest
  | _ => fail ChainFault.returningNotSupported

/-! ### UPDATE and DELETE -/

/-- `set({ … })` -/
def setColumns (source : Operation) (arguments : List Node) : Resolve Operation := do
  let (s, rest) ← requireUpdate source
  match arguments with
  | [argument] =>
    if s.assignments.isSome then fail ChainFault.setTwice
    let assigned ← assignmentArgument bindUpdateParams argument
    if assigned.isEmpty then fail ChainFault.setEmpty
    return .update { s with assignments := some assigned } :: rest
  | arguments => failArguments 1 1 arguments.length

/-- `allowFullTableUpdate()` -/
def allowFullTableUpdate (source : Operation) (arguments : List Node) : Resolve Operation := do
  let (s, rest) ← requireUpdate source
  if !arguments.isEmpty then failArguments 0 0 arguments.length
  return .update { s with allowFullTable := true } :: rest

/-- `allowFullTableDelete()` -/
def allowFullTableDelete (source : Operation) (arguments : List Node) : Resolve Operation := do
  let (s, rest) ← requireDelete source
  if !arguments.isEmpty then failArguments 0 0 arguments.length
  return .delete { s with allowFullTable := true } :: rest

end Resolve

end FluentQuery
