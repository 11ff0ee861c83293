import FluentQuery.Operation.Basic
import FluentQuery.Sql.Expr

/-!
# SQL of statements that change rows

An assigned value that is a parameter the caller left out is dropped from the statement; a
statement left without assignments is refused, and so is a change of all rows of a table that was
not explicitly allowed.
-/

namespace FluentQuery

set_option autoImplicit false

namespace Sql

/-- A fault in an expression, which is reported without a place. -/
def unplaced {α : Type} (x : Except SqlFault α) : Except CompileError α :=
  x.mapError fun (fault : SqlFault) => ⟨fault, {}⟩

/-- Assigned columns with the SQL of their values. -/
def assignmentSql (scope : SqlScope) : Assignments → Except SqlFault (List (String × Fragment))
  | [] => .ok []
  | (column, value) :: rest => do
    let sql ← value.sql scope .open
    return (column, sql) :: (← assignmentSql scope rest)

/-- The assignments of a statement, rendered. -/
def assignedColumns (scope : SqlScope) (assignments : Option Assignments) :
    Except CompileError (List (String × Fragment)) :=
  unplaced (assignmentSql scope (Assignments.given scope.params (assignments.getD [])))

/-- Names of columns, separated by commas. -/
def columnList (columns : List String) : Fragment :=
  Fragment.separated ", " (columns.map fun column => Fragment.text (quoteIdentifier column))

/-- `column = value` pairs. -/
def setList (assignments : List (String × Fragment)) : Fragment :=
  Fragment.separated ", " <| assignments.map fun (column, value) =>
    Fragment.text (quoteIdentifier column ++ " = ") ++ value

/-- The RETURNING clause, if rows are asked for. -/
def returningClause (scope : SqlScope) (returning : Expr) : Except CompileError Fragment :=
  if returning.isAbsent then .ok []
  else do
    let projection ← unplaced (returning.projectionSql scope)
    return Fragment.text " RETURNING " ++ projection

/-- What is done about rows that are already there. -/
def conflictClause (scope : SqlScope) (table : String) :
    Option OnConflict → Except CompileError Fragment
  | none => .ok []
  | some conflict => do
    let place (method : String) : ErrorContext := ⟨"insert", table, method⟩
    if conflict.target.isEmpty then
      throw ⟨SqlFault.conflictWithoutColumns, place "onConflict"⟩
    let head := Fragment.text " ON CONFLICT (" ++ columnList conflict.target ++ Fragment.text ")"
    match conflict.action with
    | .none => throw ⟨SqlFault.conflictWithoutAction, place "onConflict"⟩
    | .nothing => return head ++ Fragment.text " DO NOTHING"
    | .update =>
      let updates ← assignedColumns scope conflict.assignments
      if updates.isEmpty then throw ⟨SqlFault.conflictUpdateUndefined, place "doUpdateSet"⟩
      return head ++ Fragment.text " DO UPDATE SET " ++ setList updates

/-- An INSERT statement. -/
def insert (scope : SqlScope) (s : InsertStatement) : Except CompileError Fragment := do
  let values ← assignedColumns scope s.values
  if values.isEmpty then throw ⟨SqlFault.insertUndefined, ⟨"insert", s.table, "values"⟩⟩
  let conflict ← conflictClause scope s.table s.onConflict
  let returning ← returningClause scope s.returning
  return Fragment.text ("INSERT INTO " ++ quoteTable s.schema s.table ++ " (") ++
    columnList (values.map Prod.fst) ++ Fragment.text ") VALUES (" ++
    Fragment.separated ", " (values.map Prod.snd) ++ Fragment.text ")" ++ conflict ++ returning

/-- A WHERE clause with one predicate, if there is one. -/
def whereClause (scope : SqlScope) (predicate : Expr) : Except CompileError Fragment :=
  if predicate.isAbsent then .ok []
  else do
    let condition ← unplaced (predicate.sql scope .predicate)
    return Fragment.text " WHERE " ++ condition

/-- An UPDATE statement. -/
def update (scope : SqlScope) (s : UpdateStatement) : Except CompileError Fragment := do
  let assignments ← assignedColumns scope s.assignments
  if assignments.isEmpty then throw ⟨SqlFault.updateUndefined, ⟨"update", s.table, "set"⟩⟩
  if s.predicate.isAbsent && !s.allowFullTable then
    throw ⟨SqlFault.updateWithoutWhere, ⟨"update", s.table, "where"⟩⟩
  let condition ← whereClause scope s.predicate
  let returning ← returningClause scope s.returning
  return Fragment.text ("UPDATE " ++ quoteTable s.schema s.table ++ " SET ") ++
    setList assignments ++ condition ++ returning

/-- A DELETE statement. -/
def delete (scope : SqlScope) (s : DeleteStatement) : Except CompileError Fragment := do
  if s.predicate.isAbsent && !s.allowFullTable then
    throw ⟨SqlFault.deleteWithoutWhere, ⟨"delete", s.table, "where"⟩⟩
  let condition ← whereClause scope s.predicate
  return Fragment.text ("DELETE FROM " ++ quoteTable s.schema s.table) ++ condition

end Sql

end FluentQuery
