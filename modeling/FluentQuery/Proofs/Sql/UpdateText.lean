import Mathlib.Data.List.Forall2
import FluentQuery.Proofs.Effect
import FluentQuery.Sql.Statement

/-!
# The text of an UPDATE

An UPDATE that can be written lists the assignments that are made, in order and each with the SQL of
its value, and has its predicate as condition.
-/

namespace FluentQuery

set_option autoImplicit false

namespace Sql

theorem unplaced_eq_ok {α : Type} {x : Except SqlFault α} {a : α} (h : unplaced x = .ok a) :
    x = .ok a := by
  cases x with
  | ok b =>
    cases h
    rfl
  | error fault => cases h

/-- Columns are emitted in order, each with the SQL of its value. -/
theorem forall₂_assignmentSql {scope : SqlScope} {entries : Assignments}
    {columns : List (String × Fragment)} (h : assignmentSql scope entries = .ok columns) :
    List.Forall₂ (fun entry column => column.1 = entry.1 ∧ entry.2.sql scope .open = .ok column.2)
      entries columns := by
  induction entries generalizing columns with
  | nil =>
    cases h
    exact .nil
  | cons entry rest ih =>
    obtain ⟨sql, hsql, h⟩ := outcome_bind_eq_ok.1 h
    obtain ⟨others, hothers, h⟩ := outcome_bind_eq_ok.1 h
    cases h
    exact .cons ⟨rfl, hsql⟩ (ih hothers)

/-- An UPDATE emits the assignments that are made, and its predicate. -/
def EmitsUpdate (scope : SqlScope) (s : UpdateStatement) (sql : Fragment) : Prop :=
  ∃ columns condition returning,
    List.Forall₂ (fun entry column => column.1 = entry.1 ∧ entry.2.sql scope .open = .ok column.2)
      (Assignments.given scope.params (s.assignments.getD [])) columns ∧
    whereClause scope s.predicate = .ok condition ∧
    sql = Fragment.text ("UPDATE " ++ quoteTable s.schema s.table ++ " SET ") ++
      setList columns ++ condition ++ returning

theorem emitsUpdate {d : Dialect} {params : Json} {s : UpdateStatement} {rest : Operation}
    {sql : Fragment} (h : Operation.sql d params (.update s :: rest) = .ok sql) :
    EmitsUpdate ⟨d, params, [], false⟩ s sql := by
  have update : Sql.update ⟨d, params, [], false⟩ s = .ok sql := h
  unfold Sql.update at update
  obtain ⟨columns, hcolumns, update⟩ := outcome_bind_eq_ok.1 update
  dsimp only at update
  split at update
  · cases update
  split at update
  · cases update
  obtain ⟨condition, hcondition, update⟩ := outcome_bind_eq_ok.1 update
  obtain ⟨returning, -, update⟩ := outcome_bind_eq_ok.1 update
  cases update
  exact ⟨columns, condition, returning, forall₂_assignmentSql (unplaced_eq_ok hcolumns), hcondition,
    rfl⟩

end Sql

end FluentQuery
