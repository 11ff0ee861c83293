import FluentQuery.Proofs.Policy.Remembered

/-!
# The check of an UPDATE

An UPDATE carries its filter twice: once for the row as it is, and once with the assigned values in
place of the columns.  The second is the filter with some of its leaves replaced
(`Filtering.restrictUpdate_eq_ok`).
-/

namespace FluentQuery

set_option autoImplicit false

namespace Filtering

open FluentQuery.Expr

/-- The new value of a column that is assigned to. -/
def assigned (values : Assoc Expr) : Expr → Option Expr
  | .column name table source =>
    if table.isEmpty && source.isNone then values.find? name else none
  | _ => none

theorem onLeaves_assigned (values : Assoc Expr) : OnLeaves (assigned values) := by
  intro node h
  cases node with
  | column => exact absurd rfl h
  | _ => rfl

theorem gives_substituteNode (values : Assoc Expr) (node : Expr) :
    (Logged.ofExcept PolicyFault).Gives (substituteNode values node)
      fun r log => r = assigned values node ∧ log = [] := by
  intro r run
  refine ⟨?_, rfl⟩
  cases node with
  | column name table source =>
    simp only [substituteNode, assigned] at run ⊢
    split at run
    · rename_i direct
      rw [if_pos direct]
      split at run
      · rename_i value hvalue
        rw [hvalue]
        split at run
        · cases run
          rfl
        · cases run
      · rename_i hnone
        cases run
        exact hnone.symm
    · rename_i indirect
      rw [if_neg indirect]
      cases run
      rfl
  | _ =>
    cases run
    rfl

theorem substituteUpdated_eq_ok {values : Assoc Expr} {e e' : Expr}
    (h : substituteUpdated values e = .ok e') : e' = replace (assigned values) e :=
  ((Logged.ofExcept PolicyFault).replaceM (gives_substituteNode values) (fun _ _ => rfl) e e' h).1

/-- The values that an UPDATE assigns; of two for one column the later counts. -/
def newValues (s : UpdateStatement) (params : Json) : Assoc Expr :=
  Assoc.ofList (Assignments.given params (s.assignments.getD []))

/-- The filter of an UPDATE about the row as it will be. -/
def checkOf (s : UpdateStatement) (params : Json) (filter : RowFilter) : Expr :=
  replace (assigned (newValues s params)) filter.predicate

/-- A new value stands among the assignments. -/
theorem exists_of_assigned {s : UpdateStatement} {params : Json} {node value : Expr}
    (h : assigned (newValues s params) node = some value) :
    ∃ column, (column, value) ∈ s.assignments.getD [] := by
  cases node with
  | column name table source =>
    simp only [assigned] at h
    split at h
    · rcases Assoc.mem_or_find?_of_find?_merge h with hmem | hnil
      · exact ⟨name, (List.mem_filter.1 hmem).1⟩
      · cases hnil
    · cases h
  | _ => cases h

theorem checkOf_none {s : UpdateStatement} (h : s.assignments = none) (params : Json)
    (filter : RowFilter) : checkOf s params filter = filter.predicate := by
  have empty : newValues s params = [] := by
    rw [newValues, h]
    rfl
  refine replace_eq_self (onLeaves_assigned _) _ fun n _ => ?_
  rw [empty]
  cases n with
  | column => simp [assigned]
  | _ => rfl

/-- What an UPDATE that was accepted looks like. -/
theorem restrictUpdate_eq_ok {s s' : UpdateStatement} {params : Json} {filter : RowFilter}
    (h : restrictUpdate s params filter = .ok s') :
    s' = { s with
      predicate := conj (conj s.predicate filter.predicate) (checkOf s params filter) } := by
  unfold restrictUpdate at h
  dsimp only at h
  split at h
  · rename_i assignments hassignments
    obtain ⟨check, hcheck, h⟩ := outcome_bind_eq_ok.1 h
    cases h
    rw [substituteUpdated_eq_ok hcheck, checkOf, newValues, hassignments, Option.getD_some]
  · rename_i hnone
    cases h
    rw [checkOf_none hnone]

end Filtering

end FluentQuery
