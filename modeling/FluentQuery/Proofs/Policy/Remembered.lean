import FluentQuery.Proofs.Policy.Restriction

/-!
# What the memo can hold

Filters are applied to one operation after the other, each starting from the memo that the last one
left behind, whether it succeeded or not.  Main statement: `Remembered.sound`, that every memo that
arises in this way holds nothing but what parsing would give.
-/

namespace FluentQuery

set_option autoImplicit false

namespace Filtering

open FilterState Operation

variable {filters : RowFilters} {context params : Json} {place : ErrorContext} {s : FilterState}

/-- A failure is reported where the work stands; the state stays as it is. -/
theorem ensures_ofExcept {α : Type} (x : Except PolicyFault α) {failed : FilterState → Prop}
    (error : failed s) :
    Ensures (ofExcept place x) s (fun a s' => x = .ok a ∧ s' = s) failed := by
  cases x with
  | ok a => exact ⟨rfl, rfl⟩
  | error fault => exact error

theorem ofExcept_eq_ok {α : Type} {x : Except PolicyFault α} {a : α} {s' : FilterState}
    (run : ofExcept place x s = .ok a s') : x = .ok a ∧ s' = s := by
  cases x with
  | ok b =>
    cases run
    exact ⟨rfl, rfl⟩
  | error fault => cases run

theorem ensures_finalParams {failed : FilterState → Prop} (error : failed s) :
    Ensures (finalParams context params place) s (fun _ s' => s' = s) failed :=
  .get ((ensures_ofExcept _ error).mono (fun _ _ h => h.2) fun _ => id)

/-- A query that changes no rows has the tables it reads filtered. -/
theorem filtered_select {query : BoundQuery}
    (select : query.operation.filterKind? = some .select) :
    filtered filters context query = do
      let wrapped ← wrap filters query.operation
      let params ← finalParams context query.params
        (FilterKind.select.place (targetTable query.operation))
      return ⟨wrapped, params⟩ := by
  obtain ⟨op, params⟩ := query
  match op with
  | [] => rfl
  | step :: rest =>
    cases step with
    | insert | update | delete => cases select
    | _ => rfl

theorem ensures_filtered {query : BoundQuery} (sound : s.Sound filters.tables) :
    Ensures (filtered filters context query) s (fun _ s' => s'.memo.Sound filters.tables)
      (fun s' => s'.memo.Sound filters.tables) := by
  unfold filtered
  split
  · rename_i statement rest _
    refine .bind (ensures_filterFor sound statement.schema statement.table .update) ?_
    rintro found s' ⟨sound', -, -⟩
    cases found with
    | none => exact .pure sound'.memo
    | some filter =>
      refine .bind (ensures_finalParams sound'.memo) ?_
      rintro params _ rfl
      refine .bind (ensures_ofExcept _ sound'.memo) ?_
      rintro _ _ ⟨-, rfl⟩
      exact .pure sound'.memo
  · rename_i statement rest _
    refine .bind (ensures_filterFor sound statement.schema statement.table .delete) ?_
    rintro found s' ⟨sound', -, -⟩
    cases found with
    | none => exact .pure sound'.memo
    | some filter =>
      refine .bind (ensures_finalParams sound'.memo) ?_
      rintro params _ rfl
      exact .pure sound'.memo
  · refine .bind (ensures_wrap _ sound) ?_
    rintro wrapped s' ⟨sound', -, -⟩
    refine .bind (ensures_finalParams sound'.memo) ?_
    rintro params _ rfl
    exact .pure sound'.memo

end Filtering

namespace RowFilters

variable {filters : RowFilters} {query : BoundQuery} {counter : Int} {memo : RowFilterMemo}

/-- Applying filters is filtering from the given memo, and keeps the memo that results. -/
theorem apply_eq {kind : FilterKind} {context : Json}
    (hkind : query.operation.filterKind? = some kind) (bound : filters.context = some context) :
    filters.apply query counter memo =
      match Filtering.filtered filters context query { memo, counter } with
      | .ok result s => .ok result s.memo
      | .error e s => .error e s.memo := by
  unfold apply
  rewrite [hkind, bound]
  rfl

theorem apply_eq_ok {kind : FilterKind} {context : Json} {result : BoundQuery}
    {memo' : RowFilterMemo} (hkind : query.operation.filterKind? = some kind)
    (bound : filters.context = some context)
    (run : filters.apply query counter memo = .ok result memo') :
    ∃ s, Filtering.filtered filters context query { memo, counter } = .ok result s := by
  rw [apply_eq hkind bound] at run
  split at run
  · cases run
    exact ⟨_, ‹_›⟩
  · cases run

/-- Applying filters fails if filtering cannot succeed. -/
theorem apply_eq_error {kind : FilterKind} {context : Json}
    (hkind : query.operation.filterKind? = some kind) (bound : filters.context = some context)
    (fails : ∀ result s,
      Filtering.filtered filters context query { memo, counter } ≠ .ok result s) :
    ∃ e memo', filters.apply query counter memo = .error e memo' := by
  rw [apply_eq hkind bound]
  split
  · exact absurd ‹_› (fails _ _)
  · exact ⟨_, _, rfl⟩

theorem ensures_apply (sound : memo.Sound filters.tables) :
    Ensures (filters.apply query counter) memo (fun _ memo' => memo'.Sound filters.tables)
      (fun memo' => memo'.Sound filters.tables) := by
  unfold apply
  split
  · exact sound
  split
  · exact sound
  · rename_i context _
    have run : Ensures (Filtering.filtered filters context query) _ _ _ :=
      Filtering.ensures_filtered (FilterState.sound_initial sound counter)
    unfold Ensures at run ⊢
    dsimp only
    split at run
    · simpa only [‹_ = EStateM.Result.ok _ _›] using run
    · simpa only [‹_ = EStateM.Result.error _ _›] using run

end RowFilters

/-- The memos that applying the filters of these tables can lead to, from an empty one. -/
inductive Remembered (tables : Assoc TableFilters) : RowFilterMemo → Prop where
  | empty : Remembered tables []
  | success {filters : RowFilters} {query result : BoundQuery} {counter : Int}
      {memo memo' : RowFilterMemo} (before : Remembered tables memo) (same : filters.tables = tables)
      (run : filters.apply query counter memo = .ok result memo') : Remembered tables memo'
  | failure {filters : RowFilters} {query : BoundQuery} {counter : Int} {e : CompileError}
      {memo memo' : RowFilterMemo} (before : Remembered tables memo) (same : filters.tables = tables)
      (run : filters.apply query counter memo = .error e memo') : Remembered tables memo'

/-- What is remembered after any number of operations is what parsing would give. -/
theorem Remembered.sound {tables : Assoc TableFilters} {memo : RowFilterMemo}
    (h : Remembered tables memo) : memo.Sound tables := by
  induction h with
  | empty => exact Filtering.soundMemo_empty
  | success _ same run ih =>
    subst same
    exact (RowFilters.ensures_apply ih).of_ok run
  | failure _ same run ih =>
    subst same
    exact (RowFilters.ensures_apply ih).of_error run

end FluentQuery
