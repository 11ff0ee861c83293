import FluentQuery.Proofs.Plan.Stages
import FluentQuery.Proofs.Sql.UpdateText

/-!
# What a finished INSERT or UPDATE lacks

An INSERT cannot be written without values, nor with a conflict clause that lacks its action, and an
UPDATE not without assignments.  A handle refuses to be finished at the stages that say so; at the
others it is finished with what the calls have filled in, whatever that is.  Main statement:
`finished_statements_are_complete_iff`, that a finished statement lacks nothing exactly if the calls
in the query-building function and on its handles supply it.  If they do not, it is the text of the
statement that is refused (`Step.isComplete_of_sql`).
-/

namespace FluentQuery

set_option autoImplicit false

/-! ### What is required -/

/-- Some call is one of a method. -/
def Method.IsCalledIn (method : Method) (calls : List MethodCall) : Prop :=
  ∃ c ∈ calls, c.method? = some method

/-- An INSERT that can be written: it has values, and a conflict clause says what to do. -/
def InsertStatement.IsComplete (s : InsertStatement) : Prop :=
  hasAssignments s.values = true ∧
    ∀ conflict, s.onConflict = some conflict → conflict.action ≠ .none

/-- An UPDATE that can be written: it has assignments. -/
def UpdateStatement.IsComplete (s : UpdateStatement) : Prop :=
  hasAssignments s.assignments = true

def Step.IsComplete : Step → Prop
  | .insert s => s.IsComplete
  | .update s => s.IsComplete
  | _ => True

/-- The calls that give a statement what it requires. -/
def Handle.Definition.IsSuppliedBy (calls : List MethodCall) : Handle.Definition → Prop
  | .insert _ => Method.values.IsCalledIn calls ∧ (Method.onConflict.IsCalledIn calls →
      Method.doNothing.IsCalledIn calls ∨ Method.doUpdateSet.IsCalledIn calls)
  | .update _ => Method.set.IsCalledIn calls
  | _ => True

/-- What may be missing although a statement has a stage at which it can be finished. -/
inductive Step.LacksPart : Step → Prop
  | action {s : InsertStatement} {conflict : OnConflict} (returns : s.returning ≠ .absent)
      (assigns : hasAssignments s.values = true) (clause : s.onConflict = some conflict)
      (lacks : conflict.action = .none) : LacksPart (.insert s)
  | assignments {s : UpdateStatement}
      (selects : s.returning ≠ .absent ∨ s.predicate ≠ .absent ∨ s.allowFullTable = true)
      (lacks : hasAssignments s.assignments = false) : LacksPart (.update s)

/-! ### What the calls have filled in -/

namespace Method

variable {calls : List MethodCall} {c : MethodCall}

theorem not_isCalledIn_nil (method : Method) : ¬ method.IsCalledIn [] := by
  simp [IsCalledIn]

theorem isCalledIn_concat {method called : Method} (h : c.method? = some called) :
    method.IsCalledIn (calls ++ [c]) ↔ method.IsCalledIn calls ∨ method = called := by
  simp only [IsCalledIn, List.mem_append, List.mem_singleton, or_and_right, exists_or,
    exists_eq_left, h, Option.some.injEq]
  exact or_congr_right eq_comm

end Method

/-- The parts of an INSERT that are there are those that calls have filled in. -/
structure InsertStatement.Records (s : InsertStatement) (calls : List MethodCall) : Prop where
  values : hasAssignments s.values = true ↔ Method.values.IsCalledIn calls
  clause : s.onConflict ≠ none ↔ Method.onConflict.IsCalledIn calls
  action : (∃ conflict, s.onConflict = some conflict ∧ conflict.action ≠ .none) ↔
    Method.doNothing.IsCalledIn calls ∨ Method.doUpdateSet.IsCalledIn calls

/-- The parts of a statement that are there are those that calls have filled in. -/
def Step.Records (calls : List MethodCall) : Step → Prop
  | .insert s => s.Records calls
  | .update s => hasAssignments s.assignments = true ↔ Method.set.IsCalledIn calls
  | _ => True

theorem InsertStatement.Next.records {s s' : InsertStatement} {method : Method}
    {calls : List MethodCall} {c : MethodCall} (next : s.Next method s')
    (called : c.method? = some method) (records : s.Records calls) : s'.Records (calls ++ [c]) := by
  obtain ⟨values, clause, action⟩ := records
  -- A method fills in one part, which is then the part of the call that is new; the other parts are
  -- those of the calls before.
  constructor <;> simp only [Method.isCalledIn_concat called]
  all_goals cases next
  all_goals simp_all [hasAssignments_of_ne_nil]

theorem Step.Next.records {step step' : Step} {method : Method} {calls : List MethodCall}
    {c : MethodCall} (next : step.Next method step') (called : c.method? = some method)
    (records : step.Records calls) : step'.Records (calls ++ [c]) := by
  cases next with
  | insert next => exact next.records called records
  | update next =>
    unfold Step.Records at records ⊢
    rw [Method.isCalledIn_concat called]
    cases next with
    | set first given => exact iff_of_true (hasAssignments_of_ne_nil given) (.inr rfl)
    | filter | allow | returning => simpa using records
  | delete => trivial

/-- The parts of a statement are filled in by calls, one after the other. -/
theorem Step.Called.records {first step : Step} {start s : Scope} {calls : List MethodCall}
    (called : first.Called start calls step s) (started : first.IsStarted) : step.Records calls := by
  induction called with
  | nil =>
    obtain ⟨-, method, schema, table, rfl⟩ := started
    cases method with
    | insertInto =>
      constructor <;> simp [hasAssignments, Method.not_isCalledIn_nil]
    | update => simp [Step.Records, RootMethod.step, hasAssignments, Method.not_isCalledIn_nil]
    | «from» | deleteFrom => trivial
  | call before run ih =>
    obtain ⟨method, _, called, same, next⟩ := next_of_resolve (before.isCrud started.1) run
    cases same
    exact next.records called ih

/-- A statement lacks nothing exactly if calls supply what it requires. -/
theorem Step.Records.isComplete_iff {definition : Handle.Definition} {step : Step} {h : Handle}
    {calls : List MethodCall} (staged : Handle.Staged definition step h)
    (records : step.Records calls) : step.IsComplete ↔ definition.IsSuppliedBy calls := by
  cases staged with
  | @insert asked s state operation =>
    obtain ⟨values, clause, action⟩ := records
    refine and_congr values ?_
    rw [← clause, ← action]
    constructor
    · intro settled there
      obtain ⟨conflict, some⟩ := Option.ne_none_iff_exists'.1 there
      exact ⟨conflict, some, settled conflict some⟩
    · intro supplied conflict some
      obtain ⟨other, same, settled⟩ := supplied (by simp [some])
      cases some.symm.trans same
      exact settled
  | update => exact records
  | delete => exact iff_of_true trivial trivial

/-! ### Finishing -/

/-- A statement and the same with another condition; an INSERT has none. -/
inductive Step.Conditioned : Step → Step → Prop
  | insert (s : InsertStatement) : Conditioned (.insert s) (.insert s)
  | update (s : UpdateStatement) (predicate : Expr) :
      Conditioned (.update s) (.update { s with predicate })
  | delete (s : DeleteStatement) (predicate : Expr) :
      Conditioned (.delete s) (.delete { s with predicate })

theorem Step.Conditioned.refl {step : Step} (isCrud : step.isCrud = true) :
    step.Conditioned step := by
  cases step with
  | insert s => exact .insert s
  | update s => exact .update s s.predicate
  | delete s => exact .delete s s.predicate
  | _ => cases isCrud

theorem Step.Conditioned.isComplete_iff {step final : Step} (same : step.Conditioned final) :
    final.IsComplete ↔ step.IsComplete := by
  cases same <;> exact Iff.rfl

/-- Row filters change nothing of a statement but its condition. -/
theorem Filtering.conditioned {filters : RowFilters} {context params : Json} {step : Step}
    {result : BoundQuery} {t t' : FilterState} {kind : FilterKind} (isCrud : step.isCrud = true)
    (filtered : Operation.filterKind? [step] = some kind)
    (run : Filtering.filtered filters context ⟨[step], params⟩ t = .ok result t') :
    ∃ final, result.operation = [final] ∧ step.Conditioned final := by
  cases step with
  | insert => cases filtered
  | update s =>
    obtain ⟨found, t₁, -, run⟩ := bind_eq_ok.1 run
    cases found with
    | none =>
      cases run
      exact ⟨_, rfl, .refl rfl⟩
    | some filter =>
      obtain ⟨params, t₂, -, run⟩ := bind_eq_ok.1 run
      obtain ⟨restricted, t₃, hrestricted, run⟩ := bind_eq_ok.1 run
      cases run
      rw [restrictUpdate_eq_ok (ofExcept_eq_ok hrestricted).1]
      exact ⟨_, rfl, .update s _⟩
  | delete s =>
    obtain ⟨found, t₁, -, run⟩ := bind_eq_ok.1 run
    cases found with
    | none =>
      cases run
      exact ⟨_, rfl, .refl rfl⟩
    | some filter =>
      obtain ⟨params, t₂, -, run⟩ := bind_eq_ok.1 run
      cases run
      exact ⟨_, rfl, .delete s _⟩
  | _ => cases isCrud

/-- A finished plan has the statement that was built, up to its condition. -/
theorem PlanState.conditioned_of_finalize {state : PlanState} {step : Step} {params : Json}
    {plan : FinalizedPlan} {w w' : Workspace} (isCrud : step.isCrud = true)
    (operation : state.operation = [step]) (run : state.finalize params w = .ok plan w') :
    ∃ final, plan.operation = [final] ∧ step.Conditioned final := by
  obtain ⟨merged, w₀, -, rest⟩ := bind_eq_ok.1 run
  obtain ⟨bound, w₁, applied, final⟩ := bind_eq_ok.1 rest
  cases final
  rw [operation] at applied
  cases declared : state.schema.rowFilters with
  | none =>
    rw [Session.applyRowFilters, declared] at applied
    cases applied
    exact ⟨step, rfl, .refl isCrud⟩
  | some filters =>
    rw [Session.applyRowFilters, declared] at applied
    obtain ⟨m, applied⟩ := Session.withMemo_eq_ok applied
    cases hkind : Operation.filterKind? [step] with
    | none =>
      rw [RowFilters.apply, hkind] at applied
      cases applied
      exact ⟨step, rfl, .refl isCrud⟩
    | some kind =>
      cases hcontext : filters.context with
      | none =>
        rw [RowFilters.apply, hkind, hcontext] at applied
        cases applied
      | some context =>
        obtain ⟨s, filtered⟩ := RowFilters.apply_eq_ok hkind hcontext applied
        exact Filtering.conditioned isCrud hkind filtered

/-- A handle that can be finished lacks nothing, or one of the parts that its stage does not ask
for. -/
theorem Handle.Staged.isComplete_or_lacksPart {definition : Definition} {step : Step} {h : Handle}
    (staged : Staged definition step h) (ordered : step.Ordered) (finishes : h.unfinished? = none) :
    step.IsComplete ∨ step.LacksPart := by
  cases staged with
  | @insert asked s state operation =>
    have isAt := s.isAt_stage
    generalize s.stage = stage at finishes isAt
    cases isAt with
    | initial | withConflictTarget => cases finishes
    | withValues plain settled assigns => exact .inl ⟨assigns, settled⟩
    | withReturning there =>
      have assigns := ordered.hasAssignments (ordered.returns there)
      by_cases settled : ∀ conflict, s.onConflict = some conflict → conflict.action ≠ .none
      · exact .inl ⟨assigns, settled⟩
      · push Not at settled
        obtain ⟨conflict, clause, lacks⟩ := settled
        exact .inr (.action there assigns clause lacks)
  | @update asked s state operation =>
    have isAt := s.isAt_stage
    generalize s.stage = stage at finishes isAt
    cases isAt with
    | initial => cases finishes
    | withSet plain all strict assigns => exact .inl assigns
    | complete plain guarded =>
      cases assigns : hasAssignments s.assignments with
      | true => exact .inl assigns
      | false => exact .inr (.assignments (.inr guarded) assigns)
    | withReturning there =>
      cases assigns : hasAssignments s.assignments with
      | true => exact .inl assigns
      | false => exact .inr (.assignments (.inl there) assigns)
  | delete => exact .inl trivial

/-! ### Text -/

/-- Columns that are assigned to come from assignments that are there. -/
theorem hasAssignments_of_columns {scope : SqlScope} {assignments : Option Assignments}
    {columns : List (String × Fragment)}
    (h : Sql.assignedColumns scope assignments = .ok columns) (ne : columns.isEmpty ≠ true) :
    hasAssignments assignments = true := by
  match assignments with
  | none | some [] =>
    cases h
    exact absurd rfl ne
  | some (_ :: _) => rfl

/-- The text of a statement that lacks a part is refused. -/
theorem Step.isComplete_of_sql {d : Dialect} {params : Json} {step : Step} {sql : Fragment}
    (h : Operation.sql d params [step] = .ok sql) : step.IsComplete := by
  cases step with
  | insert s =>
    have insert : Sql.insert ⟨d, params, [], false⟩ s = .ok sql := h
    unfold Sql.insert at insert
    obtain ⟨columns, hcolumns, insert⟩ := outcome_bind_eq_ok.1 insert
    dsimp only at insert
    split at insert
    · cases insert
    obtain ⟨clause, hclause, -⟩ := outcome_bind_eq_ok.1 insert
    refine ⟨hasAssignments_of_columns hcolumns ‹_›, fun conflict some lacks => ?_⟩
    obtain ⟨target, action, assignments⟩ := conflict
    obtain rfl : action = .none := lacks
    rw [some] at hclause
    unfold Sql.conflictClause at hclause
    dsimp only at hclause
    split at hclause <;> cases hclause
  | update s =>
    have update : Sql.update ⟨d, params, [], false⟩ s = .ok sql := h
    unfold Sql.update at update
    obtain ⟨columns, hcolumns, update⟩ := outcome_bind_eq_ok.1 update
    dsimp only at update
    split at update
    · cases update
    · exact hasAssignments_of_columns hcolumns ‹_›
  | _ => trivial

/-- A finished INSERT or UPDATE, of any query-building function and after any methods of its handles,
has its values or assignments, and an action for each conflict clause, exactly if the calls in the
function and on the handles supply them.  What can be missing is the action of an INSERT that returns
rows, or the assignments of an UPDATE that has a condition, may change all rows or returns rows; and
then there is no text of the statement. -/
theorem finished_statements_are_complete_iff {w w₁ w₂ w₃ : Workspace} (arises : w.Arises)
    {definition : Handle.Definition} (asked : definition.changesRows = true) {schema : Schema}
    {builder : Node} {useCache : Bool} {sourceText : String} {first h : Handle}
    {calls : List MethodCall} {params : Json} {plan : FinalizedPlan}
    (defined : Handle.define definition schema builder useCache sourceText w = .ok first w₁)
    (advances : first.Advances calls h) (finalized : h.finalize params w₂ = .ok plan w₃) :
    ∃ origin step final, (useCache = false → origin = builder) ∧
      Handle.Staged definition step h ∧ plan.operation = [final] ∧ step.Conditioned final ∧
      (final.IsComplete ↔ definition.IsSuppliedBy (origin.methodCalls ++ calls)) ∧
      (final.IsComplete ∨ step.LacksPart) ∧
      ∀ (d : Dialect) result, d.toSql plan.toBoundQuery = .ok result → final.IsComplete := by
  obtain ⟨origin, query, parsed, same, defined⟩ := Handle.origin_of_define arises defined
  obtain ⟨-, root, start, step, started, called, staged⟩ :=
    advances.staged_of_query asked parsed defined
  have finished : h.unfinished? = none ∧ h.state.finalize params w₂ = .ok plan w₃ := by
    cases unfinished : h.unfinished? with
    | some fault =>
      rw [Handle.finalize, unfinished] at finalized
      cases finalized
    | none =>
      rw [Handle.finalize, unfinished] at finalized
      exact ⟨rfl, finalized⟩
  obtain ⟨final, operation, conditioned⟩ :=
    h.state.conditioned_of_finalize staged.isCrud staged.operation finished.2
  refine ⟨origin, step, final, same, staged, operation, conditioned, ?_, ?_, ?_⟩
  · rw [conditioned.isComplete_iff]
    exact (called.records started).isComplete_iff staged
  · rw [conditioned.isComplete_iff]
    exact staged.isComplete_or_lacksPart (called.ordered started) finished.1
  · intro d result compiled
    obtain ⟨sql, hsql, -⟩ := outcome_bind_eq_ok.1 compiled
    rw [operation] at hsql
    exact Step.isComplete_of_sql hsql

/-- A user is renamed by a plan to which a second condition is added. -/
theorem finished_statements_are_complete_iff_renameUser :
    ∃ first w h plan w', Handle.define (.update .complete) {} renameUser true "" {} = .ok first w ∧
      first.call? "where" [rowMatches "city"] 0 = some (.ok h) ∧
      h.finalize (.obj [("id", .int 1), ("city", .str "x")]) w = .ok plan w' ∧
      ∃ origin step final, Handle.Staged (.update .complete) step h ∧ plan.operation = [final] ∧
        (final.IsComplete ↔ Method.set.IsCalledIn
          (Node.methodCalls origin ++ [.of "where" (rowMatches "city")])) ∧
        final.IsComplete := by
  have succeeds : ∃ first w h plan w' result,
      Handle.define (.update .complete) {} renameUser true "" {} = .ok first w ∧
      first.call? "where" [rowMatches "city"] 0 = some (.ok h) ∧
      h.finalize (.obj [("id", .int 1), ("city", .str "x")]) w = .ok plan w' ∧
      Dialect.sqlite.toSql plan.toBoundQuery = .ok result :=
    ⟨_, _, _, _, _, _, rfl, rfl, rfl, rfl⟩
  obtain ⟨first, w, h, plan, w', result, defined, called, finalized, written⟩ := succeeds
  have advances : first.Advances [.of "where" (rowMatches "city")] h := .call .nil called
  obtain ⟨origin, step, final, -, staged, operation, -, supplied, -, complete⟩ :=
    finished_statements_are_complete_iff .new rfl defined advances finalized
  exact ⟨first, w, h, plan, w', defined, called, finalized, origin, step, final, staged, operation,
    supplied, complete _ result written⟩

/-- `q => q.update("users").where(row => row.active)` -/
def updateNothing : Node :=
  (BuilderForm.lambda ["q"]).build
    (((Node.identifier "q").invoke "update" [.literal (.str "users")]).withCalls
      [.of "where" (columnOfRow "active")])

/-- `q => q.insertInto("users").values({ name: "x" }).onConflict(row => row.name)
.returning(row => row.id)` -/
def insertUndecided : Node :=
  (BuilderForm.lambda ["q"]).build
    (((Node.identifier "q").invoke "insertInto" [.literal (.str "users")]).withCalls
      [.of "values" (.object [.named "name" (.literal (.str "x")) false]),
        .of "onConflict" (columnOfRow "name"), .of "returning" (columnOfRow "id")])

/-- An UPDATE without assignments is finished because it has a condition, and an INSERT with a conflict
clause without action because it returns rows; neither can be written. -/
theorem finished_statements_can_be_incomplete :
    (∃ h w plan w' s, Handle.define (.update .complete) {} updateNothing false "" {} = .ok h w ∧
      h.finalize .null w = .ok plan w' ∧ plan.operation = [.update s] ∧ s.assignments = none ∧
      (Dialect.sqlite.toSql plan.toBoundQuery).isOk = false) ∧
    ∃ h w plan w' s conflict,
      Handle.define (.insert .withReturning) {} insertUndecided false "" {} = .ok h w ∧
      h.finalize .null w = .ok plan w' ∧ plan.operation = [.insert s] ∧
      s.onConflict = some conflict ∧ conflict.action = .none ∧
      (Dialect.sqlite.toSql plan.toBoundQuery).isOk = false :=
  ⟨⟨_, _, _, _, _, rfl, rfl, rfl, rfl, rfl⟩, ⟨_, _, _, _, _, _, rfl, rfl, rfl, rfl, rfl, rfl⟩⟩

end FluentQuery
