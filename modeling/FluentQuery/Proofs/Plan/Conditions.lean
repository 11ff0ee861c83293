import FluentQuery.Compiler
import FluentQuery.Proofs.Plan.ChangeCalls
import FluentQuery.Proofs.Policy.PermittedUpdate

/-!
# The condition of a finished UPDATE or DELETE

Finishing a plan adds the filter of the table to the conditions that the calls gave, and for an UPDATE
also the filter with the assigned values in place of the columns.  Main statement:
`change_keeps_conditions`, that none of them is lost on the way to the SQL text, and that a statement
without any is written only if a call allowed it.
-/

namespace FluentQuery

set_option autoImplicit false

open FluentQuery.Expr

/-! ### Filters -/

/-- The filter that is declared for the rows a statement changes, with the name it is declared
under. -/
def Schema.filterOf? (schema : Schema) (change : Change) : Option (String × Node) := do
  let filters ← schema.rowFilters
  let (key, config) ← filters.find? change.schema change.table
  let declared ← config.predicateFor change.filterKind
  return (key, declared)

namespace Change

/-- What a filter adds to the condition of a statement. -/
def filterParts (change : Change) (params : Json) (filter : RowFilter) : List Expr :=
  match change with
  | update s => [filter.predicate, Filtering.checkOf s params filter]
  | delete _ => [filter.predicate]

/-- What the filters of a schema add to the condition of a statement. -/
inductive Filtered (schema : Schema) (change : Change) (params : Json) : List Expr → Prop
  | no (none : schema.filterOf? change = none) : Filtered schema change params []
  | yes {key : String} {declared : Node} {number : Int} {filter : RowFilter}
      (some : schema.filterOf? change = some (key, declared))
      (parsed : RowFilter.parse declared key change.filterKind number = .ok filter) :
      Filtered schema change params (change.filterParts params filter)

variable {schema : Schema} {change : Change} {params : Json} {added : List Expr}

theorem Filtered.isBoolean (filtered : change.Filtered schema params added) :
    ∀ e ∈ added, e.isBoolean = true := by
  cases filtered with
  | no => simp
  | yes _ parsed =>
    have isPredicate := RowFilter.isBoolean_of_parse parsed
    cases change with
    | update s => simp [filterParts, isPredicate, Filtering.isBoolean_checkOf isPredicate s params]
    | delete => simp [filterParts, isPredicate]

theorem Filtered.eq_nil_iff (filtered : change.Filtered schema params added) :
    added = [] ↔ schema.filterOf? change = none := by
  cases filtered with
  | no none => exact iff_of_true rfl none
  | yes some =>
    rw [some]
    cases change <;> simp [filterParts]

end Change

namespace Filtering

variable {filters : RowFilters} {change : Change} {params context : Json} {s : FilterState}

/-- What is found for a statement is the filter that is declared for it. -/
theorem filterOf?_of_decides {found : Option RowFilter} (sound : s.Sound filters.tables)
    (decides : s.Decides filters change.filterKind change.schema change.table found) :
    (found = none ∧ Schema.filterOf? ⟨some filters⟩ change = none) ∨
      ∃ filter key declared number, found = some filter ∧
        Schema.filterOf? ⟨some filters⟩ change = some (key, declared) ∧
        RowFilter.parse declared key change.filterKind number = .ok filter := by
  have ⟨key, config, hfind, _⟩ := decides
  cases hdeclared : config.predicateFor change.filterKind with
  | none =>
    have unfiltered : Schema.filterOf? ⟨some filters⟩ change = none := by
      simp [Schema.filterOf?, hfind, hdeclared]
    cases found with
    | none => exact .inl ⟨rfl, unfiltered⟩
    | some filter =>
      obtain ⟨_, _, absurd, -⟩ := decides.predicate sound hfind
      cases hdeclared.symm.trans absurd
  | some declared =>
    obtain ⟨filter, number, hfound, hparse⟩ := decides.declared sound hfind hdeclared
    refine .inr ⟨filter, key, declared, number, hfound, ?_, hparse⟩
    simp [Schema.filterOf?, hfind, hdeclared]

/-- Applying filters to a statement adds what they say to its condition. -/
theorem filtered_change {memo : RowFilterMemo} {counter : Int} {result : BoundQuery}
    (sound : memo.Sound filters.tables)
    (run : filtered filters context ⟨[change.step], params⟩ { memo, counter } = .ok result s) :
    ∃ added, change.Filtered ⟨some filters⟩ result.params added ∧
      result.operation = [(change.withPredicate (added.foldl conj change.predicate)).step] := by
  have lookUp (found : Option RowFilter) (s₁ : FilterState)
      (hfound : filterFor filters change.schema change.table change.filterKind { memo, counter } =
        .ok found s₁) :
      (found = none ∧ Schema.filterOf? ⟨some filters⟩ change = none) ∨
        ∃ filter key declared number, found = some filter ∧
          Schema.filterOf? ⟨some filters⟩ change = some (key, declared) ∧
          RowFilter.parse declared key change.filterKind number = .ok filter := by
    obtain ⟨sound₁, -, decides⟩ :=
      (ensures_filterFor (FilterState.sound_initial sound counter) _ _ _).of_ok hfound
    exact filterOf?_of_decides sound₁ decides
  cases change with
  | update statement =>
    obtain ⟨found, s₁, hfound, run⟩ := bind_eq_ok.1 run
    rcases lookUp found s₁ hfound with ⟨rfl, unfiltered⟩ | ⟨filter, key, declared, number, rfl,
      some, parsed⟩
    · cases run
      exact ⟨[], .no unfiltered, rfl⟩
    · obtain ⟨final, s₂, -, run⟩ := bind_eq_ok.1 run
      obtain ⟨changed, s₃, hchanged, run⟩ := bind_eq_ok.1 run
      cases run
      rw [restrictUpdate_eq_ok (ofExcept_eq_ok hchanged).1]
      exact ⟨_, .yes some parsed, rfl⟩
  | delete statement =>
    obtain ⟨found, s₁, hfound, run⟩ := bind_eq_ok.1 run
    rcases lookUp found s₁ hfound with ⟨rfl, unfiltered⟩ | ⟨filter, key, declared, number, rfl,
      some, parsed⟩
    · cases run
      exact ⟨[], .no unfiltered, rfl⟩
    · obtain ⟨final, s₂, -, run⟩ := bind_eq_ok.1 run
      cases run
      exact ⟨_, .yes some parsed, rfl⟩

end Filtering

/-- The memos of a workspace hold what applying the filters of a schema can leave behind. -/
def Schema.Remembers (schema : Schema) (w : Workspace) : Prop :=
  ∀ filters, schema.rowFilters = some filters →
    Remembered filters.tables (w.memos.getD filters.memo [])

namespace Session

theorem ofExcept_eq_ok {α : Type} {x : Except CompileError α} {a : α} {w w' : Workspace}
    (run : ofExcept x w = .ok a w') : x = .ok a ∧ w' = w := by
  cases x with
  | ok b =>
    cases run
    exact ⟨rfl, rfl⟩
  | error e => cases run

theorem withMemo_eq_ok {α : Type} {memo : Nat} {work : EStateM CompileError RowFilterMemo α} {a : α}
    {w w' : Workspace} (run : withMemo memo work w = .ok a w') :
    ∃ m, work (w.memos.getD memo []) = .ok a m := by
  unfold withMemo at run
  split at run
  · cases run
    exact ⟨_, ‹_›⟩
  · cases run

end Session

/-- Finishing a plan of an UPDATE or DELETE adds what the filters of its schema say. -/
theorem PlanState.finalize_change {state : PlanState} {params : Json} {w w' : Workspace}
    {plan : FinalizedPlan} {change : Change} (remembers : state.schema.Remembers w)
    (operation : state.operation = [change.step])
    (run : state.finalize params w = .ok plan w') :
    ∃ added, change.Filtered state.schema plan.params added ∧
      plan.operation = [(change.withPredicate (added.foldl conj change.predicate)).step] := by
  obtain ⟨merged, w₀, hmerged, rest⟩ := bind_eq_ok.1 run
  obtain ⟨-, rfl⟩ := Session.ofExcept_eq_ok hmerged
  obtain ⟨bound, w₁, applied, final⟩ := bind_eq_ok.1 rest
  cases final
  rw [operation] at applied
  cases declared : state.schema.rowFilters with
  | none =>
    rw [Session.applyRowFilters, declared] at applied
    cases applied
    refine ⟨[], .no ?_, ?_⟩
    · simp [Schema.filterOf?, declared]
    · cases change <;> rfl
  | some filters =>
    rw [Session.applyRowFilters, declared] at applied
    obtain ⟨m, applied⟩ := Session.withMemo_eq_ok applied
    have kind : Operation.filterKind? [change.step] = some change.filterKind := by
      cases change <;> rfl
    have whole : state.schema = ⟨some filters⟩ := by rw [← declared]
    cases hcontext : filters.context with
    | none =>
      rw [RowFilters.apply, kind, hcontext] at applied
      cases applied
    | some context =>
      obtain ⟨s, filtered⟩ := RowFilters.apply_eq_ok kind hcontext applied
      rw [whole]
      exact Filtering.filtered_change (remembers filters declared).sound filtered

/-! ### Text -/

namespace Change

/-- What stands before and after the condition of a statement. -/
def Frames (scope : SqlScope) : Change → Fragment → Fragment → Prop
  | update s, head, tail => ∃ columns, Sql.assignedColumns scope s.assignments = .ok columns ∧
      head = Fragment.text ("UPDATE " ++ quoteTable s.schema s.table ++ " SET ") ++
        Sql.setList columns ∧
      Sql.returningClause scope s.returning = .ok tail
  | delete s, head, tail =>
    head = Fragment.text ("DELETE FROM " ++ quoteTable s.schema s.table) ∧ tail = []

/-- The text of a statement: with its condition, or without one if that is allowed. -/
inductive Written (scope : SqlScope) (change : Change) : Fragment → Prop
  | restricted {head condition tail : Fragment} (frames : change.Frames scope head tail)
      (present : change.predicate ≠ absent)
      (sql : change.predicate.sql scope .predicate = .ok condition) :
      Written scope change (head ++ (Fragment.text " WHERE " ++ condition) ++ tail)
  | unrestricted {head tail : Fragment} (frames : change.Frames scope head tail)
      (none : change.predicate = absent) (allowed : change.allowsFullTable = true) :
      Written scope change (head ++ tail)

theorem written_of_whereClause {scope : SqlScope} {change : Change} {head condition tail : Fragment}
    (frames : change.Frames scope head tail)
    (guarded : ¬ (change.predicate.isAbsent && !change.allowsFullTable) = true)
    (h : Sql.whereClause scope change.predicate = .ok condition) :
    change.Written scope (head ++ condition ++ tail) := by
  unfold Sql.whereClause at h
  split at h
  · rename_i isAbsent
    cases h
    have none : change.predicate = absent := by
      cases hp : change.predicate <;> simp_all [Expr.isAbsent]
    rw [List.append_nil]
    exact .unrestricted frames none (by simpa [isAbsent] using guarded)
  · rename_i present
    obtain ⟨sql, hsql, h⟩ := outcome_bind_eq_ok.1 h
    cases h
    exact .restricted frames (fun none => present (by rw [none]; rfl)) (Sql.unplaced_eq_ok hsql)

theorem written {d : Dialect} {params : Json} {change : Change} {sql : Fragment}
    (h : Operation.sql d params [change.step] = .ok sql) :
    change.Written ⟨d, params, [], false⟩ sql := by
  cases change with
  | update s =>
    have update : Sql.update ⟨d, params, [], false⟩ s = .ok sql := h
    unfold Sql.update at update
    obtain ⟨columns, hcolumns, update⟩ := outcome_bind_eq_ok.1 update
    dsimp only at update
    split at update
    · cases update
    split at update
    · cases update
    rename_i guarded
    obtain ⟨condition, hcondition, update⟩ := outcome_bind_eq_ok.1 update
    obtain ⟨returning, hreturning, update⟩ := outcome_bind_eq_ok.1 update
    cases update
    exact written_of_whereClause ⟨columns, hcolumns, rfl, hreturning⟩ guarded hcondition
  | delete s =>
    have delete : Sql.delete ⟨d, params, [], false⟩ s = .ok sql := h
    unfold Sql.delete at delete
    dsimp only at delete
    split at delete
    · cases delete
    rename_i guarded
    obtain ⟨condition, hcondition, delete⟩ := outcome_bind_eq_ok.1 delete
    cases delete
    rw [← List.append_nil (_ ++ condition)]
    exact written_of_whereClause ⟨rfl, rfl⟩ guarded hcondition

end Change

/-- The condition of a finished UPDATE or DELETE is the conjunction of the conditions that all its
`where` calls gave, in the order of the calls, followed by the filter of its table, and for an UPDATE
by the filter about the row as it will be.  There is none exactly if no `where` was called and no
filter applies, and then the statement is written only if a call allowed to change all rows. -/
theorem change_keeps_conditions {definition : Handle.Definition} {schema : Schema} {builder : Node}
    {query : ParsedQuery} {first h : Handle} {calls : List MethodCall} {params : Json}
    {w w' : Workspace} {plan : FinalizedPlan} (isChange : definition.isChange = true)
    (parsed : builder.parseQuery = .ok query)
    (defined : Handle.ofQuery definition schema query = .ok first)
    (reached : first.Reaches calls h) (remembers : schema.Remembers w)
    (finalized : h.finalize params w = .ok plan w') :
    ∃ started start conditions change added final,
      builder.Starts started start ∧
      started.Runs start (builder.methodCalls ++ calls) conditions change h.state.query.scope ∧
      conditions.length = (builder.methodCalls ++ calls).countP (·.name = "where") ∧
      change.Filtered schema plan.params added ∧
      plan.operation = [final.step] ∧
      final = change.withPredicate (allOf (conditions ++ added)) ∧
      (final.predicate = absent ↔
        (∀ c ∈ builder.methodCalls ++ calls, c.name ≠ "where") ∧ schema.filterOf? change = none) ∧
      ∀ (d : Dialect) result, d.toSql plan.toBoundQuery = .ok result → ∃ sql,
        result.sql = sql.render d ∧ final.Written ⟨d, plan.params, [], false⟩ sql ∧
          (final.predicate = absent → ∃ c ∈ builder.methodCalls ++ calls,
            c.name = final.allowance) := by
  obtain ⟨asChange, hschema, started, start, starts, leads⟩ :=
    Handle.leads_of_define isChange parsed defined
  obtain ⟨-, hschema', conditions, change, runs, operation⟩ := reached.leads asChange leads
  have same : h.state.schema = schema := hschema'.trans hschema
  have finished : h.state.finalize params w = .ok plan w' := by
    cases unfinished : h.unfinished? with
    | some fault =>
      rw [Handle.finalize, unfinished] at finalized
      cases finalized
    | none => rwa [Handle.finalize, unfinished] at finalized
  rw [← same] at remembers
  obtain ⟨added, filtered, final⟩ := PlanState.finalize_change remembers operation finished
  rw [same] at filtered
  have gathered := runs.gathered starts.1
  have isBoolean : ∀ e ∈ conditions ++ added, e.isBoolean = true :=
    List.forall_mem_append.2 ⟨gathered.isBoolean, filtered.isBoolean⟩
  rw [gathered.predicate, ← List.foldl_append, foldl_conj isBoolean] at final
  refine ⟨started, start, conditions, change, added, _, starts, runs, gathered.complete,
    filtered, final, rfl, ?_, ?_⟩
  · rw [Change.predicate_withPredicate, allOf_eq_absent isBoolean, List.append_eq_nil_iff,
      gathered.eq_nil_iff, filtered.eq_nil_iff]
  · intro d result compiled
    obtain ⟨sql, hsql, compiled⟩ := outcome_bind_eq_ok.1 compiled
    cases compiled
    rw [final] at hsql
    have written := Change.written hsql
    refine ⟨sql, rfl, written, fun none => ?_⟩
    cases written with
    | restricted _ present => exact absurd none present
    | unrestricted _ _ allowed =>
      rw [Change.allowsFullTable_withPredicate, gathered.allowed] at allowed
      rwa [Change.allowance_congr (change.filterKind_withPredicate _)]

/-- `row => row.column == p.column` -/
def rowMatches (column : String) : Node :=
  .arrow ["row"] (.binary "==" ((Node.identifier "row").dot column) ((Node.identifier "p").dot column))

/-- `(q, p) => q.update("users").set({ name: "x" }).where(row => row.id == p.id)` -/
def renameUser : Node :=
  (BuilderForm.lambda ["q", "p"]).build
    (((Node.identifier "q").invoke "update" [.literal (.str "users")]).withCalls
      [.of "set" (.object [.named "name" (.literal (.str "x")) false]), .of "where" (rowMatches "id")])

/-- A user is renamed by a plan to which a second condition is added, in the own organisation. -/
theorem change_keeps_conditions_renameUser :
    ∃ query first h plan w', renameUser.parseQuery = .ok query ∧
      Handle.ofQuery (.update .complete) ⟨some organisationFilters⟩ query = .ok first ∧
      first.Reaches [.of "where" (rowMatches "city")] h ∧
      h.finalize (.obj [("id", .int 1), ("city", .str "x")]) {} = .ok plan w' ∧
      ∃ started start conditions change added final, renameUser.Starts started start ∧
        started.Runs start (renameUser.methodCalls ++ [.of "where" (rowMatches "city")]) conditions
          change h.state.query.scope ∧
        change.Filtered ⟨some organisationFilters⟩ plan.params added ∧
        plan.operation = [final.step] ∧ final = change.withPredicate (allOf (conditions ++ added)) ∧
        final.predicate ≠ absent := by
  have succeeds : ∃ query first h plan w', renameUser.parseQuery = .ok query ∧
      Handle.ofQuery (.update .complete) ⟨some organisationFilters⟩ query = .ok first ∧
      first.call? "where" [rowMatches "city"] 0 = some (.ok h) ∧
      h.finalize (.obj [("id", .int 1), ("city", .str "x")]) {} = .ok plan w' :=
    ⟨_, _, _, _, _, rfl, rfl, rfl, rfl⟩
  obtain ⟨query, first, h, plan, w', parsed, defined, called, finalized⟩ := succeeds
  have reached : first.Reaches [.of "where" (rowMatches "city")] h := .call .nil called
  have remembers : Schema.Remembers ⟨some organisationFilters⟩ {} := fun _ _ => .empty
  obtain ⟨started, start, conditions, change, added, final, starts, runs, -, filtered, operation, same,
    none, -⟩ := change_keeps_conditions rfl parsed defined reached remembers finalized
  refine ⟨query, first, h, plan, w', parsed, defined, reached, finalized, started, start, conditions,
    change, added, final, starts, runs, filtered, operation, same, fun absurd => ?_⟩
  exact (none.1 absurd).1 (.of "where" (rowMatches "city")) (by simp) rfl

end FluentQuery
