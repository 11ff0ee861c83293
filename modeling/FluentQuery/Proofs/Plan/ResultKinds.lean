import FluentQuery.Proofs.Plan.SoundPlans
import FluentQuery.Proofs.Sql.Forms

/-!
# How results are read

How the result of a statement is read is decided by its last step; how the statement is written, by
searching its chain.  The two agree because a terminal step only comes last
(`Operation.Sound.form_chain`), and so the rows, the number or the truth value that a caller expects of
a plan is what its SQL yields (`results_match_statements`).
-/

namespace FluentQuery

set_option autoImplicit false

/-! ### Searching chains -/

/-- A change is no SELECT that asks for a single value or a number of rows. -/
theorem ResultKind.form_ofReturning (returning : Expr) :
    (ResultKind.ofReturning returning).form = .rows none := by
  unfold ResultKind.ofReturning
  split <;> rfl

namespace Clause

variable {before : List Step}

section

variable (goesOn : ∀ step ∈ before, step.isTerminal = false)

include goesOn

theorem terminal?_append (kinds : List TerminalKind) (after : List Step) :
    terminal? kinds (before ++ after) = terminal? kinds after := by
  induction before with
  | nil => rfl
  | cons step rest ih =>
    obtain ⟨here, later⟩ := List.forall_mem_cons.1 goesOn
    cases step with
    | terminal => cases here
    | _ => exact ih later

theorem contained?_append (after : List Step) :
    contained? (before ++ after) = contained? after := by
  induction before with
  | nil => rfl
  | cons step rest ih =>
    obtain ⟨here, later⟩ := List.forall_mem_cons.1 goesOn
    cases step with
    | contains => cases here
    | _ => exact ih later

theorem aggregate?_append (kind : AggregateKind) (after : List Step) :
    aggregate? kind (before ++ after) = aggregate? kind after := by
  induction before with
  | nil => rfl
  | cons step rest ih =>
    obtain ⟨here, later⟩ := List.forall_mem_cons.1 goesOn
    cases step with
    | aggregate => cases here
    | _ => exact ih later

theorem asksTruth_append (after : List Step) : asksTruth (before ++ after) = asksTruth after := by
  unfold asksTruth
  rw [terminal?_append goesOn, contained?_append goesOn]

theorem firstAggregate?_append (after : List Step) :
    firstAggregate? (before ++ after) = firstAggregate? after := by
  unfold firstAggregate?
  simp only [aggregate?_append goesOn]

theorem aggregates_append (after : List Step) :
    aggregates (before ++ after) = aggregates after := by
  unfold aggregates
  rw [terminal?_append goesOn, firstAggregate?_append goesOn]

end

/-- A fixed number of rows is wanted by terminal steps only. -/
theorem most?_limit (d : Dialect) (chain : List Step) :
    (limit d chain).most? =
      if (terminal? [.single, .singleOrDefault] chain).isSome then some 2
      else if (terminal? [.first, .firstOrDefault] chain).isSome
          || (terminal? [.last, .lastOrDefault] chain).isSome then some 1
      else none := by
  unfold limit
  split
  · rfl
  · split
    · rfl
    · split
      · rfl
      · split <;> rfl

theorem most?_limit_append (goesOn : ∀ step ∈ before, step.isTerminal = false) (d : Dialect)
    (after : List Step) : (limit d (before ++ after)).most? = (limit d after).most? := by
  simp only [most?_limit, terminal?_append goesOn]

theorem form_append (goesOn : ∀ step ∈ before, step.isTerminal = false) (d : Dialect)
    (after : List Step) : form d (before ++ after) = form d after := by
  unfold form
  rw [asksTruth_append goesOn, aggregates_append goesOn, most?_limit_append goesOn]

/-- A single step is searched in no other way than it is looked at. -/
theorem form_singleton (d : Dialect) (step : Step) :
    form d [step] = (Operation.resultKind [step]).form := by
  unfold form
  rw [most?_limit]
  cases step with
  | terminal kind | aggregate kind => cases kind <;> rfl
  | insert s | update s => exact (ResultKind.form_ofReturning s.returning).symm
  | _ => rfl

/-- No step asks for an aggregate and for a fixed number of rows. -/
theorem most?_limit_singleton (d : Dialect) {step : Step} (h : aggregates [step] = true) :
    (limit d [step]).most? = none := by
  rw [most?_limit]
  cases step with
  | terminal kind => cases kind <;> first | rfl | cases h
  | _ => rfl

end Clause

/-! ### Chains -/

/-- The steps of a SELECT: its `from` comes first, a terminal step last. -/
structure Clause.IsSelectChain (chain : List Step) : Prop where
  source : ∃ first rest, chain = first :: rest ∧ first.isFrom = true ∧
    ∀ step ∈ rest, step.isFrom = false
  terminal : ∀ step ∈ chain.dropLast, step.isTerminal = false
  select : ∀ step ∈ chain, step.isCrud = false

namespace Operation

open Clause

variable {op : Operation}

/-- The last step decides how a result is read. -/
theorem resultKind_cons (step : Step) (source : Operation) :
    resultKind (step :: source) = resultKind [step] := by
  cases step <;> rfl

/-- Only the last step of a SELECT may be terminal. -/
theorem Selects.goesOn_tail (h : op.Selects) : ∀ step ∈ op.tail, step.isTerminal = false := by
  induction h with
  | start => exact List.forall_mem_nil _
  | @extend step source below goesOn _ _ _ _ _ ih =>
    cases source with
    | nil => exact List.forall_mem_nil _
    | cons last earlier => exact List.forall_mem_cons.2 ⟨goesOn last rfl, ih⟩

/-- The `from` of a SELECT comes before all other steps. -/
theorem Selects.source (h : op.Selects) : ∃ first rest, op.reverse = first :: rest ∧
    first.isFrom = true ∧ ∀ step ∈ rest, step.isFrom = false := by
  induction h with
  | @start step isFrom => exact ⟨step, [], rfl, isFrom, List.forall_mem_nil _⟩
  | @extend step source _ _ isFrom _ _ _ _ ih =>
    obtain ⟨first, rest, same, is, others⟩ := ih
    refine ⟨first, rest ++ [step], ?_, is, ?_⟩
    · rw [List.reverse_cons, same, List.cons_append]
    · exact List.forall_mem_append.2 ⟨others, List.forall_mem_singleton.2 isFrom⟩

theorem Selects.chain_eq (h : op.Selects) : chain op = op.reverse := by
  rw [chain, h.level_eq]

theorem Selects.isSelect (h : op.Selects) : IsSelectChain (chain op) := by
  rw [h.chain_eq]
  refine ⟨h.source, ?_, fun step mem => h.noCrud step (List.mem_reverse.1 mem)⟩
  rw [List.dropLast_reverse]
  exact fun step mem => h.goesOn_tail step (List.mem_reverse.1 mem)

/-- The chain of a SELECT is that of its last step, as far as searching for terminal steps goes. -/
theorem Selects.split_chain (h : op.Selects) : ∃ step source, op = step :: source ∧
    ∃ before, chain op = before ++ [step] ∧ ∀ step ∈ before, step.isTerminal = false := by
  cases op with
  | nil => exact absurd rfl h.ne_nil
  | cons step source =>
    refine ⟨step, source, rfl, source.reverse, ?_, ?_⟩
    · rw [h.chain_eq, List.reverse_cons]
    · exact fun step mem => h.goesOn_tail step (List.mem_reverse.1 mem)

/-- What a result is read as is what searching the chain finds. -/
theorem Sound.form_chain (h : op.Sound) (d : Dialect) :
    form d (chain op) = op.resultKind.form := by
  cases h with
  | select selects =>
    obtain ⟨step, source, rfl, before, same, goesOn⟩ := selects.split_chain
    rw [same, form_append goesOn, form_singleton, resultKind_cons step source]
  | @change step isCrud =>
    have single : chain [step] = [step] := by
      cases step with
      | insert | update | delete => rfl
      | _ => cases isCrud
    rw [single, form_singleton]

/-- An aggregate is not limited to a fixed number of rows. -/
theorem Selects.most?_limit (h : op.Selects) (d : Dialect) (asks : aggregates (chain op) = true) :
    (limit d (chain op)).most? = none := by
  obtain ⟨step, source, rfl, before, same, goesOn⟩ := h.split_chain
  rw [same, aggregates_append goesOn] at asks
  rw [same, most?_limit_append goesOn, most?_limit_singleton d asks]

/-- A SELECT is written in the form that its result is read in. -/
theorem Selects.writes_sql (h : op.Selects) (d : Dialect) (params : Json) :
    Returns op.resultKind.form.Writes (op.sql d params) := by
  cases op with
  | nil => exact absurd rfl h.ne_nil
  | cons step source =>
    have steps := steps_selectChain d params (step :: source)
    have written := (selectChain d params (step :: source)).writes_statement (by
      rw [steps]
      exact h.most?_limit d)
    rw [steps] at written
    rw [sql_eq_statement d params (h.noCrud step (List.mem_cons_self ..)),
      ← (Sound.select h).form_chain d]
    exact written

end Operation

/-! ### Statements -/

namespace ResultKind

/-- The form of a statement is the one that the reading of its result expects. -/
structure Fits (kind : ResultKind) (form : Form) : Prop where
  boolean : kind = .boolean ↔ form = .truth
  scalar : kind = .scalar ↔ form = .aggregate
  one : kind ∈ [firstRow, firstRowOrDefault, lastRow, lastRowOrDefault] ↔ form = .rows (some 1)
  two : kind ∈ [singleRow, singleRowOrDefault] ↔ form = .rows (some 2)

theorem fits_form (kind : ResultKind) : kind.Fits kind.form := by
  cases kind <;> constructor <;> decide

end ResultKind

/-- A statement is handed out as it is written, with the reading that its query asks for. -/
theorem Dialect.returns_prepare {post : Fragment → Prop} {d : Dialect} {query : BoundQuery}
    (h : Returns post (query.operation.sql d query.params)) :
    Returns (fun statement => statement.resultKind = query.operation.resultKind ∧
      ∃ text, post text ∧ statement.sql = text.render d) (d.prepare query) := by
  have text : Returns (fun result => ∃ text, post text ∧ result.sql = text.render d) (d.toSql query) :=
    .bind h fun text holds => .pure ⟨text, holds, rfl⟩
  unfold prepare
  exact .check (.bind text fun result shown => .pure ⟨rfl, shown⟩)

/-- How the result of a query is read, and how the query is written, agree. -/
structure Operation.ReadAsWritten (op : Operation) : Prop where
  /-- Only a whole query changes rows, in a single step; all else that is read is a SELECT. -/
  chains : (∃ step, op = [step] ∧ step.isCrud = true) ∨
    ∀ holder part, Part none op holder part → Clause.IsSelectChain (chain part)
  /-- Each SELECT has the form that its last step asks for. -/
  forms : ∀ holder part, Part none op holder part → ∀ d,
    part.resultKind.Fits (Clause.form d (chain part))
  /-- That form is written, and handed out with the reading of it. -/
  written : (∀ step ∈ op, step.isCrud = false) → ∀ d params,
    Returns (fun statement => statement.resultKind = op.resultKind ∧
        ∃ text, Form.Writes (Clause.form d (chain op)) text ∧ statement.sql = text.render d)
      (Dialect.prepare d ⟨op, params⟩)

theorem Operation.Sound.readAsWritten {op : Operation} (h : op.Sound) : op.ReadAsWritten := by
  refine ⟨?_, fun holder part read d => ?_, fun select d params => ?_⟩
  · cases h with
    | change isCrud => exact .inl ⟨_, rfl, isCrud⟩
    | select selects => exact .inr fun holder part read => (selects.part read).isSelect
  · rw [(h.part read).form_chain d]
    exact part.resultKind.fits_form
  · cases h with
    | @change step isCrud => cases isCrud.symm.trans (select step (List.mem_singleton_self _))
    | select selects =>
      have written := selects.writes_sql d params
      rw [← (Operation.Sound.select selects).form_chain d] at written
      exact Dialect.returns_prepare written

/-- Results are read as their statements yield them: in a parsed query, in its plan after any calls,
and in the finished plan with its filters. -/
theorem results_match_statements {builder : Node} {q : ParsedQuery}
    (parsed : builder.parseQuery = .ok q) {schema : Schema} {calls : List MethodCall}
    {state : PlanState} (extended : (PlanState.ofQuery q schema).appendAll calls = .ok state)
    {w w' : Workspace} (remembers : schema.Remembers w) {params : Json} {plan : FinalizedPlan}
    (finalized : state.finalize params w = .ok plan w') :
    q.operation.ReadAsWritten ∧ state.operation.ReadAsWritten ∧ plan.operation.ReadAsWritten := by
  have start := (ParsedQuery.sound_parse parsed).operation
  have sound := PlanState.sound_plan parsed extended
  have remembers' : state.schema.Remembers w := by
    rw [PlanState.schema_appendAll extended]
    exact remembers
  have final := PlanState.sound_finalize sound remembers' finalized
  exact ⟨start.readAsWritten, sound.readAsWritten, final.readAsWritten⟩

/-- The first adult user that is active, in the own organisation. -/
theorem results_match_statements_adultUsers : ∃ q state plan w,
    Session.planOf adultUsers [.of "first" (columnOfRow "active")] ⟨some organisationFilters⟩ .null {} =
        .ok (q, state, plan) w ∧
      (plan.operation.resultKind = .firstRow ∧
        Clause.form .postgres (Operation.chain plan.operation) = .rows (some 1)) ∧
      q.operation.ReadAsWritten ∧ state.operation.ReadAsWritten ∧ plan.operation.ReadAsWritten := by
  have succeeds : (match Session.planOf adultUsers [.of "first" (columnOfRow "active")]
      ⟨some organisationFilters⟩ .null {} with
    | .ok (_, _, plan) _ => decide (plan.operation.resultKind = .firstRow ∧
        Clause.form .postgres (Operation.chain plan.operation) = .rows (some 1))
    | .error _ _ => false) = true := by
    decide +kernel
  split at succeeds
  · rename_i q state plan w run
    obtain ⟨parsed, extended, finalized⟩ := Session.planOf_eq_ok run
    have remembers : Schema.Remembers ⟨some organisationFilters⟩ {} := fun _ _ => .empty
    exact ⟨q, state, plan, w, run, of_decide_eq_true succeeds,
      results_match_statements parsed extended remembers finalized⟩
  · cases succeeds

end FluentQuery
