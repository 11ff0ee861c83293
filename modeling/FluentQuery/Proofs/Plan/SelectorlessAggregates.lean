import FluentQuery.Proofs.Plan.ResultKinds
import FluentQuery.Proofs.Sql.Reversal

/-!
# Aggregates without a selector

A sum, an average, a minimum or a maximum may go without a selector where a scalar was selected.  A plan
looks for that scalar back from its last step, and no further than where rows were grouped or joined
(`Handle.projectsScalar_iff`); the statement takes the last `select` wherever it stands
(`Clause.lastSelector?_eq_some_iff`).  What a plan accepts is the query that the same calls are as one
builder, and its statement is the one of the rows with the scalar aggregated
(`Operation.Selects.aggregates_sql`).  Main statement: `selectorless_aggregates`.
-/

namespace FluentQuery

set_option autoImplicit false

open Operation (chain)

/-- The call of an aggregate without a selector. -/
def AggregateKind.call (kind : AggregateKind) : MethodCall :=
  ⟨.identifier kind.name, false, []⟩

/-- An expression that can be aggregated: it is there, and neither an object nor a whole row nor `*`. -/
structure Expr.IsScalar (e : Expr) : Prop where
  given : e.isAbsent = false
  object : e.isObject = false
  allColumns : e.isAllColumns = false
  reference : e.isReference = false

namespace Step

def isSelect : Step → Bool
  | select _ => true
  | _ => false

/-- Whether a step makes other rows of those before it, by grouping or joining them. -/
def regroups : Step → Bool
  | groupBy _ | join _ _ _ _ _ => true
  | _ => false

end Step

namespace Operation

/-- The last projection of a query is to the given expression, and the given steps come after it. -/
def Projected (op : Operation) (e : Expr) (after : List Step) : Prop :=
  ∃ before, chain op = before ++ .select e :: after ∧ ∀ step ∈ after, step.isSelect = false

/-- The rows of a query are scalars: it was projected to one, and its rows not grouped or joined
since. -/
def YieldsScalar (op : Operation) : Prop :=
  ∃ e after, op.Projected e after ∧ e.IsScalar ∧ ∀ step ∈ after, step.regroups = false

end Operation

/-! ### Looking for the scalar -/

namespace Clause

theorem lastSelector?_eq_none_iff {chain : List Step} :
    lastSelector? chain = none ↔ ∀ step ∈ chain, step.isSelect = false := by
  induction chain with
  | nil => simp [lastSelector?]
  | cons step rest ih => cases step <;> simp [lastSelector?, Step.isSelect, ih]

theorem lastSelector?_append {before after : List Step} {e : Expr}
    (last : ∀ step ∈ after, step.isSelect = false) :
    lastSelector? (before ++ .select e :: after) = some e := by
  induction before with
  | nil => simp [lastSelector?, lastSelector?_eq_none_iff.2 last]
  | cons step rest ih => cases step <;> simp [lastSelector?, ih]

/-- What the last `select` selects, wherever that stands. -/
theorem lastSelector?_eq_some_iff {chain : List Step} {e : Expr} :
    lastSelector? chain = some e ↔ ∃ before after,
      chain = before ++ .select e :: after ∧ ∀ step ∈ after, step.isSelect = false := by
  refine ⟨fun found => ?_, fun ⟨before, after, same, last⟩ => same ▸ lastSelector?_append last⟩
  induction chain with
  | nil => cases found
  | cons step rest ih =>
    cases later : lastSelector? rest with
    | some other =>
      obtain ⟨before, after, rfl, last⟩ : ∃ before after,
          rest = before ++ .select e :: after ∧ ∀ step ∈ after, step.isSelect = false := by
        refine ih ?_
        cases step <;> simp_all [lastSelector?]
      exact ⟨step :: before, after, rfl, last⟩
    | none =>
      cases step with
      | select selector =>
        simp only [lastSelector?, later, Option.getD_none, Option.some.injEq] at found
        exact ⟨[], rest, found ▸ rfl, lastSelector?_eq_none_iff.1 later⟩
      | _ => cases later.symm.trans found

end Clause

namespace Operation

variable {op : Operation}

theorem projected_iff {e : Expr} :
    Clause.lastSelector? (chain op) = some e ↔ ∃ after, op.Projected e after :=
  Clause.lastSelector?_eq_some_iff.trans exists_comm

/-- The scalars of a query are found back from its last step. -/
theorem yieldsScalar_iff : op.YieldsScalar ↔
    ∃ e, (level op).find? (fun step => step.isSelect || step.regroups) = some (.select e) ∧
      e.IsScalar := by
  have back (e : Expr) (after : List Step) : (∃ before, chain op = before ++ .select e :: after) ↔
      ∃ before, level op = after.reverse ++ .select e :: before := by
    constructor
    · rintro ⟨before, steps⟩
      refine ⟨before.reverse, ?_⟩
      rw [← List.reverse_reverse (level op), ← chain, steps]
      simp
    · rintro ⟨before, steps⟩
      refine ⟨before.reverse, ?_⟩
      rw [chain, steps]
      simp
  simp only [List.find?_eq_some_iff_append]
  constructor
  · rintro ⟨e, after, ⟨before, steps, last⟩, scalar, kept⟩
    obtain ⟨before', steps'⟩ := (back e after).1 ⟨before, steps⟩
    refine ⟨e, ⟨rfl, after.reverse, before', steps', fun step mem => ?_⟩, scalar⟩
    have mem := List.mem_reverse.1 mem
    simp [last step mem, kept step mem]
  · rintro ⟨e, ⟨-, later, before, steps, others⟩, scalar⟩
    have others : ∀ step ∈ later.reverse, step.isSelect = false ∧ step.regroups = false := by
      simpa using others
    obtain ⟨before', steps'⟩ := (back e later.reverse).2 ⟨before, by simpa using steps⟩
    exact ⟨e, later.reverse, ⟨before', steps', fun step mem => (others step mem).1⟩, scalar,
      fun step mem => (others step mem).2⟩

end Operation

theorem Expr.isScalar_iff {e : Expr} : e.IsScalar ↔
    (!(e.isAbsent || e.isObject || e.isAllColumns || e.isReference)) = true := by
  constructor
  · rintro ⟨given, object, allColumns, reference⟩
    simp [given, object, allColumns, reference]
  · intro h
    constructor <;> simp_all

/-- A plan accepts an aggregate without a selector if its rows are scalars. -/
theorem Handle.projectsScalar_iff {op : Operation} : projectsScalar op = true ↔ op.YieldsScalar := by
  rw [Operation.yieldsScalar_iff]
  induction op with
  | nil => simp [projectsScalar, Operation.level]
  | cons step earlier ih =>
    cases isFrom : step.isFrom with
    | true =>
      rw [Operation.level_from isFrom]
      cases step with
      | fromSource => simp [projectsScalar, Step.isSelect, Step.regroups]
      | _ => cases isFrom
    | false =>
      rw [Operation.level_step isFrom]
      cases step with
      | fromSource => cases isFrom
      | select selector =>
        simp [projectsScalar, Step.isSelect, Expr.isScalar_iff]
      | _ => simp [projectsScalar, Step.isSelect, Step.regroups, ih]

/-! ### The query -/

/-- An aggregate comes on top of the query that it is called on. -/
theorem Operation.normalize_aggregate (kind : AggregateKind) (op : Operation) :
    normalize (.aggregate kind .absent :: op) = .aggregate kind .absent :: normalize op := by
  have grown : Grows (.aggregate kind .absent) op (normalize (.aggregate kind .absent :: op)) :=
    grows_normalize rfl op
  generalize normalize (.aggregate kind .absent :: op) = normal at grown ⊢
  cases grown with
  | kept => rfl
  | dropped is | moved _ is | flattened _ _ _ _ _ _ _ _ _ _ _ _ is | crossed _ _ _ _ _ is => cases is

theorem AggregateKind.resolve_call (kind : AggregateKind) {op : Operation} (isOpen : op.IsOpen)
    (s : Scope) :
    kind.call.resolve op s = .ok (.aggregate kind .absent :: op) { s with method := kind.name } := by
  have called : Method.ofName? kind.call.name = some (.aggregate kind) := by cases kind <;> rfl
  unfold MethodCall.resolve Resolve.call
  rw [called]
  change (Resolve.requireSelect op >>= _) { s with method := kind.name } = _
  rw [Resolve.requireSelect_open isOpen]
  rfl

/-- The query of a plan with an aggregate without a selector. -/
def ParsedQuery.aggregated (q : ParsedQuery) (kind : AggregateKind) : ParsedQuery :=
  ⟨.aggregate kind .absent :: q.operation, { q.scope with method := kind.name }⟩

theorem ParsedQuery.append_aggregate {q : ParsedQuery} (isOpen : q.operation.IsOpen)
    (normal : q.operation.normalize = q.operation) (kind : AggregateKind) :
    q.append kind.name [] = .ok (q.aggregated kind) := by
  have ne : q.operation ≠ [] := by
    intro empty
    rw [empty] at isOpen
    exact isOpen
  refine (append_eq_ok ne kind.call).2 ⟨?_, _, kind.resolve_call isOpen q.scope, ?_⟩
  · cases kind <;> exact nofun
  · rw [Operation.normalize_aggregate, normal]
    rfl

/-- A plan that was built call by call takes an aggregate as the builder with all of the calls does. -/
theorem BuilderForm.parseQuery_aggregate (form : BuilderForm) {callee : Node}
    {rootArguments : List Node} {q : ParsedQuery}
    (parsed : (form.build (.call callee rootArguments)).parseQuery = .ok q) {schema : Schema}
    {calls : List MethodCall} {state : PlanState}
    (extended : (PlanState.ofQuery q schema).appendAll calls = .ok state)
    (isOpen : state.operation.IsOpen) (kind : AggregateKind) :
    (form.build (((Node.call callee rootArguments).withCalls calls).withCall kind.call)).parseQuery =
        .ok (state.query.aggregated kind) ∧
      state.append kind.name [] = .ok ⟨state.query.aggregated kind, state.schema⟩ := by
  have isCall : ((Node.call callee rootArguments).withCalls calls).IsCall :=
    Node.isCall_withCalls ⟨_, _, rfl⟩ calls
  obtain ⟨whole, -, -⟩ := (form.incremental_parse_iff callee rootArguments [] calls schema state).1
    (outcome_bind_eq_ok.2 ⟨q, parsed, extended⟩)
  obtain ⟨_, op, -, -, normal⟩ := (form.parseQuery_eq_ok isCall).1 whole
  have normal : state.query.operation.normalize = state.query.operation := by
    rw [normal, Operation.normalize_normalize]
  have appended := ParsedQuery.append_aggregate isOpen normal kind
  exact ⟨((form.parseQuery_withCall isCall kind.call whole).1 appended).1,
    PlanState.append_eq_ok.2 ⟨rfl, appended⟩⟩

theorem Handle.call?_aggregate (state : PlanState) (kind : AggregateKind) (count : Int) :
    (Handle.select state).call? kind.name [] count =
      some (aggregateProjected state kind.name) := by
  cases kind <;> rfl

/-! ### The statement -/

/-- An expression that is no object is written in a SELECT clause as it is anywhere else. -/
theorem Expr.projectionSql_eq {e : Expr} (given : e.isAbsent = false) (object : e.isObject = false)
    (scope : SqlScope) : e.projectionSql scope = e.sql scope .value := by
  unfold projectionSql
  rw [given, if_neg Bool.false_ne_true]
  unfold sql
  split <;> first | rfl | cases object

namespace Sql

/-- The outcomes of two statements, of which the second aggregates what the first selects.  Either both
fail alike, or both are written, and differ in the SELECT clause only. -/
inductive Aggregates (kind : AggregateKind) (e : Expr) :
    Except CompileError Fragment → Except CompileError Fragment → Prop where
  | refused (error : CompileError) : Aggregates kind e (.error error) (.error error)
  | written {scope : SqlScope} {selected : Fragment} (sql : e.sql scope .value = .ok selected)
      (distinct : Bool) (clauses : List Fragment) : Aggregates kind e
        (.ok (Fragment.separated " " ((Fragment.text "SELECT " ++
          (Fragment.text (if distinct then "DISTINCT " else "") ++ selected)) :: clauses)))
        (.ok (Fragment.separated " " ((Fragment.text "SELECT " ++
          (Fragment.text (aggregateKeyword kind ++ "(") ++ selected ++ Fragment.text ")")) :: clauses)))

variable {kind : AggregateKind} {e : Expr}

theorem Aggregates.bind {α : Type} (x : Except CompileError α)
    {f g : α → Except CompileError Fragment} (h : ∀ a, Aggregates kind e (f a) (g a)) :
    Aggregates kind e (x >>= f) (x >>= g) := by
  cases x with
  | error err => exact .refused err
  | ok a => exact h a

theorem Aggregates.isOk_eq {plain aggregated : Except CompileError Fragment}
    (h : Aggregates kind e plain aggregated) : plain.isOk = aggregated.isOk := by
  cases h <;> rfl

namespace SelectChain

variable {c : SelectChain}

/-- Two queries for the rows of a chain, of which one aggregates what the other selects. -/
theorem aggregates_selecting (c : SelectChain) (kind : AggregateKind) (e : Expr) (distinct : Bool) :
    Aggregates kind e
      (c.selecting fun scope => do
        return Fragment.text (if distinct then "DISTINCT " else "") ++
          (← unplaced (e.sql scope .value)))
      (c.selecting fun scope => do
        let operand ← unplaced (e.sql scope .value)
        return Fragment.text (aggregateKeyword kind ++ "(") ++ operand ++ Fragment.text ")") := by
  unfold selecting
  refine .bind _ fun _ => ?_
  dsimp only
  split
  · exact .refused _
  refine .bind _ fun (sources, scope) => ?_
  cases sql : e.sql scope .value with
  | error fault => exact .refused _
  | ok selected =>
    change Aggregates kind e (conditions scope _ >>= _) (conditions scope _ >>= _)
    refine .bind _ fun conditions => .bind _ fun groupBy => .bind _ fun orderBy =>
      .bind _ fun paging => ?_
    exact .written sql distinct (sources ++ whereOf conditions ++ groupBy ++ orderBy ++ paging)

end SelectChain

end Sql

namespace Clause

/-- Every step but an aggregate. -/
def isUnaggregated : Step → Bool
  | .aggregate _ _ => false
  | _ => true

theorem isUnaggregated_of_goesOn {step : Step} (goesOn : step.isTerminal = false) :
    isUnaggregated step = true := by
  cases step with
  | aggregate => cases goesOn
  | _ => rfl

theorem isScalar_iff {e : Expr} : isScalar e = true ↔
    e.isAbsent = false ∧ e.isObject = false ∧ e.isAllColumns = false := by
  simp [isScalar, and_assoc]

/-- The scalar is looked for in the steps before the aggregate. -/
theorem aggregateOperand_absent (kind : AggregateKind) (chain : List Step) :
    aggregateOperand kind .absent chain =
      match lastSelector? chain with
      | some e => if isScalar e then .ok e else .error (.aggregateWithoutSelector kind.name)
      | none => .error (.aggregateWithoutSelector kind.name) :=
  rfl

end Clause

theorem Sql.keepsRows_isUnaggregated : KeepsRows Clause.isUnaggregated where
  isFrom step isFrom := by
    cases step <;> first | rfl | cases isFrom
  join _ _ _ _ _ := rfl
  groupJoin _ _ _ _ _ _ := rfl
  selectMany _ _ _ _ _ := rfl
  filter _ := rfl
  terminal _ _ := rfl
  groupBy _ := rfl
  sort _ _ _ := rfl
  page _ _ := rfl

namespace Sql.SelectChain

variable {c : SelectChain} {before : List Step} {kind : AggregateKind}

/-- A chain of steps that go on, and an aggregate without a selector. -/
structure Ends (c : SelectChain) (before : List Step) (kind : AggregateKind) : Prop where
  steps : c.steps = before ++ [.aggregate kind .absent]
  goesOn : ∀ step ∈ before, step.isTerminal = false

namespace Ends

variable (h : c.Ends before kind)

include h

theorem steps_erase : (c.erase Clause.isUnaggregated).steps = before := by
  rw [c.steps_erase, h.steps, List.filter_append,
    List.filter_eq_self.2 fun step mem => Clause.isUnaggregated_of_goesOn (h.goesOn step mem)]
  exact List.append_nil before

theorem lastSelector? : Clause.lastSelector? c.steps = Clause.lastSelector? before := by
  rw [← h.steps_erase, c.steps_erase, Clause.lastSelector?_filter fun _ => rfl]

theorem terminal?_before (kinds : List TerminalKind) : Clause.terminal? kinds before = none := by
  simpa [Clause.terminal?] using Clause.terminal?_append h.goesOn kinds []

/-- The scalar selected last is aggregated. -/
theorem projection_eq : Clause.projection c.steps =
    .aggregate kind <$> Clause.aggregateOperand kind .absent before := by
  have first : Clause.firstAggregate? c.steps = some (kind, .absent) := by
    rw [h.steps, Clause.firstAggregate?_append h.goesOn]
    cases kind <;> rfl
  have counts : Clause.terminal? [.count, .longCount] c.steps = none := by
    rw [h.steps, Clause.terminal?_append h.goesOn]
    rfl
  unfold Clause.projection
  rw [counts, first]
  dsimp only
  rw [Clause.aggregateOperand_absent, h.lastSelector?, Clause.aggregateOperand_absent]

theorem statement_eq : c.statement = c.selecting c.projection := by
  refine statement_eq_selectQuery ?_ ?_
  · rw [h.steps, Clause.terminal?_append h.goesOn]
    rfl
  · rw [h.steps, Clause.contained?_append h.goesOn]
    rfl

/-- The statement without the aggregate. -/
theorem statement_erase : (c.erase Clause.isUnaggregated).statement =
    c.selecting (c.erase Clause.isUnaggregated).projection := by
  have searches : Clause.contained? before = none := by
    simpa [Clause.contained?] using Clause.contained?_append h.goesOn []
  rw [statement_eq_selectQuery (by rw [h.steps_erase, h.terminal?_before])
    (by rw [h.steps_erase, searches]), selectQuery_eq_selecting]
  refine congrFun (c.selecting_erase keepsRows_isUnaggregated ?_ ?_) _
  · exact Clause.isReversed_filter rfl _
  · exact Clause.reversesPage_filter rfl (fun _ _ => rfl) _

/-- The SELECT clause with the aggregate. -/
theorem projection_of_isScalar {e : Expr} (last : Clause.lastSelector? before = some e)
    (scalar : Clause.isScalar e = true) : c.projection = fun scope => do
      let operand ← unplaced (e.sql scope .value)
      return Fragment.text (aggregateKeyword kind ++ "(") ++ operand ++ Fragment.text ")" := by
  funext scope
  unfold projection
  rw [h.projection_eq, Clause.aggregateOperand_absent, last]
  dsimp only
  rw [if_pos scalar]
  rfl

/-- The SELECT clause without the aggregate. -/
theorem projection_erase {e : Expr} (last : Clause.lastSelector? before = some e)
    (given : e.isAbsent = false) (object : e.isObject = false) :
    (c.erase Clause.isUnaggregated).projection = fun scope => do
      return Fragment.text (if before.any Clause.isDistinct then "DISTINCT " else "") ++
        (← unplaced (e.sql scope .value)) := by
  have first : Clause.firstAggregate? before = none := by
    simpa [Clause.firstAggregate?, Clause.aggregate?] using Clause.firstAggregate?_append h.goesOn []
  funext scope
  unfold projection Clause.projection
  rw [h.steps_erase, h.terminal?_before, first, last]
  change (do return _ ++ (← unplaced (e.projectionSql scope)) : Except CompileError Fragment) = _
  rw [Expr.projectionSql_eq given object]

/-- The statement with the aggregate is the one without it, the scalar selected last aggregated. -/
theorem aggregates {e : Expr} (last : Clause.lastSelector? before = some e)
    (scalar : Clause.isScalar e = true) :
    Aggregates kind e (c.erase Clause.isUnaggregated).statement c.statement := by
  obtain ⟨given, object, -⟩ := Clause.isScalar_iff.1 scalar
  rw [h.statement_eq, h.statement_erase, h.projection_of_isScalar last scalar,
    h.projection_erase last given object]
  exact c.aggregates_selecting kind e (before.any Clause.isDistinct)

/-- Nothing else is aggregated. -/
theorem scalar_of_statement {text : Fragment} (written : c.statement = .ok text) :
    ∃ e, Clause.lastSelector? before = some e ∧ Clause.isScalar e = true := by
  have refused (err : SqlFault)
      (unselected : Clause.aggregateOperand kind .absent before = .error err) (scope : SqlScope) :
      ∃ e, c.projection scope = .error e := by
    unfold projection
    rw [h.projection_eq, unselected]
    exact ⟨_, rfl⟩
  rw [h.statement_eq] at written
  obtain ⟨-, scope, selected, -, -, -, -, -, projected, -⟩ := c.selecting_eq_ok written
  cases operand : Clause.aggregateOperand kind .absent before with
  | error err =>
    obtain ⟨e, failed⟩ := refused err operand scope
    cases failed.symm.trans projected
  | ok e =>
    rw [Clause.aggregateOperand_absent] at operand
    split at operand
    · split at operand
      · exact ⟨_, ‹_›, ‹_›⟩
      · cases operand
    · cases operand

end Ends

end Sql.SelectChain

/-! ### What a plan accepts -/

namespace Operation

variable {op : Operation}

theorem Selects.goesOn_chain (h : op.Selects) (isOpen : op.IsOpen) :
    ∀ step ∈ chain op, step.isTerminal = false := by
  rw [h.chain_eq]
  cases op with
  | nil => exact isOpen.elim
  | cons step source =>
    intro other mem
    rcases List.mem_cons.1 (List.mem_reverse.1 mem) with rfl | earlier
    · exact isOpen.2
    · exact h.goesOn_tail other earlier

variable (d : Dialect) (params : Json) (kind : AggregateKind)

theorem Selects.ends (h : op.Selects) (isOpen : op.IsOpen) :
    (selectChain d params (.aggregate kind .absent :: op)).Ends (chain op) kind where
  steps := by
    rw [steps_selectChain, chain, level_step rfl, List.reverse_cons, ← chain]
  goesOn := h.goesOn_chain isOpen

/-- A query is what is left of it when the aggregate on top of it is erased. -/
theorem Selects.sql_eq_erase (h : op.Selects) (isOpen : op.IsOpen) : op.sql d params =
    ((selectChain d params (.aggregate kind .absent :: op)).erase Clause.isUnaggregated).statement := by
  have kept : keeping Clause.isUnaggregated (.aggregate kind .absent :: op) = op := by
    unfold keeping
    rw [List.filter_cons_of_neg Bool.false_ne_true, List.filter_eq_self]
    refine fun step mem => Clause.isUnaggregated_of_goesOn (h.goesOn_chain isOpen step ?_)
    rwa [h.chain_eq, List.mem_reverse]
  rw [← selectChain_keeping d params Sql.keepsRows_isUnaggregated.isFrom, kept]
  cases op with
  | nil => exact isOpen.elim
  | cons step source => exact sql_eq_statement d params isOpen.1 source

theorem Selects.aggregates_sql (h : op.Selects) (isOpen : op.IsOpen) {e : Expr} {after : List Step}
    (projected : op.Projected e after) (scalar : e.IsScalar) :
    Sql.Aggregates kind e (op.sql d params)
      (Operation.sql d params (.aggregate kind .absent :: op)) := by
  rw [h.sql_eq_erase d params kind isOpen, sql_eq_statement d params rfl]
  exact (h.ends d params kind isOpen).aggregates (projected_iff.2 ⟨after, projected⟩)
    (Clause.isScalar_iff.2 ⟨scalar.given, scalar.object, scalar.allColumns⟩)

theorem Selects.scalar_of_sql (h : op.Selects) (isOpen : op.IsOpen) {text : Fragment}
    (written : Operation.sql d params (.aggregate kind .absent :: op) = .ok text) :
    ∃ e after, op.Projected e after ∧ (e.isReference = false → e.IsScalar) := by
  rw [sql_eq_statement d params rfl] at written
  obtain ⟨e, last, scalar⟩ := (h.ends d params kind isOpen).scalar_of_statement written
  obtain ⟨after, projected⟩ := projected_iff.1 last
  obtain ⟨given, object, allColumns⟩ := Clause.isScalar_iff.1 scalar
  exact ⟨e, after, projected, fun reference => ⟨given, object, allColumns, reference⟩⟩

end Operation

/-- What a plan makes of an aggregate without a selector, and the query that the same calls are as one
builder. -/
structure PlanState.AggregatesAs (state : PlanState) (kind : AggregateKind) (query : ParsedQuery) :
    Prop where
  /-- The plan accepts the call if its rows are scalars, and then is the query. -/
  accepts : state.operation.YieldsScalar → ∀ count,
    (Handle.select state).call? kind.name [] count = some (.ok (.terminal ⟨query, state.schema⟩))
  /-- Otherwise the plan asks for a selector. -/
  refuses : ¬ state.operation.YieldsScalar → ∀ count,
    (Handle.select state).call? kind.name [] count =
      some (.error ⟨SqlFault.aggregateWithoutSelector kind.name,
        ⟨"select", Operation.targetTable state.operation, kind.name⟩⟩)
  /-- The statement of the query is the one of the rows, with the scalar that was selected last
  aggregated. -/
  written : ∀ e after, state.operation.Projected e after → e.IsScalar → ∀ d params,
    Sql.Aggregates kind e (state.operation.sql d params) (query.operation.sql d params)
  /-- Nothing else is aggregated, whole rows apart. -/
  scalar : ∀ d params text, query.operation.sql d params = .ok text →
    ∃ e after, state.operation.Projected e after ∧ (e.isReference = false → e.IsScalar)
  /-- The plan accepts what can be written, if its rows can, and the last projection neither left them
  whole nor was followed by a grouping or a join. -/
  agrees : (∀ e after, state.operation.Projected e after →
      e.isReference = false ∧ ∀ step ∈ after, step.regroups = false) →
    ∀ d params, (state.operation.sql d params).isOk →
      (state.operation.YieldsScalar ↔ (query.operation.sql d params).isOk)

/-- A SELECT that can be extended takes an aggregate without a selector as the builder with the same
calls does, which is always parsed. -/
theorem selectorless_aggregates (form : BuilderForm) {callee : Node} {rootArguments : List Node}
    {q : ParsedQuery} (parsed : (form.build (.call callee rootArguments)).parseQuery = .ok q)
    {schema : Schema} {calls : List MethodCall} {state : PlanState}
    (extended : (PlanState.ofQuery q schema).appendAll calls = .ok state)
    (isOpen : state.operation.IsOpen) (kind : AggregateKind) :
    ∃ query : ParsedQuery,
      (form.build (((Node.call callee rootArguments).withCalls calls).withCall kind.call)).parseQuery =
        .ok query ∧ state.AggregatesAs kind query := by
  obtain ⟨whole, appended⟩ := form.parseQuery_aggregate parsed extended isOpen kind
  have selects : state.operation.Selects := (PlanState.sound_plan parsed extended).selects isOpen
  have written (e : Expr) (after : List Step) (projected : state.operation.Projected e after)
      (scalar : e.IsScalar) (d : Dialect) (params : Json) :=
    selects.aggregates_sql d params kind isOpen projected scalar
  refine ⟨state.query.aggregated kind, whole, fun yields count => ?_, fun other count => ?_, written,
    fun d params _ => selects.scalar_of_sql d params kind isOpen, fun ungrouped d params plain => ?_⟩
  · rw [Handle.call?_aggregate, Handle.aggregateProjected, if_pos (Handle.projectsScalar_iff.2 yields),
      appended]
    rfl
  · rw [Handle.call?_aggregate, Handle.aggregateProjected,
      if_neg (mt Handle.projectsScalar_iff.1 other)]
  · constructor
    · rintro ⟨e, after, projected, scalar, -⟩
      exact (written e after projected scalar d params).isOk_eq ▸ plain
    · intro isOk
      cases sql : (state.query.aggregated kind).operation.sql d params with
      | error => cases sql ▸ isOk
      | ok text =>
        obtain ⟨e, after, projected, scalar⟩ := selects.scalar_of_sql d params kind isOpen sql
        obtain ⟨reference, kept⟩ := ungrouped e after projected
        exact ⟨e, after, projected, scalar reference, kept⟩

/-- The plan of all users, with further calls. -/
def usersPlan (calls : List MethodCall) : Except CompileError PlanState := do
  let q ← ((BuilderForm.lambda ["q"]).build fromUsers).parseQuery
  (PlanState.ofQuery q {}).appendAll calls

/-- The same as one builder, with a sum at the end. -/
def usersSum (calls : List MethodCall) : Node :=
  (BuilderForm.lambda ["q"]).build ((fromUsers.withCalls calls).withCall AggregateKind.sum.call)

/-- `.select((row) => row.age)` -/
def selectAge : MethodCall :=
  .of "select" (columnOfRow "age")

/-- The ages of users have a sum. -/
theorem selectorless_aggregates_ages : ∃ state query, usersPlan [selectAge] = .ok state ∧
    (usersSum [selectAge]).parseQuery = .ok query ∧
    (Handle.select state).call? "sum" [] 0 = some (.ok (.terminal ⟨query, state.schema⟩)) := by
  have runs : ∃ q state, ((BuilderForm.lambda ["q"]).build fromUsers).parseQuery = .ok q ∧
      (PlanState.ofQuery q {}).appendAll [selectAge] = .ok state ∧ state.operation.IsOpen ∧
      Handle.projectsScalar state.operation = true := ⟨_, _, rfl, rfl, by decide, rfl⟩
  obtain ⟨q, state, parsed, extended, isOpen, projects⟩ := runs
  obtain ⟨query, whole, alike⟩ :=
    selectorless_aggregates (.lambda ["q"]) parsed extended isOpen .sum
  exact ⟨state, query, outcome_bind_eq_ok.2 ⟨q, parsed, extended⟩, whole,
    alike.accepts (Handle.projectsScalar_iff.1 projects) 0⟩

/-- A plan accepts the sum of ages that cannot be written because a page of them is reversed, and
refuses that of ages that were grouped, which can be written. -/
theorem selectorless_aggregates_differ :
    (∃ state total query e,
      usersPlan [selectAge, .of "take" (.literal (.int 5)), reverseCall] = .ok state ∧
      (Handle.select state).call? "sum" [] 0 = some (.ok total) ∧
      (usersSum [selectAge, .of "take" (.literal (.int 5)), reverseCall]).parseQuery =
        .ok query ∧
      query.operation.sql .postgres .null = .error e) ∧
    ∃ state e query text, usersPlan [selectAge, .of "groupBy" (columnOfRow "city")] = .ok state ∧
      (Handle.select state).call? "sum" [] 0 = some (.error e) ∧
      (usersSum [selectAge, .of "groupBy" (columnOfRow "city")]).parseQuery = .ok query ∧
      query.operation.sql .postgres .null = .ok text ∧
      text.render .postgres = "SELECT SUM(\"age\") FROM \"users\" GROUP BY \"city\"" :=
  ⟨⟨_, _, _, _, rfl, rfl, rfl, rfl⟩, ⟨_, _, _, _, rfl, rfl, rfl, rfl, by decide +kernel⟩⟩

end FluentQuery
