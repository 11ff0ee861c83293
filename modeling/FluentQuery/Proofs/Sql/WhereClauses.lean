import FluentQuery.Proofs.Plan.ResultKinds
import FluentQuery.Proofs.Resolve.Groups
import FluentQuery.Proofs.Sql.TableNumbers
import FluentQuery.Proofs.Sql.TruthQueries

/-!
# What WHERE clauses test

The WHERE clauses of a statement render the predicates of its steps, wherever these stand
(`Sql.SelectChain.writes_tests`), so a predicate over groups is tested before the rows are grouped.  Of
a parsed query no WHERE clause aggregates anything exactly if no predicate that was written over groups
does (`where_clauses_test_rows_iff`).
-/

namespace FluentQuery

set_option autoImplicit false

open Operation (chain)

namespace Step

/-- The expression by which a step narrows the rows: its predicate, or the value it searches for. -/
def tested? : Step → Option Expr
  | contains value => some value
  | step => step.predicate?

end Step

namespace Clause

/-- The expressions that the WHERE clauses of the statement of a chain render. -/
def tested (chain : List Step) : List Expr :=
  match terminal? [.any, .all] chain with
  | some (_, predicate) => filters chain ++ [predicate].filter (!·.isAbsent)
  | none =>
    match contained? chain with
    | some value => filters chain ++ [value]
    | none => predicates chain

theorem filters_append (before after : List Step) :
    filters (before ++ after) = filters before ++ filters after := by
  induction before with
  | nil => rfl
  | cons step rest ih => cases step <;> simp [filters, ih]

theorem filters_of_goesOn {steps : List Step} (goesOn : ∀ step ∈ steps, step.isTerminal = false) :
    filters steps = steps.filterMap Step.tested? := by
  induction steps with
  | nil => rfl
  | cons step rest ih =>
    obtain ⟨here, later⟩ := List.forall_mem_cons.1 goesOn
    cases step with
    | terminal | contains => cases here
    | filter => exact congrArg (_ :: ·) (ih later)
    | _ => exact ih later

/-- The WHERE clauses of a SELECT test what its steps test, in the order of the calls. -/
theorem tested_append {before : List Step} (goesOn : ∀ step ∈ before, step.isTerminal = false)
    (step : Step) : tested (before ++ [step]) = (before ++ [step]).filterMap Step.tested? := by
  have narrowed (kinds : List TerminalKind) := terminal?_append goesOn kinds [step]
  unfold tested predicates terminalPredicates
  simp only [narrowed, contained?_append goesOn, filters_append, filters_of_goesOn goesOn,
    List.filterMap_append]
  cases step with
  | terminal kind predicate =>
    have given : [predicate].filter (!·.isAbsent) =
        [Step.terminal kind predicate].filterMap Step.tested? := by
      cases present : predicate.isAbsent <;> simp [Step.tested?, Step.predicate?, present]
    cases kind <;> exact congrArg₂ (· ++ ·) (List.append_nil _) given
  | contains value => exact congrArg (· ++ [value]) (List.append_nil _)
  | _ => exact List.append_nil _

end Clause

namespace Operation

variable {op : Operation}

theorem Sound.tested_chain (h : op.Sound) :
    Clause.tested (chain op) = (chain op).filterMap Step.tested? := by
  cases h with
  | select selects =>
    obtain ⟨step, source, -, before, same, goesOn⟩ := selects.split_chain
    rw [same, Clause.tested_append goesOn]
  | @change step isCrud =>
    cases step with
    | insert | update | delete => rfl
    | _ => cases isCrud

end Operation

/-! ### What is written -/

namespace Sql

/-- The text of a statement, with the expressions that its WHERE clauses test.  A search compares its
value outside the query that it searches. -/
inductive WritesTests (c : SelectChain) : List Expr → Fragment → Prop where
  | rows {sources conditions groupBy orderBy paging : List Fragment} {scope : SqlScope}
      {projection : Fragment} (sourced : c.sources = .ok (sources, scope))
      (projected : c.projection scope = .ok projection)
      (tests : List.Forall₂ (fun e condition => e.sql scope .predicate = .ok condition)
        (Clause.predicates c.steps) conditions)
      (grouped : c.groupBy scope = .ok groupBy) (ordered : c.orderBy scope = .ok orderBy)
      (paged : c.paging scope = .ok paging) :
      WritesTests c (Clause.predicates c.steps) (Fragment.separated " "
        ((Fragment.text "SELECT " ++ projection) ::
          (sources ++ SelectChain.whereOf conditions ++ groupBy ++ orderBy ++ paging)))
  | truth {kind : TerminalKind} {predicate : Expr} {sources filters own : List Fragment}
      {scope : SqlScope} (parts : TruthParts c kind predicate sources scope filters own) :
      WritesTests c (Clause.filters c.steps ++ [predicate].filter (!·.isAbsent))
        (truthText kind sources (filters ++ own) [])
  | search {selector value : Expr} {sources conditions groupBy : List Fragment} {scope : SqlScope}
      {selected sought : Fragment} (sourced : c.sources = .ok (sources, scope))
      (projected : selector.sql scope .value = .ok selected)
      (tests : List.Forall₂ (fun e condition => e.sql scope .predicate = .ok condition)
        (Clause.filters c.steps) conditions)
      (grouped : c.groupBy scope = .ok groupBy) (compared : value.sql scope .value = .ok sought) :
      WritesTests c (Clause.filters c.steps ++ [value]) <| SelectChain.truthQuery "EXISTS" <|
        Fragment.text "SELECT 1 FROM (" ++ Fragment.separated " "
          ((Fragment.text "SELECT " ++ selected ++ Fragment.text " AS \"__sqlforge_value\"") ::
            (sources ++ SelectChain.whereOf conditions ++ groupBy)) ++
          Fragment.text
            ") AS \"__sqlforge_contains\" WHERE \"__sqlforge_contains\".\"__sqlforge_value\" = " ++
          sought

namespace SelectChain

variable {c : SelectChain} {text : Fragment}

theorem writes_tests_of_selectQuery (h : c.selectQuery = .ok text) :
    WritesTests c (Clause.predicates c.steps) text := by
  obtain ⟨sources, scope, projection, tests, groupBy, orderBy, paging, sourced, projected, tested,
    grouped, ordered, paged, rfl⟩ := c.selecting_eq_ok h
  exact .rows sourced projected (forall₂_sqlList (unplaced_eq_ok tested)) grouped ordered paged

theorem writes_tests_of_containsQuery {value : Expr} (h : c.containsQuery value = .ok text) :
    WritesTests c (Clause.filters c.steps ++ [value]) text := by
  unfold containsQuery at h
  obtain ⟨-, -, h⟩ := outcome_bind_eq_ok.1 h
  dsimp only at h
  split at h
  · cases h
  obtain ⟨selector, -, h⟩ := outcome_bind_eq_ok.1 h
  obtain ⟨⟨sources, scope⟩, sourced, h⟩ := outcome_bind_eq_ok.1 h
  obtain ⟨selected, projected, h⟩ := outcome_bind_eq_ok.1 h
  obtain ⟨conditions, tests, h⟩ := outcome_bind_eq_ok.1 h
  obtain ⟨groupBy, grouped, h⟩ := outcome_bind_eq_ok.1 h
  obtain ⟨sought, compared, h⟩ := outcome_bind_eq_ok.1 h
  cases h
  exact .search sourced (unplaced_eq_ok projected) (forall₂_sqlList (unplaced_eq_ok tests)) grouped
    (unplaced_eq_ok compared)

/-- The WHERE clauses of a statement test what the steps of its chain test. -/
theorem writes_tests (h : c.statement = .ok text) : WritesTests c (Clause.tested c.steps) text := by
  unfold Clause.tested
  cases asks : Clause.terminal? [.any, .all] c.steps with
  | some truth =>
    obtain ⟨sources, scope, filters, own, parts, rfl⟩ := truthParts_of_statement asks h
    exact .truth parts
  | none =>
    unfold statement at h
    rw [asks] at h
    dsimp only at h ⊢
    cases searches : Clause.contained? c.steps with
    | some value =>
      rw [searches] at h
      exact writes_tests_of_containsQuery h
    | none =>
      rw [searches] at h
      exact writes_tests_of_selectQuery h

end SelectChain

end Sql

/-! ### Tests of rows and of groups -/

namespace Operation

variable {op : Operation}

/-- No WHERE clause of a query aggregates anything. -/
def TestsRows (op : Operation) : Prop :=
  ∀ holder part, Part none op holder part → ∀ e ∈ Clause.tested (chain part), e.hasAggregate = false

/-- No predicate over groups aggregates anything. -/
def AggregatesInNoTest (op : Operation) : Prop :=
  op.Everywhere fun step earlier =>
    grouped earlier = true → ∀ e ∈ step.tested?, e.hasAggregate = false

instance (op : Operation) : Decidable op.AggregatesInNoTest :=
  decidable_of_iff (passes (fun step earlier =>
      !grouped earlier || step.tested?.all (!·.hasAggregate)) op) <| by
    rw [passes_iff, AggregatesInNoTest]
    refine everywhere_congr fun step earlier => ?_
    cases step.tested? <;> simp [Decidable.imp_iff_not_or]

theorem GroupRule.tests {step : Step} {earlier : Operation} (rule : GroupRule step earlier)
    (ungrouped : grouped earlier = false) : ∀ e ∈ step.tested?, e.hasAggregate = false := by
  cases step with
  | contains value =>
    rintro _ ⟨⟩
    exact rule.sought value rfl
  | _ => exact rule.rows ungrouped

/-- The WHERE clauses of a normal form aggregate what the calls do in their tests. -/
theorem testsRows_normalize_iff (sound : (normalize op).Sound) :
    (normalize op).TestsRows ↔
      op.Everywhere fun step _ => ∀ e ∈ step.tested?, e.hasAggregate = false := by
  have statements : (normalize op).TestsRows ↔ ∀ holder part, Part none (normalize op) holder part →
      ∀ step ∈ chain part, ∀ e ∈ step.tested?, e.hasAggregate = false := by
    refine forall_congr' fun holder => forall_congr' fun part => forall_congr' fun read => ?_
    rw [(sound.part read).tested_chain]
    simp only [List.mem_filterMap]
    exact ⟨fun h step mem e is => h e ⟨step, mem, is⟩, fun h e ⟨step, mem, is⟩ => h step mem e is⟩
  have root (step : Step) (isFrom : step.isFrom = true) :
      ∀ e ∈ step.tested?, e.hasAggregate = false := by
    cases step with
    | fromSource => exact nofun
    | _ => cases isFrom
  simp only [statements, ← along_iff_forall root, ← everywhere_iff_along]
  refine everywhere_normalize_iff (fun step _ lowerable => ?_) (fun _ _ _ => .rfl) fun _ _ _ _ => .rfl
  have untested : step.tested? = none := by
    cases step <;> first | rfl | cases lowerable
  simp [untested]

end Operation

/-- A predicate that is written over rows aggregates nothing, so the WHERE clauses of a parsed query
aggregate something exactly if a predicate does that is written over groups.  What the WHERE clauses of
a statement render is what its steps test. -/
theorem where_clauses_test_rows_iff {builder : Node} {q : ParsedQuery}
    (parsed : builder.parseQuery = .ok q) :
    ∃ op, builder.written? = some op ∧ q.operation = op.normalize ∧
      (op.Everywhere fun step earlier =>
        Operation.grouped earlier = false → ∀ e ∈ step.tested?, e.hasAggregate = false) ∧
      (q.operation.TestsRows ↔ op.AggregatesInNoTest) ∧
      ∀ holder part, Operation.Part none q.operation holder part → part.OnlyReads →
        ∀ d params text, part.sql d params = .ok text →
          Sql.WritesTests (part.selectChain d params) (Clause.tested (chain part)) text := by
  obtain ⟨op, written, operation, -, reached⟩ :=
    Node.written_of_upheld Resolve.upheld_grouped (fun _ => Node.namesRows_rootScope) parsed
  have sound := (ParsedQuery.sound_parse parsed).operation
  refine ⟨op, written, operation, reached.rule.mono fun _ _ => (·.tests), ?_, ?_⟩
  · rw [operation] at sound ⊢
    rw [Operation.testsRows_normalize_iff sound]
    refine ⟨(·.mono fun _ _ here _ => here), fun groups => ?_⟩
    refine (reached.rule.and groups).mono fun step earlier ⟨rule, groups⟩ => ?_
    cases is : Operation.grouped earlier with
    | false => exact rule.tests is
    | true => exact groups is
  · intro holder part _ reads d params text sql
    cases part with
    | nil => cases sql
    | cons step earlier =>
      obtain ⟨rest, level⟩ := Operation.level_cons step earlier
      have ne : chain (step :: earlier) ≠ [] := by simp [chain, level]
      rw [reads.sql_eq_statement d params ne] at sql
      rw [← Operation.steps_selectChain d params (step :: earlier)]
      exact Sql.SelectChain.writes_tests sql

/-- `q.from("orders").groupBy((row) => row.city).where((g) => test).select((g) => g.key)` -/
def citiesWhere (test : Node) : Node :=
  (BuilderForm.lambda ["q"]).build <| (Node.fromTable "orders").withCalls
    [.of "groupBy" (columnOfRow "city"), .of "where" (.arrow ["g"] test),
      .of "select" (.arrow ["g"] (Node.columnOf "g" "key"))]

/-- `g.key === "Oslo"` -/
def isOslo : Node :=
  .binary "===" (Node.columnOf "g" "key") (.literal (.str "Oslo"))

/-- `g.count() > 5` -/
def hasMany : Node :=
  .binary ">" ((Node.identifier "g").invoke "count" []) (.literal (.int 5))

/-- The key of a group may be tested. -/
theorem where_clauses_test_rows_oslo : ∃ q, (citiesWhere isOslo).parseQuery = .ok q ∧
    q.operation.TestsRows := by
  have parses : (citiesWhere isOslo).parseQuery.isOk = true := by decide +kernel
  obtain ⟨q, parsed⟩ := outcome_isOk_iff.1 parses
  have plain : (citiesWhere isOslo).written?.any (fun op => op.AggregatesInNoTest) = true := by
    decide +kernel
  obtain ⟨op, written, -, -, iff, -⟩ := where_clauses_test_rows_iff parsed
  rw [written] at plain
  exact ⟨q, parsed, iff.2 (of_decide_eq_true plain)⟩

/-- A count of the rows of a group is tested before the rows are grouped. -/
theorem where_clause_counts_group : ∃ q text, (citiesWhere hasMany).parseQuery = .ok q ∧
    ¬ q.operation.TestsRows ∧ q.operation.sql .postgres .null = .ok text ∧
    text.render .postgres =
      "SELECT \"city\" FROM \"orders\" WHERE COUNT(*) > $(__p1) GROUP BY \"city\"" := by
  have tests : (citiesWhere hasMany).parseQuery.toOption.any (fun q : ParsedQuery =>
      ¬ ∀ e ∈ Clause.tested (chain q.operation), e.hasAggregate = false) = true := by decide +kernel
  have text : ((citiesWhere hasMany).parseQuery >>= fun q =>
      (·.render .postgres) <$> q.operation.sql .postgres .null) =
        .ok "SELECT \"city\" FROM \"orders\" WHERE COUNT(*) > $(__p1) GROUP BY \"city\"" := by
    decide +kernel
  obtain ⟨q, parsed, text⟩ := outcome_bind_eq_ok.1 text
  obtain ⟨fragment, written, rendered⟩ := outcome_map_eq_ok.1 text
  rw [parsed] at tests
  exact ⟨q, fragment, parsed, fun rows => of_decide_eq_true tests (rows none _ (.whole none _)),
    written, rendered⟩

end FluentQuery
