import FluentQuery.Proofs.Plan.Incremental
import FluentQuery.Proofs.Sql.Erasure
import FluentQuery.Proofs.Sql.UpdateText

/-!
# Queries whether some or every row satisfies a predicate

Such a query asks for the existence of rows.  It has all the filters of its chain, but no other clause:
what groups the rows or cuts them off is not written, and the query is the one of the chain without it
(`truth_queries_see_filters_only`).
-/

namespace FluentQuery

set_option autoImplicit false

open Operation (chain)

namespace Clause

/-- The steps that a query for a truth value reads. -/
def isTested : Step → Bool
  | .fromSource _ _ _ _ | .join _ _ _ _ _ | .groupJoin _ _ _ _ _ _ | .selectMany _ _ _ _ _
  | .filter _ | .terminal _ _ => true
  | _ => false

/-- What a step that groups rows or cuts them off has to say: the word that its clause starts with, and
the expressions after it. -/
def cut? : Step → Option (String × List Expr)
  | .groupBy (.object properties) => some ("GROUP BY ", properties.map Prod.snd)
  | .groupBy key => some ("GROUP BY ", [key])
  | .page .take count => some ("LIMIT ", [count])
  | .page .skip count => some ("OFFSET ", [count])
  | _ => none

end Clause

namespace Sql

theorem keepsTests_isTested : KeepsTests Clause.isTested where
  isFrom step isFrom := by
    cases step <;> first | rfl | cases isFrom
  join _ _ _ _ _ := rfl
  groupJoin _ _ _ _ _ _ := rfl
  selectMany _ _ _ _ _ := rfl
  filter _ := rfl
  terminal _ _ := rfl

/-- The clauses of all steps of a chain that group rows or cut them off. -/
def cutClauses (scope : SqlScope) : List Step → Except CompileError (List Fragment)
  | [] => .ok []
  | step :: rest =>
    match Clause.cut? step with
    | none => cutClauses scope rest
    | some (word, es) => do
      let parts ← unplaced (Expr.sqlList scope .value es)
      return (Fragment.text word ++ Fragment.separated ", " parts) :: (← cutClauses scope rest)

/-- The condition that a query for a truth value adds: that a row satisfies the predicate, or that it
refutes it. -/
inductive Tests (scope : SqlScope) : TerminalKind → Expr → List Fragment → Prop
  | any {kind : TerminalKind} {predicate : Expr} {condition : Fragment} (isAny : kind ≠ .all)
      (sql : predicate.sql scope .predicate = .ok condition) : Tests scope kind predicate [condition]
  | some {kind : TerminalKind} (isAny : kind ≠ .all) : Tests scope kind .absent []
  | all {predicate : Expr} {condition : Fragment}
      (sql : predicate.sql scope .predicate = .ok condition) :
      Tests scope .all predicate [Fragment.text "NOT (" ++ condition ++ Fragment.text ")"]

/-- The text of a query for a truth value with the given clauses after its conditions. -/
def truthText (kind : TerminalKind) (sources conditions more : List Fragment) : Fragment :=
  SelectChain.truthQuery (if kind = .all then "NOT EXISTS" else "EXISTS") <|
    Fragment.separated " " (Fragment.text "SELECT 1" ::
      (sources ++ SelectChain.whereOf conditions ++ more))

/-- The parts of a query for a truth value: where its rows come from, all the filters of its chain, and
its own condition. -/
structure TruthParts (c : SelectChain) (kind : TerminalKind) (predicate : Expr)
    (sources : List Fragment) (scope : SqlScope) (filters own : List Fragment) : Prop where
  sources : c.sources = .ok (sources, scope)
  filters : List.Forall₂ (fun e condition => e.sql scope .predicate = .ok condition)
    (Clause.filters c.steps) filters
  own : Tests scope kind predicate own

theorem forall₂_sqlList {scope : SqlScope} {position : Position} {es : List Expr}
    {fs : List Fragment} (h : Expr.sqlList scope position es = .ok fs) :
    List.Forall₂ (fun e f => e.sql scope position = .ok f) es fs := by
  induction es generalizing fs with
  | nil =>
    cases h
    exact .nil
  | cons e rest ih =>
    obtain ⟨f, hf, h⟩ := outcome_bind_eq_ok.1 h
    obtain ⟨fs, hfs, h⟩ := outcome_bind_eq_ok.1 h
    cases h
    exact .cons hf (ih hfs)

/-- Expressions are rendered one after the other. -/
theorem sqlList_append_eq_ok {scope : SqlScope} {position : Position} {es es' : List Expr}
    {fs : List Fragment} (h : Expr.sqlList scope position (es ++ es') = .ok fs) :
    ∃ gs gs', fs = gs ++ gs' ∧ Expr.sqlList scope position es = .ok gs ∧
      Expr.sqlList scope position es' = .ok gs' := by
  induction es generalizing fs with
  | nil => exact ⟨[], fs, rfl, rfl, h⟩
  | cons e rest ih =>
    obtain ⟨f, hf, h⟩ := outcome_bind_eq_ok.1 h
    obtain ⟨others, hothers, h⟩ := outcome_bind_eq_ok.1 h
    cases h
    obtain ⟨gs, gs', rfl, hgs, hgs'⟩ := ih hothers
    refine ⟨f :: gs, gs', rfl, ?_, hgs'⟩
    exact outcome_bind_eq_ok.2 ⟨f, hf, outcome_bind_eq_ok.2 ⟨gs, hgs, rfl⟩⟩

/-! ### What is written -/

namespace SelectChain

variable {c : SelectChain} {kind : TerminalKind} {predicate : Expr} {text : Fragment}

theorem anyQuery_eq_ok (isAny : kind ≠ .all) (h : c.anyQuery predicate = .ok text) :
    ∃ sources scope filters own, TruthParts c kind predicate sources scope filters own ∧
      text = truthText kind sources (filters ++ own) [] := by
  unfold anyQuery at h
  obtain ⟨-, -, h⟩ := outcome_bind_eq_ok.1 h
  obtain ⟨⟨sources, scope⟩, hsources, h⟩ := outcome_bind_eq_ok.1 h
  obtain ⟨conditions, hconditions, h⟩ := outcome_bind_eq_ok.1 h
  cases h
  obtain ⟨filters, own, rfl, hfilters, hown⟩ := sqlList_append_eq_ok (unplaced_eq_ok hconditions)
  refine ⟨sources, scope, filters, own, ⟨hsources, forall₂_sqlList hfilters, ?_⟩, ?_⟩
  · split at hown
    · rename_i isAbsent
      cases hown
      cases predicate <;> first | exact .some isAny | cases isAbsent
    · obtain ⟨condition, hcondition, h⟩ := outcome_bind_eq_ok.1 hown
      cases h
      exact .any isAny hcondition
  · simp [truthText, isAny]

theorem allQuery_eq_ok (h : c.allQuery predicate = .ok text) :
    ∃ sources scope filters own, TruthParts c .all predicate sources scope filters own ∧
      text = truthText .all sources (filters ++ own) [] := by
  unfold allQuery at h
  obtain ⟨-, -, h⟩ := outcome_bind_eq_ok.1 h
  obtain ⟨⟨sources, scope⟩, hsources, h⟩ := outcome_bind_eq_ok.1 h
  obtain ⟨filters, hfilters, h⟩ := outcome_bind_eq_ok.1 h
  dsimp only at h
  split at h
  · cases h
  obtain ⟨condition, hcondition, h⟩ := outcome_bind_eq_ok.1 h
  cases h
  refine ⟨sources, scope, filters, _, ⟨hsources, forall₂_sqlList (unplaced_eq_ok hfilters),
    .all (unplaced_eq_ok hcondition)⟩, ?_⟩
  simp [truthText]

/-- A query for a truth value is made of the sources, all filters and its own condition. -/
theorem truthParts_of_statement
    (asks : Clause.terminal? [.any, .all] c.steps = some (kind, predicate))
    (h : c.statement = .ok text) :
    ∃ sources scope filters own, TruthParts c kind predicate sources scope filters own ∧
      text = truthText kind sources (filters ++ own) [] := by
  unfold statement at h
  rw [asks] at h
  cases kind with
  | all => exact allQuery_eq_ok h
  | _ => exact anyQuery_eq_ok nofun h

end SelectChain

/-! ### What is left out -/

theorem separated_cons {separator : String} (f : Fragment) {rest : List Fragment} (ne : rest ≠ []) :
    Fragment.separated separator (f :: rest) =
      f ++ Fragment.text separator ++ Fragment.separated separator rest := by
  cases rest with
  | nil => exact absurd rfl ne
  | cons => rfl

theorem separated_append {separator : String} {fs gs : List Fragment} (ne : fs ≠ []) (more : gs ≠ []) :
    Fragment.separated separator (fs ++ gs) = Fragment.separated separator fs ++
      (Fragment.text separator ++ Fragment.separated separator gs) := by
  induction fs with
  | nil => exact absurd rfl ne
  | cons f rest ih =>
    by_cases last : rest = []
    · subst last
      rw [List.cons_append, List.nil_append, separated_cons f more, List.append_assoc]
      rfl
    · rw [List.cons_append, separated_cons f (by simp [last]), separated_cons f last, ih last]
      simp only [List.append_assoc]

/-- Further clauses make another text. -/
theorem truthText_eq_iff {kind : TerminalKind} {sources conditions more : List Fragment} :
    truthText kind sources conditions [] = truthText kind sources conditions more ↔ more = [] := by
  constructor
  · -- A further clause makes the text longer, be it by the blank before it.
    intro same
    by_contra there
    have same := List.append_cancel_left (List.append_cancel_right same)
    have more : Fragment.separated " " (Fragment.text "SELECT 1" :: (sources ++
          SelectChain.whereOf conditions ++ more)) =
        Fragment.separated " " (Fragment.text "SELECT 1" :: (sources ++
          SelectChain.whereOf conditions)) ++ (Fragment.text " " ++ Fragment.separated " " more) :=
      separated_append (List.cons_ne_nil _ _) there
    have longer := congrArg List.length same
    rw [List.append_nil, more] at longer
    simp [Fragment.text] at longer
  · rintro rfl
    rfl

/-- There are as many clauses as steps that group rows or cut them off. -/
theorem length_cutClauses {scope : SqlScope} {steps : List Step} {cuts : List Fragment}
    (h : cutClauses scope steps = .ok cuts) :
    cuts.length = steps.countP fun step => (Clause.cut? step).isSome := by
  induction steps generalizing cuts with
  | nil =>
    cases h
    rfl
  | cons step rest ih =>
    unfold cutClauses at h
    cases cut : Clause.cut? step with
    | none =>
      rw [cut] at h
      rw [ih h, List.countP_cons_of_neg (by simp [cut])]
    | some clause =>
      rw [cut] at h
      obtain ⟨parts, -, h⟩ := outcome_bind_eq_ok.1 h
      obtain ⟨others, hothers, h⟩ := outcome_bind_eq_ok.1 h
      cases h
      rw [List.length_cons, ih hothers, List.countP_cons_of_pos (by simp [cut])]

theorem cutClauses_of_none {scope : SqlScope} {steps : List Step}
    (none : ∀ step ∈ steps, Clause.cut? step = none) : cutClauses scope steps = .ok [] := by
  induction steps with
  | nil => rfl
  | cons step rest ih =>
    rw [List.forall_mem_cons] at none
    rw [cutClauses, none.1]
    exact ih none.2

/-- A text without further clauses is that of the whole chain exactly if no step asks for one. -/
theorem truthText_whole_iff {scope : SqlScope} {steps : List Step} {kind : TerminalKind}
    {sources conditions : List Fragment} :
    (∃ cuts, cutClauses scope steps = .ok cuts ∧
      truthText kind sources conditions [] = truthText kind sources conditions cuts) ↔
      ∀ step ∈ steps, Clause.cut? step = none := by
  constructor
  · rintro ⟨cuts, hcuts, same⟩
    have count := length_cutClauses hcuts
    rw [truthText_eq_iff.1 same, List.length_nil, eq_comm, List.countP_eq_zero] at count
    exact fun step mem => by simpa using count step mem
  · exact fun none => ⟨[], cutClauses_of_none none, rfl⟩

end Sql

open Sql in
/-- A query whether some or every row satisfies a predicate is, in success and in failure, that of the
chain without its groupings, pages and everything else but sources, filters and terminal steps.  It is
made of the sources, every filter and its own condition; so the whole chain is written exactly if no
step groups the rows or cuts them off. -/
theorem truth_queries_see_filters_only {op : Operation} (reads : op.OnlyReads) {kind : TerminalKind}
    {predicate : Expr} (asks : Clause.terminal? [.any, .all] (chain op) = some (kind, predicate))
    (d : Dialect) (params : Json) :
    op.sql d params = (op.keeping Clause.isTested).sql d params ∧
    ∀ text, op.sql d params = .ok text → ∃ sources scope filters own,
      TruthParts (op.selectChain d params) kind predicate sources scope filters own ∧
      text = truthText kind sources (filters ++ own) [] ∧
      ((∃ cuts, cutClauses scope (chain op) = .ok cuts ∧
        text = truthText kind sources (filters ++ own) cuts) ↔
          ∀ step ∈ chain op, Clause.cut? step = none) := by
  have terminal : .terminal kind predicate ∈ chain op := (Clause.mem_terminal? asks).1
  have kept : (op.keeping Clause.isTested).sql d params =
      ((op.selectChain d params).erase Clause.isTested).statement :=
    reads.sql_keeping d params keepsTests_isTested.isFrom ⟨_, terminal, rfl⟩
  rw [reads.sql_eq_statement d params (List.ne_nil_of_mem terminal), kept]
  rw [← op.steps_selectChain d params] at asks
  refine ⟨(SelectChain.truth_erase _ keepsTests_isTested asks).symm, fun text written => ?_⟩
  obtain ⟨sources, scope, filters, own, parts, rfl⟩ :=
    SelectChain.truthParts_of_statement asks written
  exact ⟨sources, scope, filters, own, parts, rfl, truthText_whole_iff⟩

/-- The users, with further calls. -/
def usersWith (calls : List MethodCall) : Node :=
  (BuilderForm.lambda ["q"]).build (fromUsers.withCalls calls)

/-- `.any()` -/
def anyCall : MethodCall :=
  ⟨.identifier "any", false, []⟩

/-- Whether some active user is an editor. -/
theorem truth_queries_see_filters_only_editors :
    ∃ query predicate text sources scope filters own,
      (usersWith [.of "where" (columnOfRow "active"), .of "any" (columnOfRow "editor")]).parseQuery =
        .ok query ∧
      query.operation.sql .sqlite .null = .ok text ∧
      Sql.TruthParts (query.operation.selectChain .sqlite .null) .any predicate sources scope filters
        own ∧
      text = Sql.truthText .any sources (filters ++ own) [] ∧ filters.length = 1 ∧
      ∃ cuts, Sql.cutClauses scope (chain query.operation) = .ok cuts ∧
        text = Sql.truthText .any sources (filters ++ own) cuts := by
  have parses : ∃ query predicate text,
      (usersWith [.of "where" (columnOfRow "active"), .of "any" (columnOfRow "editor")]).parseQuery =
        .ok query ∧ query.operation.OnlyReads ∧
      Clause.terminal? [.any, .all] (chain query.operation) = some (.any, predicate) ∧
      query.operation.sql .sqlite .null = .ok text ∧
      (Clause.filters (chain query.operation)).length = 1 ∧
      ∀ step ∈ chain query.operation, Clause.cut? step = none :=
    ⟨_, _, _, rfl, by unfold Operation.OnlyReads; decide, rfl, rfl, rfl, by decide⟩
  obtain ⟨query, predicate, text, parsed, reads, asks, written, one, uncut⟩ := parses
  obtain ⟨sources, scope, filters, own, parts, same, whole⟩ :=
    (truth_queries_see_filters_only reads asks .sqlite .null).2 text written
  have count : filters.length = 1 := by
    rw [← parts.filters.length_eq, Operation.steps_selectChain, one]
  exact ⟨query, predicate, text, sources, scope, filters, own, parsed, written, parts, same, count,
    whole.2 uncut⟩

/-- Whether there are users beyond the first five, and whether the first five are all active, is
answered as if no row had been cut off. -/
theorem truth_queries_ignore_pages :
    (∃ query text, (usersWith [.of "skip" (.literal (.int 5)), anyCall]).parseQuery = .ok query ∧
      query.operation.sql .sqlite .null = .ok text ∧ text.render .sqlite =
        "SELECT CASE WHEN EXISTS(SELECT 1 FROM \"users\") THEN 1 ELSE 0 END") ∧
    ∃ query text, (usersWith [.of "take" (.literal (.int 5)),
        .of "all" (columnOfRow "active")]).parseQuery = .ok query ∧
      query.operation.sql .sqlite .null = .ok text ∧ text.render .sqlite =
        "SELECT CASE WHEN NOT EXISTS(SELECT 1 FROM \"users\" WHERE NOT (\"active\")) THEN 1 ELSE 0 END" :=
  ⟨⟨_, _, rfl, rfl, by decide +kernel⟩, ⟨_, _, rfl, rfl, by decide +kernel⟩⟩

end FluentQuery
