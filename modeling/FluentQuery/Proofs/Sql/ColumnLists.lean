import FluentQuery.Proofs.Sql.ColumnNames
import FluentQuery.Proofs.Sql.Faults
import FluentQuery.Proofs.Sql.NestedQueries
import FluentQuery.Proofs.Sql.TruthQueries

/-!
# Where a statement lists columns

A statement lists the columns of what it yields of each row: of its selector, of the key of its groups
if it has none, or of what it returns (`Operation.listings`).  Every other expression of it stands for
a value or is a predicate (`Operation.operands`, `Operation.assigned`).  Assigned values are written in
open positions too, so objects among them are listed where a value belongs.  Main statement:
`columns_are_of_projections_iff`, that the columns named in a text are those of the projections and of
the objects that stand for values.
-/

namespace FluentQuery

set_option autoImplicit false

open Sql Fragment

/-! ### The expressions of a statement -/

namespace Clause

/-- The keys by which the rows of a chain are grouped, one by one. -/
def groupingKeys (chain : List Step) : List Expr :=
  match groupKey? chain with
  | some (.object properties) => properties.map Prod.snd
  | some key => [key]
  | none => []

/-- The keys by which the rows of a chain are sorted. -/
def sortingKeys (chain : List Step) : List Expr :=
  match order chain with
  | .keys keys => keys.map Prod.fst
  | _ => []

/-- The numbers of rows that are given with a chain. -/
def givenCounts (d : Dialect) (chain : List Step) : List Expr :=
  (match limit d chain with
    | .given count => [count]
    | _ => []) ++ (page? .skip chain).toList

/-- The single values that a chain yields: what it aggregates, or the key of its groups. -/
def projectedValues (chain : List Step) : List Expr :=
  match projection chain with
  | .ok (.aggregate _ operand) => [operand]
  | .ok (.key key) => [key]
  | _ => []

/-- The expressions of which a SELECT lists the columns.  A search lists what it searches under a name
of its own. -/
def listings (chain : List Step) : List Expr :=
  match terminal? [.any, .all] chain with
  | some _ => []
  | none =>
    match contained? chain with
    | some _ => (lastSelector? chain).toList.map fun selector =>
        .object [("__sqlforge_value", selector)]
    | none =>
      match projection chain with
      | .ok (.selector selector) => [selector]
      | _ => []

/-- The other expressions of a SELECT. -/
def operands (d : Dialect) (chain : List Step) : List (Position × Expr) :=
  match terminal? [.any, .all] chain with
  | some (_, predicate) => (filters chain ++ [predicate]).map (.predicate, ·)
  | none =>
    match contained? chain with
    | some value =>
      (filters chain).map (.predicate, ·) ++ (groupingKeys chain ++ [value]).map (.value, ·)
    | none =>
      (predicates chain).map (.predicate, ·) ++
        (projectedValues chain ++ groupingKeys chain ++ sortingKeys chain ++ givenCounts d chain).map
          (.value, ·)

end Clause

namespace Operation

/-- The values that are assigned, parameters that are left out not among them. -/
def assignedValues (params : Json) (assignments : Option Assignments) : List Expr :=
  (Assignments.given params (assignments.getD [])).map Prod.snd

/-- The values that are assigned to rows that are already there. -/
def conflictValues (params : Json) : Option OnConflict → List Expr
  | some ⟨_, .update, assignments⟩ => assignedValues params assignments
  | _ => []

/-- The expressions of which a statement lists the columns. -/
def listings : Operation → List Expr
  | .insert s :: _ => [s.returning]
  | .update s :: _ => [s.returning]
  | .delete _ :: _ => []
  | op => Clause.listings (chain op)

/-- The values that a statement assigns to columns. -/
def assigned (params : Json) : Operation → List Expr
  | .insert s :: _ => assignedValues params s.values ++ conflictValues params s.onConflict
  | .update s :: _ => assignedValues params s.assignments
  | _ => []

/-- The other expressions of a statement. -/
def operands (d : Dialect) : Operation → List (Position × Expr)
  | .insert _ :: _ => []
  | .update s :: _ => [(.predicate, s.predicate)]
  | .delete s :: _ => [(.predicate, s.predicate)]
  | op => Clause.operands d (chain op)

/-- The expressions of a statement, in the positions in which they are written. -/
def slots (d : Dialect) (params : Json) (op : Operation) : List (Position × Expr) :=
  (op.listings ++ op.assigned params).map (.open, ·) ++ op.operands d

/-- The queries nested in a statement. -/
def subqueries : Operation → List Operation
  | .insert _ :: _ | .update _ :: _ | .delete _ :: _ => []
  | op => (level op).filterMap writtenQuery?

theorem sizeOf_lt_of_mem_subqueries {op q : Operation} (h : q ∈ op.subqueries) :
    sizeOf q < sizeOf op := by
  have below (h : q ∈ (level op).filterMap writtenQuery?) : sizeOf q < sizeOf op := by
    obtain ⟨step, mem, written⟩ := List.mem_filterMap.1 h
    exact Nat.lt_trans (sizeOf_writtenQuery?_lt written) (sizeOf_lt_of_mem_level mem)
  unfold subqueries at h
  split at h
  · cases h
  · cases h
  · cases h
  · exact below h

/-- The statements in the text of an operation: its own and those nested in it. -/
def statements (op : Operation) : List Operation :=
  op :: op.subqueries.attach.flatMap fun q => q.1.statements
termination_by sizeOf op
decreasing_by exact sizeOf_lt_of_mem_subqueries q.2

/-- The statements of an operation are its own and those of its queries. -/
theorem statements_eq (op : Operation) :
    op.statements = op :: op.subqueries.flatMap statements := by
  rw [statements]
  simp only [List.flatMap_subtype, List.unattach_attach]

end Operation

/-! ### Clauses -/

namespace Sql

variable {scope : SqlScope} {params : Json}

/-- The expressions of the query that is written for a step, and of those nested in it. -/
def innerSlots (d : Dialect) (params : Json) (step : Step) : List (Position × Expr) :=
  (writtenQuery? step).toList.flatMap fun q => q.statements.flatMap (Operation.slots d params)

/-- A step without a query has no slots inside. -/
theorem innerSlots_of_none (d : Dialect) {step : Step} (h : writtenQuery? step = none) :
    innerSlots d params step = [] := by
  rw [innerSlots, h]
  rfl

/-- A base table has no expressions. -/
theorem innerSlots_base (d : Dialect) (table schema aliasHint : String) :
    innerSlots d params (.fromSource table schema [] aliasHint) = [] := by
  rw [innerSlots, writtenQuery?, Option.toList_some, List.flatMap_singleton, Operation.statements_eq]
  rfl

/-- A table that is joined has no slots inside. -/
theorem innerSlots_joinedBase (d : Dialect) (kind : JoinKind) (table schema aliasHint : String)
    (keys : JoinKeys) (selector : Expr) (shape : Option ResultShape) :
    innerSlots d params (.join kind [.fromSource table schema [] aliasHint] keys selector shape) =
      [] := by
  have base : Operation.subqueries [.fromSource table schema [] aliasHint] = [[]] := rfl
  rw [innerSlots, writtenQuery?, Option.toList_some, List.flatMap_singleton, Operation.statements_eq,
    base, List.flatMap_singleton, Operation.statements_eq]
  · cases d <;> rfl
  · simp

/-- A projection fills one slot for a list of columns. -/
theorem fills_projectionSql (selector : Expr) :
    Returns (fun f => Fills scope.params f [(.open, selector)]) (selector.projectionSql scope) := by
  unfold Expr.projectionSql
  split
  · rename_i isAbsent
    cases selector <;> first | cases isAbsent
    exact .ok (.node rfl (.nil rfl))
  · exact Expr.fills_sql selector .open

/-- The texts of a list fill one slot each. -/
theorem fills_sqls (position : Position) (es : List Expr) :
    Returns (fun fs => Fills scope.params fs.flatten (es.map (position, ·)))
      (Expr.sqlList scope position es) :=
  fills_sqlList position fun e _ => Expr.fills_sql e

/-- The alias of a derived table is the name of no column. -/
theorem named_derivedTable (query : Fragment) (name : String) :
    (derivedTable query name).named = query.named := by
  have opening : (text "(").named = 0 := rfl
  have closing : (text (") AS " ++ quoteIdentifier name)).named = 0 := named_text_append _ (by decide)
  simp [derivedTable, opening, closing]

/-- What is true of every step of a chain with its nested query: the text of the query is written for
the expressions in it. -/
def FillsNested (d : Dialect) (params : Json) (r : RenderedStep) : Prop :=
  Returns (fun f => Fills params f (innerSlots d params r.step)) r.nested

namespace SelectChain

variable {c : SelectChain} {d : Dialect}

/-- A join fills the slots of its query. -/
theorem fills_joinClause (scope : SqlScope) (index : Nat) {kind : JoinKind} {inner : Operation}
    {keys : JoinKeys} {selector : Expr} {shape : Option ResultShape}
    {nested : Except CompileError Fragment}
    (h : FillsNested d params ⟨.join kind inner keys selector shape, nested⟩) :
    Returns (fun f => Fills params f (innerSlots d params (.join kind inner keys selector shape)))
      (joinClause scope ⟨kind, inner, keys, nested⟩ index) := by
  have keyword : (text (joinKeyword kind ++ " ")).named = 0 := by cases kind <;> rfl
  have target : Returns (fun f => Fills params f
      (innerSlots d params (.join kind inner keys selector shape)))
      (joinTarget ⟨kind, inner, keys, nested⟩ (tableAlias index)) := by
    unfold joinTarget
    dsimp only
    split
    · rw [innerSlots_joinedBase]
      rw [String.append_assoc]
      exact .ok (.nil (named_quoteTable_append _ _ _))
    · exact h.map fun f hf => hf.of_named (named_derivedTable f _)
  refine .bind target fun f hf => ?_
  dsimp only
  split
  · exact .pure (hf.of_named (by simp [keyword]))
  · refine .bind (.any _) fun outer _ => .pure (hf.of_named ?_)
    have condition (text : String) : (Fragment.text (" ON " ++ text)).named = 0 :=
      named_text_append _ (by decide)
    simp [keyword, String.append_assoc, condition]

/-- The joins fill the slots of their queries. -/
theorem fills_joinClauses (scope : SqlScope) {rendered : List RenderedStep}
    (h : ∀ r ∈ rendered, FillsNested d params r ∧ r.step.isFrom = false) (index : Nat) :
    Returns (fun fs => Fills params fs.flatten
        ((rendered.map RenderedStep.step).flatMap (innerSlots d params)))
      (joinClauses scope (joinSources rendered) index) := by
  induction rendered generalizing index with
  | nil => exact .ok (.nil rfl)
  | cons r rest ih =>
    obtain ⟨⟨nested, noFrom⟩, later⟩ := List.forall_mem_cons.1 h
    obtain ⟨step, text⟩ := r
    cases step with
    | join =>
      unfold joinSources joinClauses
      exact .bind (fills_joinClause scope index nested) fun _ h => .bind (ih later _) fun _ hrest =>
        .pure (h.append hrest)
    | fromSource => cases noFrom
    | _ =>
      rw [List.map_cons, List.flatMap_cons, innerSlots_of_none d rfl]
      exact ih later index

/-- A SELECT with its nested queries, of which the first step alone may say where its rows come from. -/
structure FillsSources (d : Dialect) (c : SelectChain) : Prop where
  nested : ∀ r ∈ c.rendered, FillsNested d c.params r
  single : ∀ r ∈ c.rendered.tail, r.step.isFrom = false

/-- The expressions nested in the steps of a chain. -/
def innerOf (d : Dialect) (c : SelectChain) : List (Position × Expr) :=
  c.steps.flatMap (innerSlots d c.params)

/-- FROM fills the slots of its query. -/
theorem fills_fromClause (hasJoins : Bool) (table schema : String) (subquery : Operation)
    (aliasHint : String) {nested : Except CompileError Fragment}
    (h : FillsNested d params ⟨.fromSource table schema subquery aliasHint, nested⟩) :
    Returns (fun found => Fills params found.1
        (innerSlots d params (.fromSource table schema subquery aliasHint)))
      (fromClause hasJoins table schema subquery aliasHint nested) := by
  have from' (more : String) : (text ("FROM " ++ more)).named = 0 := named_text_append _ (by decide)
  unfold fromClause
  split
  · rename_i empty
    rw [List.isEmpty_iff.1 empty, innerSlots_base]
    dsimp only
    split
    · simp only [String.append_assoc]
      exact .ok (.nil (from' _))
    · exact .ok (.nil (from' _))
  · refine .bind h fun f hf => .pure (hf.of_named ?_)
    have word : (text "FROM ").named = 0 := rfl
    simp [word, named_derivedTable]

/-- FROM and JOIN fill the slots inside. -/
theorem fills_sources (h : c.FillsSources d) :
    Returns (fun found => Fills c.params found.1.flatten (c.innerOf d) ∧ found.2.params = c.params)
      c.sources := by
  obtain ⟨dialect, params, rendered⟩ := c
  obtain ⟨nested, single⟩ := h
  unfold sources innerOf steps
  cases rendered with
  | nil => exact .error
  | cons r rest =>
    obtain ⟨step, text⟩ := r
    obtain ⟨first, later⟩ := List.forall_mem_cons.1 nested
    cases step with
    | fromSource table schema subquery aliasHint =>
      have joins (scope : SqlScope) := fills_joinClauses (d := d) scope
        (fun r mem => ⟨later r mem, single r mem⟩) 1
      dsimp only
      refine .bind (fills_fromClause _ table schema subquery aliasHint first) fun source hsource => ?_
      refine .bind (joins _) fun clauses hclauses => .pure ⟨?_, rfl⟩
      exact hsource.append hclauses
    | _ =>
      have none : rest.find? (·.step.isFrom) = none :=
        List.find?_eq_none.2 fun r mem => by rw [single r mem]; exact Bool.false_ne_true
      dsimp only
      rw [List.find?_cons, none]
      exact .error

/-- Every condition fills a slot for a predicate. -/
theorem fills_conditions (predicates : List Expr) :
    Returns (fun fs => Fills scope.params fs.flatten (predicates.map (.predicate, ·)))
      (conditions scope predicates) :=
  returns_unplaced (fills_sqls .predicate predicates)

theorem named_whereOf (conditions : List Fragment) :
    Fragment.named (whereOf conditions).flatten = Fragment.named conditions.flatten := by
  have words : (text "WHERE ").named = 0 ∧ (text " AND ").named = 0 := by decide
  unfold whereOf
  split
  · rename_i empty
    rw [List.isEmpty_iff.1 empty]
  · simp [words, named_separated]

/-- The SELECT clause fills one slot, or none. -/
theorem fills_projection (c : SelectChain) (scope : SqlScope)
    (rows : Clause.terminal? [.any, .all] c.steps = none)
    (noSearch : Clause.contained? c.steps = none) :
    Returns (fun f => Fills scope.params f ((Clause.listings c.steps).map (.open, ·) ++
      (Clause.projectedValues c.steps).map (.value, ·))) (c.projection scope) := by
  have distinct : (text (if c.steps.any Clause.isDistinct then "DISTINCT " else "")).named = 0 := by
    split <;> rfl
  have closing : (text ")").named = 0 := rfl
  unfold projection Clause.listings Clause.projectedValues
  rw [rows, noSearch]
  cases Clause.projection c.steps with
  | error => exact .error
  | ok chosen =>
    refine .bind (.ok (rfl : chosen = chosen)) ?_
    rintro _ rfl
    cases chosen with
    | count => exact .pure (.nil rfl)
    | aggregate kind operand =>
      have opening : (text (aggregateKeyword kind ++ "(")).named = 0 := by cases kind <;> rfl
      refine .bind (returns_unplaced (Expr.fills_sql operand .value)) fun f h => .pure (h.of_named ?_)
      simp [opening, closing]
    | selector selector =>
      refine .bind (returns_unplaced (fills_projectionSql selector)) fun f h => .pure (h.of_named ?_)
      rw [named_append, distinct, Nat.zero_add]
    | key key =>
      refine .bind (returns_unplaced (Expr.fills_sql key .value)) fun f h => .pure (h.of_named ?_)
      rw [named_append, distinct, Nat.zero_add]
    | all =>
      have star : (text "*").named = 0 := rfl
      exact .pure (.nil (by rw [named_append, distinct, star]))

/-- GROUP BY fills the slots of the grouping keys. -/
theorem fills_groupBy (c : SelectChain) (scope : SqlScope) :
    Returns (fun fs => Fills scope.params fs.flatten ((Clause.groupingKeys c.steps).map (.value, ·)))
      (c.groupBy scope) := by
  have words : (text "GROUP BY ").named = 0 ∧ (text ", ").named = 0 := by decide
  unfold groupBy Clause.groupingKeys
  cases Clause.groupKey? c.steps with
  | none => exact .ok (.nil rfl)
  | some key =>
    have keys (es : List Expr) : Returns (fun fs => Fills scope.params fs.flatten (es.map (.value, ·)))
        (unplaced (Expr.sqlList scope .value es) >>= fun parts =>
          pure [text "GROUP BY " ++ separated ", " parts]) := by
      refine .bind (returns_unplaced (fills_sqls .value es)) fun fs h => .pure (h.of_named ?_)
      simp [words, named_separated]
    cases key with
    | object => exact keys _
    | _ => exact keys _

/-- ORDER BY fills the slots of the sorting keys. -/
theorem fills_orderBy (c : SelectChain) (scope : SqlScope) :
    Returns (fun fs => Fills scope.params fs.flatten ((Clause.sortingKeys c.steps).map (.value, ·)))
      (c.orderBy scope) := by
  have words : (text "ORDER BY ").named = 0 ∧ (text ", ").named = 0 := by decide
  unfold orderBy Clause.sortingKeys
  cases Clause.order c.steps with
  | none => exact .ok (.nil rfl)
  | firstColumn descending => exact .ok (.nil (by cases descending <;> rfl))
  | keys keys =>
    have written : Returns _ (Expr.sqlOrders scope keys) := fills_sqlOrders fun e _ => Expr.fills_sql e
    refine .bind (returns_unplaced written) fun fs h => .pure ?_
    dsimp only
    rw [List.map_map]
    exact h.of_named (by simp [words, named_separated])

/-- LIMIT and OFFSET fill the slots of the counts that are given. -/
theorem fills_paging (c : SelectChain) (scope : SqlScope) :
    Returns (fun fs => Fills scope.params fs.flatten
      ((Clause.givenCounts c.dialect c.steps).map (.value, ·))) (c.paging scope) := by
  have count (word : String) (blank : (text word).named = 0) (e : Expr) :
      Returns (fun f => Fills scope.params (text word ++ f) [(.value, e)])
        (unplaced (e.sql scope .value)) :=
    fun f sql => (returns_unplaced (Expr.fills_sql e .value) f sql).of_named (by simp [blank])
  unfold paging Clause.givenCounts
  simp only [pure_bind]
  cases Clause.page? .skip c.steps
  -- The count of the offset is looked up first, and written last.
  case' some skipped =>
    refine .bind (count "OFFSET " rfl skipped) fun f hf => ?_
    have h : Fills scope.params [text "OFFSET " ++ f].flatten ([skipped].map (.value, ·)) := by
      simpa using hf
  case' none =>
    have h : Fills scope.params ([] : List Fragment).flatten (([] : List Expr).map (.value, ·)) :=
      .nil rfl
  all_goals
    cases Clause.limit c.dialect c.steps with
    | none => exact .pure h
    | rows count =>
      have word : (text ("LIMIT " ++ toString count)).named = 0 := named_text_append _ (by decide)
      refine .pure (h.of_named ?_)
      rw [List.singleton_append, List.flatten_cons, named_append, word, Nat.zero_add]
    | unbounded =>
      have word : (text "LIMIT -1").named = 0 := rfl
      exact .pure (h.of_named (by simp [word]))
    | given taken => exact .bind (count "LIMIT " rfl taken) fun f hf => .pure (hf.append h)

/-! ### The statement of a chain -/

/-- The expressions of the statement of a chain, those of nested queries included. -/
def allSlots (d : Dialect) (c : SelectChain) : List (Position × Expr) :=
  (Clause.listings c.steps).map (.open, ·) ++ Clause.operands c.dialect c.steps ++ c.innerOf d

theorem named_clauses (f : Fragment) (fs : List Fragment) :
    (separated " " (f :: fs)).named = f.named + Fragment.named fs.flatten := by
  rw [named_separated rfl, List.flatten_cons, named_append]

theorem named_truthQuery (test : String) (blank : (text ("SELECT CASE WHEN " ++ test ++ "(")).named = 0)
    (f : Fragment) : (truthQuery test f).named = f.named := by
  have closing : (text ") THEN 1 ELSE 0 END").named = 0 := rfl
  simp [truthQuery, blank, closing]

/-- What is searched is listed under a name. -/
theorem returns_searchedSelector (c : SelectChain) :
    Returns (fun selector => Clause.lastSelector? c.steps = some selector ∧
      Expr.namesMember ("__sqlforge_value", selector) = true) c.searchedSelector := by
  unfold searchedSelector
  dsimp only
  split
  · rename_i selector selected
    split
    · rename_i scalar
      simp only [Clause.isScalar, Bool.and_eq_true, Bool.not_eq_true', Bool.or_eq_false_iff] at scalar
      obtain ⟨⟨-, noStar⟩, noRow⟩ := scalar
      refine .ok ⟨selected, ?_⟩
      rw [Expr.namesMember, noStar, noRow]
      rfl
    · exact .error
  · exact .error

section

variable (h : c.FillsSources d)

include h

/-- A SELECT fills the slots of its clauses. -/
theorem fills_selectQuery (rows : Clause.terminal? [.any, .all] c.steps = none)
    (noSearch : Clause.contained? c.steps = none) :
    Returns (fun f => Fills c.params f (c.allSlots d)) c.selectQuery := by
  have select : (text "SELECT ").named = 0 := rfl
  refine .bind (.any _) fun _ _ => .check (.bind (fills_sources h) ?_)
  rintro ⟨sources, scope⟩ ⟨hsources, params⟩
  rw [← params] at hsources ⊢
  refine .bind (c.fills_projection scope rows noSearch) fun projection hprojection => ?_
  refine .bind (fills_conditions _) fun conditions hconditions => ?_
  refine .bind (c.fills_groupBy scope) fun groupBy hgroupBy => ?_
  refine .bind (c.fills_orderBy scope) fun orderBy horderBy => ?_
  refine .bind (c.fills_paging scope) fun paging hpaging => .pure ?_
  have parts := ((((hprojection.append hsources).append hconditions).append hgroupBy).append
    horderBy).append hpaging
  refine (parts.perm ?_).of_named ?_
  · classical
    rw [allSlots, Clause.operands, rows, noSearch, List.perm_iff_count]
    intro slot
    simp only [List.map_append, List.count_append]
    omega
  · rw [named_clauses]
    simp [select, named_whereOf]

/-- A test whether there is a row fills the slots of its clauses. -/
theorem fills_anyQuery {kind : TerminalKind} {predicate : Expr}
    (asks : Clause.terminal? [.any, .all] c.steps = some (kind, predicate)) :
    Returns (fun f => Fills c.params f (c.allSlots d)) (c.anyQuery predicate) := by
  have select : (text "SELECT 1").named = 0 := rfl
  refine .bind (.any _) fun _ _ => .bind (fills_sources h) ?_
  rintro ⟨sources, scope⟩ ⟨hsources, params⟩
  rw [← params] at hsources ⊢
  refine .bind (fills_conditions _) fun conditions hconditions => .pure ?_
  have tests : Fills scope.params conditions.flatten
      ((Clause.filters c.steps ++ [predicate]).map (.predicate, ·)) := by
    split at hconditions
    · rename_i isAbsent
      have none : Fills scope.params [] [(.predicate, predicate)] := .absent isAbsent _
      rw [List.append_nil] at hconditions
      rw [List.map_append, ← List.append_nil conditions.flatten]
      exact hconditions.append none
    · exact hconditions
  refine ((hsources.append tests).perm ?_).of_named ?_
  · rw [allSlots, Clause.listings, Clause.operands, asks]
    exact List.perm_append_comm
  · rw [named_truthQuery _ (by decide), named_clauses]
    simp [select, named_whereOf]

/-- A test of all rows fills the slots of its clauses. -/
theorem fills_allQuery {kind : TerminalKind} {predicate : Expr}
    (asks : Clause.terminal? [.any, .all] c.steps = some (kind, predicate)) :
    Returns (fun f => Fills c.params f (c.allSlots d)) (c.allQuery predicate) := by
  have select : (text "SELECT 1").named = 0 := rfl
  have words : (text "NOT (").named = 0 ∧ (text ")").named = 0 := by decide
  refine .bind (.any _) fun _ _ => .bind (fills_sources h) ?_
  rintro ⟨sources, scope⟩ ⟨hsources, params⟩
  rw [← params] at hsources ⊢
  refine .bind (fills_conditions _) fun conditions hconditions => .check ?_
  refine .bind (returns_unplaced (Expr.fills_sql predicate .predicate)) fun f hf => .pure ?_
  have parts := (hsources.append hconditions).append hf
  refine (parts.perm ?_).of_named ?_
  · classical
    rw [allSlots, Clause.listings, Clause.operands, asks, List.perm_iff_count]
    intro slot
    simp only [List.map_append, List.count_append]
    simp
    omega
  · rw [named_truthQuery _ (by decide), named_clauses]
    simp [select, named_whereOf, words]

/-- A search fills the slots of its clauses, and one for the value. -/
theorem fills_containsQuery (rows : Clause.terminal? [.any, .all] c.steps = none) {value : Expr}
    (searches : Clause.contained? c.steps = some value) :
    Returns (fun f => Fills c.params f (c.allSlots d)) (c.containsQuery value) := by
  have select : (text "SELECT ").named = 0 := rfl
  have name : (text " AS \"__sqlforge_value\"").named = 1 := rfl
  refine .bind (.any _) fun _ _ => .check (.bind c.returns_searchedSelector ?_)
  rintro selector ⟨selected, names⟩
  refine .bind (fills_sources h) ?_
  rintro ⟨sources, scope⟩ ⟨hsources, params⟩
  rw [← params] at hsources ⊢
  refine .bind (returns_unplaced (Expr.fills_sql selector .value)) fun f hf => ?_
  refine .bind (fills_conditions _) fun conditions hconditions => ?_
  refine .bind (c.fills_groupBy scope) fun groupBy hgroupBy => ?_
  refine .bind (returns_unplaced (Expr.fills_sql value .value)) fun g hg => .pure ?_
  have listed : Fills scope.params (f ++ text " AS \"__sqlforge_value\"")
      [(.open, .object [("__sqlforge_value", selector)])] :=
    hf.listed names (by rw [named_append, name])
  have parts := (((hsources.append listed).append hconditions).append hgroupBy).append hg
  refine (parts.perm ?_).of_named ?_
  · classical
    rw [allSlots, Clause.listings, Clause.operands, rows, searches, selected, List.perm_iff_count]
    intro slot
    simp only [List.map_append, List.count_append, Option.toList_some, List.map_singleton]
    omega
  · have opening : (text "SELECT 1 FROM (").named = 0 := rfl
    have closing : (text
        ") AS \"__sqlforge_contains\" WHERE \"__sqlforge_contains\".\"__sqlforge_value\" = ").named = 0 :=
      rfl
    rw [named_truthQuery _ (by decide)]
    simp [opening, closing, named_clauses, select, named_whereOf]
    omega

/-- Whatever its form, a statement fills its slots. -/
theorem fills_statement : Returns (fun f => Fills c.params f (c.allSlots d)) c.statement := by
  unfold statement
  cases asks : Clause.terminal? [.any, .all] c.steps with
  | some found =>
    obtain ⟨kind, predicate⟩ := found
    cases kind with
    | all => exact fills_allQuery h asks
    | _ => exact fills_anyQuery h asks
  | none =>
    cases searches : Clause.contained? c.steps with
    | some value => exact fills_containsQuery h asks searches
    | none => exact fills_selectQuery h asks searches

end

end SelectChain

/-! ### Statements that change rows -/

theorem fills_assignmentSql (given : Assignments) :
    Returns (fun assigned => assigned.map Prod.fst = given.map Prod.fst ∧
        Fills scope.params (assigned.map Prod.snd).flatten (given.map fun entry => (.open, entry.2)))
      (assignmentSql scope given) := by
  induction given with
  | nil => exact .ok ⟨rfl, .nil rfl⟩
  | cons entry rest ih =>
    unfold assignmentSql
    refine .bind (Expr.fills_sql entry.2 .open) fun f hf => .bind ih fun assigned written =>
      .pure ⟨?_, hf.cons written.2⟩
    rw [List.map_cons, List.map_cons, written.1]

/-- Assignments fill the slots of the values that are assigned. -/
theorem fills_assignedColumns (assignments : Option Assignments) :
    Returns (fun assigned => Fills scope.params (assigned.map Prod.snd).flatten
        ((Operation.assignedValues scope.params assignments).map (.open, ·)))
      (assignedColumns scope assignments) := by
  refine returns_unplaced fun assigned sql => ?_
  have filled := (fills_assignmentSql _ assigned sql).2
  rw [Operation.assignedValues, List.map_map]
  exact filled

theorem named_columnList (columns : List String) : (columnList columns).named = 0 := by
  rw [columnList, named_separated rfl]
  refine named_eq_zero_of_forall fun f mem => ?_
  obtain ⟨column, -, rfl⟩ := List.mem_map.1 mem
  exact named_quoteIdentifier column

theorem named_setList (assigned : List (String × Fragment)) :
    (setList assigned).named = Fragment.named (assigned.map Prod.snd).flatten := by
  rw [setList, named_separated rfl]
  induction assigned with
  | nil => rfl
  | cons entry rest ih =>
    have column : (text (quoteIdentifier entry.1 ++ " = ")).named = 0 :=
      named_quoteIdentifier_append entry.1 _
    rw [List.map_cons, List.map_cons, List.flatten_cons, List.flatten_cons, named_append, named_append,
      named_append, column, Nat.zero_add, ih]

theorem fills_returningClause (returning : Expr) :
    Returns (fun f => Fills scope.params f [(.open, returning)]) (returningClause scope returning) := by
  have word : (text " RETURNING ").named = 0 := rfl
  unfold returningClause
  split
  · rename_i isAbsent
    exact .ok (.absent isAbsent .open)
  · refine .bind (returns_unplaced (fills_projectionSql returning)) fun f h => .pure (h.of_named ?_)
    rw [named_append, word, Nat.zero_add]

theorem fills_whereClause (predicate : Expr) :
    Returns (fun f => Fills scope.params f [(.predicate, predicate)])
      (whereClause scope predicate) := by
  have word : (text " WHERE ").named = 0 := rfl
  unfold whereClause
  split
  · rename_i isAbsent
    exact .ok (.absent isAbsent .predicate)
  · refine .bind (returns_unplaced (Expr.fills_sql predicate .predicate)) fun f h =>
      .pure (h.of_named ?_)
    rw [named_append, word, Nat.zero_add]

/-- A conflict clause fills the slots of the values it assigns. -/
theorem fills_conflictClause (table : String) (conflict : Option OnConflict) :
    Returns (fun f => Fills scope.params f
        ((Operation.conflictValues scope.params conflict).map (.open, ·)))
      (conflictClause scope table conflict) := by
  have words : (text " ON CONFLICT (").named = 0 ∧ (text ")").named = 0 ∧
      (text " DO NOTHING").named = 0 ∧ (text " DO UPDATE SET ").named = 0 := by decide
  cases conflict with
  | none => exact .ok (.nil rfl)
  | some conflict =>
    obtain ⟨target, action, assignments⟩ := conflict
    unfold conflictClause
    refine .check ?_
    cases action with
    | none => exact .error
    | nothing => exact .pure (.nil (by simp [words, named_columnList]))
    | update =>
      refine .bind (fills_assignedColumns assignments) fun updates h => .check (.pure ?_)
      exact h.of_named (by simp [words, named_columnList, named_setList])

/-- An INSERT fills the slots of its values. -/
theorem fills_insert (s : InsertStatement) (earlier : Operation) (d : Dialect) :
    Returns (fun f => Fills scope.params f (Operation.slots d scope.params (.insert s :: earlier)))
      (insert scope s) := by
  have words : (text ") VALUES (").named = 0 ∧ (text ")").named = 0 ∧ (text ", ").named = 0 := by decide
  have head (more : String) : (text ("INSERT INTO " ++ more)).named = 0 :=
    named_text_append _ (by decide)
  refine .bind (fills_assignedColumns s.values) fun values hvalues => .check ?_
  refine .bind (fills_conflictClause s.table s.onConflict) fun conflict hconflict => ?_
  refine .bind (fills_returningClause s.returning) fun returning hreturning => .pure ?_
  refine (((hreturning.append hvalues).append hconflict).perm ?_).of_named ?_
  · simp [Operation.slots, Operation.listings, Operation.assigned, Operation.operands]
  · simp [words, String.append_assoc, head, named_columnList, named_separated]
    omega

/-- An UPDATE fills the slots of its values, its condition and its projection. -/
theorem fills_update (s : UpdateStatement) (earlier : Operation) (d : Dialect) :
    Returns (fun f => Fills scope.params f (Operation.slots d scope.params (.update s :: earlier)))
      (update scope s) := by
  have head (more : String) : (text ("UPDATE " ++ more)).named = 0 := named_text_append _ (by decide)
  refine .bind (fills_assignedColumns s.assignments) fun assigned hassigned => .check (.check ?_)
  refine .bind (fills_whereClause s.predicate) fun condition hcondition => ?_
  refine .bind (fills_returningClause s.returning) fun returning hreturning => .pure ?_
  refine (((hreturning.append hassigned).append hcondition).perm ?_).of_named ?_
  · simp [Operation.slots, Operation.listings, Operation.assigned, Operation.operands]
  · simp [String.append_assoc, head, named_setList]
    omega

/-- A DELETE fills the slot of its condition. -/
theorem fills_delete (s : DeleteStatement) (earlier : Operation) (d : Dialect) :
    Returns (fun f => Fills scope.params f (Operation.slots d scope.params (.delete s :: earlier)))
      (delete scope s) := by
  have head (more : String) : (text ("DELETE FROM " ++ more)).named = 0 :=
    named_text_append _ (by decide)
  unfold delete
  refine .check (.bind (fills_whereClause s.predicate) fun condition h => .pure (h.of_named ?_))
  simp [head]

/-! ### Operations -/

/-- After the step that says where its rows come from, no step of a chain does. -/
theorem isFrom_of_mem_tail_chain {op : Operation} {step : Step}
    (h : step ∈ (Operation.chain op).tail) : step.isFrom = false := by
  rw [Operation.chain, List.tail_reverse, List.mem_reverse] at h
  induction op with
  | nil => cases h
  | cons first earlier ih =>
    cases isFrom : first.isFrom with
    | true =>
      rw [Operation.level_from isFrom] at h
      cases h
    | false =>
      rw [Operation.level_step isFrom] at h
      by_cases last : Operation.level earlier = []
      · rw [last] at h
        cases h
      · rw [List.dropLast_cons_of_ne_nil last] at h
        rcases List.mem_cons.1 h with rfl | later
        · exact isFrom
        · exact ih later

/-- A SELECT has no expressions but those of its chain and of its subqueries. -/
theorem perm_allSlots (d : Dialect) (params : Json) {step : Step} (select : step.isCrud = false)
    (earlier : Operation) :
    ((Operation.selectChain d params (step :: earlier)).allSlots d).Perm
      ((Operation.statements (step :: earlier)).flatMap (Operation.slots d params)) := by
  have own : Operation.slots d params (step :: earlier) =
      (Clause.listings (Operation.chain (step :: earlier))).map (.open, ·) ++
        Clause.operands d (Operation.chain (step :: earlier)) := by
    cases step with
    | insert | update | delete => cases select
    | _ => exact congrArg (· ++ _) (congrArg _ (List.append_nil _))
  have inner : Operation.subqueries (step :: earlier) =
      (Operation.level (step :: earlier)).filterMap writtenQuery? := by
    cases step with
    | insert | update | delete => cases select
    | _ => rfl
  rw [SelectChain.allSlots, SelectChain.innerOf, Operation.steps_selectChain, Operation.statements_eq,
    List.flatMap_cons, own, inner, List.flatMap_assoc, List.filterMap_eq_flatMap_toList,
    List.flatMap_assoc]
  exact ((List.reverse_perm _).flatMap_right _).append_left _

/-- The text of an operation is written for the expressions of its statements. -/
theorem fills_operation (d : Dialect) (params : Json) (op : Operation) :
    Returns (fun f => Fills params f (op.statements.flatMap (Operation.slots d params)))
      (op.sql d params) := by
  have nested (step : Step) (mem : step ∈ Operation.level op) :
      FillsNested d params (renderStep d params step) := by
    rw [FillsNested, renderStep_eq]
    dsimp only
    cases written : writtenQuery? step with
    | none => exact .ok (by rw [innerSlots_of_none d written]; exact .nil rfl)
    | some q =>
      have smaller := Nat.lt_trans (sizeOf_writtenQuery?_lt written)
        (Operation.sizeOf_lt_of_mem_level mem)
      rw [innerSlots, written, Option.toList_some, List.flatMap_singleton]
      exact fills_operation d params q
  cases op with
  | nil => exact .error
  | cons step earlier =>
    cases crud : step.isCrud with
    | false =>
      have sources : (Operation.selectChain d params (step :: earlier)).FillsSources d := by
        constructor
        · intro r mem
          obtain ⟨held, below, rfl⟩ := List.mem_map.1 mem
          exact nested held (List.mem_reverse.1 below)
        · intro r mem
          rw [Operation.selectChain, ← List.map_tail] at mem
          obtain ⟨held, later, rfl⟩ := List.mem_map.1 mem
          rw [step_renderStep]
          exact isFrom_of_mem_tail_chain later
      rw [Operation.sql_eq_statement d params crud]
      exact fun f sql =>
        (SelectChain.fills_statement sources f sql).perm (perm_allSlots d params crud earlier)
    | true =>
      obtain ⟨rest, level⟩ := Operation.level_cons step earlier
      rw [Operation.sql, Operation.renderLevel_eq_map, level, List.map_cons, Operation.statements_eq,
        List.flatMap_cons]
      cases step with
      | insert s =>
        exact fun f sql => (fills_insert s earlier d f sql).perm (by simp [Operation.subqueries])
      | update s =>
        exact fun f sql => (fills_update s earlier d f sql).perm (by simp [Operation.subqueries])
      | delete s =>
        exact fun f sql => (fills_delete s earlier d f sql).perm (by simp [Operation.subqueries])
      | _ => cases crud
termination_by sizeOf op

/-! ### The values of an INSERT -/

/-- How many values an expression is written as in an open position. -/
def width : Expr → Nat
  | .object members => members.length
  | _ => 1

/-- The text of a single value: of an expression that is no object, or of one member of an object. -/
def IsSingle (scope : SqlScope) (f : Fragment) : Prop :=
  (∃ e : Expr, e.isObject = false ∧ e.sql scope .open = .ok f) ∨
    ∃ member, Expr.sqlProperties scope [member] = .ok [f]

/-- An INSERT into the given columns of the given values. -/
def insertText (s : InsertStatement) (columns : List String) (values : List Fragment)
    (tail : Fragment) : Fragment :=
  text ("INSERT INTO " ++ quoteTable s.schema s.table ++ " (") ++ columnList columns ++
    text ") VALUES (" ++ separated ", " values ++ text ")" ++ tail

theorem sqlProperties_cons (scope : SqlScope) (member : String × Expr) (rest : List (String × Expr)) :
    Expr.sqlProperties scope (member :: rest) = do
      let first ← Expr.sqlProperties scope [member]
      let others ← Expr.sqlProperties scope rest
      return first ++ others := by
  simp only [Expr.sqlProperties]
  split
  · cases member.2.sql scope .value <;> rfl
  split
  · rfl
  · cases member.2.sql scope .open <;> rfl

/-- Every member of an object is written as one item. -/
theorem length_sqlProperties (members : List (String × Expr)) :
    Returns (fun fs => fs.length = members.length) (Expr.sqlProperties scope members) := by
  induction members with
  | nil => exact .ok rfl
  | cons member rest ih =>
    have others (f : Fragment) : Returns (fun fs => fs.length = (member :: rest).length)
        (Expr.sqlProperties scope rest >>= fun parts => pure (f :: parts)) :=
      .bind ih fun _ h => .pure (congrArg (· + 1) h)
    unfold Expr.sqlProperties
    dsimp only
    split
    · exact .bind (.any _) fun _ _ => others _
    split
    · exact .error
    · exact .bind (.any _) fun _ _ => others _

/-- The members of an object are written one by one. -/
theorem singles_sqlProperties (members : List (String × Expr)) :
    Returns (fun fs => ∀ f ∈ fs, IsSingle scope f) (Expr.sqlProperties scope members) := by
  induction members with
  | nil => exact .ok (List.forall_mem_nil _)
  | cons member rest ih =>
    rw [sqlProperties_cons]
    intro fs sql
    obtain ⟨first, single, sql⟩ := outcome_bind_eq_ok.1 sql
    obtain ⟨others, rendered, sql⟩ := outcome_bind_eq_ok.1 sql
    cases sql
    obtain ⟨f, rfl⟩ := List.length_eq_one_iff.1 (length_sqlProperties [member] first single)
    exact List.forall_mem_cons.2 ⟨.inr ⟨member, single⟩, ih others rendered⟩

/-- An expression is written as a list of as many single items as it is wide. -/
theorem singles_sql {e : Expr} {f : Fragment} (h : e.sql scope .open = .ok f) :
    ∃ items, items ≠ [] ∧ f = separated ", " items ∧ items.length = width e ∧
      ∀ item ∈ items, IsSingle scope item := by
  cases e with
  | object members =>
    unfold Expr.sql at h
    dsimp only at h
    split at h
    · cases h
    · rename_i there
      obtain ⟨fs, parts, h⟩ := outcome_bind_eq_ok.1 h
      cases h
      have length := length_sqlProperties members fs parts
      refine ⟨fs, ?_, rfl, length, singles_sqlProperties members fs parts⟩
      rintro rfl
      exact there (List.isEmpty_iff_length_eq_zero.2 length.symm)
  | _ => exact ⟨[f], List.cons_ne_nil _ _, rfl, rfl, List.forall_mem_singleton.2 (.inl ⟨_, rfl, h⟩)⟩

/-- A text that is a list itself makes a longer list. -/
theorem separated_items {separator : String} {items fs values : List Fragment} (ne : items ≠ [])
    (same : separated separator fs = separated separator values) (empty : fs = [] ↔ values = []) :
    separated separator (separated separator items :: fs) = separated separator (items ++ values) := by
  by_cases last : values = []
  · rw [empty.2 last, last, List.append_nil]
    rfl
  · rw [separated_cons _ fun none => last (empty.1 none), separated_append ne last, same,
      List.append_assoc]

/-- Values are written one after the other, an object as as many as it has members. -/
theorem singles_values {given : Assignments} {assigned : List (String × Fragment)}
    (h : assignmentSql scope given = .ok assigned) :
    ∃ values, separated ", " (assigned.map Prod.snd) = separated ", " values ∧
      (assigned.map Prod.snd = [] ↔ values = []) ∧
      values.length = (given.map fun entry => width entry.2).sum ∧
      (∀ v ∈ values, IsSingle scope v) ∧ ∀ entry ∈ given, 0 < width entry.2 := by
  induction given generalizing assigned with
  | nil =>
    cases h
    exact ⟨[], rfl, .rfl, rfl, List.forall_mem_nil _, List.forall_mem_nil _⟩
  | cons entry rest ih =>
    obtain ⟨f, first, h⟩ := outcome_bind_eq_ok.1 h
    obtain ⟨later, rendered, h⟩ := outcome_bind_eq_ok.1 h
    cases h
    obtain ⟨items, ne, rfl, count, singles⟩ := singles_sql first
    obtain ⟨values, same, empty, total, singles', wide⟩ := ih rendered
    refine ⟨items ++ values, separated_items ne same empty, ?_, ?_, ?_, ?_⟩
    · simp [ne]
    · rw [List.length_append, count, total, List.map_cons, List.sum_cons]
    · exact List.forall_mem_append.2 ⟨singles, singles'⟩
    · exact List.forall_mem_cons.2 ⟨count ▸ List.length_pos_iff.2 ne, wide⟩

/-- Values that are there are one column wide at least. -/
theorem length_le_sum_width {es : List Expr} (h : ∀ e ∈ es, 0 < width e) :
    es.length ≤ (es.map width).sum := by
  induction es with
  | nil => exact Nat.le_refl 0
  | cons e rest ih =>
    obtain ⟨first, later⟩ := List.forall_mem_cons.1 h
    have below := ih later
    simp only [List.length_cons, List.map_cons, List.sum_cons]
    omega

/-- There are as many values as expressions exactly if each expression is written as one. -/
theorem length_eq_sum_width_iff {es : List Expr} (h : ∀ e ∈ es, 0 < width e) :
    es.length = (es.map width).sum ↔ ∀ e ∈ es, width e = 1 := by
  induction es with
  | nil => exact iff_of_true rfl (List.forall_mem_nil _)
  | cons e rest ih =>
    obtain ⟨first, later⟩ := List.forall_mem_cons.1 h
    have below := length_le_sum_width later
    have tail := ih later
    rw [List.forall_mem_cons, List.length_cons, List.map_cons, List.sum_cons]
    constructor
    · intro same
      exact ⟨by omega, tail.1 (by omega)⟩
    · rintro ⟨one, others⟩
      have same := tail.2 others
      omega

/-- The text of an INSERT lists the columns and the values that are assigned to them. -/
theorem insert_eq_ok {s : InsertStatement} {f : Fragment} (h : insert scope s = .ok f) :
    ∃ values tail,
      f = insertText s ((Assignments.given scope.params (s.values.getD [])).map Prod.fst) values tail ∧
      (∀ v ∈ values, IsSingle scope v) ∧
      values.length = ((Operation.assignedValues scope.params s.values).map width).sum ∧
      ((Operation.assignedValues scope.params s.values).length = values.length ↔
        ∀ e ∈ Operation.assignedValues scope.params s.values, width e = 1) := by
  obtain ⟨assigned, rendered, h⟩ := outcome_bind_eq_ok.1 h
  have sql := unplaced_eq_ok rendered
  obtain ⟨columns, -⟩ := fills_assignmentSql _ assigned sql
  obtain ⟨values, same, -, total, singles, wide⟩ := singles_values sql
  have total' : values.length = ((Operation.assignedValues scope.params s.values).map width).sum := by
    rw [total, Operation.assignedValues, List.map_map]
    rfl
  dsimp only at h
  split at h
  · cases h
  obtain ⟨conflict, -, h⟩ := outcome_bind_eq_ok.1 h
  obtain ⟨returning, -, h⟩ := outcome_bind_eq_ok.1 h
  cases h
  refine ⟨values, conflict ++ returning, ?_, singles, total', ?_⟩
  · rw [insertText, ← columns, ← same]
    simp only [List.append_assoc]
  · rw [total']
    exact length_eq_sum_width_iff (List.forall_mem_map.2 wide)

end Sql

/-! ### Columns and values -/

namespace Operation

theorem sql_insert (d : Dialect) (params : Json) (s : InsertStatement) (earlier : Operation) :
    sql d params (.insert s :: earlier) = insert ⟨d, params, [], false⟩ s := by
  obtain ⟨rest, level⟩ := level_cons (.insert s) earlier
  rw [sql, renderLevel_eq_map, level, List.map_cons, renderStep_eq]
  rfl

/-- The nodes in the text of a statement that stand for values: those inside of what it lists the
columns of, and all that its other expressions are made of. -/
def valueNodes (d : Dialect) (params : Json) (op : Operation) : List Expr :=
  op.listings.flatMap (Expr.inside params) ++
    (op.assigned params ++ (op.operands d).map Prod.snd).flatMap (Expr.writtenNodes params)

/-- Operands stand in no position for a list of columns. -/
theorem ne_open_of_mem_operands {d : Dialect} {op : Operation} {slot : Position × Expr}
    (h : slot ∈ op.operands d) : slot.1 ≠ .open := by
  have clauses {chain : List Step} (h : slot ∈ Clause.operands d chain) : slot.1 ≠ .open := by
    unfold Clause.operands at h
    split at h
    · obtain ⟨e, -, rfl⟩ := List.mem_map.1 h
      simp
    · split at h
      all_goals
        rcases List.mem_append.1 h with h | h
        all_goals
          obtain ⟨e, -, rfl⟩ := List.mem_map.1 h
          simp
  unfold operands at h
  split at h
  · cases h
  · rw [List.mem_singleton.1 h]
    simp
  · rw [List.mem_singleton.1 h]
    simp
  · exact clauses h

/-- An expression names the columns of its own and those inside of it. -/
theorem sum_names_inside (params : Json) (es : List Expr) :
    (es.map (Expr.names params)).sum =
      (es.map Expr.ownNames).sum + ((es.flatMap (Expr.inside params)).map Expr.ownNames).sum := by
  induction es with
  | nil => rfl
  | cons e rest ih =>
    have first : e.names params = e.ownNames + ((e.inside params).map Expr.ownNames).sum := by
      rw [Expr.names, Expr.writtenNodes_eq]
      rfl
    simp only [List.map_cons, List.sum_cons, List.flatMap_cons, List.map_append, List.sum_append,
      ih, first]
    omega

/-- The names that are written are those of the nodes that are written. -/
theorem sum_names_written (params : Json) (es : List Expr) :
    (es.map (Expr.names params)).sum = ((es.flatMap (Expr.writtenNodes params)).map
      Expr.ownNames).sum := by
  rw [List.map_flatMap, List.flatMap_def, List.sum_flatten, List.map_map]
  rfl

/-- The columns that are named in the expressions of statements are those of what they list, and those
of the nodes that stand for values. -/
theorem sum_names_slots (d : Dialect) (params : Json) (ops : List Operation) :
    ((ops.flatMap (slots d params)).map fun slot => slot.2.names params).sum =
      ((ops.flatMap listings).map Expr.ownNames).sum +
        ((ops.flatMap (valueNodes d params)).map Expr.ownNames).sum := by
  induction ops with
  | nil => rfl
  | cons op rest ih =>
    have own : ((slots d params op).map fun slot => slot.2.names params).sum =
        ((op.listings ++ (op.assigned params ++ (op.operands d).map Prod.snd)).map
          (Expr.names params)).sum := by
      simp only [slots, List.map_append, List.map_map, List.append_assoc]
      rfl
    rw [List.map_append, List.sum_append, sum_names_inside, sum_names_written] at own
    simp only [List.flatMap_cons, List.map_append, List.sum_append, ih, own]
    simp only [valueNodes, List.map_append, List.sum_append]
    omega

end Operation

/-- The columns that are named in a text are those of its projections, and those of objects that stand
for values.  No predicate, key, count or operand of a clause is an object; a node may have one where
it is compared, the result of a case, an argument of `COALESCE`, an item of a list or assigned, and
nowhere else.  So an INSERT has as many values as columns exactly if what it assigns to each is one
value. -/
theorem columns_are_of_projections_iff {d : Dialect} {params : Json} {op : Operation} {sql : Fragment}
    (written : op.sql d params = .ok sql) :
    (∀ q ∈ op.statements, (∀ slot ∈ q.operands d, slot.2.isObject = false) ∧
      ∀ slot ∈ q.slots d params, ∀ node ∈ slot.2.writtenNodes params, ∀ below ∈ node.slots params,
        below.2.isObject = true → below.1 = .open) ∧
    sql.named = ((op.statements.flatMap Operation.listings).map Expr.ownNames).sum +
      ((op.statements.flatMap (Operation.valueNodes d params)).map Expr.ownNames).sum ∧
    (sql.named = ((op.statements.flatMap Operation.listings).map Expr.ownNames).sum ↔
      ∀ q ∈ op.statements, ∀ node ∈ q.valueNodes d params, node.ownNames = 0) ∧
    ∀ s earlier, op = .insert s :: earlier → ∃ values tail,
      sql = insertText s ((Assignments.given params (s.values.getD [])).map Prod.fst) values tail ∧
        (∀ v ∈ values, IsSingle ⟨d, params, [], false⟩ v) ∧
        values.length = ((Operation.assignedValues params s.values).map width).sum ∧
        ((Operation.assignedValues params s.values).length = values.length ↔
          ∀ e ∈ Operation.assignedValues params s.values, width e = 1) := by
  have filled := fills_operation d params op sql written
  have named := filled.named.trans (Operation.sum_names_slots d params op.statements)
  refine ⟨fun q mem => ⟨fun slot h => ?_, fun slot h => ?_⟩, named, ?_, ?_⟩
  · have admits := filled.admits slot (List.mem_flatMap.2 ⟨q, mem, List.mem_append_right _ h⟩)
    exact Bool.eq_false_iff.2 fun is => Operation.ne_open_of_mem_operands h (admits.1 is)
  · exact (filled.admits slot (List.mem_flatMap.2 ⟨q, mem, h⟩)).2
  · rw [named, Nat.add_eq_left, List.sum_eq_zero_iff_forall_eq_nat]
    simp only [List.mem_map, List.mem_flatMap]
    constructor
    · exact fun none q mem node h => none _ ⟨node, ⟨q, mem, h⟩, rfl⟩
    · rintro none _ ⟨node, ⟨q, mem, h⟩, rfl⟩
      exact none q mem node h
  · rintro s earlier rfl
    rw [Operation.sql_insert] at written
    have values := insert_eq_ok written
    exact values

/-- `(q) => q.insertInto("users").values({ address: … })` -/
def addressInserted (address : Node) : Node :=
  (BuilderForm.lambda ["q"]).build <|
    ((Node.identifier "q").invoke "insertInto" [.literal (.str "users")]).withCalls
      [.of "values" (.object [.named "address" address false])]

/-- An INSERT of one text has one column and one value. -/
theorem columns_are_of_projections_addressInserted : ∃ q s text values tail,
    (addressInserted (.literal (.str "x"))).parseQuery = .ok q ∧ q.operation = [.insert s] ∧
      q.operation.sql .postgres (.obj [("__p1", .str "x")]) = .ok text ∧
      text = insertText s ["address"] values tail ∧ values.length = 1 := by
  have runs : ∃ q s text, (addressInserted (.literal (.str "x"))).parseQuery = .ok q ∧
      q.operation = [.insert s] ∧ q.operation.sql .postgres (.obj [("__p1", .str "x")]) = .ok text ∧
      (Assignments.given (.obj [("__p1", .str "x")]) (s.values.getD [])).map Prod.fst = ["address"] ∧
      ((Operation.assignedValues (.obj [("__p1", .str "x")]) s.values).map width).sum = 1 :=
    ⟨_, _, _, rfl, rfl, rfl, rfl, rfl⟩
  obtain ⟨q, s, text, parsed, operation, written, columns, one⟩ := runs
  obtain ⟨-, -, -, insert⟩ := columns_are_of_projections_iff written
  obtain ⟨values, tail, shown, -, length, -⟩ := insert s [] operation
  exact ⟨q, s, text, values, tail, parsed, operation, written, columns ▸ shown, length.trans one⟩

/-- `{ x: …, y: … }` -/
def Node.point (x y : Node) : Node :=
  .object [.named "x" x false, .named "y" y false]

/-- `(q) => q.from("users").where((u) => u.home === { x: u.left, y: u.top })` -/
def usersAtHome : Node :=
  (BuilderForm.lambda ["q"]).build <| fromUsers.withCalls
    [.of "where" (.arrow ["u"] (.binary "===" ((Node.identifier "u").dot "home")
      (.point ((Node.identifier "u").dot "left") ((Node.identifier "u").dot "top"))))]

/-- An object that is assigned is written as two values, and one that is compared as two columns. -/
theorem objects_are_listed_as_values :
    (∃ q text, (addressInserted (.point (.literal (.int 1)) (.literal (.int 2)))).parseQuery = .ok q ∧
      q.operation.sql .postgres (.obj [("__p1", .int 1), ("__p2", .int 2)]) = .ok text ∧
      text.render .postgres =
        "INSERT INTO \"users\" (\"address\") VALUES ($(__p1) AS \"x\", $(__p2) AS \"y\")") ∧
    ∃ q text, usersAtHome.parseQuery = .ok q ∧ q.operation.sql .postgres .null = .ok text ∧
      text.render .postgres =
        "SELECT * FROM \"users\" WHERE \"home\" = \"left\" AS \"x\", \"top\" AS \"y\"" :=
  ⟨⟨_, _, rfl, rfl, by decide +kernel⟩, ⟨_, _, rfl, rfl, by decide +kernel⟩⟩

end FluentQuery
