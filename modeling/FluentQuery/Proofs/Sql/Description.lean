import FluentQuery.Proofs.Json.Equality
import FluentQuery.Proofs.Operation.Description
import FluentQuery.Proofs.Sql.Erasure
import FluentQuery.Proofs.Sql.NestedQueries

/-!
# Descriptions determine SQL

What the description of an operation leaves out is never written.  A statement does not look at the
shapes of results; it refuses group joins before it looks at their keys; and a conflict clause is
asked for its assignments only if it updates.  So an operation is written like what is shown of it
(`Operation.sql_shown`), and operations with one description have one text, or fail alike
(`Operation.toSql_eq_of_toJson_eq`).  Descriptions that are merely equal may differ in numbers of one
value; it has to be asked that they hold the same ones.
-/

namespace FluentQuery

set_option autoImplicit false

namespace Operation

/-- A step without what its description does not say about it, nor about the operation in it. -/
def shownStep (step : Step) : Step :=
  step.shown.withNested (shown step.nested)

/-- What is shown of an operation is shown of its steps. -/
theorem shown_eq_map (op : Operation) : shown op = op.map shownStep := by
  induction op with
  | nil => exact shown_nil
  | cons step earlier ih => rw [shown_cons, ih, List.map_cons, shownStep]

theorem isEmpty_shown (op : Operation) : (shown op).isEmpty = op.isEmpty := by
  rw [shown_eq_map, List.isEmpty_map]

theorem isFrom_shownStep (step : Step) : (shownStep step).isFrom = step.isFrom := by
  cases step <;> rfl

end Operation

open Operation

/-- A step that is shown as it is: it holds no operation, and all of it is described. -/
def Step.isPlain : Step → Bool
  | fromSource _ _ _ _ | join _ _ _ _ _ | groupJoin _ _ _ _ _ _ | selectMany _ _ _ _ _
  | insert _ => false
  | _ => true

/-- Steps that are shown as they are stay where they are. -/
theorem filter_isPlain_map (chain : List Step) :
    (chain.map shownStep).filter Step.isPlain = chain.filter Step.isPlain := by
  induction chain with
  | nil => rfl
  | cons step rest ih =>
    cases step <;> simp [List.filter_cons, Step.isPlain, shownStep, Step.shown, Step.withNested, ih]

/-- What reads nothing but plain steps reads the same of the steps as they are shown. -/
theorem eq_of_plain {β : Type} {f : List Step → β}
    (plain : ∀ chain, f (chain.filter Step.isPlain) = f chain) (chain : List Step) :
    f (chain.map shownStep) = f chain := by
  rw [← plain, filter_isPlain_map, plain]

namespace Clause

/-- What a chain ends in is described. -/
theorem terminal?_shown (kinds : List TerminalKind) (chain : List Step) :
    terminal? kinds (chain.map shownStep) = terminal? kinds chain :=
  eq_of_plain (terminal?_filter (fun _ _ => rfl) kinds) chain

theorem filters_shown (chain : List Step) : filters (chain.map shownStep) = filters chain :=
  eq_of_plain (filters_filter fun _ => rfl) chain

theorem lastSelector?_shown (chain : List Step) :
    lastSelector? (chain.map shownStep) = lastSelector? chain :=
  eq_of_plain (lastSelector?_filter fun _ => rfl) chain

theorem groupKey?_shown (chain : List Step) :
    groupKey? (chain.map shownStep) = groupKey? chain :=
  eq_of_plain (groupKey?_filter fun _ => rfl) chain

theorem firstAggregate?_shown (chain : List Step) :
    firstAggregate? (chain.map shownStep) = firstAggregate? chain := by
  unfold firstAggregate?
  simp only [eq_of_plain (aggregate?_filter (fun _ _ => rfl) _) chain]

/-- What a chain projects is described, and whether it joins is seen by its steps. -/
theorem projection_shown (chain : List Step) :
    projection (chain.map shownStep) = projection chain := by
  have named : (chain.map shownStep).any namesJoinResult = chain.any namesJoinResult := by
    rw [List.any_map]
    refine congrArg (chain.any ·) (funext fun step => ?_)
    cases step <;> rfl
  unfold projection aggregateOperand
  rw [terminal?_shown, firstAggregate?_shown, lastSelector?_shown, named, groupKey?_shown]

theorem any_shown {p : Step → Bool} (plain : ∀ step, p step = true → step.isPlain = true)
    (chain : List Step) : (chain.map shownStep).any p = chain.any p :=
  eq_of_plain (f := fun chain => chain.any p) (any_filter plain) chain

theorem predicates_shown (chain : List Step) :
    predicates (chain.map shownStep) = predicates chain :=
  eq_of_plain (predicates_filter (fun _ _ => rfl) fun _ => rfl) chain

/-- The keys of the order are described, and so is what reverses it. -/
theorem order_shown (chain : List Step) : order (chain.map shownStep) = order chain :=
  eq_of_plain (fun chain => order_filter (fun _ _ => rfl) (fun _ _ _ => rfl)
    (isReversed_filter rfl chain)) chain

theorem page?_shown (kind : PageKind) (chain : List Step) :
    page? kind (chain.map shownStep) = page? kind chain :=
  eq_of_plain (page?_filter (fun _ _ => rfl) kind) chain

theorem limit_shown (d : Dialect) (chain : List Step) :
    limit d (chain.map shownStep) = limit d chain :=
  eq_of_plain (limit_filter (fun _ _ => rfl) (fun _ _ => rfl) d) chain

theorem reversesPage_shown (chain : List Step) :
    reversesPage (chain.map shownStep) = reversesPage chain :=
  eq_of_plain (reversesPage_filter rfl fun _ _ => rfl) chain

theorem contained?_shown (chain : List Step) :
    contained? (chain.map shownStep) = contained? chain :=
  eq_of_plain (contained?_filter fun _ => rfl) chain

end Clause

namespace Sql

/-- A join of which is shown what its description says. -/
def JoinSource.shown (join : JoinSource) : JoinSource :=
  { join with inner := Operation.shown join.inner }

/-- What is joined is a table that is described, or a query that has been rendered. -/
theorem joinTarget_shown (join : JoinSource) (name : String) :
    joinTarget join.shown name = joinTarget join name := by
  obtain ⟨kind, inner, keys, nested⟩ := join
  unfold joinTarget JoinSource.shown
  dsimp only
  rw [shown_eq_map]
  cases inner with
  | nil => rfl
  | cons step earlier =>
    cases step with
    | fromSource table schema subquery aliasHint =>
      cases subquery <;> cases earlier <;>
        simp [shownStep, Step.shown, Step.withNested, Step.nested, shown_cons]
    | _ => rfl

/-- Joins are written from what is described of them. -/
theorem joinClauses_shown (scope : SqlScope) (joins : List JoinSource) (index : Nat) :
    joinClauses scope (joins.map JoinSource.shown) index = joinClauses scope joins index := by
  induction joins generalizing index with
  | nil => rfl
  | cons join rest ih =>
    have clause : joinClause scope join.shown index = joinClause scope join index := by
      unfold joinClause
      rw [joinTarget_shown]
      rfl
    rw [List.map_cons, joinClauses, joinClauses, clause, ih]

/-- A rendered step of which is shown what its description says. -/
def RenderedStep.shown (rendered : RenderedStep) : RenderedStep :=
  { rendered with step := shownStep rendered.step }

/-- The joins of a chain are shown as its steps are. -/
theorem joinSources_shown (rendered : List RenderedStep) :
    joinSources (rendered.map RenderedStep.shown) =
      (joinSources rendered).map JoinSource.shown := by
  induction rendered with
  | nil => rfl
  | cons first rest ih =>
    obtain ⟨step, nested⟩ := first
    cases step with
    | join =>
      rw [joinSources, List.map_cons, List.map_cons, ← ih]
      rfl
    | _ => exact ih

namespace SelectChain

/-- A chain of which is shown what the descriptions of its steps say. -/
def shown (c : SelectChain) : SelectChain :=
  { c with rendered := c.rendered.map RenderedStep.shown }

variable (c : SelectChain)

theorem steps_shown : c.shown.steps = c.steps.map shownStep := by
  unfold steps shown
  rw [List.map_map, List.map_map]
  rfl

theorem place_shown (method : String) : c.shown.place method = c.place method := by
  unfold place
  have isFrom : Step.isFrom ∘ shownStep = Step.isFrom := funext isFrom_shownStep
  rw [steps_shown, List.find?_map, isFrom]
  cases c.steps.find? Step.isFrom with
  | none => rfl
  | some step => cases step <;> rfl

/-- Whether a chain is refused is seen by the forms of its steps. -/
theorem rejectUnlowered_shown : c.shown.rejectUnlowered = c.rejectUnlowered := by
  unfold rejectUnlowered
  dsimp only
  rw [steps_shown, List.findSome?_map]
  simp only [place_shown]
  congr 2
  funext step
  cases step <;> rfl

theorem searchedSelector_shown : c.shown.searchedSelector = c.searchedSelector := by
  unfold searchedSelector
  rw [steps_shown, Clause.lastSelector?_shown]
  simp only [place_shown]

/-- The tables are written from what is described of the steps. -/
theorem sources_shown : c.shown.sources = c.sources := by
  have joins : joinSources c.shown.rendered = (joinSources c.rendered).map JoinSource.shown :=
    joinSources_shown c.rendered
  have root : c.shown.rendered.find? (·.step.isFrom) =
      (c.rendered.find? (·.step.isFrom)).map RenderedStep.shown := by
    show (c.rendered.map RenderedStep.shown).find? (·.step.isFrom) = _
    rw [List.find?_map]
    congr 2
    funext rendered
    exact isFrom_shownStep rendered.step
  unfold sources
  rw [root, joins]
  dsimp only
  rw [List.isEmpty_map, List.length_map, place_shown]
  cases c.rendered.find? (·.step.isFrom) with
  | none => rfl
  | some first =>
    obtain ⟨step, nested⟩ := first
    cases step with
    | fromSource table schema subquery aliasHint =>
      have clause (hasJoins : Bool) :
          fromClause hasJoins table schema (Operation.shown subquery) aliasHint nested =
            fromClause hasJoins table schema subquery aliasHint nested := by
        unfold fromClause
        rw [isEmpty_shown]
      simp only [Option.map_some, RenderedStep.shown, shownStep, Step.shown, Step.withNested,
        Step.nested, clause, joinClauses_shown]
      rfl
    | _ => rfl

theorem groupBy_shown : c.shown.groupBy = c.groupBy := by
  unfold groupBy
  rw [steps_shown, Clause.groupKey?_shown]

/-- No clause of a SELECT reads more than is described. -/
theorem selectQuery_shown : c.shown.selectQuery = c.selectQuery := by
  have distinct : (c.steps.map shownStep).any Clause.isDistinct =
      c.steps.any Clause.isDistinct := by
    apply Clause.any_shown
    intro step is
    cases step <;> first | rfl | cases is
  have projection : c.shown.projection = c.projection := by
    unfold projection
    rw [steps_shown, distinct, Clause.projection_shown]
    simp only [place_shown]
  have orderBy : c.shown.orderBy = c.orderBy := by
    unfold orderBy
    rw [steps_shown, Clause.order_shown]
  have paging : c.shown.paging = c.paging := by
    unfold paging
    rw [steps_shown, Clause.page?_shown, Clause.limit_shown]
    rfl
  unfold selectQuery
  rw [rejectUnlowered_shown, sources_shown, place_shown, steps_shown, Clause.reversesPage_shown,
    Clause.predicates_shown, projection, groupBy_shown, orderBy, paging]

/-- Neither does a search. -/
theorem containsQuery_shown (value : Expr) :
    c.shown.containsQuery value = c.containsQuery value := by
  have paged : (c.steps.map shownStep).any Clause.isPage = c.steps.any Clause.isPage := by
    apply Clause.any_shown
    intro step is
    cases step <;> first | rfl | cases is
  unfold containsQuery
  rw [rejectUnlowered_shown, sources_shown, place_shown, steps_shown, paged, searchedSelector_shown,
    Clause.filters_shown, groupBy_shown]

/-- Whichever form a SELECT takes, it is written from what is described. -/
theorem statement_shown : c.shown.statement = c.statement := by
  have any (predicate : Expr) : c.shown.anyQuery predicate = c.anyQuery predicate := by
    unfold anyQuery
    rw [rejectUnlowered_shown, sources_shown, steps_shown, Clause.filters_shown]
  have all (predicate : Expr) : c.shown.allQuery predicate = c.allQuery predicate := by
    unfold allQuery
    rw [rejectUnlowered_shown, sources_shown, steps_shown, Clause.filters_shown, place_shown]
  unfold statement
  rw [steps_shown, Clause.terminal?_shown, Clause.contained?_shown, selectQuery_shown]
  simp only [any, all, containsQuery_shown]

end SelectChain

/-! ### Statements that change rows -/

/-- Assignments of a conflict that is ignored are not described, and not written. -/
theorem conflictClause_shown (scope : SqlScope) (table : String) (conflict : Option OnConflict) :
    conflictClause scope table (conflict.map OnConflict.shown) =
      conflictClause scope table conflict := by
  cases conflict with
  | none => rfl
  | some conflict =>
    obtain ⟨target, action, assignments⟩ := conflict
    cases action <;> rfl

/-- A statement is put together from what is described of its steps. -/
theorem assemble_shown (d : Dialect) (params : Json) (rendered : List RenderedStep) :
    assemble d params (rendered.map RenderedStep.shown) = assemble d params rendered := by
  cases rendered with
  | nil => rfl
  | cons last earlier =>
    cases crud : last.step.isCrud with
    | false =>
      have select : last.shown.step.isCrud = false := by
        rw [← crud]
        obtain ⟨step, nested⟩ := last
        cases step <;> rfl
      rw [List.map_cons, assemble_head select, assemble_head crud, ← List.map_cons,
        ← List.map_reverse]
      exact SelectChain.statement_shown ⟨d, params, (last :: earlier).reverse⟩
    | true =>
      obtain ⟨step, nested⟩ := last
      cases step with
      | insert s =>
        show Sql.insert _ { s with onConflict := s.onConflict.map OnConflict.shown } =
          Sql.insert _ s
        unfold Sql.insert
        simp only [conflictClause_shown]
      | update | delete => rfl
      | _ => cases crud

end Sql

/-! ### Operations -/

namespace Operation

open Sql

/-- The steps of a level are shown one by one. -/
theorem level_shown (op : Operation) : level (shown op) = (level op).map shownStep := by
  rw [shown_eq_map]
  induction op with
  | nil => rfl
  | cons step earlier ih =>
    rw [List.map_cons, level, level, isFrom_shownStep, ih]
    split <;> rfl

/-- The query that is written for a step as it is shown is what is shown of the one that is written
for the step. -/
theorem writtenQuery?_shown (step : Step) :
    writtenQuery? (shownStep step) = (writtenQuery? step).map shown := by
  cases step with
  | join kind inner keys selector shape =>
    show writtenQuery? (.join kind (shown inner) keys selector none) = _
    rw [shown_eq_map]
    cases inner with
    | nil => simp [writtenQuery?]
    | cons step earlier =>
      cases step with
      | fromSource table schema subquery aliasHint =>
        cases subquery <;> cases earlier <;>
          simp [writtenQuery?, shownStep, Step.shown, Step.withNested, Step.nested,
            shown_eq_map]
      | _ => simp [writtenQuery?, shownStep, Step.shown, Step.withNested, shown_eq_map]
  | _ => rfl

/-- An operation is written like what is shown of it. -/
theorem sql_shown (d : Dialect) (params : Json) (op : Operation) :
    (shown op).sql d params = op.sql d params := by
  have steps : (level op).map (renderStep d params ∘ shownStep) =
      (level op).map (RenderedStep.shown ∘ renderStep d params) := by
    apply List.map_congr_left
    intro step mem
    show renderStep d params (shownStep step) = (renderStep d params step).shown
    rw [renderStep_eq, renderStep_eq, writtenQuery?_shown]
    cases written : writtenQuery? step with
    | none => rfl
    | some query =>
      have smaller : sizeOf query < sizeOf op := by
        have := sizeOf_writtenQuery?_lt written
        have := sizeOf_lt_of_mem_level mem
        omega
      show RenderedStep.mk (shownStep step) ((shown query).sql d params) = _
      rw [sql_shown d params query]
      rfl
  unfold sql
  rw [renderLevel_eq_map, renderLevel_eq_map, level_shown, List.map_map, steps, ← List.map_map]
  exact assemble_shown d params _
termination_by sizeOf op

/-- A description says all there is to say: operations with one description have one text, or fail
alike, whatever the parameters and in either dialect. -/
theorem toSql_eq_of_toJson_eq {op op' : Operation} (same : toJson op = toJson op') (d : Dialect)
    (params : Json) : d.toSql ⟨op, params⟩ = d.toSql ⟨op', params⟩ := by
  have written : op.sql d params = op'.sql d params := by
    rw [← sql_shown, shown_eq_of_toJson_eq op op' same, sql_shown]
  unfold Dialect.toSql
  dsimp only
  rw [written]

/-- Operations whose descriptions are equal and hold the same numbers have one text, or fail alike,
whatever the parameters and in either dialect. -/
theorem toSql_eq_of_equals {op op' : Operation} (equal : (toJson op).equals (toJson op') = true)
    (same : (toJson op).numbers = (toJson op').numbers) (d : Dialect) (params : Json) :
    d.toSql ⟨op, params⟩ = d.toSql ⟨op', params⟩ := by
  have description : toJson op = toJson op' := Json.eq_of_equals equal same
  exact toSql_eq_of_toJson_eq description d params

/-- Five users, each with its orders. -/
def ordersOfUsers (outerSource : Option Int) : Operation :=
  [.page .take (.constant (.int 5)),
    .groupJoin [.fromSource "orders" "" [] ""] ⟨"id", outerSource, "userId"⟩ .absent none "u" "os",
    .fromSource "users" "" [] ""]

/-- Group joins are described, and refused, alike whichever table their outer key is taken from. -/
theorem toSql_eq_ordersOfUsers :
    (toJson (ordersOfUsers none)).equals (toJson (ordersOfUsers (some 1))) = true ∧
      (toJson (ordersOfUsers none)).numbers = (toJson (ordersOfUsers (some 1))).numbers ∧
      ∀ (d : Dialect) params,
        d.toSql ⟨ordersOfUsers none, params⟩ = d.toSql ⟨ordersOfUsers (some 1), params⟩ := by
  have equal : (toJson (ordersOfUsers none)).equals (toJson (ordersOfUsers (some 1))) = true := rfl
  have same : (toJson (ordersOfUsers none)).numbers = (toJson (ordersOfUsers (some 1))).numbers := rfl
  exact ⟨equal, same, toSql_eq_of_equals equal same⟩

/-- A count is described alike as an integer and as the floating point number of its value, and is
written differently. -/
theorem equal_descriptions_of_counts :
    let first (count : Json) : Operation :=
      [.page .take (.constant count), .fromSource "users" "" [] ""]
    (toJson (first (.int 1))).equals (toJson (first (.double (.ofInt 1)))) = true ∧
      Dialect.postgres.toSql ⟨first (.int 1), .obj []⟩ =
        .ok ⟨"SELECT * FROM \"users\" LIMIT 1", .obj []⟩ ∧
      Dialect.postgres.toSql ⟨first (.double (.ofInt 1)), .obj []⟩ =
        .ok ⟨"SELECT * FROM \"users\" LIMIT 1.0", .obj []⟩ :=
  ⟨rfl, rfl, rfl⟩

end Operation

end FluentQuery
