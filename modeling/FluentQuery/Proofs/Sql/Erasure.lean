import FluentQuery.Proofs.Sql.Faults

/-!
# Steps that a statement does not read

Each clause of a SELECT is picked out of the chain by what the steps are, so steps that a clause does
not look for can be left out of the chain without changing it.  `SelectChain.erase` leaves steps out:
a query for a truth value is the same without any steps but those that say where its rows come from,
its filters and its terminal steps (`SelectChain.truth_erase`).  A query for rows is the same without an
even number of reversals (`SelectChain.selectQuery_erase`), and without steps that only its SELECT
clause reads up to that clause (`SelectChain.selecting_erase`).
-/

namespace FluentQuery

set_option autoImplicit false

/-- What looks at the elements of a list one after the other, and past those that are left out, is the
same without these. -/
theorem eq_of_filter {α β : Type} {keep : α → Bool} {f : List α → β}
    (congr : ∀ a l l', f l = f l' → f (a :: l) = f (a :: l'))
    (skip : ∀ a l, keep a = false → f (a :: l) = f l) (l : List α) : f (l.filter keep) = f l := by
  induction l with
  | nil => rfl
  | cons a l ih =>
    by_cases kept : keep a = true
    · rw [List.filter_cons_of_pos kept]
      exact congr a _ _ ih
    · rw [List.filter_cons_of_neg kept, ih, skip a l (Bool.not_eq_true _ ▸ kept)]

/-- The first element of a kind that is kept. -/
theorem find?_filter_of_keeps {α : Type} {keep p : α → Bool}
    (reads : ∀ a, p a = true → keep a = true) (l : List α) : (l.filter keep).find? p = l.find? p := by
  rw [List.find?_filter]
  refine congrArg (l.find? ·) (funext fun a => ?_)
  cases is : p a with
  | true => simp [reads a is]
  | false => simp

/-! ### Clauses of a chain with steps left out -/

namespace Clause

variable {keep : Step → Bool}

/-- Erasing other steps keeps all filters. -/
theorem filters_filter (reads : ∀ e, keep (.filter e) = true) (chain : List Step) :
    filters (chain.filter keep) = filters chain := by
  refine eq_of_filter (fun step l l' h => ?_) (fun step l dropped => ?_) chain
  · cases step <;> simp [filters, h]
  · cases step <;> first | rfl | simp [reads] at dropped

/-- Erasing other steps keeps the terminal one. -/
theorem terminal?_filter (reads : ∀ kind e, keep (.terminal kind e) = true)
    (kinds : List TerminalKind) (chain : List Step) :
    terminal? kinds (chain.filter keep) = terminal? kinds chain := by
  refine eq_of_filter (fun step l l' h => ?_) (fun step l dropped => ?_) chain
  · cases step <;> simp [terminal?, h]
  · cases step <;> first | rfl | simp [reads] at dropped

theorem contained?_filter (reads : ∀ e, keep (.contains e) = true) (chain : List Step) :
    contained? (chain.filter keep) = contained? chain := by
  refine eq_of_filter (fun step l l' h => ?_) (fun step l dropped => ?_) chain
  · cases step <;> simp [contained?, h]
  · cases step <;> first | rfl | simp [reads] at dropped

/-- Erasing other steps keeps the aggregate. -/
theorem aggregate?_filter (reads : ∀ kind e, keep (.aggregate kind e) = true) (kind : AggregateKind)
    (chain : List Step) : aggregate? kind (chain.filter keep) = aggregate? kind chain := by
  refine eq_of_filter (fun step l l' h => ?_) (fun step l dropped => ?_) chain
  · cases step <;> simp [aggregate?, h]
  · cases step <;> first | rfl | simp [reads] at dropped

/-- Erasing other steps keeps the last selector. -/
theorem lastSelector?_filter (reads : ∀ e, keep (.select e) = true) (chain : List Step) :
    lastSelector? (chain.filter keep) = lastSelector? chain := by
  refine eq_of_filter (fun step l l' h => ?_) (fun step l dropped => ?_) chain
  · cases step <;> simp [lastSelector?, h]
  · cases step <;> first | rfl | simp [reads] at dropped

theorem groupKey?_filter (reads : ∀ e, keep (.groupBy e) = true) (chain : List Step) :
    groupKey? (chain.filter keep) = groupKey? chain := by
  refine eq_of_filter (fun step l l' h => ?_) (fun step l dropped => ?_) chain
  · cases step <;> simp [groupKey?, h]
  · cases step <;> first | rfl | simp [reads] at dropped

/-- Erasing other steps keeps the first page. -/
theorem page?_filter (reads : ∀ kind e, keep (.page kind e) = true) (kind : PageKind)
    (chain : List Step) : page? kind (chain.filter keep) = page? kind chain := by
  refine eq_of_filter (fun step l l' h => ?_) (fun step l dropped => ?_) chain
  · cases step <;> simp [page?, h]
  · cases step <;> first | rfl | simp [reads] at dropped

/-- Erasing other steps keeps the order. -/
theorem sortKeys_filter (reads : ∀ kind e descending, keep (.sort kind e descending) = true)
    (chain : List Step) : sortKeys (chain.filter keep) = sortKeys chain := by
  -- Keys are added to those found so far, so it is the function of these that is the same.
  rw [sortKeys_eq_foldl, sortKeys_eq_foldl]
  refine congrFun (eq_of_filter (f := fun chain keys => chain.foldl addKey keys)
    (fun step l l' h => ?_) (fun step l dropped => ?_) chain) none
  · exact funext fun keys => congrFun h (addKey keys step)
  · cases step <;> first | rfl | simp [reads] at dropped

/-- Whether some step is of a kind that is kept. -/
theorem any_filter {p : Step → Bool} (reads : ∀ step, p step = true → keep step = true)
    (chain : List Step) : (chain.filter keep).any p = chain.any p := by
  rw [List.any_filter]
  refine congrArg (chain.any ·) (funext fun step => ?_)
  cases is : p step with
  | true => rw [reads step is, Bool.and_true]
  | false => rw [Bool.and_false]

section

variable (terminals : ∀ kind e, keep (.terminal kind e) = true)

include terminals

/-- Predicates are those of filters. -/
theorem predicates_filter (filters : ∀ e, keep (.filter e) = true) (chain : List Step) :
    predicates (chain.filter keep) = predicates chain := by
  unfold predicates terminalPredicates
  rw [filters_filter filters]
  simp only [terminal?_filter terminals]

/-- The limit depends on pages only. -/
theorem limit_filter (pages : ∀ kind e, keep (.page kind e) = true) (d : Dialect)
    (chain : List Step) : limit d (chain.filter keep) = limit d chain := by
  unfold limit
  simp only [terminal?_filter terminals, page?_filter pages]

/-- The order is the same if as many reversals are left, up to those that cancel out. -/
theorem order_filter (sorts : ∀ kind e descending, keep (.sort kind e descending) = true)
    {chain : List Step} (reversed : isReversed (chain.filter keep) = isReversed chain) :
    order (chain.filter keep) = order chain := by
  unfold order
  rw [terminal?_filter terminals, sortKeys_filter sorts, reversed]

end

section

variable (reversals : keep .reverse = true)

include reversals

theorem isReversed_filter (chain : List Step) :
    isReversed (chain.filter keep) = isReversed chain := by
  unfold isReversed
  rw [eq_of_filter (f := List.countP isReverse)]
  · intro step l l' h
    simp only [List.countP_cons, h]
  · intro step l dropped
    cases step <;> first | rfl | cases reversals.symm.trans dropped

/-- Whether a page is reversed depends on pages and reversals only. -/
theorem reversesPage_filter (pages : ∀ kind e, keep (.page kind e) = true) (chain : List Step) :
    reversesPage (chain.filter keep) = reversesPage chain := by
  -- From a page on all reversals count, so these are looked at together with the late ones.
  let reversal (chain : List Step) : Bool × Bool :=
    ((chain.dropWhile (!isPage ·)).any isReverse, chain.any isReverse)
  have same : reversal (chain.filter keep) = reversal chain := by
    refine eq_of_filter (fun step l l' h => ?_) (fun step l dropped => ?_) chain
    · obtain ⟨late, some⟩ := Prod.mk.inj h
      refine Prod.ext ?_ ?_
      · cases page : isPage step <;> simp [reversal, page, some, late]
      · simp [reversal, some]
    · cases step <;> first | rfl | simp [pages, reversals] at dropped
  unfold reversesPage
  rw [isReversed_filter reversals, (Prod.mk.inj same).1]

end

end Clause

/-! ### Queries of a chain with steps left out -/

namespace Sql

/-- A chain without the steps that are not kept. -/
def SelectChain.erase (keep : Step → Bool) (c : SelectChain) : SelectChain :=
  { c with rendered := c.rendered.filter fun rendered => keep rendered.step }

/-- The steps that say where the rows of a statement come from are kept. -/
structure KeepsSources (keep : Step → Bool) : Prop where
  isFrom : ∀ step, step.isFrom = true → keep step = true
  join : ∀ kind inner keys selector shape, keep (.join kind inner keys selector shape) = true
  groupJoin : ∀ inner keys selector shape outerName groupName,
    keep (.groupJoin inner keys selector shape outerName groupName) = true
  selectMany : ∀ collection path selector shape usesDefault,
    keep (.selectMany collection path selector shape usesDefault) = true

/-- The joins of a chain are those of the steps that are kept. -/
theorem joinSources_filter {keep : Step → Bool} (keeps : KeepsSources keep)
    (rendered : List RenderedStep) :
    joinSources (rendered.filter fun step => keep step.step) = joinSources rendered := by
  refine eq_of_filter (fun step l l' h => ?_) (fun step l dropped => ?_) rendered
  · obtain ⟨step, nested⟩ := step
    cases step <;> simp [joinSources, h]
  · obtain ⟨step, nested⟩ := step
    cases step <;> first | rfl | simp [keeps.join] at dropped

namespace SelectChain

variable {keep : Step → Bool} (c : SelectChain)

/-- The steps that are left are those that are kept. -/
@[simp] theorem steps_erase : (c.erase keep).steps = c.steps.filter keep := by
  unfold steps erase
  rw [List.filter_map]
  rfl

variable (keeps : KeepsSources keep)

include keeps

/-- Faults are reported at the same place. -/
theorem place_erase (method : String) : (c.erase keep).place method = c.place method := by
  unfold place
  rw [steps_erase, find?_filter_of_keeps keeps.isFrom]

theorem rejectUnlowered_erase : (c.erase keep).rejectUnlowered = c.rejectUnlowered := by
  unfold rejectUnlowered
  dsimp only
  rw [steps_erase, eq_of_filter (f := List.findSome? _)]
  · simp only [c.place_erase keeps]
  · intro step l l' h
    simp only [List.findSome?_cons, h]
  · intro step l dropped
    cases step <;> first | rfl | simp [keeps.groupJoin, keeps.selectMany] at dropped

/-- The tables are those of steps that are always kept. -/
theorem sources_erase : (c.erase keep).sources = c.sources := by
  have joins : joinSources (c.erase keep).rendered = joinSources c.rendered :=
    joinSources_filter keeps _
  have root : (c.erase keep).rendered.find? (·.step.isFrom) = c.rendered.find? (·.step.isFrom) :=
    find?_filter_of_keeps (fun (rendered : RenderedStep) => keeps.isFrom rendered.step) _
  unfold sources
  rw [root, joins, c.place_erase keeps]
  rfl

end SelectChain

/-- What a query for a truth value reads of a chain is kept. -/
structure KeepsTests (keep : Step → Bool) : Prop extends KeepsSources keep where
  filter : ∀ e, keep (.filter e) = true
  terminal : ∀ kind e, keep (.terminal kind e) = true

namespace SelectChain

variable {keep : Step → Bool} (c : SelectChain)

/-- A query whether some row, or every row, satisfies a predicate reads nothing else. -/
theorem truth_erase (keeps : KeepsTests keep) {kind : TerminalKind} {predicate : Expr}
    (asks : Clause.terminal? [.any, .all] c.steps = some (kind, predicate)) :
    (c.erase keep).statement = c.statement := by
  have any : (c.erase keep).anyQuery predicate = c.anyQuery predicate := by
    unfold anyQuery
    rw [c.rejectUnlowered_erase keeps.1, c.sources_erase keeps.1, steps_erase,
      Clause.filters_filter keeps.filter]
  have all : (c.erase keep).allQuery predicate = c.allQuery predicate := by
    unfold allQuery
    rw [c.rejectUnlowered_erase keeps.1, c.sources_erase keeps.1, steps_erase,
      Clause.filters_filter keeps.filter, c.place_erase keeps.1]
  unfold statement
  rw [steps_erase, Clause.terminal?_filter keeps.terminal, asks]
  cases kind <;> first | exact all | exact any

end SelectChain

end Sql

/-! ### Queries for rows -/

namespace Sql

/-- What a query for rows reads of a chain is kept, its projection and its reversals apart. -/
structure KeepsRows (keep : Step → Bool) : Prop extends KeepsTests keep where
  groupBy : ∀ key, keep (.groupBy key) = true
  sort : ∀ kind key descending, keep (.sort kind key descending) = true
  page : ∀ kind count, keep (.page kind count) = true

namespace SelectChain

/-- The query for the rows of a chain, with the given SELECT clause. -/
def selecting (c : SelectChain) (select : SqlScope → Except CompileError Fragment) :
    Except CompileError Fragment := do
  c.rejectUnlowered
  if Clause.reversesPage c.steps then throw ⟨SqlFault.reverseAfterPaging, c.place "reverse"⟩
  let (sources, scope) ← c.sources
  let selected ← select scope
  let conditions ← conditions scope (Clause.predicates c.steps)
  let groupBy ← c.groupBy scope
  let orderBy ← c.orderBy scope
  let paging ← c.paging scope
  return Fragment.separated " "
    ((Fragment.text "SELECT " ++ selected) ::
      (sources ++ whereOf conditions ++ groupBy ++ orderBy ++ paging))

variable {keep : Step → Bool} (c : SelectChain)

/-- A SELECT is written with its own projection. -/
theorem selectQuery_eq_selecting : c.selectQuery = c.selecting c.projection :=
  rfl

/-- The clauses of a query that is written. -/
theorem selecting_eq_ok {select : SqlScope → Except CompileError Fragment} {text : Fragment}
    (h : c.selecting select = .ok text) :
    ∃ sources scope selected tests groupBy orderBy paging, c.sources = .ok (sources, scope) ∧
      select scope = .ok selected ∧ conditions scope (Clause.predicates c.steps) = .ok tests ∧
      c.groupBy scope = .ok groupBy ∧ c.orderBy scope = .ok orderBy ∧ c.paging scope = .ok paging ∧
      text = Fragment.separated " " ((Fragment.text "SELECT " ++ selected) ::
        (sources ++ whereOf tests ++ groupBy ++ orderBy ++ paging)) := by
  unfold selecting at h
  obtain ⟨-, -, h⟩ := outcome_bind_eq_ok.1 h
  dsimp only at h
  split at h
  · cases h
  obtain ⟨⟨sources, scope⟩, sourced, h⟩ := outcome_bind_eq_ok.1 h
  obtain ⟨selected, selects, h⟩ := outcome_bind_eq_ok.1 h
  obtain ⟨tests, tested, h⟩ := outcome_bind_eq_ok.1 h
  obtain ⟨groupBy, grouped, h⟩ := outcome_bind_eq_ok.1 h
  obtain ⟨orderBy, ordered, h⟩ := outcome_bind_eq_ok.1 h
  obtain ⟨paging, paged, h⟩ := outcome_bind_eq_ok.1 h
  cases h
  exact ⟨sources, scope, selected, tests, groupBy, orderBy, paging, sourced, selects, tested, grouped,
    ordered, paged, rfl⟩

/-- If rows and their order are kept, so is the SELECT with any projection. -/
theorem selecting_erase (keeps : KeepsRows keep)
    (reversed : Clause.isReversed (c.steps.filter keep) = Clause.isReversed c.steps)
    (accepted : Clause.reversesPage (c.steps.filter keep) = Clause.reversesPage c.steps) :
    (c.erase keep).selecting = c.selecting := by
  have groupBy : (c.erase keep).groupBy = c.groupBy := by
    unfold groupBy
    rw [steps_erase, Clause.groupKey?_filter keeps.groupBy]
  have orderBy : (c.erase keep).orderBy = c.orderBy := by
    unfold orderBy
    rw [steps_erase, Clause.order_filter keeps.terminal keeps.sort reversed]
  have paging : (c.erase keep).paging = c.paging := by
    unfold paging
    rw [steps_erase, Clause.page?_filter keeps.page,
      Clause.limit_filter keeps.terminal keeps.page]
    rfl
  unfold selecting
  rw [c.rejectUnlowered_erase keeps.1.1, c.sources_erase keeps.1.1, steps_erase, accepted,
    Clause.predicates_filter keeps.terminal keeps.filter, c.place_erase keeps.1.1, groupBy, orderBy,
    paging]

end SelectChain

end Sql

/-! ### Reversals -/

namespace Clause

/-- Every step but a reversal. -/
def isForward (step : Step) : Bool :=
  !isReverse step

variable (chain : List Step)

theorem isReversed_filter_isForward : isReversed (chain.filter isForward) = false := by
  have none : (chain.filter isForward).countP isReverse = 0 := by
    refine List.countP_eq_zero.2 fun step mem => ?_
    simpa [isForward] using (List.mem_filter.1 mem).2
  unfold isReversed
  rw [none]
  rfl

theorem projection_filter_isForward : projection (chain.filter isForward) = projection chain := by
  have named : (chain.filter isForward).any namesJoinResult = chain.any namesJoinResult := by
    refine any_filter (fun step is => ?_) chain
    cases step <;> first | rfl | cases is
  have aggregate (kind : AggregateKind) :
      aggregate? kind (chain.filter isForward) = aggregate? kind chain :=
    aggregate?_filter (fun _ _ => rfl) kind chain
  unfold projection firstAggregate? aggregateOperand
  rw [terminal?_filter fun _ _ => rfl, lastSelector?_filter fun _ => rfl,
    groupKey?_filter fun _ => rfl, named]
  simp only [aggregate]

end Clause

namespace Sql

open Clause (isForward)

theorem keepsRows_isForward : KeepsRows isForward where
  isFrom step isFrom := by
    cases step <;> first | rfl | cases isFrom
  join _ _ _ _ _ := rfl
  groupJoin _ _ _ _ _ _ := rfl
  selectMany _ _ _ _ _ := rfl
  filter _ := rfl
  terminal _ _ := rfl
  groupBy _ := rfl
  sort _ _ _ := rfl
  page _ _ := rfl

namespace SelectChain

/-- Reversals that cancel out do not change a SELECT. -/
theorem selectQuery_erase (c : SelectChain) (even : Clause.isReversed c.steps = false) :
    (c.erase isForward).selectQuery = c.selectQuery := by
  have distinct : (c.steps.filter isForward).any Clause.isDistinct = c.steps.any Clause.isDistinct := by
    refine Clause.any_filter (fun step is => ?_) _
    cases step <;> first | rfl | cases is
  have projection : (c.erase isForward).projection = c.projection := by
    funext scope
    unfold projection
    rw [steps_erase, Clause.projection_filter_isForward, distinct]
    simp only [c.place_erase keepsRows_isForward.1.1]
  have reversed : Clause.isReversed (c.steps.filter isForward) = Clause.isReversed c.steps := by
    rw [Clause.isReversed_filter_isForward, even]
  have accepted : Clause.reversesPage (c.steps.filter isForward) = Clause.reversesPage c.steps := by
    unfold Clause.reversesPage
    rw [reversed, even, Bool.false_and, Bool.false_and]
  rw [selectQuery_eq_selecting, selectQuery_eq_selecting, projection,
    c.selecting_erase keepsRows_isForward reversed accepted]

end SelectChain

end Sql

/-! ### Operations with steps left out -/

namespace Operation

/-- An operation without the steps that are not kept. -/
def keeping (keep : Step → Bool) (op : Operation) : Operation :=
  op.filter keep

/-- A SELECT: none of its steps starts a statement that changes rows. -/
def OnlyReads (op : Operation) : Prop :=
  ∀ step ∈ chain op, step.isCrud = false

variable {op : Operation} {keep : Step → Bool} (d : Dialect) (params : Json)

theorem level_filter (isFrom : ∀ step, step.isFrom = true → keep step = true) (op : Operation) :
    level (op.filter keep) = (level op).filter keep := by
  induction op with
  | nil => rfl
  | cons step rest ih =>
    cases root : step.isFrom with
    | true => rw [List.filter_cons_of_pos (isFrom step root), level_from root, level_from root,
        List.filter_cons_of_pos (isFrom step root), List.filter_nil]
    | false =>
      rw [level_step root]
      by_cases kept : keep step = true
      · rw [List.filter_cons_of_pos kept, List.filter_cons_of_pos kept, level_step root, ih]
      · rw [List.filter_cons_of_neg kept, List.filter_cons_of_neg kept, ih]

/-- Erasing steps of an operation erases them of its chain. -/
theorem chain_keeping (isFrom : ∀ step, step.isFrom = true → keep step = true) (op : Operation) :
    chain (op.keeping keep) = (chain op).filter keep := by
  unfold chain keeping
  rw [level_filter isFrom, List.filter_reverse]

theorem selectChain_keeping (isFrom : ∀ step, step.isFrom = true → keep step = true)
    (op : Operation) :
    (op.keeping keep).selectChain d params = (op.selectChain d params).erase keep := by
  unfold selectChain Sql.SelectChain.erase
  rw [chain_keeping isFrom, List.filter_map]
  simp only [Function.comp_def, Sql.step_renderStep]

/-- The SQL of a SELECT is the statement of its chain. -/
theorem OnlyReads.sql_eq_statement (reads : op.OnlyReads) (ne : chain op ≠ []) :
    op.sql d params = (op.selectChain d params).statement := by
  cases op with
  | nil => exact absurd rfl ne
  | cons step earlier =>
    obtain ⟨rest, hlevel⟩ := level_cons step earlier
    refine Operation.sql_eq_statement d params (reads step ?_) earlier
    unfold chain
    simp [hlevel]

/-- The SQL of a SELECT of which some steps are kept is the statement of the chain of these. -/
theorem OnlyReads.sql_keeping (reads : op.OnlyReads)
    (isFrom : ∀ step, step.isFrom = true → keep step = true)
    (some : ∃ step ∈ chain op, keep step = true) :
    (op.keeping keep).sql d params = ((op.selectChain d params).erase keep).statement := by
  rw [← selectChain_keeping d params isFrom]
  refine sql_eq_statement d params (fun step mem => ?_) ?_
  · rw [chain_keeping isFrom] at mem
    exact reads step (List.mem_filter.1 mem).1
  · rw [chain_keeping isFrom]
    obtain ⟨step, mem, kept⟩ := some
    exact List.ne_nil_of_mem (List.mem_filter.2 ⟨mem, kept⟩)

end Operation

end FluentQuery
