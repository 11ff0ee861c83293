import FluentQuery.Proofs.Data.StableSort
import FluentQuery.Proofs.Effect
import FluentQuery.Sql.Statement

/-!
# Listings of a table

A listing narrows, sorts and cuts the rows of one base table, in any order of its calls.  The SELECT
that is written for it collects its calls into clauses: all predicates, all sorting keys, and the
first call of each kind that cuts rows off.  `Listing.sql_operation` says so of the text, and of the
cases in which there is none.
-/

namespace FluentQuery

set_option autoImplicit false

/-! ### Calls -/

/-- A call that narrows, sorts or cuts the rows of a table. -/
inductive ListingCall where
  | filter (predicate : Expr)
  | sort (key : Expr) (descending : Bool)
  | page (kind : PageKind) (count : Expr)

namespace ListingCall

def predicate? : ListingCall → Option Expr
  | filter predicate => some predicate
  | _ => none

def key? : ListingCall → Option (Expr × Bool)
  | sort key descending => some (key, descending)
  | _ => none

def page? : ListingCall → Option (PageKind × Expr)
  | page kind count => some (kind, count)
  | _ => none

/-- The steps of calls, in call order: the first sort is an `orderBy`, every later one refines it. -/
def steps (sorted : Bool) : List ListingCall → List Step
  | [] => []
  | filter predicate :: rest => .filter predicate :: steps sorted rest
  | sort key descending :: rest =>
    .sort (if sorted then .thenBy else .orderBy) key descending :: steps true rest
  | page kind count :: rest => .page kind count :: steps sorted rest

end ListingCall

/-- A SELECT over one base table. -/
structure Listing where
  table : String
  schema : String := ""
  aliasHint : String := ""
  calls : List ListingCall

namespace Listing

def root (l : Listing) : Step :=
  .fromSource l.table l.schema [] l.aliasHint

/-- The operation of a listing. -/
def operation (l : Listing) : Operation :=
  (l.root :: ListingCall.steps false l.calls).reverse

end Listing

/-- The clauses of a SELECT over one table. -/
structure Selection where
  predicates : List Expr
  keys : List (Expr × Bool)
  offset : Option Expr
  limit : Option Expr

/-- The count of the first call that pages in the given way. -/
def firstPage? (kind : PageKind) (pages : List (PageKind × Expr)) : Option Expr :=
  (pages.find? (·.1 = kind)).map Prod.snd

namespace ListingCall

def predicates (calls : List ListingCall) : List Expr :=
  calls.filterMap predicate?

def keys (calls : List ListingCall) : List (Expr × Bool) :=
  calls.filterMap key?

def pages (calls : List ListingCall) : List (PageKind × Expr) :=
  calls.filterMap page?

theorem predicates_append (calls more : List ListingCall) :
    predicates (calls ++ more) = predicates calls ++ predicates more :=
  List.filterMap_append

theorem keys_append (calls more : List ListingCall) :
    keys (calls ++ more) = keys calls ++ keys more :=
  List.filterMap_append

theorem pages_append (calls more : List ListingCall) :
    pages (calls ++ more) = pages calls ++ pages more :=
  List.filterMap_append

/-- The predicates are those of the filters. -/
theorem mem_predicates {calls : List ListingCall} {predicate : Expr} :
    predicate ∈ predicates calls ↔ filter predicate ∈ calls := by
  rw [predicates, List.mem_filterMap]
  constructor
  · rintro ⟨call, hcall, hpredicate⟩
    cases call with
    | filter => cases hpredicate; exact hcall
    | _ => cases hpredicate
  · exact fun h => ⟨_, h, rfl⟩

/-- The keys are those of the sorts. -/
theorem mem_keys {calls : List ListingCall} {key : Expr × Bool} :
    key ∈ keys calls ↔ sort key.1 key.2 ∈ calls := by
  rw [keys, List.mem_filterMap]
  constructor
  · rintro ⟨call, hcall, hkey⟩
    cases call with
    | sort => cases hkey; exact hcall
    | _ => cases hkey
  · exact fun h => ⟨_, h, rfl⟩

/-- The clauses that calls amount to: all predicates, all keys, and the first of each kind of
paging. -/
def selection (calls : List ListingCall) : Selection where
  predicates := predicates calls
  keys := keys calls
  offset := firstPage? .skip (pages calls)
  limit := firstPage? .take (pages calls)

end ListingCall

/-! ### Text -/

namespace Selection

open Sql

/-- A clause, unless it has no parts. -/
def clause (keyword separator : String) (parts : List Fragment) : List Fragment :=
  if parts.isEmpty then [] else [Fragment.text keyword ++ Fragment.separated separator parts]

/-- The LIMIT clause.  An offset may need one even if all rows are wanted. -/
def limitSql (s : Selection) (scope : SqlScope) : Except SqlFault (List Fragment) :=
  match s.limit with
  | some count => do return [Fragment.text "LIMIT " ++ (← count.sql scope .value)]
  | none =>
    .ok (if s.offset.isSome && scope.dialect.offsetRequiresLimit then [Fragment.text "LIMIT -1"]
      else [])

/-- `SELECT *`; where DISTINCT would stand there is nothing. -/
def allColumns : Fragment :=
  Fragment.text "SELECT " ++ (Fragment.text "" ++ Fragment.text "*")

/-- The SELECT with the given clauses. -/
def sql (s : Selection) (scope : SqlScope) (source : String) : Except CompileError Fragment := do
  let conditions ← unplaced (Expr.sqlList scope .predicate s.predicates)
  let keys ← unplaced (Expr.sqlOrders scope s.keys)
  let offset ← unplaced (Expr.sqlList scope .value s.offset.toList)
  let limit ← unplaced (s.limitSql scope)
  return Fragment.separated " "
    (allColumns :: Fragment.text ("FROM " ++ source) ::
      (clause "WHERE " " AND " conditions ++ clause "ORDER BY " ", " keys ++
        (limit ++ clause "OFFSET " "" offset)))

end Selection

/-! ### The clauses of a plain chain -/

namespace Clause

/-- A step that narrows, sorts or cuts the rows of a base table, or names it. -/
def IsPlain : Step → Prop
  | .fromSource _ _ [] _ | .filter _ | .sort _ _ _ | .page _ _ => True
  | _ => False

/-- What a chain of plain steps does not ask for. -/
structure Bare (chain : List Step) : Prop where
  terminal (kinds : List TerminalKind) : terminal? kinds chain = none
  contained : contained? chain = none
  aggregate (kind : AggregateKind) : aggregate? kind chain = none
  selector : lastSelector? chain = none
  grouped : groupKey? chain = none
  distinct : chain.any isDistinct = false
  joined : chain.any namesJoinResult = false
  reversed : chain.countP isReverse = 0

/-- A chain that only narrows, sorts and cuts rows projects nothing and aggregates nothing. -/
theorem bare_of_isPlain {chain : List Step} (h : ∀ step ∈ chain, IsPlain step) : Bare chain := by
  induction chain with
  | nil => constructor <;> intros <;> rfl
  | cons step rest ih =>
    have below := ih fun step hstep => h step (List.mem_cons_of_mem _ hstep)
    have plain := h step (List.mem_cons_self ..)
    cases step with
    | fromSource | filter | sort | page =>
      exact ⟨below.terminal, below.contained, below.aggregate, below.selector, below.grouped,
        below.distinct, below.joined, below.reversed⟩
    | _ => exact plain.elim

/-- The sorting keys after one more step. -/
def addKey (keys : Option (List (Expr × Bool))) : Step → Option (List (Expr × Bool))
  | .sort .orderBy key descending => some [(key, descending)]
  | .sort .thenBy key descending => keys.map (· ++ [(key, descending)])
  | _ => keys

/-- Keys are collected from left to right. -/
theorem sortKeys_eq_foldl (chain : List Step) : sortKeys chain = chain.foldl addKey none :=
  rfl

variable {chain : List Step}

/-- All columns are listed. -/
theorem Bare.projection (h : Bare chain) : projection chain = .ok .all := by
  simp [Clause.projection, h.terminal, firstAggregate?, h.aggregate, h.selector, h.joined, h.grouped]

/-- All predicates are those of filters. -/
theorem Bare.predicates (h : Bare chain) : predicates chain = filters chain := by
  simp [Clause.predicates, terminalPredicates, h.terminal]

theorem Bare.order (h : Bare chain) :
    order chain = (sortKeys chain).elim .none .keys := by
  have straight : isReversed chain = false := by simp [isReversed, h.reversed]
  unfold Clause.order
  simp only [h.terminal, straight, Option.isSome_none, bne_self_eq_false, Bool.or_self,
    Bool.bne_false, Bool.false_eq_true, if_false]
  cases sortKeys chain with
  | none => rfl
  | some keys => simp

/-- The limit is that of the first page, unless only an offset asks for one. -/
theorem Bare.limit (h : Bare chain) (d : Dialect) :
    limit d chain = (page? .take chain).elim
      (if (page? .skip chain).isSome && d.offsetRequiresLimit then .unbounded else .none)
      .given := by
  unfold Clause.limit
  simp only [h.terminal, Option.isSome_none, Bool.or_self, Bool.false_eq_true, if_false]
  cases page? .take chain <;> rfl

end Clause

namespace ListingCall

open Clause

/-- Calls of a listing become plain steps. -/
theorem isPlain_of_mem_steps {sorted : Bool} {calls : List ListingCall} {step : Step}
    (h : step ∈ steps sorted calls) : IsPlain step := by
  fun_induction steps sorted calls with
  | case1 => cases h
  | case2 _ _ _ ih | case3 _ _ _ _ ih | case4 _ _ _ _ ih =>
    rcases List.mem_cons.1 h with rfl | h
    · trivial
    · exact ih h

theorem isFrom_of_mem_steps {sorted : Bool} {calls : List ListingCall} {step : Step}
    (h : step ∈ steps sorted calls) : step.isFrom = false := by
  fun_induction steps sorted calls with
  | case1 => cases h
  | case2 _ _ _ ih | case3 _ _ _ _ ih | case4 _ _ _ _ ih =>
    rcases List.mem_cons.1 h with rfl | h
    · rfl
    · exact ih h

/-- The filters of the chain are the predicates of the calls. -/
theorem filters_steps (sorted : Bool) (calls : List ListingCall) :
    filters (steps sorted calls) = predicates calls := by
  fun_induction steps sorted calls with
  | case1 => rfl
  | case2 _ _ _ ih => exact congrArg _ ih
  | case3 _ _ _ _ ih | case4 _ _ _ _ ih => exact ih

/-- The first page of a kind counts. -/
theorem page?_steps (kind : PageKind) (sorted : Bool) (calls : List ListingCall) :
    Clause.page? kind (steps sorted calls) = firstPage? kind (pages calls) := by
  fun_induction steps sorted calls with
  | case1 => rfl
  | case2 _ _ _ ih | case3 _ _ _ _ ih => exact ih
  | case4 _ k count rest ih =>
    have paged : pages (page k count :: rest) = (k, count) :: pages rest := rfl
    rw [Clause.page?, paged, firstPage?, List.find?_cons]
    by_cases same : k = kind
    · simp [same]
    · simp only [same, if_false, decide_false]
      exact ih

/-- Once there is an order, every key refines it. -/
theorem foldl_addKey_steps (earlier : List (Expr × Bool)) (calls : List ListingCall) :
    (steps true calls).foldl addKey (some earlier) = some (earlier ++ keys calls) := by
  induction calls generalizing earlier with
  | nil => exact congrArg some (List.append_nil _).symm
  | cons call rest ih =>
    cases call with
    | filter | page => exact ih earlier
    | sort key descending =>
      have added : keys (sort key descending :: rest) = (key, descending) :: keys rest := rfl
      rw [added, List.append_cons]
      exact ih (earlier ++ [(key, descending)])

/-- All keys count, in the order of their calls. -/
theorem sortKeys_steps (calls : List ListingCall) :
    sortKeys (steps false calls) = if (keys calls).isEmpty then none else some (keys calls) := by
  rw [sortKeys_eq_foldl]
  induction calls with
  | nil => rfl
  | cons call rest ih =>
    cases call with
    | filter | page => exact ih
    | sort key descending => exact foldl_addKey_steps [(key, descending)] rest

end ListingCall

/-! ### The text of a listing -/

namespace Sql

/-- A base table with plain steps on top of it is rendered step by step. -/
theorem renderLevel_concat (d : Dialect) (params : Json) (root : Step) (isFrom : root.isFrom = true)
    {steps : List Step} (h : ∀ step ∈ steps, step.isFrom = false) :
    renderLevel d params (steps ++ [root]) =
      steps.map (renderStep d params) ++ [renderStep d params root] := by
  induction steps with
  | nil => rw [List.nil_append, renderLevel, if_pos isFrom]; rfl
  | cons step rest ih =>
    rw [List.cons_append, renderLevel, h step (List.mem_cons_self ..), if_neg Bool.false_ne_true,
      ih fun s hs => h s (List.mem_cons_of_mem _ hs)]
    rfl

theorem step_renderStep (d : Dialect) (params : Json) (step : Step) :
    (renderStep d params step).step = step := by
  cases step with
  | join kind inner keys selector shape =>
    unfold renderStep
    split <;> simp_all
  | _ => simp only [renderStep]

/-- An operation whose last step does not change rows makes a SELECT. -/
theorem assemble_head {d : Dialect} {params : Json} {last : RenderedStep}
    {earlier : List RenderedStep} (h : last.step.isCrud = false) :
    assemble d params (last :: earlier) =
      SelectChain.statement ⟨d, params, (last :: earlier).reverse⟩ := by
  obtain ⟨step, nested⟩ := last
  cases step with
  | insert | update | delete => cases h
  | _ => rfl

/-- Steps of which none changes rows make a SELECT. -/
theorem assemble_select {d : Dialect} {params : Json} {op : List RenderedStep} (ne : op ≠ [])
    (h : ∀ r ∈ op, r.step.isCrud = false) :
    assemble d params op = SelectChain.statement ⟨d, params, op.reverse⟩ := by
  obtain ⟨last, earlier, rfl⟩ := List.exists_cons_of_ne_nil ne
  exact assemble_head (h last (List.mem_cons_self ..))

end Sql

namespace Listing

open Sql Clause

/-- The steps of a listing with what is rendered for them. -/
theorem renderLevel_operation (l : Listing) (d : Dialect) (params : Json) :
    (renderLevel d params l.operation).reverse =
      (l.root :: ListingCall.steps false l.calls).map (renderStep d params) := by
  rw [operation, List.reverse_cons, renderLevel_concat d params l.root rfl, ← List.map_singleton,
    ← List.map_append, ← List.reverse_cons, List.map_reverse, List.reverse_reverse]
  intro step hstep
  exact ListingCall.isFrom_of_mem_steps (List.mem_reverse.1 hstep)

/-- The chain of a listing. -/
def chain (l : Listing) (d : Dialect) (params : Json) : SelectChain :=
  ⟨d, params, (l.root :: ListingCall.steps false l.calls).map (renderStep d params)⟩

theorem steps_chain (l : Listing) (d : Dialect) (params : Json) :
    (l.chain d params).steps = l.root :: ListingCall.steps false l.calls := by
  unfold chain SelectChain.steps
  rw [List.map_map]
  exact (List.map_congr_left fun step _ => step_renderStep d params step).trans (List.map_id _)

theorem isPlain_steps (l : Listing) :
    ∀ step ∈ l.root :: ListingCall.steps false l.calls, IsPlain step := by
  intro step hstep
  rcases List.mem_cons.1 hstep with rfl | hstep
  · trivial
  · exact ListingCall.isPlain_of_mem_steps hstep

theorem bare_steps (l : Listing) : Bare (l.root :: ListingCall.steps false l.calls) :=
  bare_of_isPlain l.isPlain_steps

variable (l : Listing) (d : Dialect) (params : Json)

/-- A listing is written as one SELECT. -/
theorem sql_eq_statement : l.operation.sql d params = (l.chain d params).statement := by
  have shape : (renderLevel d params l.operation).reverse = (l.chain d params).rendered :=
    l.renderLevel_operation d params
  rw [Operation.sql, assemble_select, shape]
  · rfl
  · intro nil
    rw [nil] at shape
    cases shape
  · intro r hr
    rw [← List.mem_reverse, shape] at hr
    obtain ⟨step, hstep, rfl⟩ := List.mem_map.1 hr
    rw [step_renderStep]
    rcases List.mem_cons.1 hstep with rfl | hstep
    · rfl
    · have plain := ListingCall.isPlain_of_mem_steps hstep
      cases step with
      | insert | update | delete => exact plain.elim
      | _ => rfl

/-- No call of a listing is refused. -/
theorem rejectUnlowered_chain : (l.chain d params).rejectUnlowered = .ok () := by
  unfold SelectChain.rejectUnlowered
  rw [steps_chain, List.findSome?_eq_none_iff.2]
  intro step hstep
  rcases List.mem_cons.1 hstep with rfl | hstep
  · rfl
  · have plain := ListingCall.isPlain_of_mem_steps hstep
    cases step with
    | groupJoin | selectMany => exact plain.elim
    | _ => rfl

/-- A listing joins nothing. -/
theorem joinSources_plain {steps : List Step} (h : ∀ step ∈ steps, IsPlain step) :
    joinSources (steps.map (renderStep d params)) = [] := by
  induction steps with
  | nil => rfl
  | cons step rest ih =>
    have plain := h step (List.mem_cons_self ..)
    have below := ih fun s hs => h s (List.mem_cons_of_mem _ hs)
    cases step with
    | fromSource | filter | sort | page =>
      simp only [List.map_cons, renderStep, joinSources]
      exact below
    | _ => exact plain.elim

/-- A listing has one table, without an alias. -/
theorem sources_chain :
    (l.chain d params).sources =
      .ok ([Fragment.text ("FROM " ++ quoteTable l.schema l.table)], ⟨d, params, [], false⟩) := by
  have none : joinSources (l.chain d params).rendered = [] :=
    joinSources_plain d params l.isPlain_steps
  have first : (l.chain d params).rendered.find? (·.step.isFrom) =
      some (renderStep d params l.root) := by
    have isFrom : (renderStep d params l.root).step.isFrom = true := by rw [step_renderStep]; rfl
    unfold chain
    rw [List.map_cons, List.find?_cons, isFrom]
  unfold SelectChain.sources
  rw [none, first]
  simp only [root, renderStep]
  rfl

/-- ORDER BY has all keys, or is left out. -/
theorem orderBy_chain (scope : SqlScope) :
    (l.chain d params).orderBy scope =
      Selection.clause "ORDER BY " ", " <$>
        unplaced (Expr.sqlOrders scope (ListingCall.keys l.calls)) := by
  have found : sortKeys (l.chain d params).steps =
      if (ListingCall.keys l.calls).isEmpty then none else some (ListingCall.keys l.calls) := by
    rw [steps_chain]
    exact ListingCall.sortKeys_steps l.calls
  unfold SelectChain.orderBy
  rw [steps_chain, l.bare_steps.order, ← l.steps_chain d params, found]
  cases ListingCall.keys l.calls with
  | nil => rfl
  | cons key rest =>
    simp only [List.isEmpty_cons, Bool.false_eq_true, if_false, Option.elim_some]
    cases written : Expr.sqlOrders scope (key :: rest) with
    | error fault => rfl
    | ok parts =>
      obtain ⟨first, -, written⟩ := outcome_bind_eq_ok.1 written
      obtain ⟨others, -, written⟩ := outcome_bind_eq_ok.1 written
      cases written
      rfl

/-- LIMIT and OFFSET have the counts of the first pages. -/
theorem paging_chain (scope : SqlScope) (dialect : scope.dialect = d) :
    (l.chain d params).paging scope = do
      let offset ← unplaced
        (Expr.sqlList scope .value (ListingCall.selection l.calls).offset.toList)
      let limit ← unplaced ((ListingCall.selection l.calls).limitSql scope)
      return limit ++ Selection.clause "OFFSET " "" offset := by
  have page (kind : PageKind) : page? kind (l.chain d params).steps =
      firstPage? kind (ListingCall.pages l.calls) := by
    rw [steps_chain]
    exact ListingCall.page?_steps kind false l.calls
  unfold SelectChain.paging
  have limited := l.bare_steps.limit d
  rw [← l.steps_chain d params] at limited
  have sameDialect : (l.chain d params).dialect = d := rfl
  rw [sameDialect, limited, page, page]
  unfold Selection.limitSql ListingCall.selection
  dsimp only
  rw [dialect]
  have listed (count : Expr) : Expr.sqlList scope .value [count] =
      (count.sql scope .value >>= fun text => .ok [text]) := by
    simp only [Expr.sqlList]
    rfl
  cases firstPage? .skip (ListingCall.pages l.calls) with
  | none =>
    cases firstPage? .take (ListingCall.pages l.calls) with
    | none => rfl
    | some taken =>
      simp only [Option.toList_none, Expr.sqlList, Option.elim_some]
      cases taken.sql scope .value <;> rfl
  | some skipped =>
    simp only [Option.toList_some, listed]
    cases skipped.sql scope .value with
    | error fault => rfl
    | ok offset =>
      cases firstPage? .take (ListingCall.pages l.calls) with
      | none => cases d <;> rfl
      | some taken =>
        simp only [Option.elim_some]
        cases taken.sql scope .value <;> rfl

/-- The clauses of a listing that can fail to be written. -/
theorem selectQuery_chain (scope : SqlScope) (hscope : scope = ⟨d, params, [], false⟩) :
    (l.chain d params).selectQuery = do
      let conditions ← unplaced (Expr.sqlList scope .predicate (ListingCall.predicates l.calls))
      let orderBy ← (l.chain d params).orderBy scope
      let paging ← (l.chain d params).paging scope
      return Fragment.separated " " (Selection.allColumns ::
        Fragment.text ("FROM " ++ quoteTable l.schema l.table) ::
        (Selection.clause "WHERE " " AND " conditions ++ [] ++ orderBy ++ paging)) := by
  subst hscope
  have bare := l.bare_steps
  have straight : reversesPage (l.root :: ListingCall.steps false l.calls) = false := by
    simp [reversesPage, isReversed, bare.reversed]
  have grouped (scope : SqlScope) : (l.chain d params).groupBy scope = .ok [] := by
    rw [SelectChain.groupBy, steps_chain, bare.grouped]
  have projected (scope : SqlScope) : (l.chain d params).projection scope =
      .ok (Fragment.text "" ++ Fragment.text "*") := by
    rw [SelectChain.projection, steps_chain, bare.projection, bare.distinct]
    rfl
  have conditioned : predicates (l.root :: ListingCall.steps false l.calls) =
      ListingCall.predicates l.calls := by
    rw [bare.predicates]
    exact ListingCall.filters_steps false l.calls
  rw [SelectChain.selectQuery, rejectUnlowered_chain, steps_chain, straight, sources_chain,
    conditioned]
  simp only [projected, grouped]
  rfl

/-- The SELECT that is written for a listing has its clauses. -/
theorem sql_operation :
    l.operation.sql d params =
      (ListingCall.selection l.calls).sql ⟨d, params, [], false⟩ (quoteTable l.schema l.table) := by
  have bare := l.bare_steps
  rw [sql_eq_statement, SelectChain.statement, steps_chain, bare.terminal, bare.contained]
  dsimp only
  rw [l.selectQuery_chain d params _ rfl, orderBy_chain, l.paging_chain d params _ rfl]
  unfold Selection.sql
  simp only [map_eq_pure_bind, bind_assoc, pure_bind, List.append_nil]
  rfl

end Listing

end FluentQuery
