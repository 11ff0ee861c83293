import FluentQuery.Proofs.Operation.Statements
import FluentQuery.Proofs.Plan.PlanParams
import FluentQuery.Proofs.Plan.RepeatedCalls
import FluentQuery.Proofs.Resolve.CountValues

/-!
# Counts of rows

The counts in the operation of a plan are what the arguments of `take` and `skip` in its builder and its
calls have become, those in nested queries included (`Node.counts`), and each is bound to the value of
its argument.  Only literals are checked, so all of them count rows exactly if the other arguments do:
`paging_counts_are_counts_iff`.
-/

namespace FluentQuery

set_option autoImplicit false

/-! ### Counts of operations -/

/-- The count of a step that pages. -/
def Step.count? : Step → Option Expr
  | page _ count => some count
  | _ => none

/-- A step of a SELECT that does not page. -/
structure Step.IsQuiet (step : Step) : Prop where
  isFrom : step.isFrom = false
  isCrud : step.isCrud = false
  uncounted : step.count? = none

namespace Operation

/-- Every count of an operation has a property. -/
def EveryCount (p : Expr → Prop) (op : Operation) : Prop :=
  op.Everywhere fun step _ => ∀ e ∈ step.count?, p e

variable {p : Expr → Prop} {step : Step} {earlier op : Operation}

theorem everyCount_nil : EveryCount p [] :=
  .nil

theorem everyCount_from (isFrom : step.isFrom = true) :
    EveryCount p (step :: earlier) ↔ EveryCount p step.nested :=
  everywhere_from isFrom

theorem everyCount_step (isFrom : step.isFrom = false) :
    EveryCount p (step :: earlier) ↔
      (∀ e ∈ step.count?, p e) ∧ EveryCount p step.nested ∧ EveryCount p earlier :=
  everywhere_step isFrom

/-- The normal form has the same counts. -/
theorem everyCount_normalize : EveryCount p (normalize op) ↔ EveryCount p op := by
  refine everywhere_normalize_iff (fun step _ lowerable => ?_) (fun _ _ _ => .rfl) fun _ _ _ _ => .rfl
  have uncounted : step.count? = none := by
    cases step <;> first | rfl | cases lowerable
  simp [uncounted]

end Operation

/-! ### Written counts -/

/-- The arguments of a call that are counts. -/
def Method.counts : Method → List Node → List Node
  | .page _, arguments => arguments
  | _, _ => []

namespace Node

/-- The arguments of a call that are counts, by the name of the method. -/
def callCounts (name : String) (arguments : List Node) : List Node :=
  match Method.ofName? name with
  | some method => method.counts arguments
  | none => []

mutual

/-- The counts in a chain, those of its nested queries included. -/
def counts : Node → List Node
  | .arrow _ body => body.counts
  | .block [.returnStatement (some value)] => value.counts
  | .call (.identifier name) arguments => if callTakesQuery name then firstCounts arguments else []
  | .call (.member receiver property _) arguments =>
    receiver.counts ++ (callCounts property.keyName arguments ++
      if callTakesQuery property.keyName then firstCounts arguments else [])
  | _ => []

/-- The counts in the first of several nodes, which is a query of its own. -/
def firstCounts : List Node → List Node
  | [] => []
  | first :: _ => first.counts

end

/-- The counts in a lambda are those of what it returns. -/
theorem counts_arrow {body value : Node} (returned : body.lambdaBody = .ok value)
    (names : List String) :
    (arrow names body).counts = value.counts := by
  unfold lambdaBody at returned
  split at returned <;> cases returned <;> rfl

/-- The counts in a root, which may start at a query. -/
def rootCounts (method : RootMethod) (arguments : List Node) : List Node :=
  if method = .from then firstCounts arguments else []

/-- A root is no method of a query. -/
theorem counts_root {name : String} {root : RootMethod} (named : RootMethod.ofName? name = some root)
    (arguments : List Node) :
    (callCounts name arguments ++ if callTakesQuery name then firstCounts arguments else []) =
      rootCounts root arguments := by
  obtain rfl := RootMethod.name_of_ofName? named
  cases root <;> rfl

/-- What an argument has become is bound to its value, which was checked if the argument is a
literal. -/
structure Counted (names : NameSet) (node : Node) (e : Expr) (s : Scope) : Prop where
  known : node.Known names e s
  checked : ∀ value, node = .literal value → value.IsCount

end Node

variable {names : NameSet} {s s' : Scope}

/-- The counts of an operation are what arguments have become. -/
def Operation.Counts (names : NameSet) (nodes : List Node) (op : Operation) (s : Scope) : Prop :=
  ∃ es, List.Forall₂ (fun node e => node.Counted names e s) nodes es ∧
    ∀ p, op.EveryCount p ↔ ∀ e ∈ es, p e

namespace Operation.Counts

variable {nodes nodes' : List Node} {step : Step} {op earlier : Operation}

theorem nil : Counts names [] [] s :=
  ⟨[], .nil, fun _ => iff_of_true everyCount_nil (List.forall_mem_nil _)⟩

/-- Counts stay what they are while values are kept. -/
theorem retains (h : op.Counts names nodes s) (later : s.Retains s') : op.Counts names nodes s' := by
  obtain ⟨es, counted, every⟩ := h
  exact ⟨es, counted.imp fun _ _ c => ⟨c.known.retains later, c.checked⟩, every⟩

/-- Only the counts of an operation matter. -/
theorem congr (h : op.Counts names nodes s) {op' : Operation}
    (same : ∀ p, op'.EveryCount p ↔ op.EveryCount p) : op'.Counts names nodes s := by
  obtain ⟨es, counted, every⟩ := h
  exact ⟨es, counted, fun p => (same p).trans (every p)⟩

/-- A root has the counts of the query it starts from. -/
theorem start (isFrom : step.isFrom = true) (h : step.nested.Counts names nodes s) :
    Counts names nodes (step :: earlier) s :=
  h.congr fun _ => everyCount_from isFrom

/-- A step that does not page is added, with the query that it holds. -/
theorem add (h : earlier.Counts names nodes s) (quiet : step.IsQuiet)
    (nested : step.nested.Counts names nodes' s) :
    Counts names (nodes ++ nodes') (step :: earlier) s := by
  obtain ⟨es, counted, every⟩ := h
  obtain ⟨es', counted', every'⟩ := nested
  refine ⟨es ++ es', List.rel_append counted counted', fun p => ?_⟩
  rw [everyCount_step quiet.isFrom, quiet.uncounted, every, every', List.forall_mem_append]
  simp [and_comm]

/-- A page adds its count behind those before it. -/
theorem addPage (h : earlier.Counts names nodes s) {node : Node} {e : Expr}
    (counted : node.Counted names e s) (kind : PageKind) :
    Counts names (nodes ++ [node]) (.page kind e :: earlier) s := by
  obtain ⟨es, others, every⟩ := h
  refine ⟨es ++ [e], List.rel_append others (.cons counted .nil), fun p => ?_⟩
  rw [everyCount_step rfl, every, List.forall_mem_append, List.forall_mem_singleton]
  simp [Step.count?, Step.nested, everyCount_nil, and_comm]

end Operation.Counts

namespace Resolve

/-! ### Lambdas -/

theorem mints_of_tidy {α : Type} {work : Resolve α} {post : α → Scope → Prop}
    (tidy : Tidy .everything post work) : Leads s (fun _ s' => s.Mints s') work :=
  Ensures.mono (tidy s s.within_everything) (fun _ _ h => h.1) fun _ _ => trivial

/-- A lambda that is resolved leaves nothing but new parameters. -/
theorem mints_lambda (node : Node) (isPredicate : Bool) (method : String)
    {bindParams : List String → Resolve Unit}
    (binds : ∀ params, Rebinds .everything (bindParams params)) :
    Leads s (fun _ s' => s.Mints s') (node.resolveLambda isPredicate method bindParams) :=
  mints_of_tidy (node.tidy_resolveLambda isPredicate method bindParams fun params _ _ => binds params)

theorem mints_rowValue (node : Node) : Leads s (fun _ s' => s.Mints s') (rowValue node) :=
  .get (mints_lambda node false _ (rebinds_bindRowParams fun _ => trivial))

theorem mints_rowPredicate (node : Node) : Leads s (fun _ s' => s.Mints s') (rowPredicate node) := by
  refine .get (.bind (mints_lambda node true _ (rebinds_bindRowParams fun _ => trivial)) ?_)
  intro e s' minted
  refine .intro fun e' t run => ?_
  obtain ⟨-, rfl⟩ := ofExcept_eq_ok.1 (show ofExcept e.toBoolean s' = .ok e' t from run)
  exact minted

/-- The keys of a join leave nothing but new parameters. -/
theorem mints_joinKeys (outer inner : Node) :
    Leads s (fun _ s' => s.Mints s') (joinKeys outer inner) := by
  refine .get (.bind (mints_lambda outer false _ (rebinds_bindOuterParam trivial)) ?_)
  intro e s₁ minted₁
  refine .bind (leads_pickKey "outer" e) ?_
  rintro ⟨outerColumn, table⟩ _ rfl
  refine .bind (mints_lambda inner false _ rebinds_bindTableParam) ?_
  intro e' s₂ minted₂
  refine .bind (leads_pickKey "inner" e') ?_
  rintro ⟨innerColumn, _⟩ _ rfl
  exact .pure (minted₁.trans minted₂)

theorem mints_resultSelector (index : Int) (node : Node) :
    Leads s (fun _ s' => s.Mints s') (resultSelector index node) :=
  .get (mints_lambda node false _ (rebinds_bindResultParams trivial trivial))

/-! ### Methods of a SELECT -/

/-- What a chain of a SELECT leaves: the counts so far are what the arguments so far have become. -/
structure Listed (names : NameSet) (start : Scope) (nodes : List Node) (op : Operation) (s : Scope) :
    Prop where
  between : s.Between names
  retains : start.Retains s
  selects : op.head?.any Step.isCrud = false
  counts : op.Counts names nodes s

/-- A query of its own, resolved between two calls. -/
def Lists (names : NameSet) (nodes : List Node) (query : Resolve Operation) : Prop :=
  ∀ s : Scope, s.Between names → Leads s (Listed names s nodes) query

section

variable {start : Scope} {nodes : List Node} {source : Operation}
  (h : Listed names start nodes source s)

include h

theorem Listed.later (later : s'.Between names ∧ s.Retains s') : Listed names start nodes source s' :=
  ⟨later.1, h.retains.trans later.2, h.selects, h.counts.retains later.2⟩

/-- New parameters change no count. -/
theorem Listed.mints (minted : s.Mints s') : Listed names start nodes source s' :=
  h.later (h.between.mints minted)

/-- Of the statement something else is known. -/
theorem Listed.same (same : s.SameAutoParams s')
    (bindings : s'.bindings = { s.bindings with shape := s'.bindings.shape }) :
    Listed names start nodes source s' :=
  h.later (h.between.same same bindings)

/-- A step is added that neither pages nor holds a query. -/
theorem Listed.add {step : Step} (quiet : step.IsQuiet) (nested : step.nested = []) :
    Listed names start nodes (step :: source) s := by
  refine ⟨h.between, h.retains, quiet.isCrud, ?_⟩
  have added := h.counts.add quiet (nested ▸ .nil : step.nested.Counts names [] s)
  rwa [List.append_nil] at added

/-- A step without a count may be added. -/
theorem listed_push (make : Expr → Step) (quiet : ∀ e, (make e).IsQuiet)
    (nested : ∀ e, (make e).nested = []) {work : Resolve Expr}
    (mints : Leads s (fun _ s' => s.Mints s') work) :
    Leads s (Listed names start nodes) (work >>= fun e => pure (make e :: source)) := by
  refine .bind mints ?_
  intro e s' minted
  exact .pure ((h.mints minted).add (quiet e) (nested e))

variable (isOpen : source.IsOpen) (arguments : List Node)

include isOpen

/-- `where` has no count. -/
theorem listed_filter : Leads s (Listed names start nodes) (filter source arguments) := by
  unfold filter
  split
  · split
    · cases isOpen.1
    · cases isOpen.1
    · exact .require isOpen (listed_push h .filter (fun _ => ⟨rfl, rfl, rfl⟩) (fun _ => rfl)
        (mints_rowPredicate _))
  · exact .failArguments

theorem listed_select : Leads s (Listed names start nodes) (select source arguments) := by
  refine .require isOpen ?_
  split
  · refine .bind (mints_rowValue _) ?_
    intro selector s' minted
    refine .modify (.modify (.pure (.add ?_ ⟨rfl, rfl, rfl⟩ rfl)))
    exact (h.mints minted).same ⟨rfl, rfl, rfl⟩ rfl
  · exact .failArguments

theorem listed_groupBy : Leads s (Listed names start nodes) (groupBy source arguments) := by
  refine .require isOpen ?_
  split
  · refine .get ?_
    dsimp only
    split
    · exact trivial
    · refine .bind (mints_rowValue _) ?_
      intro key s' minted
      refine .modify (.pure (.add ?_ ⟨rfl, rfl, rfl⟩ rfl))
      exact (h.mints minted).same ⟨rfl, rfl, rfl⟩ rfl
  · exact .failArguments

/-- A sort has no count. -/
theorem listed_sort (kind : SortKind) (descending : Bool) :
    Leads s (Listed names start nodes) (sort kind descending source arguments) := by
  refine .require isOpen ?_
  split
  · dsimp only
    split
    · exact trivial
    · exact listed_push h (.sort kind · descending) (fun _ => ⟨rfl, rfl, rfl⟩) (fun _ => rfl)
        (mints_rowValue _)
  · exact .failArguments

/-- A call that pages adds the count that is its argument, a literal after a check. -/
theorem listed_page (kind : PageKind) :
    Leads s (Listed names start (nodes ++ arguments)) (page kind source arguments) := by
  refine .require isOpen ?_
  split
  · split
    · rename_i n
      dsimp only
      split
      · exact trivial
      · rename_i checked
        refine .intro fun op s' run => ?_
        obtain ⟨count, t, first, rest⟩ := bind_eq_ok.1 run
        cases rest
        have known : (Node.literal (.int n)).Known names count s' :=
          known_autoParam first fun _ => rfl
        have later := h.mints ((tidy_autoParam _ _ _).mints first)
        refine ⟨later.between, later.retains, rfl, later.counts.addPage ⟨known, ?_⟩ kind⟩
        rintro _ ⟨⟩
        exact Int.not_lt.1 checked
    · exact trivial
  · rename_i argument notLiteral
    refine .intro fun op s' run => ?_
    obtain ⟨count, t, first, rest⟩ := bind_eq_ok.1 run
    cases rest
    have later := h.mints ((Node.tidy_resolve argument false).mints first)
    refine ⟨later.between, later.retains, rfl, later.counts.addPage ⟨?_, ?_⟩ kind⟩
    · exact Node.known_resolve h.between argument count s' first
    · intro value is
      exact absurd (by rw [is]) (notLiteral value)
  · exact .failArguments

theorem listed_mark {step : Step} (quiet : step.IsQuiet) (nested : step.nested = []) :
    Leads s (Listed names start nodes) (mark step source arguments) := by
  refine .require isOpen ?_
  split
  · exact .pure (h.add quiet nested)
  · exact .failArguments

/-- A terminal step has no count. -/
theorem listed_terminal (kind : TerminalKind) :
    Leads s (Listed names start nodes) (terminal kind source arguments) := by
  refine .require isOpen ?_
  split
  · exact listed_push h (.terminal kind) (fun _ => ⟨rfl, rfl, rfl⟩) (fun _ => rfl)
      (mints_rowPredicate _)
  · generalize (if kind = TerminalKind.all then 1 else 0) = least
    dsimp only
    split
    · exact .pure (h.add ⟨rfl, rfl, rfl⟩ rfl)
    · exact .failArguments

theorem listed_contains : Leads s (Listed names start nodes) (contains source arguments) := by
  have push {work : Resolve Expr} (mints : Leads s (fun _ s' => s.Mints s') work) :
      Leads s (Listed names start nodes) (work >>= fun e => pure (.contains e :: source)) :=
    listed_push h .contains (fun _ => ⟨rfl, rfl, rfl⟩) (fun _ => rfl) mints
  refine .require isOpen ?_
  split
  · dsimp only
    split
    · split
      · exact push (mints_of_tidy (tidy_literal _ _))
      · exact push (mints_of_tidy (tidy_autoParam _ _ _))
    · exact push (mints_of_tidy (Node.tidy_resolve _ false))
  · exact .failArguments

theorem listed_aggregate (kind : AggregateKind) :
    Leads s (Listed names start nodes) (aggregate kind source arguments) := by
  refine .require isOpen ?_
  split
  · exact .pure (h.add ⟨rfl, rfl, rfl⟩ rfl)
  · exact listed_push h (.aggregate kind) (fun _ => ⟨rfl, rfl, rfl⟩) (fun _ => rfl)
      (mints_rowValue _)
  · exact .failArguments

end

/-! ### Joins and collections -/

/-- A query has been resolved that a step is going to hold. -/
structure Holding (names : NameSet) (start : Scope) (nodes nodes' : List Node)
    (source inner : Operation) (s : Scope) : Prop where
  outer : Listed names start nodes source s
  inner : inner.Counts names nodes' s

section

variable {start : Scope} {nodes nodes' : List Node} {source inner : Operation}

namespace Holding

variable (h : Holding names start nodes nodes' source inner s)

include h

/-- New parameters change no count of either query. -/
theorem mints (minted : s.Mints s') : Holding names start nodes nodes' source inner s' :=
  ⟨h.outer.mints minted, h.inner.retains (h.outer.between.mints minted).2⟩

theorem same (same : s.SameAutoParams s')
    (bindings : s'.bindings = { s.bindings with shape := s'.bindings.shape }) :
    Holding names start nodes nodes' source inner s' :=
  ⟨h.outer.same same bindings, h.inner.retains same.retains⟩

/-- The step that holds the query is added. -/
theorem listed {step : Step} (quiet : step.IsQuiet) (nested : step.nested = inner) :
    Listed names start (nodes ++ nodes') (step :: source) s :=
  ⟨h.outer.between, h.outer.retains, quiet.isCrud,
    h.outer.counts.add quiet (nested ▸ h.inner)⟩

/-- A step that joins the query is added, and rows have a new shape. -/
theorem finish {step : Step} (quiet : step.IsQuiet) (nested : step.nested = inner)
    (same : s.SameAutoParams s')
    (bindings : s'.bindings = { s.bindings with shape := s'.bindings.shape }) :
    Listed names start (nodes ++ nodes') (step :: source) s' :=
  (h.same same bindings).listed quiet nested

end Holding

/-- A nested query has the counts in its argument. -/
theorem holding_query (h : Listed names start nodes source s) {query : Resolve Operation}
    (lists : Lists names nodes' query) :
    Leads s (Holding names start nodes nodes' source) query := by
  refine (lists s h.between).mono ?_ fun _ => id
  intro op s' inner
  exact ⟨h.later ⟨inner.between, inner.retains⟩, inner.counts⟩

/-- A join adds the counts of its query behind those before it. -/
theorem listed_finishJoin (h : Holding names start nodes nodes' source inner s) (kind : JoinKind)
    (keys : JoinKeys) (selector : Expr) (index : Int) :
    Leads s (Listed names start (nodes ++ nodes'))
      (finishJoin kind inner keys selector index source) := by
  show Listed _ _ _ (.join kind inner keys selector selector.resultShape :: source) _
  exact h.finish ⟨rfl, rfl, rfl⟩ rfl ⟨rfl, rfl, rfl⟩ rfl

/-- A collection adds the counts of its query behind those before it. -/
theorem listed_finishSelectMany (h : Holding names start nodes nodes' source inner s)
    (path : List String) (usesDefault : Bool) (index : Int) (selector? : Option Node) :
    Leads s (Listed names start (nodes ++ nodes'))
      (finishSelectMany inner path usesDefault index selector? source) := by
  unfold finishSelectMany
  split
  · refine .bind (mints_resultSelector _ _) ?_
    intro e s' minted
    show Listed _ _ _ (.selectMany inner _ e e.resultShape usesDefault :: source) _
    exact (h.mints minted).finish ⟨rfl, rfl, rfl⟩ rfl ⟨rfl, rfl, rfl⟩ rfl
  · show Listed _ _ _ (.selectMany inner _ .absent _ usesDefault :: source) _
    exact h.finish ⟨rfl, rfl, rfl⟩ rfl ⟨rfl, rfl, rfl⟩ rfl

end

/-- A path from a row to a collection holds no count. -/
theorem counts_of_path {argument : Node} {c : Collection} (found : argument.collection = .ok c)
    (leads : c.path ≠ []) : argument.counts = [] := by
  -- Only a chain of members, perhaps with a mark behind it, is such a path.
  have members {param : String} {path : List String} {body : Node} (h : body.pathFrom param path ≠ [])
      (empty : path = []) : ∃ receiver property computed,
        body = .member receiver property computed := by
    cases body with
    | member receiver property computed => exact ⟨_, _, _, rfl⟩
    | identifier name =>
      rw [Node.pathFrom, empty, ite_self] at h
      exact absurd rfl h
    | _ => exact absurd rfl h
  have stripped {node : Node} (h : ∃ receiver property computed,
      node.stripDefault.1 = .member receiver property computed) : node.counts = [] := by
    obtain ⟨receiver, property, computed, same⟩ := h
    unfold Node.stripDefault at same
    split at same
    · split at same
      · rename_i named
        cases same
        simp only [Node.counts, named]
        rfl
      · cases same
    · cases same
      rfl
  cases argument with
  | arrow params body =>
    obtain ⟨inner, returned, rest⟩ := outcome_bind_eq_ok.1 found
    cases rest
    have path : inner.stripDefault.1.pathFrom (params.headD "") [] ≠ [] := by
      refine fun empty => leads ?_
      show (if (params.headD "").isEmpty then []
        else inner.stripDefault.1.pathFrom (params.headD "") []) = []
      rw [empty, ite_self]
    have empty := stripped (members path rfl)
    rw [Node.counts]
    unfold Node.lambdaBody at returned
    split at returned
    · cases returned
      rw [Node.counts]
      exact empty
    · cases returned
    · cases returned
    · cases returned
      exact empty
  | _ =>
    cases found
    exact absurd rfl leads

section

variable {start : Scope} {nodes : List Node} {source : Operation}
  (h : Listed names start nodes source s) (isOpen : source.IsOpen) (arguments : List Node)
  {query : Resolve Operation}
  (lists : arguments ≠ [] → Lists names (Node.firstCounts arguments) query)

include h isOpen lists

theorem listed_join (kind : JoinKind) :
    Leads s (Listed names start (nodes ++ Node.firstCounts arguments))
      (join kind source arguments query) := by
  refine .require isOpen (.get ?_)
  dsimp only
  split
  · split
    · refine .bind (holding_query h (lists (by simp))) ?_
      intro op s₁ holding
      exact listed_finishJoin holding kind _ _ _
    · refine .bind (holding_query h (lists (by simp))) ?_
      intro op s₁ holding
      refine .bind (mints_resultSelector _ _) ?_
      intro e s₂ minted
      exact listed_finishJoin (holding.mints minted) kind _ _ _
    · exact .failArguments
  · split
    · refine .bind (holding_query h (lists (by simp))) ?_
      intro op s₁ holding
      refine .bind (mints_joinKeys _ _) ?_
      intro keys s₂ minted
      exact listed_finishJoin (holding.mints minted) kind _ _ _
    · refine .bind (holding_query h (lists (by simp))) ?_
      intro op s₁ holding
      refine .bind (mints_joinKeys _ _) ?_
      intro keys s₂ minted
      refine .bind (mints_resultSelector _ _) ?_
      intro e s₃ minted'
      exact listed_finishJoin ((holding.mints minted).mints minted') kind _ _ _
    · exact .failArguments

theorem listed_groupJoin :
    Leads s (Listed names start (nodes ++ Node.firstCounts arguments))
      (groupJoin source arguments query) := by
  refine .require isOpen ?_
  split
  · refine .get (.bind (holding_query h (lists (by simp))) ?_)
    intro op s₁ holding
    refine .bind (mints_joinKeys _ _) ?_
    intro keys s₂ minted
    refine .bind (mints_resultSelector _ _) ?_
    intro e s₃ minted'
    have holding := (holding.mints minted).mints minted'
    split
    · dsimp only
      split
      · exact .fail
      · show Listed _ _ _ (.groupJoin op keys _ _ _ _ :: source) _
        exact holding.finish ⟨rfl, rfl, rfl⟩ rfl ⟨rfl, rfl, rfl⟩ rfl
    · exact .fail
  · exact .failArguments

omit isOpen lists in
/-- A collection adds the counts in its argument. -/
theorem listed_flatten (argument : Node) (lists : Lists names argument.counts query)
    (selector? : Option Node) :
    Leads s (Listed names start (nodes ++ argument.counts))
      (flatten argument selector? source query) := by
  unfold flatten
  split
  · exact .failUnplaced
  · rename_i collection found
    dsimp only
    split
    · refine .bind (holding_query h lists) ?_
      intro op s₁ holding
      refine .get (.modify ?_)
      have holding : Holding names start nodes argument.counts source op
          { s₁ with tableCount := s₁.tableCount + 1 } := holding.same ⟨rfl, rfl, rfl⟩ rfl
      split
      · refine listed_finishSelectMany ⟨holding.outer, holding.inner.congr fun p => ?_⟩ [] true _
          selector?
        rw [Operation.everyCount_step rfl]
        simp [Step.count?, Step.nested, Operation.everyCount_nil]
      · exact listed_finishSelectMany holding [] _ _ selector?
    · rename_i leads
      rw [counts_of_path found (by simpa using leads)]
      refine .bind (leads_steadyTable _) ?_
      rintro index _ rfl
      exact listed_finishSelectMany ⟨h, .nil⟩ _ _ _ selector?

theorem listed_selectMany :
    Leads s (Listed names start (nodes ++ Node.firstCounts arguments))
      (selectMany source arguments query) := by
  refine .require isOpen ?_
  split
  · exact listed_flatten h _ (lists (by simp)) _
  · exact listed_flatten h _ (lists (by simp)) _
  · exact .failArguments

end

/-! ### Chains -/

/-- What a chain leaves: a statement that changes rows, where no call pages, or a SELECT with its
counts. -/
def Ends (names : NameSet) (start : Scope) (nodes : List Node) (op : Operation) (s : Scope) : Prop :=
  (∃ step rest, op = step :: rest ∧ step.isCrud = true ∧ nodes = [] ∧ ∀ p, op.EveryCount p) ∨
    Listed names start nodes op s

theorem Ends.counts {start : Scope} {nodes : List Node} {op : Operation}
    (h : Ends names start nodes op s) : op.Counts names nodes s := by
  rcases h with ⟨step, rest, rfl, -, rfl, uncounted⟩ | listed
  · exact ⟨[], .nil, fun p => iff_of_true (uncounted p) (List.forall_mem_nil _)⟩
  · exact listed.counts

section

variable {start : Scope} {nodes : List Node} {source : Operation} (arguments : List Node)
  {inner collection : Resolve Operation}

/-- One call of a SELECT adds its counts. -/
theorem listed_apply (h : Listed names start nodes source s) (isOpen : source.IsOpen) (method : Method)
    (nests : method.takesQuery = true → arguments ≠ [] →
      Lists names (Node.firstCounts arguments) inner ∧
        Lists names (Node.firstCounts arguments) collection) :
    Leads s (Listed names start (nodes ++ (method.counts arguments ++
        if method.takesQuery then Node.firstCounts arguments else [])))
      (apply method source arguments inner collection) := by
  have quiet {work : Resolve Operation} (listed : Leads s (Listed names start nodes) work) :
      Leads s (Listed names start (nodes ++ ([] ++ []))) work := by
    rwa [List.append_nil, List.append_nil]
  cases method with
  | filter => exact quiet (listed_filter h isOpen arguments)
  | select => exact quiet (listed_select h isOpen arguments)
  | groupBy => exact quiet (listed_groupBy h isOpen arguments)
  | sort kind descending => exact quiet (listed_sort h isOpen arguments kind descending)
  | page kind =>
    show Leads s (Listed names start (nodes ++ (arguments ++ []))) _
    rw [List.append_nil]
    exact listed_page h isOpen arguments kind
  | distinct | reverse | defaultIfEmpty =>
    exact quiet (listed_mark h isOpen arguments ⟨rfl, rfl, rfl⟩ rfl)
  | join kind => exact listed_join h isOpen arguments (fun ne => (nests rfl ne).1) kind
  | groupJoin => exact listed_groupJoin h isOpen arguments fun ne => (nests rfl ne).1
  | selectMany => exact listed_selectMany h isOpen arguments fun ne => (nests rfl ne).2
  | terminal kind => exact quiet (listed_terminal h isOpen arguments kind)
  | contains => exact quiet (listed_contains h isOpen arguments)
  | aggregate kind => exact quiet (listed_aggregate h isOpen arguments kind)
  | values => exact .refuse isOpen (yields_values arguments)
  | onConflict => exact .refuse isOpen (yields_onConflict arguments)
  | doNothing => exact .refuse isOpen (yields_doNothing arguments)
  | doUpdateSet => exact .refuse isOpen (yields_doUpdateSet arguments)
  | returning => exact .refuse isOpen (yields_returning arguments)
  | set => exact .refuse isOpen (yields_setColumns arguments)
  | allowFullTableUpdate => exact .refuse isOpen (yields_allowFullTableUpdate arguments)
  | allowFullTableDelete => exact .refuse isOpen (yields_allowFullTableDelete arguments)

/-- A call that changes a statement neither pages nor takes a query. -/
theorem uncounted_of_changes {method : Method} {op : Operation} {step : Step} {rest : Operation}
    (isCrud : step.isCrud = true)
    (run : apply method (step :: rest) arguments inner collection s = .ok op s') :
    method.counts arguments = [] ∧ method.takesQuery = false := by
  have refused (next : Unit → Resolve Operation) :
      (requireSelect (step :: rest) >>= next) s ≠ .ok op s' := by
    intro run
    obtain ⟨_, t, checked, -⟩ := bind_eq_ok.1 run
    have isOpen := yields_requireSelect (List.cons_ne_nil _ _) _ _ _ checked
    cases isCrud.symm.trans isOpen.1
  cases method with
  | page | join | groupJoin | selectMany => exact absurd run (refused _)
  | _ => exact ⟨rfl, rfl⟩

theorem everyCount_of_changes {p : Expr → Prop} {step step' : Step} {rest : Operation}
    (isCrud : step.isCrud = true) (isCrud' : step'.isCrud = true)
    (h : Operation.EveryCount p (step :: rest)) : Operation.EveryCount p (step' :: rest) := by
  have plain {step : Step} (isCrud : step.isCrud = true) :
      step.isFrom = false ∧ step.count? = none ∧ step.nested = [] := by
    cases step with
    | insert | update | delete => exact ⟨rfl, rfl, rfl⟩
    | _ => cases isCrud
  obtain ⟨isFrom, -, -⟩ := plain isCrud
  obtain ⟨isFrom', uncounted, nested⟩ := plain isCrud'
  have below := ((Operation.everyCount_step isFrom).1 h).2.2
  rw [Operation.everyCount_step isFrom', uncounted, nested]
  exact ⟨nofun, Operation.everyCount_nil, below⟩

/-- A method adds the count it is given, and those of a query in its arguments. -/
theorem ends_call (h : Ends names start nodes source s) (ne : source ≠ []) (name : String)
    (nests : Node.callTakesQuery name = true → arguments ≠ [] →
      Lists names (Node.firstCounts arguments) inner ∧
        Lists names (Node.firstCounts arguments) collection) :
    Leads s (Ends names start (nodes ++ (Node.callCounts name arguments ++
        if Node.callTakesQuery name then Node.firstCounts arguments else [])))
      (call name source arguments inner collection) := by
  refine .modify ?_
  cases named : Method.ofName? name with
  | none => exact .fail
  | some method =>
    have counts : Node.callCounts name arguments = method.counts arguments := by
      rw [Node.callCounts, named]
    have takes : Node.callTakesQuery name = method.takesQuery := by
      have other : name ≠ RootMethod.from.name := by
        rintro rfl
        cases named
      simp [Node.callTakesQuery, named, other]
    rw [takes] at nests
    rw [takes, counts]
    refine .intro fun op s' run => ?_
    rcases h with ⟨step, rest, rfl, isCrud, rfl, uncounted⟩ | listed
    · obtain ⟨none, nested⟩ := uncounted_of_changes arguments isCrud run
      rcases yields_apply arguments method inner collection ne _ op s' run with
        isOpen | ⟨_, step', _, heq, rfl, -, isCrud'⟩
      · cases isCrud.symm.trans isOpen.1
      · cases heq
        refine .inl ⟨step', _, rfl, isCrud', ?_, fun p =>
          everyCount_of_changes isCrud isCrud' (uncounted p)⟩
        rw [none, nested]
        rfl
    · rcases yields_apply arguments method inner collection ne _ op s' run with
        isOpen | ⟨step, step', rest, rfl, rfl, isCrud, isCrud'⟩
      · have reported : Listed names start nodes source { s with method := name } :=
          listed.same ⟨rfl, rfl, rfl⟩ rfl
        exact .inr (Ensures.of_ok (listed_apply arguments reported isOpen method nests) run)
      · cases isCrud.symm.trans listed.selects

/-- A table is named by literals. -/
theorem firstCounts_of_tableArguments {method : String} {name : String × String}
    (run : tableArguments method arguments s = .ok name s') : Node.firstCounts arguments = [] := by
  have literal {node : Node} {name : String} {t t' : Scope}
      (run : nameArgument method node t = .ok name t') : node.counts = [] := by
    unfold nameArgument at run
    split at run
    · rfl
    · cases run
  unfold tableArguments at run
  split at run
  · obtain ⟨_, t, first, -⟩ := bind_eq_ok.1 run
    exact literal first
  · obtain ⟨_, t, first, -⟩ := bind_eq_ok.1 run
    exact literal first
  · cases run

omit arguments inner collection in
/-- A statement is started: no call has paged in it. -/
theorem listed_start {t : Scope} (between : s.Between names) (retains : t.Retains s) {step : Step}
    (isFrom : step.isFrom = true) (nested : step.nested.Counts names nodes s)
    (statement table : String) :
    Leads s (Listed names t nodes) (startStatement statement table >>= fun _ => pure [step]) := by
  have same {s' : Scope} (same : s.SameAutoParams s')
      (bindings : s'.bindings = { s.bindings with shape := none, joinResult := "" }) :
      Listed names t nodes [step] s' := by
    refine ⟨⟨?_, between.numbered.congr same⟩, retains.trans same.retains, ?_, ?_⟩
    · rw [bindings, between.bindings]
    · cases step with
      | fromSource => rfl
      | _ => cases isFrom
    · exact (nested.retains same.retains).start isFrom
  exact .modify (.pure (same ⟨rfl, rfl, rfl⟩ rfl))

omit collection in
/-- A root has the counts of the query that it starts at. -/
theorem ends_root (between : s.Between names) (method : RootMethod)
    (nests : arguments ≠ [] → Lists names (Node.firstCounts arguments) inner) :
    Leads s (Ends names s (Node.rootCounts method arguments)) (root method arguments inner) := by
  have rest (isSubquery : Bool) (is : isSubquery = true → method = .from ∧ arguments ≠ [])
      {t : Scope} (later : t.Between names ∧ s.Retains t) :
      Leads t (Ends names s (Node.rootCounts method arguments))
      (if isSubquery then do
        let op ← inner
        startStatement "select" ""
        return [.fromSource "" "" op ""]
      else do
        let name ← tableArguments method.name arguments
        startStatement method.statement name.2
        return [method.step name.1 name.2]) := by
    obtain ⟨between, retains⟩ := later
    unfold Node.rootCounts
    cases isSubquery with
    | true =>
      obtain ⟨rfl, nonempty⟩ := is rfl
      refine .bind (nests nonempty t between) ?_
      intro op t' listed
      have started : Leads t' (Listed names s (Node.firstCounts arguments))
          (startStatement "select" "" >>= fun _ => pure [.fromSource "" "" op ""]) :=
        listed_start listed.between (retains.trans listed.retains) rfl listed.counts _ _
      exact started.mono (fun _ _ => .inr) fun _ => id
    | false =>
      refine .intro fun op s' run => ?_
      obtain ⟨name, t', first, second⟩ := bind_eq_ok.1
        (show (tableArguments method.name arguments >>= fun name => _) t = .ok op s' from run)
      have stays : Leads t (fun _ t' => t' = t) (tableArguments method.name arguments) :=
        leads_tableArguments _ _
      obtain rfl := Ensures.of_ok stays first
      rw [firstCounts_of_tableArguments arguments first, ite_self]
      cases method with
      | «from» =>
        exact .inr (Ensures.of_ok (listed_start between retains rfl .nil _ _) second)
      | insertInto | update | deleteFrom =>
        cases second
        exact .inl ⟨_, _, rfl, rfl, rfl, fun p =>
          (Operation.everyCount_step rfl).2 ⟨nofun, .nil, .nil⟩⟩
  have reported {s' : Scope} (same : s.SameAutoParams s') (bindings : s'.bindings = s.bindings) :
      s'.Between names ∧ s.Retains s' :=
    between.same same (by rw [bindings])
  refine .modify ?_
  dsimp only
  split
  · refine .modify (rest _ ?_ (reported ⟨rfl, rfl, rfl⟩ rfl))
    intro is
    constructor
    · assumption
    · rintro rfl
      cases method <;> cases is
  · refine rest _ ?_ (reported ⟨rfl, rfl, rfl⟩ rfl)
    intro is
    split at is
    · exact ⟨rfl, List.cons_ne_nil _ _⟩
    · cases is

omit arguments inner collection in
/-- A nested query is a SELECT, and leaves of its work on the scope only the automatic parameters. -/
theorem lists_subquery {chain : Resolve Operation}
    (h : ∀ s : Scope, s.Between names → Leads s (Ends names s nodes) chain) :
    Lists names nodes (subquery chain) := by
  intro s between
  refine .intro fun op s' run => ?_
  unfold subquery nested at run
  dsimp only at run
  split at run
  · rename_i reached inside
    cases run
    obtain ⟨found, t, ran, checked⟩ := bind_eq_ok.1 inside
    rcases Ensures.of_ok (h s between) ran with ⟨step, rest, rfl, isCrud, -, -⟩ | listed
    · dsimp only at checked
      rw [if_pos isCrud] at checked
      cases checked
    · have same : found = op ∧ t = reached := by
        split at checked
        · split at checked <;> cases checked
          exact ⟨rfl, rfl⟩
        · cases checked
          exact ⟨rfl, rfl⟩
      obtain ⟨rfl, rfl⟩ := same
      exact ⟨⟨between.bindings, listed.between.numbered.congr ⟨rfl, rfl, rfl⟩⟩,
        listed.retains.trans (Scope.SameAutoParams.retains ⟨rfl, rfl, rfl⟩), listed.selects,
        listed.counts.retains (Scope.SameAutoParams.retains ⟨rfl, rfl, rfl⟩)⟩
  · cases run

end

end Resolve

namespace Resolve

/-- A call on a name starts a chain; there is no operation to be extended. -/
theorem ends_onName {c : ChainCall} {name : String} (isName : c.receiver = .identifier name)
    (between : s.Between names)
    (nests : c.arguments ≠ [] → Lists names (Node.firstCounts c.arguments) c.inner) :
    Leads s (Ends names s c.node.counts) (c.onName name []) := by
  refine .get ?_
  dsimp only
  split
  · exact .fail
  · split
    · rename_i root named
      split
      · have counts : c.node.counts = Node.rootCounts root c.arguments := by
          rw [ChainCall.node, isName]
          exact Node.counts_root named c.arguments
        rw [counts]
        exact ends_root c.arguments between root nests
      · exact .fail
    · exact .fail

/-- A call of a method adds its counts to those of the chain that it is called on. -/
theorem ends_chainCall {c : ChainCall} (mark : DefaultMark) (between : s.Between names)
    (earlier : Leads s (Ends names s c.receiver.counts) c.earlier)
    (nonempty : Yields (· ≠ []) c.earlier)
    (nests : c.arguments ≠ [] → Lists names (Node.firstCounts c.arguments) c.inner)
    (collects : c.arguments ≠ [] → Lists names (Node.firstCounts c.arguments) c.collection) :
    Leads s (Ends names s c.node.counts) (c.resolve mark []) := by
  unfold ChainCall.resolve
  split
  · rename_i marks
    have counts : c.node.counts = c.receiver.counts := by
      rw [ChainCall.node, Node.counts, ← ChainCall.method, ChainCall.method_of_marksDefault marks]
      exact List.append_nil _
    rw [counts]
    exact earlier
  split
  · exact .fail
  split
  · rename_i name isName
    exact ends_onName isName between nests
  · refine .intro fun op s' run => ?_
    obtain ⟨op', t, ran, called⟩ := bind_eq_ok.1
      (show (c.earlier >>= fun op => _) s = .ok op s' from run)
    exact Ensures.of_ok (ends_call c.arguments (Ensures.of_ok earlier ran) (nonempty s op' t ran) _
      fun _ some => ⟨nests some, collects some⟩) called

/-- The first of several nodes is a query of its own with its counts, if its chain is one. -/
theorem lists_first {nodes : List Node} (mark : DefaultMark)
    (h : ∀ first ∈ nodes.head?, ∀ mark (s : Scope), s.Between names →
      Leads s (Ends names s first.counts) (first.chain mark [])) (nonempty : nodes ≠ []) :
    Lists names (Node.firstCounts nodes) (Node.firstQuery mark nodes) := by
  cases nodes with
  | nil => exact absurd rfl nonempty
  | cons first rest =>
    unfold Node.firstQuery
    exact lists_subquery (h first rfl mark)

end Resolve

open Resolve in
/-- The counts in the operation of a chain are what the arguments of its calls have become. -/
theorem Node.ends_chain (node : Node) (mark : DefaultMark) (s : Scope) (between : s.Between names) :
    Leads s (Resolve.Ends names s node.counts) (node.chain mark []) := by
  induction node, mark using Node.chain_induction generalizing s with
  | refused node mark h => exact .refused h
  | lambda params body value mark returned ih =>
    rw [Node.chain_arrow_of_ok returned, Node.counts_arrow returned]
    exact ih s between
  | function name arguments mark first =>
    unfold Node.chain functionCall
    split
    · rename_i root named
      have counts : Node.counts (.call (.identifier name) arguments) = Node.rootCounts root
        arguments := by
        rw [Node.counts, ← Node.counts_root named]
        obtain rfl := RootMethod.name_of_ofName? named
        cases root <;> rfl
      rw [counts]
      exact ends_root arguments between root (lists_first .step first)
    · exact .fail
  | method receiver property computed arguments mark earlier first =>
    unfold Node.chain
    let c : ChainCall :=
      ⟨receiver, property, computed, arguments, receiver.chain .step [],
        Node.firstQuery .step arguments, Node.firstQuery .argument arguments⟩
    exact ends_chainCall (c := c) mark between (earlier s between)
      (fun s op s' run => (Node.built_chain [] (.inl rfl) receiver .step s op s' run).ne_nil)
      (lists_first .step first) (lists_first .argument first)

/-- The query of a first argument has the counts in it. -/
theorem Node.lists_firstQuery (nodes : List Node) (mark : DefaultMark) (nonempty : nodes ≠ []) :
    Resolve.Lists names (Node.firstCounts nodes) (Node.firstQuery mark nodes) :=
  Resolve.lists_first mark (fun first _ mark => first.ends_chain mark) nonempty

/-! ### Plans -/

/-- The counts in a call that extends a plan. -/
def MethodCall.counts (c : MethodCall) : List Node :=
  ((Node.identifier planSeed).withCall c).counts

namespace Node

/-- The counts in a builder and in the calls that extend its plan. -/
def planCounts (builder : Node) (calls : List MethodCall) : List Node :=
  builder.counts ++ calls.flatMap MethodCall.counts

/-- A builder starts between two calls. -/
theorem between_rootScope {builder : Node} (h : builder.rootScope = .ok s) :
    s.Between builder.queryParams := by
  refine ⟨?_, (holds_rootScope h []).numbered⟩
  unfold rootScope at h
  split at h
  · rename_i params _
    match params, h with
    | [], h | [_], h | [_, _], h | [_, _, _], h =>
      cases h
      rfl
  · rename_i notArrow
    cases builder with
    | arrow params body => exact (notArrow params body rfl).elim
    | _ =>
      cases h
      rfl

end Node

namespace ParsedQuery

variable {start : Scope} {nodes : List Node}

/-- The counts of a builder are those of its operation, in order. -/
theorem ends_parse {builder : Node} {q : ParsedQuery} (parsed : builder.parseQuery = .ok q) :
    ∃ start, q.Normalizes (Resolve.Ends builder.queryParams start builder.counts) := by
  obtain ⟨start, root, run⟩ := outcome_bind_eq_ok.1 parsed
  split at run
  · rename_i op reached chained
    cases run
    have between := Node.between_rootScope root
    exact ⟨start, op, rfl, Node.built_chain [] (.inl rfl) builder .step start op reached chained,
      Ensures.of_ok (Node.ends_chain builder .step start between) chained⟩
  · cases run

/-- One more call adds its counts. -/
theorem Normalizes.ends_append {q q' : ParsedQuery} (h : q.Normalizes (Resolve.Ends names start nodes))
    {c : MethodCall} (run : q.append c.name c.arguments = .ok q') :
    q'.Normalizes (Resolve.Ends names start (nodes ++ c.counts)) := by
  obtain ⟨op, operation, built, here⟩ := h
  have ne : q.operation ≠ [] := operation ▸ built.normalize_ne_nil
  obtain ⟨-, op', resolved, operation'⟩ := (append_eq_ok ne c).1 run
  rw [operation] at resolved
  -- The call does to the query what it does to its normal form.
  obtain ⟨⟨op', resolved, same⟩, -⟩ :=
    (c.resolve_normalize_iff built _ _ _).1 ⟨op', resolved, operation'⟩
  have built' : op'.Built := Resolve.built_call built _ _ _ _ _ _ _ resolved
  have called : Resolve.Leads q.scope (Resolve.Ends names start (nodes ++ c.counts)) (c.resolve op) :=
    Resolve.ends_call c.arguments here built.ne_nil c.name fun _ nonempty =>
      ⟨Node.lists_firstQuery c.arguments .step nonempty,
        Node.lists_firstQuery c.arguments .argument nonempty⟩
  exact ⟨op', same, built', Ensures.of_ok called resolved⟩

end ParsedQuery

namespace PlanState

variable {start : Scope} {nodes : List Node}

/-- Calls that are appended add their counts in order. -/
theorem ends_appendAll {state state' : PlanState} (calls : List MethodCall)
    (h : state.query.Normalizes (Resolve.Ends names start nodes))
    (run : state.appendAll calls = .ok state') :
    state'.query.Normalizes (Resolve.Ends names start (nodes ++ calls.flatMap MethodCall.counts)) := by
  induction calls generalizing state nodes with
  | nil =>
    cases run
    rwa [List.flatMap_nil, List.append_nil]
  | cons c calls ih =>
    obtain ⟨next, appended, rest⟩ := outcome_bind_eq_ok.1 run
    rw [List.flatMap_cons, ← List.append_assoc]
    exact ih (h.ends_append (append_eq_ok.1 appended).2) rest

/-- The counts in a plan are what the arguments of its builder and its calls have become. -/
theorem counts_plan {builder : Node} {q : ParsedQuery} (parsed : builder.parseQuery = .ok q)
    {schema : Schema} {calls : List MethodCall} {state : PlanState}
    (extended : (ofQuery q schema).appendAll calls = .ok state) :
    state.operation.Counts builder.queryParams (builder.planCounts calls) state.query.scope := by
  obtain ⟨start, op, operation, built, here⟩ := ParsedQuery.ends_parse parsed
  have begun :
      (ofQuery q schema).query.Normalizes (Resolve.Ends builder.queryParams start builder.counts) := by
    refine ⟨op, ?_, built, here⟩
    unfold ofQuery
    rw [operation, Operation.normalize_normalize]
  obtain ⟨op', operation', -, ends⟩ := ends_appendAll calls begun extended
  rw [PlanState.operation, operation']
  exact ends.counts.congr fun _ => Operation.everyCount_normalize

end PlanState

/-- What an argument has become counts rows, if it is known, exactly if its value does; the value of a
literal was checked. -/
theorem Node.Counted.isCount_iff {node : Node} {e : Expr} (h : node.Counted names e s) :
    (∀ v, e.bound? s.autoParams = some v → v.IsCount) ↔
      (node.isLiteral = false → ∀ v, node.knownCount names s.autoParams = some v → v.IsCount) := by
  rw [h.known s (.refl s)]
  cases node with
  | literal value =>
    refine iff_of_true (fun v found => ?_) nofun
    rw [knownCount] at found
    split at found
    · cases found
    · cases found
      exact h.checked value rfl
  | _ => exact ⟨fun counted _ => counted, fun counted => counted rfl⟩

/-- Expressions are bound to counts if the arguments they came from are counts. -/
theorem Node.forall_counted_iff {nodes : List Node} {es : List Expr}
    (h : List.Forall₂ (fun node e => node.Counted names e s) nodes es) :
    (∀ e ∈ es, ∀ v, e.bound? s.autoParams = some v → v.IsCount) ↔
      ∀ node ∈ nodes, node.isLiteral = false →
        ∀ v, node.knownCount names s.autoParams = some v → v.IsCount := by
  induction h with
  | nil => exact iff_of_true nofun nofun
  | cons first _ ih => rw [List.forall_mem_cons, List.forall_mem_cons, first.isCount_iff, ih]

/-- Whatever is called `take` or `skip` on in a plan, each count that is an automatic parameter is bound
to an integer that is not negative, exactly if every argument that is no literal has such a value or
none that is known. -/
theorem paging_counts_are_counts_iff {builder : Node} {q : ParsedQuery}
    (parsed : builder.parseQuery = .ok q) (schema : Schema) (calls : List MethodCall)
    {state : PlanState} (extended : (PlanState.ofQuery q schema).appendAll calls = .ok state) :
    (state.operation.EveryCount fun e =>
        ∀ v, e.bound? state.query.scope.autoParams = some v → v.IsCount) ↔
      ∀ node ∈ builder.planCounts calls, node.isLiteral = false →
        ∀ v, node.knownCount builder.queryParams state.query.scope.autoParams = some v →
          v.IsCount := by
  obtain ⟨es, counted, every⟩ := PlanState.counts_plan parsed extended
  rw [every]
  exact Node.forall_counted_iff counted

/-- `(q, p) => q.from("users").skip(p.offset).take(10)` -/
def pageOfUsers : Node :=
  (BuilderForm.lambda ["q", "p"]).build
    (((Node.identifier "q").invoke "from" [.literal (.str "users")]).withCalls
      [.of "skip" ((Node.identifier "p").dot "offset"), .of "take" (.literal (.int 10))])

/-- The first twenty of them. -/
def firstTwenty : List MethodCall :=
  [.of "take" (.unary "+" (.literal (.int 20)))]

theorem pageOfUsers_counts : ∃ q state,
    pageOfUsers.parseQuery = .ok q ∧ (PlanState.ofQuery q {}).appendAll firstTwenty = .ok state ∧
      Assoc.keys state.query.scope.autoParams = ["__p1", "__p2"] ∧
      state.operation.EveryCount fun e =>
        ∀ v, e.bound? state.query.scope.autoParams = some v → v.IsCount := by
  have runs : ((pageOfUsers.parseQuery >>= fun q =>
      (PlanState.ofQuery q {}).appendAll firstTwenty).toOption.any fun state =>
        Assoc.keys state.query.scope.autoParams = ["__p1", "__p2"]) = true := by
    decide +kernel
  obtain ⟨state, found, keys⟩ := (Option.any_eq_true _ _).1 runs
  obtain ⟨q, parsed, extended⟩ := outcome_bind_eq_ok.1 (outcome_toOption_eq_some.1 found)
  refine ⟨q, state, parsed, extended, of_decide_eq_true keys,
    (paging_counts_are_counts_iff parsed {} firstTwenty extended).2 ?_⟩
  have counts : pageOfUsers.planCounts firstTwenty = [(Node.identifier "p").dot "offset",
      .literal (.int 10), .unary "+" (.literal (.int 20))] := rfl
  rw [counts]
  simp only [List.forall_mem_cons]
  refine ⟨fun _ v known => ?_, fun literal => ?_, fun _ v known => ?_, nofun⟩
  · cases known
  · cases literal
  · cases known
    decide

/-- `(q) => q.from("users").take(-1)` -/
def lastUser : Node :=
  (BuilderForm.lambda ["q"]).build
    (((Node.identifier "q").invoke "from" [.literal (.str "users")]).withCalls
      [.of "take" (.unary "-" (.literal (.int 1)))])

/-- A count that is written with a sign is not checked. -/
theorem negative_count_is_accepted : ∃ q, lastUser.parseQuery = .ok q ∧
    q.operation = [.page .take (.param "__p1" "" none), .fromSource "users" "" [] ""] ∧
    q.scope.autoParams = [("__p1", .int (-1))] ∧ ¬ (Json.int (-1)).IsCount := by
  exact ⟨_, rfl, rfl, rfl, by decide⟩

end FluentQuery
