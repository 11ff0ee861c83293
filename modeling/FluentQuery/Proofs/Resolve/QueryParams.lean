import FluentQuery.Proofs.Resolve.LambdaPlaces

/-!
# The query parameters of a chain

While the calls of a chain are resolved, automatic parameters are numbered one after the other and keep
their values, and every parameter in the query so far is an automatic one or a query parameter that a
lambda of the chain reads.  One lemma for each method says that the method keeps this up; main
statement: `Node.continues_chain`.
-/

namespace FluentQuery

set_option autoImplicit false

namespace Resolve

variable {names outer : NameSet} {grouped : Bool} {source : Operation} {s : Scope}

/-- What a call leaves: automatic parameters keep their values, and what is in scope and in the query is
known. -/
def continues (names outer : NameSet) (grouped : Bool) (s : Scope) (op : Operation) (s' : Scope) :
    Prop :=
  s.Retains s' ∧ s'.Holds names outer grouped op

/-- A query of its own, resolved between two calls. -/
def Nests (names outer : NameSet) (query : Resolve Operation) : Prop :=
  ∀ grouped (s : Scope) op, s.Holds names outer grouped op →
    Leads s (fun inner s' => s.Steady s' ∧ inner.Closed (.ofNames names) s') query

/-- A check for a SELECT either fails or changes nothing. -/
theorem leads_require {α : Type} {post : α → Scope → Prop} {next : Unit → Resolve α}
    (h : Leads s post (next ())) : Leads s post (requireSelect source >>= next) := by
  refine .intro fun a s' run => ?_
  obtain ⟨⟨⟩, t, first, second⟩ := bind_eq_ok.1 run
  have same : t = s := by
    obtain ⟨before, _, read, checked⟩ := bind_eq_ok.1 first
    cases read
    split at checked
    · split at checked
      · cases checked
      · split at checked
        · cases checked
        · cases checked
          rfl
    · cases checked
      rfl
  rw [same] at second
  exact Ensures.of_ok h second

section

variable (holds : s.Holds names outer grouped source)

include holds

/-- Steady work that leaves an operation closed lets the chain go on. -/
theorem continues_steady {op : Operation} {s' : Scope} (steady : s.Steady s')
    (closed : op.Closed (.ofNames names) s') : continues names outer grouped s op s' :=
  ⟨steady.retains holds.numbered, (holds.steady steady).with_op closed⟩

/-- A step is added that holds the expression some work yields. -/
theorem leads_push (make : Expr → Step)
    (slot : ∀ e, ∀ other ∈ (make e).expressions, other = e) (nested : ∀ e, (make e).nested = [])
    {work : Resolve Expr} (yielded : Leads s (yields names s) work) :
    Leads s (continues names outer grouped s) (work >>= fun e => pure (make e :: source)) := by
  refine .bind yielded ?_
  rintro e s' ⟨steady, known⟩
  have before := (holds.steady steady).closed
  refine .pure (continues_steady holds steady ?_)
  exact before.push _ known (slot e) (nested e ▸ Operation.every_nil)

/-- A step without expressions is closed. -/
theorem leads_emptyStep {step : Step} (slot : step.expressions = []) (nested : step.nested = []) :
    Leads s (continues names outer grouped s) (pure (step :: source)) := by
  refine .pure (continues_steady holds (.refl s) (Operation.every_cons.2 ⟨?_, ?_, holds.closed⟩))
  · rw [slot]
    rintro e ⟨⟩
  · rw [nested]
    exact Operation.every_nil

end

/-- The expression of a step of a SELECT. -/
theorem mem_slot {e other : Expr} (h : other ∈ [e].filter fun e => !e.isAbsent) : other = e :=
  List.mem_singleton.1 (List.mem_filter.1 h).1

/-- Closed values make a closed list of assignments. -/
theorem closed_assigned {v : Vocabulary} {assigned : Assignments}
    (known : membersClosed v assigned s) :
    ∀ e ∈ Step.assignmentExprs (some assigned), e.Closed v s := by
  intro e mem
  rw [List.mem_singleton.1 mem]
  exact (Expr.every_object _).2 ⟨trivial, known⟩

/-! ### Methods of one SELECT -/

section

variable (holds : s.Holds names outer grouped source) (arguments : List Node)

include holds

/-- `where` goes on if its lambda uses names of the query. -/
theorem continues_filter
    (within : ∀ l ∈ Method.filter.lambdas grouped arguments, l.Within names outer) :
    Leads s (continues names outer grouped s) (filter source arguments) := by
  unfold filter
  split
  · rename_i argument
    have predicate := leads_closedPredicate holds (within _ (List.mem_singleton_self _))
    split
    · refine .bind predicate ?_
      rintro e s' ⟨steady, known⟩
      obtain ⟨assigned, condition, returning, rest⟩ :=
        Operation.every_update.1 (holds.steady steady).closed
      refine .pure (continues_steady holds steady (Operation.every_update.2 ?_))
      exact ⟨assigned, Expr.every_conj (fun _ _ => trivial) condition known, returning, rest⟩
    · refine .bind predicate ?_
      rintro e s' ⟨steady, known⟩
      obtain ⟨condition, rest⟩ := Operation.every_delete.1 (holds.steady steady).closed
      refine .pure (continues_steady holds steady (Operation.every_delete.2 ?_))
      exact ⟨Expr.every_conj (fun _ _ => trivial) condition known, rest⟩
    · exact leads_require (leads_push holds .filter (fun _ _ => mem_slot) (fun _ => rfl) predicate)
  · exact .failArguments

/-- After `select` rows are not grouped. -/
theorem continues_select
    (within : ∀ l ∈ Method.select.lambdas grouped arguments, l.Within names outer) :
    Leads s (continues names outer false s) (select source arguments) := by
  refine leads_require ?_
  split
  · refine .bind (leads_closedRow holds (within _ (List.mem_singleton_self _))) ?_
    rintro selector s' ⟨steady, known⟩
    have after := holds.steady steady
    have pushed := after.with_op
      (after.closed.push (.select selector) known (fun _ => mem_slot) Operation.every_nil)
    have same : Scope.SameAutoParams s' { s' with groupByKey := .absent } := ⟨rfl, rfl, rfl⟩
    refine .modify (.modify (.pure ⟨?_, pushed.regroup ⟨rfl, rfl, rfl⟩ rfl Expr.every_absent
      fun _ => rfl⟩))
    exact (steady.retains holds.numbered).trans (Scope.SameAutoParams.retains ⟨rfl, rfl, rfl⟩)
  · exact .failArguments

/-- After `groupBy` rows are grouped. -/
theorem continues_groupBy
    (within : ∀ l ∈ Method.groupBy.lambdas grouped arguments, l.Within names outer) :
    Leads s (continues names outer true s) (groupBy source arguments) := by
  refine leads_require ?_
  split
  · refine .get (.check (.bind (leads_closedRow holds (within _ (List.mem_singleton_self _))) ?_))
    rintro key s' ⟨steady, known⟩
    have after := holds.steady steady
    have pushed := after.with_op
      (after.closed.push (.groupBy key) known (fun _ => mem_slot) Operation.every_nil)
    refine .modify (.pure ⟨?_, pushed.regroup ⟨rfl, rfl, rfl⟩ rfl known nofun⟩)
    exact (steady.retains holds.numbered).trans (Scope.SameAutoParams.retains ⟨rfl, rfl, rfl⟩)
  · exact .failArguments

/-- A sort goes on if its lambda uses names of the query. -/
theorem continues_sort (kind : SortKind) (descending : Bool)
    (within : ∀ l ∈ (Method.sort kind descending).lambdas grouped arguments, l.Within names outer) :
    Leads s (continues names outer grouped s) (sort kind descending source arguments) := by
  refine leads_require ?_
  split
  · dsimp only
    split
    · exact trivial
    · exact leads_push holds (.sort kind · descending) (fun _ _ => mem_slot) (fun _ => rfl)
        (leads_closedRow holds (within _ (List.mem_singleton_self _)))
  · exact .failArguments

/-- What a value that is given directly reads of the query parameters is known. -/
theorem leads_directValue {node : Node} (within : PlacedLambda.Within names outer ⟨.key, node⟩) :
    Leads s (yields names s) (node.resolve false) := by
  cases node with
  | arrow => exact .fail
  | _ =>
    refine leads_resolve holds fun name mem around => within name (List.mem_filter.2 ⟨mem, ?_⟩)
    simpa using around

/-- A page goes on if its lambda uses names of the query. -/
theorem continues_page (kind : PageKind)
    (within : ∀ l ∈ (Method.page kind).lambdas grouped arguments, l.Within names outer) :
    Leads s (continues names outer grouped s) (page kind source arguments) := by
  have counted {work : Resolve Expr} (yielded : Leads s (yields names s) work) :=
    leads_push holds (.page kind) (fun _ _ => mem_slot) (fun _ => rfl) yielded
  refine leads_require ?_
  split
  · split
    · dsimp only
      split
      · exact trivial
      · exact counted (leads_tidy holds (fun _ => .autoParam _ _ _) fun _ => tidy_autoParam _ _ _)
    · exact trivial
  · exact counted (leads_directValue holds (within _ (List.mem_singleton_self _)))
  · exact .failArguments

theorem continues_mark {step : Step} (slot : step.expressions = []) (nested : step.nested = []) :
    Leads s (continues names outer grouped s) (mark step source arguments) := by
  refine leads_require ?_
  split
  · exact leads_emptyStep holds slot nested
  · exact .failArguments

/-- A terminal step goes on if its lambda uses names of the query. -/
theorem continues_terminal (kind : TerminalKind)
    (within : ∀ l ∈ (Method.terminal kind).lambdas grouped arguments, l.Within names outer) :
    Leads s (continues names outer grouped s) (terminal kind source arguments) := by
  refine leads_require ?_
  split
  · exact leads_push holds (.terminal kind) (fun _ _ => mem_slot) (fun _ => rfl)
      (leads_closedPredicate holds (within _ (List.mem_singleton_self _)))
  · generalize (if kind = TerminalKind.all then 1 else 0) = least
    dsimp only
    split
    · exact leads_emptyStep holds rfl rfl
    · exact .failArguments

theorem continues_contains
    (within : ∀ l ∈ Method.contains.lambdas grouped arguments, l.Within names outer) :
    Leads s (continues names outer grouped s) (contains source arguments) := by
  have found {work : Resolve Expr} (yielded : Leads s (yields names s) work) :=
    leads_push holds .contains (fun _ _ => mem_slot) (fun _ => rfl) yielded
  refine leads_require ?_
  split
  · dsimp only
    split
    · split
      · exact found (leads_tidy holds (fun _ => .literal _ _) fun _ => tidy_literal _ _)
      · exact found (leads_tidy holds (fun _ => .autoParam _ _ _) fun _ => tidy_autoParam _ _ _)
    · exact found (leads_directValue holds (within _ (List.mem_singleton_self _)))
  · exact .failArguments

theorem continues_aggregate (kind : AggregateKind)
    (within : ∀ l ∈ (Method.aggregate kind).lambdas grouped arguments, l.Within names outer) :
    Leads s (continues names outer grouped s) (aggregate kind source arguments) := by
  refine leads_require ?_
  split
  · exact leads_emptyStep holds rfl rfl
  · exact leads_push holds (.aggregate kind) (fun _ _ => mem_slot) (fun _ => rfl)
      (leads_closedRow holds (within _ (List.mem_singleton_self _)))
  · exact .failArguments

end

/-! ### Joins -/

section

variable (holds : s.Holds names outer grouped source)

include holds

/-- A step is added that joins a query, and rows have a new shape. -/
theorem continues_joining (step : Step) {selector : Expr} (known : selector.Closed (.ofNames names) s)
    (slot : ∀ other ∈ step.expressions, other = selector)
    (nested : step.nested.Closed (.ofNames names) s) {s' : Scope} (same : s.SameAutoParams s')
    (params : s'.bindings.params = s.bindings.params) (groupByKey : s'.groupByKey = s.groupByKey) :
    continues names outer grouped s (step :: source) s' := by
  have steady := same.steady params groupByKey
  refine continues_steady holds steady ?_
  exact (holds.closed.push step known slot nested).of_keys (holds.keys steady)

/-- A join is closed if its query and its result are. -/
theorem continues_finishJoin {inner : Operation} (nested : inner.Closed (.ofNames names) s)
    (keys : JoinKeys) {selector : Expr} (known : selector.Closed (.ofNames names) s)
    (index : Int) (kind : JoinKind) :
    Leads s (continues names outer grouped s) (finishJoin kind inner keys selector index source) :=
  continues_joining holds (.join kind inner keys selector selector.resultShape) known
    (fun _ => mem_slot) nested ⟨rfl, rfl, rfl⟩ rfl rfl

/-- A chain may go on after steady work. -/
theorem continues_trans {grouped' : Bool} {s' : Scope} (steady : s.Steady s') {op : Operation}
    {s'' : Scope} (h : continues names outer grouped' s' op s'') :
    continues names outer grouped' s op s'' :=
  ⟨(steady.retains holds.numbered).trans h.1, h.2⟩

variable (arguments : List Node) {inner : Resolve Operation}
  (nests : arguments ≠ [] → Nests names outer inner)

include nests

/-- A join goes on if its lambdas use names of the query. -/
theorem continues_join (kind : JoinKind)
    (within : ∀ l ∈ (Method.join kind).lambdas grouped arguments, l.Within names outer) :
    Leads s (continues names outer grouped s) (join kind source arguments inner) := by
  refine leads_require (.get ?_)
  dsimp only
  -- What is resolved after the joined query continues a scope that is reached from `s`.
  have resolved {post : Operation → Scope → Prop} {next : Operation → Resolve Operation}
      (nonempty : arguments ≠ [])
      (rest : ∀ op s', s.Steady s' → op.Closed (.ofNames names) s' → Leads s' post (next op)) :
      Leads s post (inner >>= next) := by
    refine .bind (nests nonempty grouped s source holds) ?_
    rintro op s' ⟨steady, nested⟩
    exact rest op s' steady nested
  split
  · split
    · refine resolved (by simp) fun op s₁ steady nested => ?_
      refine (continues_finishJoin (holds.steady steady) nested {} Expr.every_absent _ kind).mono ?_
        fun _ => id
      exact fun _ _ => continues_trans holds steady
    · refine resolved (by simp) fun op s₁ steady₁ nested => ?_
      have holds₁ := holds.steady steady₁
      refine .bind (leads_closedPair holds₁ _ (within _ (by simp [Method.lambdas]))) ?_
      rintro e s₂ ⟨steady₂, known⟩
      have nested₂ := nested.of_keys (holds₁.keys steady₂)
      refine (continues_finishJoin (holds₁.steady steady₂) nested₂ {} known _ kind).mono ?_ fun _ => id
      exact fun _ _ => continues_trans holds (steady₁.trans steady₂)
    · exact .failArguments
  · split
    · refine resolved (by simp) fun op s₁ steady₁ nested => ?_
      have holds₁ := holds.steady steady₁
      refine .bind (leads_steadyKeys holds₁ (within _ (by simp [Method.lambdas]))
        (within _ (by simp [Method.lambdas]))) ?_
      rintro keys s₂ steady₂
      have nested₂ := nested.of_keys (holds₁.keys steady₂)
      refine (continues_finishJoin (holds₁.steady steady₂) nested₂ keys Expr.every_absent _ kind).mono
        ?_ fun _ => id
      exact fun _ _ => continues_trans holds (steady₁.trans steady₂)
    · refine resolved (by simp) fun op s₁ steady₁ nested => ?_
      have holds₁ := holds.steady steady₁
      refine .bind (leads_steadyKeys holds₁ (within _ (by simp [Method.lambdas]))
        (within _ (by simp [Method.lambdas]))) ?_
      rintro keys s₂ steady₂
      have holds₂ := holds₁.steady steady₂
      refine .bind (leads_closedPair holds₂ _ (within _ (by simp [Method.lambdas]))) ?_
      rintro e s₃ ⟨steady₃, known⟩
      have nested₃ := nested.of_keys (holds₁.keys (steady₂.trans steady₃))
      refine (continues_finishJoin (holds₂.steady steady₃) nested₃ keys known _ kind).mono ?_
        fun _ => id
      exact fun _ _ => continues_trans holds ((steady₁.trans steady₂).trans steady₃)
    · exact .failArguments

/-- A group join goes on if its lambdas use names of the query. -/
theorem continues_groupJoin
    (within : ∀ l ∈ Method.groupJoin.lambdas grouped arguments, l.Within names outer) :
    Leads s (continues names outer grouped s) (groupJoin source arguments inner) := by
  refine leads_require ?_
  split
  · refine .get (.bind (nests (by simp) grouped s source holds) ?_)
    rintro op s₁ ⟨steady₁, nested⟩
    have holds₁ := holds.steady steady₁
    refine .bind (leads_steadyKeys holds₁ (within _ (by simp [Method.lambdas]))
      (within _ (by simp [Method.lambdas]))) ?_
    rintro keys s₂ steady₂
    have holds₂ := holds₁.steady steady₂
    refine .bind (leads_closedPair holds₂ _ (within _ (by simp [Method.lambdas]))) ?_
    rintro e s₃ ⟨steady₃, known⟩
    have holds₃ := holds₂.steady steady₃
    have nested₃ := nested.of_keys (holds₁.keys (steady₂.trans steady₃))
    split
    · rename_i properties
      dsimp only
      split
      · exact .fail
      · rename_i groupName _ _
        refine continues_trans holds ((steady₁.trans steady₂).trans steady₃) ?_
        exact continues_joining holds₃ (.groupJoin op keys (.object properties) _ _ groupName)
          known (fun _ => mem_slot (e := .object properties)) nested₃ ⟨rfl, rfl, rfl⟩ rfl rfl
    · exact .fail
  · exact .failArguments

end

section

variable (holds : s.Holds names outer grouped source)

include holds

/-- A collection is closed if its query and its result are. -/
theorem continues_finishSelectMany {collection : Operation}
    (nested : collection.Closed (.ofNames names) s) (path : List String) (usesDefault : Bool)
    (index : Int) {selector? : Option Node}
    (within : ∀ node, selector? = some node → PlacedLambda.Within names outer ⟨.pair, node⟩) :
    Leads s (continues names outer grouped s)
      (finishSelectMany collection path usesDefault index selector? source) := by
  have finish {s' : Scope} (steady : s.Steady s') {selector : Expr}
      (known : selector.Closed (.ofNames names) s') : Leads s' (continues names outer grouped s) (do
        let shape := selector.resultShape
        setShape shape
        return .selectMany collection (Text.dotted path) selector shape usesDefault :: source) := by
    refine continues_trans holds steady ?_
    exact continues_joining (holds.steady steady)
      (.selectMany collection _ selector _ usesDefault) known (fun _ => mem_slot)
        (nested.of_keys (holds.keys steady))
      ⟨rfl, rfl, rfl⟩ rfl rfl
  unfold finishSelectMany
  split
  · refine .bind (leads_closedPair holds _ (within _ rfl)) ?_
    rintro selector s' ⟨steady, known⟩
    exact finish steady known
  · exact finish (.refl s) Expr.every_absent

/-- A collection is a query, which is closed, or leads to a group. -/
theorem continues_flatten {query : Resolve Operation} (nests : Nests names outer query)
    (argument : Node) {selector? : Option Node}
    (within : ∀ node, selector? = some node → PlacedLambda.Within names outer ⟨.pair, node⟩) :
    Leads s (continues names outer grouped s) (flatten argument selector? source query) := by
  unfold flatten
  split
  · exact .failUnplaced
  · dsimp only
    split
    · refine .bind (nests grouped s source holds) ?_
      rintro op s₁ ⟨steady₁, nested⟩
      refine .get (.modify ?_)
      have counted : s₁.Steady { s₁ with tableCount := s₁.tableCount + 1 } :=
        Scope.SameAutoParams.steady ⟨rfl, rfl, rfl⟩ rfl rfl
      have steady := steady₁.trans counted
      have finish {collection : Operation} (closed : collection.Closed (.ofNames names) s₁)
          (usesDefault : Bool) := continues_finishSelectMany (holds.steady steady)
            (closed.of_keys ((holds.steady steady₁).keys counted)) [] usesDefault s₁.tableCount within
      split
      · obtain ⟨-, -, below⟩ := Operation.every_cons.1 nested
        exact (finish below true).mono (fun _ _ => continues_trans holds steady) fun _ => id
      · exact (finish nested _).mono (fun _ _ => continues_trans holds steady) fun _ => id
    · refine .bind (leads_steadyTable _) ?_
      rintro index _ rfl
      exact continues_finishSelectMany holds Operation.every_nil _ _ index within

/-- `selectMany` goes on if the lambda of its result uses names of the query. -/
theorem continues_selectMany (arguments : List Node) {query : Resolve Operation}
    (nests : arguments ≠ [] → Nests names outer query)
    (within : ∀ l ∈ Method.selectMany.lambdas grouped arguments, l.Within names outer) :
    Leads s (continues names outer grouped s) (selectMany source arguments query) := by
  refine leads_require ?_
  split
  · exact continues_flatten holds (nests (by simp)) _ nofun
  · refine continues_flatten holds (nests (by simp)) _ ?_
    rintro node ⟨⟩
    exact within _ (List.mem_singleton_self _)
  · exact .failArguments

end

/-! ### Methods of INSERT, UPDATE and DELETE -/

section

variable {α : Type} {post : α → Scope → Prop}

/-- A check for an INSERT either fails or gives its statement. -/
theorem leads_requireInsert {next : InsertStatement × Operation → Resolve α}
    (h : ∀ st rest, source = .insert st :: rest → Leads s post (next (st, rest))) :
    Leads s post (requireInsert source >>= next) := by
  unfold requireInsert
  split
  · exact h _ _ rfl
  · exact trivial

theorem leads_requireUpdate {next : UpdateStatement × Operation → Resolve α}
    (h : ∀ st rest, source = .update st :: rest → Leads s post (next (st, rest))) :
    Leads s post (requireUpdate source >>= next) := by
  unfold requireUpdate
  split
  · exact h _ _ rfl
  · exact trivial

theorem leads_requireDelete {next : DeleteStatement × Operation → Resolve α}
    (h : ∀ st rest, source = .delete st :: rest → Leads s post (next (st, rest))) :
    Leads s post (requireDelete source >>= next) := by
  unfold requireDelete
  split
  · exact h _ _ rfl
  · exact trivial

/-- A check of the number of arguments before the work goes on. -/
theorem leads_arity {c : Prop} [Decidable c] {least most got : Nat} {next : PUnit → Resolve α}
    (h : Leads s post (next ⟨⟩)) :
    Leads s post (if c then failArguments least most got >>= next else next ⟨⟩) := by
  split
  · exact trivial
  · exact h

end

section

variable (holds : s.Holds names outer grouped source) (arguments : List Node)

include holds

/-- `values` goes on if its lambda uses names of the query. -/
theorem continues_values
    (within : ∀ l ∈ Method.values.lambdas grouped arguments, l.Within names outer) :
    Leads s (continues names outer grouped s) (values source arguments) := by
  refine leads_requireInsert fun st rest hsource => ?_
  subst hsource
  dsimp only
  split
  · have assigned := leads_assignmentArgument holds (within _ (List.mem_singleton_self _))
      bindsTo_bindQueryParam
    refine .check (.bind assigned ?_)
    rintro a s' ⟨steady, known⟩
    obtain ⟨-, returning, conflict, before⟩ := Operation.every_insert.1 (holds.steady steady).closed
    refine .check (.pure (continues_steady holds steady (Operation.every_insert.2 ?_)))
    exact ⟨closed_assigned known, returning, conflict, before⟩
  · exact .failArguments

/-- The lambdas of a conflict target mint parameters at most. -/
theorem leads_conflictTarget (done : List String) {columns : List Node}
    (within : ∀ node ∈ columns, PlacedLambda.Within names outer ⟨.key, node⟩) :
    Leads s (fun _ s' => s.Steady s') (conflictTarget done columns) := by
  induction columns generalizing s done with
  | nil => exact .pure (.refl s)
  | cons column rest ih =>
    have key := leads_lambda holds (within column (List.mem_cons_self ..)) false "onConflict"
      bindsTo_bindTableParam
    refine .bind key ?_
    rintro e s' ⟨steady, -⟩
    have later (done : List String) := ih (holds.steady steady) done
      fun node mem => within node (List.mem_cons_of_mem _ mem)
    split
    · refine .check (.check ((later _).mono ?_ fun _ => id))
      exact fun _ _ steady' => steady.trans steady'
    · exact .fail

/-- `onConflict` goes on if its lambdas use names of the query. -/
theorem continues_onConflict
    (within : ∀ l ∈ Method.onConflict.lambdas grouped arguments, l.Within names outer) :
    Leads s (continues names outer grouped s) (onConflict source arguments) := by
  refine leads_requireInsert fun st rest hsource => ?_
  subst hsource
  have columns : ∀ node ∈ arguments, PlacedLambda.Within names outer ⟨.key, node⟩ :=
    fun node mem => within _ (List.mem_map.2 ⟨node, mem, rfl⟩)
  refine .check (.check (.check (.bind (leads_conflictTarget holds [] columns) ?_)))
  rintro target s' steady
  obtain ⟨values, returning, -, before⟩ := Operation.every_insert.1 (holds.steady steady).closed
  refine .pure (continues_steady holds steady (Operation.every_insert.2 ⟨values, returning, ?_,
    before⟩))
  rintro e ⟨⟩

omit holds in
/-- The conflict clause that lacks its action is that of the statement. -/
theorem leads_openConflict {α : Type} {post : α → Scope → Prop} {st : InsertStatement}
    {next : OnConflict → Resolve α}
    (h : ∀ conflict, st.onConflict = some conflict → Leads s post (next conflict)) :
    Leads s post (openConflict st >>= next) := by
  unfold openConflict
  split
  · exact trivial
  · split
    · exact h _ ‹_›
    · exact trivial

theorem continues_doNothing : Leads s (continues names outer grouped s)
    (doNothing source arguments) := by
  refine leads_requireInsert fun st rest hsource => ?_
  subst hsource
  refine leads_arity (leads_openConflict fun conflict isOpen => ?_)
  obtain ⟨values, returning, clause, before⟩ := Operation.every_insert.1 holds.closed
  refine .pure (continues_steady holds (.refl s)
    (Operation.every_insert.2 ⟨values, returning, ?_, before⟩))
  rwa [isOpen] at clause

/-- `doUpdateSet` goes on if its lambda uses names of the query. -/
theorem continues_doUpdateSet
    (within : ∀ l ∈ Method.doUpdateSet.lambdas grouped arguments, l.Within names outer) :
    Leads s (continues names outer grouped s) (doUpdateSet source arguments) := by
  refine leads_requireInsert fun st rest hsource => ?_
  subst hsource
  dsimp only
  split
  · refine leads_openConflict fun conflict isOpen => ?_
    have assigned := leads_assignmentArgument holds (within _ (List.mem_singleton_self _))
      bindsTo_bindConflictParams
    refine .bind assigned ?_
    rintro a s' ⟨steady, known⟩
    obtain ⟨values, returning, -, before⟩ := Operation.every_insert.1 (holds.steady steady).closed
    refine .check (.pure (continues_steady holds steady (Operation.every_insert.2 ?_)))
    exact ⟨values, returning, closed_assigned known, before⟩
  · exact .failArguments

/-- `returning` goes on if its lambda uses names of the query. -/
theorem continues_returning
    (within : ∀ l ∈ Method.returning.lambdas grouped arguments, l.Within names outer) :
    Leads s (continues names outer grouped s) (returning source arguments) := by
  have selected : Leads s (yields names s) (returningSelector arguments) := by
    unfold returningSelector
    split
    · exact leads_lambda holds (within _ (List.mem_singleton_self _)) false _ bindsTo_bindTableParam
    · exact .failArguments
  unfold returning
  split
  · refine .check (.bind selected ?_)
    rintro e s' ⟨steady, known⟩
    obtain ⟨values, -, conflict, before⟩ := Operation.every_insert.1 (holds.steady steady).closed
    refine .pure (continues_steady holds steady (Operation.every_insert.2 ?_))
    exact ⟨values, known, conflict, before⟩
  · refine .bind selected ?_
    rintro e s' ⟨steady, known⟩
    obtain ⟨assigned, condition, -, before⟩ := Operation.every_update.1 (holds.steady steady).closed
    refine .pure (continues_steady holds steady (Operation.every_update.2 ?_))
    exact ⟨assigned, condition, known, before⟩
  · exact .fail

/-- `set` goes on if its lambda uses names of the query. -/
theorem continues_setColumns
    (within : ∀ l ∈ Method.set.lambdas grouped arguments, l.Within names outer) :
    Leads s (continues names outer grouped s) (setColumns source arguments) := by
  refine leads_requireUpdate fun st rest hsource => ?_
  subst hsource
  dsimp only
  split
  · have assigned := leads_assignmentArgument holds (within _ (List.mem_singleton_self _))
      bindsTo_bindUpdateParams
    refine .check (.bind assigned ?_)
    rintro a s' ⟨steady, known⟩
    obtain ⟨-, condition, returning, before⟩ := Operation.every_update.1 (holds.steady steady).closed
    refine .check (.pure (continues_steady holds steady (Operation.every_update.2 ?_)))
    exact ⟨closed_assigned known, condition, returning, before⟩
  · exact .failArguments

theorem continues_allowFullTableUpdate :
    Leads s (continues names outer grouped s) (allowFullTableUpdate source arguments) := by
  refine leads_requireUpdate fun st rest hsource => ?_
  subst hsource
  have before := Operation.every_update.1 holds.closed
  exact leads_arity (.pure (continues_steady holds (.refl s) (Operation.every_update.2 before)))

theorem continues_allowFullTableDelete :
    Leads s (continues names outer grouped s) (allowFullTableDelete source arguments) := by
  refine leads_requireDelete fun st rest hsource => ?_
  subst hsource
  have before := Operation.every_delete.1 holds.closed
  exact leads_arity (.pure (continues_steady holds (.refl s) (Operation.every_delete.2 before)))

end

/-! ### Chains -/

/-- One call of a chain. -/
theorem continues_apply (holds : s.Holds names outer grouped source) (method : Method)
    (arguments : List Node) {inner collection : Resolve Operation}
    (nests : method.takesQuery = true → arguments ≠ [] →
      Nests names outer inner ∧ Nests names outer collection)
    (within : ∀ l ∈ method.lambdas grouped arguments, l.Within names outer) :
    Leads s (continues names outer (method.groups grouped) s)
      (apply method source arguments inner collection) := by
  cases method with
  | filter => exact continues_filter holds arguments within
  | select => exact continues_select holds arguments within
  | groupBy => exact continues_groupBy holds arguments within
  | sort kind descending => exact continues_sort holds arguments kind descending within
  | page kind => exact continues_page holds arguments kind within
  | distinct | reverse | defaultIfEmpty => exact continues_mark holds arguments rfl rfl
  | join kind => exact continues_join holds arguments (fun ne => (nests rfl ne).1) kind within
  | groupJoin => exact continues_groupJoin holds arguments (fun ne => (nests rfl ne).1) within
  | selectMany => exact continues_selectMany holds arguments (fun ne => (nests rfl ne).2) within
  | terminal kind => exact continues_terminal holds arguments kind within
  | contains => exact continues_contains holds arguments within
  | aggregate kind => exact continues_aggregate holds arguments kind within
  | values => exact continues_values holds arguments within
  | onConflict => exact continues_onConflict holds arguments within
  | doNothing => exact continues_doNothing holds arguments
  | doUpdateSet => exact continues_doUpdateSet holds arguments within
  | returning => exact continues_returning holds arguments within
  | set => exact continues_setColumns holds arguments within
  | allowFullTableUpdate => exact continues_allowFullTableUpdate holds arguments
  | allowFullTableDelete => exact continues_allowFullTableDelete holds arguments

/-- A call by name: what the name does not stand for fails. -/
theorem continues_call (holds : s.Holds names outer grouped source) (name : String)
    (arguments : List Node) {inner collection : Resolve Operation}
    (nests : Node.callTakesQuery name = true → arguments ≠ [] →
      Nests names outer inner ∧ Nests names outer collection)
    (within : ∀ l ∈ Node.callLambdas grouped name arguments, l.Within names outer) :
    Leads s (continues names outer (Node.callGroups grouped name) s)
      (call name source arguments inner collection) := by
  have reported : s.Steady { s with method := name } :=
    Scope.SameAutoParams.steady ⟨rfl, rfl, rfl⟩ rfl rfl
  refine .modify ?_
  unfold Node.callLambdas at within
  unfold Node.callGroups
  cases named : Method.ofName? name with
  | none => exact .fail
  | some method =>
    rw [named] at within
    have takes (is : method.takesQuery = true) : Node.callTakesQuery name = true := by
      simp [Node.callTakesQuery, named, is]
    have extended := continues_apply (holds.steady reported) method arguments
      (fun is => nests (takes is)) within
    exact extended.mono (fun _ _ => continues_trans holds reported) fun _ => id

/-- A statement is started: no rows are grouped. -/
theorem continues_start (holds : s.Holds names outer grouped source) (step : Step)
    (slot : step.expressions = []) (nested : step.nested.Closed (.ofNames names) s)
    (statement table : String) :
    Leads s (continues names outer false s)
      (startStatement statement table >>= fun _ => pure [step]) := by
  have op : Operation.Closed (.ofNames names) s [step] := by
    refine Operation.every_cons.2 ⟨?_, nested, Operation.every_nil⟩
    rw [slot]
    rintro e ⟨⟩
  exact .modify (.pure ⟨Scope.SameAutoParams.retains ⟨rfl, rfl, rfl⟩,
    (holds.with_op op).regroup ⟨rfl, rfl, rfl⟩ rfl Expr.every_absent fun _ => rfl⟩)

/-- The first call starts a chain whose rows are not grouped. -/
theorem continues_root (holds : s.Holds names outer grouped source) (method : RootMethod)
    (arguments : List Node) {subquery : Resolve Operation}
    (nests : method = .from → arguments ≠ [] → Nests names outer subquery) :
    Leads s (continues names outer false s) (root method arguments subquery) := by
  have rest (isSubquery : Bool) (is : isSubquery = true → method = .from ∧ arguments ≠ [])
      {t : Scope} (steady : s.Steady t) : Leads t (continues names outer false s)
      (if isSubquery then do
        let op ← subquery
        startStatement "select" ""
        return [.fromSource "" "" op ""]
      else do
        let name ← tableArguments method.name arguments
        startStatement method.statement name.2
        return [method.step name.1 name.2]) := by
    have after := holds.steady steady
    split
    · rename_i nested
      obtain ⟨root, nonempty⟩ := is nested
      refine .bind (nests root nonempty grouped t source after) ?_
      rintro op t' ⟨steady', closed⟩
      have started := continues_start (after.steady steady') (.fromSource "" "" op "") rfl
        closed "select" ""
      exact started.mono (fun _ _ => continues_trans holds (steady.trans steady')) fun _ => id
    · refine .bind (leads_tableArguments _ _) ?_
      rintro name _ rfl
      have started := continues_start after (method.step name.1 name.2)
        (by cases method <;> rfl) (by cases method <;> exact Operation.every_nil) method.statement
          name.2
      exact started.mono (fun _ _ => continues_trans holds steady) fun _ => id
  have reported : s.Steady { s with method := method.name } :=
    Scope.SameAutoParams.steady ⟨rfl, rfl, rfl⟩ rfl rfl
  have selected : s.Steady { s with method := method.name, operation := "select" } :=
    Scope.SameAutoParams.steady ⟨rfl, rfl, rfl⟩ rfl rfl
  refine .modify ?_
  dsimp only
  split
  · refine .modify (rest _ ?_ selected)
    intro is
    constructor
    · assumption
    · rintro rfl
      cases method <;> cases is
  · refine rest _ ?_ reported
    intro is
    split at is
    · exact ⟨rfl, List.cons_ne_nil _ _⟩
    · cases is

/-- A nested query leaves the automatic parameters it has minted, and nothing else. -/
theorem nests_subquery {chain : Resolve Operation} (grouped' : Bool)
    (h : ∀ grouped (s : Scope), s.Holds names outer grouped [] →
      Leads s (continues names outer grouped' s) chain) : Nests names outer (subquery chain) := by
  intro grouped s op holds
  have start := holds.with_op Operation.every_nil
  refine .intro fun inner s' run => ?_
  unfold subquery nested at run
  dsimp only at run
  split at run
  · rename_i _ reached inside
    cases run
    obtain ⟨found, t, ran, checked⟩ := bind_eq_ok.1 inside
    have same : found = inner ∧ t = reached := by
      split at checked
      · split at checked <;> cases checked
        exact ⟨rfl, rfl⟩
      · cases checked
        exact ⟨rfl, rfl⟩
    obtain ⟨rfl, rfl⟩ := same
    obtain ⟨retains, after⟩ := Ensures.of_ok (h grouped s start) ran
    have restored {s'' : Scope} (same : t.SameAutoParams s'') : s.Retains s'' :=
      retains.trans same.retains
    refine ⟨⟨fun _ => after.numbered.congr ⟨rfl, rfl, rfl⟩, fun _ => restored ⟨rfl, rfl, rfl⟩, rfl,
      rfl⟩, ?_⟩
    exact after.closed
  · cases run

/-- A call on a name extends the operation that the chain started from, or starts a chain. -/
theorem continues_onName {c : ChainCall} {before : Bool} {seed : Operation} (name : String)
    (holds : s.Holds names outer before seed) (same : seed = [] ∨ before = grouped)
    (nests : Node.callTakesQuery c.method = true → c.arguments ≠ [] →
      Nests names outer c.inner ∧ Nests names outer c.collection)
    (within : ∀ l ∈ Node.callLambdas ((Node.identifier name).groups grouped) c.method c.arguments,
      l.Within names outer) :
    Leads s (continues names outer (Node.callGroups ((Node.identifier name).groups grouped) c.method) s)
      (c.onName name seed) := by
  refine .get ?_
  dsimp only
  split
  · rename_i isSeed
    split
    · exact .fail
    · rename_i nonempty
      have known : before = (Node.identifier name).groups grouped := by
        rcases same with rfl | rfl
        · exact absurd rfl nonempty
        · simp [Node.groups, isSeed]
      exact continues_call (known ▸ holds) _ c.arguments nests within
  · split
    · rename_i root named
      have takes (is : root = .from) : Node.callTakesQuery c.method = true := by
        simp [Node.callTakesQuery, ← is, RootMethod.name_of_ofName? named]
      split
      · have started := continues_root holds root c.arguments fun is nonempty =>
          (nests (takes is) nonempty).1
        exact started.mono (fun _ _ h => ⟨h.1, h.2.weaken _⟩) fun _ => id
      · exact .fail
    · exact .fail

/-- A call of a method extends the operation of the chain that it is called on. -/
theorem continues_chainCall {c : ChainCall} {before : Bool} {seed : Operation} (mark : DefaultMark)
    (holds : s.Holds names outer before seed) (same : seed = [] ∨ before = grouped)
    (earlier : Leads s (continues names outer (c.receiver.groups grouped) s) c.earlier)
    (nests : Node.callTakesQuery c.method = true → c.arguments ≠ [] →
      Nests names outer c.inner ∧ Nests names outer c.collection)
    (within : ∀ l ∈ Node.callLambdas (c.receiver.groups grouped) c.method c.arguments,
      l.Within names outer) :
    Leads s (continues names outer (Node.callGroups (c.receiver.groups grouped) c.method) s)
      (c.resolve mark seed) := by
  unfold ChainCall.resolve
  split
  · rename_i marks
    rw [ChainCall.method_of_marksDefault marks]
    exact earlier
  split
  · exact .fail
  split
  · rename_i name isName
    rw [isName] at within ⊢
    exact continues_onName name holds same nests within
  · refine .bind earlier ?_
    rintro op s' ⟨retains, after⟩
    have called := continues_call after _ c.arguments nests within
    exact called.mono (fun _ _ h => ⟨retains.trans h.1, h.2⟩) fun _ => id

end Resolve

open Resolve

variable {names outer : NameSet}

/-- The first of several nodes is a query of its own, if its chain is one. -/
theorem Node.nests_firstQuery {nodes : List Node} (mark : DefaultMark)
    (h : ∀ first ∈ nodes.head?, ∀ mark, (∀ l ∈ first.lambdas false, l.Within names outer) →
      ∀ grouped (s : Scope), s.Holds names outer grouped [] →
        Leads s (continues names outer (first.groups false) s) (first.chain mark []))
    (within : ∀ l ∈ Node.firstLambdas nodes, l.Within names outer) (nonempty : nodes ≠ []) :
    Nests names outer (Node.firstQuery mark nodes) := by
  cases nodes with
  | nil => exact absurd rfl nonempty
  | cons first rest =>
    unfold Node.firstQuery
    exact nests_subquery (first.groups false) (h first rfl mark within)

/-- Every parameter in the query of a chain is an automatic one, or a query parameter that a lambda of
the chain reads. -/
theorem Node.continues_chain (grouped : Bool) {seed : Operation} (node : Node) (mark : DefaultMark)
    (s : Scope) (before : Bool) (holds : s.Holds names outer before seed)
    (same : seed = [] ∨ before = grouped) (within : ∀ l ∈ node.lambdas grouped, l.Within names outer) :
    Leads s (continues names outer (node.groups grouped) s) (node.chain mark seed) := by
  induction node, mark using Node.chain_induction generalizing grouped seed s before with
  | refused node mark h => exact .refused h
  | lambda params body value mark returned ih =>
    rw [Node.lambdas_arrow returned] at within
    rw [Node.chain_arrow_of_ok returned, Node.groups_arrow returned]
    exact ih grouped s before holds same within
  | function name arguments mark first =>
    unfold Node.chain functionCall
    unfold Node.lambdas at within
    split
    · rename_i root named
      refine continues_root holds root arguments fun is => ?_
      have takes : Node.callTakesQuery name = true := by
        simp [Node.callTakesQuery, ← RootMethod.name_of_ofName? named, is]
      rw [if_pos takes] at within
      exact Node.nests_firstQuery .step (fun node mem mark within grouped s holds =>
        first node mem mark false s grouped holds (.inl rfl) within) within
    · exact .fail
  | method receiver property computed arguments mark receiver' first =>
    have earlier := receiver' grouped s before holds same
      fun l mem => within l (List.mem_append_left _ mem)
    have own : ∀ l ∈ Node.callLambdas (receiver.groups grouped) property.keyName arguments,
        l.Within names outer :=
      fun l mem => within l (List.mem_append_right _ (List.mem_append_left _ mem))
    have nested (mark : DefaultMark) (takes : Node.callTakesQuery property.keyName = true)
        (nonempty : arguments ≠ []) : Nests names outer (Node.firstQuery mark arguments) := by
      refine Node.nests_firstQuery mark (fun node mem mark within grouped s holds =>
        first node mem mark false s grouped holds (.inl rfl) within) (fun l mem => ?_) nonempty
      refine within l (List.mem_append_right _ (List.mem_append_right _ ?_))
      rwa [if_pos takes]
    unfold Node.chain
    let c : ChainCall :=
      ⟨receiver, property, computed, arguments, receiver.chain .step seed,
        Node.firstQuery .step arguments, Node.firstQuery .argument arguments⟩
    exact continues_chainCall (c := c) mark holds same earlier
      (fun takes nonempty => ⟨nested .step takes nonempty, nested .argument takes nonempty⟩) own

end FluentQuery
