import FluentQuery.Proofs.Plan.Incremental
import FluentQuery.Proofs.Resolve.QueryParams

/-!
# The parameters of a plan

What a scope holds between the calls of a chain (`Scope.Holds`) survives the end of a builder, the
normal form, and every call that is appended to the plan afterwards.  Main statement:
`plan_params_are_numbered`, that the automatic parameters of any plan are numbered without gaps and keep
their values, and that every other parameter in its query is rooted at a declared one.
-/

namespace FluentQuery

set_option autoImplicit false

/-! ### The lambdas of a plan -/

namespace MethodCall

/-- The lambdas of a call that extends a plan, given whether rows are grouped in it. -/
def lambdas (grouped : Bool) (c : MethodCall) : List PlacedLambda :=
  ((Node.identifier planSeed).withCall c).lambdas grouped

/-- Whether rows are grouped in a plan after a call. -/
def groups (grouped : Bool) (c : MethodCall) : Bool :=
  ((Node.identifier planSeed).withCall c).groups grouped

/-- The lambdas of several calls, one after the other. -/
def allLambdas : Bool → List MethodCall → List PlacedLambda
  | _, [] => []
  | grouped, c :: calls => c.lambdas grouped ++ allLambdas (c.groups grouped) calls

/-- Whether rows are grouped after several calls. -/
def allGroups (grouped : Bool) (calls : List MethodCall) : Bool :=
  calls.foldl groups grouped

theorem allLambdas_append (grouped : Bool) (before after : List MethodCall) :
    allLambdas grouped (before ++ after) =
      allLambdas grouped before ++ allLambdas (allGroups grouped before) after := by
  induction before generalizing grouped with
  | nil => rfl
  | cons c calls ih => simp only [List.cons_append, allLambdas, ih, List.append_assoc, allGroups,
      List.foldl_cons]

end MethodCall

namespace Node

/-- The lambdas of a builder and of the calls that extend its plan. -/
def planLambdas (builder : Node) (calls : List MethodCall) : List PlacedLambda :=
  builder.lambdas false ++ MethodCall.allLambdas (builder.groups false) calls

/-- The query parameters that a builder and the calls that extend its plan declare. -/
def planParams (builder : Node) (calls : List MethodCall) : NameSet :=
  builder.queryParams ++ (builder.planLambdas calls).flatMap PlacedLambda.declared

theorem planLambdas_append (builder : Node) (before after : List MethodCall) :
    builder.planLambdas (before ++ after) = builder.planLambdas before ++
      MethodCall.allLambdas (MethodCall.allGroups (builder.groups false) before) after := by
  rw [planLambdas, planLambdas, MethodCall.allLambdas_append, List.append_assoc]

/-- A lambda of a plan reads nothing that is not declared. -/
theorem within_planParams (builder : Node) (calls : List MethodCall) :
    ∀ l ∈ builder.planLambdas calls, l.Within (builder.planParams calls) builder.queryParams := by
  intro l mem name reads
  refine List.mem_append.2 ?_
  rcases PlacedLambda.mem_of_reads reads with outer | declared
  · exact .inl outer
  · exact .inr (List.mem_flatMap.2 ⟨l, mem, declared⟩)

/-- A builder starts with no automatic parameter, and with its own query parameters in scope. -/
theorem holds_rootScope {builder : Node} {s : Scope} (h : builder.rootScope = .ok s)
    (names : NameSet) : s.Holds names builder.queryParams false [] := by
  have start {t : Scope} (heq : t = s) (params : t.bindings.params = builder.queryParams)
      (numbered : t.Enumerates) (groupKey : t.groupByKey = .absent) :
      s.Holds names builder.queryParams false [] := by
    subst heq
    refine ⟨numbered, params, ?_, fun _ => groupKey, Operation.every_nil⟩
    rw [groupKey]
    exact Expr.every_absent
  unfold rootScope at h
  split at h
  · rename_i params _
    match params, h with
    | [], h | [_], h | [_, _], h | [_, _, _], h =>
      exact start (Except.ok.inj h) rfl (.start rfl rfl rfl) rfl
  · rename_i notArrow
    cases builder with
    | arrow params body => exact (notArrow params body rfl).elim
    | _ => exact start (Except.ok.inj h) rfl (.start rfl rfl rfl) rfl

end Node

/-! ### From call to call -/

namespace ParsedQuery

variable {names outer : NameSet} {grouped : Bool} {s : Scope}

/-- The normal form keeps what a chain leaves. -/
theorem holds_normalize {op : Operation} (h : s.Holds names outer grouped op) :
    s.Holds names outer grouped op.normalize :=
  h.with_op fun node mentioned => h.closed node (Operation.mentions_normalize mentioned)

/-- A parsed builder. -/
theorem holds_parse {builder : Node} {q : ParsedQuery} (parsed : builder.parseQuery = .ok q)
    (within : ∀ l ∈ builder.lambdas false, l.Within names builder.queryParams) :
    q.scope.Holds names builder.queryParams (builder.groups false) q.operation := by
  obtain ⟨start, hstart, run⟩ := outcome_bind_eq_ok.1 parsed
  have holds := Node.holds_rootScope hstart names
  split at run
  · rename_i op reached chained
    cases run
    have led := Node.continues_chain false builder .step start false holds (.inl rfl) within
    exact holds_normalize (Ensures.of_ok led chained).2
  · cases run

/-- One more call. -/
theorem continues_append {q q' : ParsedQuery} (holds : q.scope.Holds names outer grouped q.operation)
    {c : MethodCall} (within : ∀ l ∈ c.lambdas grouped, l.Within names outer)
    (run : q.append c.name c.arguments = .ok q') :
    q.scope.Retains q'.scope ∧ q'.scope.Holds names outer (c.groups grouped) q'.operation := by
  unfold append at run
  dsimp only at run
  split at run
  · rename_i op reached chained
    cases run
    have led := Node.continues_chain grouped ((Node.identifier planSeed).invoke c.name c.arguments)
      .step q.scope grouped holds (.inr rfl) within
    obtain ⟨retains, after⟩ := Ensures.of_ok led chained
    exact ⟨retains, holds_normalize after⟩
  · cases run

end ParsedQuery

namespace PlanState

variable {names outer : NameSet} {grouped : Bool}

/-- Several calls. -/
theorem continues_appendAll {state state' : PlanState} (calls : List MethodCall)
    (holds : state.query.scope.Holds names outer grouped state.operation)
    (within : ∀ l ∈ MethodCall.allLambdas grouped calls, l.Within names outer)
    (run : state.appendAll calls = .ok state') :
    state'.query.scope.Holds names outer (MethodCall.allGroups grouped calls) state'.operation := by
  induction calls generalizing state grouped with
  | nil =>
    cases run
    exact holds
  | cons c calls ih =>
    obtain ⟨next, appended, rest⟩ := outcome_bind_eq_ok.1 run
    obtain ⟨-, called⟩ := append_eq_ok.1 appended
    have after := ParsedQuery.continues_append holds
      (fun l mem => within l (List.mem_append_left _ mem)) called
    exact ih after.2 (fun l mem => within l (List.mem_append_right _ mem)) rest

/-- A plan that is reached from a builder. -/
theorem holds_plan {builder : Node} {q : ParsedQuery} (parsed : builder.parseQuery = .ok q)
    {schema : Schema} {calls : List MethodCall} {state : PlanState}
    (extended : (ofQuery q schema).appendAll calls = .ok state)
    (within : ∀ l ∈ builder.planLambdas calls, l.Within names builder.queryParams) :
    state.query.scope.Holds names builder.queryParams
      (MethodCall.allGroups (builder.groups false) calls) state.operation := by
  have start := ParsedQuery.holds_parse parsed fun l mem => within l (List.mem_append_left _ mem)
  refine continues_appendAll calls ?_ ?_ extended
  · exact ParsedQuery.holds_normalize start
  · exact fun l mem => within l (List.mem_append_right _ mem)

end PlanState

/-- The automatic parameters of a plan are numbered from one without gaps, with the values and names
that are recorded about them; every other parameter in its query is rooted at a declared one; and
appending a call changes none of them. -/
theorem plan_params_are_numbered {builder : Node} {q : ParsedQuery}
    (parsed : builder.parseQuery = .ok q) (schema : Schema) (calls : List MethodCall)
    {state : PlanState} (extended : (PlanState.ofQuery q schema).appendAll calls = .ok state) :
    state.query.scope.Enumerates ∧
      (∀ node, state.operation.Mentions node →
        node.Accounted (builder.planParams calls) (Assoc.keys state.query.scope.autoParams)) ∧
      ∀ (c : MethodCall) (next : PlanState), state.append c.name c.arguments = .ok next →
        state.query.scope.Retains next.query.scope := by
  have holds := PlanState.holds_plan parsed extended (builder.within_planParams calls)
  refine ⟨holds.numbered, fun node mentioned => (holds.closed node mentioned).accounted, ?_⟩
  intro c next appended
  -- What the plan holds does not depend on what is appended, but the names of the lambdas do.
  have within := builder.within_planParams (calls ++ [c])
  rw [builder.planLambdas_append] at within
  have before := PlanState.holds_plan parsed extended
    fun l mem => within l (List.mem_append_left _ mem)
  obtain ⟨-, called⟩ := PlanState.append_eq_ok.1 appended
  refine (ParsedQuery.continues_append before (fun l mem => ?_) called).1
  exact within l (List.mem_append_right _ (List.mem_append_left _ mem))

/-- `(q, p) => q.from("orders").where((row, p) => row.city === p.city && row.total > 100)` -/
def ordersOfCity : Node :=
  (BuilderForm.lambda ["q", "p"]).build
    (((Node.identifier "q").invoke "from" [.literal (.str "orders")]).invoke "where"
      [.arrow ["row", "p"] (.logical "&&"
        (.binary "===" ((Node.identifier "row").dot "city") ((Node.identifier "p").dot "city"))
        (.binary ">" ((Node.identifier "row").dot "total") (.literal (.int 100))))])

/-- The orders in a certain state, joined with the users over a certain level. -/
def withUsers : List MethodCall :=
  [.of "where" (.arrow ["row"]
      (.binary "===" ((Node.identifier "row").dot "state") (.literal (.str "open")))),
    ⟨.identifier "join", false,
      [((Node.identifier "q").invoke "from" [.literal (.str "users")]).invoke "where"
          [.arrow ["row"] (.binary ">" ((Node.identifier "row").dot "level") (.literal (.int 3)))],
        columnOfRow "userId", columnOfRow "id"]⟩]

theorem orders_params_are_numbered : ∃ q state,
    ordersOfCity.parseQuery = .ok q ∧ (PlanState.ofQuery q {}).appendAll withUsers = .ok state ∧
      Assoc.keys state.query.scope.autoParams = ["__p1", "__p2", "__p3"] ∧
      state.query.scope.Enumerates := by
  have runs : ((ordersOfCity.parseQuery >>= fun q =>
      (PlanState.ofQuery q {}).appendAll withUsers).toOption.any fun state =>
        Assoc.keys state.query.scope.autoParams = ["__p1", "__p2", "__p3"]) = true := by
    decide +kernel
  obtain ⟨state, found, keys⟩ := (Option.any_eq_true _ _).1 runs
  obtain ⟨q, parsed, extended⟩ := outcome_bind_eq_ok.1 (outcome_toOption_eq_some.1 found)
  refine ⟨q, state, parsed, extended, of_decide_eq_true keys, ?_⟩
  exact (plan_params_are_numbered parsed {} withUsers extended).1

end FluentQuery
