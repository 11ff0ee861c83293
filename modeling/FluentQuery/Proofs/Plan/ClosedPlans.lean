import FluentQuery.Proofs.Plan.Conditions
import FluentQuery.Proofs.Plan.PlanParams
import FluentQuery.Proofs.Policy.Hygiene
import FluentQuery.Proofs.Sql.Placeholders

/-!
# Plans that read no query parameter

Row filters mention their own parameters only, and bring these along; merging keeps automatic
parameters; and expanding lists binds the names of their items.  So the text of a plan that reads no
query parameter has no placeholder without a value: `closed_plan_binds_placeholders`.

What a lambda reads is decided by what its parameters are bound to.  A group is bound without hiding a
query parameter of the same name, which a row would hide (`group_keeps_query_parameter`).
-/

namespace FluentQuery

set_option autoImplicit false

/-! ### Filters -/

/-- Restricting a query brings in the nodes of the filters. -/
theorem Restricts.every {p : Expr → Prop} {guard : String → String → Option Expr}
    {op out : Operation} (restricts : Restricts guard op out) (own : op.Every p)
    (guards : ∀ schema table predicate, guard schema table = some predicate → predicate.Every p) :
    out.Every p := by
  have root {table schema aliasHint : String} {nested earlier : Operation} (h : nested.Every p)
      (before : earlier.Every p) :
      Operation.Every p (.fromSource table schema nested aliasHint :: earlier) :=
    Operation.every_cons.2 ⟨List.forall_mem_nil _, h, before⟩
  induction restricts with
  | nil => exact own
  | permitted named guarded =>
    refine root (Operation.every_cons.2 ⟨?_, Operation.every_nil, ?_⟩) Operation.every_nil
    · exact Operation.forall_present.2 (List.forall_mem_singleton.2 (guards _ _ _ guarded))
    · exact root Operation.every_nil Operation.every_nil
  | unguarded => exact own
  | derived holds below ih =>
    obtain ⟨-, nested, before⟩ := Operation.every_cons.1 own
    exact root (ih nested) before
  | @step step nested earlier earlier' noFrom below rest ihBelow ihRest =>
    obtain ⟨here, nested, before⟩ := Operation.every_cons.1 own
    refine Operation.every_cons.2 ⟨?_, (ihBelow nested).withNested step, ihRest before⟩
    rw [Operation.expressions_withNested]
    exact here

/-- More automatic parameters account for more. -/
theorem Expr.Accounted.mono {declared : NameSet} {auto auto' : List String} {node : Expr}
    (h : node.Accounted declared auto) (kept : ∀ name ∈ auto, name ∈ auto') :
    node.Accounted declared auto' := by
  cases node with
  | param =>
    rcases h with known | ⟨whole, plain, mem⟩
    · exact .inl known
    · exact .inr ⟨whole, plain, kept _ mem⟩
  | booleanParam =>
    rcases h with known | ⟨whole, mem⟩
    · exact .inl known
    · exact .inr ⟨whole, kept _ mem⟩
  | _ => trivial

/-- Every parameter in a query is given, as a whole. -/
def BoundQuery.Given (query : BoundQuery) : Prop :=
  query.operation.Every (Expr.Accounted [] (Assoc.keys query.params.members))

/-- Filters bring the parameters that they mention. -/
theorem Hygienic.given {context : Json} {applied : RowFilter → Prop} {query result : BoundQuery}
    (h : Hygienic context applied query result) (own : query.Given) : result.Given := by
  have kept : ∀ name ∈ Assoc.keys query.params.members, name ∈ Assoc.keys result.params.members := by
    intro name mem
    rw [← Json.contains_iff] at mem ⊢
    exact (h.params.added name).2 (.inl mem)
  have brought (filter : RowFilter) (is : applied filter) :
      ∀ name ∈ filter.boundNames, name ∈ Assoc.keys result.params.members := by
    intro name mem
    rw [← Json.contains_iff]
    exact (h.params.added name).2 (.inr ⟨filter, is, mem⟩)
  have own' : query.operation.Every (Expr.Accounted [] (Assoc.keys result.params.members)) :=
    own.mono fun _ accounted => accounted.mono kept
  have predicate (filter : RowFilter) (is : applied filter) :
      filter.predicate.Every (Expr.Accounted [] (Assoc.keys result.params.members)) :=
    (h.refers.predicate filter is).mono fun _ accounted => accounted.mono (brought filter is)
  have conj {l r : Expr} (hl : l.Every (Expr.Accounted [] (Assoc.keys result.params.members)))
      (hr : r.Every (Expr.Accounted [] (Assoc.keys result.params.members))) :=
    Expr.every_conj (fun _ _ => trivial) hl hr
  unfold BoundQuery.Given
  have injects := h.injects
  have checks := h.refers.check
  obtain ⟨op, params⟩ := query
  obtain ⟨out, final⟩ := result
  dsimp only at *
  cases injects with
  | select restricts guards =>
    refine restricts.every own' fun schema table guard guarded => ?_
    obtain ⟨filter, is, rfl⟩ := guards schema table guard guarded
    exact predicate filter is
  | @update s rest filter is =>
    obtain ⟨assigned, condition, returning, before⟩ := Operation.every_update.1 own'
    refine Operation.every_update.2 ⟨assigned, conj (conj condition (predicate filter is)) ?_,
      returning, before⟩
    intro node mem
    rcases checks filter is s node mem with own | ⟨assignment, made, below⟩
    · exact own.mono (brought filter is)
    · -- The check holds the values that are assigned.
      cases values : s.assignments with
      | none =>
        rw [values] at made
        cases made
      | some properties =>
        rw [values] at made assigned
        have object := assigned (.object properties) (List.mem_singleton_self _)
        exact ((Expr.every_object _).1 object).2 assignment made node below
  | @delete s rest filter is =>
    obtain ⟨condition, before⟩ := Operation.every_delete.1 own'
    exact Operation.every_delete.2 ⟨conj condition (predicate filter is), before⟩
  | unfiltered => exact own'

/-! ### Values -/

namespace Sql

/-- Expanding lists keeps the names that are bound. -/
theorem contains_expandArrayParams {params : Json} {name : String}
    (mem : name ∈ Assoc.keys params.members) : (expandArrayParams params).contains name = true := by
  rw [Json.contains_iff]
  exact Assoc.mem_keys_merge.2 (.inr mem)

/-- Every item of a list is bound. -/
theorem contains_item {params : Json} {name : String} {items : List Json} {position : Nat}
    (array : params.get? name = some (.arr items)) (below : position < items.length) :
    (expandArrayParams params).contains (itemName name position) = true := by
  rw [Json.contains_iff]
  refine Assoc.mem_keys_merge.2 (.inl (List.mem_map.2 ⟨(itemName name position, items[position]),
    ?_, rfl⟩))
  rw [← Json.find?_members] at array
  refine List.mem_flatMap.2 ⟨(name, .arr items), Assoc.mem_of_find? array, ?_⟩
  exact List.mem_mapIdx.2 ⟨position, below, rfl⟩

end Sql

/-- What is written for a parameter that is given is bound when lists are expanded. -/
theorem Expr.Accounted.announces {params : Json} {node : Expr}
    (h : node.Accounted [] (Assoc.keys params.members)) :
    node.Announces (fun name => (Sql.expandArrayParams params).contains name = true) params := by
  intro name written
  cases node with
  | param root property index =>
    rcases h with impossible | ⟨rfl, rfl, mem⟩
    · cases impossible
    · rcases written with rfl | ⟨items, position, array, below, rfl⟩
      · exact Sql.contains_expandArrayParams mem
      · exact Sql.contains_item array below
  | booleanParam root property =>
    rcases h with impossible | ⟨rfl, mem⟩
    · cases impossible
    · cases written
      exact Sql.contains_expandArrayParams mem
  | _ => cases written

/-- A query whose parameters are given is written with bound placeholders. -/
theorem BoundQuery.Given.bound {query : BoundQuery} (h : query.Given) {d : Dialect}
    {result : SqlResult} (compiled : d.toSql query = .ok result) :
    ∃ fragment : Fragment, result.sql = fragment.render d ∧
      query.operation.sql d query.params = .ok fragment ∧
        ∀ name ∈ fragment.placeholders, result.params.contains name = true := by
  obtain ⟨fragment, written, rest⟩ := outcome_bind_eq_ok.1 compiled
  cases rest
  refine ⟨fragment, rfl, written, ?_⟩
  exact Sql.over_sql d query.operation (h.mono fun _ => Expr.Accounted.announces) fragment written

/-! ### Plans -/

/-- Merging keeps automatic parameters, whatever the caller gives. -/
theorem mergeParams_keeps {autoParams params merged : Json}
    (h : mergeParams autoParams params = .ok merged) :
    ∀ name ∈ Assoc.keys autoParams.members, name ∈ Assoc.keys merged.members := by
  intro name mem
  unfold mergeParams at h
  split at h
  · cases h
    exact mem
  · cases h
    exact Assoc.mem_keys_merge.2 (.inr mem)
  · cases h

namespace PlanState

/-- The parameters of a finished plan are given if those of its query are automatic. -/
theorem given_finalize {state : PlanState} {params : Json} {w w' : Workspace} {plan : FinalizedPlan}
    (remembers : state.schema.Remembers w)
    (own : state.operation.Every
      (Expr.Accounted [] (Assoc.keys state.query.scope.autoParams)))
    (run : state.finalize params w = .ok plan w') : plan.Given := by
  obtain ⟨merged, w₀, hmerged, rest⟩ := bind_eq_ok.1 run
  obtain ⟨kept, rfl⟩ := Session.ofExcept_eq_ok hmerged
  obtain ⟨bound, w₁, applied, final⟩ := bind_eq_ok.1 rest
  cases final
  have given : BoundQuery.Given ⟨state.operation, merged⟩ :=
    own.mono fun _ accounted => accounted.mono (mergeParams_keeps kept)
  cases declared : state.schema.rowFilters with
  | none =>
    rw [Session.applyRowFilters, declared] at applied
    cases applied
    exact given
  | some filters =>
    rw [Session.applyRowFilters, declared] at applied
    obtain ⟨m, applied⟩ := Session.withMemo_eq_ok applied
    obtain ⟨context, found, hygienic, -⟩ :=
      RowFilters.hygienic_of_apply (remembers filters declared) applied
    exact hygienic.given given

theorem schema_appendAll {state state' : PlanState} {calls : List MethodCall}
    (run : state.appendAll calls = .ok state') : state'.schema = state.schema := by
  induction calls generalizing state with
  | nil =>
    cases run
    rfl
  | cons c calls ih =>
    obtain ⟨next, appended, rest⟩ := outcome_bind_eq_ok.1 run
    rw [ih rest, (append_eq_ok.1 appended).1]

end PlanState

/-- The text of a plan that reads no query parameter has no placeholder without a value, whatever
filters apply and whatever parameters the caller gives. -/
theorem closed_plan_binds_placeholders {builder : Node} {q : ParsedQuery}
    (parsed : builder.parseQuery = .ok q) {schema : Schema} {calls : List MethodCall}
    {state : PlanState} (extended : (PlanState.ofQuery q schema).appendAll calls = .ok state)
    (closed : ∀ l ∈ builder.planLambdas calls, l.reads builder.queryParams = [])
    {w w' : Workspace} (remembers : schema.Remembers w) {params : Json} {plan : FinalizedPlan}
    (finalized : state.finalize params w = .ok plan w') {d : Dialect} {result : SqlResult}
    (compiled : d.toSql plan.toBoundQuery = .ok result) :
    ∃ fragment : Fragment, result.sql = fragment.render d ∧
      plan.operation.sql d plan.params = .ok fragment ∧
        ∀ name ∈ fragment.placeholders, result.params.contains name = true := by
  have within : ∀ l ∈ builder.planLambdas calls, l.Within [] builder.queryParams := by
    intro l mem name reads
    rw [closed l mem] at reads
    exact reads
  have holds := PlanState.holds_plan parsed extended within
  have own : state.operation.Every
      (Expr.Accounted [] (Assoc.keys state.query.scope.autoParams)) :=
    fun node mentioned => (holds.closed node mentioned).accounted
  have remembers' : state.schema.Remembers w := by
    rw [PlanState.schema_appendAll extended]
    exact remembers
  exact (PlanState.given_finalize remembers' own finalized).bound compiled

/-- `(q, p) => q.from("orders").groupBy(row => row.city).select(name => name)` -/
def selectGroup (name : String) : Node :=
  (BuilderForm.lambda ["q", "p"]).build
    (((Node.identifier "q").invoke "from" [.literal (.str "orders")]).withCalls
      [.of "groupBy" (columnOfRow "city"), .of "select" (.arrow [name] (.identifier name))])

/-- `(q, p) => q.from("users").where(row => row.age > 18)` -/
def adultUsers : Node :=
  (BuilderForm.lambda ["q", "p"]).build
    (((Node.identifier "q").invoke "from" [.literal (.str "users")]).withCalls
      [.of "where" (.arrow ["row"]
        (.binary ">" ((Node.identifier "row").dot "age") (.literal (.int 18))))])

/-- The placeholders in the text of a plan that is made of a builder and a call. -/
def placeholdersOf (builder : Node) (call : MethodCall) (schema : Schema) : Session (List String) := do
  let query ← Session.ofExcept builder.parseQuery
  let state ← Session.ofExcept ((PlanState.ofQuery query schema).appendAll [call])
  let plan ← state.finalize .null
  let _result ← Session.ofExcept (Dialect.postgres.toSql plan.toBoundQuery)
  let fragment ← Session.ofExcept (plan.operation.sql .postgres plan.params)
  return fragment.placeholders

/-- Adult users that are active, in the own organisation. -/
theorem closed_plan_binds_placeholders_adultUsers :
    ∃ (fragment : Fragment) (result : SqlResult), result.sql = fragment.render .postgres ∧
      "__p1" ∈ fragment.placeholders ∧ RowFilter.contextParam "org" ∈ fragment.placeholders ∧
      ∀ name ∈ fragment.placeholders, result.params.contains name = true := by
  have succeeds : (match placeholdersOf adultUsers (.of "where" (columnOfRow "active"))
      ⟨some organisationFilters⟩ {} with
    | .ok names _ => decide ("__p1" ∈ names ∧ RowFilter.contextParam "org" ∈ names)
    | .error _ _ => false) = true := by
    decide +kernel
  have closed : ∀ l ∈ adultUsers.planLambdas [.of "where" (columnOfRow "active")],
      l.reads adultUsers.queryParams = [] := by
    decide
  have remembers : Schema.Remembers ⟨some organisationFilters⟩ {} := fun _ _ => .empty
  split at succeeds
  · rename_i names w ran
    obtain ⟨query, w₁, first, rest₁⟩ := bind_eq_ok.1 ran
    obtain ⟨parsed, rfl⟩ := Session.ofExcept_eq_ok first
    obtain ⟨state, w₂, second, rest₂⟩ := bind_eq_ok.1 rest₁
    obtain ⟨extended, rfl⟩ := Session.ofExcept_eq_ok second
    obtain ⟨plan, w₃, finalized, rest₃⟩ := bind_eq_ok.1 rest₂
    obtain ⟨result, w₄, third, rest₄⟩ := bind_eq_ok.1 rest₃
    obtain ⟨compiled, rfl⟩ := Session.ofExcept_eq_ok third
    obtain ⟨fragment, w₅, fourth, rest₅⟩ := bind_eq_ok.1 rest₄
    obtain ⟨written, rfl⟩ := Session.ofExcept_eq_ok fourth
    cases rest₅
    obtain ⟨automatic, filtered⟩ := of_decide_eq_true succeeds
    obtain ⟨fragment', text, written', bound⟩ :=
      closed_plan_binds_placeholders parsed extended closed remembers finalized compiled
    cases written.symm.trans written'
    exact ⟨fragment, result, text, automatic, filtered, bound⟩
  · cases succeeds

/-- A lambda over groups whose parameter is called as the query parameter reads the latter; under
another name it is refused. -/
theorem group_keeps_query_parameter :
    (∃ query plan w result, (selectGroup "p").parseQuery = .ok query ∧
      (PlanState.ofQuery query {}).finalize .null {} = .ok plan w ∧
      Dialect.postgres.toSql plan.toBoundQuery = .ok result ∧
      result.sql = "SELECT $(p) FROM \"orders\" GROUP BY \"city\"" ∧
      result.params = .obj []) ∧
    (selectGroup "g").parseQuery =
      .error ⟨ExprFault.bareGrouping "g", ⟨"select", "orders", "select"⟩⟩ := by
  refine ⟨⟨_, _, _, _, rfl, rfl, rfl, ?_, rfl⟩, rfl⟩
  decide

end FluentQuery
