import FluentQuery.Proofs.Plan.ClosedPlans
import FluentQuery.Proofs.Resolve.SoundChains
import FluentQuery.Proofs.Sql.Malformed

/-!
# Plans are sound

The query of a builder is sound, calls that are appended keep it so, and row filters do: they bring
predicates in which nothing is missing, and derived tables that are complete queries
(`PlanState.sound_plan` for the query of a plan, `PlanState.sound_finalize` for the finished one).  So
conditions are predicates and no expression is missing wherever a plan is written:
`plans_are_well_sorted`.
-/

namespace FluentQuery

set_option autoImplicit false

open FluentQuery.Expr (Filled formative_filled aggregating_filled)

/-! ### Building -/

namespace ParsedQuery

/-- A sound query, with a group key in which nothing is missing. -/
structure Sound (q : ParsedQuery) : Prop where
  operation : q.operation.Sound
  groupKey : q.scope.groupByKey.Every Filled

/-- Work that makes a sound query leaves a sound one behind. -/
theorem sound_of_forms {work : Resolve Operation} (forms : Resolve.Forms Filled Operation.Sound work)
    {s s' : Scope} {op : Operation} (key : s.groupByKey.Every Filled) (run : work s = .ok op s') :
    Sound ⟨op.normalize, s'⟩ := by
  obtain ⟨hands, sound⟩ := forms s op s' ((Scope.hands_iff aggregating_filled).2 key) run
  exact ⟨sound.normalize, hands.1⟩

theorem sound_parse {builder : Node} {q : ParsedQuery} (parsed : builder.parseQuery = .ok q) :
    q.Sound := by
  obtain ⟨start, root, run⟩ := outcome_bind_eq_ok.1 parsed
  -- A builder starts without a group key.
  have holds := Node.holds_rootScope root []
  split at run
  · rename_i op reached chained
    cases run
    refine sound_of_forms (builder.forms_chain .step [] fun h => absurd rfl h) ?_ chained
    rw [holds.ungrouped rfl]
    exact Expr.every_absent
  · cases run

theorem Sound.append {q q' : ParsedQuery} (h : q.Sound) {method : String} {arguments : List Node}
    (run : q.append method arguments = .ok q') : q'.Sound := by
  unfold ParsedQuery.append at run
  dsimp only at run
  split at run
  · rename_i op reached chained
    cases run
    exact sound_of_forms (Node.forms_chain _ .step _ fun _ => h.operation) h.groupKey chained
  · cases run

end ParsedQuery

namespace PlanState

theorem sound_appendAll {state state' : PlanState} {calls : List MethodCall}
    (h : state.query.Sound) (run : state.appendAll calls = .ok state') : state'.query.Sound := by
  induction calls generalizing state with
  | nil =>
    cases run
    exact h
  | cons c calls ih =>
    obtain ⟨next, appended, rest⟩ := outcome_bind_eq_ok.1 run
    exact ih (h.append (append_eq_ok.1 appended).2) rest

/-- The query of a plan is sound. -/
theorem sound_plan {builder : Node} {q : ParsedQuery} (parsed : builder.parseQuery = .ok q)
    {schema : Schema} {calls : List MethodCall} {state : PlanState}
    (extended : (ofQuery q schema).appendAll calls = .ok state) : state.operation.Sound := by
  have start := ParsedQuery.sound_parse parsed
  have seeded : (ofQuery q schema).query.Sound := ⟨start.operation.normalize, start.groupKey⟩
  exact (sound_appendAll seeded extended).operation

end PlanState

/-! ### Filtering -/

namespace RowFilter

theorem forms_bindParams {p : Expr → Prop} (params : List String) :
    Resolve.Forms p (fun _ => True) (bindParams params) := by
  unfold bindParams
  split
  · exact .pure trivial
  · exact .rebind (Bindings.keepsRows_bindTable _)
  · refine .check .fail (Resolve.Forms.bind (.rebind (Bindings.keepsRows_bindTable _)) fun _ _ => ?_)
    split
    · exact .rebind (Bindings.keepsRows_bindParam _)
    · exact .pure trivial

/-- What an access to the context becomes is there, and a predicate if the access is one. -/
theorem filled_contextAccess {context : String} {n x : Expr} (h : contextAccess context n = some x) :
    x ≠ .absent ∧ x.Every Filled ∧ (n.isBoolean = true → x.isBoolean = true) := by
  unfold contextAccess at h
  split at h
  · split at h <;> cases h
    exact ⟨nofun, (Expr.every_param _ _ _).2 trivial, nofun⟩
  · split at h <;> cases h
    exact ⟨nofun, (Expr.every_booleanParam _ _).2 trivial, fun _ => rfl⟩
  · cases h

/-- Nothing is missing in a parsed filter: accesses to the context are replaced by parameters. -/
theorem filled_of_parse {declared : Node} {table : String} {kind : FilterKind} {counter : Int}
    {filter : RowFilter} (h : parse declared table kind counter = .ok filter) :
    filter.predicate.Every Filled := by
  obtain ⟨predicate, scope, run, bound, -⟩ := parse_eq_ok h
  have forms : Resolve.Forms Filled (Expr.FormedTest Filled)
      (declared.resolveLambda true "rowFilter" bindParams >>= Resolve.predicate) :=
    (declared.forms_resolveLambda formative_filled _ _ _ forms_bindParams).bind
      fun e formed => Resolve.forms_predicate formative_filled formed.2
  have filled := (forms _ _ _ ((Scope.hands_iff aggregating_filled).2 Expr.every_absent) run).2.2
  cases named : (paramNames declared).1.isEmpty with
  | true =>
    simp only [bindContext, named, if_true, Except.ok.injEq, Prod.mk.injEq] at bound
    rw [← bound.1]
    exact filled
  | false =>
    rw [(bindContext_eq_ok named bound).1]
    exact Expr.filled_replace (onLeaves_contextAccess _)
      (fun n x is h => (filled_contextAccess h).2.2 is) (fun n x h => (filled_contextAccess h).1)
      (fun n x h => (filled_contextAccess h).2.1) filled

end RowFilter

namespace Restricts

open Operation (Selects)

variable {guard : String → String → Option Expr} {op out : Operation}

/-- Nothing is said after a terminal step in the second operation either. -/
theorem goesOn (h : Restricts guard op out) (open' : ∀ last ∈ op.head?, last.isTerminal = false) :
    ∀ last ∈ out.head?, last.isTerminal = false := by
  cases h with
  | nil => exact nofun
  | permitted | unguarded | derived =>
    rintro last ⟨⟩
    rfl
  | step =>
    rintro last ⟨⟩
    rw [Step.isTerminal_withNested]
    exact open' _ rfl

/-- The permitted rows of a table are a query of their own. -/
theorem selects (h : Restricts guard op out)
    (guards : ∀ schema table predicate, guard schema table = some predicate →
      predicate.isBoolean = true ∧ predicate.Every Filled)
    (selects : op.Selects) : out.Selects := by
  induction h with
  | nil => exact absurd rfl selects.ne_nil
  | permitted named guarded =>
    obtain ⟨predicate, filled⟩ := guards _ _ _ guarded
    refine .start rfl fun _ => .extend (.start rfl fun h => absurd rfl h) ?_ rfl rfl ?_ nofun ?_
    · rintro last ⟨⟩
      rfl
    · exact Step.complete_of_slot predicate rfl filled
    · exact fun h => absurd rfl h
  | unguarded => exact selects
  | derived holds below ih =>
    cases selects with
    | start isFrom nested => exact .start rfl fun _ => ih (nested holds)
    | extend _ _ isFrom => cases isFrom
  | @step step nested earlier earlier' noFrom below rest ihBelow ihRest =>
    cases selects with
    | start isFrom => cases noFrom.symm.trans isFrom
    | extend source open' isFrom isCrud complete joined nested' =>
      have same := step.nested_withNested below.eq_nil_iff.2
      refine .extend (ihRest source) (rest.goesOn open') ?_ ?_ (complete.withNested nested) ?_ ?_
      · rw [Step.isFrom_withNested, isFrom]
      · rw [Step.isCrud_withNested, isCrud]
      · rw [Step.joins_withNested, same]
        exact fun joins empty => joined joins (below.eq_nil_iff.1 empty)
      · rw [same]
        exact fun holds => ihBelow (nested' fun empty => holds (below.eq_nil_iff.2 empty))

end Restricts

/-- Filters keep a query sound. -/
theorem Injects.sound {applied : RowFilter → Prop} {params : Json} {op out : Operation}
    (h : Injects applied params op out)
    (filters : ∀ filter, applied filter →
      filter.predicate.isBoolean = true ∧ filter.predicate.Every Filled)
    (sound : op.Sound) : out.Sound := by
  cases h with
  | select restricts own =>
    cases sound with
    | select selects =>
      refine .select (restricts.selects ?_ selects)
      intro schema table predicate guarded
      obtain ⟨filter, is, rfl⟩ := own schema table predicate guarded
      exact filters filter is
    | @change step isCrud complete =>
      -- A statement that changes rows holds no query.
      cases restricts with
      | permitted | unguarded | derived => cases isCrud
      | step _ _ rest =>
        cases rest
        exact .change (by rw [Step.isCrud_withNested, isCrud]) (complete.withNested _)
  | @update s rest filter is =>
    obtain ⟨isPredicate, filled⟩ := filters filter is
    obtain ⟨condition, assigned, predicate, returning⟩ :=
      Step.complete_update.1 (sound.complete (List.mem_cons_self ..))
    have value : ∀ n x, Filtering.assigned (Filtering.newValues s params) n = some x →
        x ≠ .absent ∧ x.Every Filled := by
      intro n x replaced
      obtain ⟨column, mem⟩ := Filtering.exists_of_assigned replaced
      cases values : s.assignments with
      | none =>
        rw [values] at mem
        cases mem
      | some properties =>
        rw [values] at mem assigned
        obtain ⟨here, below⟩ :=
          (Expr.every_object properties).1 (assigned _ (List.mem_singleton_self _))
        exact ⟨here _ mem, below _ mem⟩
    have check : (Filtering.checkOf s params filter).Every Filled :=
      Expr.filled_replace (Filtering.onLeaves_assigned _) (Filtering.keeps_assigned _)
        (fun n x h => (value n x h).1) (fun n x h => (value n x h).2) filled
    have isCheck := Filtering.isBoolean_checkOf isPredicate s params
    obtain ⟨guarded, guardedCondition⟩ :=
      Expr.filled_conj condition (.inr isPredicate) predicate filled
    obtain ⟨checked, checkedCondition⟩ :=
      Expr.filled_conj guardedCondition (.inr isCheck) guarded check
    cases sound with
    | select selects => cases selects.noCrud _ (List.mem_cons_self ..)
    | change =>
      exact .change rfl (Step.complete_update.2 ⟨checkedCondition, assigned, checked, returning⟩)
  | @delete s rest filter is =>
    obtain ⟨isPredicate, filled⟩ := filters filter is
    obtain ⟨condition, predicate⟩ :=
      Step.complete_delete.1 (sound.complete (List.mem_cons_self ..))
    cases sound with
    | select selects => cases selects.noCrud _ (List.mem_cons_self ..)
    | change =>
      obtain ⟨guarded, guardedCondition⟩ :=
        Expr.filled_conj condition (.inr isPredicate) predicate filled
      exact .change rfl (Step.complete_delete.2 ⟨guardedCondition, guarded⟩)
  | unfiltered => exact sound

namespace PlanState

/-- A finished plan is sound. -/
theorem sound_finalize {state : PlanState} (sound : state.operation.Sound) {params : Json}
    {w w' : Workspace} (remembers : state.schema.Remembers w) {plan : FinalizedPlan}
    (run : state.finalize params w = .ok plan w') : plan.operation.Sound := by
  obtain ⟨merged, w₀, hmerged, rest⟩ := bind_eq_ok.1 run
  obtain ⟨-, rfl⟩ := Session.ofExcept_eq_ok hmerged
  obtain ⟨bound, w₁, applied, final⟩ := bind_eq_ok.1 rest
  cases final
  cases declared : state.schema.rowFilters with
  | none =>
    rw [Session.applyRowFilters, declared] at applied
    cases applied
    exact sound
  | some filters =>
    rw [Session.applyRowFilters, declared] at applied
    obtain ⟨m, applied⟩ := Session.withMemo_eq_ok applied
    obtain ⟨context, found, hygienic, parsed⟩ :=
      RowFilters.hygienic_of_apply (remembers filters declared) applied
    refine hygienic.injects.sound (fun filter is => ?_) sound
    obtain ⟨key, kind, number, config, predicate, -, -, parse⟩ := parsed filter is
    exact ⟨RowFilter.isBoolean_of_parse parse, RowFilter.filled_of_parse parse⟩

end PlanState

/-- What a query needs of its expressions is there: predicates where there is a condition, at every
depth.  It is never refused for lack of it. -/
structure Operation.WellSorted (op : Operation) : Prop where
  complete : ∀ holder part, Part none op holder part → ∀ step ∈ part, step.Complete
  rendered : ∀ d params e, op.sql d params = .error e → e.fault ≠ SqlFault.missingExpression ∧
    ∀ type, e.fault ≠ SqlFault.unsupportedExpression "boolean" type

theorem Operation.Sound.wellSorted {op : Operation} (h : op.Sound) : op.WellSorted := by
  refine ⟨fun holder part read step => (h.part read).complete, fun d params e failed => ?_⟩
  have harmless := h.avoids_malformed d params e failed
  unfold CompileError.Has at harmless
  refine ⟨fun missing => ?_, fun type misplaced => ?_⟩
  · rw [missing] at harmless
    exact harmless trivial
  · rw [misplaced] at harmless
    exact harmless rfl

/-- Conditions are predicates and nothing is missing in a parsed query, in its plan after any calls, and
in the finished plan with its filters. -/
theorem plans_are_well_sorted {builder : Node} {q : ParsedQuery} (parsed : builder.parseQuery = .ok q)
    {schema : Schema} {calls : List MethodCall} {state : PlanState}
    (extended : (PlanState.ofQuery q schema).appendAll calls = .ok state)
    {w w' : Workspace} (remembers : schema.Remembers w) {params : Json} {plan : FinalizedPlan}
    (finalized : state.finalize params w = .ok plan w') :
    q.operation.WellSorted ∧ state.operation.WellSorted ∧ plan.operation.WellSorted := by
  have start := (ParsedQuery.sound_parse parsed).operation
  have sound := PlanState.sound_plan parsed extended
  have remembers' : state.schema.Remembers w := by
    rw [PlanState.schema_appendAll extended]
    exact remembers
  have final := PlanState.sound_finalize sound remembers' finalized
  exact ⟨start.wellSorted, sound.wellSorted, final.wellSorted⟩

/-- A builder and calls that extend its plan, all the way to the finished plan. -/
def Session.planOf (builder : Node) (calls : List MethodCall) (schema : Schema) (params : Json) :
    Session (ParsedQuery × PlanState × FinalizedPlan) := do
  let query ← ofExcept builder.parseQuery
  let state ← ofExcept ((PlanState.ofQuery query schema).appendAll calls)
  let plan ← state.finalize params
  return (query, state, plan)

theorem Session.planOf_eq_ok {builder : Node} {calls : List MethodCall} {schema : Schema}
    {params : Json} {w w' : Workspace} {q : ParsedQuery} {state : PlanState} {plan : FinalizedPlan}
    (run : planOf builder calls schema params w = .ok (q, state, plan) w') :
    builder.parseQuery = .ok q ∧ (PlanState.ofQuery q schema).appendAll calls = .ok state ∧
      state.finalize params w = .ok plan w' := by
  obtain ⟨query, w₁, first, rest₁⟩ := bind_eq_ok.1 run
  obtain ⟨parsed, rfl⟩ := ofExcept_eq_ok first
  obtain ⟨state', w₂, second, rest₂⟩ := bind_eq_ok.1 rest₁
  obtain ⟨extended, rfl⟩ := ofExcept_eq_ok second
  obtain ⟨plan', w₃, finalized, final⟩ := bind_eq_ok.1 rest₂
  cases final
  exact ⟨parsed, extended, finalized⟩

/-- Adult users that are active, in the own organisation. -/
theorem plans_are_well_sorted_adultUsers : ∃ q state plan w,
    Session.planOf adultUsers [.of "where" (columnOfRow "active")] ⟨some organisationFilters⟩ .null {} =
        .ok (q, state, plan) w ∧ plan.operation.length = 3 ∧
      q.operation.WellSorted ∧ state.operation.WellSorted ∧ plan.operation.WellSorted := by
  have succeeds : (match Session.planOf adultUsers [.of "where" (columnOfRow "active")]
      ⟨some organisationFilters⟩ .null {} with
    | .ok (_, _, plan) _ => decide (plan.operation.length = 3)
    | .error _ _ => false) = true := by
    decide +kernel
  split at succeeds
  · rename_i q state plan w run
    obtain ⟨parsed, extended, finalized⟩ := Session.planOf_eq_ok run
    have remembers : Schema.Remembers ⟨some organisationFilters⟩ {} := fun _ _ => .empty
    exact ⟨q, state, plan, w, run, of_decide_eq_true succeeds,
      plans_are_well_sorted parsed extended remembers finalized⟩
  · cases succeeds

end FluentQuery
