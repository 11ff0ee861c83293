import FluentQuery.Proofs.Plan.StatementCalls
import FluentQuery.Proofs.Resolve.Groups
import FluentQuery.Proofs.Sql.TableNumbers

/-!
# Calls that are repeated

The parts of an INSERT or UPDATE are filled in by one call each, but a `returning` takes the place of an
earlier one.  Rows are grouped once until a projection; after it they may be grouped again.  Both hold
of builders and of the calls that extend their plans: `clauses_are_given_once`.
-/

namespace FluentQuery

set_option autoImplicit false

open Operation (chain)

/-! ### Groups of normal forms -/

namespace Operation

variable {op : Operation}

/-- The normal form groups rows only if the query does; filters of window results hide groups. -/
theorem grouped_normalize (h : grouped (normalize op) = true) : grouped op = true := by
  induction op using reading_induction with
  | nil =>
    rw [normalize_nil] at h
    cases h
  | base | derived =>
    rw [normalize_from rfl] at h
    cases h
  | step step op isFrom _ ih =>
    have grown := grows_normalize isFrom op
    generalize normalize (step :: op) = normal at grown h
    cases grown with
    | dropped is =>
      subst is
      exact ih h
    | moved predicate is window => cases h
    | flattened collection path selector shape usesDefault kind inner keys groupSelector groupShape
        outerName rest is empty group =>
      subst is
      rw [group] at ih
      exact ih h
    | crossed collection path selector shape usesDefault is =>
      subst is
      exact ih h
    | kept =>
      cases step with
      | fromSource => cases isFrom
      | groupBy => rfl
      | select => cases h
      | _ => exact ih h

/-- Rows that are grouped are not grouped again, in a query and in its normal form. -/
theorem groups_once_normalize
    (rule : op.Everywhere fun step earlier => step.isGroupBy = true → grouped earlier = false) :
    (normalize op).Everywhere fun step earlier => step.isGroupBy = true → grouped earlier = false := by
  have shown : op.Everywhere fun step earlier =>
      step.isGroupBy = true → grouped (normalize earlier) = false := by
    refine rule.mono fun step earlier once is => ?_
    cases again : grouped (normalize earlier) with
    | false => rfl
    | true => cases (once is).symm.trans (grouped_normalize again)
  refine (everywhere_normalize_iff (fun step _ lowerable => ?_) (fun _ _ _ => ?_)
    fun _ _ _ _ => .rfl).2 shown
  · have other : step.isGroupBy = false := by
      cases step <;> first | rfl | cases lowerable
    simp [other]
  · exact iff_of_true nofun nofun

/-- Where rows are not grouped, a projection came after the last `groupBy`. -/
theorem select_of_not_grouped {earlier : Operation} {later before : List Step} {key : Expr}
    (h : grouped earlier = false) (read : level earlier = later ++ .groupBy key :: before) :
    ∃ selector, .select selector ∈ later := by
  induction earlier generalizing later with
  | nil =>
    cases later <;> cases read
  | cons step earlier ih =>
    cases isFrom : step.isFrom with
    | true =>
      rw [level_from isFrom] at read
      cases later with
      | nil =>
        cases read
        cases isFrom
      | cons first rest => cases rest <;> cases read
    | false =>
      rw [level_step isFrom] at read
      cases later with
      | nil =>
        cases read
        cases h
      | cons first rest =>
        obtain ⟨rfl, below⟩ := List.cons.inj read
        have further (h : grouped earlier = false) : ∃ selector, .select selector ∈ step :: rest := by
          obtain ⟨selector, mem⟩ := ih h below
          exact ⟨selector, List.mem_cons_of_mem _ mem⟩
        cases step with
        | select selector => exact ⟨selector, List.mem_cons_self ..⟩
        | groupBy => cases h
        | fromSource => cases isFrom
        | _ => exact further h

/-- What holds along a statement holds of each of its steps and of those before it. -/
theorem Along.of_level {p : Step → Operation → Prop} {step : Step} {later before : List Step}
    (h : op.Along p) (isFrom : step.isFrom = false) (read : level op = later ++ step :: before) :
    ∃ earlier, level earlier = before ∧ p step earlier := by
  induction op generalizing later with
  | nil => cases later <;> cases read
  | cons first earlier ih =>
    cases root : first.isFrom with
    | true =>
      rw [level_from root] at read
      cases later with
      | nil =>
        cases read
        cases root.symm.trans isFrom
      | cons _ rest => cases rest <;> cases read
    | false =>
      rw [level_step root] at read
      obtain ⟨here, below⟩ := (along_step root).1 h
      cases later with
      | nil =>
        cases read
        exact ⟨earlier, rfl, here⟩
      | cons _ rest => exact ih below (List.cons.inj read).2

/-- Between two groupings of a statement there is a projection. -/
theorem select_between_groupings
    (rule : op.Along fun step earlier => step.isGroupBy = true → grouped earlier = false)
    {before between after : List Step} {key key' : Expr}
    (steps : chain op = before ++ .groupBy key :: (between ++ .groupBy key' :: after)) :
    ∃ selector, .select selector ∈ between := by
  have read : level op =
      after.reverse ++ .groupBy key' :: (between.reverse ++ .groupBy key :: before.reverse) := by
    rw [← List.reverse_reverse (level op), ← chain, steps]
    simp
  obtain ⟨earlier, below, once⟩ := rule.of_level rfl read
  obtain ⟨selector, mem⟩ := select_of_not_grouped (once rfl) below
  exact ⟨selector, List.mem_reverse.1 mem⟩

end Operation

/-! ### Queries that grow -/

/-- What chains keep up is kept up by a further call. -/
theorem Resolve.Upheld.resolve {idle : Bindings → Prop} {reached : Operation → Scope → Prop}
    (upheld : Upheld idle reached) (c : MethodCall) {source : Operation} {s : Scope}
    (built : source.Built) (h : reached source s) : Leads s reached (c.resolve source) :=
  upheld.call built h c.name c.arguments (upheld.firstQuery c.arguments .step)
    (upheld.firstQuery c.arguments .argument)

/-- A query is the normal form of what chains reach. -/
def ParsedQuery.Normalizes (reached : Operation → Scope → Prop) (q : ParsedQuery) : Prop :=
  ∃ op, q.operation = op.normalize ∧ op.Built ∧ reached op q.scope

namespace ParsedQuery.Normalizes

variable {idle : Bindings → Prop} {reached : Operation → Scope → Prop}
  (upheld : Resolve.Upheld idle reached)

include upheld

theorem append {q q' : ParsedQuery} (h : q.Normalizes reached) {c : MethodCall}
    (run : q.append c.name c.arguments = .ok q') : q'.Normalizes reached := by
  obtain ⟨op, operation, built, here⟩ := h
  have ne : q.operation ≠ [] := operation ▸ built.normalize_ne_nil
  obtain ⟨-, op', resolved, operation'⟩ := (append_eq_ok ne c).1 run
  rw [operation] at resolved
  -- The call does to the query what it does to its normal form.
  obtain ⟨⟨op', resolved, same⟩, -⟩ :=
    (c.resolve_normalize_iff built _ _ _).1 ⟨op', resolved, operation'⟩
  have built' : op'.Built := Resolve.built_call built _ _ _ _ _ _ _ resolved
  exact ⟨op', same, built', Ensures.of_ok (upheld.resolve c built here) resolved⟩

theorem appendAll {state state' : PlanState} {calls : List MethodCall}
    (h : state.query.Normalizes reached) (run : state.appendAll calls = .ok state') :
    state'.query.Normalizes reached := by
  induction calls generalizing state with
  | nil =>
    cases run
    exact h
  | cons c calls ih =>
    obtain ⟨next, appended, rest⟩ := outcome_bind_eq_ok.1 run
    exact ih (append upheld h (PlanState.append_eq_ok.1 appended).2) rest

/-- The query of a plan is the normal form of what chains reach. -/
theorem of_plan {builder : Node} {q : ParsedQuery} (parsed : builder.parseQuery = .ok q)
    (root : ∀ start, builder.rootScope = .ok start → idle start.bindings) {schema : Schema}
    {calls : List MethodCall} {state : PlanState}
    (extended : (PlanState.ofQuery q schema).appendAll calls = .ok state) :
    state.query.Normalizes reached := by
  obtain ⟨op, -, operation, built, here⟩ := Node.written_of_upheld upheld root parsed
  refine appendAll upheld ⟨op, ?_, built, here⟩ extended
  unfold PlanState.ofQuery
  rw [operation, Operation.normalize_normalize]

end ParsedQuery.Normalizes

/-! ### Parts of a statement -/

/-- The parts of a statement that one call fills in. -/
inductive SinglePart where
  | values
  | conflictClause
  | conflictAction
  | assignments
deriving DecidableEq, Repr

/-- The part that a method fills in. -/
def Method.fills? : Method → Option SinglePart
  | values => some .values
  | onConflict => some .conflictClause
  | doNothing | doUpdateSet => some .conflictAction
  | set => some .assignments
  | _ => none

/-- Whether a call fills in a part. -/
def MethodCall.fills (part : SinglePart) (c : MethodCall) : Bool :=
  c.method?.bind Method.fills? = some part

namespace Step

/-- Whether a part of a statement is filled in. -/
def filled : SinglePart → Step → Bool
  | .values, insert s => s.values.isSome
  | .conflictClause, insert s => s.onConflict.isSome
  | .conflictAction, insert s => s.onConflict.any (·.action ≠ .none)
  | .assignments, update s => s.assignments.isSome
  | _, _ => false

/-- A statement with another RETURNING clause. -/
def withReturning (selector : Expr) : Step → Step
  | insert s => insert { s with returning := selector }
  | update s => update { s with returning := selector }
  | step => step

variable {method : Method} {step step' : Step}

/-- A method fills in the part it is for, which was missing, and no other. -/
theorem Next.filled (next : step.Next method step') (part : SinglePart) :
    (if method.fills? = some part then 1 else 0) + (step.filled part).toNat =
      (step'.filled part).toNat := by
  cases next with
  | insert next => cases next <;> cases part <;> simp_all [Step.filled, Method.fills?]
  | update next => cases next <;> cases part <;> simp_all [Step.filled, Method.fills?]
  | delete next => cases next <;> cases part <;> rfl

/-- A part is filled in if a call fills it in, and no other call does. -/
theorem Called.countP_fills {first : Step} {start s : Scope} {calls : List MethodCall}
    (called : first.Called start calls step s) (started : first.IsStarted) (part : SinglePart) :
    calls.countP (·.fills part) = (step.filled part).toNat := by
  induction called with
  | nil =>
    obtain ⟨-, method, schema, table, rfl⟩ := started
    cases method <;> cases part <;> rfl
  | @call calls step step' s t c before run ih =>
    obtain ⟨method, _, called, same, next⟩ := next_of_resolve (before.isCrud started.1) run
    cases same
    rw [List.countP_append, ih, ← next.filled part, List.countP_singleton, MethodCall.fills, called,
      Nat.add_comm]
    simp

/-- Calls that extend the plan of a statement are calls on the statement. -/
theorem Called.appendAll {first : Step} {start : Scope} {before calls : List MethodCall}
    {state state' : PlanState} (called : first.Called start before step state.query.scope)
    (isCrud : first.isCrud = true) (operation : state.operation = [step])
    (run : state.appendAll calls = .ok state') : ∃ last, state'.operation = [last] ∧
      first.Called start (before ++ calls) last state'.query.scope := by
  induction calls generalizing before step state with
  | nil =>
    cases run
    exact ⟨step, operation, (List.append_nil before).symm ▸ called⟩
  | cons c calls ih =>
    obtain ⟨next, appended, rest⟩ := outcome_bind_eq_ok.1 run
    obtain ⟨-, step', resolved, operation'⟩ :=
      PlanState.statement_of_append (called.isCrud isCrud) operation appended
    obtain ⟨last, done, called'⟩ := ih (called.call resolved) operation' rest
    rw [List.append_assoc] at called'
    exact ⟨last, done, called'⟩

end Step

/-- Another `returning` takes the place of the one before, whatever that was. -/
theorem MethodCall.returning_withReturning {c : MethodCall} (returns : c.method? = some .returning)
    (step : Step) (selector : Expr) (s : Scope) :
    c.resolve [step.withReturning selector] s = c.resolve [step] s := by
  have called : Method.ofName? c.name = some .returning := returns
  unfold resolve Resolve.call
  rw [called]
  cases step <;> rfl

/-- Between two groupings of a statement there is always a projection.  A statement that changes rows
is built by calls of which at most one fills in each of its parts; but a RETURNING clause that is there
is as good as none to a further call that gives one. -/
theorem clauses_are_given_once {builder : Node} {q : ParsedQuery} (parsed : builder.parseQuery = .ok q)
    {schema : Schema} {calls : List MethodCall} {state : PlanState}
    (extended : (PlanState.ofQuery q schema).appendAll calls = .ok state) :
    (∀ holder part, Operation.Part none state.operation holder part →
      ∀ before between after key key',
        chain part = before ++ .groupBy key :: (between ++ .groupBy key' :: after) →
        ∃ selector, .select selector ∈ between) ∧
    ∀ step rest, (PlanState.ofQuery q schema).operation = step :: rest → step.isCrud = true →
      ∃ last, state.operation = [last] ∧
        (∀ part, (builder.methodCalls ++ calls).countP (·.fills part) ≤ 1) ∧
        ∀ c : MethodCall, c.method? = some .returning → ∀ selector,
          c.resolve [last.withReturning selector] state.query.scope =
            c.resolve [last] state.query.scope := by
  refine ⟨?_, fun step rest operation isCrud => ?_⟩
  · obtain ⟨op, operation, -, grouped⟩ := ParsedQuery.Normalizes.of_plan Resolve.upheld_grouped parsed
      (fun _ => Node.namesRows_rootScope) extended
    have rule := Operation.groups_once_normalize (grouped.rule.mono fun _ _ => (·.once))
    intro holder part read before between after key key' steps
    rw [PlanState.operation, operation] at read
    have along := Operation.everywhere_iff_along.1 rule holder part read
    exact Operation.select_between_groupings along steps
  · obtain ⟨single, _, first, start, -, started, -, called⟩ :=
      Node.called_of_parse parsed schema isCrud operation
    obtain ⟨last, done, called⟩ := Step.Called.appendAll called started.1 single extended
    refine ⟨last, done, fun part => ?_, fun c returns selector => ?_⟩
    · rw [called.countP_fills started part]
      exact Bool.toNat_le _
    · exact c.returning_withReturning returns last selector _

/-- `(q) => q.insertInto("users").values({ name: "x" })`, with further calls. -/
def insertedUser (calls : List MethodCall) : Node :=
  (BuilderForm.lambda ["q"]).build <|
    ((Node.identifier "q").invoke "insertInto" [.literal (.str "users")]).withCalls
      (.of "values" (.object [.named "name" (.literal (.str "x")) false]) :: calls)

/-- An INSERT that returns an id, and is then asked for the name. -/
theorem clauses_are_given_once_insertedUser : ∃ q state last,
    (insertedUser [.of "returning" (columnOfRow "id")]).parseQuery = .ok q ∧
      (PlanState.ofQuery q {}).appendAll [.of "returning" (columnOfRow "name")] = .ok state ∧
      state.operation = [last] ∧
      ((insertedUser [.of "returning" (columnOfRow "id")]).methodCalls ++
        [MethodCall.of "returning" (columnOfRow "name")]).countP (·.fills .values) ≤ 1 := by
  have runs : ∃ q state step,
      (insertedUser [.of "returning" (columnOfRow "id")]).parseQuery = .ok q ∧
      (PlanState.ofQuery q {}).appendAll [.of "returning" (columnOfRow "name")] = .ok state ∧
      (PlanState.ofQuery q {}).operation = [step] ∧ step.isCrud = true := ⟨_, _, _, rfl, rfl, rfl, rfl⟩
  obtain ⟨q, state, step, parsed, extended, operation, isCrud⟩ := runs
  obtain ⟨last, single, once, -⟩ :=
    (clauses_are_given_once parsed extended).2 step [] operation isCrud
  exact ⟨q, state, last, parsed, extended, single, once .values⟩

/-- `(q) => q.from("orders").groupBy((row) => row.city).select((g) => ({ city: g.key }))
.groupBy((row) => row.city)` -/
def citiesGroupedAgain : Node :=
  (BuilderForm.lambda ["q"]).build <| (Node.fromTable "orders").withCalls
    [.of "groupBy" (columnOfRow "city"),
      .of "select" (.arrow ["g"] (.object [.named "city" (Node.columnOf "g" "key") false])),
      .of "groupBy" (columnOfRow "city")]

/-- Groups of groups are asked for and not written; and of two RETURNING clauses the second is. -/
theorem clauses_are_given_again :
    (∃ q text, citiesGroupedAgain.parseQuery = .ok q ∧
      (chain q.operation).countP Step.isGroupBy = 2 ∧ q.operation.sql .postgres .null = .ok text ∧
      text.render .postgres = "SELECT \"city\" AS \"city\" FROM \"orders\" GROUP BY \"city\"") ∧
    ∃ q text, (insertedUser [.of "returning" (columnOfRow "id"),
        .of "returning" (columnOfRow "name")]).parseQuery = .ok q ∧
      q.operation.sql .postgres (.obj [("__p1", .str "x")]) = .ok text ∧ text.render .postgres =
        "INSERT INTO \"users\" (\"name\") VALUES ($(__p1)) RETURNING \"name\"" :=
  ⟨⟨_, _, rfl, by decide +kernel, rfl, by decide +kernel⟩, ⟨_, _, rfl, rfl, by decide +kernel⟩⟩

end FluentQuery
