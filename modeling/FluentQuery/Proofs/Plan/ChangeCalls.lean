import FluentQuery.Proofs.Plan.StatementCalls
import FluentQuery.Proofs.Policy.ParsedFilter

/-!
# Calls on an UPDATE or DELETE

Of the calls on such a statement only `where` touches its condition, to which it adds one; only
`allowFullTableUpdate` and `allowFullTableDelete` let it do without (`Change.resolve_cases`).  So the
condition of a statement that calls have built, in its builder or on its handle, is the conjunction of
what its `where` calls gave, in the order of the calls (`Change.Runs.gathered`).
-/

namespace FluentQuery

set_option autoImplicit false

/-- A statement that changes or removes rows that are there. -/
inductive Change where
  | update (statement : UpdateStatement)
  | delete (statement : DeleteStatement)

namespace Change

def step : Change → Step
  | update s => .update s
  | delete s => .delete s

def schema : Change → String
  | update s => s.schema
  | delete s => s.schema

def table : Change → String
  | update s => s.table
  | delete s => s.table

def predicate : Change → Expr
  | update s => s.predicate
  | delete s => s.predicate

def allowsFullTable : Change → Bool
  | update s => s.allowFullTable
  | delete s => s.allowFullTable

def withPredicate : Change → Expr → Change
  | update s, predicate => update { s with predicate }
  | delete s, predicate => delete { s with predicate }

/-- The filters that apply to a statement. -/
def filterKind : Change → FilterKind
  | update _ => .update
  | delete _ => .delete

/-- The name of the method that lets a statement do without a condition. -/
def allowance : Change → String
  | update _ => "allowFullTableUpdate"
  | delete _ => "allowFullTableDelete"

/-- A statement that has just been started. -/
def IsNew (change : Change) : Prop :=
  change.predicate = .absent ∧ change.allowsFullTable = false

variable (change : Change)

@[simp] theorem predicate_withPredicate (e : Expr) : (change.withPredicate e).predicate = e := by
  cases change <;> rfl

@[simp] theorem allowsFullTable_withPredicate (e : Expr) :
    (change.withPredicate e).allowsFullTable = change.allowsFullTable := by
  cases change <;> rfl

@[simp] theorem filterKind_withPredicate (e : Expr) :
    (change.withPredicate e).filterKind = change.filterKind := by
  cases change <;> rfl

theorem allowance_congr {change change' : Change} (h : change'.filterKind = change.filterKind) :
    change'.allowance = change.allowance := by
  cases change <;> cases change' <;> first | rfl | cases h

theorem isCrud_step : change.step.isCrud = true := by
  cases change <;> rfl

theorem step_inj {change change' : Change} (h : change.step = change'.step) : change = change' := by
  cases change <;> cases change' <;> cases h <;> rfl

theorem ops_inj {change change' : Change} {rest : Operation}
    (h : [change.step] = change'.step :: rest) : change = change' ∧ rest = [] := by
  obtain ⟨hstep, hrest⟩ := List.cons.inj h
  exact ⟨step_inj hstep, hrest.symm⟩

end Change

/-! ### One call -/

namespace MethodCall

/-- The condition that a `where` gives, in the scope in which it is called. -/
def condition? (c : MethodCall) (s : Scope) : Option Expr :=
  match c.arguments with
  | [argument] =>
    if c.name = "where" then
      match Resolve.rowPredicate argument { s with method := c.name } with
      | .ok condition _ => some condition
      | .error _ _ => none
    else none
  | _ => none

/-- A call is one of a method in the table, which finds the scope as it was left. -/
theorem apply_of_resolve {c : MethodCall} {source op : Operation} {s t : Scope}
    (run : c.resolve source s = .ok op t) : ∃ method, (c.name, method) ∈ Method.table ∧
      Resolve.apply method source c.arguments (Node.firstQuery .step c.arguments)
        (Node.firstQuery .argument c.arguments) { s with method := c.name } = .ok op t := by
  obtain ⟨method, called, run⟩ := c.method_of_resolve run
  exact ⟨method, Assoc.mem_of_find? called, run⟩

/-- Conditions are given by `where` alone. -/
theorem condition?_eq_none {c : MethodCall} (h : c.name ≠ "where") (s : Scope) :
    c.condition? s = none := by
  unfold condition?
  split
  · rw [if_neg h]
  · rfl

end MethodCall

namespace Method

/-- Each method that touches the condition of a statement has one name. -/
theorem name_of_mem_table : ∀ entry ∈ table, (entry.2 = filter ↔ entry.1 = "where") ∧
    (entry.2 = allowFullTableUpdate ↔ entry.1 = "allowFullTableUpdate") ∧
    (entry.2 = allowFullTableDelete ↔ entry.1 = "allowFullTableDelete") := by
  decide

end Method

namespace Change

open FluentQuery.Expr Resolve

/-- What a call does to a statement: `where` adds a condition to it, and one method lets it do without
any. -/
structure After (change : Change) (c : MethodCall) (s : Scope) (change' : Change) : Prop where
  kind : change'.filterKind = change.filterKind
  predicate : change'.predicate = (c.condition? s).toList.foldl conj change.predicate
  asked : (c.condition? s).isSome = true ↔ c.name = "where"
  isBoolean : ∀ condition ∈ c.condition? s, condition.isBoolean = true
  allowed : change'.allowsFullTable = true ↔ change.allowsFullTable = true ∨ c.name = change.allowance

variable {change : Change} {c : MethodCall} {s t : Scope} {op : Operation}

/-- A call of another method than `where` gives no condition. -/
theorem After.other {change' : Change} (h : c.name ≠ "where")
    (kind : change'.filterKind = change.filterKind)
    (predicate : change'.predicate = change.predicate)
    (allowed : change'.allowsFullTable = true ↔
      change.allowsFullTable = true ∨ c.name = change.allowance) :
    change.After c s change' where
  kind := kind
  predicate := by
    rw [c.condition?_eq_none h]
    exact predicate
  asked := by simp [c.condition?_eq_none h, h]
  isBoolean := by simp [c.condition?_eq_none h]
  allowed := allowed

theorem filter_step (change : Change) (argument : Node) :
    filter [change.step] [argument] = rowPredicate argument >>= fun condition =>
      pure [(change.withPredicate (conj change.predicate condition)).step] := by
  cases change <;> rfl

theorem after_filter (name : c.name = "where")
    (run : filter [change.step] c.arguments { s with method := c.name } = .ok op t) :
    ∃ change', op = [change'.step] ∧ change.After c s change' := by
  match one : c.arguments with
  | [] | _ :: _ :: _ =>
    rw [one] at run
    cases run
  | [argument] =>
    rw [one, filter_step] at run
    obtain ⟨condition, u, resolved, run⟩ := bind_eq_ok.1 run
    cases run
    have given : c.condition? s = some condition := by
      rw [MethodCall.condition?, one]
      dsimp only
      rw [if_pos name, resolved]
    have notAllowance : c.name ≠ change.allowance := by
      rw [name]
      cases change <;> simp [allowance]
    refine ⟨_, rfl, change.filterKind_withPredicate _, ?_, ?_, ?_, ?_⟩
    · rw [given, predicate_withPredicate]
      rfl
    · simp [given, name]
    · intro e he
      rw [given] at he
      cases he
      exact yields_rowPredicate argument _ _ _ resolved
    · simp [notAllowance]

theorem name_ne_allowance {method : Method} (mem : (c.name, method) ∈ Method.table)
    (update : method ≠ .allowFullTableUpdate) (delete : method ≠ .allowFullTableDelete) :
    c.name ≠ change.allowance := by
  obtain ⟨-, allowsUpdate, allowsDelete⟩ := Method.name_of_mem_table _ mem
  cases change with
  | update => exact fun name => update (allowsUpdate.2 name)
  | delete => exact fun name => delete (allowsDelete.2 name)

/-- A method that leaves the condition of a statement alone, and does not let it do without. -/
theorem After.unaffected {change' : Change} {method : Method} (mem : (c.name, method) ∈ Method.table)
    (filter : method ≠ .filter) (update : method ≠ .allowFullTableUpdate)
    (delete : method ≠ .allowFullTableDelete) (kind : change'.filterKind = change.filterKind)
    (predicate : change'.predicate = change.predicate)
    (allowed : change'.allowsFullTable = change.allowsFullTable) : change.After c s change' := by
  refine .other (fun name => filter ((Method.name_of_mem_table _ mem).1.2 name)) kind predicate ?_
  rw [allowed, or_iff_left (name_ne_allowance mem update delete)]

/-- Whatever is called on a statement, it stays a statement of its kind; the call is a `where`, or the
condition stays as it is. -/
theorem resolve_cases (run : c.resolve [change.step] s = .ok op t) :
    ∃ change', op = [change'.step] ∧ change.After c s change' := by
  by_cases name : c.name = "where"
  · obtain ⟨method, mem, run⟩ := c.apply_of_resolve run
    obtain rfl := (Method.name_of_mem_table _ mem).1.2 name
    exact after_filter name run
  · obtain ⟨method, step', called, rfl, next⟩ := Step.next_of_resolve change.isCrud_step run
    have mem : (c.name, method) ∈ Method.table := Assoc.mem_of_find? called
    obtain ⟨isFilter, allowsUpdate, allowsDelete⟩ := Method.name_of_mem_table _ mem
    cases change with
    | update statement =>
      obtain - | next | - := next
      cases next with
      | set => exact ⟨.update _, rfl, .unaffected mem nofun nofun nofun rfl rfl rfl⟩
      | filter => exact absurd (isFilter.1 rfl) name
      | allow =>
        exact ⟨.update _, rfl, .other name rfl rfl (iff_of_true rfl (.inr (allowsUpdate.1 rfl)))⟩
      | returning => exact ⟨.update _, rfl, .unaffected mem nofun nofun nofun rfl rfl rfl⟩
    | delete statement =>
      obtain - | - | next := next
      cases next with
      | filter => exact absurd (isFilter.1 rfl) name
      | allow =>
        exact ⟨.delete _, rfl, .other name rfl rfl (iff_of_true rfl (.inr (allowsDelete.1 rfl)))⟩

end Change

/-! ### Any number of calls -/

namespace Expr

/-- The conjunction of all the given predicates, from the left; absent if there are none. -/
def allOf : List Expr → Expr
  | [] => absent
  | e :: rest => rest.foldl (logical .and) e

theorem allOf_eq_absent {es : List Expr} (present : ∀ e ∈ es, e.isBoolean = true) :
    allOf es = absent ↔ es = [] := by
  cases es with
  | nil => exact iff_of_true rfl rfl
  | cons e rest =>
    refine iff_of_false (fun h => ?_) (List.cons_ne_nil _ _)
    rcases List.eq_nil_or_concat rest with rfl | ⟨before, last, rfl⟩
    · exact ne_absent_of_isBoolean (present e (List.mem_singleton_self _)) h
    · rw [allOf, List.concat_eq_append, List.foldl_append] at h
      cases h

/-- Adding predicates one by one to none gives their conjunction. -/
theorem foldl_conj {es : List Expr} (present : ∀ e ∈ es, e.isBoolean = true) :
    es.foldl conj absent = allOf es := by
  induction es using List.reverseRecOn with
  | nil => rfl
  | append_singleton es e ih =>
    rw [List.forall_mem_append, List.forall_mem_singleton] at present
    rw [List.foldl_append, ih present.1]
    cases es with
    | nil => exact conj_absent_left e
    | cons first rest =>
      have some : allOf (first :: rest) ≠ absent :=
        fun h => List.cons_ne_nil _ _ ((allOf_eq_absent present.1).1 h)
      rw [List.foldl_cons, List.foldl_nil, conj_eq_and some (ne_absent_of_isBoolean present.2),
        List.cons_append, allOf, allOf, List.foldl_append]
      rfl

end Expr

namespace Change

/-- A statement after a number of calls, with the conditions that they gave. -/
inductive Runs (first : Change) (start : Scope) : List MethodCall → List Expr → Change → Scope → Prop
  | nil : Runs first start [] [] first start
  | call {calls : List MethodCall} {conditions : List Expr} {change change' : Change} {s t : Scope}
      {c : MethodCall} (before : Runs first start calls conditions change s)
      (run : c.resolve [change.step] s = .ok [change'.step] t) :
      Runs first start (calls ++ [c]) (conditions ++ (c.condition? s).toList) change' t

/-- A statement holds the conditions that its `where` calls gave. -/
structure Gathered (calls : List MethodCall) (conditions : List Expr) (change : Change) : Prop where
  predicate : change.predicate = conditions.foldl Expr.conj .absent
  isBoolean : ∀ condition ∈ conditions, condition.isBoolean = true
  complete : conditions.length = calls.countP (·.name = "where")
  allowed : change.allowsFullTable = true ↔ ∃ c ∈ calls, c.name = change.allowance

/-- There is no condition exactly if no `where` was called. -/
theorem Gathered.eq_nil_iff {calls : List MethodCall} {conditions : List Expr} {change : Change}
    (gathered : Gathered calls conditions change) :
    conditions = [] ↔ ∀ c ∈ calls, c.name ≠ "where" := by
  rw [← List.length_eq_zero_iff, gathered.complete, List.countP_eq_zero]
  simp only [decide_eq_true_eq]

theorem Runs.gathered {first change : Change} {start scope : Scope} {calls : List MethodCall}
    {conditions : List Expr} (new : first.IsNew)
    (runs : first.Runs start calls conditions change scope) : Gathered calls conditions change := by
  induction runs with
  | nil => exact ⟨new.1, by simp, by simp, by simp [new.2]⟩
  | @call calls conditions change change' s t c before run ih =>
    obtain ⟨next, same, after⟩ := resolve_cases run
    obtain rfl := (ops_inj same).1
    refine ⟨?_, ?_, ?_, ?_⟩
    · rw [List.foldl_append, ← ih.predicate, after.predicate]
    · intro e he
      rcases List.mem_append.1 he with he | he
      · exact ih.isBoolean e he
      · exact after.isBoolean e (by simpa using he)
    · have given : (c.condition? s).toList.length = if c.name = "where" then 1 else 0 := by
        rw [← if_congr after.asked rfl rfl]
        cases c.condition? s <;> rfl
      rw [List.length_append, ih.complete, given, List.countP_append, List.countP_singleton]
      simp only [decide_eq_true_eq]
    · rw [after.allowed, ih.allowed, allowance_congr after.kind]
      simp

end Change

/-! ### Builders -/

namespace Change

/-- A statement that has just been started has no condition. -/
theorem isNew_of_started {change : Change} (started : change.step.IsStarted) : change.IsNew := by
  obtain ⟨-, method, schema, table, same⟩ := started
  cases method <;> cases change <;> cases same <;> exact ⟨rfl, rfl⟩

/-- The calls that lead to an UPDATE or DELETE were made on one, and gave it its conditions. -/
theorem runs_of_called {step : Step} {start t : Scope} {calls : List MethodCall} {change : Change}
    (isCrud : step.isCrud = true) (called : step.Called start calls change.step t) :
    ∃ (first : Change) (conditions : List Expr), step = first.step ∧
      first.Runs start calls conditions change t := by
  generalize last : change.step = reached at called
  induction called generalizing change with
  | nil => exact ⟨change, [], last.symm, .nil⟩
  | @call calls before after u t c called run ih =>
    subst last
    obtain ⟨method, _, -, same, next⟩ := Step.next_of_resolve (called.isCrud isCrud) run
    cases same
    have made : ∃ earlier : Change, before = earlier.step := by
      cases change with
      | update =>
        cases next with
        | update => exact ⟨.update _, rfl⟩
      | delete =>
        cases next with
        | delete => exact ⟨.delete _, rfl⟩
    obtain ⟨earlier, rfl⟩ := made
    obtain ⟨first, conditions, rfl, runs⟩ := ih rfl
    exact ⟨first, _, rfl, runs.call run⟩

end Change

/-! ### Handles -/

namespace Change

/-- A plan holds a statement after a number of calls. -/
def Leads (first : Change) (start : Scope) (calls : List MethodCall) (state : PlanState) : Prop :=
  ∃ conditions change, first.Runs start calls conditions change state.query.scope ∧
    state.operation = [change.step]

theorem Leads.append {first : Change} {start : Scope} {calls : List MethodCall} {c : MethodCall}
    {state state' : PlanState} (leads : first.Leads start calls state)
    (run : state.append c.name c.arguments = .ok state') :
    state'.schema = state.schema ∧ first.Leads start (calls ++ [c]) state' := by
  obtain ⟨conditions, change, runs, operation⟩ := leads
  obtain ⟨schema, step, resolved, same⟩ := state.statement_of_append change.isCrud_step operation run
  obtain ⟨change', after, -⟩ := resolve_cases resolved
  obtain rfl := (List.cons.inj after).1
  exact ⟨schema, _, change', runs.call resolved, same⟩

end Change

namespace Handle

/-- A handle reached by calls, of methods that the handle before it has or of any method on its
plan. -/
inductive Reaches (first : Handle) : List MethodCall → Handle → Prop
  | nil : Reaches first [] first
  | call {calls : List MethodCall} {h h' : Handle} {c : MethodCall} {count : Int}
      (before : Reaches first calls h)
      (run : h.call? c.name c.arguments count = some (.ok h')) : Reaches first (calls ++ [c]) h'
  | append {calls : List MethodCall} {h h' : Handle} {c : MethodCall} (before : Reaches first calls h)
      (run : h.append c.name c.arguments = .ok h') : Reaches first (calls ++ [c]) h'

/-- A handle whose methods, if it has any, are those of an UPDATE or DELETE. -/
def IsChange : Handle → Prop
  | update _ _ | delete _ _ | raw _ => True
  | _ => False

variable {first h h' : Handle} {c : MethodCall}

/-- A method of a handle is a call on its plan. -/
theorem append_of_call {count : Int} (isChange : h.IsChange)
    (run : h.call? c.name c.arguments count = some (.ok h')) :
    h.state.append c.name c.arguments = .ok h'.state ∧ h'.IsChange := by
  cases h with
  | update | delete =>
    obtain ⟨next, -, run⟩ := Option.map_eq_some_iff.1 run
    obtain ⟨state, appended, rfl⟩ := outcome_map_eq_ok.1 run
    exact ⟨appended, trivial⟩
  | raw => cases run
  | select | terminal | insert => exact isChange.elim

/-- The plan of a handle that is reached is what its calls make of the plan before them. -/
theorem Reaches.leads {calls before : List MethodCall} (reached : first.Reaches calls h)
    (isChange : first.IsChange) {start : Change} {scope : Scope}
    (leads : start.Leads scope before first.state) :
    h.IsChange ∧ h.state.schema = first.state.schema ∧
      start.Leads scope (before ++ calls) h.state := by
  induction reached with
  | nil =>
    rw [List.append_nil]
    exact ⟨isChange, rfl, leads⟩
  | call _ run ih =>
    obtain ⟨run, isChange'⟩ := append_of_call ih.1 run
    obtain ⟨schema, leads'⟩ := ih.2.2.append run
    rw [← List.append_assoc]
    exact ⟨isChange', schema.trans ih.2.1, leads'⟩
  | append _ run ih =>
    obtain ⟨state, appended, rfl⟩ := outcome_map_eq_ok.1 run
    obtain ⟨schema, leads'⟩ := ih.2.2.append appended
    rw [← List.append_assoc]
    exact ⟨trivial, schema.trans ih.2.1, leads'⟩

/-- Asks for an UPDATE or DELETE. -/
def Definition.isChange : Definition → Bool
  | .update _ | .delete _ => true
  | _ => false

end Handle

/-- A builder starts a statement at its root. -/
def Node.Starts (builder : Node) (first : Change) (start : Scope) : Prop :=
  first.IsNew ∧ ∃ scope, builder.rootScope = .ok scope ∧
    builder.root.chain .step [] scope = .ok [first.step] start

/-- A builder of an UPDATE or DELETE makes the calls that it chains on its root. -/
theorem Node.leads_of_parse {builder : Node} {query : ParsedQuery} (change : Change)
    {rest : Operation} (parsed : builder.parseQuery = .ok query) (schema : Schema)
    (operation : (PlanState.ofQuery query schema).operation = change.step :: rest) :
    ∃ first start, builder.Starts first start ∧
      first.Leads start builder.methodCalls (.ofQuery query schema) := by
  obtain ⟨operation, scope, step, start, hscope, started, root, called⟩ :=
    Node.called_of_parse parsed schema change.isCrud_step operation
  obtain ⟨first, conditions, rfl, runs⟩ := Change.runs_of_called started.1 called
  exact ⟨first, start, ⟨Change.isNew_of_started started, scope, hscope, root⟩, conditions, change,
    runs, operation⟩

/-- The handle of a builder that is asked to be an UPDATE or DELETE has the plan that the calls in the
builder make. -/
theorem Handle.leads_of_define {definition : Definition} {schema : Schema} {builder : Node}
    {query : ParsedQuery} {h : Handle} (isChange : definition.isChange = true)
    (parsed : builder.parseQuery = .ok query)
    (defined : ofQuery definition schema query = .ok h) :
    h.IsChange ∧ h.state.schema = schema ∧ ∃ first start, builder.Starts first start ∧
      first.Leads start builder.methodCalls h.state := by
  cases definition with
  | update stage =>
    simp only [ofQuery] at defined
    split at defined
    · rename_i statement rest operation
      split at defined
      · cases defined
        exact ⟨trivial, rfl, Node.leads_of_parse (.update statement) parsed schema operation⟩
      · cases defined
    · cases defined
  | delete stage =>
    simp only [ofQuery] at defined
    split at defined
    · rename_i statement rest operation
      split at defined
      · cases defined
        exact ⟨trivial, rfl, Node.leads_of_parse (.delete statement) parsed schema operation⟩
      · cases defined
    · cases defined
  | select | terminal | insert => cases isChange

end FluentQuery
