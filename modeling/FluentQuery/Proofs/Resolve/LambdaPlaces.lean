import FluentQuery.Proofs.Operation.Mentions
import FluentQuery.Proofs.Resolve.AutoParams
import FluentQuery.Proofs.Resolve.FreeNames

/-!
# The lambdas of a query

Where a lambda stands in a query decides what its parameters stand for (`LambdaPlace`): rows, which
hide query parameters of the same name, the parameters of the query, or neither.  `Node.lambdas` lists
the lambdas of a chain with their places, so that the query parameters it declares and those it reads
are known before it is resolved.  `Scope.Holds` is what a scope keeps between the calls of a chain, and
`Resolve.leads_lambda` is what a lambda yields in such a scope.
-/

namespace FluentQuery

set_option autoImplicit false

/-! ### Places -/

/-- Where a lambda stands in a query. -/
inductive LambdaPlace where
  /-- A row, then the parameters of the query. -/
  | row
  /-- A group of rows, then the parameters of the query. -/
  | group
  /-- A row; what comes after it is not bound to a row. -/
  | key
  /-- Two rows. -/
  | pair
  /-- The parameters of the query. -/
  | query
deriving DecidableEq, Repr

namespace LambdaPlace

/-- The parameters that are bound to rows, and no longer to query parameters of the same name. -/
def rows (place : LambdaPlace) (params : List String) : List String :=
  match place with
  | row | key => params.take 1
  | pair => params.take 2
  | group | query => []

/-- The parameters that are bound to the parameters of the query. -/
def queries (place : LambdaPlace) (params : List String) : List String :=
  match place with
  | row | group => (params.drop 1).take 1
  | query => params.take 1
  | key | pair => []

/-- The place of a lambda over a row, given whether rows are grouped. -/
def ofRow (grouped : Bool) : LambdaPlace :=
  if grouped then group else row

/-- The names that are bound to query parameters in a lambda's body, given those around it. -/
def bound (place : LambdaPlace) (outer : NameSet) (params : List String) : List String :=
  place.queries params ++ outer.filter fun name => !(place.rows params).contains name

end LambdaPlace

/-- An argument of a method that resolves it as a lambda, or as a value where it takes one. -/
structure PlacedLambda where
  place : LambdaPlace
  node : Node

namespace PlacedLambda

/-- The query parameters that a lambda declares. -/
def declared (l : PlacedLambda) : List String :=
  match l.node with
  | .arrow params _ => l.place.queries params
  | _ => []

/-- The query parameters that a lambda reads, given those around it. -/
def reads (outer : NameSet) (l : PlacedLambda) : List String :=
  match l.node with
  | .arrow params body => body.free.filter (l.place.bound outer params).contains
  | node => node.free.filter outer.contains

/-- The query parameters that a lambda reads are known. -/
def Within (names outer : NameSet) (l : PlacedLambda) : Prop :=
  ∀ name ∈ l.reads outer, name ∈ names

/-- What a lambda reads was declared around it or by itself. -/
theorem mem_of_reads {outer : NameSet} {l : PlacedLambda} {name : String}
    (h : name ∈ l.reads outer) : name ∈ outer ∨ name ∈ l.declared := by
  obtain ⟨place, node⟩ := l
  cases node with
  | arrow params body =>
    have bound := (List.mem_filter.1 h).2
    simp only [LambdaPlace.bound, List.contains_eq_mem, decide_eq_true_eq, List.mem_append,
      List.mem_filter] at bound
    rcases bound with declared | around
    · exact .inr declared
    · exact .inl around.1
  | _ =>
    have around := (List.mem_filter.1 h).2
    simp only [List.contains_eq_mem, decide_eq_true_eq] at around
    exact .inl around

end PlacedLambda

namespace Method

/-- The lambdas among the arguments of a method, given whether rows are grouped. -/
def lambdas (grouped : Bool) (method : Method) (arguments : List Node) : List PlacedLambda :=
  match method, arguments with
  | .filter, [lambda] | .select, [lambda] | .groupBy, [lambda] | .sort _ _, [lambda]
  | .terminal _, [lambda] | .aggregate _, [lambda] => [⟨.ofRow grouped, lambda⟩]
  | .page _, [value] | .contains, [value] => [⟨.key, value⟩]
  | .join _, [_, outer, inner] => [⟨.key, outer⟩, ⟨.key, inner⟩]
  | .join _, [_, outer, inner, selector] | .groupJoin, [_, outer, inner, selector] =>
    [⟨.key, outer⟩, ⟨.key, inner⟩, ⟨.pair, selector⟩]
  | .join _, [_, selector] | .selectMany, [_, selector] => [⟨.pair, selector⟩]
  | .values, [lambda] => [⟨.query, lambda⟩]
  | .set, [lambda] => [⟨.row, lambda⟩]
  | .doUpdateSet, [lambda] | .returning, [lambda] => [⟨.key, lambda⟩]
  | .onConflict, columns => columns.map (⟨.key, ·⟩)
  | _, _ => []

/-- Whether rows are grouped after a call. -/
def groups (grouped : Bool) : Method → Bool
  | .groupBy => true
  | .select => false
  | _ => grouped

/-- Whether the first argument of a method is a query of its own. -/
def takesQuery : Method → Bool
  | .join _ | .groupJoin | .selectMany => true
  | _ => false

end Method

theorem RootMethod.name_of_ofName? {name : String} {root : RootMethod}
    (h : RootMethod.ofName? name = some root) : root.name = name := by
  simpa using List.find?_some h

namespace Node

/-- The lambdas among the arguments of a call of the method with the given name. -/
def callLambdas (grouped : Bool) (name : String) (arguments : List Node) : List PlacedLambda :=
  match Method.ofName? name with
  | some method => method.lambdas grouped arguments
  | none => []

/-- Whether rows are grouped after a call of the method with the given name. -/
def callGroups (grouped : Bool) (name : String) : Bool :=
  match Method.ofName? name with
  | some method => method.groups grouped
  | none => grouped

/-- Whether a call of the given name takes a query as its first argument. -/
def callTakesQuery (name : String) : Bool :=
  name = RootMethod.from.name || (Method.ofName? name).any Method.takesQuery

/-- Whether rows are grouped after a chain, given whether they are in the plan it extends. -/
def groups (grouped : Bool) : Node → Bool
  | .arrow _ body => body.groups grouped
  | .block [.returnStatement (some value)] => value.groups grouped
  | .identifier name => grouped && name = planSeed
  | .call (.member receiver property _) _ => callGroups (receiver.groups grouped) property.keyName
  | _ => false

mutual

/-- The lambdas of a chain, those of its nested queries included. -/
def lambdas (grouped : Bool) : Node → List PlacedLambda
  | .arrow _ body => body.lambdas grouped
  | .block [.returnStatement (some value)] => value.lambdas grouped
  | .call (.identifier name) arguments =>
    if callTakesQuery name then firstLambdas arguments else []
  | .call (.member receiver property _) arguments =>
    receiver.lambdas grouped ++
      (callLambdas (receiver.groups grouped) property.keyName arguments ++
        if callTakesQuery property.keyName then firstLambdas arguments else [])
  | _ => []

/-- The lambdas of the first of several nodes, which is a query of its own. -/
def firstLambdas : List Node → List PlacedLambda
  | [] => []
  | first :: _ => first.lambdas false

end

/-- Rows are grouped after a lambda if they are after what it returns. -/
theorem groups_arrow {body value : Node} (returned : body.lambdaBody = .ok value) (names : List String)
    (grouped : Bool) : (arrow names body).groups grouped = value.groups grouped := by
  unfold lambdaBody at returned
  split at returned <;> cases returned <;> rfl

/-- The lambdas of a chain in a lambda are those of what it returns. -/
theorem lambdas_arrow {body value : Node} (returned : body.lambdaBody = .ok value) (names : List String)
    (grouped : Bool) : (arrow names body).lambdas grouped = value.lambdas grouped := by
  unfold lambdaBody at returned
  split at returned <;> cases returned <;> rfl

/-- The query parameters that a query-building function has as its own parameters. -/
def queryParams : Node → NameSet
  | .arrow [_, params] _ | .arrow [_, params, _] _ => [params]
  | _ => []

end Node

/-! ### Between two calls -/

namespace Operation

/-- Every node of an operation is known. -/
def Closed (v : Vocabulary) (s : Scope) (op : Operation) : Prop :=
  op.Every (Expr.Known v (Assoc.keys s.autoParams))

variable {v : Vocabulary} {s s' : Scope} {op : Operation}

theorem Closed.of_keys (h : Closed v s op)
    (kept : ∀ name ∈ Assoc.keys s.autoParams, name ∈ Assoc.keys s'.autoParams) : Closed v s' op :=
  h.mono fun _ known => known.of_keys kept

/-- A step is added that holds one closed expression, or none. -/
theorem Closed.push (h : Closed v s op) (step : Step) {e : Expr} (closed : e.Closed v s)
    (holds : ∀ other ∈ step.expressions, other = e) (nested : Closed v s step.nested) :
    Closed v s (step :: op) := by
  refine every_cons.2 ⟨fun other mem => ?_, nested, h⟩
  rw [holds other mem]
  exact closed

end Operation

namespace Scope

/-- Between two calls: automatic parameters are numbered, and the query parameters in scope, the group
key and the query are known. -/
structure Holds (names outer : NameSet) (grouped : Bool) (op : Operation) (s : Scope) : Prop where
  numbered : s.Enumerates
  params : s.bindings.params = outer
  groupKey : s.groupByKey.Closed (.ofNames names) s
  ungrouped : grouped = false → s.groupByKey = .absent
  closed : op.Closed (.ofNames names) s

/-- Work that only mints automatic parameters, as far as query parameters and groups go. -/
structure Steady (s s' : Scope) : Prop where
  numbered : s.Enumerates → s'.Enumerates
  retains : s.Enumerates → s.Retains s'
  params : s'.bindings.params = s.bindings.params
  groupByKey : s'.groupByKey = s.groupByKey

theorem Steady.refl (s : Scope) : s.Steady s :=
  ⟨id, fun _ => .refl s, rfl, rfl⟩

theorem Steady.trans {s s' s'' : Scope} (h : s.Steady s') (h' : s'.Steady s'') : s.Steady s'' := by
  constructor
  · exact fun numbered => h'.numbered (h.numbered numbered)
  · exact fun numbered => (h.retains numbered).trans (h'.retains (h.numbered numbered))
  · rw [h'.params, h.params]
  · rw [h'.groupByKey, h.groupByKey]

/-- Work that adds no parameter and keeps names and groups is steady. -/
theorem SameAutoParams.steady {s s' : Scope} (same : s.SameAutoParams s')
    (params : s'.bindings.params = s.bindings.params) (groupByKey : s'.groupByKey = s.groupByKey) :
    s.Steady s' :=
  ⟨fun numbered => numbered.congr same, fun _ => same.retains, params, groupByKey⟩

/-- Minting a parameter is steady. -/
theorem Mints.steady {s s' : Scope} (h : s.Mints s') : s.Steady s' := by
  constructor
  · exact fun numbered => (numbered.mints h).1
  · exact fun numbered => (numbered.mints h).2
  · rw [h.bindings]
  · exact h.groupByKey

namespace Holds

variable {names outer : NameSet} {grouped : Bool} {op : Operation} {s s' : Scope}

theorem keys (h : s.Holds names outer grouped op) (steady : s.Steady s') :
    ∀ name ∈ Assoc.keys s.autoParams, name ∈ Assoc.keys s'.autoParams :=
  fun _ mem => (steady.retains h.numbered).mem_keys mem

theorem steady (h : s.Holds names outer grouped op) (steady : s.Steady s') :
    s'.Holds names outer grouped op := by
  have keys := h.keys steady
  constructor
  · exact steady.numbered h.numbered
  · rw [steady.params, h.params]
  · rw [steady.groupByKey]
    exact h.groupKey.of_keys keys
  · rw [steady.groupByKey]
    exact h.ungrouped
  · exact h.closed.of_keys keys

/-- Rows are grouped by another key now, or no longer. -/
theorem regroup (h : s.Holds names outer grouped op) {grouped' : Bool} (same : s.SameAutoParams s')
    (params : s'.bindings.params = s.bindings.params)
    (groupKey : s'.groupByKey.Closed (.ofNames names) s)
    (ungrouped : grouped' = false → s'.groupByKey = .absent) :
    s'.Holds names outer grouped' op := by
  have keys : ∀ name ∈ Assoc.keys s.autoParams, name ∈ Assoc.keys s'.autoParams :=
    fun _ mem => same.retains.mem_keys mem
  constructor
  · exact h.numbered.congr same
  · rw [params, h.params]
  · exact groupKey.of_keys keys
  · exact ungrouped
  · exact h.closed.of_keys keys

/-- Where no rows are grouped, it does not matter whether they might be. -/
theorem weaken (h : s.Holds names outer false op) (grouped : Bool) :
    s.Holds names outer grouped op :=
  ⟨h.numbered, h.params, h.groupKey, fun _ => h.ungrouped rfl, h.closed⟩

/-- Another operation may take the place of the one at hand if it is closed too. -/
theorem with_op (h : s.Holds names outer grouped op) {op' : Operation}
    (closed : op'.Closed (.ofNames names) s) : s.Holds names outer grouped op' :=
  ⟨h.numbered, h.params, h.groupKey, h.ungrouped, closed⟩

end Holds

end Scope

/-! ### Lambdas -/

namespace Resolve

variable {α β : Type} {names outer : NameSet} {grouped : Bool} {op : Operation} {s : Scope}

/-- Work that binds the parameters of a lambda: some names to rows, some to the query's parameters. -/
def BindsTo (rows queries : List String) (s : Scope) (work : Resolve Unit) : Prop :=
  Leads s (fun _ s' => ∃ b : Bindings, s' = { s with bindings := b } ∧
    ∀ name ∈ b.params, name ∈ queries ∨ name ∈ s.bindings.params ∧ name ∉ rows) work

namespace BindsTo

variable {rows queries : List String}

theorem nothing : BindsTo [] queries s (pure ()) :=
  ⟨s.bindings, rfl, fun _ mem => .inr ⟨mem, List.not_mem_nil⟩⟩

/-- A row is bound. -/
theorem row {name : String} {change : Bindings → Bindings}
    (erases : ∀ other ∈ (change s.bindings).params, other ∈ s.bindings.params ∧ other ≠ name) :
    BindsTo [name] queries s (bind change) := by
  refine ⟨change s.bindings, rfl, fun other mem => .inr ?_⟩
  simpa using erases other mem

/-- After rows the query's parameters are bound. -/
theorem query {name : String} {first : Resolve Unit} (h : BindsTo rows [] s first) :
    BindsTo rows [name] s (first >>= fun _ => bind (·.bindParam name)) := by
  refine Leads.bind h ?_
  rintro _ _ ⟨b, rfl, known⟩
  refine ⟨b.bindParam name, rfl, fun other mem => ?_⟩
  rcases (NameSet.mem_insert _ _ _).1 mem with rfl | before
  · exact .inl (List.mem_singleton_self _)
  · rcases known other before with impossible | around
    · cases impossible
    · exact .inr around

/-- Two rows are bound. -/
theorem pair {name other : String} {first : Resolve Unit} {change : Bindings → Bindings}
    (h : BindsTo [name] [] s first)
    (erases : ∀ b : Bindings, ∀ n ∈ (change b).params, n ∈ b.params ∧ n ≠ other) :
    BindsTo [name, other] [] s (first >>= fun _ => bind change) := by
  refine Leads.bind h ?_
  rintro _ _ ⟨b, rfl, known⟩
  refine ⟨change b, rfl, fun n mem => .inr ?_⟩
  obtain ⟨before, ne⟩ := erases b n mem
  rcases known n before with impossible | ⟨around, ne'⟩
  · cases impossible
  · simp_all

end BindsTo

/-- A name that is bound to a row is no parameter of the query any more. -/
theorem erases_bindTable (name : String) (b : Bindings) :
    ∀ other ∈ (b.bindTable name).params, other ∈ b.params ∧ other ≠ name :=
  fun _ => (NameSet.mem_erase _ _ _).1

theorem erases_bindElement (name : String) (b : Bindings) :
    ∀ other ∈ (b.bindElement name).params, other ∈ b.params ∧ other ≠ name := by
  intro other mem
  unfold Bindings.bindElement at mem
  split at mem
  · exact (NameSet.mem_erase _ _ _).1 mem
  · exact (NameSet.mem_erase _ _ _).1 mem

theorem erases_bindJoin (name : String) (index : Int) (b : Bindings) :
    ∀ other ∈ (b.bindJoin name index).params, other ∈ b.params ∧ other ≠ name :=
  fun _ => (NameSet.mem_erase _ _ _).1

/-- A row hides a query parameter unless rows are grouped. -/
theorem bindsTo_bindRow (ungrouped : grouped = false → s.groupByKey = .absent) (name : String) :
    BindsTo (if grouped then [] else [name]) [] s (bindRow name) := by
  refine ⟨_, rfl, fun other mem => .inr ?_⟩
  cases grouped with
  | false =>
    rw [ungrouped rfl] at mem
    simpa using erases_bindElement name _ other mem
  | true =>
    refine ⟨?_, List.not_mem_nil⟩
    split at mem
    · exact (erases_bindElement name _ other mem).1
    · exact mem

/-- A lambda over rows names the row, or a group, and then the parameters of the query. -/
theorem bindsTo_bindRowParams (ungrouped : grouped = false → s.groupByKey = .absent)
    (params : List String) :
    BindsTo ((LambdaPlace.ofRow grouped).rows params) ((LambdaPlace.ofRow grouped).queries params) s
      (bindRowParams params) := by
  unfold bindRowParams
  split
  · have rows : (LambdaPlace.ofRow grouped).rows [] = [] := by cases grouped <;> rfl
    rw [rows]
    exact .nothing
  · have row := bindsTo_bindRow ungrouped
    cases grouped with
    | false => exact row _
    | true => exact row _
  · have row := bindsTo_bindRow ungrouped
    cases grouped with
    | false => exact (row _).query
    | true => exact (row _).query
  · exact trivial

/-- The parameter of a lambda over a table names its row. -/
theorem bindsTo_bindTableParam (params : List String) :
    BindsTo (LambdaPlace.key.rows params) [] s (bindTableParam params) := by
  unfold bindTableParam
  split
  · exact .nothing
  · exact .row (erases_bindTable _ _)

/-- The outer row of a join is bound by its name. -/
theorem bindsTo_bindOuter (name : String) : BindsTo [name] [] s (bindOuter name) := by
  refine .row fun other mem => ?_
  split at mem
  · exact (NameSet.mem_erase _ _ _).1 mem
  · exact (NameSet.mem_erase _ _ _).1 mem

theorem bindsTo_bindOuterParam (params : List String) :
    BindsTo (LambdaPlace.key.rows params) [] s (bindOuterParam params) := by
  unfold bindOuterParam
  split
  · exact .nothing
  · exact bindsTo_bindOuter _

/-- Both parameters of a result name rows. -/
theorem bindsTo_bindResultParams (index : Int) (params : List String) :
    BindsTo (LambdaPlace.pair.rows params) [] s (bindResultParams index params) := by
  unfold bindResultParams
  split
  · exact .nothing
  · exact bindsTo_bindOuter _
  · exact (bindsTo_bindOuter _).pair (erases_bindJoin _ _)
  · exact trivial

/-- The parameter of a count names the query's parameters. -/
theorem bindsTo_bindQueryParam (params : List String) :
    BindsTo [] (LambdaPlace.query.queries params) s (bindQueryParam params) := by
  unfold bindQueryParam
  split
  · exact .nothing
  · exact BindsTo.nothing.query

/-- The parameter of a conflict target names the row. -/
theorem bindsTo_bindConflictParams (params : List String) :
    BindsTo (LambdaPlace.key.rows params) [] s (bindConflictParams params) := by
  unfold bindConflictParams
  split
  · exact .nothing
  · exact .row (erases_bindTable _ _)
  · exact .row (erases_bindTable _ _)

/-- The lambda of an update names the row, and then the parameters of the query. -/
theorem bindsTo_bindUpdateParams (params : List String) :
    BindsTo (LambdaPlace.row.rows params) (LambdaPlace.row.queries params) s
      (bindUpdateParams params) := by
  unfold bindUpdateParams
  split
  · exact .nothing
  · exact .row (erases_bindTable _ _)
  · rename_i row query _
    have bound : BindsTo [row] [] s (bind (·.bindTable row)) := .row (erases_bindTable _ _)
    exact bound.query

/-- A body in which the parameters of a lambda are bound. -/
theorem leads_bound {params : List String} {place : LambdaPlace} {bindings : Resolve Unit}
    (params_eq : s.bindings.params = outer) (groupKey : s.groupByKey.Closed (.ofNames names) s)
    (binds : BindsTo (place.rows params) (place.queries params) s bindings)
    {read : List String} {post : Vocabulary → α → Scope → Prop} {work : Resolve α}
    (reads : Reads read post work)
    (within : ∀ name ∈ read, name ∈ place.bound outer params → name ∈ names)
    (same : ∀ a (t : Scope) (b : Bindings), post (.ofNames names) a { t with bindings := b } →
      post (.ofNames names) a t) :
    Leads s (fun a s' => s.Mints s' ∧ post (.ofNames names) a s')
      (withBindings (bindings >>= fun _ => work)) := by
  refine ensures_withBindings (Ensures.bind (Ensures.mono binds (fun _ _ => id) fun _ => id) ?_)
  rintro _ _ ⟨b, rfl, known⟩
  have readable : ∀ name ∈ read, name ∈ b.params → name ∈ names := by
    intro name mem bound
    refine within name mem (List.mem_append.2 ?_)
    rcases known name bound with query | ⟨around, visible⟩
    · exact .inl query
    · exact .inr (List.mem_filter.2 ⟨params_eq ▸ around, by simpa using visible⟩)
  have body := reads.leads (s := { s with bindings := b }) readable groupKey
    fun a t => same a t _
  refine body.mono ?_ fun _ => id
  rintro a s' ⟨minted, known⟩
  exact ⟨minted.rebind s.bindings, same a _ s'.bindings known⟩

/-! ### What a lambda yields -/

/-- A closed expression, with automatic parameters minted at most. -/
def yields (names : NameSet) (s : Scope) (e : Expr) (s' : Scope) : Prop :=
  s.Steady s' ∧ e.Closed (.ofNames names) s'

/-- A value reads what is free in it. -/
theorem reads_resolve {read : List String} {node : Node} (free : node.free ⊆ read)
    (isPredicate : Bool) : Reads read closed (node.resolve isPredicate) :=
  ⟨fun _ => Node.ignores_resolve node isPredicate free, fun _ => node.tidy_resolve isPredicate⟩

theorem reads_failUnplaced {read : List String} {post : Vocabulary → α → Scope → Prop}
    (fault : Fault) : Reads read post (failUnplaced fault : Resolve α) :=
  ⟨fun _ => .failUnplaced fault, fun _ _ _ => .failUnplaced⟩

section

variable (holds : s.Holds names outer grouped op)

include holds

/-- Work without lambdas of its own yields what is closed under any names. -/
theorem leads_tidy {work : Resolve Expr} (ignores : ∀ names, Ignores names [] work)
    (tidy : ∀ v, Tidy v (closed v) work) : Leads s (yields names s) work := by
  have reads : Reads [] closed work := ⟨ignores, tidy⟩
  refine (reads.leads (fun _ mem => by cases mem) holds.groupKey fun _ _ => id).mono ?_ fun _ => id
  rintro e s' ⟨minted, known⟩
  exact ⟨minted.steady, known⟩

/-- An argument that is no lambda may use the names around it. -/
theorem leads_resolve {node : Node}
    (within : ∀ name ∈ node.free, name ∈ outer → name ∈ names) :
    Leads s (yields names s) (node.resolve false) := by
  have reads : ∀ name ∈ node.free, name ∈ s.bindings.params → name ∈ names := by
    rw [holds.params]
    exact within
  have resolved := (reads_resolve (fun _ => id) false).leads reads holds.groupKey fun _ _ => id
  refine resolved.mono ?_ fun _ => id
  rintro e s' ⟨minted, known⟩
  exact ⟨minted.steady, known⟩

/-- A lambda yields what it reads of the query parameters, and no others. -/
theorem leads_lambda {l : PlacedLambda} (within : l.Within names outer) (isPredicate : Bool)
    (method : String) {bindParams : List String → Resolve Unit}
    (binds : ∀ params, BindsTo (l.place.rows params) (l.place.queries params) s (bindParams params)) :
    Leads s (yields names s) (l.node.resolveLambda isPredicate method bindParams) := by
  obtain ⟨place, node⟩ := l
  have bound {params : List String} {read : List String} {work : Resolve Expr}
      (reads : Reads read closed work)
      (within : ∀ name ∈ read, name ∈ place.bound outer params → name ∈ names) :
      Leads s (yields names s) (withParams bindParams params work) := by
    have led := leads_bound holds.params holds.groupKey (binds params) reads within
      fun _ _ _ => id
    refine led.mono ?_ fun _ => id
    rintro e s' ⟨minted, known⟩
    exact ⟨minted.steady, known⟩
  cases node with
  | arrow params body =>
    have inside (name : String) (mem : name ∈ body.free)
        (isBound : name ∈ place.bound outer params) : name ∈ names := by
      refine within name (List.mem_filter.2 ⟨mem, ?_⟩)
      simpa using isBound
    rw [Node.resolveLambda_arrow]
    split
    · rename_i value returned
      rw [← Node.free_lambdaBody returned] at inside
      exact bound (reads_resolve (fun _ => id) isPredicate) inside
    · exact bound (reads_failUnplaced _) inside
  | _ => exact .fail

/-- A value over rows is closed under the names that its lambda may use. -/
theorem leads_closedRow {node : Node}
    (within : PlacedLambda.Within names outer ⟨.ofRow grouped, node⟩) :
    Leads s (yields names s) (rowValue node) :=
  .get (leads_lambda holds within false _ (bindsTo_bindRowParams holds.ungrouped))

/-- A predicate over rows is closed under the names that its lambda may use. -/
theorem leads_closedPredicate {node : Node}
    (within : PlacedLambda.Within names outer ⟨.ofRow grouped, node⟩) :
    Leads s (yields names s) (rowPredicate node) := by
  refine .get (.bind (leads_lambda holds within true _ (bindsTo_bindRowParams holds.ungrouped)) ?_)
  rintro e s' ⟨steady, known⟩
  unfold predicate
  cases boolean : e.toBoolean with
  | error => exact .fail
  | ok e' => exact .pure ⟨steady, known.toBoolean boolean⟩

/-- The keys of a join mint at most. -/
theorem leads_steadyKeys {outerKey innerKey : Node}
    (outerWithin : PlacedLambda.Within names outer ⟨.key, outerKey⟩)
    (innerWithin : PlacedLambda.Within names outer ⟨.key, innerKey⟩) :
    Leads s (fun _ s' => s.Steady s') (joinKeys outerKey innerKey) := by
  refine .get (.bind (leads_lambda holds outerWithin false _ bindsTo_bindOuterParam) ?_)
  rintro e s₁ ⟨steady₁, -⟩
  refine .bind (leads_pickKey "outer" e) ?_
  rintro ⟨outerColumn, table⟩ _ rfl
  refine .bind (leads_lambda (holds.steady steady₁) innerWithin false _ bindsTo_bindTableParam) ?_
  rintro e' s₂ ⟨steady₂, -⟩
  refine .bind (leads_pickKey "inner" e') ?_
  rintro ⟨innerColumn, _⟩ _ rfl
  exact .pure (steady₁.trans steady₂)

/-- A result is closed under the names that its lambda may use. -/
theorem leads_closedPair (index : Int) {node : Node}
    (within : PlacedLambda.Within names outer ⟨.pair, node⟩) :
    Leads s (yields names s) (resultSelector index node) :=
  .get (leads_lambda holds within false _ (bindsTo_bindResultParams index))

end

/-! ### Assignments -/

section

variable {read : List String}

theorem reads_assignedValue (column : String) {node : Node} (free : node.free ⊆ read) :
    Reads read closed (assignedValue column node) := by
  unfold assignedValue
  split
  · exact ⟨fun _ => .pure _, fun _ _ within => .pure within ((Expr.every_constant _).2 trivial)⟩
  · exact ⟨fun _ => .autoParam _ _ _, fun _ => tidy_autoParam _ _ _⟩
  · exact reads_resolve free false

/-- Values of assignments read what stands in them, one after the other. -/
theorem reads_assignmentsFrom (done : Assignments) {properties : List Property}
    (free : Property.freeList properties ⊆ read) :
    (∀ names, Ignores names read (assignmentsFrom done properties)) ∧
      ∀ v s, membersClosed v done s → s.Within v →
        TidyAt v s (membersClosed v) (assignmentsFrom done properties) := by
  induction properties generalizing done with
  | nil => exact ⟨fun _ => .pure _, fun _ _ known within => .pure within known⟩
  | cons property rest ih =>
    cases property with
    | spread => exact ⟨fun _ => .get (fun _ => rfl) fun _ => .fail _, fun _ _ _ _ => .get .fail⟩
    | named column value =>
      obtain ⟨here, later⟩ := List.append_subset.1 free
      have assigned := reads_assignedValue column here
      have following (e : Expr) := ih (done ++ [(column, e)]) later
      constructor
      · intro names
        have go := (assigned.ignores names).bind fun e => (following e).1 names
        unfold assignmentsFrom
        dsimp only
        split
        · exact .get (fun _ => rfl) fun _ => .bind (.fail _) fun _ => go
        · exact go
      · intro v s known within
        unfold assignmentsFrom
        dsimp only
        split
        · exact Scope.Mints.refl s
        · refine .bind (assigned.tidy v s within) fun e s₁ minted within₁ he => ?_
          refine (following e).2 v s₁ ?_ within₁
          intro m mem
          rcases List.mem_append.1 mem with before | new
          · exact (known m before).mono minted
          · rw [List.mem_singleton.1 new]
            exact he

theorem reads_assignments {node : Node} (free : node.free ⊆ read) :
    Reads read membersClosed (assignments node) := by
  unfold assignments
  split
  · have from_empty := reads_assignmentsFrom [] free
    refine ⟨from_empty.1, fun v s within => from_empty.2 v s ?_ within⟩
    rintro m ⟨⟩
  · exact ⟨fun _ => .get (fun _ => rfl) fun _ => .fail _, fun _ _ _ => .get .fail⟩

end

/-- Assigned values are closed, with automatic parameters minted at most. -/
def yieldsAll (names : NameSet) (s : Scope) (assigned : Assignments) (s' : Scope) : Prop :=
  s.Steady s' ∧ membersClosed (.ofNames names) assigned s'

/-- Assignments are closed under the names that their lambda may use. -/
theorem leads_assignmentArgument (holds : s.Holds names outer grouped op) {l : PlacedLambda}
    (within : l.Within names outer) {bindParams : List String → Resolve Unit}
    (binds : ∀ params, BindsTo (l.place.rows params) (l.place.queries params) s (bindParams params)) :
    Leads s (yieldsAll names s) (assignmentArgument bindParams l.node) := by
  obtain ⟨place, node⟩ := l
  have steady {work : Resolve Assignments}
      (led : Leads s (fun a s' => s.Mints s' ∧ membersClosed (.ofNames names) a s') work) :
      Leads s (yieldsAll names s) work := by
    refine led.mono ?_ fun _ => id
    rintro a s' ⟨minted, known⟩
    exact ⟨minted.steady, known⟩
  have plain {value : Node} (free : ∀ name ∈ value.free, name ∈ outer → name ∈ names) :
      Leads s (yieldsAll names s) (assignments value) := by
    have reads : ∀ name ∈ value.free, name ∈ s.bindings.params → name ∈ names := by
      rw [holds.params]
      exact free
    exact steady ((reads_assignments fun _ => id).leads reads holds.groupKey fun _ _ => id)
  have visible {value : Node} (all : ∀ name ∈ value.free.filter outer.contains, name ∈ names)
      (name : String) (mem : name ∈ value.free) (around : name ∈ outer) : name ∈ names :=
    all name (List.mem_filter.2 ⟨mem, by simpa using around⟩)
  cases node with
  | arrow params body =>
    have inside (name : String) (mem : name ∈ body.free)
        (isBound : name ∈ place.bound outer params) : name ∈ names := by
      refine within name (List.mem_filter.2 ⟨mem, ?_⟩)
      simpa using isBound
    have bound {work : Resolve Assignments} (reads : Reads body.free membersClosed work) :
        Leads s (yieldsAll names s) (withBindings (bindParams params >>= fun _ => work)) :=
      steady (leads_bound holds.params holds.groupKey (binds params) reads inside fun _ _ _ => id)
    unfold assignmentArgument
    refine bound ?_
    unfold Node.lambdaBody
    split
    · rename_i value heq
      split at heq
      · cases heq
        refine reads_assignments ?_
        simp [Node.free, Node.freeList]
      · cases heq
      · cases heq
      · cases heq
        exact reads_assignments fun _ => id
    · exact reads_failUnplaced _
  | _ => exact plain (visible within)

end Resolve

end FluentQuery
