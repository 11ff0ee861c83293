import FluentQuery.Policy.RowFilter
import FluentQuery.Proofs.Expr.Replace
import FluentQuery.Proofs.Resolve.ClosedBodies

/-!
# Parsed row filters are closed

Main statement: `RowFilter.closed_of_parse`.  A parsed filter brings the parameters of its predicate
with it: each of them is an automatic parameter of the filter or carries a context key that the
filter uses, and every context key it uses occurs.
-/

namespace FluentQuery

set_option autoImplicit false

/-- A parameter occurs in an expression, as a value or as a predicate. -/
def Expr.Mentions (e : Expr) (name : String) : Prop :=
  param name "" none ∈ e.walk ∨ booleanParam name "" ∈ e.walk

namespace RowFilter

open FluentQuery.Expr

/-- The names of the parameters that a filter brings with it. -/
def boundNames (filter : RowFilter) : List String :=
  Assoc.keys filter.autoParams ++ filter.contextKeys.map contextParam

/-- The parameters of a filter are its own. -/
structure Closed (filter : RowFilter) : Prop where
  ordered : Assoc.Sorted filter.autoParams
  numbered : ∀ name ∈ Assoc.keys filter.autoParams, ∃ number, name = Scope.autoParamName number
  params : filter.predicate.Every (Accounted [] filter.boundNames)
  used : ∀ key ∈ filter.contextKeys, filter.predicate.Mentions (contextParam key)

theorem contextParam_inj {key key' : String} (h : contextParam key = contextParam key') :
    key = key' := by
  have chars := congrArg String.toList h
  simp only [contextParam, String.toList_append] at chars
  exact String.toList_inj.1 (List.append_cancel_left chars)

/-- Names of automatic parameters and of context keys differ in their third letter. -/
theorem contextParam_ne_autoParamName (key : String) (number : Int) :
    contextParam key ≠ Scope.autoParamName number := by
  intro h
  have third := congrArg (fun name : String => name.toList[2]?) h
  simp [contextParam, contextNamespace, Scope.autoParamName] at third

/-- The context keys of a filter are those whose parameters occur in it. -/
theorem Closed.mem_contextKeys {filter : RowFilter} (closed : filter.Closed) (key : String) :
    key ∈ filter.contextKeys ↔ filter.predicate.Mentions (contextParam key) := by
  refine ⟨closed.used key, fun occurs => ?_⟩
  have bound : contextParam key ∈ filter.boundNames := by
    rcases occurs with h | h
    · rcases closed.params _ h with hd | ⟨-, -, hb⟩
      · exact absurd hd List.not_mem_nil
      · exact hb
    · rcases closed.params _ h with hd | ⟨-, hb⟩
      · exact absurd hd List.not_mem_nil
      · exact hb
  rcases List.mem_append.1 bound with auto | context
  · obtain ⟨number, hname⟩ := closed.numbered _ auto
    exact absurd hname (contextParam_ne_autoParamName key number)
  · obtain ⟨key', hkey', heq⟩ := List.mem_map.1 context
    exact contextParam_inj heq ▸ hkey'

/-! ### Accesses to the context -/

/-- What an access to the context becomes. -/
def contextAccess (context : String) : Expr → Option Expr
  | .param p property _ => if p = context then some (.param (contextParam property) "" none) else none
  | .booleanParam p property =>
    if p = context then some (.booleanParam (contextParam property) "") else none
  | _ => none

/-- The context keys that a node accesses. -/
def contextUses (context : String) : Expr → List String
  | .param p property _ => if p = context then [property] else []
  | .booleanParam p property => if p = context then [property] else []
  | _ => []

theorem onLeaves_contextAccess (context : String) : OnLeaves (contextAccess context) := by
  intro node h
  cases node with
  | param => exact absurd rfl h
  | booleanParam => exact absurd rfl h
  | _ => rfl

theorem contextUses_node (context : String) (node : Expr) (h : node.children ≠ []) :
    contextUses context node = [] := by
  cases node with
  | param => exact absurd rfl h
  | booleanParam => exact absurd rfl h
  | _ => rfl

theorem gives_useContextKey (property : String) (isIndexed : Bool) :
    (Logged.ofNames PolicyFault).Gives (useContextKey property isIndexed)
      fun name log => name = contextParam property ∧ log = [property] := by
  intro s a s' run
  unfold useContextKey at run
  split at run
  · cases run
  · cases run
    exact ⟨[property], ⟨rfl, rfl⟩, rfl⟩

theorem gives_bindContextNode (context : String) (node : Expr) :
    (Logged.ofNames PolicyFault).Gives (bindContextNode context node)
      fun r log => r = contextAccess context node ∧ log = contextUses context node := by
  have stays : (Logged.ofNames PolicyFault).Gives (pure (none : Option Expr))
      fun r log => r = none ∧ log = [] := (Logged.ofNames _).pure ⟨rfl, rfl⟩
  cases node with
  | param p property index =>
    simp only [bindContextNode, contextAccess, contextUses]
    split
    · refine (Logged.ofNames _).bind (gives_useContextKey property index.isSome) ?_
      rintro _ _ ⟨rfl, rfl⟩
      exact (Logged.ofNames _).pure ⟨rfl, rfl⟩
    · exact stays
  | booleanParam p property =>
    simp only [bindContextNode, contextAccess, contextUses]
    split
    · refine (Logged.ofNames _).bind (gives_useContextKey property false) ?_
      rintro _ _ ⟨rfl, rfl⟩
      exact (Logged.ofNames _).pure ⟨rfl, rfl⟩
    · exact stays
  | _ => exact stays

/-- Binding the context replaces every access to it and collects the keys. -/
theorem bindContext_eq_ok {context : String} {e e' : Expr} {keys : NameSet}
    (named : context.isEmpty = false) (h : bindContext context e = .ok (e', keys)) :
    e' = replace (contextAccess context) e ∧
      ∀ key, key ∈ keys ↔ ∃ node ∈ e.leaves, key ∈ contextUses context node := by
  unfold bindContext at h
  rw [named, if_neg Bool.false_ne_true] at h
  split at h
  · rename_i bound found run
    cases h
    obtain ⟨log, ⟨rfl, rfl⟩, rfl⟩ := (Logged.ofNames PolicyFault).replaceM
      (gives_bindContextNode context) (contextUses_node context) e [] _ _ run
    refine ⟨rfl, ?_⟩
    intro key
    simp
  · cases h

/-! ### Binding the parameters of a filter -/

/-- The parameters a filter may refer to before its context is bound. -/
def declaredNames (context : String) : NameSet :=
  if context.isEmpty then [] else [context]

theorem mem_declaredNames {context name : String} :
    name ∈ declaredNames context ↔ name = context ∧ context.isEmpty = false := by
  unfold declaredNames
  cases h : context.isEmpty <;> simp

/-- A filter binds no parameter but its context. -/
theorem rebinds_bindParams (params : List String) (body : Node) :
    Resolve.Rebinds (.ofNames (declaredNames (paramNames (.arrow params body)).1))
      (bindParams params) := by
  intro s within
  match params with
  | [] => exact ⟨s.bindings, rfl, within.bindings⟩
  | [row] => exact ⟨s.bindings.bindTable row, rfl, within.bindings.bindTable row⟩
  | row :: context :: rest =>
    have declared : (paramNames (.arrow (row :: context :: rest) body)).1 = context := by
      cases rest <;> rfl
    rw [declared] at within ⊢
    simp only [bindParams]
    split
    · exact ⟨s.bindings, rfl⟩
    · have known := within.bindings.bindTable row
      cases named : context.isEmpty with
      | true => exact ⟨s.bindings.bindTable row, rfl, known⟩
      | false =>
        exact ⟨(s.bindings.bindTable row).bindParam context, rfl,
          known.bindParam context (mem_declaredNames.2 ⟨rfl, named⟩)⟩

/-! ### Parsing -/

/-- The scope in which a filter is resolved. -/
def initialScope (declared : Node) (table : String) (kind : FilterKind) (counter : Int) : Scope :=
  { autoParamCounter := counter, table, operation := kind.name, method := "rowFilter"
    tableCount := 1, helpers := (paramNames declared).2 }

/-- A filter that is parsed was resolved, and then its context was bound. -/
theorem parse_eq_ok {declared : Node} {table : String} {kind : FilterKind} {counter : Int}
    {filter : RowFilter} (h : parse declared table kind counter = .ok filter) :
    ∃ predicate scope,
      (declared.resolveLambda true "rowFilter" bindParams >>= Resolve.predicate)
        (initialScope declared table kind counter) = .ok predicate scope ∧
      bindContext (paramNames declared).1 predicate = .ok (filter.predicate, filter.contextKeys) ∧
      filter.autoParams = scope.autoParams := by
  unfold parse at h
  dsimp only at h
  split at h
  · cases h
  · rename_i predicate scope run
    split at h
    · cases h
    · rename_i bound keys bind
      cases h
      exact ⟨predicate, scope, run, bind, rfl⟩

theorem tidy_filter (declared : Node) :
    Resolve.Tidy (.ofNames (declaredNames (paramNames declared).1))
      (Resolve.closed (.ofNames (declaredNames (paramNames declared).1)))
      (declared.resolveLambda true "rowFilter" bindParams >>= Resolve.predicate) := by
  intro s within
  refine .bind (declared.tidy_resolveLambda true "rowFilter" bindParams ?_ s within) ?_
  · rintro params body rfl
    exact rebinds_bindParams params body
  · intro e s' _ within' he
    exact .predicate within' he

theorem accounted_node {declared : NameSet} {auto : List String} (node : Expr)
    (h : node.children ≠ []) : Accounted declared auto node := by
  cases node with
  | param => exact absurd rfl h
  | booleanParam => exact absurd rfl h
  | _ => trivial

/-- A leaf of a resolved filter, its context bound, is accounted for by what the filter brings. -/
theorem accounted_contextAccess {context : String} {auto : List String} {keys : NameSet}
    {node : Expr} (h : Accounted (declaredNames context) auto node)
    (used : ∀ key ∈ contextUses context node, key ∈ keys) :
    Accounted [] (auto ++ keys.map contextParam) ((contextAccess context node).getD node) := by
  cases node with
  | param p property index =>
    by_cases hp : p = context
    · have key : property ∈ keys := used property (by simp [contextUses, hp])
      rw [contextAccess, if_pos hp]
      exact .inr ⟨rfl, rfl, List.mem_append_right _ (List.mem_map_of_mem key)⟩
    · rw [contextAccess, if_neg hp]
      rcases h with hd | ⟨hprop, hidx, ha⟩
      · exact absurd (mem_declaredNames.1 hd).1 hp
      · exact .inr ⟨hprop, hidx, List.mem_append_left _ ha⟩
  | booleanParam p property =>
    by_cases hp : p = context
    · have key : property ∈ keys := used property (by simp [contextUses, hp])
      rw [contextAccess, if_pos hp]
      exact .inr ⟨rfl, List.mem_append_right _ (List.mem_map_of_mem key)⟩
    · rw [contextAccess, if_neg hp]
      rcases h with hd | ⟨hprop, ha⟩
      · exact absurd (mem_declaredNames.1 hd).1 hp
      · exact .inr ⟨hprop, List.mem_append_left _ ha⟩
  | _ => trivial

theorem children_contextAccess {context : String} {node : Expr} (leaf : node.children = []) :
    ((contextAccess context node).getD node).children = [] := by
  cases node with
  | param p property index =>
    rw [contextAccess]
    split <;> rfl
  | booleanParam p property =>
    rw [contextAccess]
    split <;> rfl
  | _ => exact leaf

/-- Every use of a key leaves the parameter that carries it. -/
theorem contextAccess_of_use {context key : String} {node : Expr}
    (h : key ∈ contextUses context node) :
    contextAccess context node = some (param (contextParam key) "" none) ∨
      contextAccess context node = some (booleanParam (contextParam key) "") := by
  cases node with
  | param p property index =>
    by_cases hp : p = context
    · simp_all [contextUses, contextAccess]
    · simp [contextUses, hp] at h
  | booleanParam p property =>
    by_cases hp : p = context
    · simp_all [contextUses, contextAccess]
    · simp [contextUses, hp] at h
  | _ => cases h

/-- A resolved filter whose context has been bound is closed. -/
theorem closed_bindContext {context : String} {e e' : Expr} {auto : List String} {keys : NameSet}
    (h : e.Every (Accounted (declaredNames context) auto))
    (bind : bindContext context e = .ok (e', keys)) :
    e'.Every (Accounted [] (auto ++ keys.map contextParam)) ∧
      ∀ key ∈ keys, e'.Mentions (contextParam key) := by
  cases named : context.isEmpty with
  | true =>
    rw [bindContext, named, if_pos rfl] at bind
    cases bind
    refine ⟨h.mono fun node hn => ?_, by simp⟩
    rw [List.map_nil, List.append_nil]
    rwa [declaredNames, named, if_pos rfl] at hn
  | false =>
    obtain ⟨rfl, hkeys⟩ := bindContext_eq_ok named bind
    have leaves := leaves_replace (onLeaves_contextAccess context) e
    constructor
    · refine every_of_leaves accounted_node ?_
      intro n hn
      rw [leaves] at hn
      obtain ⟨node, hnode, hn⟩ := List.mem_flatMap.1 hn
      obtain ⟨hwalk, leaf⟩ := mem_leaves.1 hnode
      rw [eq_of_mem_leaves (children_contextAccess leaf) hn]
      exact accounted_contextAccess (h node hwalk) fun key hk => (hkeys key).2 ⟨node, hnode, hk⟩
    · intro key hkey
      obtain ⟨node, hnode, hk⟩ := (hkeys key).1 hkey
      have below : ∀ n : Expr, contextAccess context node = some n → n.children = [] →
          n ≠ absent → n ∈ (replace (contextAccess context) e).walk := by
        intro n hn hleaf habs
        refine (mem_leaves.1 ?_).1
        rw [leaves]
        refine List.mem_flatMap.2 ⟨node, hnode, ?_⟩
        rw [hn, Option.getD_some, leaves_leaf habs hleaf]
        exact List.mem_singleton_self _
      rcases contextAccess_of_use hk with ha | ha
      · exact .inl (below _ ha rfl (by simp))
      · exact .inr (below _ ha rfl (by simp))

theorem within_initialScope (declared : Node) (table : String) (kind : FilterKind) (counter : Int)
    (v : Vocabulary) : (initialScope declared table kind counter).Within v :=
  ⟨⟨fun _ h => (List.not_mem_nil h).elim, by rintro _ _ ⟨⟩, by rintro _ ⟨⟩⟩, every_absent⟩

/-- A parsed filter is closed. -/
theorem closed_of_parse {declared : Node} {table : String} {kind : FilterKind} {counter : Int}
    {filter : RowFilter} (h : parse declared table kind counter = .ok filter) :
    filter.Closed := by
  obtain ⟨predicate, scope, run, bind, auto⟩ := parse_eq_ok h
  have within := within_initialScope declared table kind counter
    (.ofNames (declaredNames (paramNames declared).1))
  obtain ⟨minted, -, hclosed⟩ := (tidy_filter declared _ within).of_ok run
  obtain ⟨params, used⟩ := closed_bindContext (Every.mono hclosed fun _ => Known.accounted) bind
  refine ⟨?_, ?_, ?_, used⟩
  · rw [auto]
    exact minted.sorted List.Pairwise.nil
  · intro name hn
    rw [auto] at hn
    exact (minted.numbered hn).resolve_left List.not_mem_nil
  · rw [boundNames, auto]
    exact params

/-! ### Filters are predicates -/

theorem isBoolean_toBoolean {e e' : Expr} (h : e.toBoolean = .ok e') : e'.isBoolean = true := by
  unfold toBoolean at h
  split at h
  · cases h
    assumption
  · split at h <;> cases h <;> rfl

theorem isBoolean_bindContext {context : String} {e e' : Expr} {keys : NameSet}
    (bind : bindContext context e = .ok (e', keys)) (h : e.isBoolean = true) :
    e'.isBoolean = true := by
  cases named : context.isEmpty with
  | true =>
    rw [bindContext, named, if_pos rfl] at bind
    cases bind
    exact h
  | false =>
    obtain ⟨rfl, -⟩ := bindContext_eq_ok named bind
    refine isBoolean_replace (onLeaves_contextAccess context) (fun n x hn hx => ?_) h
    cases n with
    | booleanParam p property =>
      rw [contextAccess] at hx
      split at hx <;> cases hx
      rfl
    | param => cases hn
    | _ => cases hx

theorem isBoolean_of_parse {declared : Node} {table : String} {kind : FilterKind} {counter : Int}
    {filter : RowFilter} (h : parse declared table kind counter = .ok filter) :
    filter.predicate.isBoolean = true := by
  obtain ⟨predicate, scope, run, bind, -⟩ := parse_eq_ok h
  obtain ⟨e, s, -, hpredicate⟩ := bind_eq_ok.1 run
  refine isBoolean_bindContext bind ?_
  cases hbool : e.toBoolean with
  | ok e' =>
    rw [Resolve.predicate, hbool] at hpredicate
    cases hpredicate
    exact isBoolean_toBoolean hbool
  | error fault =>
    rw [Resolve.predicate, hbool] at hpredicate
    cases hpredicate

end RowFilter

end FluentQuery
