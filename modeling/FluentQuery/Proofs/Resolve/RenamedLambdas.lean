import FluentQuery.Proofs.Resolve.LambdaPlaces
import FluentQuery.Proofs.Resolve.Numbering
import FluentQuery.Proofs.Resolve.RenamedBodies
import FluentQuery.Proofs.Resolve.Restoration

/-!
# Lambdas whose parameters are renamed

Outside of lambdas nothing is bound to a row (`Scope.Outside`).  There a lambda may call its row one way
or the other (`Method.MayRename`): its value is the same, and so is the scope after it
(`Resolve.together_lambda`).  A row may have the name of the parameters of the query, which it hides;
a group of rows may not, because it does not hide them.
-/

namespace FluentQuery

set_option autoImplicit false

/-! ### Arguments -/

namespace Method

/-- Whether the lambda of a method is about a row, or about a group once rows are grouped. -/
def takesRow : Method → Bool
  | .filter | .select | .groupBy | .sort _ _ | .terminal _ | .aggregate _ => true
  | _ => false

/-- The name that the lambda of a method gives to the row an insertion proposed. -/
def proposed (others : List String) : Method → List String
  | .doUpdateSet => others.take 1
  | _ => []

/-- The lambda of a method may call its first parameter one way or the other: its other parameters have
other names, and neither name is taken.  The parameters of the query keep their name, and a group is not
called like them. -/
structure MayRename (taken params : List String) (grouped : Bool) (method : Method) (x x' : String)
    (others : List String) : Prop where
  pair : MayPair (method.proposed others ++ taken) x x'
  apart : ∀ other ∈ others, other ≠ "" ∧ other ≠ x ∧ other ≠ x'
  query : method = .values → x = x'
  group : grouped = true → method.takesRow = true → x = x' ∨ x ∉ params ∧ x' ∉ params

end Method

/-- Arguments of a method that differ only in what lambdas call their first parameters. -/
inductive Node.AlphaArgument (taken params : List String) (grouped : Bool) (method : Method) :
    Node → Node → Prop
  | same (node : Node) : Node.AlphaArgument taken params grouped method node node
  | value {node node' : Node} (noLambda : ∀ names body, node ≠ .arrow names body)
      (h : node.Alpha taken [] node') : Node.AlphaArgument taken params grouped method node node'
  | lambda {x x' : String} {others : List String} {body body' : Node}
      (may : method.MayRename taken params grouped x x' others)
      (h : body.AlphaBody (method.proposed others ++ taken) [(x, x')] body') :
      Node.AlphaArgument taken params grouped method (.arrow (x :: others) body)
        (.arrow (x' :: others) body')

/-! ### Outside of lambdas -/

/-- A scope outside of lambdas, the same on both sides: names are bound to the parameters of the query
only, and rows are not grouped unless they may be. -/
structure Scope.Outside (taken params : List String) (grouped : Bool) (s s' : Scope) : Prop where
  same : s = s'
  bindings : s.bindings = { params := params, shape := s.bindings.shape }
  helpers : s.helpers ∈ taken
  ungrouped : grouped = false → s.groupByKey = .absent

namespace Scope.Outside

variable {taken params : List String} {grouped : Bool} {s s' t : Scope}
  (h : s.Outside taken params grouped s')

include h

theorem restored (restored : s.Restored t) : t.Outside taken params grouped t := by
  rw [restored.same]
  exact ⟨rfl, h.bindings, h.helpers, h.ungrouped⟩

/-- Where no rows are grouped, it does not matter whether they might be. -/
theorem weaken (grouped' : Bool) (ungrouped : grouped' = false → grouped = false) :
    s.Outside taken params grouped' s' :=
  ⟨h.same, h.bindings, h.helpers, fun none => h.ungrouped (ungrouped none)⟩

theorem tables : s.bindings.tables = [] := by rw [h.bindings]

theorem groupings : s.bindings.groupings = [] := by rw [h.bindings]

theorem unshaped : s.bindings.joinResult = "" := by rw [h.bindings]

theorem excluded : s.bindings.excluded = "" := by rw [h.bindings]

/-- Rows look different from now on. -/
theorem reshape (shape : Option ResultShape) :
    { s.bindings with shape } = { params := params, shape : Bindings } := by
  rw [h.bindings]

theorem apart : s.bindings.Apart :=
  ⟨fun shaped => absurd h.unshaped shaped, fun _ => h.unshaped, fun tables => absurd h.tables tables⟩

variable {all : List String} (reserved : reservedNames ⊆ all)

include reserved

/-- Every name means the same as itself. -/
theorem renames : s.bindings.Renames all [] s.bindings :=
  .refl reserved (h.excluded ▸ reserved (List.mem_cons_self ..)) h.apart fun _ _ same => same

variable {x x' : String} (pair : MayPair all x x')

include pair

theorem bindTable :
    (s.bindings.bindTable x).Renames all [(x, x')] (s.bindings.bindTable x') :=
  (h.renames reserved).bindTable pair h.unshaped h.unshaped (fun some => absurd h.groupings some)
    fun some => absurd h.groupings some

theorem bindShape (shape : ResultShape) :
    (s.bindings.bindShape x (some shape)).Renames all [(x, x')]
      (s.bindings.bindShape x' (some shape)) :=
  (h.renames reserved).bindShape pair h.tables h.tables rfl

theorem bindElement :
    (s.bindings.bindElement x).Renames all [(x, x')] (s.bindings.bindElement x') := by
  unfold Bindings.bindElement
  cases s.bindings.shape with
  | none => exact h.bindTable reserved pair
  | some shape => exact h.bindShape reserved pair shape

/-- A group hides nothing, so it is not called like the parameters of the query. -/
theorem bindGroup (free : x = x' ∨ x ∉ params ∧ x' ∉ params) :
    { s.bindings with groupings := NameSet.insert s.bindings.groupings x : Bindings }.Renames all
      [(x, x')] { s.bindings with groupings := NameSet.insert s.bindings.groupings x' } := by
  refine (h.renames reserved).bindGroup h.tables h.tables ?_
  obtain ⟨named, named'⟩ := pair.ne_empty (reserved (List.mem_cons_self ..))
  rcases free with rfl | ⟨free, free'⟩
  · rfl
  · have unbound {name : String} (free : name ∉ params) : List.contains params name = false := by
      simpa using free
    rw [h.bindings]
    simp only [Bindings.meaning, pair.taken_eq, unbound free, unbound free', named, named']
    rfl

end Scope.Outside

namespace Resolve

variable {α : Type} {taken params : List String} {grouped : Bool} {s : Scope}

/-- Outside of lambdas two pieces of work both fail, or give the same result and leave one scope. -/
abbrev Together (taken params : List String) (grouped : Bool) (work work' : Resolve α) : Prop :=
  Matches (Scope.Outside taken params grouped) work work'

/-! ### What is left of a scope -/

/-- Of the work of a lambda's body only automatic parameters remain. -/
theorem restores_withParams {bindParams : List String → Resolve Unit} {names : List String}
    {body : Resolve α} {post : α → Scope → Prop} (binds : Rebinds .everything (bindParams names))
    (h : Tidy .everything post body) (s : Scope) :
    Leads s (fun _ t => s.Restored t) (withParams bindParams names body) := by
  refine ensures_withBindings (Ensures.bind ((binds s s.within_everything).mono (fun _ _ => id)
    fun _ _ => trivial) ?_)
  rintro _ _ ⟨b, rfl, -⟩
  refine (restores_of_tidy h _).mono (fun _ t restored => ?_) fun _ _ => trivial
  refine ⟨?_, restored.adds.counter, restored.adds.added, restored.adds.others⟩
  rw [restored.same]

/-- Runs that leave nothing but automatic parameters, in scopes in which all names mean the same, leave
one scope. -/
theorem together_of_renames {all : List String} {work work' : Resolve α}
    (hs : s.Outside taken params grouped s) (restores : Leads s (fun _ t => s.Restored t) work)
    (restores' : Leads s (fun _ t => s.Restored t) work')
    (h : SameResult (Scope.Renames all s.groupByKey []) (work s) (work' s)) :
    SameResult (Scope.Outside taken params grouped) (work s) (work' s) := by
  unfold Leads Ensures at restores restores'
  generalize work s = r at restores h ⊢
  generalize work' s = r' at restores' h ⊢
  cases h with
  | error => exact .error
  | @ok a t t' ht =>
    dsimp only at restores restores'
    have outside := hs.restored restores
    suffices same : t' = t by
      rw [same]
      exact .ok outside
    have bindings : t.bindings = s.bindings := by rw [restores.same]
    have bindings' : t'.bindings = s.bindings := by rw [restores'.same]
    obtain ⟨-, -, -⟩ := ht
    dsimp only at bindings'
    rw [bindings', ← bindings]

/-- The same work on both sides, of which only automatic parameters remain. -/
theorem together_of_restores {work : Resolve α}
    (restores : ∀ s, Leads s (fun _ t => s.Restored t) work) :
    Together taken params grouped work work := by
  rintro s s' hs
  obtain rfl := hs.same
  have left := restores s
  unfold Leads Ensures at left
  generalize work s = r at left ⊢
  cases r with
  | ok a t => exact .ok (hs.restored left)
  | error => exact .error

/-- The same work on both sides, which leaves the scope as it is. -/
theorem together_of_same {work : Resolve α} (unchanged : ∀ s, Leads s (fun _ t => t = s) work) :
    Together taken params grouped work work := by
  refine together_of_restores fun s => (unchanged s).mono ?_ fun _ => id
  rintro _ _ rfl
  exact ⟨rfl, .refl _⟩

/-! ### Values and lambdas -/

section

variable {method : Method} {node node' : Node}
  (reserved : reservedNames ⊆ taken) (h : node.AlphaArgument taken params grouped method node')

include reserved h

theorem together_value :
    Together taken params grouped (node.resolve false) (node'.resolve false) := by
  have restores (node : Node) (s : Scope) : Leads s (fun _ t => s.Restored t) (node.resolve false) :=
    (restores_of_tidy (node.tidy_resolve false) s).mono (fun _ _ => id) fun _ _ => trivial
  cases h with
  | same => exact together_of_restores (restores node)
  | value _ h =>
    rintro s s' hs
    obtain rfl := hs.same
    exact together_of_renames hs (restores node s) (restores node' s)
      (Node.renamed_resolve h false s s ⟨hs.renames reserved, rfl, hs.helpers⟩)
  | lambda => exact fun _ _ _ => .error

end

/-- On both sides the lambda of a method can bind its parameters. -/
structure BindsLambda (taken params : List String) (grouped : Bool) (method : Method) (s : Scope)
    (bindParams : List String → Resolve Unit) : Prop where
  rebinds : ∀ names, Rebinds .everything (bindParams names)
  pairs : ∀ x x' others, method.MayRename taken params grouped x x' others →
    SameResult (Scope.Renames (method.proposed others ++ taken) s.groupByKey [(x, x')])
      (bindParams (x :: others) s) (bindParams (x' :: others) s)

section

variable {method : Method} {bindParams : List String → Resolve Unit} {node node' : Node}
  (reserved : reservedNames ⊆ taken) (hs : s.Outside taken params grouped s)
  (binds : BindsLambda taken params grouped method s bindParams)
  (h : node.AlphaArgument taken params grouped method node')

include reserved hs binds h

/-- Lambdas that differ in what they call their parameters have the same value. -/
theorem together_lambda (isPredicate : Bool) (name : String) :
    SameResult (Scope.Outside taken params grouped)
      (node.resolveLambda isPredicate name bindParams s)
      (node'.resolveLambda isPredicate name bindParams s) := by
  have restores (node : Node) (s : Scope) :
      Leads s (fun _ t => s.Restored t) (node.resolveLambda isPredicate name bindParams) := by
    have tidy := node.tidy_resolveLambda isPredicate name bindParams fun names _ _ =>
      binds.rebinds names
    exact (restores_of_tidy tidy s).mono (fun _ _ => id) fun _ _ => trivial
  cases h with
  | same => exact together_of_restores (restores node) s s hs
  | value noLambda h =>
    cases h with
    | arrow => exact absurd rfl (noLambda _ _)
    | thunk => exact absurd rfl (noLambda _ _)
    | _ => exact .error
  | @lambda x x' others body body' may h =>
    have within : reservedNames ⊆ method.proposed others ++ taken :=
      fun _ mem => List.mem_append_right _ (reserved mem)
    exact together_of_renames hs (restores _ s) (restores _ s)
      (Node.renamed_body h isPredicate name bindParams bindParams _ _ s s
        ⟨hs.renames within, rfl, List.mem_append_right _ hs.helpers⟩ (binds.pairs x x' others may))

end

/-! ### Binding the parameters of lambdas -/

section

variable {method : Method} (reserved : reservedNames ⊆ taken)
  (hs : s.Outside taken params grouped s)

include reserved hs

theorem bindsLambda_table : BindsLambda taken params grouped method s bindTableParam := by
  refine ⟨rebinds_bindTableParam, fun x x' others may => ?_⟩
  have within : reservedNames ⊆ method.proposed others ++ taken :=
    fun _ mem => List.mem_append_right _ (reserved mem)
  exact .ok ⟨hs.bindTable within may.pair, rfl, List.mem_append_right _ hs.helpers⟩

theorem bindsLambda_row (row : method.takesRow = true) :
    BindsLambda taken params grouped method s bindRowParams := by
  refine ⟨rebinds_bindRowParams fun _ => trivial, fun x x' others may => ?_⟩
  have within : reservedNames ⊆ method.proposed others ++ taken :=
    fun _ mem => List.mem_append_right _ (reserved mem)
  have bound : SameResult (Scope.Renames (method.proposed others ++ taken) s.groupByKey [(x, x')])
      (bindRow x s) (bindRow x' s) := by
    refine .ok ⟨?_, rfl, List.mem_append_right _ hs.helpers⟩
    dsimp only
    split
    · exact hs.bindElement within may.pair
    · rename_i present
      refine hs.bindGroup within may.pair (may.group ?_ row)
      by_contra none
      exact present (hs.ungrouped (Bool.eq_false_iff.2 none) ▸ rfl)
  match others, may with
  | [], _ => exact bound
  | [query], may =>
    obtain ⟨named, ne, ne'⟩ := may.apart query (List.mem_singleton_self _)
    refine bound.bind ?_
    rintro _ t _ ⟨bindings, grouped, helpers⟩
    exact .ok ⟨bindings.bindParam named (.inr ⟨ne, ne', rfl⟩), grouped, helpers⟩
  | _ :: _ :: _, _ => exact .error

omit reserved in
theorem renames_bindOuter {x x' : String} {all : List String} (within : reservedNames ⊆ all)
    (helpers : s.helpers ∈ all) (pair : MayPair all x x') :
    SameResult (Scope.Renames all s.groupByKey [(x, x')]) (bindOuter x s) (bindOuter x' s) := by
  refine .ok ⟨?_, rfl, helpers⟩
  dsimp only
  cases s.bindings.shape with
  | none => exact (hs.renames within).bindJoin pair 0
  | some shape => exact hs.bindShape within pair shape

theorem bindsLambda_outer : BindsLambda taken params grouped method s bindOuterParam := by
  refine ⟨rebinds_bindOuterParam trivial, fun x x' others may => ?_⟩
  exact renames_bindOuter hs (fun _ mem => List.mem_append_right _ (reserved mem))
    (List.mem_append_right _ hs.helpers) may.pair

theorem bindsLambda_result (index : Int) :
    BindsLambda taken params grouped method s (bindResultParams index) := by
  refine ⟨rebinds_bindResultParams trivial trivial, fun x x' others may => ?_⟩
  have bound := renames_bindOuter hs (fun _ mem => List.mem_append_right _ (reserved mem))
    (List.mem_append_right _ hs.helpers) may.pair
  match others, may with
  | [], _ => exact bound
  | [inner], may =>
    obtain ⟨named, ne, ne'⟩ := may.apart inner (List.mem_singleton_self _)
    refine bound.bind ?_
    rintro _ t _ ⟨bindings, grouped, helpers⟩
    have joined := bindings.bindJoin (.inl ⟨rfl, named⟩) index
    exact .ok ⟨joined.of_corresponds fun _ _ c => c.push (.inr ⟨ne, ne', rfl⟩), grouped, helpers⟩
  | _ :: _ :: _, _ => exact .error

theorem bindsLambda_query (query : method = .values) :
    BindsLambda taken params grouped method s bindQueryParam := by
  subst query
  refine ⟨fun names => ?_, fun x x' others may => ?_⟩
  · unfold bindQueryParam
    split
    · exact .pure
    · exact .bind fun b known => known.bindParam _ trivial
  · obtain rfl := may.query rfl
    refine .ok ⟨.refl reserved ?_ (hs.apart.bindParam x) ?_, rfl, hs.helpers⟩
    · exact hs.excluded ▸ reserved (List.mem_cons_self ..)
    · rintro a a' (⟨rfl, rfl⟩ | ⟨-, -, same⟩)
      · rfl
      · exact same

theorem bindsLambda_conflict :
    BindsLambda taken params grouped .doUpdateSet s bindConflictParams := by
  refine ⟨fun names => ?_, fun x x' others may => ?_⟩
  · unfold bindConflictParams
    split
    · exact .pure
    · exact .bind fun b known => known.bindTable _
    · rename_i row _ _
      refine .bind fun b known => ?_
      have bound := known.bindTable row
      exact ⟨bound.params, bound.joins, bound.shape⟩
  have within : reservedNames ⊆ Method.doUpdateSet.proposed others ++ taken :=
    fun _ mem => List.mem_append_right _ (reserved mem)
  have bound := hs.bindTable within may.pair
  have helpers := List.mem_append_right (Method.doUpdateSet.proposed others) hs.helpers
  cases others with
  | nil => exact .ok ⟨bound, rfl, helpers⟩
  | cons proposed _ => exact .ok ⟨bound.bindExcluded (List.mem_cons_self ..), rfl, helpers⟩

theorem bindsLambda_update : BindsLambda taken params grouped method s bindUpdateParams := by
  refine ⟨fun names => ?_, fun x x' others may => ?_⟩
  · unfold bindUpdateParams
    split
    · exact .pure
    · exact .bind fun b known => known.bindTable _
    · exact .bind fun b known => (known.bindTable _).bindParam _ trivial
  have within : reservedNames ⊆ method.proposed others ++ taken :=
    fun _ mem => List.mem_append_right _ (reserved mem)
  have bound := hs.bindTable within may.pair
  have helpers := List.mem_append_right (method.proposed others) hs.helpers
  match others, may with
  | [], _ => exact .ok ⟨bound, rfl, helpers⟩
  | query :: _, may =>
    obtain ⟨named, ne, ne'⟩ := may.apart query (List.mem_cons_self ..)
    exact .ok ⟨bound.bindParam named (.inr ⟨ne, ne', rfl⟩), rfl, helpers⟩

end

end Resolve

end FluentQuery
