import FluentQuery.Proofs.Expr.Replace

/-!
# Operands that are there

`Expr.Filled` says of a node that no operand it needs is missing, and that its operands in predicate
position are predicates.  Replacing leaves keeps this of every node (`Expr.filled_replace`), if
predicates are replaced by predicates.  `Expr.Formative` lists the ways in which lambda bodies make
nodes, those that need groups apart; what they all guarantee is true of every node of a body.
-/

namespace FluentQuery

set_option autoImplicit false

namespace Expr

/-- The operands of a node are there, and those in predicate position are predicates.  Only the operand
of a count and the last alternative of a conditional may be missing. -/
def Filled : Expr → Prop
  | arithmetic _ left right | concat left right | comparison _ left right
  | caseInsensitive _ left right | membership left right => left ≠ absent ∧ right ≠ absent
  | stringMethod _ operand | isNull operand _ => operand ≠ absent
  | aggregate function operand => function = .count ∨ operand ≠ absent
  | logical _ left right => left.isBoolean = true ∧ right.isBoolean = true
  | negation operand => operand.isBoolean = true
  | caseWhen conditions _ => ∀ c ∈ conditions, c.1.isBoolean = true ∧ c.2 ≠ absent
  | coalesce es | array es => ∀ e ∈ es, e ≠ absent
  | window _ partitionBy orderBy => (∀ e ∈ partitionBy, e ≠ absent) ∧ ∀ o ∈ orderBy, o.1 ≠ absent
  | textTest _ operand arguments => operand ≠ absent ∧ ∀ e ∈ arguments, e ≠ absent
  | object properties => ∀ m ∈ properties, m.2 ≠ absent
  | _ => True

/-! ### Replacing -/

section

variable {p : Expr → Prop} {e : Expr}

/-- What is true of every node is true of the topmost and of all those below it. -/
theorem every_children (h : e ≠ absent) : e.Every p ↔ p e ∧ ∀ c ∈ e.children, c.Every p := by
  rw [every_iff_of_walk (walk_eq_cons h)]
  simp only [List.mem_flatMap, forall_exists_index, and_imp]
  exact and_congr_right fun _ => ⟨fun h c hc node => h node c hc, fun h node c hc => h c hc node⟩

end

variable (f : Expr → Expr)

theorem fillConditions_map (conditions : List (Expr × Expr)) (rest : List Expr) :
    fillConditions conditions ((conditionChildren conditions).map f ++ rest) =
      conditions.map fun c => (f c.1, f c.2) := by
  induction conditions with
  | nil => rfl
  | cons c conditions ih =>
    simp only [conditionChildren, List.map_cons, List.cons_append, fillConditions, ih]

theorem zipWith_map_self {α β : Type} (make : α → β → α) (value : α → β) (entries : List α) :
    entries.zipWith make (entries.map value) = entries.map fun entry => make entry (value entry) := by
  rw [List.zipWith_map_right, List.zipWith_self]

theorem withChildren_caseWhen (conditions : List (Expr × Expr)) (e : Expr) :
    (caseWhen conditions e).withChildren ((caseWhen conditions e).children.map f) =
      caseWhen (conditions.map fun c => (f c.1, f c.2)) (f e) := by
  have last : ((conditionChildren conditions).map f ++ [f e]).drop (2 * conditions.length) = [f e] := by
    rw [← length_conditionChildren, ← List.length_map f, List.drop_left]
  simp only [children, withChildren, List.map_append, List.map_cons, List.map_nil, fillConditions_map,
    last, List.headD_cons]

theorem withChildren_window (function : WindowFunction) (partitionBy : List Expr)
    (orderBy : List (Expr × Bool)) :
    (window function partitionBy orderBy).withChildren
        ((window function partitionBy orderBy).children.map f) =
      window function (partitionBy.map f) (orderBy.map fun o => (f o.1, o.2)) := by
  have keys : (orderBy.map Prod.fst).map f = orderBy.map fun o => f o.1 := List.map_map
  simp [children, withChildren, keys, zipWith_map_self]

theorem withChildren_object (properties : List (String × Expr)) :
    (object properties).withChildren ((object properties).children.map f) =
      object (properties.map fun m => (m.1, f m.2)) := by
  simp [children, withChildren, zipWith_map_self, Function.comp_def]

/-- Operands may be replaced, predicates by predicates. -/
theorem Filled.withChildren {e : Expr} (h : e.Filled)
    (present : ∀ c ∈ e.children, c ≠ absent → f c ≠ absent)
    (boolean : ∀ c ∈ e.children, c.isBoolean = true → (f c).isBoolean = true) :
    (e.withChildren (e.children.map f)).Filled := by
  cases e with
  | arithmetic | concat | comparison | caseInsensitive | membership =>
    exact ⟨present _ (by simp [children]) h.1, present _ (by simp [children]) h.2⟩
  | stringMethod | isNull => exact present _ (by simp [children]) h
  | aggregate => exact h.imp id (present _ (by simp [children]))
  | logical => exact ⟨boolean _ (by simp [children]) h.1, boolean _ (by simp [children]) h.2⟩
  | negation => exact boolean _ (by simp [children]) h
  | coalesce es | array es => exact List.forall_mem_map.2 fun e he => present e he (h e he)
  | textTest method operand arguments =>
    refine ⟨present _ (by simp [children]) h.1, List.forall_mem_map.2 fun e he => ?_⟩
    exact present e (List.mem_cons_of_mem _ he) (h.2 e he)
  | caseWhen conditions e =>
    rw [withChildren_caseWhen]
    refine List.forall_mem_map.2 fun c hc => ?_
    obtain ⟨test, result⟩ := mem_conditionChildren hc
    exact ⟨boolean _ (List.mem_append_left _ test) (h c hc).1,
      present _ (List.mem_append_left _ result) (h c hc).2⟩
  | window function partitionBy orderBy =>
    rw [withChildren_window]
    refine ⟨List.forall_mem_map.2 fun e he => ?_, List.forall_mem_map.2 fun o ho => ?_⟩
    · exact present e (List.mem_append_left _ he) (h.1 e he)
    · exact present o.1 (List.mem_append_right _ (List.mem_map_of_mem ho)) (h.2 o ho)
  | object properties =>
    rw [withChildren_object]
    refine List.forall_mem_map.2 fun m hm => ?_
    exact present m.2 (List.mem_map_of_mem hm) (h m hm)
  | _ => trivial

section

variable {g : Expr → Option Expr} (leaves : OnLeaves g)
  (keeps : ∀ n x, n.isBoolean = true → g n = some x → x.isBoolean = true)
  (present : ∀ n x, g n = some x → x ≠ absent)

include leaves present

theorem replace_ne_absent {e : Expr} (h : e ≠ absent) : replace g e ≠ absent := by
  by_cases leaf : e.children = []
  · rw [replace_leaf g h leaf]
    cases found : g e with
    | none => exact h
    | some x => exact present e x found
  · intro gone
    have below := children_withChildren e (e.children.map (replace g)) (by simp)
    rw [← replace_node leaves leaf, gone] at below
    exact leaf (List.map_eq_nil_iff.1 below.symm)

include keeps

/-- Replacing leaves by complete expressions leaves no operand missing. -/
theorem filled_replace (filled : ∀ n x, g n = some x → x.Every Filled) {e : Expr}
    (h : e.Every Filled) : (replace g e).Every Filled := by
  induction e using children_induction with
  | step e ih =>
    by_cases habs : e = absent
    · subst habs
      exact every_absent
    obtain ⟨here, below⟩ := (every_children habs).1 h
    by_cases leaf : e.children = []
    · rw [replace_leaf g habs leaf]
      cases found : g e with
      | none => exact h
      | some x => exact filled e x found
    · have operands : (e.withChildren (e.children.map (replace g))).children =
          e.children.map (replace g) := children_withChildren _ _ (by simp)
      have there := replace_ne_absent leaves present habs
      rw [replace_node leaves leaf] at there ⊢
      refine (every_children there).2 ⟨?_, ?_⟩
      · refine here.withChildren (replace g) (fun c _ => replace_ne_absent leaves present) ?_
        exact fun c _ => isBoolean_replace leaves keeps
      · rw [operands]
        exact List.forall_mem_map.2 fun c hc => ih c hc (below c hc)

end

/-- Two predicates are both there. -/
theorem filled_conj {l r : Expr} (hl : l = absent ∨ l.isBoolean = true)
    (hr : r = absent ∨ r.isBoolean = true) (left : l.Every Filled) (right : r.Every Filled) :
    (l.conj r).Every Filled ∧ (l.conj r = absent ∨ (l.conj r).isBoolean = true) := by
  rcases hl with rfl | hl
  · rw [conj_absent_left]
    exact ⟨right, hr⟩
  rcases hr with rfl | hr
  · rw [conj_absent_right]
    exact ⟨left, .inr hl⟩
  · rw [conj_eq_and (ne_absent_of_isBoolean hl) (ne_absent_of_isBoolean hr)]
    exact ⟨(every_logical _ _ _).2 ⟨⟨hl, hr⟩, left, right⟩, .inr rfl⟩

/-! ### How lambda bodies make nodes -/

/-- A name, standing for a column, a row or a parameter. -/
def isName : Expr → Bool
  | column _ _ _ | excludedColumn _ | param _ _ _ | reference _ _ | allColumns | booleanColumn _ _ _
  | booleanParam _ _ => true
  | _ => false

/-- A property of nodes that is true of all nodes of lambda bodies over rows, because it is true of
every node that they are made with. -/
structure Formative (p : Expr → Prop) : Prop where
  name : ∀ {e}, e.isName = true → p e
  null : p (constant .null)
  minusOne : p (constant (.int (-1)))
  isNull : ∀ {e negated}, e ≠ absent → p (isNull e negated)
  comparison : ∀ {op l r}, l ≠ absent → r ≠ absent → p (comparison op l r)
  arithmetic : ∀ {op l r}, l ≠ absent → r ≠ absent → p (arithmetic op l r)
  concat : ∀ {l r}, l ≠ absent → r ≠ absent → p (concat l r)
  logical : ∀ {op l r}, l.isBoolean = true → r.isBoolean = true → p (logical op l r)
  negation : ∀ {e}, e.isBoolean = true → p (negation e)
  stringMethod : ∀ {method e}, e ≠ absent → p (stringMethod method e)
  caseInsensitive : ∀ {test l r}, l ≠ absent → r ≠ absent → p (caseInsensitive test l r)
  membership : ∀ {l r}, l ≠ absent → r ≠ absent → p (membership l r)
  textTest : ∀ {test e a}, e ≠ absent → a ≠ absent → p (textTest test e [a])
  window : ∀ {function partitionBy orderBy}, orderBy ≠ [] → (∀ e ∈ partitionBy, e ≠ absent) →
    (∀ o ∈ orderBy, o.1 ≠ absent) → p (window function partitionBy orderBy)
  /-- A conditional has one condition, or one more than the conditional in its alternative. -/
  oneCondition : ∀ {test result e}, test.isBoolean = true → result ≠ absent →
    p (caseWhen [(test, result)] e)
  moreConditions : ∀ {test result conditions e}, test.isBoolean = true → result ≠ absent →
    p (caseWhen conditions e) → p (caseWhen ((test, result) :: conditions) e)
  /-- Alternatives of alternatives are put side by side. -/
  oneAlternative : ∀ {e}, e ≠ absent → p (coalesce [e])
  moreAlternatives : ∀ {es es'}, p (coalesce es) → p (coalesce es') → p (coalesce (es ++ es'))
  array : ∀ {es}, (∀ e ∈ es, e ≠ absent) → p (array es)
  /-- Spreading an object adds its members. -/
  noMember : p (object [])
  oneMember : ∀ {key e}, e ≠ absent → p (object [(key, e)])
  moreMembers : ∀ {ms ms'}, p (object ms) → p (object ms') → p (object (ms ++ ms'))

/-- A property that the aggregates of groups have. -/
structure Aggregating (p : Expr → Prop) : Prop where
  count : p (aggregate .count absent)
  aggregate : ∀ {function e}, e ≠ absent → p (aggregate function e)

theorem formative_filled : Formative Filled where
  name {e} h := by
    cases e with
    | column | excludedColumn | param | reference | allColumns | booleanColumn | booleanParam =>
      trivial
    | _ => cases h
  null := trivial
  minusOne := trivial
  isNull := id
  comparison := .intro
  arithmetic := .intro
  concat := .intro
  logical := .intro
  negation := id
  stringMethod := id
  caseInsensitive := .intro
  membership := .intro
  textTest he ha := ⟨he, List.forall_mem_singleton.2 ha⟩
  window _ := .intro
  oneCondition ht hr := List.forall_mem_singleton.2 ⟨ht, hr⟩
  moreConditions ht hr := fun h => List.forall_mem_cons.2 ⟨⟨ht, hr⟩, h⟩
  oneAlternative h := fun _ he => List.mem_singleton.1 he ▸ h
  moreAlternatives h h' := List.forall_mem_append.2 ⟨h, h'⟩
  array := id
  noMember := nofun
  oneMember h := fun _ hm => List.mem_singleton.1 hm ▸ h
  moreMembers h h' := List.forall_mem_append.2 ⟨h, h'⟩

theorem aggregating_filled : Aggregating Filled where
  count := .inl rfl
  aggregate := .inr

/-- Every way of making nodes makes nodes. -/
theorem formative_trivial : Formative fun _ => True := by
  constructor <;> intros <;> trivial

theorem aggregating_trivial : Aggregating fun _ => True :=
  ⟨trivial, fun _ => trivial⟩

end Expr

end FluentQuery
