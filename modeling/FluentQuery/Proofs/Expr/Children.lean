import FluentQuery.Expr.Traverse

/-!
# Expressions as nodes with children

`Expr.children` lists the operands of a node in the order in which they are walked, and
`Expr.withChildren` puts others in their place.  Seen this way a traversal has one case: walking
lists the node before its children, and replacing replaces the children, then offers the node.
-/

namespace FluentQuery

set_option autoImplicit false

namespace Expr

/-- The operands of conditions and results, in order. -/
def conditionChildren : List (Expr × Expr) → List Expr
  | [] => []
  | (condition, result) :: rest => condition :: result :: conditionChildren rest

/-- The expressions that stand directly below a node. -/
def children : Expr → List Expr
  | absent | column _ _ _ | excludedColumn _ | constant _ | param _ _ _ | reference _ _
  | allColumns | booleanConstant _ | booleanColumn _ _ _ | booleanParam _ _ => []
  | stringMethod _ e | aggregate _ e | negation e | isNull e _ => [e]
  | arithmetic _ l r | concat l r | comparison _ l r | logical _ l r | caseInsensitive _ l r
  | membership l r => [l, r]
  | caseWhen conditions elseResult => conditionChildren conditions ++ [elseResult]
  | coalesce es | array es => es
  | window _ partitionBy orderBy => partitionBy ++ orderBy.map Prod.fst
  | textTest _ e arguments => e :: arguments
  | object properties => properties.map Prod.snd

/-- Conditions and results taken from a list, as many as there were. -/
def fillConditions : List (Expr × Expr) → List Expr → List (Expr × Expr)
  | _ :: rest, condition :: result :: es => (condition, result) :: fillConditions rest es
  | _, _ => []

/-- The node with other expressions below it. -/
def withChildren : Expr → List Expr → Expr
  | stringMethod method _, [e] => stringMethod method e
  | aggregate function _, [e] => aggregate function e
  | negation _, [e] => negation e
  | isNull _ negated, [e] => isNull e negated
  | arithmetic op _ _, [l, r] => arithmetic op l r
  | concat _ _, [l, r] => concat l r
  | comparison op _ _, [l, r] => comparison op l r
  | logical op _ _, [l, r] => logical op l r
  | caseInsensitive function _ _, [l, r] => caseInsensitive function l r
  | membership _ _, [l, r] => membership l r
  | caseWhen conditions _, es =>
    caseWhen (fillConditions conditions es) ((es.drop (2 * conditions.length)).headD absent)
  | coalesce _, es => coalesce es
  | array _, es => array es
  | window function partitionBy orderBy, es =>
    window function (es.take partitionBy.length)
      (orderBy.zipWith (fun order key => (key, order.2)) (es.drop partitionBy.length))
  | textTest method _ _, e :: arguments => textTest method e arguments
  | object properties, es => object (properties.zipWith (fun p e => (p.1, e)) es)
  | e, _ => e

/-! ### Taking a node apart and putting it together -/

/-- What holds of two operands. -/
theorem forall_mem_pair {p : Expr → Prop} {l r : Expr} : (∀ c ∈ [l, r], p c) ↔ p l ∧ p r := by
  rw [List.forall_mem_cons, List.forall_mem_singleton]

theorem mem_conditionChildren {conditions : List (Expr × Expr)} {c : Expr × Expr}
    (h : c ∈ conditions) : c.1 ∈ conditionChildren conditions ∧ c.2 ∈ conditionChildren conditions := by
  induction conditions with
  | nil => cases h
  | cons first rest ih =>
    rcases List.mem_cons.1 h with rfl | later
    · simp [conditionChildren]
    · simp [conditionChildren, ih later]

theorem length_conditionChildren (cs : List (Expr × Expr)) :
    (conditionChildren cs).length = 2 * cs.length := by
  induction cs with
  | nil => rfl
  | cons c rest ih =>
    simp only [conditionChildren, List.length_cons, ih]
    omega

theorem fillConditions_append (cs : List (Expr × Expr)) (es : List Expr) :
    fillConditions cs (conditionChildren cs ++ es) = cs := by
  induction cs with
  | nil => rfl
  | cons c rest ih => simp [conditionChildren, fillConditions, ih]

theorem conditionChildren_fill (cs : List (Expr × Expr)) (es : List Expr)
    (h : 2 * cs.length ≤ es.length) :
    conditionChildren (fillConditions cs es) = es.take (2 * cs.length) := by
  induction cs generalizing es with
  | nil => cases es <;> rfl
  | cons c rest ih =>
    match es, h with
    | a :: b :: es, h =>
      have h' : 2 * rest.length ≤ es.length := by
        simp only [List.length_cons] at h
        omega
      have two : 2 * (rest.length + 1) = 2 * rest.length + 1 + 1 := by omega
      simp only [fillConditions, conditionChildren, ih es h', List.length_cons, two,
        List.take_succ_cons]
    | [_], h =>
      simp only [List.length_cons, List.length_nil] at h
      omega
    | [], h =>
      simp only [List.length_cons, List.length_nil] at h
      omega

theorem withChildren_children (e : Expr) : e.withChildren e.children = e := by
  cases e with
  | caseWhen cs e =>
    simp [children, withChildren, fillConditions_append, ← length_conditionChildren]
  | window function partitionBy orderBy => simp [children, withChildren, List.zipWith_map_right]
  | object properties => simp [children, withChildren, List.zipWith_map_right]
  | _ => rfl

/-- Keeping the second of each pair of a list keeps the second list. -/
theorem zipWith_second {α β : Type} {xs : List α} {ys : List β} (h : ys.length ≤ xs.length) :
    xs.zipWith (fun _ y => y) ys = ys :=
  calc xs.zipWith (fun _ y => y) ys
    _ = (xs.zip ys).map Prod.snd := by rw [List.zip, List.map_zipWith]
    _ = ys := List.map_snd_zip h

/-- A node takes as many expressions as it has children. -/
theorem children_withChildren (e : Expr) (es : List Expr) (h : es.length = e.children.length) :
    (e.withChildren es).children = es := by
  cases e with
  | caseWhen cs e =>
    rw [children, List.length_append, length_conditionChildren, List.length_singleton] at h
    have last : (es.drop (2 * cs.length)).length = 1 := by
      rw [List.length_drop]
      omega
    obtain ⟨e', he'⟩ := List.length_eq_one_iff.1 last
    rw [withChildren, children, conditionChildren_fill cs es (by omega), he', List.headD_cons, ← he',
      List.take_append_drop]
  | window function partitionBy orderBy =>
    rw [children, List.length_append, List.length_map] at h
    have keys : (es.drop partitionBy.length).length = orderBy.length := by
      rw [List.length_drop]
      omega
    rw [withChildren, children, List.map_zipWith, zipWith_second (Nat.le_of_eq keys),
      List.take_append_drop]
  | object properties =>
    rw [children, List.length_map] at h
    rw [withChildren, children, List.map_zipWith, zipWith_second (Nat.le_of_eq h)]
  | coalesce => rfl
  | array => rfl
  | textTest method e arguments =>
    match es, h with
    | e' :: arguments', _ => rfl
    | [], h => simp [children] at h
  | arithmetic | concat | comparison | logical | caseInsensitive | membership =>
    match es, h with
    | [l, r], _ => rfl
  | stringMethod | aggregate | negation | isNull =>
    match es, h with
    | [e'], _ => rfl
  | _ => exact (List.length_eq_zero_iff.1 h).symm

theorem fillConditions_fill (cs : List (Expr × Expr)) (es es' : List Expr)
    (h : 2 * cs.length ≤ es.length) :
    (fillConditions cs es).length = cs.length ∧
      fillConditions (fillConditions cs es) es' = fillConditions cs es' := by
  induction cs generalizing es es' with
  | nil => cases es <;> exact ⟨rfl, rfl⟩
  | cons c rest ih =>
    match es, h with
    | a :: b :: es, h =>
      have h' : 2 * rest.length ≤ es.length := by
        simp only [List.length_cons] at h
        omega
      refine ⟨congrArg (· + 1) (ih es es' h').1, ?_⟩
      match es' with
      | a' :: b' :: es' => exact congrArg _ (ih es es' h').2
      | [_] => rfl
      | [] => rfl
    | [_], h =>
      simp only [List.length_cons, List.length_nil] at h
      omega
    | [], h =>
      simp only [List.length_cons, List.length_nil] at h
      omega

/-- Filling a list twice leaves what was filled in last. -/
theorem zipWith_fill {α β : Type} {f : α → β → α} (last : ∀ a b b', f (f a b) b' = f a b')
    (xs : List α) (ys zs : List β) (h : xs.length ≤ ys.length) :
    (xs.zipWith f ys).zipWith f zs = xs.zipWith f zs := by
  induction xs generalizing ys zs with
  | nil => rfl
  | cons x rest ih =>
    match ys, zs, h with
    | y :: ys, z :: zs, h =>
      simp only [List.zipWith_cons_cons, last]
      rw [ih ys zs (Nat.le_of_succ_le_succ h)]
    | _ :: _, [], _ => simp

/-- What stood below a node does not matter once something else is put there. -/
theorem withChildren_withChildren (e : Expr) (es es' : List Expr)
    (h : es.length = e.children.length) (h' : es'.length = e.children.length) :
    (e.withChildren es).withChildren es' = e.withChildren es' := by
  cases e with
  | caseWhen cs e =>
    rw [children, List.length_append, length_conditionChildren, List.length_singleton] at h
    obtain ⟨hlength, hfill⟩ := fillConditions_fill cs es es' (by omega)
    simp only [withChildren, hlength, hfill]
  | window function partitionBy orderBy =>
    rw [children, List.length_append, List.length_map] at h
    have hkeys : orderBy.length ≤ (es.drop partitionBy.length).length := by
      rw [List.length_drop]
      omega
    have hlength : (es.take partitionBy.length).length = partitionBy.length := by
      rw [List.length_take]
      omega
    simp only [withChildren, hlength]
    refine congrArg (window function _) (zipWith_fill ?_ _ _ _ hkeys)
    exact fun _ _ _ => rfl
  | object properties =>
    rw [children, List.length_map] at h
    refine congrArg object (zipWith_fill ?_ _ _ _ (Nat.le_of_eq h.symm))
    exact fun _ _ _ => rfl
  | coalesce => rfl
  | array => rfl
  | textTest method e arguments =>
    match es, es', h, h' with
    | _ :: _, _ :: _, _, _ => rfl
    | [], _, h, _ => simp [children] at h
    | _, [], _, h' => simp [children] at h'
  | arithmetic | concat | comparison | logical | caseInsensitive | membership =>
    match es, es', h, h' with
    | [_, _], [_, _], _, _ => rfl
  | stringMethod | aggregate | negation | isNull =>
    match es, es', h, h' with
    | [_], [_], _, _ => rfl
  | _ => rfl

theorem conj_eq_and {l r : Expr} (hl : l ≠ absent) (hr : r ≠ absent) :
    conj l r = logical .and l r := by
  unfold conj
  split
  · exact absurd rfl hl
  · exact absurd rfl hr
  · rfl

theorem conj_ne_absent_right {l r : Expr} (hr : r ≠ absent) : conj l r ≠ absent := by
  by_cases hl : l = absent
  · rwa [hl, conj_absent_left]
  · rw [conj_eq_and hl hr]
    exact nofun

theorem isBoolean_withChildren (e : Expr) (es : List Expr) :
    (e.withChildren es).isBoolean = e.isBoolean := by
  unfold withChildren
  split <;> rfl

/-! ### Walking -/

theorem walkList_eq_flatMap (es : List Expr) : walkList es = es.flatMap walk := by
  induction es with
  | nil => rfl
  | cons e rest ih => rw [walkList, ih, List.flatMap_cons]

theorem walkConditions_eq_flatMap (cs : List (Expr × Expr)) :
    walkConditions cs = (conditionChildren cs).flatMap walk := by
  induction cs with
  | nil => rfl
  | cons c rest ih =>
    rw [walkConditions, ih, conditionChildren, List.flatMap_cons, List.flatMap_cons,
      List.append_assoc]

theorem walkOrders_eq_flatMap (os : List (Expr × Bool)) :
    walkOrders os = (os.map Prod.fst).flatMap walk := by
  induction os with
  | nil => rfl
  | cons o rest ih => rw [walkOrders, ih, List.map_cons, List.flatMap_cons]

theorem walkProperties_eq_flatMap (ps : List (String × Expr)) :
    walkProperties ps = (ps.map Prod.snd).flatMap walk := by
  induction ps with
  | nil => rfl
  | cons p rest ih => rw [walkProperties, ih, List.map_cons, List.flatMap_cons]

/-- The nodes of an expression: the node itself, then those of its children. -/
theorem walk_eq_cons {e : Expr} (h : e ≠ absent) : e.walk = e :: e.children.flatMap walk := by
  cases e with
  | absent => exact absurd rfl h
  | arithmetic | concat | comparison | logical | caseInsensitive | membership | stringMethod
  | aggregate | negation | isNull => simp [walk, children]
  | caseWhen | coalesce | window | textTest | object | array =>
    simp [walk, children, walkList_eq_flatMap, walkConditions_eq_flatMap, walkOrders_eq_flatMap,
      walkProperties_eq_flatMap]
  | _ => rfl

/-- What stands below a node is walked with it. -/
theorem mem_walk_of_mem_children {e c node : Expr} (h : c ∈ e.children) (mem : node ∈ c.walk) :
    node ∈ e.walk := by
  have present : e ≠ absent := by
    rintro rfl
    cases h
  rw [walk_eq_cons present]
  exact List.mem_cons_of_mem _ (List.mem_flatMap.2 ⟨c, h, mem⟩)

theorem walk_length_lt_of_mem_children {e c : Expr} (h : c ∈ e.children) :
    c.walk.length < e.walk.length := by
  have he : e ≠ absent := by
    rintro rfl
    cases h
  obtain ⟨before, after, split⟩ := List.append_of_mem h
  rw [walk_eq_cons he, split, List.flatMap_append, List.flatMap_cons]
  simp only [List.length_cons, List.length_append]
  omega

/-- What holds of an expression whenever it holds of its children holds of every expression. -/
theorem children_induction {motive : Expr → Prop}
    (step : ∀ e, (∀ c ∈ e.children, motive c) → motive e) (e : Expr) : motive e :=
  step e fun c _ => children_induction step c
termination_by e.walk.length
decreasing_by exact walk_length_lt_of_mem_children ‹_›

/-- The same with what stands below the children at hand: the elements of a list are written for the
test that the list is in. -/
theorem grandchildren_induction {motive : Expr → Prop}
    (step : ∀ e, (∀ c ∈ e.children, motive c) → (∀ c ∈ e.children, ∀ d ∈ c.children, motive d) →
      motive e) (e : Expr) : motive e := by
  suffices both : motive e ∧ ∀ c ∈ e.children, motive c from both.1
  induction e using children_induction with
  | step e ih =>
    have below (c : Expr) (hc : c ∈ e.children) : motive c := (ih c hc).1
    exact ⟨step e below fun c hc => (ih c hc).2, below⟩

end Expr

end FluentQuery
