import FluentQuery.Proofs.Expr.Children

/-!
# Properties of all nodes of an expression

`Expr.Every p e` says that every node of `e` has the property `p`.  The lemmas reduce it to the node
itself and its children, one for each kind of node.
-/

namespace FluentQuery

set_option autoImplicit false

namespace Expr

/-- Every node of an expression has a property; empty slots are no nodes. -/
def Every (p : Expr → Prop) (e : Expr) : Prop :=
  ∀ node ∈ e.walk, p node

variable {p : Expr → Prop}

/-- A weaker property holds of all nodes as well. -/
theorem Every.mono {q : Expr → Prop} {e : Expr} (h : Every p e) (imp : ∀ node, p node → q node) :
    Every q e :=
  fun node hn => imp node (h node hn)

/-- What holds of all nodes of an expression holds of those of its operands. -/
theorem Every.child {e c : Expr} (h : Every p e) (mem : c ∈ e.children) : Every p c :=
  fun node below => h node (mem_walk_of_mem_children mem below)

/-- A node is walked before what stands below it. -/
theorem every_iff_of_walk {e : Expr} {below : List Expr} (h : e.walk = e :: below) :
    Every p e ↔ p e ∧ ∀ node ∈ below, p node := by
  unfold Every
  rw [h]
  exact List.forall_mem_cons

/-- A node without operands is alone. -/
theorem every_leaf {e : Expr} (h : e.walk = [e]) : Every p e ↔ p e := by
  rw [every_iff_of_walk h]
  simp

/-- A node with two operands. -/
theorem every_pair {e l r : Expr} (h : e.walk = e :: (l.walk ++ r.walk)) :
    Every p e ↔ p e ∧ Every p l ∧ Every p r := by
  rw [every_iff_of_walk h, List.forall_mem_append]
  rfl

/-! ### Lists of children -/

/-- The nodes of several operands are those of each of them. -/
theorem forall_walkList {es : List Expr} :
    (∀ node ∈ walkList es, p node) ↔ ∀ e ∈ es, Every p e := by
  induction es with
  | nil => simp [walkList]
  | cons e rest ih =>
    rw [walkList, List.forall_mem_append, ih, List.forall_mem_cons]
    rfl

/-- The nodes of the conditions and results of a case. -/
theorem forall_walkConditions {cs : List (Expr × Expr)} :
    (∀ node ∈ walkConditions cs, p node) ↔ ∀ c ∈ cs, Every p c.1 ∧ Every p c.2 := by
  induction cs with
  | nil => simp [walkConditions]
  | cons c rest ih =>
    rw [walkConditions, List.forall_mem_append, List.forall_mem_append, ih, List.forall_mem_cons]
    rfl

/-- The nodes of the keys of a window, whose directions are no nodes. -/
theorem forall_walkOrders {os : List (Expr × Bool)} :
    (∀ node ∈ walkOrders os, p node) ↔ ∀ o ∈ os, Every p o.1 := by
  induction os with
  | nil => simp [walkOrders]
  | cons o rest ih =>
    rw [walkOrders, List.forall_mem_append, ih, List.forall_mem_cons]
    rfl

/-- The nodes of the members of an object, whose names are no nodes. -/
theorem forall_walkProperties {ps : List (String × Expr)} :
    (∀ node ∈ walkProperties ps, p node) ↔ ∀ m ∈ ps, Every p m.2 := by
  induction ps with
  | nil => simp [walkProperties]
  | cons m rest ih =>
    rw [walkProperties, List.forall_mem_append, ih, List.forall_mem_cons]
    rfl

/-! ### Nodes without children -/

/-- A missing operand has no nodes. -/
@[simp] theorem every_absent : Every p absent :=
  List.forall_mem_nil p

@[simp] theorem every_column (name table : String) (source : Option ColumnSource) :
    Every p (column name table source) ↔ p (column name table source) :=
  every_leaf rfl

@[simp] theorem every_excludedColumn (name : String) :
    Every p (excludedColumn name) ↔ p (excludedColumn name) :=
  every_leaf rfl

@[simp] theorem every_constant (value : Json) :
    Every p (constant value) ↔ p (constant value) :=
  every_leaf rfl

/-- A parameter is a node of its own, with its path and index. -/
@[simp] theorem every_param (root property : String) (index : Option Int) :
    Every p (param root property index) ↔ p (param root property index) :=
  every_leaf rfl

@[simp] theorem every_reference (source : Option ColumnSource) (table : String) :
    Every p (reference source table) ↔ p (reference source table) :=
  every_leaf rfl

@[simp] theorem every_allColumns :
    Every p allColumns ↔ p allColumns :=
  every_leaf rfl

@[simp] theorem every_booleanConstant (value : Bool) :
    Every p (booleanConstant value) ↔ p (booleanConstant value) :=
  every_leaf rfl

@[simp] theorem every_booleanColumn (name table : String) (source : Option ColumnSource) :
    Every p (booleanColumn name table source) ↔ p (booleanColumn name table source) :=
  every_leaf rfl

@[simp] theorem every_booleanParam (root property : String) :
    Every p (booleanParam root property) ↔ p (booleanParam root property) :=
  every_leaf rfl

/-! ### Nodes with children -/

@[simp] theorem every_stringMethod (method : StringMethod) (e : Expr) :
    Every p (stringMethod method e) ↔ p (stringMethod method e) ∧ Every p e :=
  every_iff_of_walk rfl

@[simp] theorem every_aggregate (function : AggregateFunction) (e : Expr) :
    Every p (aggregate function e) ↔ p (aggregate function e) ∧ Every p e :=
  every_iff_of_walk rfl

/-- A condition that is negated is all there is below the node. -/
@[simp] theorem every_negation (e : Expr) :
    Every p (negation e) ↔ p (negation e) ∧ Every p e :=
  every_iff_of_walk rfl

@[simp] theorem every_isNull (e : Expr) (negated : Bool) :
    Every p (isNull e negated) ↔ p (isNull e negated) ∧ Every p e :=
  every_iff_of_walk rfl

@[simp] theorem every_arithmetic (op : ArithmeticOp) (l r : Expr) :
    Every p (arithmetic op l r) ↔ p (arithmetic op l r) ∧ Every p l ∧ Every p r :=
  every_pair rfl

@[simp] theorem every_concat (l r : Expr) :
    Every p (concat l r) ↔ p (concat l r) ∧ Every p l ∧ Every p r :=
  every_pair rfl

/-- Both sides of a comparison are walked. -/
@[simp] theorem every_comparison (op : ComparisonOp) (l r : Expr) :
    Every p (comparison op l r) ↔ p (comparison op l r) ∧ Every p l ∧ Every p r :=
  every_pair rfl

@[simp] theorem every_logical (op : LogicalOp) (l r : Expr) :
    Every p (logical op l r) ↔ p (logical op l r) ∧ Every p l ∧ Every p r :=
  every_pair rfl

@[simp] theorem every_caseInsensitive (function : CaseInsensitiveTest) (l r : Expr) :
    Every p (caseInsensitive function l r) ↔ p (caseInsensitive function l r) ∧ Every p l ∧ Every p r :=
  every_pair rfl

/-- The list of a membership test is a node as well, and its items are below that. -/
@[simp] theorem every_membership (value list : Expr) :
    Every p (membership value list) ↔ p (membership value list) ∧ Every p value ∧ Every p list :=
  every_pair rfl

/-- Conditions and results are walked pair by pair, then the result that is left. -/
@[simp] theorem every_caseWhen (conditions : List (Expr × Expr)) (e : Expr) :
    Every p (caseWhen conditions e) ↔
      p (caseWhen conditions e) ∧ (∀ c ∈ conditions, Every p c.1 ∧ Every p c.2) ∧ Every p e := by
  rw [every_iff_of_walk (e := caseWhen conditions e) rfl, List.forall_mem_append,
    forall_walkConditions]
  rfl

/-- Alternatives are walked in order. -/
@[simp] theorem every_coalesce (es : List Expr) :
    Every p (coalesce es) ↔ p (coalesce es) ∧ ∀ e ∈ es, Every p e := by
  rw [every_iff_of_walk (e := coalesce es) rfl, forall_walkList]

/-- A window is walked through its groups and through the keys it is ordered by. -/
@[simp] theorem every_window (function : WindowFunction) (partitionBy : List Expr)
    (orderBy : List (Expr × Bool)) :
    Every p (window function partitionBy orderBy) ↔
      p (window function partitionBy orderBy) ∧
        (∀ e ∈ partitionBy, Every p e) ∧ ∀ o ∈ orderBy, Every p o.1 := by
  rw [every_iff_of_walk (e := window function partitionBy orderBy) rfl, List.forall_mem_append,
    forall_walkList, forall_walkOrders]

/-- The arguments of a test are walked after the text that it is about. -/
@[simp] theorem every_textTest (method : TextTest) (e : Expr) (arguments : List Expr) :
    Every p (textTest method e arguments) ↔
      p (textTest method e arguments) ∧ Every p e ∧ ∀ a ∈ arguments, Every p a := by
  rw [every_iff_of_walk (e := textTest method e arguments) rfl, List.forall_mem_append,
    forall_walkList]
  rfl

/-- An object is walked through its members. -/
@[simp] theorem every_object (properties : List (String × Expr)) :
    Every p (object properties) ↔ p (object properties) ∧ ∀ m ∈ properties, Every p m.2 := by
  rw [every_iff_of_walk (e := object properties) rfl, forall_walkProperties]

/-- A list is walked through its items. -/
@[simp] theorem every_array (es : List Expr) :
    Every p (array es) ↔ p (array es) ∧ ∀ e ∈ es, Every p e := by
  rw [every_iff_of_walk (e := array es) rfl, forall_walkList]

/-- A conjunction has a property if its parts have it. -/
theorem every_conj {l r : Expr} (and : ∀ l r, p (logical .and l r)) (hl : Every p l) (hr : Every p r) :
    Every p (l.conj r) := by
  by_cases left : l = .absent
  · rw [left, conj_absent_left]
    exact hr
  by_cases right : r = .absent
  · rw [right, conj_absent_right]
    exact hl
  · rw [conj_eq_and left right]
    exact (every_logical _ _ _).2 ⟨and l r, hl, hr⟩

end Expr

end FluentQuery
