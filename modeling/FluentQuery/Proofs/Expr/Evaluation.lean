import FluentQuery.Proofs.Expr.Replace

/-!
# Compositional evaluation

An evaluation gives every expression a value on a row.  All that is asked of it is that it is
compositional: the value of a node depends on its shape and on the values of its children, and only
columns look at the row.  Main statements: `Evaluation.value_replace`, that replacing columns by
expressions is the same as evaluating on the row in which they have the values of these expressions,
and `guarantees_iff`, which conditions on a row guarantee another after assignments to it.
-/

namespace FluentQuery

set_option autoImplicit false

namespace Expr

/-- A node without what stands below it. -/
def shape (e : Expr) : Expr :=
  e.withChildren (e.children.map fun _ => absent)

theorem shape_withChildren {e : Expr} {es : List Expr} (h : es.length = e.children.length) :
    (e.withChildren es).shape = e.shape := by
  rw [shape, shape, children_withChildren e es h,
    withChildren_withChildren e es _ h (by simpa using h), List.map_const', List.map_const', h]

/-- A node that looks at the row itself. -/
def looksAtRow : Expr → Bool
  | column _ _ _ | booleanColumn _ _ _ | excludedColumn _ | reference _ _ | allColumns => true
  | _ => false

/-- A node that looks at the row names a column of it, as `row.column` does. -/
def IsDirect : Expr → Prop
  | column _ table source => table = "" ∧ source = none
  | booleanColumn _ table source => table = "" ∧ source = none
  | excludedColumn _ | reference _ _ | allColumns => False
  | _ => True

/-- The parts of a conjunction. -/
def conjuncts : Expr → List Expr
  | logical .and l r => conjuncts l ++ conjuncts r
  | e => [e]

theorem looksAtRow_node {e : Expr} (h : e.children ≠ []) : e.looksAtRow = false := by
  cases e with
  | column | booleanColumn | excludedColumn | reference | allColumns => exact absurd rfl h
  | _ => rfl

end Expr

/-- A compositional evaluation of expressions on rows, and which values count as true. -/
structure Evaluation (V : Type) where
  value : (String → V) → Expr → V
  holds : V → Prop
  column : ∀ row name, value row (.column name "" none) = row name
  booleanColumn : ∀ row name, value row (.booleanColumn name "" none) = row name
  compositional : ∀ row row' e e', e.looksAtRow = false → e.shape = e'.shape →
    e.children.map (value row) = e'.children.map (value row') → value row e = value row' e'
  holds_and : ∀ row l r,
    holds (value row (.logical .and l r)) ↔ holds (value row l) ∧ holds (value row r)

namespace Evaluation

open FluentQuery.Expr

variable {V : Type} (E : Evaluation V)

/-- A conjunction that holds has no part that does not. -/
theorem holds_of_conj_left {row : String → V} {l r : Expr} (present : l ≠ absent)
    (h : E.holds (E.value row (conj l r))) : E.holds (E.value row l) := by
  by_cases absent : r = absent
  · subst absent
    rwa [conj_absent_right] at h
  · rw [conj_eq_and present absent] at h
    exact ((E.holds_and row l r).1 h).1

theorem holds_of_conj_right {row : String → V} {l r : Expr} (present : r ≠ absent)
    (h : E.holds (E.value row (conj l r))) : E.holds (E.value row r) := by
  by_cases absent : l = absent
  · subst absent
    rwa [conj_absent_left] at h
  · rw [conj_eq_and absent present] at h
    exact ((E.holds_and row l r).1 h).2

theorem holds_iff_conjuncts (row : String → V) (e : Expr) :
    E.holds (E.value row e) ↔ ∀ c ∈ e.conjuncts, E.holds (E.value row c) := by
  fun_induction conjuncts e with
  | case1 l r ihl ihr => rw [E.holds_and, ihl, ihr, List.forall_mem_append]
  | case2 e => simp

/-- What does not look at the row has the same value on every row. -/
theorem value_of_blind {e : Expr} (row row' : String → V) (blind : e.looksAtRow = false)
    (leaf : e.children = []) : E.value row e = E.value row' e :=
  E.compositional row row' e e blind rfl (by rw [leaf]; rfl)

/-- Replacing leaves is evaluating on another row, if it is so at every leaf. -/
theorem value_replace {g : Expr → Option Expr} (hg : OnLeaves g) {row row' : String → V} (e : Expr)
    (h : ∀ n ∈ e.leaves, E.value row ((g n).getD n) = E.value row' n) :
    E.value row (replace g e) = E.value row' e := by
  induction e using children_induction with
  | step e ih =>
    by_cases habs : e = absent
    · subst habs
      exact E.value_of_blind row row' rfl rfl
    by_cases leaf : e.children = []
    · rw [replace_leaf g habs leaf]
      exact h e (by simp [leaves_leaf habs leaf])
    · have length : (e.children.map (replace g)).length = e.children.length := List.length_map _
      have below : (e.withChildren (e.children.map (replace g))).children =
          e.children.map (replace g) := children_withChildren _ _ length
      rw [replace_node hg leaf]
      refine E.compositional row row' _ e (looksAtRow_node (by simpa [below] using leaf))
        (shape_withChildren length) ?_
      rw [below, List.map_map]
      refine List.map_congr_left fun c hc => ih c hc fun n hn => h n ?_
      rw [leaves_node leaf]
      exact List.mem_flatMap.2 ⟨c, hc, hn⟩

/-- The row after assignments: what is assigned has the value it has on the row before. -/
def after (row : String → V) (values : Assoc Expr) (name : String) : V :=
  match values.find? name with
  | some e => E.value row e
  | none => row name

/-! ### Interpretations -/

/-- What a column is replaced by when it is read from a row of expressions. -/
def readRow (row : String → Expr) : Expr → Option Expr
  | .column name table source => if table = "" ∧ source = none then some (row name) else none
  | .booleanColumn name table source =>
    if table = "" ∧ source = none then some (row name) else none
  | _ => none

theorem onLeaves_readRow (row : String → Expr) : OnLeaves (readRow row) := by
  intro node h
  cases node with
  | column | booleanColumn => exact absurd rfl h
  | _ => rfl

theorem replace_readRow_blind (row : String → Expr) {e : Expr} (blind : e.looksAtRow = false)
    (leaf : e.children = []) : replace (readRow row) e = e := by
  refine replace_eq_self (onLeaves_readRow row) e fun n hn => ?_
  rw [eq_of_mem_leaves leaf hn]
  cases e with
  | column | booleanColumn => cases blind
  | _ => rfl

/-- A leaf is its own shape. -/
theorem shape_leaf {e : Expr} (leaf : e.children = []) : e.shape = e := by
  rw [shape, leaf, List.map_nil, ← leaf, withChildren_children]

theorem shape_fill (e : Expr) {es : List Expr} (h : es.length = e.children.length) :
    e.shape.withChildren es = e.withChildren es :=
  withChildren_withChildren e _ es (List.length_map _) h

/-- The meaning of nodes depends on the meaning of what stands below them. -/
def Respects (meaning : Expr → V) : Prop :=
  ∀ (e : Expr) (es es' : List Expr), es.length = e.children.length →
    es'.length = e.children.length → es.map meaning = es'.map meaning →
    meaning (e.withChildren es) = meaning (e.withChildren es')

theorem Respects.replace_readRow {meaning : Expr → V} (respects : Respects meaning)
    (row row' : String → Expr) (e e' : Expr) (blind : e.looksAtRow = false)
    (hshape : e.shape = e'.shape)
    (below : e.children.map (fun c => meaning (replace (readRow row) c)) =
      e'.children.map (fun c => meaning (replace (readRow row') c))) :
    meaning (replace (readRow row) e) = meaning (replace (readRow row') e') := by
  have length : e.children.length = e'.children.length := by
    simpa using congrArg List.length below
  by_cases leaf : e.children = []
  · have leaf' : e'.children = [] := by
      rw [← List.length_eq_zero_iff, ← length, leaf, List.length_nil]
    rw [shape_leaf leaf, shape_leaf leaf'] at hshape
    subst hshape
    rw [replace_readRow_blind row blind leaf, replace_readRow_blind row' blind leaf]
  · have leaf' : e'.children ≠ [] := by
      rwa [ne_eq, ← List.length_eq_zero_iff, ← length, List.length_eq_zero_iff]
    rw [replace_node (onLeaves_readRow row) leaf, replace_node (onLeaves_readRow row') leaf',
      ← shape_fill e' (List.length_map _), ← hshape,
      shape_fill e ((List.length_map _).trans length.symm)]
    refine respects e _ _ (List.length_map _) ((List.length_map _).trans length.symm) ?_
    rw [List.map_map, List.map_map]
    exact below

/-- An interpretation of expressions that respects equal values below a node is an evaluation: the
values of a row are put in the place of its columns.  `quote` writes a value as an expression. -/
def ofMeaning (meaning : Expr → V) (quote : V → Expr) (holds : V → Prop)
    (meaning_quote : ∀ v, meaning (quote v) = v) (respects : Respects meaning)
    (holds_and : ∀ l r, holds (meaning (.logical .and l r)) ↔ holds (meaning l) ∧ holds (meaning r)) :
    Evaluation V where
  value row e := meaning (replace (readRow fun name => quote (row name)) e)
  holds := holds
  column row name := meaning_quote (row name)
  booleanColumn row name := meaning_quote (row name)
  holds_and _ _ _ := holds_and _ _
  compositional _ _ e e' blind hshape below :=
    respects.replace_readRow _ _ e e' blind hshape below

/-- Expressions may stand for themselves; then a conjunction holds if its parts are facts. -/
def syntactic (facts : Expr → Prop) : Evaluation Expr :=
  ofMeaning id id (fun v => ∀ c ∈ v.conjuncts, facts c) (fun _ => rfl) (fun e es es' _ _ h => by
    rw [List.map_id, List.map_id] at h
    rw [h]) (fun l r => by rw [id_eq, conjuncts, List.forall_mem_append, id_eq, id_eq])

/-- Logic on truth values; parameters have the values that are given, and whatever is neither true nor
false counts as false. -/
def truth (params : String → Bool) : Expr → Bool
  | .booleanConstant value => value
  | .param name _ _ => params name
  | .booleanParam name _ => params name
  | .comparison .eq l r => truth params l == truth params r
  | .comparison .neq l r => truth params l != truth params r
  | .logical .and l r => truth params l && truth params r
  | .logical .or l r => truth params l || truth params r
  | .negation e => !truth params e
  | _ => false

theorem respects_truth (params : String → Bool) : Respects (truth params) := by
  intro e es es' h h' same
  cases e with
  | comparison op l r =>
    obtain ⟨x, y, rfl⟩ := List.length_eq_two.1 h
    obtain ⟨x', y', rfl⟩ := List.length_eq_two.1 h'
    simp only [List.map_cons, List.map_nil, List.cons.injEq, and_true] at same
    cases op <;> simp [withChildren, truth, same]
  | logical op l r =>
    obtain ⟨x, y, rfl⟩ := List.length_eq_two.1 h
    obtain ⟨x', y', rfl⟩ := List.length_eq_two.1 h'
    simp only [List.map_cons, List.map_nil, List.cons.injEq, and_true] at same
    cases op <;> simp [withChildren, truth, same]
  | negation e =>
    obtain ⟨x, rfl⟩ := List.length_eq_one_iff.1 h
    obtain ⟨x', rfl⟩ := List.length_eq_one_iff.1 h'
    simp only [List.map_cons, List.map_nil, List.cons.injEq, and_true] at same
    simp [withChildren, truth, same]
  | textTest =>
    obtain ⟨x, xs, rfl⟩ := List.exists_cons_of_length_eq_add_one h
    obtain ⟨x', xs', rfl⟩ := List.exists_cons_of_length_eq_add_one h'
    simp [withChildren, truth]
  | arithmetic | concat | caseInsensitive | membership =>
    obtain ⟨x, y, rfl⟩ := List.length_eq_two.1 h
    obtain ⟨x', y', rfl⟩ := List.length_eq_two.1 h'
    simp [withChildren, truth]
  | stringMethod | aggregate | isNull =>
    obtain ⟨x, rfl⟩ := List.length_eq_one_iff.1 h
    obtain ⟨x', rfl⟩ := List.length_eq_one_iff.1 h'
    simp [withChildren, truth]
  | _ => simp [withChildren, truth]

/-- Evaluation on rows of truth values. -/
def boolean (params : String → Bool) : Evaluation Bool :=
  ofMeaning (truth params) .booleanConstant (fun b => b = true) (fun _ => by simp [truth])
    (respects_truth params) (by simp [truth])

/-! ### Conditions on a row and on the row after assignments -/

/-- The row of which nothing is known: its columns are themselves. -/
def openRow (name : String) : Expr :=
  .column name "" none

/-- An expression in which flags are written as columns. -/
def normal (e : Expr) : Expr :=
  replace (readRow openRow) e

/-- An expression about the row after assignments, written as one about the row before. -/
def afterwards (values : Assoc Expr) (e : Expr) : Expr :=
  replace (readRow fun name => normal ((values.find? name).getD (openRow name))) e

/-- Reading columns as expressions is evaluating on the row of their values. -/
theorem value_readRow {row row' : String → V} {read : String → Expr}
    (values : ∀ name, E.value row (read name) = row' name) {e : Expr}
    (direct : row = row' ∨ e.Every IsDirect) :
    E.value row (replace (readRow read) e) = E.value row' e := by
  refine E.value_replace (onLeaves_readRow read) e fun n hn => ?_
  obtain ⟨hwalk, leaf⟩ := mem_leaves.1 hn
  cases n with
  | column name table source =>
    by_cases hdirect : table = "" ∧ source = none
    · rw [readRow, if_pos hdirect, Option.getD_some, values name]
      obtain ⟨rfl, rfl⟩ := hdirect
      exact (E.column row' name).symm
    · rw [readRow, if_neg hdirect, Option.getD_none]
      rcases direct with rfl | every
      · rfl
      · exact absurd (every _ hwalk) hdirect
  | booleanColumn name table source =>
    by_cases hdirect : table = "" ∧ source = none
    · rw [readRow, if_pos hdirect, Option.getD_some, values name]
      obtain ⟨rfl, rfl⟩ := hdirect
      exact (E.booleanColumn row' name).symm
    · rw [readRow, if_neg hdirect, Option.getD_none]
      rcases direct with rfl | every
      · rfl
      · exact absurd (every _ hwalk) hdirect
  | excludedColumn | reference | allColumns =>
    rcases direct with rfl | every
    · rfl
    · exact (every _ hwalk).elim
  | _ => exact E.value_of_blind row row' rfl leaf

theorem value_normal (row : String → V) (e : Expr) :
    E.value row (normal e) = E.value row e :=
  E.value_readRow (fun name => E.column row name) (.inl rfl)

theorem value_afterwards (row : String → V) (values : Assoc Expr) {e : Expr}
    (direct : e.Every IsDirect) :
    E.value row (afterwards values e) = E.value (E.after row values) e := by
  refine E.value_readRow (fun name => ?_) (.inr direct)
  rw [value_normal, after]
  cases values.find? name with
  | some value => rfl
  | none => exact E.column row name

theorem syntactic_value_after (facts : Expr → Prop) (values : Assoc Expr) (e : Expr) :
    (syntactic facts).value ((syntactic facts).after openRow values) e = afterwards values e := by
  have row : (syntactic facts).after openRow values =
      fun name => normal ((values.find? name).getD (openRow name)) := by
    funext name
    unfold after
    split
    · rename_i value hvalue
      rw [hvalue]
      rfl
    · rename_i hnone
      rw [hnone]
      rfl
  rw [row]
  rfl

end Evaluation

open FluentQuery.Expr Evaluation

/-- Where a condition holds, another holds after assignments, whatever expressions mean. -/
def Guarantees (values : Assoc Expr) (condition e : Expr) : Prop :=
  ∀ (V : Type) (E : Evaluation V) row, E.holds (E.value row condition) →
    E.holds (E.value (E.after row values) e)

/-- What a condition guarantees about the row after assignments are its own parts. -/
theorem guarantees_iff {values : Assoc Expr} {condition e : Expr} (direct : e.Every IsDirect) :
    Guarantees values condition e ↔
      ∀ c ∈ (afterwards values e).conjuncts, c ∈ (normal condition).conjuncts := by
  constructor
  · intro guarantees
    -- Let nothing hold but the parts of the condition, on the row whose columns are themselves.
    have holds := guarantees Expr (syntactic fun c => c ∈ (normal condition).conjuncts) openRow
      fun c hc => hc
    rw [syntactic_value_after] at holds
    exact holds
  · intro parts V E row h
    rw [← E.value_afterwards row values direct, E.holds_iff_conjuncts]
    rw [← E.value_normal, E.holds_iff_conjuncts] at h
    exact fun c hc => h c (parts c hc)

end FluentQuery
