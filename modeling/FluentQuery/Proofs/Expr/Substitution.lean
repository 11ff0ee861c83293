import Mathlib.Data.List.Perm.Basic
import FluentQuery.Proofs.Expr.Evaluation

/-!
# Replacing as substitution

Replacing offers nodes one after another, each with whatever its children have become.  If only
leaves are replaced, none of this shows: the result is that of substituting all leaves at once, and
the nodes that are offered are those of the expression itself, children before parents, whatever
the replacements contain.  Main statement: `Expr.replaceTrace_substitute`.
-/

namespace FluentQuery

set_option autoImplicit false

namespace Expr

/-- A leaf has nothing below it; its slots, if it has any, are empty. -/
def isLeaf (e : Expr) : Bool :=
  e.children.all isAbsent

/-- The nodes of an expression, each after those below it. -/
def postOrder (e : Expr) : List Expr :=
  if e.isAbsent then [] else e.children.attach.flatMap (fun c => postOrder c.1) ++ [e]
termination_by e.walk.length
decreasing_by exact walk_length_lt_of_mem_children c.2

/-- The expression with the leaves substituted that `g` has a replacement for. -/
def substitute (g : Expr → Option Expr) (e : Expr) : Expr :=
  if e.isAbsent then e
  else if e.isLeaf then (g e).getD e
  else e.withChildren (e.children.attach.map fun c => substitute g c.1)
termination_by e.walk.length
decreasing_by exact walk_length_lt_of_mem_children c.2

/-- The form in which a node of an expression is offered: a leaf as it is, another node with the
leaves below it substituted. -/
def offered (g : Expr → Option Expr) (node : Expr) : Expr :=
  if node.isLeaf then node else node.substitute g

/-- Nothing but leaves is replaced, and what replaces a leaf is an expression. -/
def ReplacesLeaves (g : Expr → Option Expr) : Prop :=
  ∀ node r, g node = some r → node.isLeaf = true ∧ r ≠ absent

/-! ### Nodes and what stands below them -/

theorem isAbsent_eq_true {e : Expr} : e.isAbsent = true ↔ e = absent := by
  cases e <;> simp [isAbsent]

theorem withChildren_ne_absent {e : Expr} (h : e ≠ absent) (es : List Expr) :
    e.withChildren es ≠ absent := by
  unfold withChildren
  split
  all_goals first | exact h | simp

theorem children_of_isLeaf {e c : Expr} (leaf : e.isLeaf = true) (hc : c ∈ e.children) :
    c = absent := by
  rw [isLeaf, List.all_eq_true] at leaf
  exact isAbsent_eq_true.1 (leaf c hc)

@[simp] theorem postOrder_absent : postOrder absent = [] := by
  rw [postOrder]
  rfl

theorem postOrder_eq_append {e : Expr} (h : e ≠ absent) :
    e.postOrder = e.children.flatMap postOrder ++ [e] := by
  rw [postOrder, if_neg (mt isAbsent_eq_true.1 h), List.flatMap_subtype, List.unattach_attach]
  intro c hc
  rfl

@[simp] theorem substitute_absent (g : Expr → Option Expr) : substitute g absent = absent := by
  rw [substitute]
  rfl

theorem substitute_leaf (g : Expr → Option Expr) {e : Expr} (h : e ≠ absent)
    (leaf : e.isLeaf = true) : e.substitute g = (g e).getD e := by
  rw [substitute, if_neg (mt isAbsent_eq_true.1 h), if_pos leaf]

theorem substitute_node (g : Expr → Option Expr) {e : Expr} (inner : e.isLeaf = false) :
    e.substitute g = e.withChildren (e.children.map (substitute g)) := by
  have present : e ≠ absent := by
    rintro rfl
    cases inner
  rw [substitute, if_neg (mt isAbsent_eq_true.1 present), if_neg (by simp [inner])]
  simp

/-- Post-order lists the nodes that walking lists. -/
theorem postOrder_perm_walk (e : Expr) : e.postOrder.Perm e.walk := by
  induction e using children_induction with
  | step e ih =>
    by_cases h : e = absent
    · subst h
      rw [postOrder_absent]
      exact .refl _
    · rw [postOrder_eq_append h, walk_eq_cons h]
      have below : (e.children.flatMap postOrder).Perm (e.children.flatMap walk) :=
        List.Perm.flatMap_left _ ih
      exact (below.append_right [e]).trans (List.perm_append_singleton e _)

/-! ### Substituting -/

section

variable {g : Expr → Option Expr}

theorem substitute_ne_absent (hg : ReplacesLeaves g) {e : Expr} (h : e ≠ absent) :
    e.substitute g ≠ absent := by
  cases leaf : e.isLeaf with
  | true =>
    rw [substitute_leaf g h leaf]
    cases replaced : g e with
    | none => exact h
    | some r => exact (hg e r replaced).2
  | false =>
    rw [substitute_node g leaf]
    exact withChildren_ne_absent h _

/-- What stands below a leaf stays as it is. -/
theorem map_substitute_of_isLeaf {e : Expr} (leaf : e.isLeaf = true) :
    e.children.map (substitute g) = e.children := by
  refine (List.map_congr_left fun c hc => ?_).trans (List.map_id' _)
  rw [children_of_isLeaf leaf hc, substitute_absent]

/-- A node that is not a leaf does not become one. -/
theorem isLeaf_substitute (hg : ReplacesLeaves g) {e : Expr} (inner : e.isLeaf = false) :
    (e.withChildren (e.children.map (substitute g))).isLeaf = false := by
  rw [isLeaf, List.all_eq_false] at inner
  obtain ⟨c, hc, present⟩ := inner
  have kept : c.substitute g ≠ absent :=
    substitute_ne_absent hg (mt isAbsent_eq_true.2 present)
  rw [isLeaf, List.all_eq_false, children_withChildren e _ (List.length_map _)]
  exact ⟨_, List.mem_map_of_mem hc, mt isAbsent_eq_true.1 kept⟩

/-- What is offered for a node is the node with the leaves below it substituted, and what becomes of
it then is what substitution gives. -/
theorem offered_eq (hg : ReplacesLeaves g) {e : Expr} (h : e ≠ absent) :
    e.withChildren (e.children.map (substitute g)) = offered g e ∧
      (g (offered g e)).getD (offered g e) = e.substitute g := by
  cases leaf : e.isLeaf with
  | true =>
    have same : offered g e = e := if_pos leaf
    constructor
    · rw [map_substitute_of_isLeaf leaf, withChildren_children, same]
    · rw [same, substitute_leaf g h leaf]
  | false =>
    have below : offered g e = e.withChildren (e.children.map (substitute g)) := by
      rw [offered, if_neg (by simp [leaf]), substitute_node g leaf]
    constructor
    · exact below.symm
    · have unreplaced : g (offered g e) = none := by
        rw [Option.eq_none_iff_forall_ne_some]
        intro r replaced
        have stays := isLeaf_substitute hg leaf
        rw [← below, (hg _ r replaced).1] at stays
        cases stays
      rw [unreplaced, Option.getD_none, below, substitute_node g leaf]

/-- Substituting nothing changes nothing. -/
theorem substitute_none (e : Expr) : e.substitute (fun _ => none) = e := by
  induction e using children_induction with
  | step e ih =>
    by_cases h : e = absent
    · subst h
      exact substitute_absent _
    cases leaf : e.isLeaf with
    | true => rw [substitute_leaf _ h leaf, Option.getD_none]
    | false =>
      have same : e.children.map (substitute fun _ => none) = e.children :=
        (List.map_congr_left ih).trans (List.map_id' _)
      rw [substitute_node _ leaf, same, withChildren_children]

theorem offered_none (node : Expr) : offered (fun _ => none) node = node := by
  rw [offered, substitute_none, ite_self]

end

/-- Replacements of nodes without children replace leaves. -/
theorem OnLeaves.replacesLeaves {g : Expr → Option Expr} (hg : OnLeaves g)
    (present : ∀ node r, g node = some r → r ≠ absent) : ReplacesLeaves g := by
  intro node r replaced
  constructor
  · by_cases leaf : node.children = []
    · rw [isLeaf, leaf, List.all_nil]
    · rw [hg node leaf] at replaced
      cases replaced
  · exact present node r replaced

/-- Reading columns from a row of expressions replaces leaves. -/
theorem replacesLeaves_readRow {row : String → Expr} (present : ∀ name, row name ≠ absent) :
    ReplacesLeaves (Evaluation.readRow row) := by
  apply (Evaluation.onLeaves_readRow row).replacesLeaves
  intro node r replaced
  unfold Evaluation.readRow at replaced
  split at replaced
  · obtain ⟨-, read⟩ := Option.ite_none_right_eq_some.1 replaced
    cases read
    exact present _
  · obtain ⟨-, read⟩ := Option.ite_none_right_eq_some.1 replaced
    cases read
    exact present _
  · cases replaced

/-! ### The order in which nodes are offered -/

section

variable {m : Type → Type} [Monad m] [LawfulMonad m] (act : Expr → m Unit)

/-- Work on several expressions, each of which acts on some nodes, acts on all of them in a row. -/
theorem mapM_eq_forM {work : Expr → m Expr} {nodes : Expr → List Expr} {result : Expr → Expr}
    {es : List Expr} (h : ∀ e ∈ es, work e = do (nodes e).forM act; return result e) :
    es.mapM work = do (es.flatMap nodes).forM act; return es.map result := by
  induction es with
  | nil => simp
  | cons e rest ih =>
    rw [List.mapM_cons, h e (List.mem_cons_self ..), ih fun c hc => h c (List.mem_cons_of_mem _ hc)]
    simp [List.flatMap_cons, List.forM_append]

/-- Replacing leaves acts on each node once, in post-order, and never on a node of a replacement. -/
theorem replaceM_eq_forM {g : Expr → Option Expr} (hg : ReplacesLeaves g) (e : Expr) :
    replaceM (fun node => do act node; return g node) e =
      do (e.postOrder.map (offered g)).forM act; return e.substitute g := by
  induction e using children_induction with
  | step e ih =>
    by_cases h : e = absent
    · subst h
      simp [replaceM]
    obtain ⟨shown, becomes⟩ := offered_eq hg h
    rw [replaceM_eq_bind _ h, mapM_eq_forM act ih, postOrder_eq_append h]
    simp [offer, shown, becomes, List.forM_append, List.map_flatMap]

end

/-- Puts a node in front of those recorded before it. -/
def record (node : Expr) : StateM (List Expr) Unit :=
  modify (node :: ·)

theorem run_record (nodes log : List Expr) :
    StateT.run (nodes.forM record) log = ((), nodes.reverse ++ log) := by
  induction nodes generalizing log with
  | nil => rfl
  | cons node rest ih =>
    show StateT.run (rest.forM record) (node :: log) = _
    rw [ih, List.reverse_cons, List.append_assoc]
    rfl

/-- Replacing leaves without effects is substituting them. -/
theorem replace_eq_substitute {g : Expr → Option Expr} (hg : ReplacesLeaves g) (e : Expr) :
    replace g e = e.substitute g := by
  have run := congrArg Id.run (replaceM_eq_forM (fun _ => (pure () : Id Unit)) hg e)
  rw [Id.run_bind, Id.run_pure] at run
  exact run

/-- Replacing is simultaneous substitution.  If nothing is replaced, the nodes are offered in
post-order and the expression is the result; if leaves are replaced, those leaves are substituted,
and each node of the expression is offered once, with the leaves below it substituted. -/
theorem replaceTrace_substitute (e : Expr) :
    e.postOrder.Perm e.walk ∧
    replaceTrace (fun _ => none) e = (e.postOrder, e) ∧
    ∀ g, ReplacesLeaves g →
      replaceTrace g e = (e.postOrder.map (offered g), e.substitute g) := by
  have trace (g : Expr → Option Expr) (hg : ReplacesLeaves g) :
      replaceTrace g e = (e.postOrder.map (offered g), e.substitute g) := by
    have run : StateT.run (replaceM (fun node => do record node; return g node) e) [] =
        (e.substitute g, (e.postOrder.map (offered g)).reverse) := by
      rw [replaceM_eq_forM record hg e, StateT.run_bind, run_record, List.append_nil]
      rfl
    calc replaceTrace g e
      _ = ((List.map (offered g) e.postOrder).reverse.reverse, e.substitute g) :=
        congrArg (fun r : Expr × List Expr => (r.2.reverse, r.1)) run
      _ = (e.postOrder.map (offered g), e.substitute g) := by rw [List.reverse_reverse]
  refine ⟨e.postOrder_perm_walk, ?_, trace⟩
  have nothing := trace (fun _ => none) (fun _ _ h => by cases h)
  rw [nothing, substitute_none, List.map_congr_left fun node _ => offered_none node, List.map_id']

/-- A column that is replaced by a sum in which it occurs is not replaced there again. -/
theorem replaceTrace_substitute_sum :
    let total := column "total" "" none
    let sum := arithmetic .add total (column "tax" "" none)
    let row := fun name => if name = "total" then sum else column name "" none
    let e := isNull (concat total (param "p" "" none)) false
    ReplacesLeaves (Evaluation.readRow row) ∧
      (e.postOrder.map (offered (Evaluation.readRow row)), e.substitute (Evaluation.readRow row)) =
        ([total, param "p" "" none, concat sum (param "p" "" none),
            isNull (concat sum (param "p" "" none)) false],
          isNull (concat sum (param "p" "" none)) false) := by
  intro total sum row e
  have replaces : ReplacesLeaves (Evaluation.readRow row) := by
    apply replacesLeaves_readRow
    intro name
    show (if name = "total" then sum else column name "" none) ≠ absent
    split
    · exact nofun
    · exact nofun
  constructor
  · exact replaces
  · rw [← (replaceTrace_substitute e).2.2 _ replaces]
    rfl

end Expr

end FluentQuery
