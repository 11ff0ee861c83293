import Mathlib.Data.List.Basic
import FluentQuery.Proofs.Expr.Children
import FluentQuery.Proofs.Expr.Every
import FluentQuery.Proofs.Effect
import FluentQuery.Data.Assoc

/-!
# What replacing nodes gives

Replacing offers the children of a node first and then the node with its new children.  When only
nodes without children are replaced, the result is the expression with other leaves: every other
node keeps its shape.  Work that decides on replacements and keeps a log is described by what it
would do without effects.
-/

namespace FluentQuery

set_option autoImplicit false

namespace Expr

section

variable {m : Type → Type} [Monad m] [LawfulMonad m] {β : Type} (f : Expr → m (Option Expr))

theorem replaceListM_eq_mapM (es : List Expr) : replaceListM f es = es.mapM (replaceM f) := by
  induction es with
  | nil => rfl
  | cons e rest ih => simp only [replaceListM, ih, List.mapM_cons]

/-- Work on two lists in a row is work on the first and then on the second. -/
theorem mapM_append_bind {α γ : Type} (g : α → m γ) (xs ys : List α)
    (next : List γ → List γ → m β) :
    ((xs ++ ys).mapM g >>= fun zs => next (zs.take xs.length) (zs.drop xs.length)) =
      xs.mapM g >>= fun zs => ys.mapM g >>= fun zs' => next zs zs' := by
  induction xs generalizing next with
  | nil => simp
  | cons x rest ih =>
    simp only [List.cons_append, List.mapM_cons, bind_assoc, pure_bind, List.length_cons,
      List.take_succ_cons, List.drop_succ_cons]
    refine bind_congr fun z => ?_
    exact ih fun zs zs' => next (z :: zs) zs'

theorem replaceConditionsM_bind (cs : List (Expr × Expr)) (rest : List Expr)
    (next : List (Expr × Expr) → List Expr → m β) :
    ((conditionChildren cs ++ rest).mapM (replaceM f) >>= fun es =>
        next (fillConditions cs es) (es.drop (2 * cs.length))) =
      replaceConditionsM f cs >>= fun cs' => rest.mapM (replaceM f) >>= fun es => next cs' es := by
  induction cs generalizing next with
  | nil => simp [conditionChildren, replaceConditionsM, fillConditions]
  | cons c others ih =>
    have two : 2 * (others.length + 1) = 2 * others.length + 1 + 1 := by omega
    simp only [conditionChildren, List.cons_append, List.mapM_cons, bind_assoc, pure_bind,
      List.length_cons, two, List.drop_succ_cons, fillConditions, replaceConditionsM]
    refine bind_congr fun condition => bind_congr fun result => ?_
    exact ih fun cs' es => next ((condition, result) :: cs') es

theorem replaceOrdersM_eq (os : List (Expr × Bool)) :
    replaceOrdersM f os = (os.map Prod.fst).mapM (replaceM f) >>= fun es =>
      pure (os.zipWith (fun order key => (key, order.2)) es) := by
  induction os with
  | nil => simp [replaceOrdersM]
  | cons o rest ih => simp [replaceOrdersM, ih]

theorem replacePropertiesM_eq (ps : List (String × Expr)) :
    replacePropertiesM f ps = (ps.map Prod.snd).mapM (replaceM f) >>= fun es =>
      pure (ps.zipWith (fun p e => (p.1, e)) es) := by
  induction ps with
  | nil => simp [replacePropertiesM]
  | cons p rest ih => simp [replacePropertiesM, ih]

/-- Replacing in a node: its children first, then the node with what they became. -/
theorem replaceM_eq_bind {e : Expr} (h : e ≠ absent) :
    replaceM f e = e.children.mapM (replaceM f) >>= fun es => offer f (e.withChildren es) := by
  cases e with
  | absent => exact absurd rfl h
  | caseWhen cs e =>
    have := replaceConditionsM_bind f cs [e] fun cs' es => offer f (caseWhen cs' (es.headD absent))
    simpa [replaceM, children, withChildren] using this.symm
  | window function partitionBy orderBy =>
    have := mapM_append_bind (replaceM f) partitionBy (orderBy.map Prod.fst) fun es es' =>
      offer f (window function es (orderBy.zipWith (fun order key => (key, order.2)) es'))
    simp only [children, withChildren, this, replaceM, replaceListM_eq_mapM, replaceOrdersM_eq,
      bind_assoc, pure_bind]
  | coalesce | array | textTest =>
    simp [replaceM, children, withChildren, replaceListM_eq_mapM]
  | object => simp [replaceM, children, withChildren, replacePropertiesM_eq]
  | _ =>
    simp only [replaceM, children, withChildren, List.mapM_cons, List.mapM_nil, bind_assoc, pure_bind]

end

/-! ### Replacing leaves -/

theorem replace_eq_getD (g : Expr → Option Expr) {e : Expr} (h : e ≠ absent) :
    replace g e = (g (e.withChildren (e.children.map (replace g)))).getD
      (e.withChildren (e.children.map (replace g))) := by
  have step := congrArg Id.run (replaceM_eq_bind (fun node => (pure (g node) : Id _)) h)
  rw [replace, step, Id.run_bind, List.idRun_mapM]
  rfl

/-- Only nodes without children are replaced. -/
def OnLeaves (g : Expr → Option Expr) : Prop :=
  ∀ node, node.children ≠ [] → g node = none

theorem replace_leaf (g : Expr → Option Expr) {e : Expr} (h : e ≠ absent) (leaf : e.children = []) :
    replace g e = (g e).getD e := by
  have same : e.withChildren [] = e := by
    rw [← leaf, withChildren_children]
  rw [replace_eq_getD g h, leaf, List.map_nil, same]

theorem replace_node {g : Expr → Option Expr} (hg : OnLeaves g) {e : Expr} (h : e.children ≠ []) :
    replace g e = e.withChildren (e.children.map (replace g)) := by
  have present : e ≠ absent := by
    rintro rfl
    exact h rfl
  have below : (e.withChildren (e.children.map (replace g))).children ≠ [] := by
    rw [children_withChildren _ _ (by simp)]
    simpa using h
  rw [replace_eq_getD g present, hg _ below, Option.getD_none]

/-- The nodes of an expression that have no children. -/
def leaves (e : Expr) : List Expr :=
  e.walk.filter (·.children.isEmpty)

theorem leaves_leaf {e : Expr} (h : e ≠ absent) (leaf : e.children = []) : e.leaves = [e] := by
  simp [leaves, walk_eq_cons h, leaf]

theorem eq_of_mem_leaves {e n : Expr} (leaf : e.children = []) (h : n ∈ e.leaves) : n = e := by
  by_cases habs : e = absent
  · subst habs
    cases h
  · rw [leaves_leaf habs leaf] at h
    exact List.mem_singleton.1 h

theorem leaves_node {e : Expr} (h : e.children ≠ []) : e.leaves = e.children.flatMap leaves := by
  have present : e ≠ absent := by
    rintro rfl
    exact h rfl
  rw [leaves, walk_eq_cons present, List.filter_cons_of_neg (by simpa using h), List.filter_flatMap]
  rfl

theorem mem_leaves {e n : Expr} : n ∈ e.leaves ↔ n ∈ e.walk ∧ n.children = [] := by
  simp [leaves]

/-- A property that inner nodes have anyway holds of every node if it holds of the leaves. -/
theorem every_of_leaves {p : Expr → Prop} {e : Expr}
    (inner : ∀ node : Expr, node.children ≠ [] → p node) (h : ∀ n ∈ e.leaves, p n) :
    e.Every p := by
  intro node hn
  by_cases leaf : node.children = []
  · exact h node (mem_leaves.2 ⟨hn, leaf⟩)
  · exact inner node leaf

/-- The leaves of an expression in which leaves were replaced are those of the replacements. -/
theorem leaves_replace {g : Expr → Option Expr} (hg : OnLeaves g) (e : Expr) :
    (replace g e).leaves = e.leaves.flatMap fun n => ((g n).getD n).leaves := by
  induction e using children_induction with
  | step e ih =>
    by_cases h : e = absent
    · subst h
      rfl
    by_cases leaf : e.children = []
    · rw [replace_leaf g h leaf, leaves_leaf h leaf, List.flatMap_singleton]
    · have below : (e.withChildren (e.children.map (replace g))).children =
          e.children.map (replace g) := children_withChildren _ _ (by simp)
      rw [replace_node hg leaf, leaves_node (by simpa [below] using leaf), below, leaves_node leaf,
        List.flatMap_map, List.flatMap_assoc]
      exact List.flatMap_congr ih

/-- An expression none of whose leaves is replaced stays as it is. -/
theorem replace_eq_self {g : Expr → Option Expr} (hg : OnLeaves g) (e : Expr)
    (h : ∀ n ∈ e.leaves, g n = none) : replace g e = e := by
  induction e using children_induction with
  | step e ih =>
    by_cases habs : e = absent
    · subst habs
      rfl
    by_cases leaf : e.children = []
    · have hn : g e = none := h e (by simp [leaves_leaf habs leaf])
      rw [replace_leaf g habs leaf, hn, Option.getD_none]
    · have same : e.children.map (replace g) = e.children := by
        refine (List.map_congr_left fun c hc => ih c hc fun n hn => h n ?_).trans (List.map_id' _)
        rw [leaves_node leaf]
        exact List.mem_flatMap.2 ⟨c, hc, hn⟩
      rw [replace_node hg leaf, same, withChildren_children]

/-- If replacing twice gives what replacing once gives, it does so at every leaf. -/
theorem replace_replace_leaf {f g h : Expr → Option Expr} (hf : OnLeaves f) (hg : OnLeaves g)
    (hh : OnLeaves h) {e : Expr} (same : replace f (replace g e) = replace h e) :
    ∀ n ∈ e.leaves, replace f ((g n).getD n) = (h n).getD n := by
  induction e using children_induction with
  | step e ih =>
    intro n hn
    by_cases habs : e = absent
    · subst habs
      cases hn
    by_cases leaf : e.children = []
    · rw [eq_of_mem_leaves leaf hn, ← replace_leaf g habs leaf, ← replace_leaf h habs leaf]
      exact same
    · have below : ∀ g : Expr → Option Expr, (e.withChildren (e.children.map (replace g))).children =
          e.children.map (replace g) := fun g => children_withChildren _ _ (by simp)
      have nested : (e.withChildren (e.children.map (replace g))).children ≠ [] := by
        simpa [below] using leaf
      rw [replace_node hg leaf, replace_node hf nested, replace_node hh leaf, below] at same
      have children := congrArg Expr.children same
      rw [children_withChildren _ _ (by rw [below, List.length_map]), below, List.map_map,
        List.map_inj_left] at children
      rw [leaves_node leaf] at hn
      obtain ⟨c, hc, hn⟩ := List.mem_flatMap.1 hn
      exact ih c hc (children c hc) n hn

theorem ne_absent_of_isBoolean {e : Expr} (h : e.isBoolean = true) : e ≠ absent := by
  rintro rfl
  cases h

/-- Replacing leaves keeps predicates, if those leaves are replaced by predicates that are. -/
theorem isBoolean_replace {g : Expr → Option Expr} (hg : OnLeaves g)
    (keeps : ∀ n x, n.isBoolean = true → g n = some x → x.isBoolean = true) {e : Expr}
    (h : e.isBoolean = true) : (replace g e).isBoolean = true := by
  by_cases leaf : e.children = []
  · rw [replace_leaf g (ne_absent_of_isBoolean h) leaf]
    cases hx : g e with
    | none => exact h
    | some x => exact keeps e x h hx
  · rw [replace_node hg leaf, isBoolean_withChildren]
    exact h

/-! ### Replacing with effects -/

/-- What can be said about work that keeps a log: `Gives work post` says that a result of the work
and what it has logged satisfy `post`. -/
structure Logged (m : Type → Type) [Monad m] where
  Gives : ∀ {α : Type}, m α → (α → List String → Prop) → Prop
  pure : ∀ {α : Type} {a : α} {post : α → List String → Prop}, post a [] → Gives (pure a) post
  bind : ∀ {α β : Type} {work : m α} {next : α → m β} {between : α → List String → Prop}
    {post : β → List String → Prop}, Gives work between →
    (∀ a log, between a log → Gives (next a) fun b log' => post b (log ++ log')) →
    Gives (work >>= next) post

namespace Logged

variable {m : Type → Type} [Monad m] (L : Logged m)

theorem mapM [LawfulMonad m] {α β : Type} {work : α → m β} {result : α → β}
    {log : α → List String} {xs : List α}
    (h : ∀ x ∈ xs, L.Gives (work x) fun b l => b = result x ∧ l = log x) :
    L.Gives (xs.mapM work) fun bs l => bs = xs.map result ∧ l = xs.flatMap log := by
  induction xs with
  | nil => exact L.pure ⟨rfl, rfl⟩
  | cons x rest ih =>
    rw [List.mapM_cons]
    refine L.bind (h x (List.mem_cons_self ..)) ?_
    rintro _ _ ⟨rfl, rfl⟩
    refine L.bind (ih fun y hy => h y (List.mem_cons_of_mem _ hy)) ?_
    rintro _ _ ⟨rfl, rfl⟩
    exact L.pure ⟨rfl, by simp⟩

theorem mono [LawfulMonad m] {α : Type} {work : m α} {post post' : α → List String → Prop}
    (h : L.Gives work post) (imp : ∀ a log, post a log → post' a log) : L.Gives work post' := by
  rw [← bind_pure work]
  refine L.bind h fun a log ha => L.pure ?_
  rw [List.append_nil]
  exact imp a log ha

variable {f : Expr → m (Option Expr)} {g : Expr → Option Expr} {used : Expr → List String}

theorem offer (h : ∀ node, L.Gives (f node) fun r l => r = g node ∧ l = used node) (node : Expr) :
    L.Gives (Expr.offer f node) fun e l => e = (g node).getD node ∧ l = used node := by
  refine L.bind (h node) ?_
  rintro _ _ ⟨rfl, rfl⟩
  exact L.pure ⟨rfl, List.append_nil _⟩

/-- Work that replaces leaves gives the expression with those leaves replaced, and logs what it
logs at each leaf. -/
theorem replaceM [LawfulMonad m]
    (h : ∀ node, L.Gives (f node) fun r l => r = g node ∧ l = used node)
    (quiet : ∀ node, node.children ≠ [] → used node = []) (e : Expr) :
    L.Gives (Expr.replaceM f e) fun e' l => e' = replace g e ∧ l = e.leaves.flatMap used := by
  induction e using children_induction with
  | step e ih =>
    by_cases habs : e = absent
    · subst habs
      exact L.pure ⟨rfl, rfl⟩
    rw [replaceM_eq_bind f habs]
    refine L.bind (L.mapM ih) ?_
    rintro _ _ ⟨rfl, rfl⟩
    refine L.mono (L.offer h _) ?_
    rintro _ _ ⟨rfl, rfl⟩
    refine ⟨(replace_eq_getD g habs).symm, ?_⟩
    -- What is logged at the node itself counts only if it is a leaf.
    by_cases leaf : e.children = []
    · have same : e.withChildren [] = e := by
        rw [← leaf, withChildren_children]
      rw [leaf, List.map_nil, same, leaves_leaf habs leaf]
      simp
    · have below : (e.withChildren (e.children.map (replace g))).children ≠ [] := by
        rw [children_withChildren _ _ (by simp)]
        simpa using leaf
      rw [quiet _ below, leaves_node leaf, List.flatMap_assoc, List.append_nil]

/-- Outcomes log nothing. -/
def ofExcept (ε : Type) : Logged (Except ε) where
  Gives x post := ∀ a, x = .ok a → post a []
  pure h a run := by
    cases run
    exact h
  bind h rest b run := by
    obtain ⟨a, first, second⟩ := outcome_bind_eq_ok.1 run
    exact rest a [] (h a first) b second

/-- Names that are collected along the way are the log. -/
def ofNames (ε : Type) : Logged (EStateM ε NameSet) where
  Gives work post := ∀ s a s', work s = .ok a s' → ∃ log, post a log ∧ s' = NameSet.union s log
  pure h s a s' run := by
    cases run
    exact ⟨[], h, rfl⟩
  bind h rest s b s' run := by
    obtain ⟨a, t, first, second⟩ := bind_eq_ok.1 run
    obtain ⟨log, ha, rfl⟩ := h s a t first
    obtain ⟨log', hb, rfl⟩ := rest a log ha _ b s' second
    exact ⟨log ++ log', hb, by simp [NameSet.union]⟩

end Logged

section

variable {ε σ : Type} {f : Expr → EStateM ε σ (Option Expr)} {accepted : Expr → Prop}

theorem mapM_succeeds_iff {α β : Type} {work : α → EStateM ε σ β} {accepted : α → Prop}
    {xs : List α} (h : ∀ x ∈ xs, ∀ s, (∃ b s', work x s = .ok b s') ↔ accepted x) (s : σ) :
    (∃ bs s', xs.mapM work s = .ok bs s') ↔ ∀ x ∈ xs, accepted x := by
  induction xs generalizing s with
  | nil => exact ⟨fun _ _ hx => (List.not_mem_nil hx).elim, fun _ => ⟨[], s, rfl⟩⟩
  | cons x rest ih =>
    have ih := fun s => ih (fun y hy => h y (List.mem_cons_of_mem _ hy)) s
    have hx := h x (List.mem_cons_self ..)
    rw [List.mapM_cons, List.forall_mem_cons]
    constructor
    · rintro ⟨bs, s', run⟩
      obtain ⟨b, t, first, run⟩ := bind_eq_ok.1 run
      obtain ⟨bs', t', second, run⟩ := bind_eq_ok.1 run
      exact ⟨(hx s).1 ⟨b, t, first⟩, (ih t).1 ⟨bs', t', second⟩⟩
    · rintro ⟨ok, all⟩
      obtain ⟨b, t, first⟩ := (hx s).2 ok
      obtain ⟨bs, t', second⟩ := (ih t).2 all
      exact ⟨b :: bs, t', bind_eq_ok.2 ⟨b, t, first, bind_eq_ok.2 ⟨bs, t', second, rfl⟩⟩⟩

theorem length_of_mapM {α β : Type} {work : α → EStateM ε σ β} {xs : List α} {bs : List β}
    {s s' : σ} (run : xs.mapM work s = .ok bs s') : bs.length = xs.length := by
  induction xs generalizing s bs with
  | nil =>
    cases run
    rfl
  | cons x rest ih =>
    rw [List.mapM_cons] at run
    obtain ⟨b, t, -, run⟩ := bind_eq_ok.1 run
    obtain ⟨bs', t', second, run⟩ := bind_eq_ok.1 run
    cases run
    rw [List.length_cons, List.length_cons, ih second]

/-- Replacing succeeds exactly if every leaf is accepted, when other nodes always are. -/
theorem replaceM_succeeds_iff (h : ∀ node s, (∃ r s', f node s = .ok r s') ↔ accepted node)
    (inner : ∀ node : Expr, node.children ≠ [] → accepted node) (e : Expr) (s : σ) :
    (∃ e' s', replaceM f e s = .ok e' s') ↔ ∀ node ∈ e.leaves, accepted node := by
  have offered (node : Expr) (s : σ) :
      (∃ e s', Expr.offer f node s = .ok e s') ↔ accepted node := by
    rw [← h node s]
    constructor
    · rintro ⟨e, s', run⟩
      obtain ⟨r, t, first, -⟩ := bind_eq_ok.1 run
      exact ⟨r, t, first⟩
    · rintro ⟨r, t, first⟩
      exact ⟨_, t, bind_eq_ok.2 ⟨r, t, first, rfl⟩⟩
  induction e using children_induction generalizing s with
  | step e ih =>
    by_cases habs : e = absent
    · subst habs
      exact ⟨fun _ _ hn => (List.not_mem_nil hn).elim, fun _ => ⟨absent, s, rfl⟩⟩
    rw [replaceM_eq_bind f habs]
    by_cases leaf : e.children = []
    · have same : e.withChildren [] = e := by
        rw [← leaf, withChildren_children]
      rw [leaf, List.mapM_nil, pure_bind, same, leaves_leaf habs leaf, List.forall_mem_singleton]
      exact offered e s
    · have children := mapM_succeeds_iff ih s
      rw [leaves_node leaf, List.forall_mem_flatMap, ← children]
      constructor
      · rintro ⟨e', s', run⟩
        obtain ⟨es, t, first, -⟩ := bind_eq_ok.1 run
        exact ⟨es, t, first⟩
      · rintro ⟨es, t, first⟩
        have length := length_of_mapM first
        have below : (e.withChildren es).children ≠ [] := by
          rw [children_withChildren _ _ length]
          rintro rfl
          exact leaf (List.length_eq_zero_iff.1 length.symm)
        obtain ⟨e', s', second⟩ := (offered _ t).2 (inner _ below)
        exact ⟨e', s', bind_eq_ok.2 ⟨es, t, first, second⟩⟩

end

end Expr

end FluentQuery
