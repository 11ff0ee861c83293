import FluentQuery.Proofs.Expr.Every
import FluentQuery.Proofs.Operation.Tables

/-!
# What an operation mentions

The nodes of an operation are those of the expressions of its steps, in the query itself and in every
query nested in it (`Operation.Mentions`).  `Operation.Every p` says that all of them have the property
`p`; the lemmas reduce it to the steps, and those of statements that change rows to their parts.  The
normal form mentions nothing new (`Operation.mentions_normalize`), so what is true of all nodes of a
query is true of all nodes of its normal form.
-/

namespace FluentQuery

set_option autoImplicit false

namespace Operation

/-- A node occurs in an expression of an operation, at any depth. -/
inductive Mentions (node : Expr) : Operation → Prop where
  | here {step : Step} {earlier : Operation} {e : Expr} (holds : e ∈ step.expressions)
      (mem : node ∈ e.walk) : Mentions node (step :: earlier)
  | nested {step : Step} {earlier : Operation} (below : Mentions node step.nested) :
      Mentions node (step :: earlier)
  | earlier {step : Step} {earlier : Operation} (before : Mentions node earlier) :
      Mentions node (step :: earlier)

variable {node : Expr} {step : Step} {op : Operation}

theorem mentions_nil : ¬ Mentions node [] := by
  rintro ⟨⟩

theorem mentions_cons : Mentions node (step :: op) ↔
    (∃ e ∈ step.expressions, node ∈ e.walk) ∨ Mentions node step.nested ∨ Mentions node op := by
  constructor
  · rintro (⟨holds, mem⟩ | below | before)
    · exact .inl ⟨_, holds, mem⟩
    · exact .inr (.inl below)
    · exact .inr (.inr before)
  · rintro (⟨e, holds, mem⟩ | below | before)
    · exact .here holds mem
    · exact .nested below
    · exact .earlier before

/-! ### Properties of all nodes -/

/-- Every node of an operation has a property. -/
def Every (p : Expr → Prop) (op : Operation) : Prop :=
  ∀ node, op.Mentions node → p node

variable {p q : Expr → Prop}

theorem Every.mono (h : op.Every p) (imp : ∀ node, p node → q node) : op.Every q :=
  fun node mentioned => imp node (h node mentioned)

theorem every_nil : Every p [] := by
  rintro node ⟨⟩

theorem every_cons : Every p (step :: op) ↔
    (∀ e ∈ step.expressions, e.Every p) ∧ Every p step.nested ∧ Every p op := by
  constructor
  · intro h
    refine ⟨fun e holds node mem => ?_, fun node below => ?_, fun node before => ?_⟩
    · exact h node (.here holds mem)
    · exact h node (.nested below)
    · exact h node (.earlier before)
  · rintro ⟨here, nested, before⟩ node mentioned
    rcases mentions_cons.1 mentioned with ⟨e, holds, mem⟩ | below | earlier
    · exact here e holds node mem
    · exact nested node below
    · exact before node earlier

/-- Empty slots have no nodes. -/
theorem forall_present {es : List Expr} :
    (∀ e ∈ es.filter fun e => !e.isAbsent, e.Every p) ↔ ∀ e ∈ es, e.Every p := by
  constructor
  · intro h e mem
    by_cases absent : e = .absent
    · rw [absent]
      exact Expr.every_absent
    · refine h e (List.mem_filter.2 ⟨mem, ?_⟩)
      cases e with
      | absent => exact absurd rfl absent
      | _ => rfl
  · exact fun h e mem => h e (List.mem_filter.1 mem).1

theorem every_insert {st : InsertStatement} : Every p (.insert st :: op) ↔
    (∀ e ∈ Step.assignmentExprs st.values, e.Every p) ∧ st.returning.Every p ∧
      (∀ e ∈ Step.conflictExprs st.onConflict, e.Every p) ∧ Every p op := by
  have slots : (∀ e ∈ (Step.insert st).expressions, e.Every p) ↔
      ∀ e ∈ Step.assignmentExprs st.values ++ [st.returning] ++ Step.conflictExprs st.onConflict,
        e.Every p := forall_present
  rw [every_cons, slots, List.forall_mem_append, List.forall_mem_append, List.forall_mem_singleton]
  simp only [Step.nested, every_nil, true_and, and_assoc]

theorem every_update {st : UpdateStatement} : Every p (.update st :: op) ↔
    (∀ e ∈ Step.assignmentExprs st.assignments, e.Every p) ∧ st.predicate.Every p ∧
      st.returning.Every p ∧ Every p op := by
  have slots : (∀ e ∈ (Step.update st).expressions, e.Every p) ↔
      ∀ e ∈ Step.assignmentExprs st.assignments ++ [st.predicate, st.returning], e.Every p :=
    forall_present
  rw [every_cons, slots, List.forall_mem_append, List.forall_mem_cons, List.forall_mem_singleton]
  simp only [Step.nested, every_nil, true_and, and_assoc]

theorem every_delete {st : DeleteStatement} : Every p (.delete st :: op) ↔
    st.predicate.Every p ∧ Every p op := by
  have slots : (∀ e ∈ (Step.delete st).expressions, e.Every p) ↔ ∀ e ∈ [st.predicate], e.Every p :=
    forall_present
  rw [every_cons, slots, List.forall_mem_singleton]
  simp only [Step.nested, every_nil, true_and]

/-- What is true of an operation is true of each of its steps. -/
theorem Every.of_mem (h : op.Every p) (mem : step ∈ op) :
    (∀ e ∈ step.expressions, e.Every p) ∧ step.nested.Every p := by
  induction op with
  | nil => cases mem
  | cons first earlier ih =>
    obtain ⟨here, nested, before⟩ := every_cons.1 h
    rcases List.mem_cons.1 mem with rfl | mem
    · exact ⟨here, nested⟩
    · exact ih before mem

theorem Every.slot (h : op.Every p) (mem : step ∈ op) : step.slot.Every p := by
  have here := (h.of_mem mem).1
  have single {e : Expr} (h : ∀ other ∈ [e].filter fun e => !e.isAbsent, other.Every p) : e.Every p :=
    forall_present.1 h e (List.mem_singleton_self e)
  cases step with
  | fromSource | defaultIfEmpty | distinct | reverse | insert | update | delete =>
    exact Expr.every_absent
  | _ => exact single here

/-- Another query is nested in a step, if it holds one. -/
theorem Every.withNested {nested : Operation} (h : nested.Every p) (step : Step) :
    (step.withNested nested).nested.Every p := by
  cases step with
  | fromSource | join | groupJoin | selectMany => exact h
  | _ => exact every_nil

/-- One statement of an operation has the properties of the whole. -/
theorem Every.level (h : op.Every p) : Every p (level op) := by
  induction op with
  | nil => exact every_nil
  | cons step earlier ih =>
    obtain ⟨here, nested, before⟩ := every_cons.1 h
    cases isFrom : step.isFrom with
    | true =>
      rw [level_from isFrom]
      exact every_cons.2 ⟨here, nested, every_nil⟩
    | false =>
      rw [level_step isFrom]
      exact every_cons.2 ⟨here, nested, ih before⟩

/-! ### The normal form -/

@[simp] theorem expressions_withNested (step : Step) (op : Operation) :
    (step.withNested op).expressions = step.expressions := by
  cases step <;> rfl

/-- A step that holds the normal form of its query. -/
theorem Mentions.of_withNested {op' : Operation}
    (nested : Mentions node (normalize step.nested) → Mentions node step.nested)
    (earlier : Mentions node op' → Mentions node op)
    (h : Mentions node (step.withNested (normalize step.nested) :: op')) :
    Mentions node (step :: op) := by
  have replaced : (step.withNested (normalize step.nested)).nested = normalize step.nested :=
    nested_pass step normalize_nil
  rw [mentions_cons, expressions_withNested, replaced] at h
  rcases h with ⟨e, holds, mem⟩ | below | before
  · exact .here holds mem
  · exact .nested (nested below)
  · exact .earlier (earlier before)

/-- The normal form mentions nothing that the operation does not mention. -/
theorem mentions_normalize : Mentions node (normalize op) → Mentions node op := by
  induction op using reading_induction with
  | nil =>
    rw [normalize_nil]
    exact id
  | base table schema aliasHint earlier =>
    have same : normalize (.fromSource table schema [] aliasHint :: earlier) = _ :=
      normalize_from rfl earlier
    rw [same]
    exact .of_withNested (by rw [Step.nested, normalize_nil]; exact id) id
  | derived table schema subquery aliasHint earlier _ ih =>
    rw [normalize_from rfl]
    exact .of_withNested ih id
  | step step earlier isFrom ihNested ih =>
    have grown := grows_normalize isFrom earlier
    generalize normalize (step :: earlier) = op' at grown ⊢
    intro h
    cases grown with
    | dropped => exact .earlier (ih h)
    | moved predicate is =>
      -- The filter looks at a derived table that holds all that precedes it.
      subst is
      rcases mentions_cons.1 h with ⟨e, holds, mem⟩ | below | outer
      · exact .here holds mem
      · exact absurd below mentions_nil
      · rcases mentions_cons.1 outer with ⟨e, holds, -⟩ | below | before
        · cases holds
        · exact .earlier (ih below)
        · exact absurd before mentions_nil
    | flattened collection path selector shape usesDefault kind inner keys groupSelector groupShape
        outerName rest is empty group =>
      subst is
      rw [group] at ih
      rcases mentions_cons.1 h with ⟨e, holds, mem⟩ | below | before
      · exact .here holds mem
      · exact .earlier (ih (.nested below))
      · exact .earlier (ih (.earlier before))
    | crossed collection path selector shape usesDefault is =>
      subst is
      rcases mentions_cons.1 h with ⟨e, holds, mem⟩ | below | before
      · exact .here holds mem
      · exact .nested (ihNested below)
      · exact .earlier (ih before)
    | kept => exact .of_withNested ihNested ih h

end Operation

end FluentQuery
