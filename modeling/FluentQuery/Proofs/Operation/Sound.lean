import FluentQuery.Proofs.Expr.Filled
import FluentQuery.Proofs.Operation.Mentions
import FluentQuery.Proofs.Plan.Incremental
import FluentQuery.Proofs.Resolve.FormedBodies

/-!
# Sound queries

A sound query is a SELECT with sound queries nested in it, or one statement that changes rows.  A
SELECT starts with its `from`, nothing comes after a terminal step, and what the clauses need of their
expressions is there: predicates where there is a condition, a value where one is asked for.  The
normal form of a sound query is sound (`Operation.Sound.normalize`).
-/

namespace FluentQuery

set_option autoImplicit false

/-! ### Steps -/

/-- A condition that may be left out. -/
def Expr.IsCondition (e : Expr) : Prop :=
  e = .absent ∨ e.isBoolean = true

namespace Step

/-- The expressions that the clause of a step needs are there, and conditions are predicates. -/
def Slots : Step → Prop
  | filter predicate => predicate.isBoolean = true
  | select e | groupBy e | sort _ e _ | page _ e | contains e => e ≠ .absent
  | terminal kind predicate => predicate.IsCondition ∧ (kind = .all → predicate ≠ .absent)
  | groupJoin _ _ selector _ _ _ => selector.isObject = true
  | update s => s.predicate.IsCondition
  | delete s => s.predicate.IsCondition
  | _ => True

/-- Nothing that a step needs is missing, in its clause or in the nodes of its expressions. -/
structure Complete (step : Step) : Prop where
  slots : step.Slots
  nodes : ∀ e ∈ step.expressions, e.Every Expr.Filled

/-- A step that joins a query. -/
def joins : Step → Bool
  | join _ _ _ _ _ | groupJoin _ _ _ _ _ _ => true
  | _ => false

variable {step : Step}

theorem Complete.withNested (h : step.Complete) (op : Operation) :
    (step.withNested op).Complete := by
  refine ⟨?_, ?_⟩
  · cases step <;> exact h.slots
  · rw [Operation.expressions_withNested]
    exact h.nodes

theorem joins_withNested (step : Step) (op : Operation) : (step.withNested op).joins = step.joins := by
  cases step <;> rfl

theorem isCrud_withNested (step : Step) (op : Operation) :
    (step.withNested op).isCrud = step.isCrud := by
  cases step <;> rfl

theorem isTerminal_withNested (step : Step) (op : Operation) :
    (step.withNested op).isTerminal = step.isTerminal := by
  cases step <;> rfl

/-- A step with one expression is complete if its clause has what it needs. -/
theorem complete_of_slot (slots : step.Slots)
    (single : step.expressions = [step.slot].filter fun e => !e.isAbsent)
    (h : step.slot.Every Expr.Filled) : step.Complete := by
  refine ⟨slots, ?_⟩
  rw [single]
  exact Operation.forall_present.2 (List.forall_mem_singleton.2 h)

/-! ### Steps of statements that change rows -/

theorem complete_insert {s : InsertStatement} : (insert s).Complete ↔
    (∀ e ∈ assignmentExprs s.values, e.Every Expr.Filled) ∧ s.returning.Every Expr.Filled ∧
      ∀ e ∈ conflictExprs s.onConflict, e.Every Expr.Filled := by
  have slots : (∀ e ∈ (insert s).expressions, e.Every Expr.Filled) ↔
      ∀ e ∈ assignmentExprs s.values ++ [s.returning] ++ conflictExprs s.onConflict,
        e.Every Expr.Filled := Operation.forall_present
  rw [List.forall_mem_append, List.forall_mem_append, List.forall_mem_singleton, and_assoc] at slots
  rw [← slots]
  exact ⟨Complete.nodes, fun h => ⟨trivial, h⟩⟩

theorem complete_update {s : UpdateStatement} : (update s).Complete ↔
    s.predicate.IsCondition ∧ (∀ e ∈ assignmentExprs s.assignments, e.Every Expr.Filled) ∧
      s.predicate.Every Expr.Filled ∧ s.returning.Every Expr.Filled := by
  have slots : (∀ e ∈ (update s).expressions, e.Every Expr.Filled) ↔
      ∀ e ∈ assignmentExprs s.assignments ++ [s.predicate, s.returning], e.Every Expr.Filled :=
    Operation.forall_present
  rw [List.forall_mem_append, List.forall_mem_cons, List.forall_mem_singleton] at slots
  rw [← slots]
  exact ⟨fun h => ⟨h.slots, h.nodes⟩, fun h => ⟨h.1, h.2⟩⟩

theorem complete_delete {s : DeleteStatement} : (delete s).Complete ↔
    s.predicate.IsCondition ∧ s.predicate.Every Expr.Filled := by
  have slots : (∀ e ∈ (delete s).expressions, e.Every Expr.Filled) ↔
      ∀ e ∈ [s.predicate], e.Every Expr.Filled := Operation.forall_present
  rw [List.forall_mem_singleton] at slots
  rw [← slots]
  exact ⟨fun h => ⟨h.slots, h.nodes⟩, fun h => ⟨h.1, h.2⟩⟩

/-- Values that are assigned. -/
theorem filled_assigned {assigned : Assignments} (h : Expr.FormedMembers Expr.Filled assigned) :
    ∀ e ∈ assignmentExprs (some assigned), e.Every Expr.Filled :=
  List.forall_mem_singleton.2 h

end Step

namespace Operation

/-! ### Queries -/

/-- The SELECT queries that can be built. -/
inductive Selects : Operation → Prop where
  | start {step : Step} (isFrom : step.isFrom = true)
      (nested : step.nested ≠ [] → Selects step.nested) : Selects [step]
  | extend {step : Step} {source : Operation} (below : Selects source)
      (goesOn : ∀ last ∈ source.head?, last.isTerminal = false) (isFrom : step.isFrom = false)
      (isCrud : step.isCrud = false) (complete : step.Complete)
      (joined : step.joins = true → step.nested ≠ [])
      (nested : step.nested ≠ [] → Selects step.nested) : Selects (step :: source)

/-- The queries that can be built. -/
inductive Sound : Operation → Prop where
  | select {op : Operation} (selects : op.Selects) : Sound op
  | change {step : Step} (isCrud : step.isCrud = true) (complete : step.Complete) : Sound [step]

variable {op : Operation} {step : Step}

theorem Selects.ne_nil (h : op.Selects) : op ≠ [] := by
  cases h <;> exact List.cons_ne_nil _ _

theorem Selects.noCrud (h : op.Selects) : ∀ step ∈ op, step.isCrud = false := by
  induction h with
  | @start step isFrom =>
    refine List.forall_mem_singleton.2 ?_
    cases step with
    | fromSource => rfl
    | _ => cases isFrom
  | extend _ _ _ isCrud _ _ _ ih => exact List.forall_mem_cons.2 ⟨isCrud, ih⟩

/-- A SELECT to which calls can be added. -/
theorem Selects.isOpen (h : op.Selects) (goesOn : ∀ last ∈ op.head?, last.isTerminal = false) :
    op.IsOpen := by
  cases op with
  | nil => exact absurd rfl h.ne_nil
  | cons step source => exact ⟨h.noCrud step (List.mem_cons_self ..), goesOn step rfl⟩

theorem Selects.built (h : op.Selects) : op.Built := by
  induction h with
  | start isFrom => exact .start (.inl isFrom)
  | extend below goesOn isFrom isCrud _ _ _ ih =>
    exact .extend ih (below.isOpen goesOn) isFrom isCrud

theorem Sound.built (h : op.Sound) : op.Built := by
  cases h with
  | select selects => exact selects.built
  | change isCrud => exact .start (.inr isCrud)

theorem IsOpen.goesOn (h : op.IsOpen) : ∀ last ∈ op.head?, last.isTerminal = false := by
  cases op with
  | nil => exact nofun
  | cons step source =>
    rintro last ⟨⟩
    exact h.2

/-- A sound query that can be extended is a SELECT. -/
theorem Sound.selects (h : op.Sound) (isOpen : op.IsOpen) : op.Selects := by
  cases h with
  | select selects => exact selects
  | change isCrud => cases isOpen.1.symm.trans isCrud

/-- A SELECT with one more step. -/
theorem Selects.push (h : op.Selects) (isOpen : op.IsOpen) (isFrom : step.isFrom = false)
    (isCrud : step.isCrud = false) (complete : step.Complete) (nested : step.nested = [])
    (joins : step.joins = false) : Sound (step :: op) := by
  refine .select (.extend h isOpen.goesOn isFrom isCrud complete ?_ fun holds => absurd nested holds)
  rw [joins]
  exact nofun

/-- A SELECT with one more step that holds a query. -/
theorem Selects.pushQuery (h : op.Selects) (isOpen : op.IsOpen) (isFrom : step.isFrom = false)
    (isCrud : step.isCrud = false) (complete : step.Complete) (nested : step.nested.Selects) :
    Sound (step :: op) :=
  .select (.extend h isOpen.goesOn isFrom isCrud complete (fun _ => nested.ne_nil) fun _ => nested)

/-- The steps of a SELECT are those of one statement. -/
theorem Selects.level_eq (h : op.Selects) : level op = op := by
  induction h with
  | start isFrom => exact level_from isFrom []
  | extend _ _ isFrom _ _ _ _ ih => rw [level_step isFrom, ih]

theorem Selects.nested_of_mem (h : op.Selects) (mem : step ∈ op) (holds : step.nested ≠ []) :
    step.nested.Selects := by
  induction h with
  | start isFrom nested =>
    rw [List.mem_singleton.1 mem] at holds ⊢
    exact nested holds
  | extend below _ _ _ _ _ nested ih =>
    rcases List.mem_cons.1 mem with rfl | earlier
    · exact nested holds
    · exact ih earlier

/-- Whatever is nested in a SELECT is a SELECT. -/
theorem Selects.part {holder holder' : Option Step} {part : Operation} (h : op.Selects)
    (read : Part holder op holder' part) : part.Selects := by
  induction read with
  | whole => exact h
  | nested mem holds _ ih =>
    rw [h.level_eq] at mem
    exact ih (h.nested_of_mem mem holds)

theorem Sound.part {holder holder' : Option Step} {part : Operation} (h : op.Sound)
    (read : Part holder op holder' part) : part.Sound := by
  cases h with
  | select selects => exact .select (selects.part read)
  | @change step isCrud complete =>
    have notFrom : step.isFrom = false := by
      cases step with
      | insert | update | delete => rfl
      | _ => cases isCrud
    cases read with
    | whole => exact .change isCrud complete
    | nested mem holds =>
      rw [level_step notFrom] at mem
      rw [List.mem_singleton.1 mem] at holds
      cases step with
      | insert | update | delete => exact absurd rfl holds
      | _ => cases isCrud

/-- The steps of a sound query are complete. -/
theorem Sound.complete (h : op.Sound) (mem : step ∈ op) : step.Complete := by
  have ofFrom {step : Step} (isFrom : step.isFrom = true) : step.Complete := by
    cases step with
    | fromSource => exact ⟨trivial, nofun⟩
    | _ => cases isFrom
  cases h with
  | change _ complete =>
    rw [List.mem_singleton.1 mem]
    exact complete
  | select selects =>
    induction selects with
    | start isFrom =>
      rw [List.mem_singleton.1 mem]
      exact ofFrom isFrom
    | extend _ _ _ _ complete _ _ ih =>
      rcases List.mem_cons.1 mem with rfl | earlier
      · exact complete
      · exact ih earlier

/-! ### Normal forms -/

theorem Selects.normalize (h : op.Selects) : (normalize op).Selects := by
  induction h with
  | @start step isFrom nested ih =>
    rw [normalize_from isFrom]
    refine .start (by rw [Step.isFrom_withNested, isFrom]) ?_
    rw [nested_pass step normalize_nil]
    intro holds
    exact ih fun empty => holds (by rw [empty, normalize_nil])
  | @extend step source below goesOn isFrom isCrud complete joined nested ihBelow ihNested =>
    have isOpen : (Operation.normalize source).IsOpen :=
      below.built.isOpen_normalize (below.isOpen goesOn)
    have holds {op : Operation} (h : Operation.normalize op ≠ []) : op ≠ [] := by
      rintro rfl
      exact h normalize_nil
    have grown := grows_normalize isFrom source
    generalize Operation.normalize (step :: source) = op' at grown ⊢
    cases grown with
    | dropped => exact ihBelow
    | moved predicate is =>
      subst is
      refine .extend (.start rfl fun _ => ihBelow) ?_ rfl rfl complete nofun (fun h => absurd rfl h)
      rintro last ⟨⟩
      rfl
    | flattened collection path selector shape usesDefault kind inner keys groupSelector groupShape
        outerName rest is empty group =>
      subst is
      rw [group] at ihBelow
      cases ihBelow with
      | start isFrom => cases isFrom
      | extend before open' _ _ _ joined nested =>
        exact .extend before open' rfl rfl ⟨trivial, complete.nodes⟩ joined nested
    | crossed collection path selector shape usesDefault is nonempty =>
      subst is
      have there : collection ≠ [] := by
        rintro rfl
        exact nonempty lowerJoins_nil
      have query := ihNested there
      exact .extend ihBelow isOpen.goesOn rfl rfl ⟨trivial, complete.nodes⟩ (fun _ => query.ne_nil)
        fun _ => query
    | kept =>
      have below' : (step.withNested (Operation.normalize step.nested)).nested =
          Operation.normalize step.nested := nested_pass step normalize_nil
      refine .extend ihBelow isOpen.goesOn ?_ ?_ (complete.withNested _) ?_ ?_
      · rw [Step.isFrom_withNested, isFrom]
      · rw [Step.isCrud_withNested, isCrud]
      · rw [Step.joins_withNested, below']
        exact fun joins => (ihNested (joined joins)).ne_nil
      · rw [below']
        exact fun h => ihNested (holds h)

/-- The normal form of a sound query is sound. -/
theorem Sound.normalize (h : op.Sound) : (normalize op).Sound := by
  cases h with
  | select selects => exact .select selects.normalize
  | change isCrud complete =>
    rw [normalize_crud isCrud]
    exact .change isCrud complete

end Operation

end FluentQuery
