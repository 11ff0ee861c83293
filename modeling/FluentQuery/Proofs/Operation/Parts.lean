import FluentQuery.Operation.Basic

/-!
# The operations an operation is made of

A statement is read from its last step down to its first `from`; the steps on the way may hold
operations of their own, which are read in the same way.  `Operation.Part` follows that reading and
remembers the step that holds a part, and `Operation.Reads` says which base tables are met.
-/

namespace FluentQuery

set_option autoImplicit false

namespace Step

/-- The step with another operation nested in it. -/
def withNested : Step → Operation → Step
  | fromSource table schema _ aliasHint, op => fromSource table schema op aliasHint
  | join kind _ keys selector shape, op => join kind op keys selector shape
  | groupJoin _ keys selector shape outerName groupName, op =>
    groupJoin op keys selector shape outerName groupName
  | selectMany _ path selector shape usesDefault, op =>
    selectMany op path selector shape usesDefault
  | step, _ => step

/-- A base table, named. -/
def IsBase (step : Step) (schema table : String) : Prop :=
  table ≠ "" ∧ ∃ aliasHint, step = fromSource table schema [] aliasHint

theorem sizeOf_nested_le (step : Step) : sizeOf step.nested ≤ sizeOf step := by
  cases step <;> simp [nested] <;> omega

theorem isFrom_withNested (step : Step) (op : Operation) :
    (step.withNested op).isFrom = step.isFrom := by
  cases step <;> rfl

/-- A step that holds no operation takes none. -/
theorem nested_withNested (step : Step) {op : Operation} (h : step.nested = [] → op = []) :
    (step.withNested op).nested = op := by
  cases step with
  | fromSource | join | groupJoin | selectMany => rfl
  | _ => exact (h rfl).symm

end Step

namespace Operation

/-- Induction along the reading of an operation: at its `from`, or at a step before that with the
operation nested in it. -/
theorem reading_induction {motive : Operation → Prop} (nil : motive [])
    (base : ∀ table schema aliasHint earlier,
      motive (.fromSource table schema [] aliasHint :: earlier))
    (derived : ∀ table schema subquery aliasHint earlier, subquery ≠ [] → motive subquery →
      motive (.fromSource table schema subquery aliasHint :: earlier))
    (step : ∀ step earlier, step.isFrom = false → motive step.nested → motive earlier →
      motive (step :: earlier)) : ∀ op, motive op
  | [] => nil
  | last :: earlier => by
    cases hfrom : last.isFrom with
    | false =>
      exact step last earlier hfrom (reading_induction nil base derived step last.nested)
        (reading_induction nil base derived step earlier)
    | true =>
      match last, hfrom with
      | .fromSource table schema [] aliasHint, _ => exact base table schema aliasHint earlier
      | .fromSource table schema (first :: rest) aliasHint, _ =>
        exact derived table schema (first :: rest) aliasHint earlier (List.cons_ne_nil _ _)
          (reading_induction nil base derived step (first :: rest))
termination_by op => sizeOf op
decreasing_by
  · have := last.sizeOf_nested_le
    simp only [List.cons.sizeOf_spec]
    omega
  · simp only [List.cons.sizeOf_spec]
    omega
  · simp only [List.cons.sizeOf_spec, Step.fromSource.sizeOf_spec]
    omega

/-! ### Parts -/

/-- `Part holder op holder' part`: reading the operation `op`, which the step `holder` holds, one
reads the operation `part`, which the step `holder'` holds.  No step holds the whole query. -/
inductive Part : Option Step → Operation → Option Step → Operation → Prop where
  | whole (holder : Option Step) (op : Operation) : Part holder op holder op
  | nested {holder holder' : Option Step} {op part : Operation} {step : Step}
      (read : step ∈ level op) (holds : step.nested ≠ [])
      (below : Part (some step) step.nested holder' part) : Part holder op holder' part

/-- A base table is met in reading an operation. -/
def Reads (op : Operation) (schema table : String) : Prop :=
  ∃ holder part, Part none op holder part ∧ ∃ step ∈ level part, step.IsBase schema table

theorem level_step {step : Step} (h : step.isFrom = false) (earlier : Operation) :
    level (step :: earlier) = step :: level earlier := by
  rw [level, h, if_neg Bool.false_ne_true]

theorem level_from {step : Step} (h : step.isFrom = true) (earlier : Operation) :
    level (step :: earlier) = [step] := by
  rw [level, h, if_pos rfl]

/-- Who holds an operation does not matter to what is read in it. -/
theorem Part.hold {holder holder' : Option Step} {op part : Operation}
    (h : Part holder op holder' part) (other : Option Step) :
    ∃ holder'', Part other op holder'' part := by
  cases h with
  | whole => exact ⟨other, .whole other op⟩
  | nested read holds below => exact ⟨holder', .nested read holds below⟩

theorem Part.reads {holder holder' : Option Step} {op part : Operation}
    (h : Part holder op holder' part) {schema table : String}
    (base : ∃ step ∈ level part, step.IsBase schema table) : Reads op schema table := by
  obtain ⟨holder'', h⟩ := h.hold none
  exact ⟨holder'', part, h, base⟩

theorem reads_nil {schema table : String} : ¬ Reads [] schema table := by
  rintro ⟨holder, part, hpart, base⟩
  cases hpart with
  | whole =>
    obtain ⟨step, hstep, -⟩ := base
    cases hstep
  | nested read => cases read

theorem reads_base {table schema aliasHint : String} {earlier : Operation} (schema' table' : String) :
    Reads (.fromSource table schema [] aliasHint :: earlier) schema' table' ↔
      table ≠ "" ∧ schema' = schema ∧ table' = table := by
  constructor
  · rintro ⟨holder, part, hpart, base⟩
    cases hpart with
    | whole =>
      obtain ⟨step, hstep, named, hint, rfl⟩ := base
      rw [level_from rfl, List.mem_singleton] at hstep
      cases hstep
      exact ⟨named, rfl, rfl⟩
    | nested read holds =>
      rw [level_from rfl, List.mem_singleton] at read
      subst read
      exact absurd rfl holds
  · rintro ⟨named, rfl, rfl⟩
    refine ⟨none, _, .whole none _, _, ?_, named, aliasHint, rfl⟩
    rw [level_from rfl]
    exact List.mem_singleton_self _

theorem reads_derived {table schema aliasHint : String} {subquery earlier : Operation}
    (h : subquery ≠ []) (schema' table' : String) :
    Reads (.fromSource table schema subquery aliasHint :: earlier) schema' table' ↔
      Reads subquery schema' table' := by
  constructor
  · rintro ⟨holder, part, hpart, base⟩
    cases hpart with
    | whole =>
      obtain ⟨step, hstep, named, hint, rfl⟩ := base
      rw [level_from rfl, List.mem_singleton] at hstep
      cases hstep
      exact absurd rfl h
    | nested read holds below =>
      rw [level_from rfl, List.mem_singleton] at read
      subst read
      exact below.reads base
  · rintro ⟨holder, part, hpart, base⟩
    obtain ⟨holder', below⟩ := hpart.hold (some (.fromSource table schema subquery aliasHint))
    have read : Step.fromSource table schema subquery aliasHint ∈
        level (.fromSource table schema subquery aliasHint :: earlier) := by
      rw [level_from rfl]
      exact List.mem_singleton_self _
    exact ⟨holder', part, .nested read h below, base⟩

theorem reads_step {step : Step} (h : step.isFrom = false) {earlier : Operation}
    (schema table : String) :
    Reads (step :: earlier) schema table ↔
      Reads step.nested schema table ∨ Reads earlier schema table := by
  constructor
  · rintro ⟨holder, part, hpart, base⟩
    cases hpart with
    | whole =>
      obtain ⟨other, hother, named, hint, rfl⟩ := base
      rw [level_step h] at hother
      rcases List.mem_cons.1 hother with rfl | hearlier
      · cases h
      · exact .inr ((Part.whole none earlier).reads ⟨_, hearlier, named, hint, rfl⟩)
    | nested read holds below =>
      rw [level_step h] at read
      rcases List.mem_cons.1 read with rfl | hearlier
      · exact .inl (below.reads base)
      · exact .inr ((show Part none earlier holder part from .nested hearlier holds below).reads base)
  · rintro (⟨holder, part, hpart, base⟩ | ⟨holder, part, hpart, base⟩)
    · have holds : step.nested ≠ [] := by
        intro empty
        rw [empty] at hpart
        exact reads_nil (hpart.reads base)
      obtain ⟨holder', below⟩ := hpart.hold (some step)
      refine ⟨holder', part, .nested ?_ holds below, base⟩
      rw [level_step h]
      exact List.mem_cons_self ..
    · cases hpart with
      | whole =>
        obtain ⟨other, hother, hbase⟩ := base
        refine ⟨none, step :: earlier, .whole none _, other, ?_, hbase⟩
        rw [level_step h]
        exact List.mem_cons_of_mem _ hother
      | nested read holds below =>
        refine ⟨holder, part, .nested ?_ holds below, base⟩
        rw [level_step h]
        exact List.mem_cons_of_mem _ read

end Operation

end FluentQuery
