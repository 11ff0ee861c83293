import FluentQuery.Operation.Normalize
import FluentQuery.Proofs.Operation.Parts

/-!
# Laws of the normal form

Both passes work from the first call to the last, so a normal form can be built up call by call:
normalizing a step on top of a normal form is normalizing it on top of the query as it was written
(`Operation.normalize_cons_normalize`).  The two passes do not disturb each other, because moving
filters outwards separates no group join from the step that flattens it, so a normal form is its own
normal form (`Operation.normalization_is_idempotent`).
-/

namespace FluentQuery

set_option autoImplicit false

namespace Operation

/-! ### One step at a time -/

theorem lowerNested_eq (step : Step) :
    lowerNested step = step.withNested (lowerJoins step.nested) := by
  cases step <;> simp only [lowerNested, Step.withNested, Step.nested]

theorem isolateNested_eq (step : Step) :
    isolateNested step = step.withNested (isolateWindows step.nested) := by
  cases step <;> simp only [isolateNested, Step.withNested, Step.nested]

theorem lowerJoins_from {step : Step} (h : step.isFrom = true) (earlier : Operation) :
    lowerJoins (step :: earlier) = step.withNested (lowerJoins step.nested) :: earlier := by
  rw [lowerJoins, if_pos h, lowerNested_eq]

theorem lowerJoins_step {step : Step} (h : step.isFrom = false) (earlier : Operation) :
    lowerJoins (step :: earlier) =
      lowerStep (step.withNested (lowerJoins step.nested)) (lowerJoins earlier) := by
  rw [lowerJoins, h, if_neg Bool.false_ne_true, lowerNested_eq]

theorem isolateWindows_from {step : Step} (h : step.isFrom = true) (earlier : Operation) :
    isolateWindows (step :: earlier) = step.withNested (isolateWindows step.nested) :: earlier := by
  rw [isolateWindows, if_pos h, isolateNested_eq]

theorem isolateWindows_step {step : Step} (h : step.isFrom = false) (earlier : Operation) :
    isolateWindows (step :: earlier) =
      isolateStep (step.withNested (isolateWindows step.nested)) (isolateWindows earlier) := by
  rw [isolateWindows, h, if_neg Bool.false_ne_true, isolateNested_eq]

@[simp] theorem lowerJoins_nil : lowerJoins [] = [] := by
  rw [lowerJoins]

@[simp] theorem isolateWindows_nil : isolateWindows [] = [] := by
  rw [isolateWindows]

end Operation

namespace Step

@[simp] theorem withNested_withNested (step : Step) (op op' : Operation) :
    (step.withNested op).withNested op' = step.withNested op' := by
  cases step <;> rfl

@[simp] theorem withNested_nested (step : Step) : step.withNested step.nested = step := by
  cases step <;> rfl

end Step

namespace Operation

/-- A pass that is given no operation gives none back, so what is nested in a step is replaced as a
whole. -/
theorem nested_pass (step : Step) {pass : Operation → Operation} (nil : pass [] = []) :
    (step.withNested (pass step.nested)).nested = pass step.nested := by
  refine step.nested_withNested fun empty => ?_
  rw [empty, nil]

/-! ### Lowered operations -/

/-- Nothing in an operation can be lowered. -/
inductive Lowered : Operation → Prop where
  | nil : Lowered []
  | start {step : Step} {earlier : Operation} (isFrom : step.isFrom = true)
      (nested : Lowered step.nested) : Lowered (step :: earlier)
  | step {step : Step} {earlier : Operation} (isFrom : step.isFrom = false)
      (nested : Lowered step.nested) (below : Lowered earlier)
      (kept : lowerStep step earlier = step :: earlier) : Lowered (step :: earlier)

/-- What a step is lowered to on top of a lowered operation is lowered. -/
theorem Lowered.lowerStep {step : Step} {earlier : Operation} (isFrom : step.isFrom = false)
    (nested : Lowered step.nested) (below : Lowered earlier) :
    Lowered (lowerStep step earlier) := by
  cases step with
  | defaultIfEmpty => exact below
  | selectMany collection path selector shape usesDefault =>
    cases collection with
    | cons first rest => exact .step rfl nested below rfl
    | nil =>
      cases below with
      | nil => exact .step rfl .nil .nil rfl
      | @start source _ hfrom hnested =>
        cases source with
        | fromSource => exact .step rfl .nil (.start hfrom hnested) rfl
        | _ => cases hfrom
      | @step source rest hfrom hnested hbelow hkept =>
        have below : Lowered (source :: rest) := .step hfrom hnested hbelow hkept
        cases source with
        | groupJoin inner keys groupSelector groupShape outerName groupName =>
          -- A group that is flattened at once becomes a join; any other is left alone.
          by_cases same : groupName = path
          · have lowered : Operation.lowerStep (.selectMany [] path selector shape usesDefault)
                (.groupJoin inner keys groupSelector groupShape outerName groupName :: rest) =
                .join (if usesDefault then .left else .inner) inner keys selector shape :: rest := by
              simp only [Operation.lowerStep, lowerSelectMany, if_pos same]
            rw [lowered]
            exact .step rfl hnested hbelow rfl
          · have kept : Operation.lowerStep (.selectMany [] path selector shape usesDefault)
                (.groupJoin inner keys groupSelector groupShape outerName groupName :: rest) =
                .selectMany [] path selector shape usesDefault ::
                  .groupJoin inner keys groupSelector groupShape outerName groupName :: rest := by
              simp only [Operation.lowerStep, lowerSelectMany, if_neg same]
            rw [kept]
            exact .step rfl .nil below kept
        | fromSource => cases hfrom
        | _ => exact .step rfl .nil below rfl
  | fromSource => cases isFrom
  | _ => exact .step rfl nested below rfl

theorem lowered_lowerJoins (op : Operation) : Lowered (lowerJoins op) := by
  induction op using reading_induction with
  | nil =>
    rw [lowerJoins_nil]
    exact .nil
  | base table schema aliasHint earlier =>
    rw [lowerJoins_from rfl]
    exact .start rfl (by simpa [Step.nested, Step.withNested] using Lowered.nil)
  | derived table schema subquery aliasHint earlier _ ih =>
    rw [lowerJoins_from rfl]
    exact .start rfl ih
  | step step earlier isFrom ihNested ih =>
    rw [lowerJoins_step isFrom]
    refine Lowered.lowerStep ?_ ?_ ih
    · rw [Step.isFrom_withNested, isFrom]
    · rw [nested_pass step lowerJoins_nil]
      exact ihNested

/-- Lowering leaves a lowered operation as it is. -/
theorem Lowered.lowerJoins_eq {op : Operation} (h : Lowered op) : lowerJoins op = op := by
  induction h with
  | nil => exact lowerJoins_nil
  | start isFrom _ ih => rw [lowerJoins_from isFrom, ih, Step.withNested_nested]
  | step isFrom _ _ kept ihNested ih =>
    rw [lowerJoins_step isFrom, ihNested, ih, Step.withNested_nested, kept]

/-! ### Isolated windows -/

/-- No filter of an operation comes after a window projection. -/
inductive Isolated : Operation → Prop where
  | nil : Isolated []
  | start {step : Step} {earlier : Operation} (isFrom : step.isFrom = true)
      (nested : Isolated step.nested) : Isolated (step :: earlier)
  | step {step : Step} {earlier : Operation} (isFrom : step.isFrom = false)
      (nested : Isolated step.nested) (below : Isolated earlier)
      (kept : isolateStep step earlier = step :: earlier) : Isolated (step :: earlier)

theorem isolateStep_cases (step : Step) (earlier : Operation) :
    isolateStep step earlier = step :: earlier ∨
      (∃ predicate, step = .filter predicate) ∧ selectsWindow earlier = true ∧
        isolateStep step earlier = [step, .fromSource "" "" earlier ""] := by
  cases step with
  | filter predicate =>
    cases h : selectsWindow earlier with
    | true => exact .inr ⟨⟨predicate, rfl⟩, rfl, by simp only [isolateStep, h, if_true]⟩
    | false => exact .inl (by simp [isolateStep, h])
  | _ => exact .inl rfl

theorem Isolated.isolateStep {step : Step} {earlier : Operation} (isFrom : step.isFrom = false)
    (nested : Isolated step.nested) (below : Isolated earlier) :
    Isolated (isolateStep step earlier) := by
  rcases isolateStep_cases step earlier with kept | ⟨⟨predicate, rfl⟩, -, moved⟩
  · rw [kept]
    exact .step isFrom nested below kept
  · rw [moved]
    exact .step rfl .nil (.start rfl below) rfl

theorem isolated_isolateWindows (op : Operation) : Isolated (isolateWindows op) := by
  induction op using reading_induction with
  | nil =>
    rw [isolateWindows_nil]
    exact .nil
  | base table schema aliasHint earlier =>
    rw [isolateWindows_from rfl]
    exact .start rfl (by simpa [Step.nested, Step.withNested] using Isolated.nil)
  | derived table schema subquery aliasHint earlier _ ih =>
    rw [isolateWindows_from rfl]
    exact .start rfl ih
  | step step earlier isFrom ihNested ih =>
    rw [isolateWindows_step isFrom]
    refine Isolated.isolateStep ?_ ?_ ih
    · rw [Step.isFrom_withNested, isFrom]
    · rw [nested_pass step isolateWindows_nil]
      exact ihNested

/-- Isolating windows leaves an operation as it is in which they are isolated. -/
theorem Isolated.isolateWindows_eq {op : Operation} (h : Isolated op) : isolateWindows op = op := by
  induction h with
  | nil => exact isolateWindows_nil
  | start isFrom _ ih => rw [isolateWindows_from isFrom, ih, Step.withNested_nested]
  | step isFrom _ _ kept ihNested ih =>
    rw [isolateWindows_step isFrom, ihNested, ih, Step.withNested_nested, kept]

theorem isolateWindows_isolateWindows (op : Operation) :
    isolateWindows (isolateWindows op) = isolateWindows op :=
  (isolated_isolateWindows op).isolateWindows_eq

/-! ### The passes together -/

/-- The last step of an operation remains the last step when windows are isolated. -/
theorem isolateWindows_cons (step : Step) (earlier : Operation) :
    ∃ earlier', isolateWindows (step :: earlier) =
      step.withNested (isolateWindows step.nested) :: earlier' := by
  cases isFrom : step.isFrom with
  | true => exact ⟨_, isolateWindows_from isFrom earlier⟩
  | false =>
    rw [isolateWindows_step isFrom]
    rcases isolateStep_cases (step.withNested (isolateWindows step.nested)) (isolateWindows earlier)
      with kept | ⟨-, -, moved⟩
    · exact ⟨_, kept⟩
    · exact ⟨_, moved⟩

/-- A step that is not lowered remains one, because it stays on top of the same step. -/
theorem lowerStep_isolateWindows {step : Step} {earlier : Operation}
    (kept : lowerStep step earlier = step :: earlier) :
    lowerStep (step.withNested (isolateWindows step.nested)) (isolateWindows earlier) =
      step.withNested (isolateWindows step.nested) :: isolateWindows earlier := by
  cases step with
  | selectMany collection path selector shape usesDefault =>
    cases collection with
    | cons first rest => cases kept
    | nil =>
      simp only [Step.nested, isolateWindows_nil, Step.withNested]
      cases earlier with
      | nil =>
        rw [isolateWindows_nil]
        rfl
      | cons last rest =>
        obtain ⟨rest', hrest⟩ := isolateWindows_cons last rest
        rw [hrest]
        cases last with
        | groupJoin inner keys groupSelector groupShape outerName groupName =>
          have other : groupName ≠ path := by
            rintro rfl
            simp [lowerStep, lowerSelectMany] at kept
          simp only [Step.withNested, lowerStep, lowerSelectMany, if_neg other]
        | _ => rfl
  | defaultIfEmpty =>
    have := congrArg List.length kept
    simp [lowerStep] at this
  | _ => rfl

/-- Isolating windows makes nothing that could be lowered. -/
theorem Lowered.isolateWindows {op : Operation} (h : Lowered op) : Lowered (isolateWindows op) := by
  induction h with
  | nil =>
    rw [isolateWindows_nil]
    exact .nil
  | @start step earlier isFrom nested ih =>
    rw [isolateWindows_from isFrom]
    refine .start ?_ ?_
    · rw [Step.isFrom_withNested, isFrom]
    · rw [nested_pass step isolateWindows_nil]
      exact ih
  | @step step earlier isFrom nested below kept ihNested ih =>
    rw [isolateWindows_step isFrom]
    have nested' : Lowered (step.withNested (Operation.isolateWindows step.nested)).nested := by
      rw [nested_pass step isolateWindows_nil]
      exact ihNested
    have isFrom' : (step.withNested (Operation.isolateWindows step.nested)).isFrom = false := by
      rw [Step.isFrom_withNested, isFrom]
    rcases isolateStep_cases (step.withNested (Operation.isolateWindows step.nested))
      (Operation.isolateWindows earlier) with same | ⟨⟨predicate, hfilter⟩, -, moved⟩
    · rw [same]
      exact .step isFrom' nested' ih (lowerStep_isolateWindows kept)
    · rw [moved, hfilter]
      exact .step rfl .nil (.start rfl ih) rfl

theorem lowerJoins_normalize (op : Operation) : lowerJoins (normalize op) = normalize op :=
  (lowered_lowerJoins op).isolateWindows.lowerJoins_eq

/-- Neither pass has anything left to do, in the operation or in those nested in it. -/
structure IsNormal (op : Operation) : Prop where
  lowered : Lowered op
  isolated : Isolated op

theorem isNormal_normalize (op : Operation) : (normalize op).IsNormal :=
  ⟨(lowered_lowerJoins op).isolateWindows, isolated_isolateWindows _⟩

theorem IsNormal.normalize_eq {op : Operation} (h : op.IsNormal) : normalize op = op := by
  rw [normalize, h.lowered.lowerJoins_eq, h.isolated.isolateWindows_eq]

/-- A normal form is its own normal form. -/
theorem normalize_normalize (op : Operation) : normalize (normalize op) = normalize op :=
  (isNormal_normalize op).normalize_eq

/-- Normalizing once more changes nothing, because what it leaves alone is just what neither pass has
anything to do with, and the second pass makes no work for the first. -/
theorem normalization_is_idempotent (op : Operation) :
    normalize (normalize op) = normalize op ∧ (normalize op = op ↔ op.IsNormal) := by
  refine ⟨normalize_normalize op, ?_, IsNormal.normalize_eq⟩
  intro unchanged
  rw [← unchanged]
  exact isNormal_normalize op

/-- Isolating windows in a step on top of an operation in which they are isolated. -/
theorem isolateWindows_cons_isolateWindows {step : Step} (isFrom : step.isFrom = false)
    (op : Operation) :
    isolateWindows (step :: isolateWindows op) = isolateWindows (step :: op) := by
  rw [isolateWindows_step isFrom, isolateWindows_step isFrom, isolateWindows_isolateWindows]

/-- Lowering a step and isolating windows, on top of an operation in which they are isolated. -/
theorem isolateWindows_lowerStep {step : Step} (isFrom : step.isFrom = false) (op : Operation) :
    isolateWindows (lowerStep step (isolateWindows op)) = isolateWindows (lowerStep step op) := by
  have onTop := isolateWindows_cons_isolateWindows isFrom op
  cases step with
  | defaultIfEmpty => exact isolateWindows_isolateWindows op
  | selectMany collection path selector shape usesDefault =>
    cases collection with
    | cons first rest => exact isolateWindows_cons_isolateWindows rfl op
    | nil =>
      cases op with
      | nil => rw [isolateWindows_nil]
      | cons last rest =>
        cases last with
        | groupJoin inner keys groupSelector groupShape outerName groupName =>
          have isolated : isolateWindows
              (.groupJoin inner keys groupSelector groupShape outerName groupName :: rest) =
              .groupJoin (isolateWindows inner) keys groupSelector groupShape outerName groupName ::
                isolateWindows rest := isolateWindows_step rfl rest
          rw [isolated] at onTop ⊢
          by_cases same : groupName = path
          · have join (kind : JoinKind) (inner : Operation) (rest : Operation) :
                isolateWindows (.join kind inner keys selector shape :: rest) =
                  .join kind (isolateWindows inner) keys selector shape :: isolateWindows rest :=
              isolateWindows_step rfl rest
            simp only [lowerStep, lowerSelectMany, if_pos same, join, isolateWindows_isolateWindows]
          · simp only [lowerStep, lowerSelectMany, if_neg same]
            exact onTop
        | _ =>
          obtain ⟨rest', hrest⟩ := isolateWindows_cons _ rest
          rw [hrest] at onTop ⊢
          exact onTop
  | fromSource => cases isFrom
  | _ => exact onTop

/-- A query may be brought into normal form call by call. -/
theorem normalize_cons_normalize {step : Step} (isFrom : step.isFrom = false) (op : Operation) :
    normalize (step :: normalize op) = normalize (step :: op) := by
  have isFrom' : (step.withNested (lowerJoins step.nested)).isFrom = false := by
    rw [Step.isFrom_withNested, isFrom]
  calc
    normalize (step :: normalize op)
      = isolateWindows (lowerStep (step.withNested (lowerJoins step.nested)) (normalize op)) := by
        rw [normalize, lowerJoins_step isFrom, lowerJoins_normalize]
    _ = isolateWindows (lowerStep (step.withNested (lowerJoins step.nested)) (lowerJoins op)) :=
        isolateWindows_lowerStep isFrom' (lowerJoins op)
    _ = normalize (step :: op) := by
        rw [normalize, lowerJoins_step isFrom]

end Operation

end FluentQuery
