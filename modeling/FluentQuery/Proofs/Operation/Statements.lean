import FluentQuery.Proofs.Operation.Tables

/-!
# Statement by statement

What holds at every step that is read (`Operation.Everywhere`) holds along each statement of a query
(`everywhere_iff_along`).  The normal form has the steps of the calls it is made from, but for joins and
marks, and a filter of window results may have got a statement of its own: `everywhere_normalize_iff`
says when a property of the normal form is one of the calls.
-/

namespace FluentQuery

set_option autoImplicit false

namespace Step

/-- A step that joining or lowering is about, which may be another one in the normal form. -/
def isLowerable : Step → Bool
  | join _ _ _ _ _ | groupJoin _ _ _ _ _ _ | selectMany _ _ _ _ _ | defaultIfEmpty => true
  | _ => false

def isFilter : Step → Bool
  | filter _ => true
  | _ => false

/-- The predicate of a filter, or that of a terminal step that has one of its own. -/
def predicate? : Step → Option Expr
  | filter e => some e
  | terminal _ e => if e.isAbsent then none else some e
  | _ => none

theorem eq_of_mem_predicate?_terminal {kind : TerminalKind} {e e' : Expr}
    (h : e' ∈ (terminal kind e).predicate?) : e' = e := by
  rw [Option.mem_def, predicate?] at h
  split at h <;> cases h
  rfl

/-- A step of a statement that is not lowered holds no query. -/
theorem nested_of_not_isLowerable {step : Step} (isFrom : step.isFrom = false)
    (plain : step.isLowerable = false) : step.nested = [] := by
  cases step with
  | fromSource => cases isFrom
  | join | groupJoin | selectMany => cases plain
  | _ => rfl

end Step

namespace Operation

variable {p q : Step → Operation → Prop} {op : Operation} {step : Step}

theorem everywhere_from (isFrom : step.isFrom = true) {earlier : Operation} :
    Everywhere p (step :: earlier) ↔ Everywhere p step.nested := by
  constructor
  · intro h
    cases h with
    | start _ nested => exact nested
    | step isFrom' => cases isFrom.symm.trans isFrom'
  · exact .start isFrom

theorem everywhere_step (isFrom : step.isFrom = false) {earlier : Operation} :
    Everywhere p (step :: earlier) ↔
      p step earlier ∧ Everywhere p step.nested ∧ Everywhere p earlier := by
  constructor
  · intro h
    cases h with
    | start isFrom' => cases isFrom.symm.trans isFrom'
    | step _ here nested below => exact ⟨here, nested, below⟩
  · exact fun ⟨here, nested, below⟩ => .step isFrom here nested below

/-- What holds of all steps holds wherever they stand. -/
theorem everywhere_of (h : ∀ step earlier, p step earlier) : op.Everywhere p := by
  induction op using reading_induction with
  | nil => exact .nil
  | base => exact .start rfl .nil
  | derived _ _ _ _ _ _ ih => exact .start rfl ih
  | step step earlier isFrom ihNested ih => exact .step isFrom (h step earlier) ihNested ih

theorem Everywhere.mono (h : op.Everywhere p) (le : ∀ step earlier, p step earlier → q step earlier) :
    op.Everywhere q := by
  induction h with
  | nil => exact .nil
  | start isFrom _ ih => exact .start isFrom ih
  | step isFrom here _ _ ihNested ihBelow => exact .step isFrom (le _ _ here) ihNested ihBelow

theorem everywhere_congr (same : ∀ step earlier, p step earlier ↔ q step earlier) :
    op.Everywhere p ↔ op.Everywhere q :=
  ⟨(·.mono fun step earlier => (same step earlier).1),
    (·.mono fun step earlier => (same step earlier).2)⟩

theorem Everywhere.and (h : op.Everywhere p) (h' : op.Everywhere q) :
    op.Everywhere fun step earlier => p step earlier ∧ q step earlier := by
  induction h with
  | nil => exact .nil
  | start isFrom _ ih => exact .start isFrom (ih ((everywhere_from isFrom).1 h'))
  | step isFrom here _ _ ihNested ihBelow =>
    obtain ⟨here', nested', below'⟩ := (everywhere_step isFrom).1 h'
    exact .step isFrom ⟨here, here'⟩ (ihNested nested') (ihBelow below')

/-! ### Along one statement -/

/-- Every step of a statement after its `from` has a property together with what precedes it. -/
def Along (p : Step → Operation → Prop) : Operation → Prop
  | [] => True
  | step :: earlier => step.isFrom = false → p step earlier ∧ Along p earlier

theorem along_step (isFrom : step.isFrom = false) {earlier : Operation} :
    Along p (step :: earlier) ↔ p step earlier ∧ Along p earlier :=
  ⟨fun h => h isFrom, fun h _ => h⟩

theorem Everywhere.along (h : op.Everywhere p) : op.Along p := by
  induction h with
  | nil => trivial
  | start isFrom => exact fun isFrom' => nomatch isFrom.symm.trans isFrom'
  | step _ here _ _ _ ih => exact fun _ => ⟨here, ih⟩

theorem Everywhere.nested_of_mem (h : op.Everywhere p) :
    ∀ step ∈ level op, step.nested.Everywhere p := by
  induction h with
  | nil => exact nofun
  | start isFrom nested =>
    rw [forall_level_from isFrom]
    exact nested
  | step isFrom _ nested _ _ ih =>
    rw [forall_level_step isFrom]
    exact ⟨nested, ih⟩

/-- What holds everywhere holds along every statement. -/
theorem everywhere_iff_along :
    op.Everywhere p ↔ ∀ holder part, Part none op holder part → part.Along p := by
  constructor
  · intro h holder part read
    generalize (none : Option Step) = root at read
    induction read with
    | whole => exact h.along
    | nested read _ _ ih => exact ih (h.nested_of_mem _ read)
  · have inside {op : Operation} {step : Step} (read : step ∈ level op)
        (h : ∀ holder part, Part none op holder part → part.Along p) :
        ∀ holder part, Part none step.nested holder part → part.Along p := by
      intro holder part below
      by_cases holds : step.nested = []
      · rw [holds] at below
        cases below with
        | whole => trivial
        | nested read => cases read
      · obtain ⟨holder', below⟩ := below.hold (some step)
        exact h holder' part (.nested read holds below)
    induction op using reading_induction with
    | nil => exact fun _ => .nil
    | base => exact fun _ => .start rfl .nil
    | derived table schema subquery aliasHint earlier _ ih =>
      intro h
      have read : Step.fromSource table schema subquery aliasHint ∈
          level (.fromSource table schema subquery aliasHint :: earlier) := by
        rw [level_from rfl]
        exact List.mem_singleton_self _
      exact .start rfl (ih (inside read h))
    | step step earlier isFrom ihNested ihEarlier =>
      intro h
      have whole := (along_step isFrom).1 (h none _ (.whole none _))
      refine .step isFrom whole.1 (ihNested (inside ?_ h)) (ihEarlier fun holder part read => ?_)
      · rw [level_step isFrom]
        exact List.mem_cons_self ..
      · cases read with
        | whole => exact whole.2
        | nested read holds below =>
          refine h holder part (.nested ?_ holds below)
          rw [level_step isFrom]
          exact List.mem_cons_of_mem _ read

/-- What holds of a step and all steps before it holds of any two steps, in call order. -/
theorem along_iff_pairwise {r : Step → Step → Prop} :
    (op.Along fun step earlier => ∀ before ∈ level earlier, r before step) ↔
      (chain op).Pairwise r := by
  rw [chain, List.pairwise_reverse]
  induction op with
  | nil => exact ⟨fun _ => .nil, fun _ => trivial⟩
  | cons step earlier ih =>
    cases isFrom : step.isFrom with
    | true =>
      rw [level_from isFrom]
      exact ⟨fun _ => List.pairwise_singleton .., fun _ isFrom' => nomatch isFrom.symm.trans isFrom'⟩
    | false => rw [along_step isFrom, level_step isFrom, List.pairwise_cons, ih]

/-- What holds of steps by themselves. -/
theorem along_iff_forall {r : Step → Prop} (root : ∀ step, step.isFrom = true → r step) :
    (op.Along fun step _ => r step) ↔ ∀ step ∈ chain op, r step := by
  simp only [chain, List.mem_reverse]
  induction op with
  | nil => exact ⟨fun _ => nofun, fun _ => trivial⟩
  | cons step earlier ih =>
    cases isFrom : step.isFrom with
    | true =>
      rw [forall_level_from isFrom]
      exact ⟨fun _ => root step isFrom, fun _ isFrom' => nomatch isFrom.symm.trans isFrom'⟩
    | false => rw [along_step isFrom, forall_level_step isFrom, ih]

/-! ### Along the statements of a normal form -/

/-- A property that is not about joins is one of the normal form if it is, in other terms, one of the
calls; a filter of window results is looked at over the derived table. -/
theorem everywhere_normalize_iff
    (lowered : ∀ step earlier, step.isLowerable = true → p step earlier ∧ q step earlier)
    (moved : ∀ e op, windowed op = true →
      (p (.filter e) [.fromSource "" "" (normalize op) ""] ↔ q (.filter e) op))
    (kept : ∀ step op, step.isLowerable = false → (∀ e, step = .filter e → windowed op = false) →
      (p step (normalize op) ↔ q step op)) :
    (normalize op).Everywhere p ↔ op.Everywhere q := by
  have own (step : Step) (ih : (normalize step.nested).Everywhere p ↔ step.nested.Everywhere q) :
      (step.withNested (normalize step.nested)).nested.Everywhere p ↔ step.nested.Everywhere q := by
    rw [nested_pass step normalize_nil, ih]
  have empty : (normalize []).Everywhere p ↔ Everywhere q [] := by
    rw [normalize_nil]
    exact ⟨fun _ => .nil, fun _ => .nil⟩
  induction op using reading_induction with
  | nil => exact empty
  | base table schema aliasHint earlier =>
    rw [normalize_from rfl, everywhere_from rfl, everywhere_from rfl]
    exact own _ empty
  | derived table schema subquery aliasHint earlier _ ih =>
    rw [normalize_from rfl, everywhere_from rfl, everywhere_from rfl]
    exact own _ ih
  | step step op isFrom ihNested ih =>
    have below : (normalize op).Everywhere p ↔ op.Everywhere q := ih
    have nested : (normalize step.nested).Everywhere p ↔ step.nested.Everywhere q := ihNested
    rw [everywhere_step isFrom, ← below, ← nested]
    have grown := grows_normalize isFrom op
    generalize normalize (step :: op) = normal at grown ⊢
    cases grown with
    | dropped is =>
      subst is
      have nothing : normalize Step.defaultIfEmpty.nested = [] := normalize_nil
      rw [nothing]
      exact ⟨fun h => ⟨(lowered _ _ rfl).2, .nil, h⟩, fun h => h.2.2⟩
    | moved e is window =>
      subst is
      rw [selectsWindow_normalize] at window
      have nothing : normalize (Step.filter e).nested = [] := normalize_nil
      rw [everywhere_step rfl, everywhere_from rfl, ← moved e op window, nothing]
      rfl
    | flattened collection path selector shape usesDefault kind inner keys groupSelector groupShape
        outerName rest is emptied group =>
      subst is
      have nothing :
          normalize (Step.selectMany collection path selector shape usesDefault).nested = [] := by
        rw [normalize, Step.nested, emptied, isolateWindows_nil]
      rw [group, everywhere_step rfl, everywhere_step rfl, nothing]
      exact ⟨fun h => ⟨(lowered _ _ rfl).2, .nil, (lowered _ _ rfl).1, h.2⟩,
        fun h => ⟨(lowered _ _ rfl).1, h.2.2.2⟩⟩
    | crossed collection path selector shape usesDefault is =>
      subst is
      rw [everywhere_step rfl]
      exact ⟨fun h => ⟨(lowered _ _ rfl).2, h.2⟩, fun h => ⟨(lowered _ _ rfl).1, h.2⟩⟩
    | kept filters =>
      have here : p (step.withNested (normalize step.nested)) (normalize op) ↔ q step op := by
        cases lowerable : step.isLowerable with
        | true =>
          have lowerable' : (step.withNested (normalize step.nested)).isLowerable = true := by
            cases step <;> first | rfl | cases lowerable
          exact ⟨fun _ => (lowered _ _ lowerable).2, fun _ => (lowered _ _ lowerable').1⟩
        | false =>
          have same : step.withNested (normalize step.nested) = step := by
            rw [Step.nested_of_not_isLowerable isFrom lowerable, normalize_nil]
            cases step with
            | fromSource => cases isFrom
            | join | groupJoin | selectMany => cases lowerable
            | _ => rfl
          rw [same]
          refine kept step op lowerable fun e is => ?_
          rw [← selectsWindow_normalize]
          exact filters e is
      rw [everywhere_step (by rw [Step.isFrom_withNested, isFrom]), here,
        nested_pass step normalize_nil]

end Operation

end FluentQuery
