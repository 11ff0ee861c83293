import Mathlib.Data.List.Forall2
import FluentQuery.Sql.Statement

/-!
# Two renderings of the queries in an operation

A statement is written from its steps, each of which carries what became of the operation nested
in it.  Where an operation is rendered twice, under different circumstances, the steps are the same
and the nested outcomes are related; what is chosen by looking at the steps is chosen alike.
-/

namespace FluentQuery

set_option autoImplicit false

namespace Sql

section Alike

variable (same : Except CompileError Fragment → Except CompileError Fragment → Prop)

/-- The same step, with related outcomes for its nested query. -/
def RenderedStep.Alike (r r' : RenderedStep) : Prop :=
  r.step = r'.step ∧ same r.nested r'.nested

/-- The same join, with related outcomes for the joined query. -/
def JoinSource.Alike (j j' : JoinSource) : Prop :=
  j.kind = j'.kind ∧ j.inner = j'.inner ∧ j.keys = j'.keys ∧ same j.nested j'.nested

end Alike

variable {same : Except CompileError Fragment → Except CompileError Fragment → Prop}
variable {rendered rendered' : List RenderedStep}

/-- Both renderings are of the same steps. -/
theorem map_step_eq (h : List.Forall₂ (RenderedStep.Alike same) rendered rendered') :
    rendered.map RenderedStep.step = rendered'.map RenderedStep.step := by
  induction h with
  | nil => rfl
  | cons here _ ih => rw [List.map_cons, List.map_cons, here.1, ih]

/-- The same tables are joined, and their queries have been rendered alike. -/
theorem alike_joinSources (h : List.Forall₂ (RenderedStep.Alike same) rendered rendered') :
    List.Forall₂ (JoinSource.Alike same) (joinSources rendered) (joinSources rendered') := by
  induction h with
  | nil => exact .nil
  | @cons r r' _ _ here _ ih =>
    obtain ⟨step, nested⟩ := r
    obtain ⟨_, nested'⟩ := r'
    obtain ⟨rfl, agree⟩ := here
    cases step with
    | join => exact .cons ⟨rfl, rfl, rfl, agree⟩ ih
    | _ => exact ih

/-- Whether anything is joined is decided by the steps. -/
theorem isEmpty_joinSources_congr (h : List.Forall₂ (RenderedStep.Alike same) rendered rendered') :
    (joinSources rendered).isEmpty = (joinSources rendered').isEmpty := by
  rw [Bool.eq_iff_iff, List.isEmpty_iff_length_eq_zero, List.isEmpty_iff_length_eq_zero,
    (alike_joinSources h).length_eq]

/-- The root of both chains is the same step. -/
theorem alike_find? (h : List.Forall₂ (RenderedStep.Alike same) rendered rendered') :
    Option.Rel (RenderedStep.Alike same) (rendered.find? (·.step.isFrom))
      (rendered'.find? (·.step.isFrom)) := by
  induction h with
  | nil => exact .none
  | @cons r r' _ _ here _ ih =>
    rw [List.find?_cons, List.find?_cons, ← here.1]
    split
    · exact .some here
    · exact ih

/-! ### What the steps of a chain decide -/

namespace SelectChain

variable {c c' : SelectChain} (h : c.steps = c'.steps)

include h

/-- Where a fault is reported is decided by the steps. -/
theorem place_congr (method : String) : c.place method = c'.place method := by
  unfold place
  rw [h]

/-- Whether a chain is refused is decided by the steps. -/
theorem rejectUnlowered_congr : c.rejectUnlowered = c'.rejectUnlowered := by
  unfold rejectUnlowered
  rw [h]
  simp only [place_congr h]

/-- What a value is searched among is decided by the steps. -/
theorem searchedSelector_congr : c.searchedSelector = c'.searchedSelector := by
  unfold searchedSelector
  rw [h]
  simp only [place_congr h]

end SelectChain

/-! ### The queries written for steps -/

/-- The query that is written for a step: its nested one, or the one that a joined derived table is
made of. -/
def writtenQuery? : Step → Option Operation
  | .fromSource _ _ subquery _ => some subquery
  | .join _ [.fromSource _ _ (step :: rest) _] _ _ _ => some (step :: rest)
  | .join _ inner _ _ _ => some inner
  | _ => none

/-- A step comes with the query that is written for it, or with none. -/
theorem renderStep_eq (d : Dialect) (params : Json) (step : Step) :
    renderStep d params step =
      ⟨step, match writtenQuery? step with
        | some op => op.sql d params
        | none => .ok []⟩ := by
  unfold renderStep
  split
  · rfl
  · rfl
  · rename_i derived
    rw [writtenQuery?]
    · rfl
    · exact derived
  · rename_i noFrom noDerived noJoin
    rw [writtenQuery?]
    · exact noFrom
    · exact noDerived
    · exact noJoin

/-- The query that is written for a step is smaller than the step. -/
theorem sizeOf_writtenQuery?_lt {step : Step} {op : Operation} (h : writtenQuery? step = some op) :
    sizeOf op < sizeOf step := by
  unfold writtenQuery? at h
  split at h <;> cases h <;> simp <;> omega

/-- The steps of a level are rendered alike if each of them is. -/
theorem alike_renderLevel {d d' : Dialect} {params params' : Json} {op : Operation}
    (h : ∀ step ∈ op, (renderStep d params step).Alike same (renderStep d' params' step)) :
    List.Forall₂ (RenderedStep.Alike same) (renderLevel d params op)
      (renderLevel d' params' op) := by
  induction op with
  | nil => exact .nil
  | cons step rest ih =>
    rw [List.forall_mem_cons] at h
    unfold renderLevel
    split
    · exact .cons h.1 .nil
    · exact .cons h.1 (ih h.2)

end Sql

end FluentQuery
