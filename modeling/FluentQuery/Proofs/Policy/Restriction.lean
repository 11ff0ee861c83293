import FluentQuery.Proofs.Operation.Parts
import FluentQuery.Proofs.Policy.Resolution

/-!
# Replacing tables by their permitted rows

`Restricts guard op out` relates an operation to the one in which every base table with a guard is
replaced by a derived table of the rows that satisfy it; nothing else changes.  Main statements:
`Filtering.ensures_wrap`, that filtering produces such an operation, and `Restricts.covers`, that in
such an operation a guarded table is read nowhere but below its guard.
-/

namespace FluentQuery

set_option autoImplicit false

/-- The second operation is the first with its guarded base tables replaced by their permitted rows.
Steps below the first `from` are never read and do not matter. -/
inductive Restricts (guard : String → String → Option Expr) : Operation → Operation → Prop where
  | nil : Restricts guard [] []
  | permitted {table schema aliasHint : String} {earlier : Operation} {predicate : Expr}
      (named : table ≠ "") (guarded : guard schema table = some predicate) :
      Restricts guard (.fromSource table schema [] aliasHint :: earlier)
        [.fromSource "" "" [.filter predicate, .fromSource table schema [] ""]
          (if aliasHint.isEmpty then table else aliasHint)]
  | unguarded {table schema aliasHint : String} {earlier : Operation}
      (free : table = "" ∨ guard schema table = none) :
      Restricts guard (.fromSource table schema [] aliasHint :: earlier)
        (.fromSource table schema [] aliasHint :: earlier)
  | derived {table schema aliasHint : String} {subquery subquery' earlier : Operation}
      (holds : subquery ≠ []) (below : Restricts guard subquery subquery') :
      Restricts guard (.fromSource table schema subquery aliasHint :: earlier)
        (.fromSource table schema subquery' aliasHint :: earlier)
  | step {step : Step} {nested earlier earlier' : Operation} (noFrom : step.isFrom = false)
      (below : Restricts guard step.nested nested) (rest : Restricts guard earlier earlier') :
      Restricts guard (step :: earlier) (step.withNested nested :: earlier')

namespace Restricts

open Operation

variable {guard : String → String → Option Expr} {op out : Operation}

theorem eq_nil_iff (h : Restricts guard op out) : out = [] ↔ op = [] := by
  cases h <;> simp

/-- Guards matter only for the tables that are read. -/
theorem congr {guard' : String → String → Option Expr} (h : Restricts guard op out)
    (same : ∀ schema table, op.Reads schema table → guard' schema table = guard schema table) :
    Restricts guard' op out := by
  induction h with
  | nil => exact .nil
  | permitted named guarded =>
    refine .permitted named ?_
    rw [same _ _ ((reads_base _ _).2 ⟨named, rfl, rfl⟩)]
    exact guarded
  | @unguarded table schema aliasHint earlier free =>
    refine .unguarded ?_
    by_cases named : table = ""
    · exact .inl named
    · rw [same _ _ ((reads_base _ _).2 ⟨named, rfl, rfl⟩)]
      exact .inr (free.resolve_left named)
  | derived holds _ ih =>
    exact .derived holds (ih fun schema table h => same _ _ ((reads_derived holds _ _).2 h))
  | step noFrom _ _ ihBelow ihRest =>
    refine .step noFrom (ihBelow fun schema table h => ?_) (ihRest fun schema table h => ?_)
    · exact same _ _ ((reads_step noFrom _ _).2 (.inl h))
    · exact same _ _ ((reads_step noFrom _ _).2 (.inr h))

/-- A step that is read in the second operation is a table with its guard, a table without one, or a
step of the first operation with other tables below it. -/
inductive ReadsAs (guard : String → String → Option Expr) (op : Operation) : Step → Prop where
  | permitted {table schema aliasHint : String} {predicate : Expr}
      (guarded : guard schema table = some predicate) (read : op.Reads schema table) :
      ReadsAs guard op
        (.fromSource "" "" [.filter predicate, .fromSource table schema [] ""] aliasHint)
  | unguarded {table schema aliasHint : String} (free : table = "" ∨ guard schema table = none) :
      ReadsAs guard op (.fromSource table schema [] aliasHint)
  | below {step : Step} {nested : Operation} (notBase : ∀ schema table, ¬ step.IsBase schema table)
      (restricts : Restricts guard nested step.nested)
      (read : ∀ schema table, nested.Reads schema table → op.Reads schema table) :
      ReadsAs guard op step

theorem readsAs (h : Restricts guard op out) {step : Step} (read : step ∈ level out) :
    ReadsAs guard op step := by
  induction h with
  | nil => cases read
  | permitted named guarded =>
    rw [level_from rfl, List.mem_singleton] at read
    subst read
    exact .permitted guarded ((reads_base _ _).2 ⟨named, rfl, rfl⟩)
  | unguarded free =>
    rw [level_from rfl, List.mem_singleton] at read
    subst read
    exact .unguarded free
  | derived holds below =>
    rw [level_from rfl, List.mem_singleton] at read
    subst read
    refine .below ?_ below fun schema table h => (reads_derived holds _ _).2 h
    rintro schema table ⟨-, aliasHint, heq⟩
    cases heq
    exact holds (below.eq_nil_iff.1 rfl)
  | @step inner nested earlier earlier' noFrom below rest ihBelow ihRest =>
    have same : (inner.withNested nested).isFrom = false := by
      rw [Step.isFrom_withNested]
      exact noFrom
    rw [level_step same] at read
    rcases List.mem_cons.1 read with rfl | hrest
    · have restricts : Restricts guard inner.nested (inner.withNested nested).nested := by
        rw [inner.nested_withNested below.eq_nil_iff.2]
        exact below
      refine .below ?_ restricts fun schema table h => (reads_step noFrom _ _).2 (.inl h)
      rintro schema table ⟨-, aliasHint, heq⟩
      rw [heq] at same
      cases same
    · cases ihRest hrest with
      | permitted guarded hread =>
        exact .permitted guarded ((reads_step noFrom _ _).2 (.inr hread))
      | unguarded free => exact .unguarded free
      | below notBase restricts hread =>
        exact .below notBase restricts fun schema table h =>
          (reads_step noFrom _ _).2 (.inr (hread schema table h))

/-- A guarded table is read directly below its guard, and the two are all that a derived table
reads. -/
theorem covers (h : Restricts guard op out) {holder holder' : Option Step} {part : Operation}
    (hpart : Part holder out holder' part) {step : Step} (read : step ∈ level part)
    {schema table : String} (base : step.IsBase schema table) {predicate : Expr}
    (guarded : guard schema table = some predicate) :
    op.Reads schema table ∧ part = [.filter predicate, step] ∧
      ∃ aliasHint, holder' = some (.fromSource "" "" part aliasHint) := by
  induction hpart generalizing op with
  | whole holder out =>
    obtain ⟨named, hint, rfl⟩ := base
    cases h.readsAs read with
    | unguarded free =>
      rcases free with empty | none
      · exact absurd empty named
      · rw [guarded] at none
        cases none
    | below notBase => exact absurd ⟨named, hint, rfl⟩ (notBase schema table)
  | @nested holder holder' out part inner hread holds below ih =>
    cases h.readsAs hread with
    | @permitted table' schema' aliasHint predicate' guarded' reads' =>
      -- Below the guard there are two steps, and neither holds an operation.
      cases below with
      | whole =>
        obtain ⟨named, hint, rfl⟩ := base
        have two : Step.fromSource table schema [] hint = .fromSource table' schema' [] "" := by
          simpa [level, Step.nested, Step.isFrom] using read
        cases two
        rw [guarded] at guarded'
        cases guarded'
        exact ⟨reads', rfl, aliasHint, rfl⟩
      | nested hread' holds' =>
        have flat : ∀ other ∈ level [Step.filter predicate', .fromSource table' schema' [] ""],
            other.nested = [] := by
          simp [level, Step.nested, Step.isFrom]
        exact absurd (flat _ hread') holds'
    | unguarded => exact absurd rfl holds
    | below notBase restricts reads' =>
      obtain ⟨hreads, hrest⟩ := ih restricts read
      exact ⟨reads' _ _ hreads, hrest⟩

end Restricts

namespace Filtering

open FilterState Operation

variable {filters : RowFilters} {s : FilterState}

/-- The guards that the filters found so far put on tables. -/
def guardOf (filters : RowFilters) (s : FilterState) (schema table : String) : Option Expr :=
  match filters.find? schema table with
  | some (key, _) => ((s.resolved.find? (cacheKey key .select)).join).map RowFilter.predicate
  | none => none

theorem guardOf_eq {schema table : String} {found : Option RowFilter}
    (h : s.Decides filters .select schema table found) :
    guardOf filters s schema table = found.map RowFilter.predicate := by
  obtain ⟨key, config, hfind, hfound⟩ := h
  rw [guardOf, hfind]
  simp only [hfound, Option.join_some]

/-- A step before the `from` is kept; what is nested in it and what comes before it is filtered. -/
theorem wrap_step {step : Step} (noFrom : step.isFrom = false) (earlier : Operation) :
    wrap filters (step :: earlier) = do
      let nested ← wrap filters step.nested
      let earlier ← wrap filters earlier
      return step.withNested nested :: earlier := by
  cases step with
  | fromSource => cases noFrom
  | _ => simp [wrap, wrapNested, Step.nested, Step.withNested]

theorem guardOf_of_grows {touched : String → String → Prop} {s' : FilterState}
    (grows : s.Grows filters .select touched s') {schema table : String} {found : Option RowFilter}
    (h : s.Decides filters .select schema table found) :
    guardOf filters s' schema table = guardOf filters s schema table := by
  rw [guardOf_eq h, guardOf_eq (h.mono grows)]

/-- Filtering an operation finds the filters of the tables it reads, and replaces these tables. -/
theorem ensures_wrap (op : Operation) (sound : s.Sound filters.tables) :
    Ensures (wrap filters op) s
      (fun out s' => s'.Sound filters.tables ∧ s.Grows filters .select op.Reads s' ∧
        Restricts (guardOf filters s') op out)
      (fun s' => s'.memo.Sound filters.tables) := by
  induction op using reading_induction generalizing s with
  | nil => exact ⟨sound, .refl fun _ _ => reads_nil, .nil⟩
  | derived table schema subquery aliasHint earlier holds ih =>
    obtain ⟨first, rest, rfl⟩ := List.exists_cons_of_ne_nil holds
    refine .bind (ih sound) ?_
    rintro out s' ⟨sound', grows, restricts⟩
    exact .pure ⟨sound', grows.congr (reads_derived holds), .derived holds restricts⟩
  | base table schema aliasHint earlier =>
    unfold wrap
    split
    · rename_i empty
      have unnamed : table = "" := String.isEmpty_iff.1 empty
      refine .pure ⟨sound, .refl fun schema' table' h => ?_, .unguarded (.inl unnamed)⟩
      exact ((reads_base _ _).1 h).1 unnamed
    rename_i nonempty
    have named : table ≠ "" := fun empty => nonempty (String.isEmpty_iff.2 empty)
    have only (schema' table' : String) :
        Reads (.fromSource table schema [] aliasHint :: earlier) schema' table' ↔
          schema' = schema ∧ table' = table := by
      rw [reads_base]
      simp [named]
    refine .bind (ensures_filterFor sound schema table .select) ?_
    rintro found s' ⟨sound', grows, decides⟩
    cases found with
    | none =>
      exact .pure ⟨sound', grows.congr only, .unguarded (.inr (guardOf_eq decides))⟩
    | some filter =>
      exact .pure ⟨sound', grows.congr only, .permitted named (guardOf_eq decides)⟩
  | step step earlier noFrom ihNested ihEarlier =>
    rw [wrap_step noFrom]
    refine .bind (ihNested sound) ?_
    rintro nested s₁ ⟨sound₁, grows₁, restricts₁⟩
    refine .bind (ihEarlier sound₁) ?_
    rintro earlier' s₂ ⟨sound₂, grows₂, restricts₂⟩
    refine .pure ⟨sound₂, grows₁.trans grows₂ (reads_step noFrom), .step noFrom ?_ restricts₂⟩
    -- What was found for the nested operation stays as it was.
    refine restricts₁.congr fun schema table h => ?_
    obtain ⟨found, decides⟩ := grows₁.decided schema table h
    exact guardOf_of_grows grows₂ decides

/-- An operation that reads a table without a declaration cannot be filtered. -/
theorem wrap_undeclared (op : Operation) {schema table : String} (read : op.Reads schema table)
    (undeclared : filters.find? schema table = none) (out : Operation) (s' : FilterState)
    (sound : s.Sound filters.tables) : wrap filters op s ≠ .ok out s' := by
  intro run
  obtain ⟨-, grows, -⟩ := (ensures_wrap op sound).of_ok run
  obtain ⟨_, key, config, hfind, -⟩ := grows.decided schema table read
  rw [undeclared] at hfind
  cases hfind

end Filtering

end FluentQuery
