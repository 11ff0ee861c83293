import FluentQuery.Proofs.Operation.Normalization

/-!
# The tables of a statement

The tables of a query are counted as its calls add them: number zero is what it starts from, number
`k` is the `k`-th query joined to it.  The normal form keeps that count as long as no filter of window
results comes between two joins; such a filter puts everything before it into a derived table, and
the joins after it are counted anew.  `Operation.joined_normalize` says which joins are left,
`Operation.hidden` how many are out of sight.
-/

namespace FluentQuery

set_option autoImplicit false

/-! ### Tables that are named -/

namespace Expr

/-- The number of the table that a node names. -/
def tableIndex? : Expr → Option Int
  | column _ _ source => sourceIndex? source
  | booleanColumn _ _ source => sourceIndex? source
  | reference source _ => sourceIndex? source
  | _ => none

/-- The numbers of the tables that an expression names. -/
def tableIndices (e : Expr) : List Int :=
  e.walk.filterMap tableIndex?

/-- The tables that an expression names are those of its nodes. -/
theorem mem_tableIndices {e : Expr} {i : Int} :
    i ∈ e.tableIndices ↔ ∃ node ∈ e.walk, node.tableIndex? = some i :=
  List.mem_filterMap

end Expr

namespace Step

/-- The query that a step joins to the statement. -/
def joined? : Step → Option Operation
  | join _ inner _ _ _ => some inner
  | groupJoin inner _ _ _ _ _ => some inner
  | selectMany (first :: rest) _ _ _ _ => some (first :: rest)
  | _ => none

/-- The numbers of the tables that a step of a SELECT names. -/
def tableIndices (step : Step) : List Int :=
  if step.isCrud then [] else step.expressions.flatMap Expr.tableIndices

/-- The number of the table that the outer key of a join belongs to. -/
def outerTable? : Step → Option Int
  | join _ _ keys _ _ => keys.outerSource
  | groupJoin _ keys _ _ _ _ => keys.outerSource
  | _ => none

/-- The expression that a step of a SELECT holds. -/
def slot : Step → Expr
  | filter e | select e | groupBy e | sort _ e _ | page _ e | terminal _ e | contains e
  | aggregate _ e | join _ _ _ e _ | groupJoin _ _ e _ _ _ | selectMany _ _ e _ _ => e
  | fromSource _ _ _ _ | defaultIfEmpty | distinct | reverse | insert _ | update _ | delete _ =>
    .absent

/-- A step of a SELECT names the tables that its expression names. -/
theorem tableIndices_eq (step : Step) : step.tableIndices = step.slot.tableIndices := by
  have single (e : Expr) :
      ([e].filter fun e => !e.isAbsent).flatMap Expr.tableIndices = e.tableIndices := by
    cases e with
    | absent => rfl
    | _ => exact List.append_nil _
  cases step with
  | fromSource | defaultIfEmpty | distinct | reverse | insert | update | delete => rfl
  | _ => exact single _

@[simp] theorem tableIndices_withNested (step : Step) (op : Operation) :
    (step.withNested op).tableIndices = step.tableIndices := by
  cases step <;> rfl

@[simp] theorem outerTable?_withNested (step : Step) (op : Operation) :
    (step.withNested op).outerTable? = step.outerTable? := by
  cases step <;> rfl

theorem tableIndices_from {step : Step} (h : step.isFrom = true) : step.tableIndices = [] := by
  cases step with
  | fromSource => rfl
  | _ => cases h

end Step

namespace Operation

/-- The queries joined in a statement, in the order of the calls. -/
def joined : Operation → List Operation
  | [] => []
  | step :: earlier => if step.isFrom then [] else joined earlier ++ step.joined?.toList

/-- A number is that of a table of the query. -/
def HasTable (op : Operation) (i : Int) : Prop :=
  0 ≤ i ∧ i < (joined op).length + 1

@[simp] theorem joined_from {step : Step} (h : step.isFrom = true) (earlier : Operation) :
    joined (step :: earlier) = [] := by
  rw [joined, if_pos h]

/-- A step joins one table or none. -/
theorem joined_step {step : Step} (h : step.isFrom = false) (earlier : Operation) :
    joined (step :: earlier) = joined earlier ++ step.joined?.toList := by
  rw [joined, h, if_neg Bool.false_ne_true]

/-- A later call takes no table away. -/
theorem HasTable.later {step : Step} (isFrom : step.isFrom = false) {op : Operation} {i : Int}
    (h : op.HasTable i) : HasTable (step :: op) i := by
  refine ⟨h.1, ?_⟩
  rw [joined_step isFrom, List.length_append]
  have := h.2
  omega

/-! ### Properties of all steps -/

/-- Every step that is read, in the query or in a query nested in it, has a property together with
what precedes it. -/
inductive Everywhere (p : Step → Operation → Prop) : Operation → Prop where
  | nil : Everywhere p []
  | start {step : Step} {earlier : Operation} (isFrom : step.isFrom = true)
      (nested : Everywhere p step.nested) : Everywhere p (step :: earlier)
  | step {step : Step} {earlier : Operation} (isFrom : step.isFrom = false) (here : p step earlier)
      (nested : Everywhere p step.nested) (below : Everywhere p earlier) :
      Everywhere p (step :: earlier)

mutual

/-- Whether every step of the operation nested in a step passes a test. -/
def nestedPasses (test : Step → Operation → Bool) : Step → Bool
  | .fromSource _ _ subquery _ => passes test subquery
  | .join _ inner _ _ _ => passes test inner
  | .groupJoin inner _ _ _ _ _ => passes test inner
  | .selectMany collection _ _ _ _ => passes test collection
  | _ => true

/-- Whether every step that is read passes a test together with what precedes it. -/
def passes (test : Step → Operation → Bool) : List Step → Bool
  | [] => true
  | step :: earlier =>
    nestedPasses test step && (step.isFrom || (test step earlier && passes test earlier))

end

/-- What is nested in a step is tested as an operation. -/
theorem nestedPasses_eq (test : Step → Operation → Bool) (step : Step) :
    nestedPasses test step = passes test step.nested := by
  cases step <;> simp only [nestedPasses, Step.nested, passes]

/-- A test is passed if it holds of every step, nested ones included. -/
theorem passes_iff {test : Step → Operation → Bool} {op : Operation} :
    passes test op = true ↔ op.Everywhere fun step earlier => test step earlier = true := by
  constructor
  · induction op using reading_induction with
    | nil => exact fun _ => .nil
    | base => exact fun _ => .start rfl .nil
    | derived table schema subquery aliasHint earlier _ ih =>
      intro h
      refine .start rfl (ih ?_)
      simpa [passes, nestedPasses, Step.isFrom] using h
    | step step earlier isFrom ihNested ihEarlier =>
      intro h
      simp only [passes, nestedPasses_eq, isFrom, Bool.false_or, Bool.and_eq_true] at h
      exact .step isFrom h.2.1 (ihNested h.1) (ihEarlier h.2.2)
  · intro h
    induction h with
    | nil => rfl
    | start isFrom _ ih => simp [passes, nestedPasses_eq, isFrom, ih]
    | step isFrom here _ _ ihNested ihBelow =>
      simp [passes, nestedPasses_eq, isFrom, here, ihNested, ihBelow]

/-- A step names tables that the query has: a joined table may be named as soon as it is joined, the
outer key of a join belongs to a table before it. -/
structure NamesTables (step : Step) (earlier : Operation) : Prop where
  indices : ∀ i ∈ step.tableIndices, HasTable (step :: earlier) i
  outer : ∀ i ∈ step.outerTable?, earlier.HasTable i
  /-- What is joined remains a query when it is lowered. -/
  nested : step.nested ≠ [] → lowerJoins step.nested ≠ []

/-- Every number in a query is that of a table it has. -/
def Numbered (op : Operation) : Prop :=
  op.Everywhere NamesTables

/-! ### Window results -/

/-- Whether window results have been selected that no filter has come after. -/
def windowed : Operation → Bool
  | [] => false
  | .fromSource _ _ _ _ :: _ => false
  | .select selector :: earlier => selector.hasWindow || windowed earlier
  | .filter _ :: _ => false
  | _ :: earlier => windowed earlier

/-- How many of the joins are out of sight, in the derived table of window results that are
filtered. -/
def hidden : Operation → Nat
  | [] => 0
  | .fromSource _ _ _ _ :: _ => 0
  | .filter _ :: earlier => if windowed earlier then (joined earlier).length else hidden earlier
  | _ :: earlier => hidden earlier

/-- No filter of window results stands between two joins. -/
def JoinsTogether (op : Operation) : Prop :=
  op.Everywhere fun step earlier => step.joined?.isSome = true → hidden earlier = 0

instance (op : Operation) : Decidable op.JoinsTogether :=
  decidable_of_iff (passes (fun step earlier => !step.joined?.isSome || hidden earlier = 0) op) <| by
    rw [passes_iff, JoinsTogether]
    simp only [Bool.or_eq_true, Bool.not_eq_true', decide_eq_true_eq, ← Bool.not_eq_true,
      Decidable.imp_iff_not_or]

/-- Only a `where` puts joins out of sight. -/
theorem hidden_step {step : Step} (isFrom : step.isFrom = false)
    (notFilter : ∀ predicate, step ≠ .filter predicate) (op : Operation) :
    hidden (step :: op) = hidden op := by
  cases step with
  | fromSource => cases isFrom
  | filter predicate => exact absurd rfl (notFilter predicate)
  | _ => rfl

theorem hidden_from {step : Step} (isFrom : step.isFrom = true) (op : Operation) :
    hidden (step :: op) = 0 := by
  cases step with
  | fromSource => rfl
  | _ => cases isFrom

/-- No more joins are out of sight than there are. -/
theorem hidden_le (op : Operation) : hidden op ≤ (joined op).length := by
  induction op with
  | nil => exact Nat.le_refl 0
  | cons step op ih =>
    cases isFrom : step.isFrom with
    | true =>
      rw [hidden_from isFrom]
      exact Nat.zero_le _
    | false =>
      have grows : (joined op).length ≤ (joined (step :: op)).length := by
        rw [joined_step isFrom, List.length_append]
        exact Nat.le_add_right ..
      refine Nat.le_trans ?_ grows
      cases step with
      | filter predicate =>
        simp only [hidden]
        split
        · exact Nat.le_refl _
        · exact ih
      | _ =>
        rw [hidden_step isFrom (by simp)]
        exact ih

/-! ### The normal form of one more call -/

theorem normalize_from {step : Step} (h : step.isFrom = true) (earlier : Operation) :
    normalize (step :: earlier) = step.withNested (normalize step.nested) :: earlier := by
  have isFrom : (step.withNested (lowerJoins step.nested)).isFrom = true := by
    rw [Step.isFrom_withNested, h]
  rw [normalize, lowerJoins_from h, isolateWindows_from isFrom, Step.withNested_withNested,
    nested_pass step lowerJoins_nil]
  rfl

@[simp] theorem normalize_nil : normalize [] = [] := by
  rw [normalize, lowerJoins_nil, isolateWindows_nil]

/-- What the normal form of a query becomes when a step is added to the query. -/
inductive Grows (step : Step) (op : Operation) : Operation → Prop where
  /-- Marks for empty collections are dropped. -/
  | dropped (is : step = .defaultIfEmpty) : Grows step op (normalize op)
  /-- A filter of window results looks at a derived table. -/
  | moved (predicate : Expr) (is : step = .filter predicate)
      (window : selectsWindow (normalize op) = true) :
      Grows step op [.filter predicate, .fromSource "" "" (normalize op) ""]
  /-- A group that is flattened at once becomes a join. -/
  | flattened (collection : Operation) (path : String) (selector : Expr)
      (shape : Option ResultShape) (usesDefault : Bool) (kind : JoinKind) (inner : Operation)
      (keys : JoinKeys) (groupSelector : Expr) (groupShape : Option ResultShape) (outerName : String)
      (rest : Operation) (is : step = .selectMany collection path selector shape usesDefault)
      (empty : lowerJoins collection = [])
      (group : normalize op = .groupJoin inner keys groupSelector groupShape outerName path :: rest) :
      Grows step op (.join kind inner keys selector shape :: rest)
  /-- An independent collection becomes a cross join. -/
  | crossed (collection : Operation) (path : String) (selector : Expr)
      (shape : Option ResultShape) (usesDefault : Bool)
      (is : step = .selectMany collection path selector shape usesDefault)
      (nonempty : lowerJoins collection ≠ []) :
      Grows step op (.join .cross (normalize collection) {} selector shape :: normalize op)
  /-- Any other step is put on top. -/
  | kept (filters : ∀ predicate, step = .filter predicate → selectsWindow (normalize op) = false)
      (marks : step ≠ .defaultIfEmpty)
      (flattens : ∀ collection path selector shape usesDefault,
        step = .selectMany collection path selector shape usesDefault → lowerJoins collection = []) :
      Grows step op (step.withNested (normalize step.nested) :: normalize op)

/-- A collection becomes a cross join, is joined with its group, or stays as it is. -/
theorem lowerSelectMany_cases (collection : Operation) (path : String) (selector : Expr)
    (shape : Option ResultShape) (usesDefault : Bool) (earlier : Operation) :
    (collection ≠ [] ∧ lowerSelectMany collection path selector shape usesDefault earlier =
      .join .cross collection {} selector shape :: earlier) ∨
    (collection = [] ∧ ∃ kind inner keys groupSelector groupShape outerName rest,
      earlier = .groupJoin inner keys groupSelector groupShape outerName path :: rest ∧
      lowerSelectMany collection path selector shape usesDefault earlier =
        .join kind inner keys selector shape :: rest) ∨
    (collection = [] ∧ lowerSelectMany collection path selector shape usesDefault earlier =
      .selectMany collection path selector shape usesDefault :: earlier) := by
  unfold lowerSelectMany
  split
  · split
    · rename_i same
      subst same
      exact .inr (.inl ⟨rfl, _, _, _, _, _, _, _, rfl, rfl⟩)
    · exact .inr (.inr ⟨rfl, rfl⟩)
  · exact .inr (.inr ⟨rfl, rfl⟩)
  · rename_i nonempty _
    exact .inl ⟨nonempty, rfl⟩

/-- A step that is added changes the normal form in one of these ways. -/
theorem grows_normalize {step : Step} (isFrom : step.isFrom = false) (op : Operation) :
    Grows step op (normalize (step :: op)) := by
  have lowered : normalize (step :: op) =
      isolateWindows (lowerStep (step.withNested (lowerJoins step.nested)) (lowerJoins op)) := by
    rw [normalize, lowerJoins_step isFrom]
  -- Steps that lowering leaves in place are isolated as they are, unless they filter.
  have onTop (other : Step) (isFrom : other.isFrom = false)
      (notFilter : ∀ predicate, other ≠ .filter predicate) :
      isolateWindows (other :: lowerJoins op) =
        other.withNested (isolateWindows other.nested) :: normalize op := by
    rw [isolateWindows_step isFrom]
    rcases isolateStep_cases (other.withNested (isolateWindows other.nested))
      (isolateWindows (lowerJoins op)) with kept | ⟨⟨predicate, hfilter⟩, -, -⟩
    · exact kept
    · cases other with
      | filter => exact absurd rfl (notFilter _)
      | _ => cases hfilter
  rw [lowered]
  cases step with
  | fromSource => cases isFrom
  | defaultIfEmpty => exact .dropped rfl
  | filter predicate =>
    have isolated : isolateWindows (.filter predicate :: lowerJoins op) =
        isolateStep (.filter predicate) (normalize op) := isolateWindows_step rfl _
    simp only [Step.withNested, lowerStep, isolated, isolateStep]
    split
    · exact .moved predicate rfl ‹_›
    · exact .kept (fun _ _ => by simpa using ‹¬ selectsWindow (normalize op) = true›) (by simp)
        (by simp)
  | selectMany collection path selector shape usesDefault =>
    simp only [Step.nested, Step.withNested, lowerStep]
    rcases lowerSelectMany_cases (lowerJoins collection) path selector shape usesDefault
      (lowerJoins op) with ⟨nonempty, crossed⟩ | ⟨empty, kind, inner, keys, groupSelector,
      groupShape, outerName, rest, group, flattened⟩ | ⟨empty, kept⟩
    · rw [crossed, onTop _ rfl (by simp)]
      exact .crossed collection path selector shape usesDefault rfl nonempty
    · rw [flattened, isolateWindows_step rfl]
      have below : normalize op = .groupJoin (isolateWindows inner) keys groupSelector groupShape
          outerName path :: isolateWindows rest := by
        rw [normalize, group, isolateWindows_step rfl]
        rfl
      exact .flattened collection path selector shape usesDefault kind _ keys groupSelector
        groupShape outerName _ rfl empty below
    · rw [kept, onTop _ rfl (by simp)]
      refine .kept (by simp) (by simp) ?_
      rintro _ _ _ _ _ ⟨⟩
      exact empty
  | _ =>
    simp only [Step.nested, Step.withNested, lowerStep]
    rw [onTop _ rfl (by simp)]
    exact .kept (by simp) (by simp) (by simp)

/-! ### What the normal form makes of the tables -/

/-- The window results that a filter would look at are those of the normal form. -/
theorem selectsWindow_normalize (op : Operation) : selectsWindow (normalize op) = windowed op := by
  induction op using reading_induction with
  | nil =>
    rw [normalize_nil]
    rfl
  | base | derived =>
    rw [normalize_from rfl]
    rfl
  | step step op isFrom _ ih =>
    have grown := grows_normalize isFrom op
    generalize normalize (step :: op) = normal at grown ⊢
    cases grown with
    | dropped is =>
      subst is
      exact ih
    | moved predicate is window =>
      subst is
      rfl
    | flattened collection path selector shape usesDefault kind inner keys groupSelector groupShape
        outerName rest is empty group =>
      subst is
      rw [group] at ih
      exact ih
    | crossed collection path selector shape usesDefault is =>
      subst is
      exact ih
    | kept filters =>
      cases step with
      | fromSource => cases isFrom
      | filter predicate => exact filters predicate rfl
      | select selector => exact congrArg (selector.hasWindow || ·) ih
      | _ => exact ih

/-- The joins of a normal form are those of the query that are not hidden, in normal form. -/
theorem joined_normalize {op : Operation} (h : op.Numbered) :
    joined (normalize op) = ((joined op).drop (hidden op)).map normalize := by
  induction h with
  | nil =>
    rw [normalize_nil]
    rfl
  | @start step earlier isFrom nested _ =>
    rw [normalize_from isFrom, joined_from isFrom, joined_from, List.drop_nil]
    · rfl
    · rw [Step.isFrom_withNested, isFrom]
  | @step step op isFrom here nested below _ ih =>
    have visible (other : List Operation) :
        ((joined op ++ other).drop (hidden op)).map normalize =
          joined (normalize op) ++ other.map normalize := by
      rw [List.drop_append_of_le_length (hidden_le op), List.map_append, ih]
    rw [joined_step isFrom]
    have grown := grows_normalize isFrom op
    generalize normalize (step :: op) = normal at grown ⊢
    cases grown with
    | dropped is =>
      subst is
      exact ((visible []).trans (List.append_nil _)).symm
    | moved predicate is window =>
      subst is
      rw [selectsWindow_normalize] at window
      simp [hidden, window, Step.joined?, joined, Step.isFrom]
    | flattened collection path selector shape usesDefault kind inner keys groupSelector groupShape
        outerName rest is empty group =>
      subst is
      cases collection with
      | cons first tail => exact absurd empty (here.nested (List.cons_ne_nil _ _))
      | nil =>
        rw [group] at visible
        exact ((visible []).trans (List.append_nil _)).symm
    | crossed collection path selector shape usesDefault is nonempty =>
      subst is
      cases collection with
      | nil => exact absurd lowerJoins_nil nonempty
      | cons first tail => exact (visible [first :: tail]).symm
    | kept filters marks flattens =>
      cases step with
      | fromSource => cases isFrom
      | filter predicate =>
        have window := filters predicate rfl
        rw [selectsWindow_normalize] at window
        simp only [hidden, window]
        exact (visible []).symm
      | join kind inner => exact (visible [inner]).symm
      | groupJoin inner => exact (visible [inner]).symm
      | selectMany collection path selector shape usesDefault =>
        cases collection with
        | cons first tail =>
          have empty := flattens _ path selector shape usesDefault rfl
          exact absurd empty (here.nested (List.cons_ne_nil _ _))
        | nil =>
          rw [Step.nested, normalize_nil]
          exact (visible []).symm
      | _ => exact (visible []).symm

/-- The joins that are hidden and those that are left. -/
theorem hidden_add_joined_normalize {op : Operation} (h : op.Numbered) :
    hidden op + (joined (normalize op)).length = (joined op).length := by
  rw [joined_normalize h, List.length_map, List.length_drop]
  have := hidden_le op
  omega

/-- If joins stand together, a statement that joins anything joins all tables of the query. -/
theorem JoinsTogether.hidden_eq_zero {op : Operation} (together : op.JoinsTogether)
    (numbered : op.Numbered) (joins : joined (normalize op) ≠ []) : hidden op = 0 := by
  induction together with
  | nil => rfl
  | start isFrom => exact hidden_from isFrom _
  | @step step op isFrom here nested below _ ih =>
    have visible := joined_normalize numbered
    cases numbered with
    | start notFrom => cases notFrom.symm.trans isFrom
    | step _ _ _ numberedBelow =>
      cases hjoined : step.joined? with
      | some inner =>
        rw [hidden_step isFrom, here (by rw [hjoined]; rfl)]
        rintro predicate rfl
        cases hjoined
      | none =>
        have same : joined (step :: op) = joined op := by
          rw [joined_step isFrom, hjoined]
          exact List.append_nil _
        rw [same] at visible
        have keeps (h : hidden (step :: op) = hidden op) : hidden (step :: op) = 0 := by
          rw [h] at visible ⊢
          refine ih numberedBelow ?_
          rw [joined_normalize numberedBelow, ← visible]
          exact joins
        cases step with
        | fromSource => cases isFrom
        | filter predicate =>
          cases window : windowed op with
          | false => exact keeps (by simp [hidden, window])
          | true =>
            rw [visible] at joins
            simp [hidden, window] at joins
        | _ => exact keeps rfl

/-! ### Numbers in the normal form -/

/-- A level is a step and the level before it. -/
theorem forall_level_step {q : Step → Prop} {step : Step} (h : step.isFrom = false)
    (earlier : Operation) :
    (∀ other ∈ level (step :: earlier), q other) ↔ q step ∧ ∀ other ∈ level earlier, q other := by
  rw [level_step h, List.forall_mem_cons]

theorem forall_level_from {q : Step → Prop} {step : Step} (h : step.isFrom = true)
    (earlier : Operation) : (∀ other ∈ level (step :: earlier), q other) ↔ q step := by
  rw [level_from h]
  exact List.forall_mem_singleton

/-- Every number in a statement is that of a table of the query it was made from. -/
theorem hasTable_normalize {op : Operation} (h : op.Numbered) :
    ∀ step ∈ level (normalize op), ∀ i ∈ step.tableIndices, op.HasTable i := by
  induction h with
  | nil =>
    rw [normalize_nil]
    rintro step ⟨⟩
  | @start step earlier isFrom nested _ =>
    have isFrom' : (step.withNested (normalize step.nested)).isFrom = true := by
      rw [Step.isFrom_withNested, isFrom]
    rw [normalize_from isFrom, forall_level_from isFrom', Step.tableIndices_from isFrom']
    rintro i ⟨⟩
  | @step step op isFrom here nested below _ ih =>
    have earlier : ∀ other ∈ level (normalize op), ∀ i ∈ other.tableIndices,
        HasTable (step :: op) i :=
      fun other hother i hi => (ih other hother i hi).later isFrom
    have grown := grows_normalize isFrom op
    generalize normalize (step :: op) = normal at grown ⊢
    cases grown with
    | dropped is => exact earlier
    | moved predicate is =>
      subst is
      rw [forall_level_step rfl, forall_level_from rfl]
      exact ⟨here.indices, by rintro i ⟨⟩⟩
    | flattened collection path selector shape usesDefault kind inner keys groupSelector groupShape
        outerName rest is empty group =>
      subst is
      rw [group, forall_level_step rfl] at earlier
      rw [forall_level_step rfl]
      exact ⟨here.indices, earlier.2⟩
    | crossed collection path selector shape usesDefault is =>
      subst is
      rw [forall_level_step rfl]
      exact ⟨here.indices, earlier⟩
    | kept =>
      rw [forall_level_step (by rw [Step.isFrom_withNested, isFrom]), Step.tableIndices_withNested]
      exact ⟨here.indices, earlier⟩

/-- The outer key of every join belongs to a table before it, when the tables out of sight are counted
too. -/
def OuterKeysEarlier (out : Nat) : Operation → Prop
  | [] => True
  | step :: earlier =>
    if step.isFrom then True
    else (∀ i ∈ step.outerTable?, 0 ≤ i ∧ i < out + (joined earlier).length + 1) ∧
      OuterKeysEarlier out earlier

theorem outerKeysEarlier_from {out : Nat} {step : Step} (h : step.isFrom = true)
    (earlier : Operation) : OuterKeysEarlier out (step :: earlier) := by
  rw [OuterKeysEarlier, if_pos h]
  trivial

theorem outerKeysEarlier_step {out : Nat} {step : Step} (h : step.isFrom = false)
    (earlier : Operation) : OuterKeysEarlier out (step :: earlier) ↔
      (∀ i ∈ step.outerTable?, 0 ≤ i ∧ i < out + (joined earlier).length + 1) ∧
        OuterKeysEarlier out earlier := by
  rw [OuterKeysEarlier, h, if_neg Bool.false_ne_true]

/-- In a normal form the outer key of every join names a table before it. -/
theorem outerKeysEarlier_normalize {op : Operation} (h : op.Numbered) :
    OuterKeysEarlier (hidden op) (normalize op) := by
  induction h with
  | nil =>
    rw [normalize_nil]
    trivial
  | @start step earlier isFrom nested _ =>
    rw [normalize_from isFrom]
    refine outerKeysEarlier_from ?_ _
    rw [Step.isFrom_withNested, isFrom]
  | @step step op isFrom here nested below _ ih =>
    have grown := grows_normalize isFrom op
    generalize normalize (step :: op) = normal at grown ⊢
    cases grown with
    | dropped is =>
      subst is
      exact ih
    | moved predicate is =>
      rw [outerKeysEarlier_step rfl]
      exact ⟨by rintro i ⟨⟩, outerKeysEarlier_from rfl _⟩
    | flattened collection path selector shape usesDefault kind inner keys groupSelector groupShape
        outerName rest is empty group =>
      subst is
      rw [group, outerKeysEarlier_step rfl] at ih
      rw [outerKeysEarlier_step rfl]
      exact ih
    | crossed collection path selector shape usesDefault is =>
      subst is
      rw [outerKeysEarlier_step rfl]
      exact ⟨by rintro i ⟨⟩, ih⟩
    | kept filters =>
      have same : hidden (step :: op) = hidden op := by
        cases step with
        | filter predicate =>
          have window := filters predicate rfl
          rw [selectsWindow_normalize] at window
          simp [hidden, window]
        | _ => exact hidden_step isFrom (by simp) op
      rw [same, outerKeysEarlier_step (by rw [Step.isFrom_withNested, isFrom]),
        Step.outerTable?_withNested]
      refine ⟨fun i hi => ?_, ih⟩
      have before := here.outer i hi
      have count := hidden_add_joined_normalize below
      exact ⟨before.1, by have := before.2; omega⟩

/-! ### Parts of the normal form -/

/-- `Behind op written`: the calls `written` get a statement of their own within that of `op`.  They
are a query that a step holds, or they select window results that are filtered. -/
inductive Behind : Operation → Operation → Prop where
  | nested {step : Step} (holds : step.nested ≠ []) (earlier : Operation) :
      Behind (step :: earlier) step.nested
  | deeper {step : Step} {written : Operation} (below : Behind step.nested written)
      (earlier : Operation) : Behind (step :: earlier) written
  | filtered {op : Operation} (predicate : Expr) (window : windowed op = true) :
      Behind (.filter predicate :: op) op
  | earlier {step : Step} {op written : Operation} (isFrom : step.isFrom = false)
      (below : Behind op written) : Behind (step :: op) written

/-- What is behind calls that are behind an operation is behind it too. -/
theorem Behind.trans {op middle written : Operation} (h : Behind op middle)
    (h' : Behind middle written) : Behind op written := by
  induction h with
  | nested _ earlier => exact .deeper h' earlier
  | deeper _ earlier ih => exact .deeper (ih h') earlier
  | filtered => exact .earlier rfl h'
  | earlier isFrom _ ih => exact .earlier isFrom (ih h')

/-- What holds everywhere in an operation holds everywhere in the calls behind it. -/
theorem Everywhere.behind {p : Step → Operation → Prop} {op written : Operation}
    (h : op.Everywhere p) (behind : Behind op written) : written.Everywhere p := by
  induction behind with
  | nested =>
    cases h with
    | start _ nested | step _ _ nested => exact nested
  | deeper _ _ ih =>
    cases h with
    | start _ nested | step _ _ nested => exact ih nested
  | filtered =>
    cases h with
    | start isFrom => cases isFrom
    | step _ _ _ below => exact below
  | earlier isFrom _ ih =>
    cases h with
    | start isFrom' => cases isFrom.symm.trans isFrom'
    | step _ _ _ below => exact ih below

/-- The normal form of a query has a statement for some of its calls: for all of them, or for calls
behind them. -/
def States (op written : Operation) : Prop :=
  written = op ∨ Behind op written

/-- It holds everywhere in the calls that get a statement. -/
theorem Everywhere.states {p : Step → Operation → Prop} {op written : Operation}
    (h : op.Everywhere p) (states : op.States written) : written.Everywhere p := by
  rcases states with rfl | behind
  · exact h
  · exact h.behind behind

/-- A query nested in a statement of the normal form is the normal form of calls behind it. -/
theorem nested_normalize (op : Operation) :
    ∀ step ∈ level (normalize op), step.nested ≠ [] →
      ∃ written, Behind op written ∧ step.nested = normalize written := by
  have own (step : Step) (earlier : Operation)
      (holds : (step.withNested (normalize step.nested)).nested ≠ []) :
      ∃ written, Behind (step :: earlier) written ∧
        (step.withNested (normalize step.nested)).nested = normalize written := by
    rw [nested_pass step normalize_nil] at holds ⊢
    refine ⟨_, .nested (fun empty => holds ?_) earlier, rfl⟩
    rw [empty, normalize_nil]
  induction op with
  | nil =>
    rw [normalize_nil]
    rintro step ⟨⟩
  | cons step op ih =>
    cases isFrom : step.isFrom with
    | true =>
      rw [normalize_from isFrom, forall_level_from (by rw [Step.isFrom_withNested, isFrom])]
      exact own step op
    | false =>
      have below : ∀ other ∈ level (normalize op), other.nested ≠ [] →
          ∃ written, Behind (step :: op) written ∧ other.nested = normalize written := by
        intro other hother holds
        obtain ⟨written, behind, same⟩ := ih other hother holds
        exact ⟨written, .earlier isFrom behind, same⟩
      have grown := grows_normalize isFrom op
      generalize normalize (step :: op) = normal at grown ⊢
      cases grown with
      | dropped => exact below
      | moved predicate is window =>
        subst is
        rw [selectsWindow_normalize] at window
        rw [forall_level_step rfl, forall_level_from rfl]
        exact ⟨absurd rfl, fun _ => ⟨op, .filtered predicate window, rfl⟩⟩
      | flattened collection path selector shape usesDefault kind inner keys groupSelector groupShape
          outerName rest is empty group =>
        rw [group, forall_level_step rfl] at below
        rw [forall_level_step rfl]
        exact below
      | crossed collection path selector shape usesDefault is =>
        subst is
        rw [forall_level_step rfl]
        exact ⟨own (.selectMany collection path selector shape usesDefault) op, below⟩
      | kept =>
        rw [forall_level_step (by rw [Step.isFrom_withNested, isFrom])]
        exact ⟨own step op, below⟩

/-- Parts of a normal form are normal forms of calls that get a statement. -/
theorem part_normalize {op part : Operation} {holder holder' : Option Step}
    (read : Part holder (normalize op) holder' part) :
    ∃ written, op.States written ∧ part = normalize written := by
  generalize normal : normalize op = root at read
  induction read generalizing op with
  | whole => exact ⟨op, .inl rfl, normal.symm⟩
  | nested hlevel holds _ ih =>
    subst normal
    obtain ⟨middle, behind, same⟩ := nested_normalize op _ hlevel holds
    obtain ⟨written, rfl | deeper, hpart⟩ := ih same.symm
    · exact ⟨written, .inr behind, hpart⟩
    · exact ⟨written, .inr (behind.trans deeper), hpart⟩

/-- A statement joins nothing, or all that its calls join, in the same order. -/
def JoinsAll (written : Operation) : Prop :=
  joined (normalize written) = [] ∨ joined (normalize written) = (joined written).map normalize

/-- A statement that joins something joins all if none of its joins is out of sight. -/
theorem joinsAll_iff {written : Operation} (numbered : written.Numbered) :
    written.JoinsAll ↔ joined (normalize written) = [] ∨ hidden written = 0 := by
  refine or_congr_right ⟨fun all => ?_, fun none => ?_⟩
  · have count := hidden_add_joined_normalize numbered
    rw [all, List.length_map] at count
    omega
  · rw [joined_normalize numbered, none]
    rfl

/-- One more call that joins nothing keeps the joins of a statement, or puts them behind. -/
theorem joinsAll_earlier {step : Step} {op : Operation} (isFrom : step.isFrom = false)
    (numbered : Numbered (step :: op)) (below : op.Numbered)
    (all : ∀ written, States (step :: op) written → JoinsAll written) :
    op.JoinsAll := by
  have whole := (joinsAll_iff numbered).1 (all _ (.inl rfl))
  have visible := joined_normalize numbered
  have keeps (same : hidden (step :: op) = hidden op) : op.JoinsAll := by
    rw [joined_step isFrom, same, List.drop_append_of_le_length (hidden_le op), List.map_append,
      ← joined_normalize below] at visible
    rw [joinsAll_iff below, ← same]
    refine whole.imp_left fun none => ?_
    rw [visible] at none
    exact (List.append_eq_nil_iff.1 none).1
  cases step with
  | filter predicate =>
    cases window : windowed op with
    | true => exact all op (.inr (.filtered predicate window))
    | false => exact keeps (by simp [hidden, window])
  | _ => exact keeps (hidden_step isFrom (by simp) op)

/-- Joins stand together exactly if every statement joins nothing, or all that its calls join. -/
theorem joinsTogether_iff {op : Operation} (numbered : op.Numbered) :
    op.JoinsTogether ↔ ∀ written, op.States written → written.JoinsAll := by
  constructor
  · intro together written states
    have together' : written.JoinsTogether := Everywhere.states together states
    have numbered' : written.Numbered := Everywhere.states numbered states
    rw [joinsAll_iff numbered']
    by_cases joins : joined (normalize written) = []
    · exact .inl joins
    · exact .inr (together'.hidden_eq_zero numbered' joins)
  · have own {step : Step} {earlier : Operation}
        (all : ∀ written, States (step :: earlier) written → JoinsAll written) :
        ∀ written, step.nested.States written → JoinsAll written := by
      rintro written (rfl | behind)
      · by_cases holds : step.nested = []
        · rw [holds]
          exact .inl (by rw [normalize_nil]; rfl)
        · exact all _ (.inr (.nested holds earlier))
      · exact all _ (.inr (.deeper behind earlier))
    intro all
    have whole := numbered
    induction numbered with
    | nil => exact .nil
    | start isFrom nested ih => exact .start isFrom (ih (own all) nested)
    | @step step op isFrom here nested below ihNested ihBelow =>
      refine .step isFrom (fun joins => ?_) (ihNested (own all) nested) (ihBelow ?_ below)
      · obtain ⟨inner, hinner⟩ := Option.isSome_iff_exists.1 joins
        have same : hidden (step :: op) = hidden op := by
          refine hidden_step isFrom ?_ op
          rintro _ rfl
          cases hinner
        rw [← same]
        refine ((joinsAll_iff whole).1 (all _ (.inl rfl))).resolve_left fun none => ?_
        have count := hidden_add_joined_normalize whole
        have := hidden_le op
        rw [none, joined_step isFrom, hinner, same] at count
        simp at count
        omega
      · rintro written (rfl | behind)
        · exact joinsAll_earlier isFrom whole below all
        · exact all _ (.inr (.earlier isFrom behind))

end Operation

end FluentQuery
