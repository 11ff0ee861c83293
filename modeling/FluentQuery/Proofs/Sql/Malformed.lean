import FluentQuery.Proofs.Operation.Sound
import FluentQuery.Proofs.Sql.Faults

/-!
# Sound queries are written without a missing or misplaced expression

In a predicate position only predicates are rendered, and nowhere is an expression rendered that is not
there.  A complete step has predicates where its clause needs them (`Step.Complete.legible`), so a sound
query never fails with such a fault: `Operation.Sound.avoids_malformed`.
-/

namespace FluentQuery

set_option autoImplicit false

open FluentQuery.Expr (Filled)

/-- The fault of an expression that is missing, or that is no predicate where one is needed. -/
def SqlFault.IsMalformed : SqlFault → Prop
  | missingExpression => True
  | unsupportedExpression position _ => position = "boolean"
  | _ => False

theorem SqlFault.within_isMalformed : Sql.Concerns SqlFault.IsMalformed := by
  intro fault h
  cases fault with
  | missingExpression | unsupportedExpression => trivial
  | _ => exact h.elim

/-! ### Expressions -/

namespace Expr

open Sql

/-- What a position needs of an expression. -/
def Fits (e : Expr) : Position → Prop
  | .predicate => e.isBoolean = true
  | _ => e ≠ absent

/-- In a position for values every expression fits that is there. -/
theorem fits_of_ne_predicate {e : Expr} (h : e ≠ absent) {position : Position}
    (value : position ≠ .predicate) : e.Fits position := by
  cases position with
  | predicate => exact absurd rfl value
  | value | «open» => exact h

theorem Fits.ne_absent {e : Expr} {position : Position} (h : e.Fits position) : e ≠ absent := by
  cases position with
  | predicate => exact ne_absent_of_isBoolean h
  | value | «open» => exact h

/-- In every position that it fits, an expression is rendered without a malformed part. -/
def WellRendered (scope : SqlScope) (e : Expr) : Prop :=
  ∀ position, e.Fits position → Avoids SqlFault.IsMalformed (e.sql scope position)

variable {scope : SqlScope} {e : Expr}

/-- An expression that is there can be written without a malformed node. -/
theorem WellRendered.readable (h : e.WellRendered scope) (there : e ≠ absent) :
    e.Renderable SqlFault.IsMalformed scope :=
  fun _ value => h _ (fits_of_ne_predicate there value)

/-- A value is not asked for as a predicate. -/
theorem avoids_inValue_of_fits {position : Position} (fits : e.Fits position)
    (isValue : e.isBoolean = false) (type : String) {rendered : Except SqlFault Fragment}
    (h : Avoids SqlFault.IsMalformed rendered) :
    Avoids SqlFault.IsMalformed (inValue position type rendered) := by
  cases position with
  | predicate => cases isValue.symm.trans fits
  | value | «open» => exact h

theorem avoids_aliasFor (index : Int) : Avoids SqlFault.IsMalformed (scope.aliasFor index) := by
  unfold SqlScope.aliasFor
  split
  · exact .error id
  · split
    · exact .ok
    · exact .error id

/-- A table that has no alias is another fault. -/
theorem avoids_qualifier (table : String) (source : Option ColumnSource) :
    Avoids SqlFault.IsMalformed (scope.qualifier table source) := by
  have first : Avoids SqlFault.IsMalformed
      (if !table.isEmpty then .ok (some table)
        else if scope.hasJoins then some <$> scope.aliasFor 0 else .ok none) := by
    split
    · exact .ok
    · split
      · exact (avoids_aliasFor 0).map
      · exact .ok
  have indexed (i : Int) : Avoids SqlFault.IsMalformed
      (if scope.hasJoins then some <$> scope.aliasFor i else .ok none) := by
    split
    · exact (avoids_aliasFor i).map
    · exact .ok
  cases source with
  | none => exact first
  | some source =>
    cases source with
    | direct => exact first
    | table => exact .ok
    | joinParam i | joinResult i | spread i => exact indexed i

theorem avoids_column (name table : String) (source : Option ColumnSource) :
    Avoids SqlFault.IsMalformed (scope.column name table source) := by
  refine .bind (avoids_qualifier table source) fun qualifier _ => ?_
  cases qualifier <;> exact .ok

theorem avoids_row (table : String) (source : Option ColumnSource) :
    Avoids SqlFault.IsMalformed (scope.row table source) := by
  refine .bind (avoids_qualifier table source) fun qualifier _ => ?_
  cases qualifier <;> exact .ok

theorem WellRendered.value (h : e.WellRendered scope) (there : e ≠ absent) :
    Avoids SqlFault.IsMalformed (e.sql scope .value) :=
  h .value there

theorem WellRendered.projected (h : e.WellRendered scope) (there : e ≠ absent) :
    Avoids SqlFault.IsMalformed (e.sql scope .open) :=
  h .open there

theorem WellRendered.predicate (h : e.WellRendered scope) (is : e.isBoolean = true) :
    Avoids SqlFault.IsMalformed (e.sql scope .predicate) :=
  h .predicate is

/-- A choice has conditions that are predicates, and results. -/
theorem wellRendered_caseWhen {conditions : List (Expr × Expr)} {elseResult : Expr}
    (here : ∀ c ∈ conditions, c.1.isBoolean = true ∧ c.2 ≠ absent)
    (below : ∀ e ∈ conditionChildren conditions, e.WellRendered scope)
    (last : elseResult.WellRendered scope) : (caseWhen conditions elseResult).WellRendered scope := by
  intro position fits
  unfold Expr.sql
  refine avoids_inValue_of_fits fits rfl _ ?_
  split
  · exact .error id
  · refine .bind (avoids_sqlConditions fun c hc => ?_) fun _ _ => ?_
    · obtain ⟨condition, result⟩ := mem_conditionChildren hc
      exact ⟨(below _ condition).predicate (here c hc).1, (below _ result).projected (here c hc).2⟩
    dsimp only
    split
    · exact .pure
    · rename_i present
      refine .bind (last.projected ?_) fun _ _ => .pure
      rintro rfl
      exact present rfl

/-- An aggregate has an operand, or is one of all rows. -/
theorem wellRendered_aggregate {operand : Expr} (h : operand.WellRendered scope)
    (function : AggregateFunction) : (aggregate function operand).WellRendered scope := by
  intro position fits
  unfold Expr.sql
  refine avoids_inValue_of_fits fits rfl _ ?_
  split
  · exact .pure
  · rename_i present
    refine .bind (h.value ?_) fun _ _ => .pure
    rintro rfl
    exact present rfl

/-- A window has all its keys. -/
theorem wellRendered_window {partitionBy : List Expr} {orderBy : List (Expr × Bool)}
    (here : (∀ e ∈ partitionBy, e ≠ absent) ∧ ∀ o ∈ orderBy, o.1 ≠ absent)
    (keys : ∀ e ∈ partitionBy, e.WellRendered scope) (orders : ∀ o ∈ orderBy, o.1.WellRendered scope)
    (function : WindowFunction) : (window function partitionBy orderBy).WellRendered scope := by
  intro position fits
  unfold Expr.sql
  exact avoids_inValue_of_fits fits rfl _
    (.bind (avoids_sqlList .value fun e he => (keys e he).value (here.1 e he)) fun _ _ =>
      .bind (avoids_sqlOrders fun o ho => (orders o ho).value (here.2 o ho)) fun _ _ => .pure)

/-- A negated test for membership in a parameter is written as one test. -/
theorem wellRendered_negation {operand : Expr} (here : operand.isBoolean = true)
    (h : operand.WellRendered scope)
    (deeper : operand.Filled ∧ ∀ d ∈ operand.children, d.WellRendered scope) :
    (negation operand).WellRendered scope := by
  intro position fits
  have negated : Avoids SqlFault.IsMalformed
      (operand.sql scope .predicate >>= fun text => .ok (Sql.negation scope.dialect text)) :=
    .bind (h.predicate here) fun _ _ => .ok
  obtain ⟨inside, operands⟩ := deeper
  cases operand with
  | membership tested list =>
    cases list with
    | param p property index =>
      have tested' := (operands tested (List.mem_cons_self ..)).value inside.1
      exact .bind tested' fun _ _ =>
        .bind (avoids_arrayItems SqlFault.within_isMalformed _ _) fun _ _ => .pure
    | _ => exact negated
  | _ => exact negated

/-- The elements of a list of values are operands of the test. -/
theorem wellRendered_membership {tested list : Expr} (here : tested ≠ absent)
    (h : tested.WellRendered scope) (deeper : list.Filled ∧ ∀ d ∈ list.children, d.WellRendered scope) :
    (membership tested list).WellRendered scope := by
  intro position fits
  have tested' := h.value here
  obtain ⟨inside, elements'⟩ := deeper
  cases list with
  | param =>
    exact .bind tested' fun _ _ =>
      .bind (avoids_arrayItems SqlFault.within_isMalformed _ _) fun _ _ => .pure
  | array elements =>
    have listed : Avoids SqlFault.IsMalformed (Expr.sqlList scope .open elements) :=
      avoids_sqlList .open fun e he => (elements' e he).projected (inside e he)
    exact .bind tested' fun _ _ => .bind listed fun _ _ => .pure
  | _ => exact .bind tested' fun _ _ => .error id

/-- An object has all its members. -/
theorem wellRendered_object {properties : List (String × Expr)}
    (here : ∀ m ∈ properties, m.2 ≠ absent) (below : ∀ m ∈ properties, m.2.WellRendered scope) :
    (object properties).WellRendered scope := by
  intro position fits
  cases position with
  | predicate => cases fits
  | value => exact .error (show "value" ≠ "boolean" by decide)
  | «open» =>
    have members : Avoids SqlFault.IsMalformed (Expr.sqlProperties scope properties) :=
      avoids_sqlProperties SqlFault.within_isMalformed fun m hm => (below m hm).readable (here m hm)
    unfold Expr.sql
    dsimp only
    split
    · exact .error id
    · exact .bind members fun _ _ => .pure

/-- A node without missing operands is well rendered if what stands below it is: its operands, and
those of a list of values and of a negated test, which are written by the node above. -/
theorem wellRendered_of_children (here : e.Filled) (below : ∀ c ∈ e.children, c.WellRendered scope)
    (deeper : ∀ c ∈ e.children, c.Filled ∧ ∀ d ∈ c.children, d.WellRendered scope) :
    e.WellRendered scope := by
  intro position fits
  cases e with
  | absent => exact absurd rfl fits.ne_absent
  | column name table source =>
    exact avoids_inValue_of_fits fits rfl _ (avoids_column name table source)
  | booleanColumn name table source => exact avoids_column name table source
  | reference source table => exact avoids_inValue_of_fits fits rfl _ (avoids_row table source)
  | excludedColumn | constant | param | allColumns =>
    exact avoids_inValue_of_fits fits rfl _ .ok
  | booleanConstant | booleanParam => exact .ok
  | arithmetic op left right | concat left right =>
    obtain ⟨left', right'⟩ := forall_mem_pair.1 below
    unfold Expr.sql
    exact avoids_inValue_of_fits fits rfl _
      (.bind (right'.value here.2) fun _ _ => .bind (left'.value here.1) fun _ _ => .pure)
  | stringMethod method operand =>
    unfold Expr.sql
    exact avoids_inValue_of_fits fits rfl _ (.bind ((List.forall_mem_singleton.1 below).value here)
      fun _ _ => .pure)
  | caseWhen conditions elseResult =>
    rw [children, List.forall_mem_append] at below
    exact wellRendered_caseWhen here below.1 (List.forall_mem_singleton.1 below.2) position fits
  | coalesce es =>
    unfold Expr.sql
    exact avoids_inValue_of_fits fits rfl _
      (.bind (avoids_sqlList _ fun e he => (below e he).projected (here e he)) fun _ _ => .pure)
  | aggregate function operand =>
    exact wellRendered_aggregate (List.forall_mem_singleton.1 below) function position fits
  | window function partitionBy orderBy =>
    rw [children, List.forall_mem_append, List.forall_mem_map] at below
    exact wellRendered_window here below.1 below.2 function position fits
  | comparison op left right =>
    obtain ⟨left', right'⟩ := forall_mem_pair.1 below
    unfold Expr.sql
    exact .bind (left'.projected here.1) fun _ _ => .bind (right'.projected here.2) fun _ _ => .pure
  | logical op left right =>
    obtain ⟨left', right'⟩ := forall_mem_pair.1 below
    unfold Expr.sql
    exact .bind (right'.predicate here.2) fun _ _ => .bind (left'.predicate here.1) fun _ _ => .pure
  | negation operand =>
    exact wellRendered_negation here (List.forall_mem_singleton.1 below)
      (deeper operand (List.mem_singleton_self _))
      position fits
  | textTest method operand arguments =>
    cases arguments with
    | nil => exact .error id
    | cons argument rest =>
      have operand' := below operand (by simp [children])
      have argument' := below argument (by simp [children])
      unfold Expr.sql
      exact .bind (operand'.value here.1) fun _ _ =>
        .bind (argument'.value (here.2 _ (List.mem_cons_self ..))) fun _ _ => .pure
  | caseInsensitive function left right =>
    obtain ⟨left', right'⟩ := forall_mem_pair.1 below
    unfold Expr.sql
    exact .bind (left'.value here.1) fun _ _ => .bind (right'.value here.2) fun _ _ => .pure
  | membership tested list =>
    exact wellRendered_membership here.1 (forall_mem_pair.1 below).1
      (deeper list (by simp [children])) position fits
  | isNull operand negated =>
    unfold Expr.sql
    exact .bind ((List.forall_mem_singleton.1 below).value here) fun _ _ => .pure
  | object properties =>
    rw [children, List.forall_mem_map] at below
    exact wellRendered_object here below position fits
  | array =>
    cases position with
    | predicate => cases fits
    | value | «open» => exact .error (show "value" ≠ "boolean" by decide)

/-- An expression without missing operands is well rendered. -/
theorem wellRendered (filled : e.Every Filled) : e.WellRendered scope := by
  induction e using grandchildren_induction with
  | step e below deeper =>
    by_cases there : e = absent
    · subst there
      exact fun position fits => absurd rfl fits.ne_absent
    obtain ⟨here, inside⟩ := (every_children there).1 filled
    refine wellRendered_of_children here (fun c hc => below c hc (inside c hc)) fun c hc => ?_
    refine ⟨?_, fun d hd => deeper c hc d hd ((inside c hc).child hd)⟩
    by_cases gone : c = absent
    · rw [gone]
      trivial
    · exact ((every_children gone).1 (inside c hc)).1

end Expr

/-! ### Steps -/

namespace Step

variable {step : Step} (scope : SqlScope)

/-- The slot of a complete step of a SELECT. -/
theorem Complete.slot (h : step.Complete) (single : step.expressions =
    [step.slot].filter fun e => !e.isAbsent) : step.slot.Every Filled := by
  have nodes := h.nodes
  rw [single] at nodes
  exact List.forall_mem_singleton.1 (Operation.forall_present.1 nodes)

/-- The expressions of a complete step can be written. -/
theorem Complete.legible (h : step.Complete) : step.Legible SqlFault.IsMalformed scope := by
  have rendered (single : step.expressions = [step.slot].filter fun e => !e.isAbsent) :
      step.slot.WellRendered scope :=
    Expr.wellRendered (h.slot single)
  cases step with
  | filter => exact rendered rfl .predicate h.slots
  | terminal kind predicate =>
    exact fun there => rendered rfl .predicate (h.slots.1.resolve_left there)
  | select | aggregate => exact fun there => (rendered rfl).readable there
  | groupBy key =>
    refine ⟨(rendered rfl).readable h.slots, ?_⟩
    rintro properties rfl m mem
    obtain ⟨there, inside⟩ := (Expr.every_object properties).1 (h.slot rfl)
    exact (Expr.wellRendered (inside m mem)).readable (there m mem)
  | sort | page | contains => exact (rendered rfl).readable h.slots
  | _ => trivial

/-- So can those of a complete statement that changes rows. -/
theorem Complete.legibleChange (h : step.Complete) :
    step.LegibleChange SqlFault.IsMalformed scope := by
  have assigned {values : Assignments} {assignments : Option Assignments}
      (some : values ∈ assignments) (h : ∀ e ∈ assignmentExprs assignments, e.Every Filled) :
      ∀ a ∈ values, a.2.Renderable SqlFault.IsMalformed scope := by
    cases some
    obtain ⟨there, inside⟩ := (Expr.every_object values).1 (h _ (List.mem_singleton_self _))
    exact fun a mem => (Expr.wellRendered (inside a mem)).readable (there a mem)
  cases step with
  | insert s =>
    obtain ⟨values, returning, conflict⟩ := complete_insert.1 h
    refine ⟨fun given some => assigned some values, fun clause is given some => ?_,
      (Expr.wellRendered returning).readable⟩
    rw [is] at conflict
    exact assigned some conflict
  | update s =>
    obtain ⟨condition, assignments, predicate, returning⟩ := complete_update.1 h
    exact ⟨fun given some => assigned some assignments,
      fun there => Expr.wellRendered predicate .predicate (condition.resolve_left there),
      (Expr.wellRendered returning).readable⟩
  | delete s =>
    obtain ⟨condition, predicate⟩ := complete_delete.1 h
    exact fun there => Expr.wellRendered predicate .predicate (condition.resolve_left there)
  | _ => trivial

end Step

/-! ### Operations -/

namespace Sql

/-- What is malformed in a join is malformed in its query. -/
theorem avoids_joinClause {scope : SqlScope} {join : JoinSource} (index : Nat)
    (h : Avoids (CompileError.Has SqlFault.IsMalformed) join.nested) :
    Avoids (CompileError.Has SqlFault.IsMalformed) (joinClause scope join index) := by
  refine .bind (avoids_joinTarget _ h) fun _ _ => ?_
  dsimp only
  split
  · exact .pure
  · exact .bind (avoids_unplaced (Expr.avoids_aliasFor _)) fun _ _ => .pure

end Sql

namespace Operation

open Sql

/-- A sound query is written without a malformed part. -/
theorem Sound.avoids_malformed {op : Operation} (sound : op.Sound) (d : Dialect) (params : Json) :
    Avoids (CompileError.Has SqlFault.IsMalformed) (op.sql d params) := by
  refine avoids_sql_of_parts d params SqlFault.within_isMalformed op fun holder part read nested => ?_
  have complete {step : Step} (mem : step ∈ part) : step.Complete := (sound.part read).complete mem
  refine avoids_sql_of_statement d params SqlFault.within_isMalformed ?_ ?_
  · exact fun step first => (complete (List.mem_of_mem_head? first)).legibleChange _
  · refine SelectChain.avoids_statement SqlFault.within_isMalformed fun _ => ⟨?_, ?_⟩
    · have rendered : ∀ r ∈ (part.selectChain d params).rendered,
          Avoids (CompileError.Has SqlFault.IsMalformed) r.nested := by
        intro r mem
        obtain ⟨step, hstep, rfl⟩ := List.mem_map.1 mem
        exact nested step (List.mem_reverse.1 hstep)
      refine SelectChain.avoids_sources SqlFault.within_isMalformed rendered fun scope => ?_
      refine avoids_joinClauses fun k join found => avoids_joinClause _ ?_
      exact forall_nested_joinSources rendered join (List.mem_of_getElem? found)
    · intro clauses scope _ step mem
      rw [steps_selectChain] at mem
      exact (complete (level_subset part (List.mem_reverse.1 mem))).legible scope

end Operation

end FluentQuery
