import FluentQuery.Proofs.Expr.Children
import FluentQuery.Proofs.Expr.Every
import FluentQuery.Proofs.Sql.Faults

/-!
# Aliases of tables

A statement without joins qualifies no column by the number of its table; a statement with joins looks
up an alias for every number.  `Expr.aliased` says that no alias is missing from an expression whose
numbers are registered, `Step.legible_of_registered` that none is missing from a step whose numbers are.
-/

namespace FluentQuery

set_option autoImplicit false

/-- The fault of a number that no table has. -/
def SqlFault.IsNoAlias : SqlFault → Prop
  | noAlias _ => True
  | _ => False

/-- The error of a number that no table has. -/
def CompileError.IsNoAlias (e : CompileError) : Prop :=
  match e.fault with
  | .sql fault => fault.IsNoAlias
  | _ => False

/-! ### Scopes -/

namespace SqlScope

/-- A number needs no alias, or has one. -/
def Registers (scope : SqlScope) (i : Int) : Prop :=
  scope.hasJoins = true → ∃ name, scope.aliasFor i = .ok name

/-- All numbers in an expression are registered. -/
def RegistersAll (scope : SqlScope) (e : Expr) : Prop :=
  ∀ i ∈ e.tableIndices, scope.Registers i

variable {scope : SqlScope}

theorem registers_of_not_hasJoins (h : scope.hasJoins = false) (i : Int) : scope.Registers i :=
  fun joins => by cases h.symm.trans joins

theorem Registers.avoids {i : Int} (h : scope.Registers i) (joins : scope.hasJoins = true) :
    Avoids SqlFault.IsNoAlias (some <$> scope.aliasFor i) := by
  obtain ⟨name, found⟩ := h joins
  rw [found]
  exact .ok

theorem avoids_qualifier (first : scope.Registers 0) (table : String)
    {source : Option ColumnSource} (h : ∀ i ∈ Expr.sourceIndex? source, scope.Registers i) :
    Avoids SqlFault.IsNoAlias (scope.qualifier table source) := by
  have unindexed : Avoids SqlFault.IsNoAlias
      (if !table.isEmpty then .ok (some table)
        else if scope.hasJoins then some <$> scope.aliasFor 0 else .ok none) := by
    split
    · exact .ok
    · split
      · exact first.avoids ‹_›
      · exact .ok
  have indexed (i : Int) (hi : scope.Registers i) : Avoids SqlFault.IsNoAlias
      (if scope.hasJoins then some <$> scope.aliasFor i else .ok none) := by
    split
    · exact hi.avoids ‹_›
    · exact .ok
  cases source with
  | none => exact unindexed
  | some source =>
    cases source with
    | direct => exact unindexed
    | table => exact .ok
    | joinParam i | joinResult i | spread i => exact indexed i (h i rfl)

theorem avoids_column (first : scope.Registers 0) (name table : String)
    {source : Option ColumnSource} (h : ∀ i ∈ Expr.sourceIndex? source, scope.Registers i) :
    Avoids SqlFault.IsNoAlias (scope.column name table source) := by
  refine .bind (avoids_qualifier first table h) fun qualifier _ => ?_
  cases qualifier <;> exact .ok

theorem avoids_row (first : scope.Registers 0) (table : String)
    {source : Option ColumnSource} (h : ∀ i ∈ Expr.sourceIndex? source, scope.Registers i) :
    Avoids SqlFault.IsNoAlias (scope.row table source) := by
  refine .bind (avoids_qualifier first table h) fun qualifier _ => ?_
  cases qualifier <;> exact .ok

theorem RegistersAll.here {e : Expr} (h : scope.RegistersAll e) {i : Int} (hi : i ∈ e.tableIndex?) :
    scope.Registers i := by
  refine h i (Expr.mem_tableIndices.2 ⟨e, ?_, hi⟩)
  have present : e ≠ .absent := by
    rintro rfl
    cases hi
  rw [Expr.walk_eq_cons present]
  exact List.mem_cons_self ..

theorem RegistersAll.child {e c : Expr} (h : scope.RegistersAll e) (below : c ∈ e.children) :
    scope.RegistersAll c := by
  intro i hi
  obtain ⟨node, hnode, hindex⟩ := Expr.mem_tableIndices.1 hi
  exact h i (Expr.mem_tableIndices.2 ⟨node, Expr.mem_walk_of_mem_children below hnode, hindex⟩)

end SqlScope

/-! ### Expressions -/

theorem SqlFault.within_isNoAlias : Sql.Concerns SqlFault.IsNoAlias := by
  intro fault h
  cases fault with
  | noAlias => trivial
  | _ => exact h.elim

theorem Sql.avoids_inValue (position : Position) (type : String)
    {rendered : Except SqlFault Fragment} (h : Avoids SqlFault.IsNoAlias rendered) :
    Avoids SqlFault.IsNoAlias (inValue position type rendered) := by
  cases position with
  | predicate => exact .error id
  | value | «open» => exact h

open Sql in
/-- Wherever it stands, an expression is rendered without missing an alias. -/
def Expr.Aliased (scope : SqlScope) (e : Expr) : Prop :=
  ∀ position, Avoids SqlFault.IsNoAlias (e.sql scope position)

open Sql in
/-- A node is rendered without missing an alias if its number is registered and what stands below it
is so rendered: its operands, and those of a list of values, which has no text of its own. -/
theorem Expr.aliased_of_children {scope : SqlScope} (first : scope.Registers 0) {e : Expr}
    (index : ∀ i ∈ e.tableIndex?, scope.Registers i) (below : ∀ c ∈ e.children, c.Aliased scope)
    (deeper : ∀ c ∈ e.children, ∀ d ∈ c.children, d.Aliased scope) : e.Aliased scope := by
  intro position
  cases e with
  | absent => exact .error id
  | column name table source =>
    exact avoids_inValue _ _ (SqlScope.avoids_column first name table index)
  | booleanColumn name table source => exact SqlScope.avoids_column first name table index
  | reference source table => exact avoids_inValue _ _ (SqlScope.avoids_row first table index)
  | excludedColumn | constant | param | allColumns => exact avoids_inValue _ _ .ok
  | booleanConstant | booleanParam => exact .ok
  | arithmetic op left right | concat left right =>
    obtain ⟨left, right⟩ := forall_mem_pair.1 below
    unfold Expr.sql
    exact avoids_inValue _ _ (.bind (right _) fun _ _ => .bind (left _) fun _ _ => .pure)
  | stringMethod method operand =>
    unfold Expr.sql
    exact avoids_inValue _ _ (.bind (List.forall_mem_singleton.1 below _) fun _ _ => .pure)
  | caseWhen conditions elseResult =>
    rw [children, List.forall_mem_append] at below
    unfold Expr.sql
    refine avoids_inValue _ _ ?_
    split
    · exact .error id
    · refine .bind (avoids_sqlConditions fun c hc => ?_) fun _ _ => ?_
      · obtain ⟨condition, result⟩ := mem_conditionChildren hc
        exact ⟨below.1 _ condition _, below.1 _ result _⟩
      dsimp only
      split
      · exact .pure
      · exact .bind (List.forall_mem_singleton.1 below.2 _) fun _ _ => .pure
  | coalesce es =>
    unfold Expr.sql
    exact avoids_inValue _ _ (.bind (avoids_sqlList _ fun e he => below e he _) fun _ _ => .pure)
  | aggregate function operand =>
    unfold Expr.sql
    refine avoids_inValue _ _ ?_
    split
    · exact .pure
    · exact .bind (List.forall_mem_singleton.1 below _) fun _ _ => .pure
  | window function partitionBy orderBy =>
    rw [children, List.forall_mem_append, List.forall_mem_map] at below
    unfold Expr.sql
    exact avoids_inValue _ _ (.bind (avoids_sqlList _ fun e he => below.1 e he _) fun _ _ =>
      .bind (avoids_sqlOrders fun o ho => below.2 o ho _) fun _ _ => .pure)
  | comparison op left right =>
    obtain ⟨left, right⟩ := forall_mem_pair.1 below
    unfold Expr.sql
    exact .bind (left _) fun _ _ => .bind (right _) fun _ _ => .pure
  | logical op left right =>
    obtain ⟨left, right⟩ := forall_mem_pair.1 below
    unfold Expr.sql
    exact .bind (right _) fun _ _ => .bind (left _) fun _ _ => .pure
  | negation operand =>
    have negated : Avoids SqlFault.IsNoAlias
        (operand.sql scope .predicate >>= fun text => .ok (Sql.negation scope.dialect text)) :=
      .bind (List.forall_mem_singleton.1 below _) fun _ _ => .ok
    cases operand with
    | membership value list =>
      cases list with
      | param p property index =>
        have value' := deeper _ (List.mem_singleton_self _) value (List.mem_cons_self ..)
        exact .bind (value' _) fun _ _ => .bind (avoids_arrayItems SqlFault.within_isNoAlias _ _)
          fun _ _ => .pure
      | _ => exact negated
    | _ => exact negated
  | textTest method operand arguments =>
    cases arguments with
    | nil => exact .error id
    | cons argument rest =>
      unfold Expr.sql
      exact .bind (below operand (by simp [children]) _) fun _ _ =>
        .bind (below argument (by simp [children]) _) fun _ _ => .pure
  | caseInsensitive function left right =>
    obtain ⟨left, right⟩ := forall_mem_pair.1 below
    unfold Expr.sql
    exact .bind (left _) fun _ _ => .bind (right _) fun _ _ => .pure
  | membership value list =>
    obtain ⟨value, -⟩ := forall_mem_pair.1 below
    cases list with
    | param =>
      exact .bind (value _) fun _ _ => .bind (avoids_arrayItems SqlFault.within_isNoAlias _ _)
        fun _ _ => .pure
    | array elements =>
      have elements' := deeper (.array elements) (List.mem_cons_of_mem _ (List.mem_singleton_self _))
      exact .bind (value _) fun _ _ =>
        .bind (avoids_sqlList _ fun e he => elements' e he _) fun _ _ => .pure
    | _ => exact .bind (value _) fun _ _ => .error id
  | isNull operand negated =>
    unfold Expr.sql
    exact .bind (List.forall_mem_singleton.1 below _) fun _ _ => .pure
  | object properties =>
    rw [children, List.forall_mem_map] at below
    cases position with
    | predicate | value => exact .error id
    | «open» =>
      unfold Expr.sql
      dsimp only
      split
      · exact .error id
      · exact .bind (avoids_sqlProperties SqlFault.within_isNoAlias fun m hm _ _ => below m hm _)
          fun _ _ => .pure
  | array => cases position <;> exact .error id

/-- An expression whose numbers are registered is rendered without missing an alias.  Columns without
a number belong to the first table. -/
theorem Expr.aliased {scope : SqlScope} (first : scope.Registers 0) {e : Expr}
    (registered : scope.RegistersAll e) : e.Aliased scope := by
  induction e using Expr.grandchildren_induction with
  | step e below deeper =>
    refine aliased_of_children first (fun i hi => registered.here hi)
      (fun c hc => below c hc (registered.child hc)) ?_
    intro c hc d hd
    exact deeper c hc d hd ((registered.child hc).child hd)

/-! ### Steps -/

namespace Step

variable {scope : SqlScope} (step : Step)

/-- No alias is missing from a step of a SELECT whose numbers are registered. -/
theorem legible_of_registered (first : scope.Registers 0)
    (registered : scope.RegistersAll step.slot) : step.Legible SqlFault.IsNoAlias scope := by
  have slot := Expr.aliased first registered
  have readable {e : Expr} (h : e.Aliased scope) : e.Renderable SqlFault.IsNoAlias scope :=
    fun position _ => h position
  cases step with
  | filter => exact slot .predicate
  | terminal => exact fun _ => slot .predicate
  | select | aggregate => exact fun _ => readable slot
  | groupBy key =>
    refine ⟨readable slot, ?_⟩
    rintro properties rfl m mem
    exact readable (Expr.aliased first (registered.child (List.mem_map_of_mem mem)))
  | sort | page | contains => exact readable slot
  | _ => trivial

/-- A statement without joins needs no aliases. -/
theorem legibleChange_of_plain (plain : scope.hasJoins = false) :
    step.LegibleChange SqlFault.IsNoAlias scope := by
  have aliased (e : Expr) : e.Aliased scope :=
    Expr.aliased (SqlScope.registers_of_not_hasJoins plain 0)
      fun i _ => SqlScope.registers_of_not_hasJoins plain i
  have readable (e : Expr) : e.Renderable SqlFault.IsNoAlias scope := fun position _ =>
    aliased e position
  cases step with
  | insert =>
    exact ⟨fun _ _ _ _ => readable _, fun _ _ _ _ _ _ => readable _, fun _ => readable _⟩
  | update =>
    exact ⟨fun _ _ _ _ => readable _, fun _ => aliased _ .predicate, fun _ => readable _⟩
  | delete => exact fun _ => aliased _ .predicate
  | _ => trivial

end Step

end FluentQuery
