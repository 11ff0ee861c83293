import FluentQuery.Proofs.Effect
import FluentQuery.Proofs.Operation.Tables
import FluentQuery.Proofs.Sql.Listing

/-!
# Faults of expressions in statements

A statement fails with a fault of an expression only if one of its expressions does, in the position
that a clause gives it.  `Step.Legible` says what a step needs for that not to happen,
`SelectChain.avoids_statement` that a SELECT needs no more of its steps, and
`Operation.avoids_sql_of_parts` that nested statements may be looked at one by one.
-/

namespace FluentQuery

set_option autoImplicit false

/-- The faults that expressions can have: a number without a table, and something that is missing or no
predicate where one is needed. -/
def SqlFault.OfExpression : SqlFault → Prop
  | noAlias _ | missingExpression | unsupportedExpression _ _ => True
  | _ => False

/-- The error of a fault of the given class. -/
def CompileError.Has (bad : SqlFault → Prop) (e : CompileError) : Prop :=
  match e.fault with
  | .sql fault => bad fault
  | _ => False

/-! ### Expressions -/

/-- As a value, and as a projection, an expression is rendered without a bad fault. -/
def Expr.Renderable (bad : SqlFault → Prop) (scope : SqlScope) (e : Expr) : Prop :=
  ∀ position, position ≠ .predicate → Avoids bad (e.sql scope position)

namespace Sql

variable {bad : SqlFault → Prop} {scope : SqlScope}

/-- A list fails only if one of its items does. -/
theorem avoids_sqlList {es : List Expr} (position : Position)
    (h : ∀ e ∈ es, Avoids bad (e.sql scope position)) :
    Avoids bad (Expr.sqlList scope position es) := by
  induction es with
  | nil => exact .ok
  | cons e rest ih =>
    rw [List.forall_mem_cons] at h
    unfold Expr.sqlList
    exact .bind h.1 fun _ _ => .bind (ih h.2) fun _ _ => .pure

/-- Conditions are rendered as predicates, results as they are. -/
theorem avoids_sqlConditions {cs : List (Expr × Expr)}
    (h : ∀ c ∈ cs, Avoids bad (c.1.sql scope .predicate) ∧ Avoids bad (c.2.sql scope .open)) :
    Avoids bad (Expr.sqlConditions scope cs) := by
  induction cs with
  | nil => exact .ok
  | cons c rest ih =>
    rw [List.forall_mem_cons] at h
    obtain ⟨⟨condition, result⟩, below⟩ := h
    unfold Expr.sqlConditions
    exact .bind result fun _ _ => .bind condition fun _ _ => .bind (ih below) fun _ _ => .pure

/-- The keys of an order are rendered as values. -/
theorem avoids_sqlOrders {os : List (Expr × Bool)}
    (h : ∀ o ∈ os, Avoids bad (o.1.sql scope .value)) : Avoids bad (Expr.sqlOrders scope os) := by
  induction os with
  | nil => exact .ok
  | cons o rest ih =>
    rw [List.forall_mem_cons] at h
    unfold Expr.sqlOrders
    exact .bind h.1 fun _ _ => .bind (ih h.2) fun _ _ => .pure

/-- A fault that is reported without a place is still the same fault. -/
theorem avoids_unplaced {α : Type} {x : Except SqlFault α} (h : Avoids bad x) :
    Avoids (CompileError.Has bad) (unplaced x) :=
  h.mapError fun _ => id

theorem returns_unplaced {α : Type} {post : α → Prop} {x : Except SqlFault α} (h : Returns post x) :
    Returns post (unplaced x) :=
  h.mapError

/-- What is projected is rendered as it is. -/
theorem avoids_projectionSql {selector : Expr}
    (h : selector ≠ .absent → selector.Renderable bad scope) :
    Avoids bad (selector.projectionSql scope) := by
  unfold Expr.projectionSql
  split
  · exact .ok
  · rename_i present
    refine h ?_ _ nofun
    rintro rfl
    exact present rfl

/-- The faults that are bad are those of expressions. -/
def Concerns (bad : SqlFault → Prop) : Prop :=
  ∀ fault, bad fault → fault.OfExpression

variable (within : Concerns bad)

include within

/-- A parameter that is no list has a fault of its own. -/
theorem avoids_arrayItems (params : Json) (name : String) :
    Avoids bad (arrayItems params name) := by
  unfold arrayItems
  split
  · exact .ok
  · exact .error (within _)
  · exact .error (within _)

/-- A projection fails only with one of its members, or because one of them is an object. -/
theorem avoids_sqlProperties {ps : List (String × Expr)}
    (h : ∀ p ∈ ps, p.2.Renderable bad scope) : Avoids bad (Expr.sqlProperties scope ps) := by
  induction ps with
  | nil => exact .ok
  | cons p rest ih =>
    rw [List.forall_mem_cons] at h
    have others (part : Fragment) : Avoids bad
        (Expr.sqlProperties scope rest >>= fun parts => pure (part :: parts)) :=
      .bind (ih h.2) fun _ _ => .pure
    unfold Expr.sqlProperties
    dsimp only
    split
    · exact .bind (h.1 .value nofun) fun part _ => others part
    · split
      · exact .error (within _)
      · exact .bind (h.1 .open nofun) fun _ _ => others _

end Sql

/-! ### Steps -/

namespace Step

/-- The expressions of a step of a SELECT are rendered without a bad fault where its clauses use
them. -/
def Legible (bad : SqlFault → Prop) (scope : SqlScope) : Step → Prop
  | filter predicate => Avoids bad (predicate.sql scope .predicate)
  | terminal _ predicate => predicate ≠ .absent → Avoids bad (predicate.sql scope .predicate)
  | select e | aggregate _ e => e ≠ .absent → e.Renderable bad scope
  | groupBy key =>
    key.Renderable bad scope ∧
      ∀ properties, key = .object properties → ∀ m ∈ properties, m.2.Renderable bad scope
  | sort _ e _ | page _ e | contains e => e.Renderable bad scope
  | _ => True

/-- So are those of a statement that changes rows. -/
def LegibleChange (bad : SqlFault → Prop) (scope : SqlScope) : Step → Prop
  | insert s =>
    (∀ values ∈ s.values, ∀ a ∈ values, a.2.Renderable bad scope) ∧
      (∀ conflict ∈ s.onConflict, ∀ values ∈ conflict.assignments,
        ∀ a ∈ values, a.2.Renderable bad scope) ∧
      (s.returning ≠ .absent → s.returning.Renderable bad scope)
  | update s =>
    (∀ values ∈ s.assignments, ∀ a ∈ values, a.2.Renderable bad scope) ∧
      (s.predicate ≠ .absent → Avoids bad (s.predicate.sql scope .predicate)) ∧
      (s.returning ≠ .absent → s.returning.Renderable bad scope)
  | delete s => s.predicate ≠ .absent → Avoids bad (s.predicate.sql scope .predicate)
  | _ => True

end Step

/-! ### Statements that change rows -/

namespace Sql

section

variable {bad : SqlFault → Prop} {scope : SqlScope}

/-- Assigned values are rendered as they are. -/
theorem avoids_assignedColumns {assignments : Option Assignments}
    (h : ∀ values ∈ assignments, ∀ a ∈ values, a.2.Renderable bad scope) :
    Avoids (CompileError.Has bad) (assignedColumns scope assignments) := by
  have rendered (given : Assignments) (h : ∀ a ∈ given, a.2.Renderable bad scope) :
      Avoids bad (assignmentSql scope given) := by
    induction given with
    | nil => exact .ok
    | cons entry rest ih =>
      rw [List.forall_mem_cons] at h
      unfold assignmentSql
      exact .bind (h.1 _ nofun) fun _ _ => .bind (ih h.2) fun _ _ => .pure
  refine avoids_unplaced (rendered _ fun a mem => ?_)
  have assigned : a ∈ assignments.getD [] := (List.mem_filter.1 mem).1
  cases assignments with
  | none => cases assigned
  | some values => exact h values rfl a assigned

/-- RETURNING fails only with its selector. -/
theorem avoids_returningClause {returning : Expr}
    (h : returning ≠ .absent → returning.Renderable bad scope) :
    Avoids (CompileError.Has bad) (returningClause scope returning) := by
  unfold returningClause
  split
  · exact .ok
  · exact .bind (avoids_unplaced (avoids_projectionSql h)) fun _ _ => .pure

/-- WHERE fails only with its predicate. -/
theorem avoids_whereClause {predicate : Expr}
    (h : predicate ≠ .absent → Avoids bad (predicate.sql scope .predicate)) :
    Avoids (CompileError.Has bad) (whereClause scope predicate) := by
  unfold whereClause
  split
  · exact .ok
  · rename_i present
    refine .bind (avoids_unplaced (h ?_)) fun _ _ => .pure
    rintro rfl
    exact present rfl

variable (within : Concerns bad)

include within

/-- A conflict clause fails only with its assignments. -/
theorem avoids_conflictClause (table : String) {conflict : Option OnConflict}
    (h : ∀ clause ∈ conflict, ∀ values ∈ clause.assignments, ∀ a ∈ values, a.2.Renderable bad scope) :
    Avoids (CompileError.Has bad) (conflictClause scope table conflict) := by
  cases conflict with
  | none => exact .ok
  | some conflict =>
    unfold conflictClause
    refine .check (within _) ?_
    split
    · exact .error (within _)
    · exact .pure
    · exact .bind (avoids_assignedColumns (h conflict rfl)) fun _ _ => .check (within _) .pure

/-- An INSERT fails only with the expressions in its clauses. -/
theorem avoids_insert {s : InsertStatement} (h : (Step.insert s).LegibleChange bad scope) :
    Avoids (CompileError.Has bad) (insert scope s) :=
  .bind (avoids_assignedColumns h.1) fun _ _ => .check (within _) <|
    .bind (avoids_conflictClause within _ h.2.1) fun _ _ =>
      .bind (avoids_returningClause h.2.2) fun _ _ => .pure

/-- An UPDATE fails only with the expressions in its clauses. -/
theorem avoids_update {s : UpdateStatement} (h : (Step.update s).LegibleChange bad scope) :
    Avoids (CompileError.Has bad) (update scope s) :=
  .bind (avoids_assignedColumns h.1) fun _ _ => .check (within _) <| .check (within _) <|
    .bind (avoids_whereClause h.2.1) fun _ _ =>
      .bind (avoids_returningClause h.2.2) fun _ _ => .pure

/-- A DELETE fails only with the expressions in its clauses. -/
theorem avoids_delete {s : DeleteStatement} (h : (Step.delete s).LegibleChange bad scope) :
    Avoids (CompileError.Has bad) (delete scope s) := by
  unfold delete
  exact .check (within _) (.bind (avoids_whereClause h) fun _ _ => .pure)

end

end Sql

/-! ### What clauses are made of -/

namespace Clause

/-- An expression stands in a step of a chain. -/
def Held (chain : List Step) (e : Expr) : Prop :=
  ∃ step ∈ chain, step.slot = e

variable {chain : List Step} {e : Expr}

theorem held_of_mem {step : Step} (h : step ∈ chain) : Held chain step.slot :=
  ⟨step, h, rfl⟩

/-- Filters are expressions of steps. -/
theorem mem_filters (h : e ∈ filters chain) : .filter e ∈ chain := by
  fun_induction filters chain with
  | case1 => cases h
  | case2 predicate rest ih =>
    rcases List.mem_cons.1 h with rfl | h
    · exact List.mem_cons_self ..
    · exact List.mem_cons_of_mem _ (ih h)
  | case3 step rest _ ih => exact List.mem_cons_of_mem _ (ih h)

theorem mem_terminal? {kinds : List TerminalKind} {kind : TerminalKind}
    (h : terminal? kinds chain = some (kind, e)) : .terminal kind e ∈ chain ∧ kind ∈ kinds := by
  fun_induction terminal? kinds chain with
  | case1 => cases h
  | case2 kind' predicate rest among =>
    cases h
    exact ⟨List.mem_cons_self .., List.contains_iff_mem.1 among⟩
  | case3 kind' predicate rest _ ih =>
    exact ⟨List.mem_cons_of_mem _ (ih h).1, (ih h).2⟩
  | case4 step rest _ ih => exact ⟨List.mem_cons_of_mem _ (ih h).1, (ih h).2⟩

theorem mem_contained? (h : contained? chain = some e) : .contains e ∈ chain := by
  fun_induction contained? chain with
  | case1 => cases h
  | case2 value rest =>
    cases h
    exact List.mem_cons_self ..
  | case3 step rest _ ih => exact List.mem_cons_of_mem _ (ih h)

theorem mem_aggregate? {kind : AggregateKind} (h : aggregate? kind chain = some e) :
    .aggregate kind e ∈ chain := by
  fun_induction aggregate? kind chain with
  | case1 => cases h
  | case2 selector rest =>
    cases h
    exact List.mem_cons_self ..
  | case3 kind' selector rest _ ih => exact List.mem_cons_of_mem _ (ih h)
  | case4 step rest _ ih => exact List.mem_cons_of_mem _ (ih h)

theorem mem_groupKey? (h : groupKey? chain = some e) : .groupBy e ∈ chain := by
  fun_induction groupKey? chain with
  | case1 => cases h
  | case2 key rest =>
    cases h
    exact List.mem_cons_self ..
  | case3 step rest _ ih => exact List.mem_cons_of_mem _ (ih h)

theorem mem_page? {kind : PageKind} (h : page? kind chain = some e) : .page kind e ∈ chain := by
  fun_induction page? kind chain with
  | case1 => cases h
  | case2 count rest =>
    cases h
    exact List.mem_cons_self ..
  | case3 kind' count rest _ ih => exact List.mem_cons_of_mem _ (ih h)
  | case4 step rest _ ih => exact List.mem_cons_of_mem _ (ih h)

/-- The selector that counts is one of a step. -/
theorem mem_lastSelector? (h : lastSelector? chain = some e) : .select e ∈ chain := by
  fun_induction lastSelector? chain generalizing e with
  | case1 => cases h
  | case2 selector rest ih =>
    cases later : lastSelector? rest with
    | none =>
      rw [later] at h
      cases h
      exact List.mem_cons_self ..
    | some other =>
      rw [later] at h
      cases h
      exact List.mem_cons_of_mem _ (ih later)
  | case3 step rest _ ih => exact List.mem_cons_of_mem _ (ih h)

/-- Keys of an order are those of steps. -/
theorem mem_sortKeys {keys : List (Expr × Bool)} (h : sortKeys chain = some keys) :
    ∀ key ∈ keys, ∃ kind descending, .sort kind key.1 descending ∈ chain := by
  -- Keys are added one step at a time.
  have added (steps : List Step) (start : Option (List (Expr × Bool)))
      (inside : ∀ step ∈ steps, step ∈ chain)
      (known : ∀ keys ∈ start, ∀ key ∈ keys, ∃ kind descending,
        .sort kind key.1 descending ∈ chain) :
      ∀ keys ∈ steps.foldl addKey start, ∀ key ∈ keys, ∃ kind descending,
        .sort kind key.1 descending ∈ chain := by
    induction steps generalizing start with
    | nil => exact known
    | cons step rest ih =>
      rw [List.forall_mem_cons] at inside
      refine ih _ inside.2 ?_
      cases step with
      | sort kind key descending =>
        have here : ∀ e ∈ [(key, descending)], ∃ kind descending, .sort kind e.1 descending ∈ chain :=
          List.forall_mem_singleton.2 ⟨kind, descending, inside.1⟩
        cases kind with
        | orderBy =>
          rintro _ ⟨⟩
          exact here
        | thenBy =>
          intro keys hkeys
          obtain ⟨earlier, hearlier, rfl⟩ := Option.map_eq_some_iff.1 hkeys
          exact List.forall_mem_append.2 ⟨known earlier hearlier, here⟩
      | _ => exact known
  exact added chain none (fun _ => id) nofun keys h

theorem mem_order {keys : List (Expr × Bool)} (h : order chain = .keys keys) :
    ∀ key ∈ keys, ∃ kind descending, .sort kind key.1 descending ∈ chain := by
  unfold order at h
  cases sorted : sortKeys chain with
  | none =>
    rw [sorted] at h
    dsimp only at h
    split at h <;> cases h
  | some earlier =>
    rw [sorted] at h
    cases h
    rw [List.forall_mem_map]
    exact mem_sortKeys sorted

theorem mem_limit {d : Dialect} (h : limit d chain = .given e) : .page .take e ∈ chain := by
  unfold limit at h
  split at h
  · cases h
  · split at h
    · cases h
    · split at h
      · cases h
        exact mem_page? ‹_›
      · split at h <;> cases h

theorem mem_terminalPredicates (h : e ∈ terminalPredicates chain) :
    e ≠ .absent ∧ ∃ kind, .terminal kind e ∈ chain := by
  obtain ⟨inside, present⟩ := List.mem_filter.1 h
  obtain ⟨kinds, -, hkinds⟩ := List.mem_filterMap.1 inside
  obtain ⟨⟨kind, predicate⟩, found, rfl⟩ := Option.map_eq_some_iff.1 hkinds
  refine ⟨fun absent => ?_, kind, (mem_terminal? found).1⟩
  rw [absent] at present
  cases present

/-! What stands in no matter which step. -/

theorem held_filters (h : e ∈ filters chain) : Held chain e :=
  held_of_mem (mem_filters h)

theorem held_terminal? {kinds : List TerminalKind} {kind : TerminalKind}
    (h : terminal? kinds chain = some (kind, e)) : Held chain e :=
  held_of_mem (mem_terminal? h).1

theorem held_contained? (h : contained? chain = some e) : Held chain e :=
  held_of_mem (mem_contained? h)

theorem held_groupKey? (h : groupKey? chain = some e) : Held chain e :=
  held_of_mem (mem_groupKey? h)

theorem held_page? {kind : PageKind} (h : page? kind chain = some e) : Held chain e :=
  held_of_mem (mem_page? h)

theorem held_order {keys : List (Expr × Bool)} (h : order chain = .keys keys) :
    ∀ key ∈ keys, Held chain key.1 := by
  intro key mem
  obtain ⟨kind, descending, sorted⟩ := mem_order h key mem
  exact held_of_mem sorted

theorem held_limit {d : Dialect} (h : limit d chain = .given e) : Held chain e :=
  held_of_mem (mem_limit h)

/-- All conditions of a SELECT are expressions of its steps. -/
theorem held_predicates (h : e ∈ predicates chain) : Held chain e := by
  rcases List.mem_append.1 h with h | h
  · exact held_filters h
  · obtain ⟨-, kind, terminal⟩ := mem_terminalPredicates h
    exact held_of_mem terminal

/-- The expression that a projection yields. -/
def Projection.operand? : Projection → Option Expr
  | count | all => none
  | aggregate _ operand => some operand
  | selector e | key e => some e

/-- Where the projection of a chain comes from. -/
inductive Projects (chain : List Step) : Projection → Prop where
  | count : Projects chain .count
  | ownOperand {kind : AggregateKind} {e : Expr} (present : e ≠ .absent)
      (mem : .aggregate kind e ∈ chain) : Projects chain (.aggregate kind e)
  | selectedOperand {kind : AggregateKind} {e : Expr} (present : e ≠ .absent)
      (mem : .select e ∈ chain) : Projects chain (.aggregate kind e)
  | selector {e : Expr} (mem : .select e ∈ chain) : Projects chain (.selector e)
  | groupObject {e : Expr} (mem : .groupBy e ∈ chain) : Projects chain (.selector e)
  | groupKey {e : Expr} (mem : .groupBy e ∈ chain) : Projects chain (.key e)
  | all : Projects chain .all

/-- What is projected is an expression of a step. -/
theorem Projects.held {chosen : Projection} (h : Projects chain chosen) :
    ∀ e ∈ chosen.operand?, Held chain e := by
  cases h with
  | count | all => exact nofun
  | ownOperand _ mem | selectedOperand _ mem | selector mem | groupObject mem | groupKey mem =>
    rintro _ ⟨⟩
    exact held_of_mem mem

theorem isScalar_ne_absent (h : isScalar e = true) : e ≠ .absent := by
  rintro rfl
  cases h

/-- An aggregate has an operand of its own or that of the last selector, or is refused. -/
theorem aggregateOperand_cases {kind : AggregateKind} {selector : Expr}
    (h : .aggregate kind selector ∈ chain) :
    (∃ operand, aggregateOperand kind selector chain = .ok operand ∧
        Projects chain (.aggregate kind operand)) ∨
      aggregateOperand kind selector chain = .error (.aggregateWithoutSelector kind.name) := by
  unfold aggregateOperand
  split
  · rename_i present
    refine .inl ⟨selector, rfl, .ownOperand ?_ h⟩
    rintro rfl
    cases present
  · split
    · split
      · rename_i found scalar
        exact .inl ⟨_, rfl, .selectedOperand (isScalar_ne_absent scalar) (mem_lastSelector? found)⟩
      · exact .inr rfl
    · exact .inr rfl

/-- What is projected stands in the chain, and it is no fault of an expression if nothing can be
projected. -/
theorem projection_cases (chain : List Step) :
    (∃ chosen, projection chain = .ok chosen ∧ Projects chain chosen) ∨
      ∃ fault, projection chain = .error fault ∧ ¬ fault.OfExpression := by
  unfold projection
  split
  · exact .inl ⟨_, rfl, .count⟩
  · split
    · rename_i kind selector found
      obtain ⟨kind', -, hkind⟩ := List.exists_of_findSome?_eq_some found
      obtain ⟨_, hselector, same⟩ := Option.map_eq_some_iff.1 hkind
      cases same
      rcases aggregateOperand_cases (mem_aggregate? hselector) with ⟨operand, h, projects⟩ | h <;>
        rw [h]
      · exact .inl ⟨_, rfl, projects⟩
      · exact .inr ⟨_, rfl, id⟩
    · split
      · exact .inl ⟨_, rfl, .selector (mem_lastSelector? ‹_›)⟩
      · split
        · exact .inr ⟨_, rfl, id⟩
        · split
          · rename_i key found
            split
            · exact .inl ⟨_, rfl, .groupObject (mem_groupKey? found)⟩
            · exact .inl ⟨_, rfl, .groupKey (mem_groupKey? found)⟩
          · exact .inl ⟨_, rfl, .all⟩

end Clause

/-! ### The clauses of a SELECT -/

namespace Sql

namespace SelectChain

open Clause

/-- What `contains` searches is selected in the chain. -/
theorem searchedSelector_cases (c : SelectChain) :
    (∃ selector, selector ≠ .absent ∧ .select selector ∈ c.steps ∧
        c.searchedSelector = .ok selector) ∨
      ∃ place, c.searchedSelector = .error ⟨SqlFault.containsNotScalar, place⟩ := by
  unfold searchedSelector
  dsimp only
  split
  · rename_i selector found
    split
    · rename_i scalar
      rw [Bool.and_eq_true] at scalar
      exact .inl ⟨selector, isScalar_ne_absent scalar.1, mem_lastSelector? found, rfl⟩
    · exact .inr ⟨_, rfl⟩
  · exact .inr ⟨_, rfl⟩

section

variable {bad : SqlFault → Prop} {c : SelectChain} {scope : SqlScope}

/-- Conditions are rendered as predicates. -/
theorem avoids_conditions {predicates : List Expr}
    (h : ∀ e ∈ predicates, Avoids bad (e.sql scope .predicate)) :
    Avoids (CompileError.Has bad) (conditions scope predicates) :=
  avoids_unplaced (avoids_sqlList _ h)

variable (legible : ∀ step ∈ c.steps, step.Legible bad scope)

include legible

theorem avoids_filters {e : Expr} (h : e ∈ filters c.steps) : Avoids bad (e.sql scope .predicate) :=
  legible _ (mem_filters h)

theorem avoids_predicates {e : Expr} (h : e ∈ predicates c.steps) :
    Avoids bad (e.sql scope .predicate) := by
  rcases List.mem_append.1 h with h | h
  · exact avoids_filters legible h
  · obtain ⟨present, kind, mem⟩ := mem_terminalPredicates h
    exact legible _ mem present

/-- A key that rows are grouped by, or each of its members. -/
theorem avoids_groupBy : Avoids (CompileError.Has bad) (c.groupBy scope) := by
  unfold groupBy
  split
  · exact .ok
  · rename_i key found
    obtain ⟨whole, members⟩ := legible _ (mem_groupKey? found)
    refine .bind (avoids_unplaced (avoids_sqlList _ ?_)) fun _ _ => .pure
    intro e he
    cases key with
    | object properties =>
      obtain ⟨m, mem, rfl⟩ := List.mem_map.1 he
      exact members properties rfl m mem _ nofun
    | _ => exact List.mem_singleton.1 he ▸ whole _ nofun

/-- ORDER BY fails only with its keys. -/
theorem avoids_orderBy : Avoids (CompileError.Has bad) (c.orderBy scope) := by
  unfold orderBy
  split
  · exact .ok
  · exact .ok
  · rename_i keys found
    refine .bind (avoids_unplaced (avoids_sqlOrders fun key hkey => ?_)) fun _ _ => .pure
    obtain ⟨kind, descending, mem⟩ := mem_order found key hkey
    exact legible _ mem _ nofun

/-- LIMIT and OFFSET fail only with their counts. -/
theorem avoids_paging : Avoids (CompileError.Has bad) (c.paging scope) := by
  have count {kind : PageKind} {e : Expr} (h : .page kind e ∈ c.steps) :
      Avoids (CompileError.Has bad) (unplaced (e.sql scope .value)) :=
    avoids_unplaced (legible _ h _ nofun)
  unfold paging
  cases wanted : limit c.dialect c.steps with
  | none | rows | unbounded =>
    dsimp only
    split
    · exact .bind (count (mem_page? ‹_›)) fun _ _ => .pure
    · exact .pure
  | given taken =>
    have taken' := count (mem_limit wanted)
    dsimp only
    split
    · exact .bind (count (mem_page? ‹_›)) fun _ _ => .bind .pure fun _ _ =>
        .bind taken' fun _ _ => .pure
    · exact .bind .pure fun _ _ => .bind taken' fun _ _ => .pure

variable (within : Concerns bad)

include within

/-- The SELECT clause fails only with what it lists. -/
theorem avoids_projection : Avoids (CompileError.Has bad) (c.projection scope) := by
  unfold projection
  rcases projection_cases c.steps with ⟨chosen, same, projects⟩ | ⟨fault, same, other⟩
  · rw [same]
    refine .bind .ok ?_
    rintro _ ⟨⟩
    cases projects with
    | count => exact .pure
    | ownOperand present mem | selectedOperand present mem =>
      exact .bind (avoids_unplaced (legible _ mem present _ nofun)) fun _ _ => .pure
    | selector mem =>
      exact .bind (avoids_unplaced (avoids_projectionSql (legible _ mem))) fun _ _ => .pure
    | groupObject mem =>
      exact .bind (avoids_unplaced (avoids_projectionSql fun _ => (legible _ mem).1)) fun _ _ => .pure
    | groupKey mem =>
      exact .bind (avoids_unplaced ((legible _ mem).1 _ nofun)) fun _ _ => .pure
    | all => exact .pure
  · rw [same]
    exact .error (mt (within fault) other)

end

/-! ### The statement of a chain -/

/-- A step that has SQL of its own. -/
def IsLowered : Step → Prop
  | .groupJoin _ _ _ _ _ _ | .selectMany _ _ _ _ _ => False
  | _ => True

/-- A chain that is not refused holds none of the steps that cannot be written. -/
theorem isLowered_of_rejectUnlowered {c : SelectChain} (h : c.rejectUnlowered = .ok ()) :
    ∀ step ∈ c.steps, IsLowered step := by
  unfold rejectUnlowered at h
  dsimp only at h
  split at h
  · cases h
  · rename_i found
    intro step hstep
    have passed := List.findSome?_eq_none_iff.1 found step hstep
    cases step with
    | groupJoin | selectMany => cases passed
    | _ => trivial

/-- The FROM and JOIN clauses are found without a bad fault, and so are the clauses that use what these
introduce. -/
structure Sourced (bad : SqlFault → Prop) (c : SelectChain) : Prop where
  avoids : Avoids (CompileError.Has bad) c.sources
  legible : ∀ clauses scope, c.sources = .ok (clauses, scope) →
    ∀ step ∈ c.steps, step.Legible bad scope

section

variable {bad : SqlFault → Prop} (within : Concerns bad) {c : SelectChain}

include within

theorem avoids_rejectUnlowered (c : SelectChain) :
    Avoids (CompileError.Has bad) c.rejectUnlowered := by
  unfold rejectUnlowered
  dsimp only
  split
  · rename_i fault method found
    obtain ⟨step, -, hstep⟩ := List.exists_of_findSome?_eq_some found
    refine .error ?_
    cases step with
    | groupJoin | selectMany =>
      cases hstep
      exact within _
    | _ => cases hstep
  · exact .ok

variable (sourced : (∀ step ∈ c.steps, IsLowered step) → c.Sourced bad)

include sourced

omit within in
/-- Work that starts from the sources of a chain without unlowered steps. -/
theorem avoids_sourced {α : Type} {next : List Fragment × SqlScope → Except CompileError α}
    (lowered : c.rejectUnlowered = .ok ())
    (rest : ∀ clauses scope, (∀ step ∈ c.steps, step.Legible bad scope) →
      Avoids (CompileError.Has bad) (next (clauses, scope))) :
    Avoids (CompileError.Has bad) (c.sources >>= next) := by
  have here := sourced (isLowered_of_rejectUnlowered lowered)
  exact .bind here.avoids fun found hfound =>
    rest found.1 found.2 (here.legible found.1 found.2 hfound)

/-- A SELECT that lists rows fails only with the expressions in its clauses. -/
theorem avoids_selectQuery : Avoids (CompileError.Has bad) c.selectQuery := by
  refine .bind (avoids_rejectUnlowered within c) fun _ lowered => .check (within _) ?_
  refine avoids_sourced sourced lowered fun clauses scope legible => ?_
  have conditioned := avoids_conditions fun e he => avoids_predicates legible he
  exact .bind (avoids_projection legible within) fun _ _ => .bind conditioned fun _ _ =>
    .bind (avoids_groupBy legible) fun _ _ => .bind (avoids_orderBy legible) fun _ _ =>
      .bind (avoids_paging legible) fun _ _ => .pure

/-- A test whether there is a row fails only with its tables and conditions. -/
theorem avoids_anyQuery {kind : TerminalKind} {predicate : Expr}
    (mem : .terminal kind predicate ∈ c.steps) :
    Avoids (CompileError.Has bad) (c.anyQuery predicate) := by
  refine .bind (avoids_rejectUnlowered within c) fun _ lowered => ?_
  refine avoids_sourced sourced lowered fun clauses scope legible => ?_
  refine .bind (avoids_conditions fun e he => ?_) fun _ _ => .pure
  rcases List.mem_append.1 he with he | he
  · exact avoids_filters legible he
  · split at he
    · cases he
    · rename_i present
      rw [List.mem_singleton.1 he]
      refine legible _ mem ?_
      rintro rfl
      exact present rfl

/-- A test of all rows fails only with its tables and conditions, or with its predicate. -/
theorem avoids_allQuery {kind : TerminalKind} {predicate : Expr}
    (mem : .terminal kind predicate ∈ c.steps) :
    Avoids (CompileError.Has bad) (c.allQuery predicate) := by
  refine .bind (avoids_rejectUnlowered within c) fun _ lowered => ?_
  refine avoids_sourced sourced lowered fun clauses scope legible => ?_
  refine .bind (avoids_conditions fun e he => avoids_filters legible he) fun _ _ => ?_
  dsimp only
  split
  · exact .error (within _)
  · rename_i present
    refine .bind (avoids_unplaced (legible _ mem ?_)) fun _ _ => .pure
    rintro rfl
    exact present rfl

/-- A search fails only with its tables and conditions, what it searches among, or the value. -/
theorem avoids_containsQuery {value : Expr} (mem : .contains value ∈ c.steps) :
    Avoids (CompileError.Has bad) (c.containsQuery value) := by
  refine .bind (avoids_rejectUnlowered within c) fun _ lowered => .check (within _) ?_
  rcases searchedSelector_cases c with ⟨selector, present, selected, same⟩ | ⟨place, same⟩
  · rw [same]
    refine avoids_sourced sourced lowered fun clauses scope legible => ?_
    have conditioned := avoids_conditions fun e he => avoids_filters legible he
    exact .bind (avoids_unplaced (legible _ selected present _ nofun)) fun _ _ =>
      .bind conditioned fun _ _ => .bind (avoids_groupBy legible) fun _ _ =>
        .bind (avoids_unplaced (legible _ mem _ nofun)) fun _ _ => .pure
  · rw [same]
    exact .error (within _)

/-- A chain that is sourced once its steps are lowered has a statement without a bad fault. -/
theorem avoids_statement : Avoids (CompileError.Has bad) c.statement := by
  unfold statement
  split
  · exact avoids_allQuery within sourced (mem_terminal? ‹_›).1
  · exact avoids_anyQuery within sourced (mem_terminal? ‹_›).1
  · split
    · exact avoids_containsQuery within sourced (mem_contained? ‹_›)
    · exact avoids_selectQuery within sourced

end

end SelectChain

/-! ### The clauses that introduce aliases -/

/-- What is true of all nested queries is true of those that are joined. -/
theorem forall_nested_joinSources {p : Except CompileError Fragment → Prop}
    {rendered : List RenderedStep} (h : ∀ r ∈ rendered, p r.nested) :
    ∀ join ∈ joinSources rendered, p join.nested := by
  fun_induction joinSources rendered with
  | case1 => exact List.forall_mem_nil _
  | case2 kind inner keys selector shape nested rest ih =>
    rw [List.forall_mem_cons] at h
    exact List.forall_mem_cons.2 ⟨h.1, ih h.2⟩
  | case3 r rest _ ih =>
    rw [List.forall_mem_cons] at h
    exact ih h.2

section

variable {bad : CompileError → Prop} {scope : SqlScope}

/-- Joins are written one after the other, each under its number. -/
theorem avoids_joinClauses {joins : List JoinSource} {first : Nat}
    (h : ∀ (k : Nat) (join : JoinSource), joins[k]? = some join →
      Avoids bad (joinClause scope join (first + k))) :
    Avoids bad (joinClauses scope joins first) := by
  induction joins generalizing first with
  | nil => exact .ok
  | cons head rest ih =>
    unfold joinClauses
    refine .bind (h 0 head rfl) fun _ _ => .bind (ih fun k join found => ?_) fun _ _ => .pure
    have later := h (k + 1) join found
    rwa [Nat.add_assoc, Nat.add_comm 1 k]

theorem avoids_joinTarget {join : JoinSource} (name : String) (h : Avoids bad join.nested) :
    Avoids bad (joinTarget join name) := by
  unfold joinTarget
  split
  · exact .ok
  · exact h.map

theorem avoids_fromClause (hasJoins : Bool) (table schema : String) (subquery : Operation)
    (aliasHint : String) {nested : Except CompileError Fragment} (h : Avoids bad nested) :
    Avoids bad (fromClause hasJoins table schema subquery aliasHint nested) := by
  unfold fromClause
  split
  · dsimp only
    split <;> exact .ok
  · exact .bind h fun _ _ => .pure

/-- The clauses of tables fail only with nested queries or joins. -/
theorem SelectChain.avoids_sources {bad : SqlFault → Prop} (within : Concerns bad) {c : SelectChain}
    (nested : ∀ rendered ∈ c.rendered, Avoids (CompileError.Has bad) rendered.nested)
    (clauses : ∀ scope, Avoids (CompileError.Has bad)
      (joinClauses scope (joinSources c.rendered) 1)) :
    Avoids (CompileError.Has bad) c.sources := by
  unfold sources
  dsimp only
  split
  · rename_i found
    refine .bind (avoids_fromClause _ _ _ _ _ (nested _ (List.mem_of_find?_eq_some found))) ?_
    exact fun _ _ => .bind (clauses _) fun _ _ => .pure
  · exact .error (within _)

end

end Sql

/-! ### The statements of an operation -/

namespace Operation

open Sql

/-- The chain from which the SELECT of an operation is written. -/
def selectChain (d : Dialect) (params : Json) (op : Operation) : SelectChain :=
  ⟨d, params, (chain op).map (renderStep d params)⟩

variable (d : Dialect) (params : Json)

/-- A level is rendered step by step. -/
theorem renderLevel_eq_map (op : Operation) :
    renderLevel d params op = (level op).map (renderStep d params) := by
  induction op with
  | nil => rfl
  | cons step earlier ih =>
    cases isFrom : step.isFrom with
    | true =>
      rw [level_from isFrom, renderLevel, if_pos isFrom]
      rfl
    | false =>
      rw [level_step isFrom, renderLevel, isFrom, if_neg Bool.false_ne_true, ih]
      rfl

/-- A SELECT is written from the chain of its calls. -/
theorem steps_selectChain (op : Operation) : (op.selectChain d params).steps = chain op := by
  unfold selectChain SelectChain.steps
  rw [List.map_map]
  exact (List.map_congr_left fun step _ => step_renderStep d params step).trans (List.map_id _)

theorem level_cons (step : Step) (earlier : Operation) :
    ∃ rest, level (step :: earlier) = step :: rest := by
  unfold level
  split <;> exact ⟨_, rfl⟩

/-- The SQL of an operation that does not change rows is the statement of its chain. -/
theorem sql_eq_statement {step : Step} (select : step.isCrud = false) (earlier : Operation) :
    Operation.sql d params (step :: earlier) =
      (selectChain d params (step :: earlier)).statement := by
  obtain ⟨rest, hlevel⟩ := level_cons step earlier
  unfold Operation.sql selectChain chain
  rw [renderLevel_eq_map, hlevel, List.map_reverse, List.map_cons]
  exact assemble_head (by rw [step_renderStep, select])

/-- What is rendered for a step is the SQL of the operation nested in it, or in the `from` that is all
of that operation. -/
theorem nested_renderStep (d : Dialect) (params : Json) (step : Step) :
    (renderStep d params step).nested = .ok [] ∨
      (renderStep d params step).nested = step.nested.sql d params ∨
      ∃ root, step.nested = [root] ∧ root.nested ≠ [] ∧
        (renderStep d params step).nested = root.nested.sql d params := by
  cases step with
  | fromSource => exact .inr (.inl (by simp only [renderStep]; rfl))
  | join kind inner keys selector shape =>
    unfold renderStep
    split
    · cases ‹Step.join kind inner keys selector shape = _›
    · rename_i same
      cases same
      exact .inr (.inr ⟨_, rfl, List.cons_ne_nil _ _, rfl⟩)
    · rename_i same
      cases same
      exact .inr (.inl rfl)
    · rename_i other
      exact absurd rfl (other _ _ _ _ _)
  | _ => exact .inl (by simp only [renderStep])

theorem level_subset (op : Operation) : level op ⊆ op := by
  induction op with
  | nil => exact List.Subset.refl _
  | cons first earlier ih =>
    cases isFrom : first.isFrom with
    | true =>
      rw [level_from isFrom]
      exact List.cons_subset_cons _ (List.nil_subset _)
    | false =>
      rw [level_step isFrom]
      exact List.cons_subset_cons _ ih

/-- The steps of a level are smaller than the operation, which is why nested queries may be
rendered. -/
theorem sizeOf_lt_of_mem_level {step : Step} {op : Operation} (h : step ∈ level op) :
    sizeOf step < sizeOf op :=
  List.sizeOf_lt_of_mem (level_subset op h)

variable {bad : SqlFault → Prop} (within : Concerns bad)

include within

/-- An operation has no bad fault if the SELECT of its chain has none, and what changes rows is
legible. -/
theorem avoids_sql_of_statement {op : Operation}
    (change : ∀ step ∈ op.head?, step.LegibleChange bad ⟨d, params, [], false⟩)
    (h : Avoids (CompileError.Has bad) (op.selectChain d params).statement) :
    Avoids (CompileError.Has bad) (op.sql d params) := by
  cases op with
  | nil => exact .error (within _)
  | cons step earlier =>
    cases crud : step.isCrud with
    | false =>
      rw [sql_eq_statement d params crud]
      exact h
    | true =>
      obtain ⟨rest, hlevel⟩ := level_cons step earlier
      have legible := change step rfl
      rw [Operation.sql, renderLevel_eq_map, hlevel, List.map_cons]
      cases step with
      | insert s => exact avoids_insert within legible
      | update s => exact avoids_update within legible
      | delete s => exact avoids_delete within legible
      | _ => cases crud

/-- Nested statements may be looked at one by one. -/
theorem avoids_sql_of_parts (op : Operation)
    (statements : ∀ holder part, Part none op holder part →
      (∀ step ∈ level part, Avoids (CompileError.Has bad) (renderStep d params step).nested) →
      Avoids (CompileError.Has bad) (part.sql d params)) :
    Avoids (CompileError.Has bad) (op.sql d params) := by
  refine statements none op (.whole none op) fun step hstep => ?_
  have inside (holder : Option Step) (part : Operation) (holds : step.nested ≠ [])
      (h : Part none step.nested holder part) : ∃ holder', Part none op holder' part := by
    obtain ⟨holder', h⟩ := h.hold (some step)
    exact ⟨_, .nested hstep holds h⟩
  rcases nested_renderStep d params step with empty | direct | ⟨root, whole, holds, derived⟩
  · rw [empty]
    exact .ok
  · rw [direct]
    by_cases holds : step.nested = []
    · rw [holds]
      exact .error (within _)
    · refine avoids_sql_of_parts step.nested fun holder part h => ?_
      obtain ⟨holder', read⟩ := inside holder part holds h
      exact statements holder' part read
  · rw [derived]
    refine avoids_sql_of_parts root.nested fun holder part h => ?_
    obtain ⟨holder', h⟩ := h.hold (some root)
    have below : Part none step.nested holder' part := by
      rw [whole]
      refine .nested ?_ holds h
      obtain ⟨rest, hlevel⟩ := level_cons root []
      rw [hlevel]
      exact List.mem_cons_self ..
    obtain ⟨holder'', read⟩ := inside holder' part (by rw [whole]; exact List.cons_ne_nil _ _) below
    exact statements holder'' part read
termination_by sizeOf op
decreasing_by
  · exact Nat.lt_of_le_of_lt step.sizeOf_nested_le (sizeOf_lt_of_mem_level hstep)
  · have inner := step.sizeOf_nested_le
    rw [whole, List.cons.sizeOf_spec] at inner
    have := root.sizeOf_nested_le
    have := sizeOf_lt_of_mem_level hstep
    omega

end Operation

end FluentQuery
