import FluentQuery.Proofs.Expr.Children
import FluentQuery.Proofs.Sql.NestedQueries
import FluentQuery.Proofs.TwoRuns

/-!
# Values of parameters and the text of a statement

A statement is written with placeholders.  Of a parameter it matters whether it is given, and of a
list how many items it has, since one placeholder is written for each.  Main statement:
`sql_ignores_param_values`, that nothing else about the values of parameters reaches the text,
whatever the operation is and however deep its queries are nested.
-/

namespace FluentQuery

set_option autoImplicit false

/-! ### What is looked at -/

namespace Json

/-- Arrays of one length, or no arrays at all. -/
def SameForm : Json → Json → Prop
  | .arr items, .arr items' => items.length = items'.length
  | v, v' => v.isArray = false ∧ v'.isArray = false

/-- The same parameters are given, and lists under the same names with as many items. -/
def SameForms (params params' : Json) : Prop :=
  ∀ name, Option.Rel SameForm (params.get? name) (params'.get? name)

/-- A parameter is given on both sides or on neither. -/
theorem SameForms.contains {params params' : Json} (h : params.SameForms params') (name : String) :
    params.contains name = params'.contains name := by
  have here := h name
  unfold Json.contains
  generalize params.get? name = found, params'.get? name = found' at here ⊢
  cases here <;> rfl

end Json

namespace Assignments

variable {params params' : Json}

/-- The same assignments are made. -/
theorem given_eq (h : params.SameForms params') (assignments : Assignments) :
    assignments.given params = assignments.given params' := by
  have undefined (e : Expr) : isUndefined params e = isUndefined params' e := by
    cases e with
    | param p property => simp only [isUndefined, h.contains]
    | _ => rfl
  simp only [given, undefined]

end Assignments

/-! ### Expressions -/

namespace Sql

variable {scope : SqlScope} {params' : Json}

/-- As many placeholders are written for a list, or none because it is no list. -/
theorem agree_arrayItems {params : Json} (h : params.SameForms params') (name : String) :
    Agree Eq (arrayItems params name) (arrayItems params' name) := by
  have here := h name
  unfold arrayItems
  generalize params.get? name = found, params'.get? name = found' at here ⊢
  cases here with
  | none => exact .error
  | @some v v' form =>
    cases v with
    | arr items =>
      cases v' with
      | arr items' =>
        have length : items.length = items'.length := form
        refine .ok ?_
        rw [length]
      | _ => cases form.1
    | _ =>
      cases v' with
      | arr => cases form.2
      | _ => exact .error

theorem agree_inValue (position : Position) (type : String) {x y : Except SqlFault Fragment}
    (h : Agree Eq x y) : Agree Eq (inValue position type x) (inValue position type y) := by
  cases position with
  | predicate => exact .error
  | value | «open» => exact h

/-- Lists are rendered item by item. -/
theorem agree_sqlList {es : List Expr} (position : Position)
    (h : ∀ e ∈ es, Agree Eq (e.sql scope position) (e.sql { scope with params := params' } position)) :
    Agree Eq (Expr.sqlList scope position es)
      (Expr.sqlList { scope with params := params' } position es) := by
  induction es with
  | nil => exact .ok rfl
  | cons e rest ih =>
    rw [List.forall_mem_cons] at h
    unfold Expr.sqlList
    exact .bind_eq h.1 fun _ => .bind_eq (ih h.2) fun _ => .pure rfl

/-- Conditions and results are rendered pair by pair. -/
theorem agree_sqlConditions {cs : List (Expr × Expr)}
    (h : ∀ e ∈ Expr.conditionChildren cs, ∀ position,
      Agree Eq (e.sql scope position) (e.sql { scope with params := params' } position)) :
    Agree Eq (Expr.sqlConditions scope cs)
      (Expr.sqlConditions { scope with params := params' } cs) := by
  induction cs with
  | nil => exact .ok rfl
  | cons c rest ih =>
    rw [Expr.conditionChildren, List.forall_mem_cons, List.forall_mem_cons] at h
    obtain ⟨condition, result, below⟩ := h
    unfold Expr.sqlConditions
    exact .bind_eq (result .open) fun _ => .bind_eq (condition .predicate) fun _ =>
      .bind_eq (ih below) fun _ => .pure rfl

theorem agree_sqlOrders {os : List (Expr × Bool)}
    (h : ∀ o ∈ os, Agree Eq (o.1.sql scope .value) (o.1.sql { scope with params := params' } .value)) :
    Agree Eq (Expr.sqlOrders scope os) (Expr.sqlOrders { scope with params := params' } os) := by
  induction os with
  | nil => exact .ok rfl
  | cons o rest ih =>
    rw [List.forall_mem_cons] at h
    unfold Expr.sqlOrders
    exact .bind_eq h.1 fun _ => .bind_eq (ih h.2) fun _ => .pure rfl

/-- Members are rendered one by one, and their forms do not depend on parameters. -/
theorem agree_sqlProperties {ps : List (String × Expr)}
    (h : ∀ p ∈ ps, ∀ position,
      Agree Eq (p.2.sql scope position) (p.2.sql { scope with params := params' } position)) :
    Agree Eq (Expr.sqlProperties scope ps)
      (Expr.sqlProperties { scope with params := params' } ps) := by
  induction ps with
  | nil => exact .ok rfl
  | cons p rest ih =>
    rw [List.forall_mem_cons] at h
    have others (part : Fragment) : Agree Eq
        (Expr.sqlProperties scope rest >>= fun parts => pure (part :: parts))
        (Expr.sqlProperties { scope with params := params' } rest >>= fun parts =>
          pure (part :: parts)) :=
      .bind_eq (ih h.2) fun _ => .pure rfl
    unfold Expr.sqlProperties
    dsimp only
    split
    · exact .bind_eq (h.1 .value) fun part => others part
    · split
      · exact .error
      · exact .bind_eq (h.1 .open) fun _ => others _

end Sql

/-- Wherever it stands, an expression is written in the same way with other values of parameters. -/
def Expr.Blind (scope : SqlScope) (params' : Json) (e : Expr) : Prop :=
  ∀ position, Agree Eq (e.sql scope position) (e.sql { scope with params := params' } position)

open Sql in
/-- A node is blind to the values of parameters if what stands below it is: its operands, and those
of a list of values, which has no text of its own. -/
theorem Expr.blind_of_children {scope : SqlScope} {params' : Json}
    (forms : scope.params.SameForms params') {e : Expr}
    (below : ∀ c ∈ e.children, c.Blind scope params')
    (deeper : ∀ c ∈ e.children, ∀ d ∈ c.children, d.Blind scope params') :
    e.Blind scope params' := by
  intro position
  cases e with
  | absent | column | booleanColumn | reference | excludedColumn | constant | param | allColumns
  | booleanConstant | booleanParam => exact .refl _
  | arithmetic op left right | concat left right =>
    obtain ⟨left, right⟩ := forall_mem_pair.1 below
    unfold Expr.sql
    exact agree_inValue _ _ (.bind_eq (right _) fun _ => .bind_eq (left _) fun _ => .pure rfl)
  | stringMethod method operand =>
    unfold Expr.sql
    exact agree_inValue _ _ (.bind_eq (List.forall_mem_singleton.1 below _) fun _ => .pure rfl)
  | caseWhen conditions elseResult =>
    rw [children, List.forall_mem_append] at below
    unfold Expr.sql
    refine agree_inValue _ _ ?_
    split
    · exact .error
    · refine .bind_eq (agree_sqlConditions below.1) fun _ => ?_
      dsimp only
      split
      · exact .pure rfl
      · exact .bind_eq (List.forall_mem_singleton.1 below.2 _) fun _ => .pure rfl
  | coalesce es =>
    unfold Expr.sql
    exact agree_inValue _ _ (.bind_eq (agree_sqlList _ fun e he => below e he _) fun _ => .pure rfl)
  | aggregate function operand =>
    unfold Expr.sql
    refine agree_inValue _ _ ?_
    split
    · exact .pure rfl
    · exact .bind_eq (List.forall_mem_singleton.1 below _) fun _ => .pure rfl
  | window function partitionBy orderBy =>
    rw [children, List.forall_mem_append, List.forall_mem_map] at below
    unfold Expr.sql
    exact agree_inValue _ _ (.bind_eq (agree_sqlList _ fun e he => below.1 e he _) fun _ =>
      .bind_eq (agree_sqlOrders fun o ho => below.2 o ho _) fun _ => .pure rfl)
  | comparison op left right =>
    obtain ⟨left, right⟩ := forall_mem_pair.1 below
    unfold Expr.sql
    exact .bind_eq (left _) fun _ => .bind_eq (right _) fun _ => .pure rfl
  | logical op left right =>
    obtain ⟨left, right⟩ := forall_mem_pair.1 below
    unfold Expr.sql
    exact .bind_eq (right _) fun _ => .bind_eq (left _) fun _ => .pure rfl
  | negation operand =>
    have negated : Agree Eq
        (operand.sql scope .predicate >>= fun text => .ok (Sql.negation scope.dialect text))
        (operand.sql { scope with params := params' } .predicate >>= fun text =>
          .ok (Sql.negation scope.dialect text)) :=
      .bind_eq (List.forall_mem_singleton.1 below _) fun _ => .ok rfl
    cases operand with
    | membership value list =>
      cases list with
      | param p property index =>
        have value' := deeper _ (List.mem_singleton_self _) value (List.mem_cons_self ..)
        exact .bind_eq (value' _) fun _ =>
          .bind_eq (agree_arrayItems forms _) fun _ => .pure rfl
      | _ => exact negated
    | _ => exact negated
  | textTest method operand arguments =>
    cases arguments with
    | nil => exact .error
    | cons argument rest =>
      unfold Expr.sql
      exact .bind_eq (below operand (by simp [children]) _) fun _ =>
        .bind_eq (below argument (by simp [children]) _) fun _ => .pure rfl
  | caseInsensitive function left right =>
    obtain ⟨left, right⟩ := forall_mem_pair.1 below
    unfold Expr.sql
    exact .bind_eq (left _) fun _ => .bind_eq (right _) fun _ => .pure rfl
  | membership value list =>
    obtain ⟨value, -⟩ := forall_mem_pair.1 below
    cases list with
    | param =>
      exact .bind_eq (value _) fun _ => .bind_eq (agree_arrayItems forms _) fun _ => .pure rfl
    | array elements =>
      have elements' := deeper (.array elements) (List.mem_cons_of_mem _ (List.mem_singleton_self _))
      exact .bind_eq (value _) fun _ =>
        .bind_eq (agree_sqlList _ fun e he => elements' e he _) fun _ => .pure rfl
    | _ => exact .bind_eq (value _) fun _ => .error
  | isNull operand negated =>
    unfold Expr.sql
    exact .bind_eq (List.forall_mem_singleton.1 below _) fun _ => .pure rfl
  | object properties =>
    rw [children, List.forall_mem_map] at below
    cases position with
    | predicate | value => exact .error
    | «open» =>
      unfold Expr.sql
      dsimp only
      split
      · exact .error
      · exact .bind_eq (agree_sqlProperties below) fun _ => .pure rfl
  | array => cases position <;> exact .error

/-- Every expression is blind to the values of parameters. -/
theorem Expr.blind {scope : SqlScope} {params' : Json} (forms : scope.params.SameForms params')
    (e : Expr) : e.Blind scope params' := by
  induction e using Expr.grandchildren_induction with
  | step e below deeper => exact blind_of_children forms below deeper

/-! ### Statements that change rows -/

namespace Sql

theorem agree_unplaced {α β : Type} {same : α → β → Prop} {x : Except SqlFault α}
    {y : Except SqlFault β} (h : Agree same x y) : Agree same (unplaced x) (unplaced y) :=
  h.mapError

section

variable {scope : SqlScope} {params' : Json} (forms : scope.params.SameForms params')

include forms

/-- Projections are rendered without a look at parameters. -/
theorem agree_projectionSql (selector : Expr) : Agree Eq (selector.projectionSql scope)
    (selector.projectionSql { scope with params := params' }) := by
  unfold Expr.projectionSql
  split
  · exact .ok rfl
  · exact selector.blind forms _

/-- Assignments whose parameter is not given are left out on both sides. -/
theorem agree_assignedColumns (assignments : Option Assignments) :
    Agree Eq (assignedColumns scope assignments)
      (assignedColumns { scope with params := params' } assignments) := by
  have rendered (given : Assignments) : Agree Eq (assignmentSql scope given)
      (assignmentSql { scope with params := params' } given) := by
    induction given with
    | nil => exact .ok rfl
    | cons entry rest ih =>
      unfold assignmentSql
      exact .bind_eq (entry.2.blind forms _) fun _ => .bind_eq ih fun _ => .pure rfl
  unfold assignedColumns
  rw [Assignments.given_eq forms]
  exact agree_unplaced (rendered _)

theorem agree_returningClause (returning : Expr) : Agree Eq (returningClause scope returning)
    (returningClause { scope with params := params' } returning) := by
  unfold returningClause
  split
  · exact .ok rfl
  · exact .bind_eq (agree_unplaced (agree_projectionSql forms _)) fun _ => .pure rfl

theorem agree_whereClause (predicate : Expr) : Agree Eq (whereClause scope predicate)
    (whereClause { scope with params := params' } predicate) := by
  unfold whereClause
  split
  · exact .ok rfl
  · exact .bind_eq (agree_unplaced (predicate.blind forms _)) fun _ => .pure rfl

/-- A conflict clause updates the same columns. -/
theorem agree_conflictClause (table : String) (conflict : Option OnConflict) :
    Agree Eq (conflictClause scope table conflict)
      (conflictClause { scope with params := params' } table conflict) := by
  cases conflict with
  | none => exact .ok rfl
  | some conflict =>
    unfold conflictClause
    refine .check ?_
    split
    · exact .error
    · exact .pure rfl
    · exact .bind_eq (agree_assignedColumns forms _) fun _ => .check (.pure rfl)

/-- An INSERT lists the same columns. -/
theorem agree_insert (s : InsertStatement) :
    Agree Eq (insert scope s) (insert { scope with params := params' } s) :=
  .bind_eq (agree_assignedColumns forms _) fun _ => .check <|
    .bind_eq (agree_conflictClause forms _ _) fun _ =>
      .bind_eq (agree_returningClause forms _) fun _ => .pure rfl

theorem agree_update (s : UpdateStatement) :
    Agree Eq (update scope s) (update { scope with params := params' } s) :=
  .bind_eq (agree_assignedColumns forms _) fun _ => .check <| .check <|
    .bind_eq (agree_whereClause forms _) fun _ =>
      .bind_eq (agree_returningClause forms _) fun _ => .pure rfl

theorem agree_delete (s : DeleteStatement) :
    Agree Eq (delete scope s) (delete { scope with params := params' } s) := by
  unfold delete
  exact .check (.bind_eq (agree_whereClause forms _) fun _ => .pure rfl)

end

/-! ### The clauses of a SELECT -/

variable {rendered rendered' : List RenderedStep}

/-- What is joined is a table, or a query that has been rendered alike. -/
theorem agree_joinTarget {j j' : JoinSource} (h : j.Alike (Agree Eq) j') (name : String) :
    Agree Eq (joinTarget j name) (joinTarget j' name) := by
  obtain ⟨-, inner, -, nested⟩ := h
  unfold joinTarget
  rw [← inner]
  split
  · exact .ok rfl
  · exact nested.map

theorem agree_joinClause (scope : SqlScope) (params' : Json) {j j' : JoinSource}
    (h : j.Alike (Agree Eq) j') (index : Nat) :
    Agree Eq (joinClause scope j index) (joinClause { scope with params := params' } j' index) := by
  have target := agree_joinTarget h (tableAlias index)
  obtain ⟨kind, -, keys, -⟩ := h
  unfold joinClause
  rw [← kind, ← keys]
  refine .bind_eq target fun _ => ?_
  dsimp only
  split
  · exact .pure rfl
  · exact .bind_eq (.refl _) fun _ => .pure rfl

/-- Joins are written one after the other, under the same aliases. -/
theorem agree_joinClauses (scope : SqlScope) (params' : Json) {js js' : List JoinSource}
    (h : List.Forall₂ (JoinSource.Alike (Agree Eq)) js js') (index : Nat) :
    Agree Eq (joinClauses scope js index)
      (joinClauses { scope with params := params' } js' index) := by
  induction h generalizing index with
  | nil => exact .ok rfl
  | cons here _ ih =>
    unfold joinClauses
    exact .bind_eq (agree_joinClause scope params' here index) fun _ =>
      .bind_eq (ih (index + 1)) fun _ => .pure rfl

/-- FROM is written for a table, or for a query that has been rendered alike. -/
theorem agree_fromClause (hasJoins : Bool) (table schema : String) (subquery : Operation)
    (aliasHint : String) {nested nested' : Except CompileError Fragment}
    (h : Agree Eq nested nested') :
    Agree Eq (fromClause hasJoins table schema subquery aliasHint nested)
      (fromClause hasJoins table schema subquery aliasHint nested') := by
  unfold fromClause
  split
  · split
    · exact .ok rfl
    · exact .ok rfl
  · exact .bind_eq h fun _ => .pure rfl

namespace SelectChain

/-- The same steps for the same dialect, with other values of parameters. -/
structure Alike (c c' : SelectChain) : Prop where
  dialect : c.dialect = c'.dialect
  params : c.params.SameForms c'.params
  rendered : List.Forall₂ (RenderedStep.Alike (Agree Eq)) c.rendered c'.rendered

/-- The same clauses, and scopes that differ in the values of parameters only. -/
inductive SameSources (params' : Json) :
    List Fragment × SqlScope → List Fragment × SqlScope → Prop where
  | intro (clauses : List Fragment) (scope : SqlScope) (forms : scope.params.SameForms params') :
    SameSources params' (clauses, scope) (clauses, { scope with params := params' })

variable {c c' : SelectChain} (h : c.Alike c')

include h

/-- Both chains have the same steps. -/
theorem Alike.steps : c.steps = c'.steps :=
  map_step_eq h.rendered

theorem Alike.place (method : String) : c.place method = c'.place method :=
  place_congr h.steps method

theorem Alike.rejectUnlowered : c.rejectUnlowered = c'.rejectUnlowered :=
  rejectUnlowered_congr h.steps

/-- The FROM and JOIN clauses are the same, and so are the tables they introduce. -/
theorem agree_sources : Agree (SameSources c'.params) c.sources c'.sources := by
  have joins := alike_joinSources h.rendered
  have found := alike_find? h.rendered
  unfold sources
  dsimp only
  rw [← isEmpty_joinSources_congr h.rendered, ← h.dialect, ← joins.length_eq]
  generalize c.rendered.find? (·.step.isFrom) = root,
    c'.rendered.find? (·.step.isFrom) = root' at found ⊢
  cases found with
  | none => exact .error
  | @some r r' here =>
    obtain ⟨step, nested⟩ := r
    obtain ⟨_, nested'⟩ := r'
    obtain ⟨rfl, agree⟩ := here
    cases step with
    | fromSource table schema subquery aliasHint =>
      exact .bind_eq (agree_fromClause _ _ _ _ _ agree) fun _ =>
        .bind_eq (agree_joinClauses _ _ joins 1) fun _ => .pure (.intro _ _ h.params)
    | _ => exact .error

omit h

section

variable {scope : SqlScope} {params' : Json} (forms : scope.params.SameForms params')

include forms

theorem agree_conditions (predicates : List Expr) : Agree Eq (conditions scope predicates)
    (conditions { scope with params := params' } predicates) :=
  agree_unplaced (agree_sqlList _ fun e _ => e.blind forms _)

include h

/-- The SELECT clause is chosen by the steps. -/
theorem agree_projection :
    Agree Eq (c.projection scope) (c'.projection { scope with params := params' }) := by
  unfold projection
  rw [← h.steps]
  simp only [← h.place]
  refine .bind_eq (.refl _) fun chosen => ?_
  cases chosen with
  | count => exact .pure rfl
  | aggregate kind e => exact .bind_eq (agree_unplaced (e.blind forms _)) fun _ => .pure rfl
  | selector e => exact .bind_eq (agree_unplaced (agree_projectionSql forms e)) fun _ => .pure rfl
  | key e => exact .bind_eq (agree_unplaced (e.blind forms _)) fun _ => .pure rfl
  | all => exact .pure rfl

theorem agree_groupBy :
    Agree Eq (c.groupBy scope) (c'.groupBy { scope with params := params' }) := by
  unfold groupBy
  rw [← h.steps]
  split
  · exact .ok rfl
  · exact .bind_eq (agree_unplaced (agree_sqlList _ fun e _ => e.blind forms _)) fun _ => .pure rfl

theorem agree_orderBy :
    Agree Eq (c.orderBy scope) (c'.orderBy { scope with params := params' }) := by
  unfold orderBy
  rw [← h.steps]
  split
  · exact .ok rfl
  · exact .ok rfl
  · exact .bind_eq (agree_unplaced (agree_sqlOrders fun o _ => o.1.blind forms _)) fun _ => .pure rfl

/-- The clauses that page rows are chosen by the steps. -/
theorem agree_paging :
    Agree Eq (c.paging scope) (c'.paging { scope with params := params' }) := by
  have count (e : Expr) : Agree Eq (unplaced (e.sql scope .value))
      (unplaced (e.sql { scope with params := params' } .value)) :=
    agree_unplaced (e.blind forms _)
  unfold paging
  rw [← h.steps, ← h.dialect]
  cases Clause.limit c.dialect c.steps with
  | none | rows | unbounded =>
    dsimp only
    split
    · exact .bind_eq (count _) fun _ => .pure rfl
    · exact .pure rfl
  | given taken =>
    dsimp only
    split
    · exact .bind_eq (count _) fun _ => .bind_eq (.refl _) fun _ =>
        .bind_eq (count taken) fun _ => .pure rfl
    · exact .bind_eq (.refl _) fun _ => .bind_eq (count taken) fun _ => .pure rfl

end

/-! ### The statement of a chain -/

include h

/-- A SELECT is written clause by clause. -/
theorem agree_selectQuery : Agree Eq c.selectQuery c'.selectQuery := by
  unfold selectQuery
  rw [h.rejectUnlowered, h.steps]
  refine .bind_eq (.refl _) fun _ => .check (.bind (agree_sources h) ?_)
  rintro _ _ ⟨clauses, scope, forms⟩
  exact .bind_eq (agree_projection h forms) fun _ => .bind_eq (agree_conditions forms _) fun _ =>
    .bind_eq (agree_groupBy h forms) fun _ => .bind_eq (agree_orderBy h forms) fun _ =>
      .bind_eq (agree_paging h forms) fun _ => .pure rfl

/-- A test of the rows is written from tables and conditions. -/
theorem agree_anyQuery (predicate : Expr) :
    Agree Eq (c.anyQuery predicate) (c'.anyQuery predicate) := by
  unfold anyQuery
  rw [h.rejectUnlowered, h.steps]
  refine .bind_eq (.refl _) fun _ => .bind (agree_sources h) ?_
  rintro _ _ ⟨clauses, scope, forms⟩
  exact .bind_eq (agree_conditions forms _) fun _ => .pure rfl

theorem agree_allQuery (predicate : Expr) :
    Agree Eq (c.allQuery predicate) (c'.allQuery predicate) := by
  unfold allQuery
  rw [h.rejectUnlowered, h.steps]
  refine .bind_eq (.refl _) fun _ => .bind (agree_sources h) ?_
  rintro _ _ ⟨clauses, scope, forms⟩
  exact .bind_eq (agree_conditions forms _) fun _ => .check <|
    .bind_eq (agree_unplaced (predicate.blind forms _)) fun _ => .pure rfl

/-- A search is written from what it searches among and the value. -/
theorem agree_containsQuery (value : Expr) :
    Agree Eq (c.containsQuery value) (c'.containsQuery value) := by
  unfold containsQuery
  rw [h.rejectUnlowered, h.steps, searchedSelector_congr h.steps]
  refine .bind_eq (.refl _) fun _ => .check <| .bind_eq (.refl _) fun selector =>
    .bind (agree_sources h) ?_
  rintro _ _ ⟨clauses, scope, forms⟩
  exact .bind_eq (agree_unplaced (selector.blind forms _)) fun _ =>
    .bind_eq (agree_conditions forms _) fun _ => .bind_eq (agree_groupBy h forms) fun _ =>
      .bind_eq (agree_unplaced (value.blind forms _)) fun _ => .pure rfl

/-- The form of a SELECT is chosen by its steps. -/
theorem agree_statement : Agree Eq c.statement c'.statement := by
  unfold statement
  rw [← h.steps]
  split
  · exact agree_allQuery h _
  · exact agree_anyQuery h _
  · split
    · exact agree_containsQuery h _
    · exact agree_selectQuery h

end SelectChain

/-! ### Operations -/

variable {params params' : Json} (forms : params.SameForms params') (d : Dialect)

include forms

/-- A statement is put together from steps whose nested statements agree. -/
theorem agree_assemble (h : List.Forall₂ (RenderedStep.Alike (Agree Eq)) rendered rendered') :
    Agree Eq (assemble d params rendered) (assemble d params' rendered') := by
  cases h with
  | nil => exact .error
  | @cons r r' rest rest' here below =>
    have select : Agree Eq (SelectChain.statement ⟨d, params, (r :: rest).reverse⟩)
        (SelectChain.statement ⟨d, params', (r' :: rest').reverse⟩) :=
      SelectChain.agree_statement ⟨rfl, forms, List.rel_reverse (.cons here below)⟩
    obtain ⟨step, nested⟩ := r
    obtain ⟨_, nested'⟩ := r'
    obtain ⟨rfl, agree⟩ := here
    cases step with
    | insert s => exact agree_insert forms s
    | update s => exact agree_update forms s
    | delete s => exact agree_delete forms s
    | _ => exact select

/-- An operation is written in the same way with other values of parameters, or not at all. -/
theorem agree_sql (op : Operation) : Agree Eq (op.sql d params) (op.sql d params') := by
  refine agree_assemble forms d (alike_renderLevel fun step hstep => ?_)
  rw [renderStep_eq, renderStep_eq]
  refine ⟨rfl, ?_⟩
  cases written : writtenQuery? step with
  | none => exact .ok rfl
  | some nested =>
    have smaller := Nat.lt_trans (sizeOf_writtenQuery?_lt written) (List.sizeOf_lt_of_mem hstep)
    exact agree_sql nested
termination_by sizeOf op

end Sql

/-- The text of a statement does not depend on the values of its parameters: where the same parameters
are given, with lists of the same lengths, an operation cannot be written for either or has the same
text for both. -/
theorem sql_ignores_param_values (d : Dialect) (op : Operation) {params params' : Json}
    (forms : params.SameForms params') :
    (∃ e e', op.sql d params = .error e ∧ op.sql d params' = .error e') ∨
      ∃ sql sql', op.sql d params = .ok sql ∧ op.sql d params' = .ok sql' ∧
        sql.render d = sql'.render d := by
  rcases (Sql.agree_sql forms d op).eq_or_error with fails | ⟨sql, written, written'⟩
  · exact .inl fails
  · exact .inr ⟨sql, sql, written, written', rfl⟩

/-- `UPDATE users SET name = … WHERE id IN (…)` -/
def renameUsers : Operation :=
  [.update
    { table := "users", schema := ""
      assignments := some [("name", .param "p" "name" none), ("age", .param "p" "age" none)]
      predicate := .membership (.column "id" "" none) (.param "p" "ids" none) }]

/-- Two users are renamed by the same text, whoever they are and whatever they are called. -/
theorem sql_ignores_param_values_renameUsers :
    let params := Json.obj [("ids", .arr [.int 1, .int 2]), ("name", .str "x'; DROP TABLE users")]
    let params' := Json.obj [("ids", .arr [.null, .str "7"]), ("name", .int 7)]
    params.SameForms params' ∧
      ∃ sql sql', renameUsers.sql .sqlite params = .ok sql ∧
        renameUsers.sql .sqlite params' = .ok sql' ∧ sql.render .sqlite = sql'.render .sqlite := by
  intro params params'
  have forms : params.SameForms params' := by
    intro name
    simp only [params, params', Json.get?, Assoc.find?]
    split
    · exact .some rfl
    split
    · exact .some ⟨rfl, rfl⟩
    · exact .none
  have succeeds : ∃ sql, renameUsers.sql .sqlite params = .ok sql := ⟨_, rfl⟩
  refine ⟨forms, ?_⟩
  rcases sql_ignores_param_values .sqlite renameUsers forms with ⟨e, e', fails, -⟩ | same
  · obtain ⟨sql, written⟩ := succeeds
    cases written.symm.trans fails
  · exact same

end FluentQuery
