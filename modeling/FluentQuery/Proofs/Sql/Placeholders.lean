import FluentQuery.Proofs.Operation.Mentions
import FluentQuery.Proofs.Sql.ArrayParams
import FluentQuery.Proofs.Sql.ParamValues
import FluentQuery.Proofs.Sql.TextRules
import FluentQuery.Proofs.Sql.TableNumbers

/-!
# Where placeholders come from

A placeholder is written for a parameter, or for an item of a parameter that is a list
(`Expr.Placeholder`).  Main statement: `Sql.over_sql`, that every placeholder in the text of an
operation is one of those of a node that the operation mentions.
-/

namespace FluentQuery

set_option autoImplicit false

/-! ### Fragments -/

namespace Fragment

/-- Every placeholder of a fragment is known. -/
def Over (known : String → Prop) (f : Fragment) : Prop :=
  ∀ name ∈ f.placeholders, known name

variable {known : String → Prop} {f g : Fragment}

@[simp] theorem over_nil : Over known [] := by
  rintro name ⟨⟩

@[simp] theorem over_text (value : String) : Over known (text value) := by
  rintro name ⟨⟩

@[simp] theorem over_placeholder (name : String) : Over known (placeholder name) ↔ known name := by
  simp [Over, placeholder, placeholders]

/-- The placeholders of two texts are those of both. -/
@[simp] theorem over_append : Over known (f ++ g) ↔ Over known f ∧ Over known g := by
  simp only [Over, placeholders_append, List.forall_mem_append]

/-- Separators hold no placeholders. -/
theorem over_separated (separator : String) {fs : List Fragment} (h : ∀ f ∈ fs, Over known f) :
    Over known (separated separator fs) := by
  intro name mem
  rw [placeholders_separated] at mem
  obtain ⟨f, hf, mem⟩ := List.mem_flatMap.1 mem
  exact h f hf name mem

end Fragment

/-! ### Nodes -/

namespace Expr

/-- A placeholder that is written for a node: that of a parameter, or of an item of a list. -/
def Placeholder (params : Json) : Expr → String → Prop
  | param root property index, name => name = Sql.parameterName root property index ∨
    ∃ items position, params.get? (placeholderName root property) = some (.arr items) ∧
      position < items.length ∧ name = Sql.itemName (placeholderName root property) position
  | booleanParam root property, name => name = booleanPlaceholderName root property
  | _, _ => False

/-- The placeholders that are written for a node are known. -/
def Announces (known : String → Prop) (params : Json) (node : Expr) : Prop :=
  ∀ name, node.Placeholder params name → known name

/-- Wherever it stands, an expression is written with known placeholders only. -/
def Written (known : String → Prop) (scope : SqlScope) (e : Expr) : Prop :=
  ∀ position, Returns (Fragment.Over known) (e.sql scope position)

end Expr

/-! ### Expressions -/

namespace Sql

open Fragment

variable {known : String → Prop} {scope : SqlScope}

/-- A comparison is written from its sides, whichever form it takes. -/
theorem over_comparison (d : Dialect) (op : ComparisonOp) {f g : Fragment} (hf : f.Over known)
    (hg : g.Over known) : (comparison d op f g).Over known := by
  have isNull (test : String) : Over known
      (if g.render d == "NULL" then f ++ Fragment.text test
      else if f.render d == "NULL" then g ++ Fragment.text test
      else f ++ Fragment.text (" " ++ op.sql ++ " ") ++ g) := by
    split
    · simp [hf]
    split
    · simp [hg]
    · simp [hf, hg]
  cases op with
  | eq | neq => exact isNull _
  | _ => simp [comparison, hf, hg]

/-- A negation is written from its operand, whether or not it is enclosed. -/
theorem over_negation (d : Dialect) {f : Fragment} (hf : f.Over known) :
    (negation d f).Over known := by
  unfold negation
  split <;> simp [hf]

/-- A test for membership is written from the value and the items. -/
theorem over_memberOf (negated : Bool) {f : Fragment} {items : List Fragment} (hf : f.Over known)
    (hitems : ∀ g ∈ items, g.Over known) : (memberOf negated f items).Over known := by
  unfold memberOf
  split
  · simp
  · simp [hf, over_separated ", " hitems]

/-- A window is written from its groups and its keys. -/
theorem over_window (function : WindowFunction) {partitions orders : List Fragment}
    (hpartitions : ∀ f ∈ partitions, f.Over known) (horders : ∀ f ∈ orders, f.Over known) :
    (window function partitions orders).Over known := by
  have ordered := over_separated ", " horders
  have partitioned := over_separated ", " hpartitions
  unfold window
  dsimp only
  simp only [over_append, over_text, true_and, and_true]
  refine over_separated " " ?_
  split
  · simp [ordered]
  · simp [ordered, partitioned]

theorem over_textTest (test : TextTest) {f g : Fragment} (hf : f.Over known) (hg : g.Over known) :
    (test.sql f g).Over known := by
  cases test <;> simp [TextTest.sql, hf, hg]

theorem over_caseInsensitive (test : CaseInsensitiveTest) {f g : Fragment} (hf : f.Over known)
    (hg : g.Over known) : (test.sql f g).Over known := by
  cases test <;> simp [CaseInsensitiveTest.sql, hf, hg]

/-- Every form of text has the placeholders of its parts. -/
theorem over_rules : TextRules scope (Expr.Announces known scope.params) (Over known) where
  column _ := over_text _
  qualifiedColumn _ _ := over_text _
  excludedColumn _ := over_text _
  star := over_text _
  qualifiedStar _ := over_text _
  constant _ _ := over_text _
  truth _ := over_text _
  param _ _ _ announced := (over_placeholder _).2 (announced _ (.inl rfl))
  item _ _ _ items announced found i below :=
    (over_placeholder _).2 (announced _ (.inr ⟨items, i, found, below, rfl⟩))
  booleanParam _ _ announced := (over_placeholder _).2 (announced _ rfl)
  arithmetic _ _ _ hf hg := by simp [hf, hg]
  logical _ _ _ hf hg := by simp [hf, hg]
  concat _ _ hf hg := by simp [hf, hg]
  stringMethod _ _ hf := by simp [hf]
  aggregate _ _ hf := by simp [hf]
  aggregateAll _ := over_text _
  whenClause _ _ hf hg := by simp [hf, hg]
  caseWhen _ h := by simp [over_separated " " h]
  caseElse _ _ h hg := by simp [over_separated " " h, hg]
  list _ h := over_separated ", " h
  coalesce _ h := by simp [over_separated ", " h]
  order _ _ hf := by simp [hf]
  window function _ _ hp ho := over_window function hp ho
  comparison op _ _ hf hg := over_comparison _ op hf hg
  negation _ hf := over_negation _ hf
  textTest test _ _ hf hg := over_textTest test hf hg
  caseInsensitive test _ _ hf hg := over_caseInsensitive test (by simp [hf]) (by simp [hg])
  memberOf negated _ _ hf hgs := over_memberOf negated hf hgs
  isNull _ _ hf := by simp [hf]
  truthValue _ hf := by simp [hf]
  named _ _ hf := by simp [hf]

end Sql

/-- An expression is written with the placeholders of its nodes. -/
theorem Expr.written {known : String → Prop} {scope : SqlScope} {e : Expr}
    (announced : e.Every (Announces known scope.params)) : e.Written known scope :=
  Sql.over_rules.sql announced

/-! ### Statements that change rows -/

namespace Sql

open Fragment

variable {known : String → Prop} {scope : SqlScope}

/-- A projection is written from its members. -/
theorem over_projectionSql {selector : Expr} (h : selector.Written known scope) :
    Returns (Over known) (selector.projectionSql scope) := by
  unfold Expr.projectionSql
  split
  · exact .ok (over_text _)
  · exact h _

theorem over_columnList (columns : List String) : (columnList columns).Over known := by
  refine over_separated ", " fun f mem => ?_
  obtain ⟨column, -, rfl⟩ := List.mem_map.1 mem
  exact over_text _

theorem over_setList {assigned : List (String × Fragment)} (h : ∀ a ∈ assigned, a.2.Over known) :
    (setList assigned).Over known := by
  refine over_separated ", " fun f mem => ?_
  obtain ⟨a, ha, rfl⟩ := List.mem_map.1 mem
  simp [h a ha]

/-- Assignments are written from what is assigned. -/
theorem over_assignedColumns {assignments : Option Assignments}
    (announced : ∀ e ∈ Step.assignmentExprs assignments,
      e.Every (Expr.Announces known scope.params)) :
    Returns (fun assigned => ∀ a ∈ assigned, a.2.Over known)
      (assignedColumns scope assignments) := by
  have rendered {given : Assignments} (h : ∀ entry ∈ given, entry.2.Written known scope) :
      Returns (fun assigned => ∀ a ∈ assigned, a.2.Over known) (assignmentSql scope given) := by
    induction given with
    | nil => exact .ok (List.forall_mem_nil _)
    | cons entry rest ih =>
      rw [List.forall_mem_cons] at h
      unfold assignmentSql
      exact .bind (h.1 _) fun sql hsql => .bind (ih h.2) fun _ hrest =>
        .pure (List.forall_mem_cons.2 ⟨hsql, hrest⟩)
  refine returns_unplaced (rendered fun entry mem => Expr.written ?_)
  have made := (List.mem_filter.1 mem).1
  cases assignments with
  | none => cases made
  | some properties =>
    have object := announced (.object properties) (List.mem_singleton_self _)
    exact ((Expr.every_object _).1 object).2 entry made

/-- RETURNING is written from its selector. -/
theorem over_returningClause {returning : Expr}
    (announced : returning.Every (Expr.Announces known scope.params)) :
    Returns (Over known) (returningClause scope returning) := by
  unfold returningClause
  split
  · exact .ok over_nil
  · refine .bind (returns_unplaced (over_projectionSql (Expr.written announced))) fun _ h => .pure ?_
    simp [h]

/-- WHERE is written from its predicate. -/
theorem over_whereClause {predicate : Expr}
    (announced : predicate.Every (Expr.Announces known scope.params)) :
    Returns (Over known) (whereClause scope predicate) := by
  unfold whereClause
  split
  · exact .ok over_nil
  · refine .bind (returns_unplaced (Expr.written announced _)) fun _ h => .pure ?_
    simp [h]

/-- A conflict clause is written from the assignments of its update. -/
theorem over_conflictClause (table : String) {conflict : Option OnConflict}
    (announced : ∀ e ∈ Step.conflictExprs conflict, e.Every (Expr.Announces known scope.params)) :
    Returns (Over known) (conflictClause scope table conflict) := by
  cases conflict with
  | none => exact .ok over_nil
  | some conflict =>
    have columns : (columnList conflict.target).Over known := over_columnList _
    unfold conflictClause
    refine .check ?_
    split
    · exact .error
    · exact .pure (by simp [columns])
    · refine .bind (over_assignedColumns announced) fun updates h => .check (.pure ?_)
      simp [columns, over_setList h]

/-- An INSERT is written from the expressions that it mentions. -/
theorem over_insert {st : InsertStatement}
    (announced : Operation.Every (Expr.Announces known scope.params) [.insert st]) :
    Returns (Over known) (insert scope st) := by
  obtain ⟨values, returning, conflict, -⟩ := Operation.every_insert.1 announced
  refine .bind (over_assignedColumns values) fun assigned hassigned => .check ?_
  refine .bind (over_conflictClause _ conflict) fun _ hconflict => ?_
  refine .bind (over_returningClause returning) fun _ hreturning => .pure ?_
  have sqls : (separated ", " (assigned.map Prod.snd)).Over known :=
    over_separated ", " (List.forall_mem_map.2 hassigned)
  simp [over_columnList, sqls, hconflict, hreturning]

theorem over_update {st : UpdateStatement}
    (announced : Operation.Every (Expr.Announces known scope.params) [.update st]) :
    Returns (Over known) (update scope st) := by
  obtain ⟨assignments, predicate, returning, -⟩ := Operation.every_update.1 announced
  refine .bind (over_assignedColumns assignments) fun _ hassigned => .check (.check ?_)
  refine .bind (over_whereClause predicate) fun _ hcondition => ?_
  refine .bind (over_returningClause returning) fun _ hreturning => .pure ?_
  simp [over_setList hassigned, hcondition, hreturning]

theorem over_delete {st : DeleteStatement}
    (announced : Operation.Every (Expr.Announces known scope.params) [.delete st]) :
    Returns (Over known) (delete scope st) := by
  obtain ⟨predicate, -⟩ := Operation.every_delete.1 announced
  unfold delete
  refine .check (.bind (over_whereClause predicate) fun _ hcondition => .pure ?_)
  simp [hcondition]

/-! ### The clauses of a SELECT -/

namespace SelectChain

open Clause

/-- What the steps of a chain hold announces known placeholders, and nested queries are written with
known ones. -/
structure Announced (known : String → Prop) (c : SelectChain) : Prop where
  slots : ∀ e, Held c.steps e → e.Every (Expr.Announces known c.params)
  nested : ∀ r ∈ c.rendered, Returns (Over known) r.nested

variable {c : SelectChain}

theorem Announced.written (h : c.Announced known) (params : scope.params = c.params) {e : Expr}
    (held : Held c.steps e) : e.Written known scope :=
  Expr.written (params ▸ h.slots e held)

theorem over_joinTarget {join : JoinSource} (nested : Returns (Over known) join.nested)
    (name : String) : Returns (Over known) (joinTarget join name) := by
  unfold joinTarget
  split
  · exact .ok (over_text _)
  · exact nested.map fun _ h => by simp [derivedTable, h]

theorem over_joinClauses (scope : SqlScope) {joins : List JoinSource}
    (nested : ∀ join ∈ joins, Returns (Over known) join.nested) (index : Nat) :
    Returns (fun fs => ∀ f ∈ fs, Over known f) (joinClauses scope joins index) := by
  induction joins generalizing index with
  | nil => exact .ok (List.forall_mem_nil _)
  | cons join rest ih =>
    rw [List.forall_mem_cons] at nested
    have clause : Returns (Over known) (joinClause scope join index) := by
      unfold joinClause
      refine .bind (over_joinTarget nested.1 _) fun target h => ?_
      dsimp only
      split
      · exact .pure (by simp [h])
      · exact .bind (.any _) fun outer _ => .pure (by simp [h])
    unfold joinClauses
    exact .bind clause fun _ h => .bind (ih nested.2 _) fun _ hrest =>
      .pure (List.forall_mem_cons.2 ⟨h, hrest⟩)

theorem over_fromClause (hasJoins : Bool) (table schema : String) (subquery : Operation)
    (aliasHint : String) {nested : Except CompileError Fragment} (h : Returns (Over known) nested) :
    Returns (fun found => Over known found.1)
      (fromClause hasJoins table schema subquery aliasHint nested) := by
  unfold fromClause
  split
  · dsimp only
    split
    · exact .ok (over_text _)
    · exact .ok (over_text _)
  · refine .bind h fun query hquery => .pure ?_
    simp [derivedTable, hquery]

section

variable (announced : c.Announced known)

include announced

/-- The tables are written without placeholders, and queries among them have their own. -/
theorem over_sources : Returns (fun found => (∀ f ∈ found.1, Over known f) ∧
    found.2.params = c.params) c.sources := by
  have nested := forall_nested_joinSources announced.nested
  have joins := over_joinClauses ⟨c.dialect, c.params, [], !(joinSources c.rendered).isEmpty⟩ nested 1
  unfold sources
  dsimp only
  split
  · rename_i table schema subquery aliasHint _ found
    have root := announced.nested _ (List.mem_of_find?_eq_some found)
    refine .bind (over_fromClause _ table schema subquery aliasHint root) fun source hsource => ?_
    refine .bind joins fun clauses hclauses => .pure ?_
    exact ⟨List.forall_mem_cons.2 ⟨hsource, hclauses⟩, rfl⟩
  · exact .error

omit announced in
theorem over_conditions {predicates : List Expr} (h : ∀ e ∈ predicates, e.Written known scope) :
    Returns (fun fs => ∀ f ∈ fs, Over known f) (conditions scope predicates) :=
  returns_unplaced (returns_forall_sqlList fun e mem => h e mem _)

variable (params : scope.params = c.params)

include params

/-- What a SELECT lists is mentioned by one of its steps. -/
theorem over_projection : Returns (Over known) (c.projection scope) := by
  unfold projection
  rcases projection_cases c.steps with ⟨chosen, same, projects⟩ | ⟨fault, same, -⟩
  · rw [same]
    have operand (e : Expr) (he : e ∈ chosen.operand?) : e.Written known scope :=
      announced.written params (projects.held e he)
    refine .bind (.ok (rfl : chosen = chosen)) ?_
    rintro _ rfl
    cases chosen with
    | count => exact .pure (over_text _)
    | aggregate kind e =>
      exact .bind (returns_unplaced (operand e rfl _)) fun _ h => .pure (by simp [h])
    | selector e =>
      refine .bind (returns_unplaced (over_projectionSql (operand e rfl))) fun _ h => .pure ?_
      simp [h]
    | key e => exact .bind (returns_unplaced (operand e rfl _)) fun _ h => .pure (by simp [h])
    | all => exact .pure (by simp)
  · rw [same]
    exact .error

/-- The key of the groups is mentioned by one of the steps. -/
theorem over_groupBy : Returns (fun fs => ∀ f ∈ fs, Over known f) (c.groupBy scope) := by
  unfold groupBy
  split
  · exact .ok (List.forall_mem_nil _)
  · rename_i key found
    have all := announced.slots key (held_groupKey? found)
    have part {e : Expr} (mem : e.Every (Expr.Announces known c.params)) :
        Returns (Over known) (e.sql scope .value) := Expr.written (params ▸ mem) _
    refine .bind (returns_unplaced (returns_forall_sqlList fun e mem => part ?_)) fun _ h => .pure ?_
    · cases key with
      | object properties =>
        exact all.child mem
      | _ => exact List.mem_singleton.1 mem ▸ all
    · simp [over_separated ", " h]

/-- The keys of the order are mentioned by the steps. -/
theorem over_orderBy : Returns (fun fs => ∀ f ∈ fs, Over known f) (c.orderBy scope) := by
  unfold orderBy
  split
  · exact .ok (List.forall_mem_nil _)
  · exact .ok (by simp)
  · rename_i keys found
    have keys' (key) (mem : key ∈ keys) : key.1.Written known scope :=
      announced.written params (held_order found key mem)
    refine .bind (returns_unplaced (over_rules.orderTexts keys')) fun _ h => .pure ?_
    simp [over_separated ", " h]

/-- The counts of a page are mentioned by the steps. -/
theorem over_paging : Returns (fun fs => ∀ f ∈ fs, Over known f) (c.paging scope) := by
  have count {e : Expr} (h : Held c.steps e) :
      Returns (Over known) (unplaced (e.sql scope .value)) :=
    returns_unplaced (announced.written params h _)
  have offset {fs : List Fragment} (h : ∀ f ∈ fs, Over known f) :
      Returns (fun fs => ∀ f ∈ fs, Over known f) (pure fs : Except CompileError _) := .pure h
  unfold paging
  cases wanted : limit c.dialect c.steps with
  | none | rows | unbounded =>
    dsimp only
    split
    · exact .bind (count (held_page? ‹_›)) fun _ h => .pure (by simp [h])
    · exact .pure (by simp)
  | given taken =>
    have taken' := count (held_limit wanted)
    dsimp only
    split
    · refine .bind (count (held_page? ‹_›)) fun _ hskip => .bind (offset ?_) fun _ hoffset =>
        .bind taken' fun _ h => .pure ?_
      · simp [hskip]
      · simpa [h] using hoffset
    · refine .bind (offset (List.forall_mem_nil _)) fun _ hoffset => .bind taken' fun _ h => .pure ?_
      simpa [h] using hoffset

end

/-! ### The statement of a chain -/

section

variable (announced : c.Announced known)

/-- Clauses are written one after the other. -/
theorem over_clauses {head : Fragment} {clauses : List Fragment} (h : head.Over known)
    (hclauses : ∀ f ∈ clauses, Over known f) : Over known (separated " " (head :: clauses)) :=
  over_separated " " (List.forall_mem_cons.2 ⟨h, hclauses⟩)

theorem over_whereOf {conditions : List Fragment} (h : ∀ f ∈ conditions, Over known f) :
    ∀ f ∈ whereOf conditions, Over known f := by
  unfold whereOf
  split
  · exact List.forall_mem_nil _
  · simp [over_separated " AND " h]

theorem over_truthQuery (test : String) {query : Fragment} (h : query.Over known) :
    (truthQuery test query).Over known := by
  simp [truthQuery, h]

include announced

/-- A SELECT that lists rows is written clause by clause. -/
theorem over_selectQuery : Returns (Over known) c.selectQuery := by
  refine .bind (.any _) fun _ _ => .check (.bind (over_sources announced) ?_)
  rintro ⟨sources, scope⟩ ⟨hsources, params⟩
  refine .bind (over_projection announced params) fun projection hprojection => ?_
  have predicates (e : Expr) (mem : e ∈ Clause.predicates c.steps) : e.Written known scope :=
    announced.written params (held_predicates mem)
  refine .bind (over_conditions predicates) fun conditions hconditions => ?_
  refine .bind (over_groupBy announced params) fun groupBy hgroupBy => ?_
  refine .bind (over_orderBy announced params) fun orderBy horderBy => ?_
  refine .bind (over_paging announced params) fun paging hpaging => .pure ?_
  refine over_clauses (by simp [hprojection]) ?_
  simp only [List.forall_mem_append]
  exact ⟨⟨⟨⟨hsources, over_whereOf hconditions⟩, hgroupBy⟩, horderBy⟩, hpaging⟩

/-- A test whether there is a row is written from tables and conditions. -/
theorem over_anyQuery {predicate : Expr} (held : Held c.steps predicate) :
    Returns (Over known) (c.anyQuery predicate) := by
  refine .bind (.any _) fun _ _ => .bind (over_sources announced) ?_
  rintro ⟨sources, scope⟩ ⟨hsources, params⟩
  have conditions' (e : Expr)
      (mem : e ∈ Clause.filters c.steps ++ if predicate.isAbsent then [] else [predicate]) :
      e.Written known scope := by
    refine announced.written params ?_
    rcases List.mem_append.1 mem with mem | mem
    · exact held_filters mem
    · split at mem
      · cases mem
      · exact List.mem_singleton.1 mem ▸ held
  refine .bind (over_conditions conditions') fun conditions hconditions => .pure ?_
  refine over_truthQuery _ (over_clauses (over_text _) ?_)
  exact List.forall_mem_append.2 ⟨hsources, over_whereOf hconditions⟩

/-- A test of all rows is written from the negation of its predicate. -/
theorem over_allQuery {predicate : Expr} (held : Held c.steps predicate) :
    Returns (Over known) (c.allQuery predicate) := by
  refine .bind (.any _) fun _ _ => .bind (over_sources announced) ?_
  rintro ⟨sources, scope⟩ ⟨hsources, params⟩
  have filters (e : Expr) (mem : e ∈ Clause.filters c.steps) : e.Written known scope :=
    announced.written params (held_filters mem)
  refine .bind (over_conditions filters) fun conditions hconditions => .check ?_
  refine .bind (returns_unplaced (announced.written params held _)) fun condition h => .pure ?_
  refine over_truthQuery _ (over_clauses (over_text _) ?_)
  refine List.forall_mem_append.2 ⟨hsources, over_whereOf ?_⟩
  exact List.forall_mem_append.2 ⟨hconditions, by simp [h]⟩

/-- A search is written from what it searches among and the value. -/
theorem over_containsQuery {value : Expr} (held : Held c.steps value) :
    Returns (Over known) (c.containsQuery value) := by
  refine .bind (.any _) fun _ _ => .check ?_
  rcases searchedSelector_cases c with ⟨selector, -, selected, same⟩ | ⟨place, same⟩
  · rw [same]
    refine .bind (.ok (rfl : selector = selector)) ?_
    rintro _ rfl
    refine .bind (over_sources announced) ?_
    rintro ⟨sources, scope⟩ ⟨hsources, params⟩
    have filters (e : Expr) (mem : e ∈ Clause.filters c.steps) : e.Written known scope :=
      announced.written params (held_filters mem)
    refine .bind (returns_unplaced (announced.written params (held_of_mem selected) _))
      fun _ hselected => ?_
    refine .bind (over_conditions filters) fun conditions hconditions => ?_
    refine .bind (over_groupBy announced params) fun groupBy hgroupBy => ?_
    refine .bind (returns_unplaced (announced.written params held _)) fun _ hvalue => .pure ?_
    refine over_truthQuery _ ?_
    simp only [over_append, over_text, true_and, and_true]
    refine ⟨over_clauses (by simp [hselected]) ?_, hvalue⟩
    simp only [List.forall_mem_append]
    exact ⟨⟨hsources, over_whereOf hconditions⟩, hgroupBy⟩
  · rw [same]
    exact .error

/-- Whichever form a SELECT takes, its placeholders are those of its steps. -/
theorem over_statement : Returns (Over known) c.statement := by
  unfold statement
  split
  · exact over_allQuery announced (held_terminal? ‹_›)
  · exact over_anyQuery announced (held_terminal? ‹_›)
  · split
    · exact over_containsQuery announced (held_contained? ‹_›)
    · exact over_selectQuery announced

end

end SelectChain

/-! ### Operations -/

/-- A statement whose steps mention known placeholders only, and whose nested queries are written with
such. -/
theorem over_assemble (d : Dialect) {params : Json} {rendered : List RenderedStep}
    (announced : Operation.Every (Expr.Announces known params) (rendered.map RenderedStep.step))
    (nested : ∀ r ∈ rendered, Returns (Over known) r.nested) :
    Returns (Over known) (assemble d params rendered) := by
  have head {step : Step} {rest : Operation}
      (h : Operation.Every (Expr.Announces known params) (step :: rest)) :
      Operation.Every (Expr.Announces known params) [step] := by
    obtain ⟨here, nested, -⟩ := Operation.every_cons.1 h
    exact Operation.every_cons.2 ⟨here, nested, Operation.every_nil⟩
  unfold assemble
  split
  · exact .error
  · exact over_insert (head announced)
  · exact over_update (head announced)
  · exact over_delete (head announced)
  · refine SelectChain.over_statement ⟨?_, fun r mem => nested r (List.mem_reverse.1 mem)⟩
    rintro e ⟨step, mem, rfl⟩
    refine announced.slot ?_
    simpa [SelectChain.steps] using mem

/-- The query that is written for a step is nested in it. -/
theorem every_writtenQuery? {p : Expr → Prop} {step : Step} {op : Operation}
    (written : writtenQuery? step = some op) (h : step.nested.Every p) : op.Every p := by
  unfold writtenQuery? at written
  split at written
  · cases written
    exact h
  · cases written
    exact (Operation.every_cons.1 h).2.1
  · cases written
    exact h
  · cases written

/-- An operation is written with the placeholders of the nodes that it mentions. -/
theorem over_sql (d : Dialect) {params : Json} (op : Operation)
    (announced : op.Every (Expr.Announces known params)) :
    Returns (Over known) (op.sql d params) := by
  unfold Operation.sql
  rw [Operation.renderLevel_eq_map]
  refine over_assemble d ?_ fun r mem => ?_
  · have steps : ((Operation.level op).map (renderStep d params)).map RenderedStep.step =
        Operation.level op := by
      rw [List.map_map]
      exact (List.map_congr_left fun step _ => step_renderStep d params step).trans (List.map_id _)
    rw [steps]
    exact announced.level
  · obtain ⟨step, below, rfl⟩ := List.mem_map.1 mem
    rw [renderStep_eq]
    dsimp only
    cases written : writtenQuery? step with
    | none => exact .ok over_nil
    | some nested =>
      have smaller :=
        Nat.lt_trans (sizeOf_writtenQuery?_lt written) (Operation.sizeOf_lt_of_mem_level below)
      exact over_sql d nested (every_writtenQuery? written (announced.level.of_mem below).2)
termination_by sizeOf op

end Sql

end FluentQuery
