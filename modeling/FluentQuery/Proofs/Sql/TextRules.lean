import Mathlib.Data.List.Forall2
import FluentQuery.Proofs.Effect
import FluentQuery.Proofs.Expr.Every
import FluentQuery.Sql.Expr

/-!
# Properties of texts

A property of texts is shown of every expression by showing that each form of text keeps it
(`TextRules`): if the texts of the operands of a node have the property, so has the text of the node.
What is known of the nodes themselves, such as the names of their parameters, may be used.  Main
statement: `TextRules.sql`.
-/

namespace FluentQuery

set_option autoImplicit false

namespace Fragment

/-- The characters of a fragment in a dialect. -/
def chars (d : Dialect) (f : Fragment) : List Char :=
  (f.render d).toList

variable {d : Dialect}

@[simp] theorem chars_text (s : String) : chars d (text s) = s.toList := by
  simp [chars, text, render, Piece.render]

@[simp] theorem chars_placeholder (name : String) :
    chars d (placeholder name) = (d.placeholder name).toList := by
  simp [chars, placeholder, render, Piece.render]

@[simp] theorem chars_append (f g : Fragment) : chars d (f ++ g) = chars d f ++ chars d g := by
  induction f with
  | nil => simp [chars, render]
  | cons piece rest ih =>
    simp only [chars, List.cons_append, render, String.toList_append] at ih ⊢
    rw [ih, List.append_assoc]

/-- Texts that are related one by one are related with separators between them. -/
theorem forall₂_separated {related : Fragment → Fragment → Prop} {separator : String}
    (nil : related [] [])
    (append : ∀ {f f' g g'}, related f f' → related g g' → related (f ++ g) (f' ++ g'))
    (between : related (text separator) (text separator)) {fs fs' : List Fragment}
    (h : List.Forall₂ related fs fs') :
    related (separated separator fs) (separated separator fs') := by
  induction h with
  | nil => exact nil
  | cons here below ih =>
    cases below with
    | nil => exact here
    | cons => exact append (append here between) ih

end Fragment

namespace Sql

variable {scope : SqlScope} {post : Fragment → Prop}

theorem returns_inValue {position : Position} {type : String}
    {rendered : Except SqlFault Fragment} (h : Returns post rendered) :
    Returns post (inValue position type rendered) := by
  cases position with
  | predicate => exact .error
  | value | «open» => exact h

theorem returns_column {name : String} (table : String) (source : Option ColumnSource)
    (plain : post (Fragment.text (quoteIdentifier name)))
    (qualified : ∀ q, post (Fragment.text (quoteIdentifier q ++ "." ++ quoteIdentifier name))) :
    Returns post (scope.column name table source) := by
  refine .bind (.any _) fun q _ => ?_
  cases q with
  | none => exact .pure plain
  | some q => exact .pure (qualified q)

theorem returns_row (table : String) (source : Option ColumnSource)
    (plain : post (Fragment.text "*"))
    (qualified : ∀ q, post (Fragment.text (quoteIdentifier q ++ ".*"))) :
    Returns post (scope.row table source) := by
  refine .bind (.any _) fun q _ => ?_
  cases q with
  | none => exact .pure plain
  | some q => exact .pure (qualified q)

/-- What holds of the text of each expression of a list holds of each text. -/
theorem returns_forall_sqlList {es : List Expr} {position : Position}
    (h : ∀ e ∈ es, Returns post (e.sql scope position)) :
    Returns (fun fs => ∀ f ∈ fs, post f) (Expr.sqlList scope position es) := by
  induction es with
  | nil => exact .ok (List.forall_mem_nil _)
  | cons e rest ih =>
    rw [List.forall_mem_cons] at h
    unfold Expr.sqlList
    refine .bind h.1 fun f first => .bind (ih h.2) fun fs others => .pure ?_
    exact List.forall_mem_cons.2 ⟨first, others⟩

/-- The items of a list given as a parameter are numbered placeholders. -/
theorem returns_arrayItems_forall {params : Json} {name : String}
    (h : ∀ items, params.get? name = some (.arr items) → ∀ i < items.length,
      post (Fragment.placeholder (name ++ "_" ++ toString i))) :
    Returns (fun fs => ∀ f ∈ fs, post f) (arrayItems params name) := by
  unfold arrayItems
  split
  · rename_i items found
    refine .ok fun f mem => ?_
    obtain ⟨i, below, rfl⟩ := List.mem_map.1 mem
    exact h items found i (List.mem_range.1 below)
  · exact .error
  · exact .error

end Sql

/-! ### Rules for every form of text -/

open Sql Fragment in
/-- A property of texts that is kept by every form in which the text of a node is made of the texts
of its operands.  The nodes themselves have a property of their own. -/
structure TextRules (scope : SqlScope) (own : Expr → Prop) (post : Fragment → Prop) : Prop where
  column : ∀ name, post (text (quoteIdentifier name))
  qualifiedColumn : ∀ row name, post (text (quoteIdentifier row ++ "." ++ quoteIdentifier name))
  excludedColumn : ∀ name, post (text ("excluded." ++ quoteIdentifier name))
  star : post (text "*")
  qualifiedStar : ∀ row, post (text (quoteIdentifier row ++ ".*"))
  constant : ∀ v, own (.constant v) → post (text (Sql.constant v))
  truth : ∀ value : Bool, post (text (if value then "TRUE" else "FALSE"))
  param : ∀ p property index, own (.param p property index) →
    post (placeholder (parameterName p property index))
  item : ∀ p property index items, own (.param p property index) →
    scope.params.get? (Expr.placeholderName p property) = some (.arr items) →
    ∀ i < items.length, post (placeholder (Expr.placeholderName p property ++ "_" ++ toString i))
  booleanParam : ∀ p property, own (.booleanParam p property) →
    post (placeholder (Expr.booleanPlaceholderName p property))
  arithmetic : ∀ (op : ArithmeticOp) f g, post f → post g →
    post (text "(" ++ f ++ text (" " ++ op.name ++ " ") ++ g ++ text ")")
  logical : ∀ (op : LogicalOp) f g, post f → post g →
    post (text "(" ++ f ++ text op.sql ++ g ++ text ")")
  concat : ∀ f g, post f → post g → post (f ++ text " || " ++ g)
  stringMethod : ∀ (method : StringMethod) f, post f →
    post (text (method.sql ++ "(") ++ f ++ text ")")
  aggregate : ∀ (function : AggregateFunction) f, post f →
    post (text (function.sql ++ "(") ++ f ++ text ")")
  aggregateAll : ∀ function : AggregateFunction, post (text (function.sql ++ "(*)"))
  whenClause : ∀ f g, post f → post g → post (text "WHEN " ++ f ++ text " THEN " ++ g)
  caseWhen : ∀ fs, (∀ f ∈ fs, post f) → post (text "CASE " ++ separated " " fs ++ text " END")
  caseElse : ∀ fs g, (∀ f ∈ fs, post f) → post g →
    post (text "CASE " ++ separated " " fs ++ text " ELSE " ++ g ++ text " END")
  list : ∀ fs, (∀ f ∈ fs, post f) → post (separated ", " fs)
  coalesce : ∀ fs, (∀ f ∈ fs, post f) → post (text "COALESCE(" ++ separated ", " fs ++ text ")")
  order : ∀ f (descending : Bool), post f →
    post (f ++ text (if descending then " DESC" else " ASC"))
  window : ∀ function fs gs, (∀ f ∈ fs, post f) → (∀ g ∈ gs, post g) →
    post (Sql.window function fs gs)
  comparison : ∀ op f g, post f → post g → post (Sql.comparison scope.dialect op f g)
  negation : ∀ f, post f → post (Sql.negation scope.dialect f)
  textTest : ∀ (test : TextTest) f g, post f → post g → post (test.sql f g)
  caseInsensitive : ∀ (test : CaseInsensitiveTest) f g, post f → post g →
    post (test.sql (text "LOWER(" ++ f ++ text ")") (text "LOWER(" ++ g ++ text ")"))
  memberOf : ∀ negated f gs, post f → (∀ g ∈ gs, post g) → post (Sql.memberOf negated f gs)
  isNull : ∀ f (negated : Bool), post f →
    post (f ++ text (if negated then " IS NOT NULL" else " IS NULL"))
  truthValue : ∀ f, post f → post (text "CASE WHEN " ++ f ++ text " THEN TRUE ELSE FALSE END")
  named : ∀ f name, post f → post (f ++ text (" AS " ++ quoteIdentifier name))

/-- Wherever it stands, the text of an expression has a property. -/
def Expr.TextHas (scope : SqlScope) (post : Fragment → Prop) (e : Expr) : Prop :=
  ∀ position, Returns post (e.sql scope position)

namespace TextRules

open FluentQuery.Expr Sql

variable {scope : SqlScope} {own : Expr → Prop} {post : Fragment → Prop}
variable (rules : TextRules scope own post)

include rules

theorem columnText (name table : String) (source : Option ColumnSource) :
    Returns post (scope.column name table source) :=
  returns_column table source (rules.column name) fun row => rules.qualifiedColumn row name

theorem rowText (table : String) (source : Option ColumnSource) :
    Returns post (scope.row table source) :=
  returns_row table source rules.star rules.qualifiedStar

theorem itemTexts {p property : String} {index : Option Int}
    (known : own (.param p property index)) : Returns (fun fs => ∀ f ∈ fs, post f)
      (arrayItems scope.params (placeholderName p property)) :=
  returns_arrayItems_forall fun items found => rules.item p property index items known found

theorem conditionTexts {cs : List (Expr × Expr)}
    (h : ∀ e ∈ conditionChildren cs, e.TextHas scope post) :
    Returns (fun fs => ∀ f ∈ fs, post f) (sqlConditions scope cs) := by
  induction cs with
  | nil => exact .ok (List.forall_mem_nil _)
  | cons c rest ih =>
    rw [conditionChildren, List.forall_mem_cons, List.forall_mem_cons] at h
    obtain ⟨condition, result, below⟩ := h
    unfold sqlConditions
    refine .bind (result .open) fun g hg => .bind (condition .predicate) fun f hf =>
      .bind (ih below) fun fs others => .pure ?_
    exact List.forall_mem_cons.2 ⟨rules.whenClause f g hf hg, others⟩

theorem orderTexts {os : List (Expr × Bool)} (h : ∀ o ∈ os, o.1.TextHas scope post) :
    Returns (fun fs => ∀ f ∈ fs, post f) (sqlOrders scope os) := by
  induction os with
  | nil => exact .ok (List.forall_mem_nil _)
  | cons o rest ih =>
    rw [List.forall_mem_cons] at h
    unfold sqlOrders
    refine .bind (h.1 .value) fun f key => .bind (ih h.2) fun fs others => .pure ?_
    exact List.forall_mem_cons.2 ⟨rules.order f o.2 key, others⟩

theorem memberTexts {ps : List (String × Expr)} (h : ∀ p ∈ ps, p.2.TextHas scope post) :
    Returns (fun fs => ∀ f ∈ fs, post f) (sqlProperties scope ps) := by
  induction ps with
  | nil => exact .ok (List.forall_mem_nil _)
  | cons p rest ih =>
    rw [List.forall_mem_cons] at h
    have others {f : Fragment} (first : post f) : Returns (fun fs => ∀ f ∈ fs, post f)
        (sqlProperties scope rest >>= fun parts => pure (f :: parts)) :=
      .bind (ih h.2) fun fs below => .pure (List.forall_mem_cons.2 ⟨first, below⟩)
    unfold sqlProperties
    dsimp only
    split
    · exact .bind (h.1 .value) fun _ part => others part
    split
    · exact .error
    · refine .bind (h.1 .open) fun f column => others (rules.named _ p.1 ?_)
      split
      · exact rules.truthValue f column
      · exact column

theorem caseText {conditions : List (Expr × Expr)} {elseResult : Expr}
    (below : ∀ e ∈ conditionChildren conditions, e.TextHas scope post)
    (last : elseResult.TextHas scope post) :
    (Expr.caseWhen conditions elseResult).TextHas scope post := by
  intro position
  unfold Expr.sql
  refine returns_inValue ?_
  split
  · exact .error
  refine .bind (rules.conditionTexts below) fun clauses written => ?_
  dsimp only
  split
  · exact .pure (rules.caseWhen clauses written)
  · exact .bind (last _) fun g hg => .pure (rules.caseElse clauses g written hg)

/-- A negated test for membership in a parameter is written as one test. -/
theorem negationText {operand : Expr} (known : (Expr.negation operand).Every own)
    (h : operand.TextHas scope post) (deeper : ∀ d ∈ operand.children, d.TextHas scope post) :
    (Expr.negation operand).TextHas scope post := by
  intro position
  have negated : Returns post
      (operand.sql scope .predicate >>= fun text => .ok (Sql.negation scope.dialect text)) :=
    .bind (h _) fun f hf => .ok (rules.negation f hf)
  cases operand with
  | membership value list =>
    cases list with
    | param p property index =>
      have value' := deeper value (List.mem_cons_self ..)
      simp only [every_negation, every_membership, every_param] at known
      exact .bind (value' _) fun f hf => .bind (rules.itemTexts known.2.2.2) fun gs items =>
        .pure (rules.memberOf true f gs hf items)
    | _ => exact negated
  | _ => exact negated

/-- The elements of a list of values are operands of the test. -/
theorem membershipText {value list : Expr} (known : (membership value list).Every own)
    (h : value.TextHas scope post) (elements : ∀ d ∈ list.children, d.TextHas scope post) :
    (membership value list).TextHas scope post := by
  intro position
  cases list with
  | param p property index =>
    simp only [every_membership, every_param] at known
    exact .bind (h _) fun f hf => .bind (rules.itemTexts known.2.2) fun gs items =>
      .pure (rules.memberOf false f gs hf items)
  | array =>
    exact .bind (h _) fun f hf =>
      .bind (returns_forall_sqlList fun e he => elements e he _) fun gs items =>
        .pure (rules.memberOf false f gs hf items)
  | _ => exact .bind (h _) fun _ _ => .error

/-- An object is written in an open position only. -/
theorem objectText {properties : List (String × Expr)}
    (below : ∀ m ∈ properties, m.2.TextHas scope post) :
    (object properties).TextHas scope post := by
  intro position
  cases position with
  | predicate | value => exact .error
  | «open» =>
    unfold Expr.sql
    dsimp only
    split
    · exact .error
    · exact .bind (rules.memberTexts below) fun fs parts => .pure (rules.list fs parts)

/-- The text of a node has the property if what stands below it has it: its operands, and those of a
list of values, which has no text of its own. -/
theorem sql_of_children {e : Expr} (known : e.Every own)
    (below : ∀ c ∈ e.children, c.TextHas scope post)
    (deeper : ∀ c ∈ e.children, ∀ d ∈ c.children, d.TextHas scope post) : e.TextHas scope post := by
  intro position
  cases e with
  | absent => exact .error
  | column name table source => exact returns_inValue (rules.columnText name table source)
  | booleanColumn name table source => exact rules.columnText name table source
  | reference source table => exact returns_inValue (rules.rowText table source)
  | allColumns => exact returns_inValue (.ok rules.star)
  | excludedColumn name => exact returns_inValue (.ok (rules.excludedColumn name))
  | constant v =>
    exact returns_inValue (.ok (rules.constant v ((every_constant v).1 known)))
  | booleanConstant value => exact .ok (rules.truth value)
  | param p property index =>
    exact returns_inValue (.ok (rules.param p property index ((every_param ..).1 known)))
  | booleanParam p property =>
    exact .ok (rules.booleanParam p property ((every_booleanParam ..).1 known))
  | arithmetic op left right =>
    obtain ⟨left, right⟩ := forall_mem_pair.1 below
    unfold Expr.sql
    exact returns_inValue (.bind (right _) fun g hg => .bind (left _) fun f hf =>
      .pure (rules.arithmetic op f g hf hg))
  | concat left right =>
    obtain ⟨left, right⟩ := forall_mem_pair.1 below
    unfold Expr.sql
    exact returns_inValue (.bind (right _) fun g hg => .bind (left _) fun f hf =>
      .pure (rules.concat f g hf hg))
  | stringMethod method operand =>
    unfold Expr.sql
    exact returns_inValue (.bind (List.forall_mem_singleton.1 below _) fun f hf =>
      .pure (rules.stringMethod method f hf))
  | caseWhen conditions elseResult =>
    rw [children, List.forall_mem_append] at below
    exact rules.caseText below.1 (List.forall_mem_singleton.1 below.2) position
  | coalesce es =>
    unfold Expr.sql
    exact returns_inValue (.bind (returns_forall_sqlList fun e he => below e he _)
      fun fs parts => .pure (rules.coalesce fs parts))
  | aggregate function operand =>
    unfold Expr.sql
    refine returns_inValue ?_
    split
    · exact .pure (rules.aggregateAll function)
    · exact .bind (List.forall_mem_singleton.1 below _) fun f hf =>
        .pure (rules.aggregate function f hf)
  | window function partitionBy orderBy =>
    rw [children, List.forall_mem_append, List.forall_mem_map] at below
    unfold Expr.sql
    exact returns_inValue (.bind (returns_forall_sqlList fun e he => below.1 e he _)
      fun fs partitions => .bind (rules.orderTexts below.2) fun gs orders =>
        .pure (rules.window function fs gs partitions orders))
  | comparison op left right =>
    obtain ⟨left, right⟩ := forall_mem_pair.1 below
    unfold Expr.sql
    exact .bind (left _) fun f hf => .bind (right _) fun g hg =>
      .pure (rules.comparison op f g hf hg)
  | logical op left right =>
    obtain ⟨left, right⟩ := forall_mem_pair.1 below
    unfold Expr.sql
    exact .bind (right _) fun g hg => .bind (left _) fun f hf =>
      .pure (rules.logical op f g hf hg)
  | negation operand =>
    exact rules.negationText known (List.forall_mem_singleton.1 below)
      (deeper operand (List.mem_singleton_self _)) position
  | textTest method operand arguments =>
    cases arguments with
    | nil => exact .error
    | cons argument rest =>
      unfold Expr.sql
      exact .bind (below operand (by simp [children]) _) fun f hf =>
        .bind (below argument (by simp [children]) _) fun g hg =>
          .pure (rules.textTest method f g hf hg)
  | caseInsensitive function left right =>
    obtain ⟨left, right⟩ := forall_mem_pair.1 below
    unfold Expr.sql
    exact .bind (left _) fun f hf => .bind (right _) fun g hg =>
      .pure (rules.caseInsensitive function f g hf hg)
  | membership value list =>
    exact rules.membershipText known (forall_mem_pair.1 below).1 (deeper list (by simp [children]))
      position
  | isNull operand negated =>
    unfold Expr.sql
    exact .bind (List.forall_mem_singleton.1 below _) fun f hf => .pure (rules.isNull f negated hf)
  | object properties =>
    rw [children, List.forall_mem_map] at below
    exact rules.objectText below position
  | array => cases position <;> exact .error

/-- The text of every expression has the property. -/
theorem sql {e : Expr} (known : e.Every own) : e.TextHas scope post := by
  induction e using grandchildren_induction with
  | step e below deeper =>
    refine rules.sql_of_children known (fun c hc => below c hc (known.child hc)) ?_
    intro c hc d hd
    exact deeper c hc d hd ((known.child hc).child hd)

end TextRules

end FluentQuery
