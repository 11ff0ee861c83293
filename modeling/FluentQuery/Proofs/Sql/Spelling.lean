import FluentQuery.Proofs.Sql.TextRules
import FluentQuery.Proofs.TwoRuns

/-!
# Expressions in two dialects

`Respelled` says what may be different in an expression written for SQLite: the parentheses of a
negated placeholder.  Everything else is the same piece by piece, and placeholders are pieces of their
own.  Main statement: `Expr.portable`.

Two functions look at text they have written.  A comparison asks whether a side is `NULL`, and a
negation whether its operand is one word.  What carries the proof through them is `Portable`: an
expression is written without placeholders, or is one placeholder, or has a blank or a parenthesis
in its fixed text, so that it is neither `NULL` nor one word in either dialect.
-/

namespace FluentQuery

set_option autoImplicit false

/-! ### Fragments -/

namespace Fragment

/-- The second fragment is the first as it is written for SQLite. -/
inductive Respelled : Fragment → Fragment → Prop where
  | refl (f : Fragment) : Respelled f f
  | append {f f' g g' : Fragment} (left : Respelled f f') (right : Respelled g g') :
    Respelled (f ++ g) (f' ++ g')
  /-- A placeholder that is negated needs no parentheses. -/
  | negated (name : String) :
    Respelled (text "NOT (" ++ placeholder name ++ text ")") (text "NOT " ++ placeholder name)

namespace Respelled

variable {f g : Fragment}

theorem after (h : Respelled f g) (fixed : Fragment) : Respelled (fixed ++ f) (fixed ++ g) :=
  .append (.refl fixed) h

theorem before (h : Respelled f g) (fixed : Fragment) : Respelled (f ++ fixed) (g ++ fixed) :=
  .append h (.refl fixed)

theorem separated (separator : String) {fs gs : List Fragment} (h : List.Forall₂ Respelled fs gs) :
    Respelled (Fragment.separated separator fs) (Fragment.separated separator gs) :=
  forall₂_separated (.refl []) .append (.refl _) h

theorem list_refl (fs : List Fragment) : List.Forall₂ Respelled fs fs :=
  List.forall₂_same.2 fun f _ => .refl f

/-- The same placeholders are written, in the same order. -/
theorem placeholders (h : Respelled f g) : f.placeholders = g.placeholders := by
  induction h with
  | refl => rfl
  | append _ _ left right => rw [placeholders_append, placeholders_append, left, right]
  | negated name => rfl

end Respelled

/-! ### What expressions are written as -/

/-- There is a blank or an opening parenthesis in the fixed text of a fragment. -/
def IsCompound (f : Fragment) : Prop :=
  ∃ word, Piece.text word ∈ f ∧ (' ' ∈ word.toList ∨ '(' ∈ word.toList)

@[simp] theorem isCompound_append {f g : Fragment} :
    IsCompound (f ++ g) ↔ IsCompound f ∨ IsCompound g := by
  simp only [IsCompound, List.mem_append, or_and_right, exists_or]

@[simp] theorem isCompound_text {word : String} :
    IsCompound (text word) ↔ ' ' ∈ word.toList ∨ '(' ∈ word.toList := by
  simp [IsCompound, text]

/-- A compound stays one: a negation keeps its blank. -/
theorem Respelled.isCompound_iff {f g : Fragment} (h : Respelled f g) :
    IsCompound f ↔ IsCompound g := by
  induction h with
  | refl => exact Iff.rfl
  | append _ _ left right => rw [isCompound_append, isCompound_append, left, right]
  | negated name => simp

/-- Fixed text is written as it is. -/
theorem mem_render_of_mem {d : Dialect} {f : Fragment} {word : String} (h : Piece.text word ∈ f)
    {c : Char} (hc : c ∈ word.toList) : c ∈ (f.render d).toList := by
  induction f with
  | nil => cases h
  | cons piece rest ih =>
    rw [render, String.toList_append, List.mem_append]
    rcases List.mem_cons.1 h with rfl | below
    · exact .inl hc
    · exact .inr (ih below)

/-- A compound fragment is more than a word in every dialect. -/
theorem IsCompound.render {f : Fragment} (h : IsCompound f) (d : Dialect) :
    ∃ c ∈ (f.render d).toList, c = ' ' ∨ c = '(' := by
  obtain ⟨word, mem, blank | parenthesis⟩ := h
  · exact ⟨' ', mem_render_of_mem mem blank, .inl rfl⟩
  · exact ⟨'(', mem_render_of_mem mem parenthesis, .inr rfl⟩

/-- Without placeholders there is nothing a dialect could spell in its own way. -/
theorem render_of_free {f : Fragment} (free : f.placeholders = []) (d d' : Dialect) :
    f.render d = f.render d' := by
  induction f with
  | nil => rfl
  | cons piece rest ih =>
    cases piece with
    | text word => rw [render, render, ih free, Piece.render, Piece.render]
    | placeholder name => cases free

/-- The SQL of an expression in the two dialects. -/
inductive Portable : Fragment → Fragment → Prop where
  | fixed {f : Fragment} (free : f.placeholders = []) : Portable f f
  | placeholder (name : String) : Portable (Fragment.placeholder name) (Fragment.placeholder name)
  | compound {f g : Fragment} (same : Respelled f g) (here : IsCompound f) : Portable f g

namespace Portable

variable {f f' g g' : Fragment}

/-- Portable texts differ in nothing but the parentheses of placeholders. -/
theorem respelled (h : Portable f g) : Respelled f g := by
  cases h with
  | fixed | placeholder => exact .refl _
  | compound same => exact same

theorem list_respelled {fs gs : List Fragment} (h : List.Forall₂ Portable fs gs) :
    List.Forall₂ Respelled fs gs :=
  h.imp fun _ _ => respelled

theorem text (word : String) : Portable (text word) (text word) :=
  .fixed rfl

/-- Several parts make a compound, and one part is as it is. -/
theorem separated {separator : String} (blank : ' ' ∈ separator.toList) {fs gs : List Fragment}
    (h : List.Forall₂ Portable fs gs) :
    Portable (Fragment.separated separator fs) (Fragment.separated separator gs) := by
  have respelled := Respelled.separated separator (list_respelled h)
  cases h with
  | nil => exact .fixed rfl
  | cons here below =>
    cases below with
    | nil => exact here
    | cons =>
      apply Portable.compound respelled
      simp [Fragment.separated, blank]

end Portable

end Fragment

/-! ### What is decided by looking at text -/

namespace Sql

open Fragment

variable {f f' g g' : Fragment}

/-- A placeholder is no null: it begins with its mark. -/
theorem render_placeholder_ne_null (d : Dialect) (name : String) :
    (placeholder name).render d ≠ "NULL" := by
  intro h
  have first := congrArg (fun s => s.toList.head?) h
  cases d <;> simp [Fragment.render, placeholder, Piece.render, Dialect.placeholder] at first

/-- A null is one word. -/
theorem render_ne_null_of_isCompound (h : IsCompound f) (d : Dialect) : f.render d ≠ "NULL" := by
  intro null
  obtain ⟨c, mem, hc⟩ := h.render d
  rw [null] at mem
  rcases hc with rfl | rfl <;> simp at mem

/-- Whether an expression is written as a null does not depend on the dialect. -/
theorem isNull_congr (h : Portable f g) :
    (f.render .postgres == "NULL") = (g.render .sqlite == "NULL") := by
  cases h with
  | fixed free => rw [render_of_free free .postgres .sqlite]
  | placeholder name =>
    rw [beq_false_of_ne (render_placeholder_ne_null _ _),
      beq_false_of_ne (render_placeholder_ne_null _ _)]
  | compound same here =>
    have there := same.isCompound_iff.1 here
    rw [beq_false_of_ne (render_ne_null_of_isCompound here _),
      beq_false_of_ne (render_ne_null_of_isCompound there _)]

/-- Both dialects take the same form of a comparison. -/
theorem portable_comparison (op : ComparisonOp) (left : Portable f f') (right : Portable g g') :
    Portable (comparison .postgres op f g) (comparison .sqlite op f' g') := by
  have plain : Portable (f ++ text (" " ++ op.sql ++ " ") ++ g)
      (f' ++ text (" " ++ op.sql ++ " ") ++ g') := by
    apply Portable.compound ((left.respelled.before _).append right.respelled)
    simp
  have test (word : String) (blank : ' ' ∈ word.toList) {side side' : Fragment}
      (h : Portable side side') : Portable (side ++ text word) (side' ++ text word) := by
    apply Portable.compound (h.respelled.before _)
    simp [blank]
  unfold comparison
  simp only [isNull_congr left, isNull_congr right]
  cases op with
  | eq =>
    dsimp only
    split
    · exact test _ (by simp) left
    split
    · exact test _ (by simp) right
    · exact plain
  | neq =>
    dsimp only
    split
    · exact test _ (by simp) left
    split
    · exact test _ (by simp) right
    · exact plain
  | _ => exact plain

/-- The NOT of a negation has a blank after it. -/
theorem isCompound_negation (d : Dialect) (operand : Fragment) :
    IsCompound (negation d operand) := by
  unfold negation
  split
  · simp
  · simp

/-- What is more than a word is negated in parentheses. -/
theorem negation_of_isCompound (h : IsCompound f) (d : Dialect) :
    negation d f = text "NOT (" ++ f ++ text ")" := by
  obtain ⟨c, mem, hc⟩ := h.render d
  apply if_neg
  intro bare
  have allowed := List.all_eq_true.1 bare c mem
  rcases hc with rfl | rfl <;> simp at allowed

/-- The parenthesis in its spelling keeps a placeholder from being taken for a word. -/
theorem negation_postgres_placeholder (name : String) :
    negation .postgres (placeholder name) = text "NOT (" ++ placeholder name ++ text ")" := by
  apply if_neg
  simp [Fragment.render, placeholder, Piece.render, Dialect.placeholder]

/-- A negated placeholder may lose its parentheses; anything else has them in both dialects or in
neither. -/
theorem portable_negation (h : Portable f g) :
    Portable (negation .postgres f) (negation .sqlite g) := by
  apply Portable.compound _ (isCompound_negation _ _)
  cases h with
  | fixed free =>
    unfold negation
    rw [render_of_free free .postgres .sqlite]
    exact .refl _
  | placeholder name =>
    rw [negation_postgres_placeholder]
    unfold negation
    split
    · exact .negated name
    · exact .refl _
  | compound same here =>
    rw [negation_of_isCompound here, negation_of_isCompound (same.isCompound_iff.1 here)]
    exact (same.after _).before _

/-- A test for membership is portable, in an empty list among others. -/
theorem portable_memberOf (negated : Bool) {items items' : List Fragment} (value : Portable f g)
    (h : List.Forall₂ Respelled items items') :
    Portable (memberOf negated f items) (memberOf negated g items') := by
  have list := Respelled.separated ", " h
  unfold memberOf
  cases h with
  | nil => exact .text _
  | cons =>
    apply Portable.compound
    · exact ((value.respelled.before _).append list).before _
    · cases negated <;> simp

/-- LIKE is portable. -/
theorem portable_textTest (test : TextTest) (object : Portable f f') (argument : Portable g g') :
    Portable (test.sql f g) (test.sql f' g') := by
  have pattern := (object.respelled.before (text " LIKE ")).append argument.respelled
  have suffix := (object.respelled.before (text " LIKE '%' || ")).append argument.respelled
  cases test with
  | startsWith => exact .compound (pattern.before _) (by simp [TextTest.sql])
  | endsWith => exact .compound suffix (by simp [TextTest.sql])
  | includes | contains => exact .compound (suffix.before _) (by simp [TextTest.sql])

theorem portable_caseInsensitive (test : CaseInsensitiveTest) (left : Respelled f f')
    (right : Respelled g g') : Portable (test.sql f g) (test.sql f' g') := by
  have pattern := (left.before (text " LIKE ")).append right
  have suffix := (left.before (text " LIKE '%' || ")).append right
  cases test with
  | equals =>
    have same := (left.before (text " = ")).append right
    exact .compound same (by simp [CaseInsensitiveTest.sql])
  | startsWith => exact .compound (pattern.before _) (by simp [CaseInsensitiveTest.sql])
  | endsWith => exact .compound suffix (by simp [CaseInsensitiveTest.sql])
  | contains => exact .compound (suffix.before _) (by simp [CaseInsensitiveTest.sql])

/-- Windows are portable. -/
theorem portable_window (function : WindowFunction) {partitions partitions' : List Fragment}
    {orders orders' : List Fragment} (partition : List.Forall₂ Respelled partitions partitions')
    (order : List.Forall₂ Respelled orders orders') :
    Portable (window function partitions orders) (window function partitions' orders') := by
  have keys := (Respelled.separated ", " order).after (text "ORDER BY ")
  have groups := (Respelled.separated ", " partition).after (text "PARTITION BY ")
  unfold window
  apply Portable.compound
  · refine ((Respelled.separated " " ?_).after _).before _
    cases partition with
    | nil => exact .cons keys .nil
    | cons => exact .cons groups (.cons keys .nil)
  · simp

end Sql

/-! ### Expressions -/

/-- The scope of the same statement in a dialect. -/
def SqlScope.under (scope : SqlScope) (d : Dialect) : SqlScope :=
  { scope with dialect := d }

/-- Wherever it stands, an expression cannot be written in either dialect, for one reason, or its
texts in the two dialects are portable. -/
def Expr.Portable (scope : SqlScope) (e : Expr) : Prop :=
  ∀ position, Coincide Fragment.Portable (e.sql (scope.under .postgres) position)
    (e.sql (scope.under .sqlite) position)

namespace Sql

open Fragment

variable {scope : SqlScope}

/-- The name of a column is fixed text. -/
theorem coincide_column (name table : String) (source : Option ColumnSource) :
    Coincide Fragment.Portable ((scope.under .postgres).column name table source)
      ((scope.under .sqlite).column name table source) := by
  refine .after (scope.qualifier table source) ?_
  intro qualifier
  cases qualifier with
  | none => exact .pure (.text _)
  | some q => exact .pure (.text _)

theorem coincide_row (table : String) (source : Option ColumnSource) :
    Coincide Fragment.Portable ((scope.under .postgres).row table source)
      ((scope.under .sqlite).row table source) := by
  refine .after (scope.qualifier table source) ?_
  intro qualifier
  cases qualifier with
  | none => exact .pure (.text _)
  | some q => exact .pure (.text _)

/-- Values are refused as predicates in both dialects. -/
theorem coincide_inValue (position : Position) (type : String) {x y : Except SqlFault Fragment}
    (h : Coincide Fragment.Portable x y) :
    Coincide Fragment.Portable (inValue position type x) (inValue position type y) := by
  cases position with
  | predicate => exact .error _
  | value | «open» => exact h

/-- Lists are portable item by item. -/
theorem coincide_sqlList {es : List Expr} (position : Position) (h : ∀ e ∈ es, e.Portable scope) :
    Coincide (List.Forall₂ Fragment.Portable) (Expr.sqlList (scope.under .postgres) position es)
      (Expr.sqlList (scope.under .sqlite) position es) := by
  induction es with
  | nil => exact .ok .nil
  | cons e rest ih =>
    rw [List.forall_mem_cons] at h
    unfold Expr.sqlList
    exact (h.1 position).bind fun _ _ first => (ih h.2).bind fun _ _ others =>
      .pure (.cons first others)

/-- Conditions and results are portable, pair by pair. -/
theorem coincide_sqlConditions {cs : List (Expr × Expr)}
    (h : ∀ e ∈ Expr.conditionChildren cs, e.Portable scope) :
    Coincide (List.Forall₂ Respelled) (Expr.sqlConditions (scope.under .postgres) cs)
      (Expr.sqlConditions (scope.under .sqlite) cs) := by
  induction cs with
  | nil => exact .ok .nil
  | cons c rest ih =>
    rw [Expr.conditionChildren, List.forall_mem_cons, List.forall_mem_cons] at h
    obtain ⟨condition, result, below⟩ := h
    unfold Expr.sqlConditions
    exact (result .open).bind fun _ _ result => (condition .predicate).bind fun _ _ condition =>
      (ih below).bind fun _ _ others =>
        .pure (.cons (((condition.respelled.after _).before _).append result.respelled) others)

/-- Keys are portable, with their directions. -/
theorem coincide_sqlOrders {os : List (Expr × Bool)} (h : ∀ o ∈ os, o.1.Portable scope) :
    Coincide (List.Forall₂ Respelled) (Expr.sqlOrders (scope.under .postgres) os)
      (Expr.sqlOrders (scope.under .sqlite) os) := by
  induction os with
  | nil => exact .ok .nil
  | cons o rest ih =>
    rw [List.forall_mem_cons] at h
    unfold Expr.sqlOrders
    exact (h.1 .value).bind fun _ _ key => (ih h.2).bind fun _ _ others =>
      .pure (.cons (key.respelled.before _) others)

/-- Members are portable, under names that are fixed text. -/
theorem coincide_sqlProperties {ps : List (String × Expr)} (h : ∀ p ∈ ps, p.2.Portable scope) :
    Coincide (List.Forall₂ Fragment.Portable) (Expr.sqlProperties (scope.under .postgres) ps)
      (Expr.sqlProperties (scope.under .sqlite) ps) := by
  induction ps with
  | nil => exact .ok .nil
  | cons p rest ih =>
    rw [List.forall_mem_cons] at h
    have others {part part' : Fragment} (first : Fragment.Portable part part') :
        Coincide (List.Forall₂ Fragment.Portable)
          (Expr.sqlProperties (scope.under .postgres) rest >>= fun parts => pure (part :: parts))
          (Expr.sqlProperties (scope.under .sqlite) rest >>= fun parts => pure (part' :: parts)) :=
      (ih h.2).bind fun _ _ below => .pure (.cons first below)
    unfold Expr.sqlProperties
    dsimp only
    split
    · exact (h.1 .value).bind fun _ _ part => others part
    split
    · exact .error _
    · refine (h.1 .open).bind ?_
      intro column column' same
      apply others
      apply Fragment.Portable.compound
      · split
        · exact ((same.respelled.after _).before _).before _
        · exact same.respelled.before _
      · simp

end Sql

namespace Expr.Portable

open Sql Fragment

variable {scope : SqlScope}

/-- A choice is portable if its conditions and results are. -/
theorem caseWhen {conditions : List (Expr × Expr)} {elseResult : Expr}
    (below : ∀ e ∈ conditionChildren conditions, e.Portable scope)
    (last : elseResult.Portable scope) : (Expr.caseWhen conditions elseResult).Portable scope := by
  intro position
  unfold Expr.sql
  refine coincide_inValue _ _ ?_
  split
  · exact .error _
  refine (coincide_sqlConditions below).bind fun _ _ clauses => ?_
  have head := (Respelled.separated " " clauses).after (text "CASE ")
  dsimp only
  split
  · exact .pure (.compound (head.before _) (by simp))
  · refine (last _).bind fun _ _ result => .pure ?_
    exact .compound (((head.before _).append result.respelled).before _) (by simp)

/-- A negated test for membership in a parameter is written as one test. -/
theorem negation {operand : Expr} (h : operand.Portable scope)
    (deeper : ∀ d ∈ operand.children, d.Portable scope) : (Expr.negation operand).Portable scope := by
  intro position
  have negated : Coincide Fragment.Portable
      (operand.sql (scope.under .postgres) .predicate >>= fun text =>
        .ok (Sql.negation .postgres text))
      (operand.sql (scope.under .sqlite) .predicate >>= fun text =>
        .ok (Sql.negation .sqlite text)) :=
    (h _).bind fun _ _ operand => .ok (portable_negation operand)
  cases operand with
  | membership value list =>
    cases list with
    | param p property index =>
      have value' := deeper value (List.mem_cons_self ..)
      exact (value' _).bind fun _ _ value => .after _ fun items =>
        .pure (portable_memberOf true value (Respelled.list_refl _))
    | _ => exact negated
  | _ => exact negated

/-- The elements of a list of values are operands of the test. -/
theorem membership {value list : Expr} (h : value.Portable scope)
    (elements : ∀ d ∈ list.children, d.Portable scope) :
    (Expr.membership value list).Portable scope := by
  intro position
  cases list with
  | param =>
    exact (h _).bind fun _ _ value => .after _ fun items =>
      .pure (portable_memberOf false value (Respelled.list_refl _))
  | array =>
    exact (h _).bind fun _ _ value => (coincide_sqlList _ elements).bind fun _ _ items =>
      .pure (portable_memberOf false value (Portable.list_respelled items))
  | _ => exact (h _).bind fun _ _ _ => .error _

/-- An object is written in an open position only. -/
theorem object {properties : List (String × Expr)} (below : ∀ m ∈ properties, m.2.Portable scope) :
    (Expr.object properties).Portable scope := by
  intro position
  cases position with
  | predicate | value => exact .error _
  | «open» =>
    unfold Expr.sql
    dsimp only
    split
    · exact .error _
    · refine (coincide_sqlProperties below).bind fun _ _ parts => .pure ?_
      exact .separated (by simp) parts

end Expr.Portable

open Sql Fragment in
/-- A node is portable if what stands below it is: its operands, and those of a list of values,
which has no text of its own. -/
theorem Expr.portable_of_children {scope : SqlScope} {e : Expr}
    (below : ∀ c ∈ e.children, c.Portable scope)
    (deeper : ∀ c ∈ e.children, ∀ d ∈ c.children, d.Portable scope) : e.Portable scope := by
  intro position
  cases e with
  | absent => exact .error _
  | column name table source => exact coincide_inValue _ _ (coincide_column name table source)
  | reference source table => exact coincide_inValue _ _ (coincide_row table source)
  | excludedColumn | constant | allColumns => exact coincide_inValue _ _ (.ok (.text _))
  | param => exact coincide_inValue _ _ (.ok (.placeholder _))
  | booleanConstant => exact .ok (.text _)
  | booleanColumn name table source => exact coincide_column name table source
  | booleanParam => exact .ok (.placeholder _)
  | arithmetic op left right =>
    obtain ⟨left, right⟩ := forall_mem_pair.1 below
    unfold Expr.sql
    refine coincide_inValue _ _ ((right _).bind fun _ _ right => (left _).bind fun _ _ left => ?_)
    exact .pure (.compound ((((left.respelled.after _).before _).append right.respelled).before _)
      (by simp))
  | concat left right =>
    obtain ⟨left, right⟩ := forall_mem_pair.1 below
    unfold Expr.sql
    refine coincide_inValue _ _ ((right _).bind fun _ _ right => (left _).bind fun _ _ left => ?_)
    exact .pure (.compound ((left.respelled.before _).append right.respelled) (by simp))
  | stringMethod method operand =>
    unfold Expr.sql
    refine coincide_inValue _ _ ((List.forall_mem_singleton.1 below _).bind fun _ _ operand => ?_)
    exact .pure (.compound ((operand.respelled.after _).before _) (by simp))
  | caseWhen conditions elseResult =>
    rw [children, List.forall_mem_append] at below
    exact Expr.Portable.caseWhen below.1 (List.forall_mem_singleton.1 below.2) position
  | coalesce es =>
    unfold Expr.sql
    refine coincide_inValue _ _ ((coincide_sqlList _ below).bind fun _ _ parts => .pure ?_)
    have list := Respelled.separated ", " (Portable.list_respelled parts)
    exact .compound ((list.after _).before _) (by simp)
  | aggregate function operand =>
    unfold Expr.sql
    refine coincide_inValue _ _ ?_
    split
    · exact .pure (.text _)
    · refine (List.forall_mem_singleton.1 below _).bind fun _ _ operand => .pure ?_
      exact .compound ((operand.respelled.after _).before _) (by simp)
  | window function partitionBy orderBy =>
    rw [children, List.forall_mem_append, List.forall_mem_map] at below
    unfold Expr.sql
    refine coincide_inValue _ _ ((coincide_sqlList _ below.1).bind fun _ _ partitions =>
      (coincide_sqlOrders below.2).bind fun _ _ orders => .pure ?_)
    exact portable_window function (Portable.list_respelled partitions) orders
  | comparison op left right =>
    obtain ⟨left, right⟩ := forall_mem_pair.1 below
    unfold Expr.sql
    exact (left _).bind fun _ _ left => (right _).bind fun _ _ right =>
      .pure (portable_comparison op left right)
  | logical op left right =>
    obtain ⟨left, right⟩ := forall_mem_pair.1 below
    unfold Expr.sql
    refine (right _).bind fun _ _ right => (left _).bind fun _ _ left => .pure ?_
    exact .compound ((((left.respelled.after _).before _).append right.respelled).before _)
      (by simp)
  | negation operand =>
    exact Expr.Portable.negation (List.forall_mem_singleton.1 below)
      (deeper operand (List.mem_singleton_self _)) position
  | textTest method operand arguments =>
    cases arguments with
    | nil => exact .error _
    | cons argument rest =>
      unfold Expr.sql
      exact (below operand (by simp [children]) _).bind fun _ _ operand =>
        (below argument (by simp [children]) _).bind fun _ _ argument =>
          .pure (portable_textTest method operand argument)
  | caseInsensitive function left right =>
    obtain ⟨left, right⟩ := forall_mem_pair.1 below
    unfold Expr.sql
    exact (left _).bind fun _ _ left => (right _).bind fun _ _ right =>
      .pure (portable_caseInsensitive function ((left.respelled.after _).before _)
        ((right.respelled.after _).before _))
  | membership value list =>
    exact Expr.Portable.membership (forall_mem_pair.1 below).1 (deeper list (by simp [children]))
      position
  | isNull operand negated =>
    unfold Expr.sql
    refine (List.forall_mem_singleton.1 below _).bind fun _ _ operand => .pure ?_
    exact .compound (operand.respelled.before _) (by cases negated <;> simp)
  | object properties =>
    rw [children, List.forall_mem_map] at below
    exact Expr.Portable.object below position
  | array => cases position <;> exact .error _

/-- Every expression is portable. -/
theorem Expr.portable (scope : SqlScope) (e : Expr) : e.Portable scope := by
  induction e using Expr.grandchildren_induction with
  | step e below deeper => exact portable_of_children below deeper

end FluentQuery
