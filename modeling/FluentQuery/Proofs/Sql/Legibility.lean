import Mathlib.Data.List.Forall2
import FluentQuery.Proofs.Data.Joined
import FluentQuery.Proofs.Effect
import FluentQuery.Proofs.Expr.Children
import FluentQuery.Proofs.Sql.Reading
import FluentQuery.Proofs.Sql.TextRules

/-!
# Texts that are read as values

An expression is readable in a text if the text is read as the value of the expression, whatever
operators mean.  Each kind of node is written so that the reader finds its parts again: given readable
texts of its operands, the text of a node is readable.  An equality is the only node that looks at the
texts of its operands; it finds the null constant in them and nothing else (`null_iff`).
-/

namespace FluentQuery

set_option autoImplicit false

open Sql

/-- A text that is more than a single name. -/
def Broken (t : List Char) : Prop :=
  ' ' ∈ t ∨ '(' ∈ t

/-- What breaks a text apart breaks longer ones. -/
theorem Broken.append_left {t : List Char} (h : Broken t) (t' : List Char) : Broken (t ++ t') :=
  h.imp (List.mem_append_left t') (List.mem_append_left t')

theorem Broken.append_right {t : List Char} (h : Broken t) (t' : List Char) : Broken (t' ++ t) :=
  h.imp (List.mem_append_right t') (List.mem_append_right t')

namespace Word

/-- A word that stands for no value by itself and is no single mark. -/
def breaks : Word → Bool
  | closing | null | minusOne | star | excluded | truth _ | percent => false
  | _ => true

/-- A word that breaks has a character in it that no name has. -/
theorem broken {w : Word} (h : w.breaks = true) : Broken w.spell := by
  have table : ∀ w ∈ all, w.breaks = true → ' ' ∈ w.spell ∨ '(' ∈ w.spell := by decide +kernel
  exact table w w.mem_all h

end Word

/-! ### Readable texts -/

/-- The text of an expression is read as its value: as an operand if it is no test, and as an atom if
it is a single name. -/
structure Expr.Reads {V : Type} (I : Interpretation V) (d : Dialect) (e : Expr) (t : List Char) :
    Prop where
  operand : e.isTest = false → OperandText I d t (e.value I)
  expr : ExprText I d t (e.value I)
  atom : ¬ Broken t → AtomText I d t (e.value I)

namespace Expr.Reads

variable {V : Type} {I : Interpretation V} {d : Dialect} {e : Expr} {t : List Char}

/-- An atom may stand anywhere. -/
theorem ofAtom (h : AtomText I d t (e.value I)) : e.Reads I d t :=
  ⟨fun _ => h.unit.operand, h.unit.operand.expr, fun _ => h⟩

/-- A unit is read as one wherever operands may stand. -/
theorem ofUnit (h : UnitText I d t (e.value I)) (broken : Broken t) : e.Reads I d t :=
  ⟨fun _ => h.operand, h.operand.expr, fun single => absurd broken single⟩

/-- An operand of comparisons. -/
theorem ofOperand (h : OperandText I d t (e.value I)) (broken : Broken t) : e.Reads I d t :=
  ⟨fun _ => h, h.expr, fun single => absurd broken single⟩

/-- A test is no operand, and is read as an expression. -/
theorem ofTest (h : ExprText I d t (e.value I)) (test : e.isTest = true) (broken : Broken t) :
    e.Reads I d t := by
  refine ⟨fun noTest => ?_, h, fun single => absurd broken single⟩
  rw [test] at noTest
  cases noTest

end Expr.Reads

/-- A fragment whose text is read as the value of an expression, whatever operators mean. -/
def Expr.Readable (scope : SqlScope) (e : Expr) (f : Fragment) : Prop :=
  ∀ (V : Type) (I : Interpretation V), I.Lawful → I.Binds scope.params →
    e.Reads I scope.dialect (f.chars scope.dialect)

namespace Sql

variable {scope : SqlScope}

/-! ### Names -/

/-- A column is read as a column of the one table there is. -/
theorem readable_column (single : scope.hasJoins = false) (name table : String)
    (source : Option ColumnSource) {e : Expr}
    (value : ∀ {V : Type} (I : Interpretation V),
      e.value I = I.column (Expr.origin table source) name) :
    Returns (e.Readable scope) (scope.column name table source) := by
  unfold SqlScope.column
  rw [SqlScope.qualifier_eq_origin single]
  generalize Expr.origin table source = row at value ⊢
  cases row with
  | none =>
    refine .ok fun V I _ _ => .ofAtom ?_
    rw [value I, Fragment.chars_text]
    exact atomText_name name
  | some row =>
    refine .ok fun V I _ _ => .ofAtom ?_
    have qualified := atomText_qualified (I := I) (d := scope.dialect) row name
    rw [value I, Fragment.chars_text]
    simpa [String.toList_append] using qualified

/-- A row is read as all columns of the one table there is. -/
theorem readable_row (single : scope.hasJoins = false) (table : String)
    (source : Option ColumnSource) :
    Returns ((Expr.reference source table).Readable scope) (scope.row table source) := by
  have value {V : Type} (I : Interpretation V) :
      (Expr.reference source table).value I = I.wholeRow (Expr.origin table source) := by
    rw [Expr.value]
  unfold SqlScope.row
  rw [SqlScope.qualifier_eq_origin single]
  generalize Expr.origin table source = row at value ⊢
  cases row with
  | none =>
    refine .ok fun V I _ _ => .ofAtom ?_
    rw [value I, Fragment.chars_text]
    exact atomText_star
  | some row =>
    refine .ok fun V I _ _ => .ofAtom ?_
    have qualified := atomText_row (I := I) (d := scope.dialect) row
    rw [value I, Fragment.chars_text]
    simpa [String.toList_append] using qualified

/-- A placeholder is read by its name. -/
theorem readable_placeholder {name : String} (named : Expr.IsName name) {e : Expr}
    (value : ∀ {V : Type} (I : Interpretation V), e.value I = I.placeholder name) :
    e.Readable scope (Fragment.placeholder name) := by
  intro V I _ _
  refine .ofAtom ?_
  rw [value I, Fragment.chars_placeholder]
  exact atomText_placeholder named

/-! ### Operators -/

section

variable {V : Type} {I : Interpretation V} {d : Dialect} {f g : Fragment} {v w : V}

/-- A comparison is read from both sides of its operator. -/
theorem exprText_compare (op : ComparisonOp) (hf : OperandText I d (f.chars d) v)
    (hg : OperandText I d (g.chars d) w) :
    ExprText I d ((f ++ Fragment.text (" " ++ op.sql ++ " ") ++ g).chars d) (I.compare op v w) := by
  have text := hf.compare op hg
  simp only [Fragment.chars_append, Fragment.chars_text, List.append_assoc]
  exact text

theorem broken_compare (op : ComparisonOp) (f g : Fragment) :
    Broken ((f ++ Fragment.text (" " ++ op.sql ++ " ") ++ g).chars d) := by
  simp [Broken]

/-- A test of a text is read from what stands before and after LIKE. -/
theorem exprText_textTest (lawful : I.Lawful) (test : TextTest)
    (hf : OperandText I d (f.chars d) v) (hg : OperandText I d (g.chars d) w) :
    ExprText I d ((test.sql f g).chars d) (I.matchText test v w) := by
  have after : " || '%'".toList = Word.bars.spell ++ Word.percent.spell := by decide
  have before : " LIKE '%' || ".toList =
      Word.like.spell ++ (Word.percent.spell ++ Word.bars.spell) := by decide
  have contains := hf.contains hg
  cases test with
  | startsWith =>
    have text := hf.startsWith hg
    simp only [TextTest.sql, Fragment.chars_append, Fragment.chars_text, List.append_assoc, after]
    exact text
  | endsWith =>
    have text := hf.endsWith hg
    simp only [TextTest.sql, Fragment.chars_append, Fragment.chars_text, List.append_assoc, before]
    exact text
  | includes =>
    rw [lawful.includes_eq]
    simp only [TextTest.sql, Fragment.chars_append, Fragment.chars_text, List.append_assoc, before,
      after]
    exact contains
  | contains =>
    simp only [TextTest.sql, Fragment.chars_append, Fragment.chars_text, List.append_assoc, before,
      after]
    exact contains

theorem broken_textTest (test : TextTest) (f g : Fragment) : Broken ((test.sql f g).chars d) := by
  cases test <;> simp [Broken, TextTest.sql]

end

section

variable {l r : Expr} {fl fr : Fragment} (hl : l.Readable scope fl) (hr : r.Readable scope fr)

include hl

/-- A function is read from what it is applied to. -/
theorem readable_convert (method : StringMethod) :
    (Expr.stringMethod method l).Readable scope
      (Fragment.text (method.sql ++ "(") ++ fl ++ Fragment.text ")") := by
  intro V I lawful binds
  have text := (hl V I lawful binds).expr.convert method
  simp only [Fragment.chars_append, Fragment.chars_text, List.append_assoc]
  refine .ofUnit ?_ ((Word.broken (w := .convert method) rfl).append_left _)
  rw [Expr.value]
  exact text

/-- A test for null is read from what stands before it. -/
theorem readable_isNull (operand : l.isTest = false) (negated : Bool) :
    (Expr.isNull l negated).Readable scope
      (fl ++ Fragment.text (if negated then " IS NOT NULL" else " IS NULL")) := by
  intro V I lawful binds
  have text := ((hl V I lawful binds).operand operand).isNull negated
  simp only [Fragment.chars_append, Fragment.chars_text]
  refine .ofTest ?_ rfl ((Word.broken (w := .isNull negated) rfl).append_right _)
  rw [Expr.value]
  exact text

/-- A negation is read from its operand, whether or not that is enclosed. -/
theorem readable_negation {e : Expr}
    (value : ∀ {V : Type} (I : Interpretation V), e.value I = I.negate (l.value I)) :
    e.Readable scope (Sql.negation scope.dialect fl) := by
  intro V I lawful binds
  have operand := hl V I lawful binds
  unfold Sql.negation
  split
  · rename_i plain
    have whole : ¬ Broken (fl.chars scope.dialect) := by
      rw [List.all_eq_true] at plain
      rintro (blank | parenthesis)
      · simpa using plain _ blank
      · simpa using plain _ parenthesis
    have text := (operand.atom whole).negation
    simp only [Fragment.chars_append, Fragment.chars_text]
    refine .ofUnit ?_ ((Word.broken (w := .negation) rfl).append_left _)
    rw [value I]
    exact text
  · have text := operand.expr.negation
    have opening : Word.negation.spell ++ Word.opening.spell = "NOT (".toList := by decide
    rw [← List.append_assoc, opening] at text
    simp only [Fragment.chars_append, Fragment.chars_text, List.append_assoc]
    refine .ofUnit ?_ (Broken.append_left (.inl (by decide)) _)
    rw [value I]
    exact text

include hr

/-- Arithmetic is enclosed, so that it is read as a unit. -/
theorem readable_arithmetic (op : ArithmeticOp) :
    (Expr.arithmetic op l r).Readable scope
      (Fragment.text "(" ++ fl ++ Fragment.text (" " ++ op.name ++ " ") ++ fr ++
        Fragment.text ")") := by
  intro V I lawful binds
  have text := unitText_arithmetic (hl V I lawful binds).expr (hr V I lawful binds).expr op
  simp only [Fragment.chars_append, Fragment.chars_text, List.append_assoc]
  refine .ofUnit ?_ ((Word.broken (w := .opening) rfl).append_left _)
  rw [Expr.value]
  exact text

/-- Connectives are enclosed, so that they are read as units. -/
theorem readable_logical (op : LogicalOp) :
    (Expr.logical op l r).Readable scope
      (Fragment.text "(" ++ fl ++ Fragment.text op.sql ++ fr ++ Fragment.text ")") := by
  intro V I lawful binds
  have text := unitText_logical (hl V I lawful binds).expr (hr V I lawful binds).expr op
  simp only [Fragment.chars_append, Fragment.chars_text, List.append_assoc]
  refine .ofUnit ?_ ((Word.broken (w := .opening) rfl).append_left _)
  rw [Expr.value]
  exact text

/-- Concatenation is not enclosed: tests next to it would take it apart. -/
theorem readable_concat (left : l.isTest = false) (right : r.isTest = false) :
    (Expr.concat l r).Readable scope (fl ++ Fragment.text " || " ++ fr) := by
  intro V I lawful binds
  have text := ((hl V I lawful binds).operand left).concat lawful ((hr V I lawful binds).operand right)
  simp only [Fragment.chars_append, Fragment.chars_text, List.append_assoc]
  refine .ofOperand ?_ (((Word.broken (w := .bars) rfl).append_left _).append_right _)
  rw [Expr.value]
  exact text

theorem readable_textTest (test : TextTest) (left : l.isTest = false) (right : r.isTest = false) :
    (Expr.textTest test l [r]).Readable scope (test.sql fl fr) := by
  intro V I lawful binds
  have object := (hl V I lawful binds).operand left
  have argument := (hr V I lawful binds).operand right
  refine .ofTest ?_ rfl (broken_textTest test fl fr)
  simpa [Expr.value, Expr.values] using exprText_textTest lawful test object argument

theorem readable_caseInsensitive (test : CaseInsensitiveTest) :
    (Expr.caseInsensitive test l r).Readable scope
      (test.sql (Fragment.text "LOWER(" ++ fl ++ Fragment.text ")")
        (Fragment.text "LOWER(" ++ fr ++ Fragment.text ")")) := by
  intro V I lawful binds
  have object := (readable_convert hl .toLowerCase V I lawful binds).operand rfl
  have argument := (readable_convert hr .toLowerCase V I lawful binds).operand rfl
  rw [Expr.value] at object argument
  have value : (Expr.caseInsensitive test l r).value I = I.lowered test
      (I.convert .toLowerCase (l.value I)) (I.convert .toLowerCase (r.value I)) := by
    rw [Expr.value, lawful.ignoringCase_eq]
  cases test with
  | equals =>
    refine .ofTest ?_ rfl ?_
    · rw [value]
      exact exprText_compare .eq object argument
    · exact broken_compare .eq _ _
  | startsWith =>
    refine .ofTest ?_ rfl (broken_textTest .startsWith _ _)
    rw [value]
    exact exprText_textTest lawful .startsWith object argument
  | endsWith =>
    refine .ofTest ?_ rfl (broken_textTest .endsWith _ _)
    rw [value]
    exact exprText_textTest lawful .endsWith object argument
  | contains =>
    refine .ofTest ?_ rfl (broken_textTest .contains _ _)
    rw [value]
    exact exprText_textTest lawful .contains object argument

end

/-! ### Null tests -/

/-- Nothing is known of a value but whether it is the null constant. -/
def nullness (params : Json) : Interpretation Bool where
  column _ _ := false
  excluded _ := false
  wholeRow _ := false
  placeholder _ := false
  items name :=
    match params.get? name with
    | some (.arr items) => (List.range items.length).map fun _ => false
    | _ => []
  constant v := v.isNull
  truth _ := false
  arithmetic _ _ _ := false
  concat _ _ := false
  convert _ _ := false
  choose _ _ := false
  firstPresent _ := false
  aggregate _ _ := false
  window _ _ _ := false
  compare _ _ _ := false
  connect _ _ _ := false
  negate _ := false
  matchText _ _ _ := false
  matchIgnoringCase _ _ _ := false
  member _ _ := false
  isNull _ _ := false
  project
    | [(none, v)] => v
    | _ => false
  list _ := false

theorem lawful_nullness (params : Json) : (nullness params).Lawful where
  concat_assoc _ _ _ := rfl
  includes_eq := rfl
  ignoringCase_eq test _ _ := by cases test <;> rfl
  member_nil _ := rfl
  negate_false := rfl
  project_unnamed _ := rfl

theorem binds_nullness (params : Json) : (nullness params).Binds params := by
  intro name items found
  simp [nullness, found]

theorem value_nullness (params : Json) {e : Expr} (present : e ≠ .absent)
    (noObject : e.isObject = false) : e.value (nullness params) = e.isNullConstant := by
  cases e with
  | absent => exact absurd rfl present
  | object => cases noObject
  | constant v => cases v <;> rfl
  | comparison op left right =>
    rw [Expr.value]
    unfold Interpretation.comparison
    cases op <;> simp [nullness, Expr.isNullConstant]
  | aggregate function operand => cases operand <;> rfl
  | membership operand items => cases items <;> rfl
  | _ => rfl

/-- A text is that of null exactly if it was written for the null constant. -/
theorem null_iff {e : Expr} {position : Position} {f : Fragment}
    (written : e.sql scope position = .ok f) (h : e.Readable scope f)
    (noObject : e.isObject = false) : (f.render scope.dialect == "NULL") = e.isNullConstant := by
  have present : e ≠ .absent := by
    rintro rfl
    cases written
  rw [Bool.eq_iff_iff, beq_iff_eq]
  constructor
  · intro null
    -- The text is read twice: as the expression, and as the word it is.
    have chars : f.chars scope.dialect = Word.null.spell := congrArg String.toList null
    have read := (h Bool _ (lawful_nullness scope.params) (binds_nullness _)).expr
    rw [chars, value_nullness _ present noObject] at read
    have word := (atomText_null (I := nullness scope.params) (d := scope.dialect)).unit.operand.expr
    have same := (read 5 [] (by decide) .nil).symm.trans (word 5 [] (by decide) .nil)
    exact congrArg Prod.fst (Option.some.inj same)
  · intro null
    cases e with
    | constant v =>
      cases v with
      | null =>
        cases position with
        | predicate => cases written
        | value | «open» =>
          cases written
          rfl
      | _ => cases null
    | _ => cases null

/-- A comparison is read as one, or as the test for null that it is written as. -/
theorem readable_comparison {l r : Expr} {fl fr : Fragment} (hl : l.Readable scope fl)
    (hr : r.Readable scope fr) (left : l.isTest = false) (right : r.isTest = false)
    (leftNull : (fl.render scope.dialect == "NULL") = l.isNullConstant)
    (rightNull : (fr.render scope.dialect == "NULL") = r.isNullConstant) (op : ComparisonOp) :
    (Expr.comparison op l r).Readable scope (Sql.comparison scope.dialect op fl fr) := by
  intro V I lawful binds
  have l' := (hl V I lawful binds).operand left
  have r' := (hr V I lawful binds).operand right
  have compared : (Expr.comparison op l r).value I = I.compare op (l.value I) (r.value I) →
      (Expr.comparison op l r).Reads I scope.dialect
        ((fl ++ Fragment.text (" " ++ op.sql ++ " ") ++ fr).chars scope.dialect) := by
    intro value
    refine .ofTest ?_ rfl (broken_compare op fl fr)
    rw [value]
    exact exprText_compare op l' r'
  have tested {f : Fragment} {v : V} (h : OperandText I scope.dialect (f.chars scope.dialect) v)
      (negated : Bool) (value : (Expr.comparison op l r).value I = I.isNull v negated) :
      (Expr.comparison op l r).Reads I scope.dialect
        ((f ++ Fragment.text (Word.isNull negated).text).chars scope.dialect) := by
    have text := h.isNull negated
    simp only [Fragment.chars_append, Fragment.chars_text]
    refine .ofTest ?_ rfl ((Word.broken (w := .isNull negated) rfl).append_right _)
    rw [value]
    exact text
  have nulls (negated : Bool) (equality : (Expr.comparison op l r).value I =
        if r.isNullConstant then I.isNull (l.value I) negated
        else if l.isNullConstant then I.isNull (r.value I) negated
        else I.compare op (l.value I) (r.value I)) :
      (Expr.comparison op l r).Reads I scope.dialect
        ((if fr.render scope.dialect == "NULL" then fl ++ Fragment.text (Word.isNull negated).text
          else if fl.render scope.dialect == "NULL" then
            fr ++ Fragment.text (Word.isNull negated).text
          else fl ++ Fragment.text (" " ++ op.sql ++ " ") ++ fr).chars scope.dialect) := by
    rw [leftNull, rightNull]
    split at equality
    · rename_i null
      rw [if_pos null]
      exact tested l' negated equality
    · rename_i present
      rw [if_neg present]
      split at equality
      · rename_i null
        rw [if_pos null]
        exact tested r' negated equality
      · rename_i present
        rw [if_neg present]
        exact compared equality
  have value : (Expr.comparison op l r).value I =
      I.comparison op l.isNullConstant r.isNullConstant (l.value I) (r.value I) := by
    rw [Expr.value]
  cases op with
  | eq => exact nulls false value
  | neq => exact nulls true value
  | _ => exact compared value

/-! ### Lists -/

/-- A condition and its result. -/
def WhenClause (scope : SqlScope) (c : Expr × Expr) (f : Fragment) : Prop :=
  ∃ condition result, c.1.Readable scope condition ∧ c.2.Readable scope result ∧
    f = Fragment.text "WHEN " ++ condition ++ Fragment.text " THEN " ++ result

/-- An ordering key and its direction. -/
def OrderKey (scope : SqlScope) (o : Expr × Bool) (f : Fragment) : Prop :=
  ∃ key, o.1.Readable scope key ∧ f = key ++ Fragment.text (if o.2 then " DESC" else " ASC")

section

variable {V : Type} {I : Interpretation V} {d : Dialect}

/-- Fragments with commas between them are read one by one. -/
theorem listText_separated {α : Type} {item : List Char → α → Prop} {fs : List Fragment} {as : List α}
    (h : List.Forall₂ (fun f a => item (f.chars d) a) fs as) (nonempty : fs ≠ []) :
    ListText item ((Fragment.separated ", " fs).chars d) as := by
  induction h with
  | nil => exact absurd rfl nonempty
  | @cons f a fs as h hs ih =>
    cases hs with
    | nil => exact .one h
    | cons h' hs' =>
      have others := ih nofun
      rw [Fragment.separated]
      · simp only [Fragment.chars_append, Fragment.chars_text, List.append_assoc]
        exact .more h others
      · exact nofun

/-- Expressions of a list are read one by one. -/
theorem exprTexts {es : List Expr} {fs : List Fragment} (lawful : I.Lawful)
    (binds : I.Binds scope.params) (h : List.Forall₂ (Expr.Readable scope) es fs) :
    List.Forall₂ (fun f v => ExprText I scope.dialect (f.chars scope.dialect) v) fs
      (Expr.values I es) := by
  induction h with
  | nil => exact .nil
  | cons h _ ih => exact .cons (h V I lawful binds).expr ih

/-- A test for membership in a list, which may be empty. -/
theorem reads_memberOf {e : Expr} {f : Fragment} {fs : List Fragment} {v : V} {vs : List V}
    (lawful : I.Lawful) (operand : OperandText I d (f.chars d) v)
    (items : List.Forall₂ (fun f v => ExprText I d (f.chars d) v) fs vs) (test : e.isTest = true)
    (negated : Bool)
    (value : e.value I = if negated then I.negate (I.member v vs) else I.member v vs) :
    e.Reads I d ((memberOf negated f fs).chars d) := by
  unfold memberOf
  split
  -- Membership in no list at all is written as a truth value.
  · rename_i empty
    rw [List.isEmpty_iff] at empty
    subst empty
    cases items
    have constant : e.value I = I.truth negated := by
      rw [value, lawful.member_nil]
      cases negated
      · rfl
      · exact lawful.negate_false
    refine .ofAtom ?_
    rw [constant, Fragment.chars_text]
    cases negated
    · exact atomText_truth false
    · exact atomText_truth true
  · rename_i nonempty
    have text := operand.member (listText_separated items (by simpa using nonempty)) negated
    simp only [Fragment.chars_append, Fragment.chars_text, List.append_assoc]
    refine .ofTest ?_ test (((Word.broken (w := .isIn negated) rfl).append_left _).append_right _)
    rw [value]
    exact text

/-- Conditions with their results, before the text that ends them. -/
theorem casesText {cs : List (Expr × Expr)} {fs : List Fragment} (lawful : I.Lawful)
    (binds : I.Binds scope.params) {ending : List Char} {default : V}
    (ends : ∀ c r v w, ExprText I scope.dialect c v → ExprText I scope.dialect r w →
      CasesText I scope.dialect (c ++ (Word.thenResult.spell ++ (r ++ ending))) ([(v, w)], default))
    (h : List.Forall₂ (WhenClause scope) cs fs) (nonempty : cs ≠ []) :
    ∃ ts, (Fragment.separated " " fs).chars scope.dialect ++ ending = "WHEN ".toList ++ ts ∧
      CasesText I scope.dialect ts (Expr.conditionValues I cs, default) := by
  have blank : " ".toList ++ "WHEN ".toList = Word.when.spell := by decide
  have thenText : " THEN ".toList = Word.thenResult.spell := rfl
  induction h with
  | nil => exact absurd rfl nonempty
  | @cons c f cs fs h hs ih =>
    obtain ⟨condition, result, hc, hr, rfl⟩ := h
    have condition' := (hc V I lawful binds).expr
    have result' := (hr V I lawful binds).expr
    cases hs with
    | nil =>
      refine ⟨_, ?_, ends _ _ _ _ condition' result'⟩
      simp only [Fragment.separated, Fragment.chars_append, Fragment.chars_text, List.append_assoc,
        thenText]
    | cons h' hs' =>
      -- The blank that separates two clauses belongs to the word that starts the second.
      obtain ⟨ts, text, cases⟩ := ih nofun
      refine ⟨_, ?_, .more condition' result' cases⟩
      rw [Fragment.separated]
      · simp only [Fragment.chars_append, Fragment.chars_text, List.append_assoc, thenText, text,
          ← blank]
      · exact nofun

/-- Keys of an order are read one by one, each with its direction. -/
theorem orderTexts {os : List (Expr × Bool)} {fs : List Fragment} (lawful : I.Lawful)
    (binds : I.Binds scope.params) (h : List.Forall₂ (OrderKey scope) os fs) :
    List.Forall₂ (fun f o => OrderText I scope.dialect (f.chars scope.dialect) o) fs
      (Expr.orderValues I os) := by
  induction h with
  | nil => exact .nil
  | cons h _ ih =>
    obtain ⟨key, readable, rfl⟩ := h
    refine .cons ?_ ih
    rw [Fragment.chars_append, Fragment.chars_text]
    exact .intro (readable V I lawful binds).expr _

end

/-- COALESCE is read from its alternatives, of which there has to be one. -/
theorem readable_coalesce {es : List Expr} {fs : List Fragment}
    (h : List.Forall₂ (Expr.Readable scope) es fs) (nonempty : fs ≠ []) :
    (Expr.coalesce es).Readable scope
      (Fragment.text "COALESCE(" ++ Fragment.separated ", " fs ++ Fragment.text ")") := by
  intro V I lawful binds
  have text := unitText_coalesce (listText_separated (exprTexts lawful binds h) nonempty)
  simp only [Fragment.chars_append, Fragment.chars_text, List.append_assoc]
  refine .ofUnit ?_ ((Word.broken (w := .coalesce) rfl).append_left _)
  rw [Expr.value]
  exact text

/-- Without an operand rows are counted. -/
theorem readable_count (function : AggregateFunction) :
    (Expr.aggregate function .absent).Readable scope (Fragment.text (function.sql ++ "(*)")) := by
  intro V I lawful binds
  have text := (atomText_star (I := I) (d := scope.dialect)).unit.operand.expr.aggregate function
  have spelt : (function.sql ++ "(*)").toList =
      (Word.aggregate function).spell ++ (Word.star.spell ++ Word.closing.spell) := by
    cases function <;> decide
  rw [Fragment.chars_text, spelt]
  refine .ofUnit ?_ ((Word.broken (w := .aggregate function) rfl).append_left _)
  rw [Expr.value]
  exact text

/-- An aggregate is read from its operand. -/
theorem readable_aggregate {e : Expr} {f : Fragment} (h : e.Readable scope f) (present : e ≠ .absent)
    (function : AggregateFunction) :
    (Expr.aggregate function e).Readable scope
      (Fragment.text (function.sql ++ "(") ++ f ++ Fragment.text ")") := by
  intro V I lawful binds
  have text := (h V I lawful binds).expr.aggregate function
  simp only [Fragment.chars_append, Fragment.chars_text, List.append_assoc]
  refine .ofUnit ?_ ((Word.broken (w := .aggregate function) rfl).append_left _)
  rw [Expr.value]
  · exact text
  · exact present

/-- A window is read from its groups and its keys. -/
theorem readable_window {partitionBy : List Expr} {orderBy : List (Expr × Bool)}
    {partitions orders : List Fragment}
    (hp : List.Forall₂ (Expr.Readable scope) partitionBy partitions)
    (ho : List.Forall₂ (OrderKey scope) orderBy orders) (nonempty : orders ≠ [])
    (function : WindowFunction) :
    (Expr.window function partitionBy orderBy).Readable scope
      (Sql.window function partitions orders) := by
  intro V I lawful binds
  have ordering := listText_separated (orderTexts lawful binds ho) nonempty
  unfold Sql.window
  cases hp with
  | nil =>
    have spelt : (function.sql ++ "() OVER (").toList ++ "ORDER BY ".toList =
        (Word.window function false).spell := by
      simp [Word.spell, Word.text]
    have text := unitText_window ordering function
    simp only [List.isEmpty_nil, if_true, List.nil_append, Fragment.separated,
      Fragment.chars_append, Fragment.chars_text, List.append_assoc]
    rw [← List.append_assoc (function.sql ++ "() OVER (").toList, spelt]
    refine .ofUnit ?_ ((Word.broken (w := .window function false) rfl).append_left _)
    rw [Expr.value, Expr.values]
    exact text
  | @cons e f es fs h hs =>
    have spelt : (function.sql ++ "() OVER (").toList ++ "PARTITION BY ".toList =
        (Word.window function true).spell := by
      simp [Word.spell, Word.text]
    have order : " ".toList ++ "ORDER BY ".toList = Word.orderBy.spell := by decide
    have partition := listText_separated (exprTexts lawful binds (.cons h hs)) nofun
    have text := unitText_partitionedWindow ordering function partition
    simp only [List.isEmpty_cons, Bool.false_eq_true, if_false, List.cons_append, List.nil_append,
      Fragment.separated, Fragment.chars_append, Fragment.chars_text, List.append_assoc]
    rw [← List.append_assoc (function.sql ++ "() OVER (").toList, spelt,
      ← List.append_assoc " ".toList, order]
    refine .ofUnit ?_ ((Word.broken (w := .window function true) rfl).append_left _)
    rw [Expr.value]
    exact text

section

variable {cs : List (Expr × Expr)} {fs : List Fragment} (h : List.Forall₂ (WhenClause scope) cs fs)
  (nonempty : cs ≠ [])

include h nonempty

/-- Conditions with their results, and the text that ends them. -/
theorem reads_cases {V : Type} {I : Interpretation V} (lawful : I.Lawful)
    (binds : I.Binds scope.params) {e : Expr} {ending : List Char} {default : V}
    (ends : ∀ c r v w, ExprText I scope.dialect c v → ExprText I scope.dialect r w →
      CasesText I scope.dialect (c ++ (Word.thenResult.spell ++ (r ++ ending))) ([(v, w)], default))
    (value : e.value I = I.choose (Expr.conditionValues I cs) default) :
    e.Reads I scope.dialect ("CASE ".toList ++
      ((Fragment.separated " " fs).chars scope.dialect ++ ending)) := by
  have spelt : "CASE ".toList ++ "WHEN ".toList = Word.caseWhen.spell := by decide
  obtain ⟨ts, written, cases⟩ := casesText lawful binds ends h nonempty
  rw [written, ← List.append_assoc, spelt]
  refine .ofUnit ?_ ((Word.broken (w := .caseWhen) rfl).append_left _)
  rw [value]
  exact unitText_caseWhen cases

theorem readable_caseWhen :
    (Expr.caseWhen cs .absent).Readable scope
      (Fragment.text "CASE " ++ Fragment.separated " " fs ++ Fragment.text " END") := by
  intro V I lawful binds
  simp only [Fragment.chars_append, Fragment.chars_text, List.append_assoc]
  refine reads_cases h nonempty lawful binds (fun _ _ _ _ hc hr => .last hc hr) ?_
  rw [Expr.value, Expr.value]

/-- A case is read from its conditions and results, and the result that is left. -/
theorem readable_caseWhenElse {e : Expr} {f : Fragment} (he : e.Readable scope f) :
    (Expr.caseWhen cs e).Readable scope
      (Fragment.text "CASE " ++ Fragment.separated " " fs ++ Fragment.text " ELSE " ++ f ++
        Fragment.text " END") := by
  intro V I lawful binds
  have default := (he V I lawful binds).expr
  simp only [Fragment.chars_append, Fragment.chars_text, List.append_assoc]
  refine reads_cases h nonempty lawful binds (fun _ _ _ _ hc hr => .default hc hr default) ?_
  rw [Expr.value]

end

/-! ### Membership -/

/-- The items of a parameter have names of their own. -/
theorem isName_item {name : String} (named : Expr.IsName name) (i : Nat) :
    Expr.IsName (name ++ "_" ++ toString i) := by
  intro c hc
  simp only [String.toList_append, List.mem_append] at hc
  rcases hc with (inName | underscore) | inNumeral
  · exact named c inName
  · rw [List.mem_singleton.1 underscore]
    rfl
  · have digit := Text.isDigit_of_mem_numeral inNumeral
    simp only [Expr.isNameChar, Bool.and_eq_true, decide_eq_true_eq]
    refine ⟨⟨?_, ?_⟩, ?_⟩ <;> rintro rfl <;> cases digit

/-- The placeholders of a list are read as its items. -/
theorem returns_arrayItems {name : String} (named : Expr.IsName name) :
    Returns (fun fs : List Fragment => ∀ (V : Type) (I : Interpretation V), I.Binds scope.params →
      List.Forall₂ (fun f v => ExprText I scope.dialect (f.chars scope.dialect) v) fs (I.items name))
      (arrayItems scope.params name) := by
  intro fs written V I binds
  unfold arrayItems at written
  split at written
  · rename_i items found
    cases written
    rw [binds name items found, List.forall₂_map_left_iff, List.forall₂_map_right_iff,
      List.forall₂_same]
    intro i _
    rw [Fragment.chars_placeholder]
    exact (atomText_placeholder (isName_item named i)).unit.operand.expr
  · cases written
  · cases written

end Sql

end FluentQuery
