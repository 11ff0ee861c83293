import FluentQuery.Ast.Builder
import FluentQuery.Proofs.Resolve.FormedBodies
import FluentQuery.Proofs.Sql.Legibility

/-!
# Texts determine values

Main statement: `sql_determines_value`.  Two lambda bodies that are written in the same way have the
same value, whatever row and parameters they are evaluated on, if their members are legible.  By
induction on an expression its text is readable, and a text is read in one way only.  Tests of tests
are not legible: written one after the other they can mean two things (`nested_tests_share_text`).
-/

namespace FluentQuery

set_option autoImplicit false

open Sql

/-- A node that is well formed and legible. -/
def Expr.Clear (e : Expr) : Prop :=
  e.WellFormed ∧ e.Legible

theorem Expr.every_clear {e : Expr} (wellFormed : e.Every WellFormed) (legible : e.Every Legible) :
    e.Every Clear :=
  fun node hn => ⟨wellFormed node hn, legible node hn⟩

/-- No clear expression is an object. -/
theorem Expr.Every.isObject_eq_false {e : Expr} (h : e.Every Clear) : e.isObject = false := by
  cases e with
  | object => exact absurd ((every_object _).1 h).1.2 id
  | _ => rfl

/-- Wherever it stands, a clear expression is readable in its text. -/
def Expr.Determined (scope : SqlScope) (e : Expr) : Prop :=
  e.Every Clear → ∀ position, Returns (e.Readable scope) (e.sql scope position)

namespace Sql

variable {scope : SqlScope}

/-! ### Lists -/

theorem returns_sqlList {es : List Expr} {position : Position}
    (h : ∀ e ∈ es, Returns (e.Readable scope) (e.sql scope position)) :
    Returns (List.Forall₂ (Expr.Readable scope) es) (Expr.sqlList scope position es) := by
  induction es with
  | nil => exact .ok .nil
  | cons e rest ih =>
    rw [List.forall_mem_cons] at h
    unfold Expr.sqlList
    exact h.1.bind fun _ first => (ih h.2).bind fun _ others => .ok (.cons first others)

theorem returns_sqlConditions {cs : List (Expr × Expr)}
    (h : ∀ e ∈ Expr.conditionChildren cs, e.Determined scope)
    (clear : ∀ c ∈ cs, c.1.Every Expr.Clear ∧ c.2.Every Expr.Clear) :
    Returns (List.Forall₂ (WhenClause scope) cs) (Expr.sqlConditions scope cs) := by
  induction cs with
  | nil => exact .ok .nil
  | cons c rest ih =>
    rw [Expr.conditionChildren, List.forall_mem_cons, List.forall_mem_cons] at h
    rw [List.forall_mem_cons] at clear
    obtain ⟨condition, result, below⟩ := h
    obtain ⟨⟨clearCondition, clearResult⟩, clearBelow⟩ := clear
    unfold Expr.sqlConditions
    refine (result clearResult .open).bind fun _ r =>
      (condition clearCondition .predicate).bind fun _ c => ?_
    exact (ih below clearBelow).bind fun _ others => .ok (.cons ⟨_, _, c, r, rfl⟩ others)

theorem returns_sqlOrders {os : List (Expr × Bool)}
    (h : ∀ o ∈ os, Returns (o.1.Readable scope) (o.1.sql scope .value)) :
    Returns (List.Forall₂ (OrderKey scope) os) (Expr.sqlOrders scope os) := by
  induction os with
  | nil => exact .ok .nil
  | cons o rest ih =>
    rw [List.forall_mem_cons] at h
    unfold Expr.sqlOrders
    exact h.1.bind fun _ key => (ih h.2).bind fun _ others => .ok (.cons ⟨_, key, rfl⟩ others)

end Sql

/-! ### Nodes -/

/-- An operand of a comparison, which looks for the null constant. -/
theorem Expr.Determined.operand {scope : SqlScope} {e : Expr} (h : e.Determined scope)
    (clear : e.Every Clear) (position : Position) :
    Returns (fun f => e.Readable scope f ∧ (f.render scope.dialect == "NULL") = e.isNullConstant)
      (e.sql scope position) := by
  intro f written
  have readable := h clear position f written
  exact ⟨readable, null_iff written readable clear.isObject_eq_false⟩

section

variable {scope : SqlScope}

/-- A test for membership in a list given as a parameter, negated or not. -/
theorem Expr.returns_memberOf {operand e : Expr} {p property : String} {index : Option Int}
    (h : Returns (operand.Readable scope) (operand.sql scope .value)) (noTest : operand.isTest = false)
    (whole : index = none) (named : IsName (parameterName p property index)) (negated : Bool)
    (test : e.isTest = true)
    (value : ∀ {V : Type} (I : Interpretation V), e.value I =
      if negated then I.negate ((membership operand (param p property index)).value I)
      else (membership operand (param p property index)).value I) :
    Returns (e.Readable scope) (do
      let value ← operand.sql scope .value
      let items ← arrayItems scope.params (placeholderName p property)
      return memberOf negated value items) := by
  subst whole
  refine h.bind fun f readable => (returns_arrayItems named).bind fun fs items => .ok ?_
  intro V I lawful binds
  refine reads_memberOf lawful ((readable V I lawful binds).operand noTest) (items V I binds) test
    negated ?_
  rw [value I, Expr.value]

namespace Expr

theorem determined_caseWhen {conditions : List (Expr × Expr)} {elseResult : Expr}
    (below : ∀ c ∈ conditionChildren conditions, c.Determined scope)
    (last : elseResult.Determined scope) : (caseWhen conditions elseResult).Determined scope := by
  intro clear position
  obtain ⟨-, hc, he⟩ := (every_caseWhen _ _).1 clear
  unfold Expr.sql
  refine returns_inValue ?_
  split
  · exact .error
  · rename_i some
    have nonempty : conditions ≠ [] := by simpa using some
    refine (returns_sqlConditions below hc).bind fun fs texts => ?_
    dsimp only
    split
    · rename_i absent
      cases elseResult with
      | absent => exact .ok (readable_caseWhen texts nonempty)
      | _ => cases absent
    · exact (last he _).bind fun _ text => .ok (readable_caseWhenElse texts nonempty text)

theorem determined_aggregate {operand : Expr} (h : operand.Determined scope)
    (function : AggregateFunction) : (aggregate function operand).Determined scope := by
  intro clear position
  obtain ⟨-, below⟩ := (every_aggregate _ _).1 clear
  unfold Expr.sql
  refine returns_inValue ?_
  split
  · rename_i absent
    cases operand with
    | absent => exact .ok (readable_count function)
    | _ => cases absent
  · rename_i present
    refine (h below _).bind fun _ text => .ok (readable_aggregate text ?_ function)
    rintro rfl
    exact present rfl

theorem determined_window {partitionBy : List Expr} {orderBy : List (Expr × Bool)}
    (hp : ∀ e ∈ partitionBy, e.Determined scope) (ho : ∀ o ∈ orderBy, o.1.Determined scope)
    (function : WindowFunction) : (window function partitionBy orderBy).Determined scope := by
  intro clear position
  obtain ⟨⟨nonempty, -⟩, clearKeys, clearOrders⟩ := (every_window _ _ _).1 clear
  unfold Expr.sql
  refine returns_inValue ((returns_sqlList fun e he => hp e he (clearKeys e he) _).bind fun _ keys =>
    (returns_sqlOrders fun o mem => ho o mem (clearOrders o mem) _).bind fun orders texts =>
      .ok (readable_window keys texts ?_ function))
  rintro rfl
  cases texts
  exact nonempty rfl

/-- A list of values has no text of its own: its elements are operands of the test. -/
theorem determined_membership {value list : Expr} (h : value.Determined scope)
    (elements : ∀ e ∈ list.children, e.Determined scope) :
    (membership value list).Determined scope := by
  intro clear position
  obtain ⟨⟨-, noTest, whole⟩, clearValue, clearList⟩ := (every_membership _ _).1 clear
  have value' := h clearValue .value
  cases list with
  | param p property index =>
    exact returns_memberOf value' noTest (whole _ _ _ rfl) ((every_param _ _ _).1 clearList).2 false
      rfl fun I => rfl
  | array es =>
    have clearElements := ((every_array _).1 clearList).2
    refine value'.bind fun _ text =>
      (returns_sqlList fun e he => elements e he (clearElements e he) _).bind fun _ items => .ok ?_
    intro V I lawful binds
    exact reads_memberOf lawful ((text V I lawful binds).operand noTest)
      (exprTexts lawful binds items) rfl false (by rw [Expr.value]; rfl)
  | _ => exact value'.bind fun _ _ => .error

/-- A negated test for membership is written as one test, if the list is a parameter. -/
theorem determined_negation {operand : Expr} (h : operand.Determined scope)
    (deeper : ∀ e ∈ operand.children, e.Determined scope) :
    (negation operand).Determined scope := by
  intro clear position
  obtain ⟨-, clearOperand⟩ := (every_negation _).1 clear
  have negated : Returns ((negation operand).Readable scope)
      (operand.sql scope .predicate >>= fun text => .ok (Sql.negation scope.dialect text)) :=
    (h clearOperand _).bind fun _ text => .ok (readable_negation text fun I => by rw [Expr.value])
  cases operand with
  | membership value list =>
    cases list with
    | param p property index =>
      obtain ⟨⟨-, noTest, whole⟩, clearValue, clearList⟩ := (every_membership _ _).1 clearOperand
      have value' := deeper value (List.mem_cons_self ..) clearValue .value
      exact returns_memberOf value' noTest (whole _ _ _ rfl) ((every_param _ _ _).1 clearList).2 true
        rfl fun I => by rw [Expr.value]; rfl
    | _ => exact negated
  | _ => exact negated

/-- A node is determined if what stands below it is: its operands, and those of a list of values, which
has no text of its own. -/
theorem determined_of_children (single : scope.hasJoins = false) {e : Expr}
    (below : ∀ c ∈ e.children, c.Determined scope)
    (deeper : ∀ c ∈ e.children, ∀ d ∈ c.children, d.Determined scope) : e.Determined scope := by
  intro clear position
  cases e with
  | absent => exact .error
  | column name table source =>
    exact returns_inValue (readable_column single name table source fun I => by rw [Expr.value])
  | booleanColumn name table source =>
    exact readable_column single name table source fun I => by rw [Expr.value]
  | reference source table => exact returns_inValue (readable_row single table source)
  | excludedColumn name =>
    refine returns_inValue (.ok fun V I _ _ => .ofAtom ?_)
    rw [Fragment.chars_text, String.toList_append]
    exact atomText_excluded name
  | constant v =>
    refine returns_inValue (.ok fun V I _ _ => .ofAtom ?_)
    rw [Fragment.chars_text]
    obtain rfl | rfl := ((every_constant _).1 clear).1
    · exact atomText_null
    · exact atomText_minusOne
  | param p property index =>
    have named := ((every_param _ _ _).1 clear).2
    exact returns_inValue (.ok (readable_placeholder named fun I => by rw [Expr.value]))
  | booleanParam p property =>
    have named := ((every_booleanParam _ _).1 clear).2
    exact .ok (readable_placeholder named fun I => by rw [Expr.value])
  | allColumns =>
    refine returns_inValue (.ok fun V I _ _ => .ofAtom ?_)
    rw [Fragment.chars_text]
    exact atomText_star
  | booleanConstant b =>
    refine .ok fun V I _ _ => .ofAtom ?_
    rw [Fragment.chars_text]
    exact atomText_truth b
  | arithmetic op left right =>
    obtain ⟨-, hl, hr⟩ := (every_arithmetic _ _ _).1 clear
    obtain ⟨left', right'⟩ := forall_mem_pair.1 below
    unfold Expr.sql
    exact returns_inValue ((right' hr _).bind fun _ r => (left' hl _).bind fun _ l =>
      .ok (readable_arithmetic l r op))
  | concat left right =>
    obtain ⟨⟨-, noTest, noTest'⟩, hl, hr⟩ := (every_concat _ _).1 clear
    obtain ⟨left', right'⟩ := forall_mem_pair.1 below
    unfold Expr.sql
    exact returns_inValue ((right' hr _).bind fun _ r => (left' hl _).bind fun _ l =>
      .ok (readable_concat l r noTest noTest'))
  | stringMethod method operand =>
    obtain ⟨-, h⟩ := (every_stringMethod _ _).1 clear
    unfold Expr.sql
    exact returns_inValue ((List.forall_mem_singleton.1 below h _).bind fun _ text =>
      .ok (readable_convert text method))
  | caseWhen conditions elseResult =>
    rw [children, List.forall_mem_append, List.forall_mem_singleton] at below
    exact determined_caseWhen below.1 below.2 clear position
  | coalesce es =>
    obtain ⟨⟨nonempty, -⟩, h⟩ := (every_coalesce _).1 clear
    unfold Expr.sql
    refine returns_inValue ((returns_sqlList fun e he => below e he (h e he) _).bind fun fs texts =>
      .ok (readable_coalesce texts ?_))
    rintro rfl
    cases texts
    exact nonempty rfl
  | aggregate function operand =>
    exact determined_aggregate (List.forall_mem_singleton.1 below) function clear position
  | window function partitionBy orderBy =>
    rw [children, List.forall_mem_append, List.forall_mem_map] at below
    exact determined_window below.1 below.2 function clear position
  | comparison op left right =>
    obtain ⟨⟨-, noTest, noTest'⟩, hl, hr⟩ := (every_comparison _ _ _).1 clear
    obtain ⟨left', right'⟩ := forall_mem_pair.1 below
    unfold Expr.sql
    exact (left'.operand hl _).bind fun _ l => (right'.operand hr _).bind fun _ r =>
      .ok (readable_comparison l.1 r.1 noTest noTest' l.2 r.2 op)
  | logical op left right =>
    obtain ⟨-, hl, hr⟩ := (every_logical _ _ _).1 clear
    obtain ⟨left', right'⟩ := forall_mem_pair.1 below
    unfold Expr.sql
    exact (right' hr _).bind fun _ r => (left' hl _).bind fun _ l => .ok (readable_logical l r op)
  | negation operand =>
    exact determined_negation (List.forall_mem_singleton.1 below)
      (deeper operand (List.mem_singleton_self _)) clear position
  | textTest method operand arguments =>
    obtain ⟨⟨⟨argument, one⟩, noTest, noTest'⟩, ho, ha⟩ := (every_textTest _ _ _).1 clear
    subst one
    rw [List.forall_mem_singleton] at ha noTest'
    obtain ⟨operand', argument'⟩ := forall_mem_pair.1 below
    unfold Expr.sql
    exact (operand' ho _).bind fun _ object => (argument' ha _).bind fun _ text =>
      .ok (readable_textTest object text method noTest noTest')
  | caseInsensitive function left right =>
    obtain ⟨-, hl, hr⟩ := (every_caseInsensitive _ _ _).1 clear
    obtain ⟨left', right'⟩ := forall_mem_pair.1 below
    unfold Expr.sql
    exact (left' hl _).bind fun _ l => (right' hr _).bind fun _ r =>
      .ok (readable_caseInsensitive l r function)
  | membership value list =>
    exact determined_membership (forall_mem_pair.1 below).1 (deeper list (by simp [children])) clear
      position
  | isNull operand negated =>
    obtain ⟨⟨-, noTest⟩, h⟩ := (every_isNull _ _).1 clear
    unfold Expr.sql
    exact (List.forall_mem_singleton.1 below h _).bind fun _ text =>
      .ok (readable_isNull text noTest negated)
  | object => cases clear.isObject_eq_false
  | array => cases position <;> exact .error

end Expr

/-- Over one table every clear expression is readable in its text. -/
theorem Expr.determined (single : scope.hasJoins = false) (e : Expr) : e.Determined scope := by
  induction e using Expr.grandchildren_induction with
  | step e below deeper => exact determined_of_children single below deeper

/-! ### Projections -/

namespace Sql

/-- A fragment whose text is read as what a member contributes to a row. -/
def ColumnReadable (scope : SqlScope) (m : String × Expr) (f : Fragment) : Prop :=
  ∀ (V : Type) (I : Interpretation V), I.Lawful → I.Binds scope.params →
    ColumnText I scope.dialect (f.chars scope.dialect) (I.projected m.1 m.2 (m.2.value I))

/-- A predicate that is turned into a truth value. -/
theorem exprText_truthValue {V : Type} {I : Interpretation V} {d : Dialect} {f : Fragment} {v : V}
    (h : ExprText I d (f.chars d) v) :
    ExprText I d ((Fragment.text "CASE WHEN " ++ f ++
      Fragment.text " THEN TRUE ELSE FALSE END").chars d)
      (I.choose [(v, I.truth true)] (I.truth false)) := by
  have yes := (atomText_truth (I := I) (d := d) true).unit.operand.expr
  have no := (atomText_truth (I := I) (d := d) false).unit.operand.expr
  have text := (unitText_caseWhen (.default h yes no)).operand.expr
  have spelt : " THEN TRUE ELSE FALSE END".toList = Word.thenResult.spell ++ ((Word.truth true).spell ++
      (Word.elseResult.spell ++ ((Word.truth false).spell ++ Word.endCase.spell))) := by decide
  simp only [Fragment.chars_append, Fragment.chars_text, List.append_assoc, spelt]
  exact text

theorem columnText_named {V : Type} {I : Interpretation V} {d : Dialect} {f : Fragment} {v : V}
    (h : ExprText I d (f.chars d) v) (key : String) :
    ColumnText I d ((f ++ Fragment.text (" AS " ++ quoteIdentifier key)).chars d) (some key, v) := by
  rw [Fragment.chars_append, Fragment.chars_text, String.toList_append]
  exact .named h key

theorem returns_sqlProperties {ps : List (String × Expr)}
    (h : ∀ m ∈ ps, ∀ position, Returns (m.2.Readable scope) (m.2.sql scope position)) :
    Returns (List.Forall₂ (ColumnReadable scope) ps) (Expr.sqlProperties scope ps) := by
  induction ps with
  | nil => exact .ok .nil
  | cons m rest ih =>
    rw [List.forall_mem_cons] at h
    obtain ⟨key, e⟩ := m
    have others {f : Fragment} (first : ColumnReadable scope (key, e) f) :
        Returns (List.Forall₂ (ColumnReadable scope) ((key, e) :: rest))
          (Expr.sqlProperties scope rest >>= fun parts => .ok (f :: parts)) :=
      (ih h.2).bind fun _ parts => .ok (.cons first parts)
    unfold Expr.sqlProperties
    dsimp only
    split
    · rename_i spread
      refine (h.1 .value).bind fun f readable => others fun V I lawful binds => ?_
      rw [Interpretation.projected, if_pos spread]
      exact .unnamed (readable V I lawful binds).expr
    · rename_i single
      split
      · exact .error
      · refine (h.1 .open).bind fun f readable => others fun V I lawful binds => ?_
        have text := (readable V I lawful binds).expr
        rw [Interpretation.projected, if_neg single]
        split
        · exact columnText_named (exprText_truthValue text) key
        · exact columnText_named text key

theorem columnTexts {V : Type} {I : Interpretation V} {ps : List (String × Expr)}
    {fs : List Fragment} (lawful : I.Lawful) (binds : I.Binds scope.params)
    (h : List.Forall₂ (ColumnReadable scope) ps fs) :
    List.Forall₂ (fun f c => ColumnText I scope.dialect (f.chars scope.dialect) c) fs
      (Expr.columnValues I ps) := by
  induction h with
  | nil => exact .nil
  | cons h _ ih => exact .cons (h V I lawful binds) ih

end Sql

namespace Expr

theorem members_eq {e : Expr} (h : e.isObject = false) : e.members = [("", e)] := by
  cases e with
  | object => cases h
  | _ => rfl

/-- The value of an expression is the row that its members make. -/
theorem value_eq_project {V : Type} {I : Interpretation V} (lawful : I.Lawful) (e : Expr) :
    e.value I = I.project (columnValues I e.members) := by
  cases object : e.isObject with
  | false =>
    rw [members_eq object]
    exact (lawful.project_unnamed _).symm
  | true =>
    cases e with
    | object => rfl
    | _ => cases object

/-- The text of an expression is read as the columns of its members. -/
theorem read_sql (single : scope.hasJoins = false) {e : Expr} (clear : ∀ m ∈ e.members, m.2.Every Clear)
    {position : Position} {f : Fragment} (written : e.sql scope position = .ok f) {V : Type}
    {I : Interpretation V} (lawful : I.Lawful) (binds : I.Binds scope.params) :
    readProjection I scope.dialect (f.chars scope.dialect) = some (columnValues I e.members) := by
  refine ListText.projection ?_
  -- What is no object is a projection of one column without a name.
  cases object : e.isObject with
  | false =>
    rw [members_eq object, List.forall_mem_singleton] at clear
    rw [members_eq object]
    exact .one (.unnamed (e.determined single clear position f written V I lawful binds).expr)
  | true =>
    cases e with
    | object properties =>
      have texts := returns_sqlProperties fun m hm => m.2.determined single (clear m hm)
      cases position with
      | predicate | value => cases written
      | «open» =>
        rw [Expr.sql] at written
        split at written
        · cases written
        · rename_i some
          obtain ⟨fs, parts, whole⟩ := outcome_bind_eq_ok.1 written
          cases whole
          refine listText_separated (columnTexts lawful binds (texts fs parts)) ?_
          rintro rfl
          cases texts [] parts
          exact some rfl
    | _ => cases object

/-- The expression of a lambda body, as a value or as a predicate. -/
def IsBody (s : Scope) (e : Expr) : Prop :=
  ∃ (node : Node) (s' : Scope), node.resolve false s = .ok e s' ∨
    (node.resolve true >>= Resolve.predicate) s = .ok e s'

/-- The resolver makes well-formed nodes only. -/
theorem formative_wellFormed : Formative WellFormed where
  name {e} h := by
    cases e with
    | column | excludedColumn | param | reference | allColumns | booleanColumn | booleanParam =>
      trivial
    | _ => cases h
  null := .inl rfl
  minusOne := .inr rfl
  isNull _ := trivial
  comparison _ _ := trivial
  arithmetic _ _ := trivial
  concat _ _ := trivial
  logical _ _ := trivial
  negation _ := trivial
  stringMethod _ := trivial
  caseInsensitive _ _ := trivial
  membership _ _ := trivial
  textTest _ _ := ⟨_, rfl⟩
  window ordered _ _ := ordered
  oneCondition _ _ := trivial
  moreConditions _ _ _ := trivial
  oneAlternative _ := List.cons_ne_nil _ _
  moreAlternatives h _ := List.append_ne_nil_of_left_ne_nil h _
  array _ := trivial
  noMember := trivial
  oneMember _ := trivial
  moreMembers _ _ := trivial

theorem IsBody.wellFormed {s : Scope} {e : Expr} (key : s.groupByKey.Every WellFormed)
    (h : e.IsBody s) : e.Every WellFormed := by
  have hands : s.Hands WellFormed := (Scope.hands_iff ⟨trivial, fun _ => trivial⟩).2 key
  obtain ⟨node, s', value | predicate⟩ := h
  · exact (node.forms_resolve formative_wellFormed false s e s' hands value).2.2
  · have forms := (node.forms_resolve formative_wellFormed true).bind fun _ formed =>
      Resolve.forms_predicate formative_wellFormed formed.2
    exact (forms s e s' hands predicate).2.2

theorem wellFormed_members {e : Expr} (h : e.Every WellFormed) :
    ∀ m ∈ e.members, m.2.Every WellFormed := by
  cases e with
  | object properties => exact ((every_object _).1 h).2
  | _ => exact List.forall_mem_singleton.2 h

end Expr

end

/-! ### An evaluation -/

/-- A value of a database; null stands for an unknown one. -/
inductive Datum where
  | null
  | truth (b : Bool)
  | number (n : Int)
  | text (s : String)
deriving DecidableEq

namespace Datum

/-- A comparison with an unknown value is unknown; only numbers have an order. -/
def compare (op : ComparisonOp) (a b : Datum) : Datum :=
  match op, a, b with
  | _, null, _ | _, _, null => null
  | .eq, a, b => truth (a = b)
  | .neq, a, b => truth (a ≠ b)
  | .gt, number m, number n => truth (m > n)
  | .gte, number m, number n => truth (m ≥ n)
  | .lt, number m, number n => truth (m < n)
  | .lte, number m, number n => truth (m ≤ n)
  | _, _, _ => null

/-- What one truth value decides is known, even if the other is not. -/
def connect (op : LogicalOp) (a b : Datum) : Datum :=
  let decisive := truth (op = .or)
  if a = decisive || b = decisive then decisive
  else if a = null || b = null then null
  else truth (op = .and)

def negate : Datum → Datum
  | truth b => truth (!b)
  | _ => null

def arithmetic (op : ArithmeticOp) (a b : Datum) : Datum :=
  match op, a, b with
  | .add, number m, number n => number (m + n)
  | .sub, number m, number n => number (m - n)
  | .mul, number m, number n => number (m * n)
  | .div, number m, number n => if n = 0 then null else number (m.tdiv n)
  | .mod, number m, number n => if n = 0 then null else number (m.tmod n)
  | _, _, _ => null

def concat : Datum → Datum → Datum
  | text a, text b => text (a ++ b)
  | _, _ => null

def convert (method : StringMethod) : Datum → Datum
  | text s =>
    match method with
    | .toLowerCase => text (s.map Char.toLower)
    | .toUpperCase => text (s.map Char.toUpper)
  | _ => null

def matchText (test : TextTest) (a b : Datum) : Datum :=
  match test, a, b with
  | .startsWith, text s, text part => truth (part.toList.isPrefixOf s.toList)
  | .endsWith, text s, text part => truth (part.toList.isSuffixOf s.toList)
  | .includes, text s, text part | .contains, text s, text part => truth (Text.mentions s part)
  | _, _, _ => null

def matchIgnoringCase (test : CaseInsensitiveTest) (a b : Datum) : Datum :=
  let lower := convert .toLowerCase
  match test with
  | .equals => compare .eq (lower a) (lower b)
  | .startsWith => matchText .startsWith (lower a) (lower b)
  | .endsWith => matchText .endsWith (lower a) (lower b)
  | .contains => matchText .contains (lower a) (lower b)

/-- Membership is a disjunction of equalities. -/
def member (a : Datum) (items : List Datum) : Datum :=
  items.foldr (fun item rest => connect .or (compare .eq a item) rest) (truth false)

/-- Evaluation on a row, which is its own group and window, with values for placeholders. -/
def evaluation (row placeholders : String → Datum) (params : Json) : Interpretation Datum where
  column _ name := row name
  excluded name := row name
  wholeRow _ := truth true
  placeholder := placeholders
  items name :=
    match params.get? name with
    | some (.arr items) =>
      (List.range items.length).map fun i => placeholders (name ++ "_" ++ toString i)
    | _ => []
  constant
    | .int n => number n
    | .str s => text s
    | .bool b => truth b
    | _ => null
  truth := truth
  arithmetic := arithmetic
  concat := concat
  convert := convert
  choose cases default := ((cases.find? (·.1 = truth true)).map Prod.snd).getD default
  firstPresent values := (values.find? (· ≠ null)).getD null
  aggregate function a := if function = .count then number (if a = null then 0 else 1) else a
  window _ _ _ := number 1
  compare := compare
  connect := connect
  negate := negate
  matchText := matchText
  matchIgnoringCase := matchIgnoringCase
  member := member
  isNull a negated := truth ((a = null) ≠ negated)
  project
    | [(none, a)] => a
    | _ => truth true
  list _ := truth true

theorem lawful_evaluation (row placeholders : String → Datum) (params : Json) :
    (evaluation row placeholders params).Lawful where
  concat_assoc a b c := by
    cases a <;> cases b <;> cases c <;> try rfl
    exact congrArg text String.append_assoc
  includes_eq := by
    funext a b
    cases a <;> cases b <;> rfl
  ignoringCase_eq test _ _ := by cases test <;> rfl
  member_nil _ := rfl
  negate_false := rfl
  project_unnamed _ := rfl

theorem binds_evaluation (row placeholders : String → Datum) (params : Json) :
    (evaluation row placeholders params).Binds params := by
  intro name items found
  simp [evaluation, found]

end Datum

/-- Over one table, lambda bodies that are written in the same way have the same value, whatever row
and parameters they are evaluated on. -/
theorem sql_determines_value {scope : SqlScope} (single : scope.hasJoins = false) {s : Scope}
    (key : s.groupByKey.Every Expr.WellFormed) {e e' : Expr} (body : e.IsBody s) (body' : e'.IsBody s)
    (legible : ∀ m ∈ e.members, m.2.Every Expr.Legible)
    (legible' : ∀ m ∈ e'.members, m.2.Every Expr.Legible) {position position' : Position}
    {f f' : Fragment} (written : e.sql scope position = .ok f)
    (written' : e'.sql scope position' = .ok f')
    (same : f.render scope.dialect = f'.render scope.dialect) {V : Type} (I : Interpretation V)
    (lawful : I.Lawful) (binds : I.Binds scope.params) : e.value I = e'.value I := by
  have formed := Expr.wellFormed_members (body.wellFormed key)
  have formed' := Expr.wellFormed_members (body'.wellFormed key)
  have read := Expr.read_sql single (fun m hm => Expr.every_clear (formed m hm) (legible m hm)) written
    lawful binds
  have read' := Expr.read_sql single (fun m hm => Expr.every_clear (formed' m hm) (legible' m hm))
    written' lawful binds
  have chars : f.chars scope.dialect = f'.chars scope.dialect := congrArg String.toList same
  rw [chars] at read
  have columns := Option.some.inj (read.symm.trans read')
  rw [Expr.value_eq_project lawful e, columns, ← Expr.value_eq_project lawful e']

/-- The scope of a lambda over one row `u`. -/
def rowScope : Scope :=
  { bindings := { tables := ["u"] } }

/-- `u.name` -/
def rowNode (name : String) : Node :=
  (Node.identifier "u").dot name

/-- Statements over one table, without parameters. -/
def tableScope : SqlScope :=
  { dialect := .postgres, params := .obj [] }

/-- The name of a person, written in two parts and the last name. -/
def personRow (name : String) : Datum :=
  match name with
  | "first" => .text "ADA "
  | "middle" => .text "KING "
  | "last" => .text "Lovelace"
  | _ => .null

/-- `(u.first.toLowerCase() + u.middle.toLowerCase()) + u.last` -/
def fullName : Expr :=
  .concat (.concat (.stringMethod .toLowerCase (.column "first" "" none))
    (.stringMethod .toLowerCase (.column "middle" "" none))) (.column "last" "" none)

/-- `u.first.toLowerCase() + (u.middle.toLowerCase() + u.last)` -/
def regroupedName : Expr :=
  .concat (.stringMethod .toLowerCase (.column "first" "" none))
    (.concat (.stringMethod .toLowerCase (.column "middle" "" none)) (.column "last" "" none))

/-- How a concatenation is grouped stays out of its text, and of its value. -/
theorem sql_determines_value_fullName :
    fullName.IsBody rowScope ∧ regroupedName.IsBody rowScope ∧
      ∃ f f', fullName.sql tableScope .open = .ok f ∧ regroupedName.sql tableScope .open = .ok f' ∧
        f.render .postgres = f'.render .postgres ∧
        fullName.value (Datum.evaluation personRow (fun _ => .null) tableScope.params) =
          regroupedName.value (Datum.evaluation personRow (fun _ => .null) tableScope.params) := by
  have body : fullName.IsBody rowScope :=
    ⟨.binary "+" (.binary "+" ((rowNode "first").invoke "toLowerCase" [])
      ((rowNode "middle").invoke "toLowerCase" [])) (rowNode "last"), _, .inl rfl⟩
  have body' : regroupedName.IsBody rowScope :=
    ⟨.binary "+" ((rowNode "first").invoke "toLowerCase" [])
      (.binary "+" ((rowNode "middle").invoke "toLowerCase" []) (rowNode "last")), _, .inl rfl⟩
  refine ⟨body, body', _, _, rfl, rfl, by decide +kernel, ?_⟩
  exact sql_determines_value rfl Expr.every_absent body body'
    (by simp [fullName, Expr.members, Expr.Legible, Expr.isTest])
    (by simp [regroupedName, Expr.members, Expr.Legible, Expr.isTest])
    (show fullName.sql tableScope .open = .ok _ from rfl)
    (show regroupedName.sql tableScope .open = .ok _ from rfl) (by decide +kernel) _
    (Datum.lawful_evaluation _ _ _) (Datum.binds_evaluation _ _ _)

/-- `u.a === (u.b === null)` -/
def comparedNullTest : Expr :=
  .comparison .eq (.column "a" "" none) (.isNull (.column "b" "" none) false)

/-- `(u.a === u.b) === null` -/
def nullTestedComparison : Expr :=
  .isNull (.comparison .eq (.column "a" "" none) (.column "b" "" none)) false

/-- A test of a test is written like another one that has a different value. -/
theorem nested_tests_share_text :
    comparedNullTest.IsBody rowScope ∧ nullTestedComparison.IsBody rowScope ∧
      (∃ f f', comparedNullTest.sql tableScope .predicate = .ok f ∧
        nullTestedComparison.sql tableScope .predicate = .ok f' ∧
        f.render .postgres = f'.render .postgres) ∧
      ∃ I : Interpretation Datum, I.Lawful ∧ I.Binds tableScope.params ∧
        comparedNullTest.value I ≠ nullTestedComparison.value I := by
  have body : comparedNullTest.IsBody rowScope :=
    ⟨.binary "===" (rowNode "a") (.binary "===" (rowNode "b") (.literal .null)), _, .inr rfl⟩
  have body' : nullTestedComparison.IsBody rowScope :=
    ⟨.binary "===" (.binary "===" (rowNode "a") (rowNode "b")) (.literal .null), _, .inr rfl⟩
  refine ⟨body, body', ⟨_, _, rfl, rfl, by decide +kernel⟩, ?_⟩
  refine ⟨Datum.evaluation (fun name => if name = "a" then .truth false else .null) (fun _ => .null) _,
    Datum.lawful_evaluation _ _ _, Datum.binds_evaluation _ _ _, ?_⟩
  decide

end FluentQuery
