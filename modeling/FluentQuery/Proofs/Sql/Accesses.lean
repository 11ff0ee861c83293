import Mathlib.Data.List.TakeWhile
import FluentQuery.Proofs.Data.Joined
import FluentQuery.Proofs.Policy.ParsedFilter
import FluentQuery.Proofs.Sql.Spelling
import FluentQuery.Sql.Statement
import FluentQuery.Query

/-!
# Placeholders of parameter accesses

An access such as `p.filter.active[0]` is a value, and where a truth is wanted it is read as a node of
its own, under rules of its own: `ParamAccess.value` and `ParamAccess.truth`.  What an access is shown
as therefore depends on the place it stands in (`AccessPlace.placeholder`).  Main statement:
`accesses_are_shown_alike_iff`.
-/

namespace FluentQuery

set_option autoImplicit false

/-! ### Accesses -/

/-- An access to a parameter: its root, the dotted path from there, and the index at its end. -/
structure ParamAccess where
  root : String
  property : String
  index : Option Int

namespace ParamAccess

/-- The access as a value. -/
def value (a : ParamAccess) : Expr :=
  .param a.root a.property a.index

/-- The access as a truth, which has no index. -/
def truth (a : ParamAccess) : Expr :=
  .booleanParam a.root a.property

/-- The access goes over one name, and takes the value there as it is. -/
def IsPlain (a : ParamAccess) : Prop :=
  a.index = none ∧ '.' ∉ a.property.toList

end ParamAccess

/-- In a scope, a chain of member accesses leads to a parameter. -/
structure Scope.Reads (s : Scope) (node : Node) (a : ParamAccess) : Prop where
  isMember : ∃ receiver property computed, node = .member receiver property computed
  leads : ∃ root path index, node.memberPath [] none = .ok (.identifier root, path, index) ∧
    s.access root path index = .ok (.expr a.value)

namespace Scope.Reads

variable {s s' : Scope} {node : Node} {a : ParamAccess}

theorem isLiteral (h : s.Reads node a) : node.isLiteral = false := by
  obtain ⟨receiver, property, computed, rfl⟩ := h.isMember
  rfl

theorem isNullLiteral (h : s.Reads node a) : node.isNullLiteral = false := by
  obtain ⟨receiver, property, computed, rfl⟩ := h.isMember
  rfl

/-- Automatic parameters do not matter to where an access leads. -/
theorem mints (h : s.Reads node a) (minted : s.Mints s') : s'.Reads node a := by
  refine ⟨h.isMember, ?_⟩
  obtain ⟨root, path, index, hpath, found⟩ := h.leads
  refine ⟨root, path, index, hpath, ?_⟩
  induction minted with
  | refl => exact found
  | mint _ _ _ _ ih => exact ih

theorem resolve (h : s.Reads node a) (isPredicate : Bool) :
    node.resolve isPredicate s = .ok a.value s := by
  obtain ⟨root, path, index, hpath, found⟩ := h.leads
  obtain ⟨receiver, property, computed, rfl⟩ := h.isMember
  have read : Resolve.member (.member receiver property computed) s = .ok a.value s := by
    unfold Resolve.member
    rw [hpath]
    show (Resolve.ofExcept (s.access root path index) >>= fun x => _) s = _
    rw [found]
    rfl
  rw [Node.resolve]
  exact read

end Scope.Reads

/-! ### Places -/

/-- How a connective is written in the body of a lambda. -/
def LogicalOp.symbol : LogicalOp → String
  | and => "&&"
  | or => "||"

/-- A place for an access in the body of a lambda, with what stands beside it. -/
inductive AccessPlace where
  /-- A predicate by itself. -/
  | alone
  /-- The operand of a negation. -/
  | negated
  | connectedLeft (op : LogicalOp) (other : Node)
  | connectedRight (op : LogicalOp) (other : Node)
  /-- The test of a conditional. -/
  | tested (consequent alternate : Node)
  | comparedLeft (symbol : String) (op : ComparisonOp)
      (known : ComparisonOp.ofSymbol? symbol = some op) (other : Node)
  | comparedRight (symbol : String) (op : ComparisonOp)
      (known : ComparisonOp.ofSymbol? symbol = some op) (other : Node)

namespace AccessPlace

/-- The node in which an access stands in the place. -/
def node (place : AccessPlace) (access : Node) : Node :=
  match place with
  | alone => access
  | negated => .unary "!" access
  | connectedLeft op other => .logical op.symbol access other
  | connectedRight op other => .logical op.symbol other access
  | tested consequent alternate => .conditional access consequent alternate
  | comparedLeft symbol _ _ other => .binary symbol access other
  | comparedRight symbol _ _ other => .binary symbol other access

/-- Whether a truth is wanted in the place. -/
def isTruth : AccessPlace → Bool
  | comparedLeft _ _ _ _ | comparedRight _ _ _ _ => false
  | _ => true

/-- The expression of the node in which an access stands in the place. -/
def resolve (place : AccessPlace) (access : Node) : Resolve Expr :=
  match place with
  | alone => do Resolve.predicate (← access.resolve true)
  | place => (place.node access).resolve true

/-- What an access becomes in the place. -/
def leaf (place : AccessPlace) (a : ParamAccess) : Expr :=
  if place.isTruth then a.truth else a.value

/-- The name of the placeholder that an access has in the place. -/
def placeholder (place : AccessPlace) (a : ParamAccess) : String :=
  if place.isTruth then Expr.booleanPlaceholderName a.root a.property
  else Sql.parameterName a.root a.property a.index

/-- An access in the place becomes its leaf, whose placeholder stands between others that do not depend
on the access. -/
def Shows (place : AccessPlace) : Prop :=
  ∀ (s : Scope) (scope : SqlScope), ∃ before after : List String,
    ∀ (access : Node) (a : ParamAccess), s.Reads access a →
      ∀ e s', place.resolve access s = .ok e s' → place.leaf a ∈ e.walk ∧
        ∀ position f, e.sql scope position = .ok f →
          f.placeholders = before ++ place.placeholder a :: after

end AccessPlace

namespace Resolve

variable {s s' : Scope} {e e' : Expr} {scope : SqlScope}

/-- The text of what some work yields, and none if it fails. -/
def text (scope : SqlScope) (position : Sql.Position) (work : Resolve Expr) (s : Scope) : Fragment :=
  match work s with
  | .ok e _ => ((e.sql scope position).toOption).getD []
  | .error _ _ => []

theorem text_eq {position : Sql.Position} {work : Resolve Expr} {f : Fragment}
    (run : work s = .ok e s') (sql : e.sql scope position = .ok f) :
    text scope position work s = f := by
  rw [text, run]
  simp only [sql, Except.toOption, Option.getD_some]

theorem predicate_eq_ok : predicate e s = .ok e' s' ↔ e.toBoolean = .ok e' ∧ s' = s := by
  unfold predicate
  cases e.toBoolean with
  | ok x =>
    constructor
    · rintro ⟨⟩
      exact ⟨rfl, rfl⟩
    · rintro ⟨⟨⟩, rfl⟩
      rfl
  | error fault =>
    constructor
    · rintro ⟨⟩
    · rintro ⟨⟨⟩, -⟩

theorem mints_of_predicate {node : Node} {isPredicate : Bool}
    (run : (node.resolve isPredicate >>= predicate) s = .ok e s') : s.Mints s' := by
  obtain ⟨value, t, first, second⟩ := bind_eq_ok.1 run
  rw [(predicate_eq_ok.1 second).2]
  exact (Node.tidy_resolve _ _).mints first

end Resolve

namespace AccessPlace

open Resolve Fragment

variable {s s' : Scope} {access : Node} {a : ParamAccess}

/-- Where a truth is wanted, the index of an access is dropped. -/
theorem predicate_of_reads (h : s.Reads access a) (isPredicate : Bool) :
    (access.resolve isPredicate >>= predicate) s = .ok a.truth s :=
  bind_eq_ok.2 ⟨a.value, s, h.resolve isPredicate, rfl⟩

theorem shows_alone : alone.Shows := by
  refine fun s scope => ⟨[], [], fun access a h e s' run => ?_⟩
  cases (predicate_of_reads h true).symm.trans run
  refine ⟨List.mem_singleton_self _, ?_⟩
  rintro position f ⟨⟩
  rfl

theorem shows_negated : negated.Shows := by
  refine fun s scope => ⟨[], [], fun access a h e s' run => ?_⟩
  have whole : negated.resolve access s = .ok (.negation a.truth) s :=
    bind_eq_ok.2 ⟨a.value, s, h.resolve true, rfl⟩
  cases whole.symm.trans run
  refine ⟨List.mem_cons_of_mem _ (List.mem_singleton_self _), ?_⟩
  rintro position f ⟨⟩
  unfold Sql.negation
  split <;> rfl

/-! ### Connectives -/

theorem resolve_connective (op : LogicalOp) (left right : Node) :
    (Node.logical op.symbol left right).resolve true = do
      let l ← left.resolve true >>= predicate
      let r ← right.resolve true >>= predicate
      return .logical op l r := by
  cases op with
  | and | or => simp only [Node.resolve, LogicalOp.symbol, logical, connective, bind_assoc, if_true]

theorem sql_logical_eq_ok {op : LogicalOp} {l r : Expr} {scope : SqlScope} {position : Sql.Position}
    {f : Fragment} (h : (Expr.logical op l r).sql scope position = .ok f) :
    ∃ fl fr, l.sql scope .predicate = .ok fl ∧ r.sql scope .predicate = .ok fr ∧
      f.placeholders = fl.placeholders ++ fr.placeholders := by
  rw [Expr.sql] at h
  obtain ⟨fr, right, h⟩ := outcome_bind_eq_ok.1 h
  obtain ⟨fl, left, h⟩ := outcome_bind_eq_ok.1 h
  cases h
  exact ⟨fl, fr, left, right, by simp⟩

theorem shows_connectedLeft (op : LogicalOp) (other : Node) : (connectedLeft op other).Shows := by
  intro s scope
  refine ⟨[], (text scope .predicate (other.resolve true >>= predicate) s).placeholders, ?_⟩
  intro access a h e s' run
  rw [show (connectedLeft op other).resolve access = _ from resolve_connective op access other] at run
  obtain ⟨l, t, left, run⟩ := bind_eq_ok.1 run
  obtain ⟨r, t', right, run⟩ := bind_eq_ok.1 run
  cases run
  cases (predicate_of_reads h true).symm.trans left
  refine ⟨by simp [Expr.walk, leaf, isTruth, ParamAccess.truth], fun position f sql => ?_⟩
  obtain ⟨fl, fr, first, second, shown⟩ := sql_logical_eq_ok sql
  cases first
  rw [shown, text_eq right second]
  rfl

theorem shows_connectedRight (op : LogicalOp) (other : Node) : (connectedRight op other).Shows := by
  intro s scope
  refine ⟨(text scope .predicate (other.resolve true >>= predicate) s).placeholders, [], ?_⟩
  intro access a h e s' run
  rw [show (connectedRight op other).resolve access = _ from resolve_connective op other access] at run
  obtain ⟨l, t, left, run⟩ := bind_eq_ok.1 run
  obtain ⟨r, t', right, run⟩ := bind_eq_ok.1 run
  cases run
  cases (predicate_of_reads (h.mints (mints_of_predicate left)) true).symm.trans right
  refine ⟨by simp [Expr.walk, leaf, isTruth, ParamAccess.truth], fun position f sql => ?_⟩
  obtain ⟨fl, fr, first, second, shown⟩ := sql_logical_eq_ok sql
  cases second
  rw [shown, text_eq left first]
  rfl

/-! ### Conditionals -/

theorem inValue_eq_ok {position : Sql.Position} {type : String} {rendered : Except SqlFault Fragment}
    {f : Fragment} (h : Sql.inValue position type rendered = .ok f) : rendered = .ok f := by
  cases position with
  | predicate => cases h
  | value | «open» => exact h

/-- The end of a conditional. -/
def elseSql (scope : SqlScope) (elseResult : Expr) : Except SqlFault Fragment :=
  if elseResult.isAbsent then .ok (Fragment.text " END")
  else do
    let result ← elseResult.sql scope .open
    return Fragment.text " ELSE " ++ result ++ Fragment.text " END"

theorem sql_caseWhen_eq_ok {test c elseResult : Expr} {conditions : List (Expr × Expr)}
    {scope : SqlScope} {f : Fragment} :
    (Expr.caseWhen ((test, c) :: conditions) elseResult).sql scope .open = .ok f ↔
      ∃ ft fc rest last, test.sql scope .predicate = .ok ft ∧ c.sql scope .open = .ok fc ∧
        Expr.sqlConditions scope conditions = .ok rest ∧ elseSql scope elseResult = .ok last ∧
        f = Fragment.text "CASE " ++ separated " "
          ((Fragment.text "WHEN " ++ ft ++ Fragment.text " THEN " ++ fc) :: rest) ++ last := by
  rw [Expr.sql, Expr.sqlConditions]
  unfold elseSql
  simp only [Sql.inValue, List.isEmpty_cons, Bool.false_eq_true, if_false, bind_assoc, pure_bind,
    outcome_bind_eq_ok]
  cases elseResult.isAbsent with
  | true =>
    simp only [if_true]
    constructor
    · rintro ⟨fc, hc, ft, ht, rest, hrest, ⟨⟩⟩
      exact ⟨ft, fc, rest, _, ht, hc, hrest, rfl, rfl⟩
    · rintro ⟨ft, fc, rest, _, ht, hc, hrest, ⟨⟩, rfl⟩
      exact ⟨fc, hc, ft, ht, rest, hrest, rfl⟩
  | false =>
    simp only [Bool.false_eq_true, if_false, outcome_bind_eq_ok]
    constructor
    · rintro ⟨fc, hc, ft, ht, rest, hrest, result, last, ⟨⟩⟩
      exact ⟨ft, fc, rest, _, ht, hc, hrest, ⟨result, last, rfl⟩, by simp only [List.append_assoc]⟩
    · rintro ⟨ft, fc, rest, _, ht, hc, hrest, ⟨result, last, ⟨⟩⟩, rfl⟩
      refine ⟨fc, hc, ft, ht, rest, hrest, result, last, ?_⟩
      simp only [List.append_assoc]
      rfl

/-- What a conditional shows beside the placeholders of its test is shown for any other test too. -/
theorem sql_conditional_eq_ok {test c alternate : Expr} {scope : SqlScope} {position : Sql.Position}
    {f : Fragment} (h : (Expr.conditional test c alternate).sql scope position = .ok f) :
    ∃ ft g, test.sql scope .predicate = .ok ft ∧
      (Expr.conditional (.booleanConstant true) c alternate).sql scope .open = .ok g ∧
        f.placeholders = ft.placeholders ++ g.placeholders := by
  have other {conditions : List (Expr × Expr)} {elseResult : Expr}
      (h : (Expr.caseWhen ((test, c) :: conditions) elseResult).sql scope position = .ok f) :
      ∃ ft g, test.sql scope .predicate = .ok ft ∧
        (Expr.caseWhen ((.booleanConstant true, c) :: conditions) elseResult).sql scope .open =
          .ok g ∧ f.placeholders = ft.placeholders ++ g.placeholders := by
    rw [Expr.sql] at h
    have h := inValue_eq_ok h
    obtain ⟨ft, fc, rest, last, tested, result, later, ends, rfl⟩ :=
      sql_caseWhen_eq_ok.1
        (h : (Expr.caseWhen ((test, c) :: conditions) elseResult).sql scope .open = _)
    exact ⟨ft, _, tested, sql_caseWhen_eq_ok.2 ⟨_, fc, rest, last, rfl, result, later, ends, rfl⟩,
      by simp⟩
  unfold Expr.conditional at h ⊢
  split at h
  · exact other h
  · exact other h

theorem shows_tested (consequent alternate : Node) : (tested consequent alternate).Shows := by
  intro s scope
  refine ⟨[], (text scope .open (do
    let c ← consequent.resolve false
    let e ← alternate.resolve false
    return .conditional (.booleanConstant true) c e) s).placeholders, ?_⟩
  intro access a h e s' run
  obtain ⟨test, t, first, run⟩ := bind_eq_ok.1
    (show (access.resolve true >>= fun test => ofExcept test.testOf >>= fun test => do
      let c ← consequent.resolve false
      let e ← alternate.resolve false
      return Expr.conditional test c e) s = .ok e s' from run)
  cases (h.resolve true).symm.trans first
  obtain ⟨test, t, second, run⟩ := bind_eq_ok.1 run
  cases second
  obtain ⟨c, t, third, run⟩ := bind_eq_ok.1 run
  obtain ⟨e', t', fourth, run⟩ := bind_eq_ok.1 run
  cases run
  have beside : (do
      let c ← consequent.resolve false
      let e ← alternate.resolve false
      return Expr.conditional (.booleanConstant true) c e : Resolve Expr) s =
      .ok (.conditional (.booleanConstant true) c e') s' :=
    bind_eq_ok.2 ⟨c, t, third, bind_eq_ok.2 ⟨e', s', fourth, rfl⟩⟩
  refine ⟨?_, fun position f sql => ?_⟩
  · unfold Expr.conditional
    split <;> simp [Expr.walk, Expr.walkConditions, leaf, isTruth, ParamAccess.truth]
  · obtain ⟨ft, g, tested, rest, shown⟩ := sql_conditional_eq_ok sql
    cases tested
    rw [shown, text_eq beside rest]
    rfl

/-! ### Comparisons -/

/-- The placeholders of an operand that a comparison shows beside another one: a null is not shown. -/
def operandPlaceholders (d : Dialect) (op : ComparisonOp) (f : Fragment) : List String :=
  if (op = .eq ∨ op = .neq) ∧ f.render d = "NULL" then [] else f.placeholders

section

variable {d : Dialect} {f : Fragment} (there : f.render d ≠ "NULL")

include there

theorem placeholders_comparison_left (op : ComparisonOp) (g : Fragment) :
    (Sql.comparison d op f g).placeholders = f.placeholders ++ operandPlaceholders d op g := by
  unfold Sql.comparison operandPlaceholders
  cases op <;> by_cases null : g.render d = "NULL" <;> simp [null, there]

theorem placeholders_comparison_right (op : ComparisonOp) (g : Fragment) :
    (Sql.comparison d op g f).placeholders = operandPlaceholders d op g ++ f.placeholders := by
  unfold Sql.comparison operandPlaceholders
  cases op <;> by_cases null : g.render d = "NULL" <;> simp [null, there]

end

/-- A literal beside an access remembers no column. -/
theorem operand_beside (node : Node) (a : ParamAccess) :
    operand node a.value (node.resolve false) = node.resolve false := by
  cases node with
  | literal value =>
    rw [operand, Node.resolve]
    cases value <;> rfl
  | _ => rfl

/-- An access beside something else is a value. -/
theorem operand_access (h : s.Reads access a) (peer : Expr) :
    operand access peer (access.resolve false) = access.resolve false := by
  obtain ⟨receiver, property, computed, rfl⟩ := h.isMember
  rfl

/-- Of a comparison that succeeds with an access on one side, either the other side is null and is
tested for, or both are values, resolved one after the other. -/
theorem comparison_cases {op : ComparisonOp} {whole left right : Node} {e : Expr}
    (run : comparison op whole left right (left.resolve false) (right.resolve false) s = .ok e s')
    (isNull : (left.isNullLiteral && right.isNullLiteral) = false) :
    (∃ operand, (if left.isNullLiteral then right else left).resolve false s = .ok operand s' ∧
        (left.isNullLiteral || right.isNullLiteral) = true ∧ e = .isNull operand (op = .neq)) ∨
      ∃ l r, operands left right (left.resolve false) (right.resolve false) s = .ok (l, r) s' ∧
        (left.isNullLiteral || right.isNullLiteral) = false ∧ e = .comparison op l r := by
  unfold comparison at run
  rw [isNull] at run
  simp only [Bool.false_eq_true, if_false] at run
  split at run
  · rename_i null
    split at run
    · cases run
    · split at run
      · rename_i side
        obtain ⟨operand, t, first, run⟩ := bind_eq_ok.1 run
        cases run
        exact .inl ⟨operand, by rwa [if_pos side], null, rfl⟩
      · rename_i side
        obtain ⟨operand, t, first, run⟩ := bind_eq_ok.1 run
        cases run
        exact .inl ⟨operand, by rwa [if_neg side], null, rfl⟩
  · rename_i value
    obtain ⟨⟨l, r⟩, t, first, run⟩ := bind_eq_ok.1 run
    cases run
    exact .inr ⟨l, r, first, by simpa using value, rfl⟩

theorem resolve_comparison {symbol : String} {op : ComparisonOp}
    (known : ComparisonOp.ofSymbol? symbol = some op) (left right : Node) :
    (Node.binary symbol left right).resolve true =
      comparison op (.binary symbol left right) left right (left.resolve false)
        (right.resolve false) := by
  rw [Node.resolve, binary, known]

theorem shows_comparedLeft (symbol : String) (op : ComparisonOp)
    (known : ComparisonOp.ofSymbol? symbol = some op) (other : Node) :
    (comparedLeft symbol op known other).Shows := by
  intro s scope
  refine ⟨[], if other.isNullLiteral then []
    else operandPlaceholders scope.dialect op (text scope .open (other.resolve false) s), ?_⟩
  intro access a h e s' run
  rw [show (comparedLeft symbol op known other).resolve access = _
    from resolve_comparison known access other] at run
  rcases comparison_cases run (by rw [h.isNullLiteral]; rfl) with
    ⟨operand, first, null, rfl⟩ | ⟨l, r, both, value, rfl⟩
  · rw [h.isNullLiteral] at first null
    cases (h.resolve false).symm.trans first
    refine ⟨by simp [Expr.walk, leaf, isTruth, ParamAccess.value], ?_⟩
    rintro position f ⟨⟩
    rw [if_pos (show other.isNullLiteral = true from null)]
    simp [placeholder, isTruth, placeholders, Fragment.placeholder, Fragment.text]
  · rw [h.isNullLiteral] at value
    unfold operands at both
    rw [h.isLiteral] at both
    obtain ⟨l', t, first, both⟩ := bind_eq_ok.1 both
    obtain ⟨r', t', second, both⟩ := bind_eq_ok.1 both
    cases both
    cases (h.resolve false).symm.trans first
    rw [operand_beside] at second
    refine ⟨by simp [Expr.walk, leaf, isTruth, ParamAccess.value], fun position f sql => ?_⟩
    rw [Expr.sql] at sql
    obtain ⟨fl, left, sql⟩ := outcome_bind_eq_ok.1 sql
    obtain ⟨fr, right, sql⟩ := outcome_bind_eq_ok.1 sql
    cases left
    cases sql
    rw [placeholders_comparison_left (Sql.render_placeholder_ne_null _ _), text_eq second right,
      if_neg (by simpa using value)]
    rfl

theorem shows_comparedRight (symbol : String) (op : ComparisonOp)
    (known : ComparisonOp.ofSymbol? symbol = some op) (other : Node) :
    (comparedRight symbol op known other).Shows := by
  intro s scope
  refine ⟨if other.isNullLiteral then []
    else operandPlaceholders scope.dialect op (text scope .open (other.resolve false) s), [], ?_⟩
  intro access a h e s' run
  rw [show (comparedRight symbol op known other).resolve access = _
    from resolve_comparison known other access] at run
  have shown {l : Expr} {f : Fragment} {position : Sql.Position} {t : Scope}
      (value : other.isNullLiteral = false) (resolved : other.resolve false s = .ok l t)
      (sql : (Expr.comparison op l a.value).sql scope position = .ok f) :
      f.placeholders = (if other.isNullLiteral then []
        else operandPlaceholders scope.dialect op (text scope .open (other.resolve false) s)) ++
          (comparedRight symbol op known other).placeholder a :: [] := by
    rw [Expr.sql] at sql
    obtain ⟨fl, left, sql⟩ := outcome_bind_eq_ok.1 sql
    obtain ⟨fr, right, sql⟩ := outcome_bind_eq_ok.1 sql
    cases right
    cases sql
    rw [placeholders_comparison_right (Sql.render_placeholder_ne_null _ _), text_eq resolved left,
      if_neg (by simpa using value)]
    rfl
  rcases comparison_cases run (by rw [h.isNullLiteral, Bool.and_false]) with
    ⟨operand, first, null, rfl⟩ | ⟨l, r, both, value, rfl⟩
  · rw [h.isNullLiteral, Bool.or_false] at null
    rw [null] at first
    cases (h.resolve false).symm.trans first
    refine ⟨by simp [Expr.walk, leaf, isTruth, ParamAccess.value], ?_⟩
    rintro position f ⟨⟩
    rw [if_pos null]
    simp [placeholder, isTruth, placeholders, Fragment.placeholder, Fragment.text]
  · rw [h.isNullLiteral, Bool.or_false] at value
    unfold operands at both
    split at both
    · -- A literal is resolved after the access that it is compared with.
      obtain ⟨r', t, first, both⟩ := bind_eq_ok.1 both
      obtain ⟨l', t', second, both⟩ := bind_eq_ok.1 both
      cases both
      cases (h.resolve false).symm.trans first
      rw [operand_beside] at second
      exact ⟨by simp [Expr.walk, leaf, isTruth, ParamAccess.value], fun _ _ => shown value second⟩
    · obtain ⟨l', t, first, both⟩ := bind_eq_ok.1 both
      obtain ⟨r', t', second, both⟩ := bind_eq_ok.1 both
      cases both
      rw [operand_access h] at second
      cases ((h.mints ((Node.tidy_resolve _ _).mints first)).resolve false).symm.trans second
      exact ⟨by simp [Expr.walk, leaf, isTruth, ParamAccess.value], fun _ _ => shown value first⟩

/-- Whatever stands beside an access, the place alone decides what it is shown as. -/
theorem shows (place : AccessPlace) : place.Shows := by
  cases place with
  | alone => exact shows_alone
  | negated => exact shows_negated
  | connectedLeft op other => exact shows_connectedLeft op other
  | connectedRight op other => exact shows_connectedRight op other
  | tested consequent alternate => exact shows_tested consequent alternate
  | comparedLeft symbol op known other => exact shows_comparedLeft symbol op known other
  | comparedRight symbol op known other => exact shows_comparedRight symbol op known other

/-! ### Names -/

theorem dot_notMem_leafName (path : String) : '.' ∉ (Expr.leafName path).toList := by
  rw [Expr.leafName, String.toList_ofList, List.mem_reverse]
  intro h
  simpa using List.mem_takeWhile_imp h

theorem leafName_eq_self {path : String} (h : '.' ∉ path.toList) : Expr.leafName path = path := by
  rw [Expr.leafName, List.takeWhile_eq_self_iff.2, List.reverse_reverse, String.ofList_toList]
  intro c hc
  simpa using fun (dot : c = '.') => h (dot ▸ List.mem_reverse.1 hc)

theorem append_index_ne (name : String) (i : Int) : name ++ "_" ++ toString i ≠ name := by
  intro h
  have length := congrArg (fun s : String => s.toList.length) h
  simp only [String.toList_append, List.length_append] at length
  have one : "_".toList.length = 1 := rfl
  omega

/-- The dots and the index of an access are what makes its two placeholders differ. -/
theorem booleanPlaceholderName_eq_iff (a : ParamAccess) :
    Expr.booleanPlaceholderName a.root a.property =
      Sql.parameterName a.root a.property a.index ↔ a.IsPlain := by
  obtain ⟨root, property, index⟩ := a
  unfold Expr.booleanPlaceholderName Sql.parameterName Expr.placeholderName ParamAccess.IsPlain
  by_cases empty : property.isEmpty = true
  · have none' : property = "" := by simpa using empty
    subst none'
    cases index with
    | none => simp
    | some i => simpa using (append_index_ne root i).symm
  · simp only [empty, Bool.false_eq_true, if_false]
    by_cases dotted : '.' ∈ property.toList
    · refine ⟨fun h => absurd dotted ?_, fun h => absurd dotted h.2⟩
      rw [h]
      cases index with
      | none => exact dot_notMem_leafName property
      | some i =>
        simp only [String.toList_append, List.mem_append, not_or]
        exact ⟨⟨dot_notMem_leafName property, by decide⟩, Text.notMem_numeral i (by decide)⟩
    · rw [leafName_eq_self dotted]
      cases index with
      | none => simp [dotted]
      | some i => simpa using (append_index_ne property i).symm

/-- Two places show an access alike, unless they read it differently and it is not plain. -/
theorem placeholder_eq_iff (place place' : AccessPlace) (a : ParamAccess) :
    place.placeholder a = place'.placeholder a ↔ place.isTruth = place'.isTruth ∨ a.IsPlain := by
  unfold placeholder
  cases place.isTruth <;> cases place'.isTruth <;>
    simp [booleanPlaceholderName_eq_iff, eq_comm (a := Sql.parameterName _ _ _)]

end AccessPlace

/-! ### Written accesses -/

namespace Node

/-- The names of an access, one after the other. -/
def membersOf (root : Node) (names : List String) : Node :=
  names.foldl (fun receiver name => .member receiver (.identifier name) false) root

/-- An access as it is written: names after the root, and perhaps an index. -/
def writtenAccess (root : String) (names : List String) : Option Int → Node
  | none => membersOf (.identifier root) names
  | some i => .member (membersOf (.identifier root) names) (.literal (.int i)) true

theorem memberPath_membersOf (root : Node) (names path : List String) (index : Option Int) :
    (membersOf root names).memberPath path index = root.memberPath (names ++ path) index := by
  induction names generalizing root with
  | nil => rfl
  | cons name rest ih => exact ih _

theorem memberPath_writtenAccess (root : String) (names : List String) (index : Option Int) :
    (writtenAccess root names index).memberPath [] none =
      .ok (.identifier root, names, index.map (Json.wrapSigned 32)) := by
  cases index with
  | none =>
    rw [writtenAccess, memberPath_membersOf, List.append_nil]
    rfl
  | some i =>
    show (membersOf (.identifier root) names).memberPath [] (some (Json.wrapSigned 32 i)) = _
    rw [memberPath_membersOf, List.append_nil]
    rfl

theorem isMember_writtenAccess (root : String) {names : List String} (h : names ≠ [])
    (index : Option Int) :
    ∃ receiver property computed, writtenAccess root names index = .member receiver property
      computed := by
  cases index with
  | some i => exact ⟨_, _, _, rfl⟩
  | none =>
    obtain ⟨init, last, rfl⟩ := List.eq_nil_or_concat names |>.resolve_left h
    exact ⟨_, _, _, by rw [writtenAccess, membersOf, List.concat_eq_append, List.foldl_append]; rfl⟩

end Node

/-- Names after a declared parameter lead to it, if the name of the parameter means nothing else. -/
theorem Scope.reads_writtenAccess {s : Scope} {root : String} {names : List String}
    (declared : s.bindings.params.contains root = true)
    (ungrouped : s.bindings.groupings.contains root = false)
    (included : s.bindings.excluded = "" ∨ root ≠ s.bindings.excluded) (named : names ≠ [])
    (index : Option Int) :
    s.Reads (Node.writtenAccess root names index)
      ⟨root, Text.dotted names, index.map (Json.wrapSigned 32)⟩ := by
  refine ⟨Node.isMember_writtenAccess root named index,
    root, names, _, Node.memberPath_writtenAccess root names index, ?_⟩
  obtain ⟨first, rest, rfl⟩ := List.exists_cons_of_ne_nil named
  have proposed : (!s.bindings.excluded.isEmpty && decide (root = s.bindings.excluded)) = false := by
    rcases included with h | h <;> simp [h]
  have bound : s.bindings.binds root = true := by
    rw [Bindings.binds, declared, Bool.or_true, Bool.true_or, Bool.true_or, Bool.true_or]
  simp only [Scope.access, declared, ungrouped, proposed, bound]
  simp [ParamAccess.value]

/-! ### Lists -/

namespace Expr

/-- The index of a parameter that is a list is not written. -/
theorem sql_membership_index (value : Expr) (root property : String) (index : Option Int)
    (scope : SqlScope) (position : Sql.Position) :
    (membership value (.param root property index)).sql scope position =
        (membership value (.param root property none)).sql scope position ∧
      (negation (membership value (.param root property index))).sql scope position =
        (negation (membership value (.param root property none))).sql scope position := by
  simp only [Expr.sql, and_self]

end Expr

namespace Resolve

theorem bind_get {α : Type} (next : Scope → Resolve α) (s : Scope) :
    ((get : Resolve Scope) >>= next) s = next s s :=
  rfl

theorem callKind_includes (s : Scope) (receiver property : Node) (computed : Bool) :
    s.callKind (.member receiver property computed) "includes" = .helper ∨
      s.callKind (.member receiver property computed) "includes" = .textTest .includes := by
  cases receiver with
  | identifier name =>
    simp only [Scope.callKind]
    split
    · exact .inl rfl
    · exact .inr rfl
  | _ => exact .inr rfl

/-- An access that is asked for a member is a list. -/
theorem resolve_includes {s s' : Scope} {access value : Node} {a : ParamAccess} {e : Expr}
    (h : s.Reads access a) {isPredicate : Bool}
    (run : (Node.call (.member access (.identifier "includes") false) [value]).resolve isPredicate s =
      .ok e s') :
    ∃ member, value.resolve false s = .ok member s' ∧ e = .membership member a.value := by
  obtain ⟨receiver, property, computed, rfl⟩ := h.isMember
  rw [Node.resolve] at run
  unfold methodCall at run
  rw [bind_get] at run
  rcases callKind_includes s receiver property computed with kind | kind
  · rw [show (Node.identifier "includes").keyName = "includes" from rfl, kind] at run
    cases run
  · rw [show (Node.identifier "includes").keyName = "includes" from rfl, kind] at run
    obtain ⟨target, t, first, run⟩ := bind_eq_ok.1
      (show ((Node.member receiver property computed).resolve false >>= fun target =>
        if TextTest.includes = TextTest.includes && target.isParam then do
          let value ← value.resolve false
          return Expr.membership value target
        else _) s = .ok e s' from run)
    cases (h.resolve false).symm.trans first
    obtain ⟨member, t, second, run⟩ := bind_eq_ok.1
      (show (value.resolve false >>= fun value =>
        (return Expr.membership value a.value : Resolve Expr)) s = .ok e s' from run)
    cases run
    exact ⟨member, second, rfl⟩

end Resolve

/-! ### Row filters -/

namespace RowFilter

/-- A node binds the context if it goes over one key, by itself. -/
def BindsContext (context : String) : Expr → Prop
  | .param p property index => p = context → property ≠ "" ∧ '.' ∉ property.toList ∧ index = none
  | .booleanParam p property => p = context → property ≠ "" ∧ '.' ∉ property.toList
  | _ => True

theorem useContextKey_succeeds_iff (property : String) (isIndexed : Bool) (keys : NameSet) :
    (∃ name keys', useContextKey property isIndexed keys = .ok name keys') ↔
      property ≠ "" ∧ '.' ∉ property.toList ∧ isIndexed = false := by
  unfold useContextKey
  split
  · rename_i refused
    constructor
    · rintro ⟨name, keys', ⟨⟩⟩
    · rintro ⟨present, dotless, unindexed⟩
      simp [present, dotless, unindexed] at refused
  · rename_i accepted
    simp only [Bool.or_eq_true, not_or, Bool.not_eq_true] at accepted
    refine ⟨fun _ => ⟨?_, ?_, accepted.1.2⟩, fun _ => ⟨_, _, rfl⟩⟩
    · simpa using accepted.1.1
    · simpa using accepted.2

theorem bindContextNode_succeeds_iff (context : String) (node : Expr) (keys : NameSet) :
    (∃ r keys', bindContextNode context node keys = .ok r keys') ↔ BindsContext context node := by
  have stays : (∃ r keys', (pure none : EStateM PolicyFault NameSet (Option Expr)) keys =
      .ok r keys') ↔ True := ⟨fun _ => trivial, fun _ => ⟨_, _, rfl⟩⟩
  have used (property : String) (isIndexed : Bool) (result : String → Option Expr) :
      (∃ r keys', (useContextKey property isIndexed >>= fun name =>
        (pure (result name) : EStateM PolicyFault NameSet (Option Expr))) keys = .ok r keys') ↔
        property ≠ "" ∧ '.' ∉ property.toList ∧ isIndexed = false := by
    rw [← useContextKey_succeeds_iff property isIndexed keys]
    constructor
    · rintro ⟨r, keys', run⟩
      obtain ⟨name, t, first, -⟩ := bind_eq_ok.1 run
      exact ⟨name, t, first⟩
    · rintro ⟨name, t, first⟩
      exact ⟨_, t, bind_eq_ok.2 ⟨name, t, first, rfl⟩⟩
  cases node with
  | param p property index =>
    unfold bindContextNode BindsContext
    by_cases hp : p = context
    · simp only [hp, if_true, true_imp_iff]
      refine (used property index.isSome fun name => some (.param name "" none)).trans ?_
      simp
    · simpa only [hp, if_false, false_imp_iff] using stays
  | booleanParam p property =>
    unfold bindContextNode BindsContext
    by_cases hp : p = context
    · simp only [hp, if_true, true_imp_iff]
      refine (used property false fun name => some (.booleanParam name "")).trans ?_
      simp
    · simpa only [hp, if_false, false_imp_iff] using stays
  | _ => exact stays

theorem bindsContext_node (context : String) (node : Expr) (h : node.children ≠ []) :
    BindsContext context node := by
  cases node with
  | param => exact absurd rfl h
  | booleanParam => exact absurd rfl h
  | _ => trivial

/-- A filter whose predicate is understood is accepted exactly if all its nodes bind the context. -/
theorem parse_succeeds_iff {declared : Node} {table : String} {kind : FilterKind} {counter : Int}
    {predicate : Expr} {scope : Scope}
    (run : (declared.resolveLambda true "rowFilter" bindParams >>= Resolve.predicate)
      (initialScope declared table kind counter) = .ok predicate scope)
    (named : (paramNames declared).1.isEmpty = false) :
    (∃ filter, parse declared table kind counter = .ok filter) ↔
      predicate.Every (BindsContext (paramNames declared).1) := by
  have leaves := Expr.replaceM_succeeds_iff
    (bindContextNode_succeeds_iff (paramNames declared).1)
    (bindsContext_node (paramNames declared).1) predicate []
  have every : (∀ node ∈ predicate.leaves, BindsContext (paramNames declared).1 node) ↔
      predicate.Every (BindsContext (paramNames declared).1) :=
    ⟨fun h => Expr.every_of_leaves (bindsContext_node _) h,
      fun h node hn => h node (Expr.mem_leaves.1 hn).1⟩
  rw [← every, ← leaves]
  constructor
  · rintro ⟨filter, parsed⟩
    obtain ⟨predicate', scope', run', bind, -⟩ := parse_eq_ok parsed
    cases run.symm.trans run'
    unfold bindContext at bind
    rw [named, if_neg Bool.false_ne_true] at bind
    split at bind
    · exact ⟨_, _, ‹_›⟩
    · cases bind
  · rintro ⟨e', keys, replaced⟩
    have bind : bindContext (paramNames declared).1 predicate = .ok (e', keys) := by
      unfold bindContext
      rw [named, if_neg Bool.false_ne_true, replaced]
    unfold parse
    dsimp only
    split
    · rename_i failed
      cases run.symm.trans failed
    · rename_i run'
      cases run.symm.trans run'
      rw [bind]
      exact ⟨_, rfl⟩

/-- Where a truth is wanted, an indexed access to the context is taken for one that is not. -/
theorem bindsContext_leaf_iff (place : AccessPlace) (a : ParamAccess) :
    BindsContext a.root (place.leaf a) ↔ a.property ≠ "" ∧ '.' ∉ a.property.toList ∧
      (place.isTruth = true ∨ a.index = none) := by
  unfold AccessPlace.leaf
  cases place.isTruth with
  | true => simp [ParamAccess.truth, BindsContext]
  | false => simp [ParamAccess.value, BindsContext]

end RowFilter

/-! ### Accesses in queries and filters -/

/-- An access stands for the same placeholder in two places exactly if both read it the same way or it
goes over one name without an index.  The index is left out wherever a truth is wanted, and where the
access is a list; a row filter refuses it only where a value is wanted. -/
theorem accesses_are_shown_alike_iff (s : Scope) (a : ParamAccess) (place place' : AccessPlace) :
    (∀ (root : String) (names : List String) (index : Option Int),
      s.bindings.params.contains root = true → s.bindings.groupings.contains root = false →
      (s.bindings.excluded = "" ∨ root ≠ s.bindings.excluded) → names ≠ [] →
      s.Reads (Node.writtenAccess root names index)
        ⟨root, Text.dotted names, index.map (Json.wrapSigned 32)⟩) ∧
    place.Shows ∧
    (place.placeholder a = place'.placeholder a ↔ place.isTruth = place'.isTruth ∨ a.IsPlain) ∧
    (∀ (access value : Node) (isPredicate : Bool) (e : Expr) (s' : Scope),
      s.Reads access a →
      (Node.call (.member access (.identifier "includes") false) [value]).resolve isPredicate s =
        .ok e s' →
      ∃ member, value.resolve false s = .ok member s' ∧ e = .membership member a.value ∧
        ∀ scope position,
          e.sql scope position =
            (Expr.membership member (.param a.root a.property none)).sql scope position ∧
          (Expr.negation e).sql scope position =
            (Expr.negation (.membership member (.param a.root a.property none))).sql scope position) ∧
    (∀ (declared : Node) (table : String) (kind : FilterKind) (counter : Int) (predicate : Expr)
      (scope : Scope),
      (declared.resolveLambda true "rowFilter" RowFilter.bindParams >>= Resolve.predicate)
        (RowFilter.initialScope declared table kind counter) = .ok predicate scope →
      (RowFilter.paramNames declared).1.isEmpty = false →
      ((∃ filter, RowFilter.parse declared table kind counter = .ok filter) ↔
        predicate.Every (RowFilter.BindsContext (RowFilter.paramNames declared).1))) ∧
    (RowFilter.BindsContext a.root (place.leaf a) ↔ a.property ≠ "" ∧ '.' ∉ a.property.toList ∧
      (place.isTruth = true ∨ a.index = none)) := by
  refine ⟨?_, place.shows, place.placeholder_eq_iff place' a, ?_, ?_,
    RowFilter.bindsContext_leaf_iff place a⟩
  · intro root names index declared ungrouped included named
    exact Scope.reads_writtenAccess declared ungrouped included named index
  · intro access value isPredicate e s' h run
    obtain ⟨member, resolved, rfl⟩ := Resolve.resolve_includes h run
    exact ⟨member, resolved, rfl, Expr.sql_membership_index member a.root a.property a.index⟩
  · intro declared table kind counter predicate scope run named
    exact RowFilter.parse_succeeds_iff run named

/-- `(q, p) => q.from("users").where(u => …)` -/
def usersWhere (predicate : Node) : Node :=
  .arrow ["q", "p"] (((Node.identifier "q").invoke "from" [.literal (.str "users")]).invoke "where"
    [.arrow ["u"] predicate])

/-- The text of a query for PostgreSQL. -/
def Node.shownAs (builder : Node) (params : Json) : Option String := do
  let q ← builder.parseQuery.toOption
  let f ← (q.operation.sql .postgres params).toOption
  return f.render .postgres

/-- A nested access by itself is bound under its whole path, an indexed one and an indexed list under
the name of the array; a filter accepts an indexed access to its context. -/
theorem nested_and_indexed_accesses_are_shown_unlike :
    (usersWhere (.writtenAccess "p" ["flags", "active"] none)).shownAs .null =
        some "SELECT * FROM \"users\" WHERE $(flags.active)" ∧
      (usersWhere (.binary "===" (.writtenAccess "p" ["flags", "active"] none)
        (.literal (.bool true)))).shownAs .null =
        some "SELECT * FROM \"users\" WHERE $(active) = $(__p1)" ∧
      (usersWhere (.writtenAccess "p" ["flags"] (some 0))).shownAs .null =
        some "SELECT * FROM \"users\" WHERE $(flags)" ∧
      (usersWhere (.call (.member (.writtenAccess "p" ["ids"] (some 1)) (.identifier "includes") false)
        [(Node.identifier "u").dot "id"])).shownAs
          (.obj [("ids", .arr [.arr [.int 1], .arr [.int 2]])]) =
        some "SELECT * FROM \"users\" WHERE \"id\" IN ($(ids_0), $(ids_1))" ∧
      (RowFilter.parse (.arrow ["row", "ctx"] (.writtenAccess "ctx" ["roles"] (some 0))) "users"
        .select 0).toOption.map (·.contextKeys) = some ["roles"] := by
  decide +kernel

end FluentQuery
