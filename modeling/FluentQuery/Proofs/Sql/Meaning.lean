import FluentQuery.Proofs.Expr.Every
import FluentQuery.Sql.Expr

/-!
# What expressions mean

An `Interpretation` gives a row, values for placeholders, and a meaning to every operator; the value
of an expression is its operator applied to the values of its operands.  Nothing is assumed about
values but what the texts of operators rely on (`Interpretation.Lawful`).  A `Legible` expression has
no test as an operand of another test or of a concatenation.
-/

namespace FluentQuery

set_option autoImplicit false

/-- A row, values for placeholders, and what operators make of the values of their operands. -/
structure Interpretation (V : Type) where
  /-- A column, of the row with the given name or of the only one. -/
  column : Option String → String → V
  /-- A column of the row an insertion proposed. -/
  excluded : String → V
  /-- A whole row. -/
  wholeRow : Option String → V
  placeholder : String → V
  /-- The items of a list given as a parameter. -/
  items : String → List V
  constant : Json → V
  truth : Bool → V
  arithmetic : ArithmeticOp → V → V → V
  concat : V → V → V
  convert : StringMethod → V → V
  /-- The result of the first condition that holds, else the last value. -/
  choose : List (V × V) → V → V
  firstPresent : List V → V
  aggregate : AggregateFunction → V → V
  window : WindowFunction → List V → List (V × Bool) → V
  compare : ComparisonOp → V → V → V
  connect : LogicalOp → V → V → V
  negate : V → V
  matchText : TextTest → V → V → V
  matchIgnoringCase : CaseInsensitiveTest → V → V → V
  member : V → List V → V
  /-- Whether a value is null, or whether it is not if the flag is set. -/
  isNull : V → Bool → V
  /-- A row made of columns: a named value, or all columns of a value without a name. -/
  project : List (Option String × V) → V
  list : List V → V

namespace Interpretation

variable {V : Type}

/-- The test of a text that a test ignoring case makes of two texts in lower case. -/
def lowered (I : Interpretation V) : CaseInsensitiveTest → V → V → V
  | .equals => I.compare .eq
  | .startsWith => I.matchText .startsWith
  | .endsWith => I.matchText .endsWith
  | .contains => I.matchText .contains

/-- What operators have in common that are written in the same way. -/
structure Lawful (I : Interpretation V) : Prop where
  concat_assoc : ∀ a b c, I.concat (I.concat a b) c = I.concat a (I.concat b c)
  includes_eq : I.matchText .includes = I.matchText .contains
  ignoringCase_eq : ∀ test a b, I.matchIgnoringCase test a b =
    I.lowered test (I.convert .toLowerCase a) (I.convert .toLowerCase b)
  member_nil : ∀ a, I.member a [] = I.truth false
  negate_false : I.negate (I.truth false) = I.truth true
  project_unnamed : ∀ a, I.project [(none, a)] = a

/-- Placeholders of lists are numbered: each has the value of its item. -/
def Binds (I : Interpretation V) (params : Json) : Prop :=
  ∀ name items, params.get? name = some (.arr items) →
    I.items name = (List.range items.length).map fun i =>
      I.placeholder (name ++ "_" ++ toString i)

/-- A comparison; equality with the null constant is a null test. -/
def comparison (I : Interpretation V) (op : ComparisonOp) (leftNull rightNull : Bool) (l r : V) : V :=
  let nullTest (negated : Bool) : V :=
    if rightNull then I.isNull l negated
    else if leftNull then I.isNull r negated
    else I.compare op l r
  match op with
  | .eq => nullTest false
  | .neq => nullTest true
  | op => I.compare op l r

/-- What a member of an object contributes to a row: all columns of a row it spreads, else one column.
A predicate is turned into a truth value. -/
def projected (I : Interpretation V) (key : String) (e : Expr) (v : V) : Option String × V :=
  if key.isEmpty || e.isReference || e.isAllColumns then (none, v)
  else if Sql.needsTruthValue e then (some key, I.choose [(v, I.truth true)] (I.truth false))
  else (some key, v)

end Interpretation

namespace Expr

variable {V : Type}

/-- Which row a name belongs to in a statement over one table: the one it is qualified with, or the
only one. -/
def origin (table : String) (source : Option ColumnSource) : Option String :=
  match source with
  | some (.table name) => some name
  | some (.joinParam _) | some (.joinResult _) | some (.spread _) => none
  | some .direct | none => if table.isEmpty then none else some table

/-- The null constant. -/
def isNullConstant : Expr → Bool
  | constant .null => true
  | _ => false

mutual

/-- The value of an expression. -/
@[simp] def value (I : Interpretation V) : Expr → V
  | absent => I.constant .null
  | column name table source => I.column (origin table source) name
  | booleanColumn name table source => I.column (origin table source) name
  | excludedColumn name => I.excluded name
  | constant v => I.constant v
  | param p property index => I.placeholder (Sql.parameterName p property index)
  | booleanParam p property => I.placeholder (booleanPlaceholderName p property)
  | arithmetic op left right => I.arithmetic op (left.value I) (right.value I)
  | concat left right => I.concat (left.value I) (right.value I)
  | stringMethod method operand => I.convert method (operand.value I)
  | caseWhen conditions elseResult => I.choose (conditionValues I conditions) (elseResult.value I)
  | coalesce expressions => I.firstPresent (values I expressions)
  | aggregate function absent => I.aggregate function (I.wholeRow none)
  | aggregate function operand => I.aggregate function (operand.value I)
  | window function partitionBy orderBy =>
    I.window function (values I partitionBy) (orderValues I orderBy)
  | reference source table => I.wholeRow (origin table source)
  | allColumns => I.wholeRow none
  | comparison op left right =>
    I.comparison op left.isNullConstant right.isNullConstant (left.value I) (right.value I)
  | logical op left right => I.connect op (left.value I) (right.value I)
  | negation operand => I.negate (operand.value I)
  | booleanConstant b => I.truth b
  | textTest test operand arguments =>
    I.matchText test (operand.value I) ((values I arguments).headD (I.constant .null))
  | caseInsensitive test left right => I.matchIgnoringCase test (left.value I) (right.value I)
  | membership operand (param p property index) =>
    I.member (operand.value I) (I.items (Sql.parameterName p property index))
  | membership operand (array elements) => I.member (operand.value I) (values I elements)
  | membership operand items => I.member (operand.value I) [items.value I]
  | isNull operand negated => I.isNull (operand.value I) negated
  | object properties => I.project (columnValues I properties)
  | array elements => I.list (values I elements)

/-- The values of several expressions. -/
@[simp] def values (I : Interpretation V) : List Expr → List V
  | [] => []
  | e :: rest => e.value I :: values I rest

/-- The values of conditions and their results. -/
@[simp] def conditionValues (I : Interpretation V) : List (Expr × Expr) → List (V × V)
  | [] => []
  | (condition, result) :: rest =>
    (condition.value I, result.value I) :: conditionValues I rest

/-- The values of ordering keys, with their directions. -/
@[simp] def orderValues (I : Interpretation V) : List (Expr × Bool) → List (V × Bool)
  | [] => []
  | (key, descending) :: rest => (key.value I, descending) :: orderValues I rest

/-- The columns that the members of an object contribute. -/
@[simp] def columnValues (I : Interpretation V) : List (String × Expr) → List (Option String × V)
  | [] => []
  | (key, e) :: rest => I.projected key e (e.value I) :: columnValues I rest

end

/-- The members of a projection; an expression that is no object is its only one, without a name. -/
def members : Expr → List (String × Expr)
  | object properties => properties
  | e => [("", e)]

/-! ### Legible expressions -/

/-- A test is written without parentheses around it. -/
def isTest : Expr → Bool
  | comparison _ _ _ | textTest _ _ _ | caseInsensitive _ _ _ | membership _ _ | isNull _ _ => true
  | negation (membership _ (param _ _ _)) => true
  | _ => false

/-- A character that can stand in the name of a placeholder. -/
def isNameChar (c : Char) : Bool :=
  c ≠ ' ' && c ≠ ')' && c ≠ ','

/-- A name in which no placeholder ends. -/
def IsName (name : String) : Prop :=
  ∀ c ∈ name.toList, isNameChar c = true

/-- What every node of a lambda body is: a constant is null or the minus one of a negative, a text test
has one argument, and lists that are written out are not empty. -/
def WellFormed : Expr → Prop
  | constant v => v = .null ∨ v = .int (-1)
  | textTest _ _ arguments => ∃ argument, arguments = [argument]
  | coalesce expressions => expressions ≠ []
  | window _ _ orderBy => orderBy ≠ []
  | _ => True

/-- The operands of tests and concatenations are no tests, parameters have names that end where their
placeholders do, a list given as a parameter is a whole parameter, and no object is an operand. -/
def Legible : Expr → Prop
  | comparison _ left right | concat left right => left.isTest = false ∧ right.isTest = false
  | textTest _ operand arguments =>
    operand.isTest = false ∧ ∀ argument ∈ arguments, argument.isTest = false
  | isNull operand _ => operand.isTest = false
  | membership operand items =>
    operand.isTest = false ∧ ∀ p property index, items = param p property index → index = none
  | param p property index => IsName (Sql.parameterName p property index)
  | booleanParam p property => IsName (booleanPlaceholderName p property)
  | object _ => False
  | _ => True

end Expr

/-- In a statement over one table names are qualified by what they say themselves. -/
theorem SqlScope.qualifier_eq_origin {scope : SqlScope} (single : scope.hasJoins = false)
    (table : String) (source : Option ColumnSource) :
    scope.qualifier table source = .ok (Expr.origin table source) := by
  have indexed (i : Int) : (if scope.hasJoins then some <$> scope.aliasFor i else .ok none) =
      .ok none := by
    rw [single]
    rfl
  have unindexed : (if !table.isEmpty then .ok (some table)
      else if scope.hasJoins then some <$> scope.aliasFor 0 else .ok none) =
      .ok (if table.isEmpty then none else some table) := by
    rw [indexed 0]
    cases table.isEmpty <;> rfl
  cases source with
  | none => exact unindexed
  | some source =>
    cases source with
    | direct => exact unindexed
    | table => rfl
    | joinParam i | joinResult i | spread i => exact indexed i

end FluentQuery
