import FluentQuery.Expr.Json
import FluentQuery.Json.Printer
import FluentQuery.Sql.Fragment
import FluentQuery.Sql.Quote

/-!
# SQL of expressions

`Expr.sql` renders an expression in one of three positions.  In a predicate position only predicates
are accepted, in a value position everything but objects and arrays, and in an open position an
object too, which becomes the list of its members.  Literals have become parameters before, so
the only constants written out are null, truth values and constants put in by hand.
-/

namespace FluentQuery

set_option autoImplicit false

/-- What the rendering of expressions depends on: the dialect, the parameters, and the tables of
the statement. -/
structure SqlScope where
  dialect : Dialect
  params : Json
  /-- The aliases of the tables of the statement, by table index. -/
  aliases : List String := []
  /-- Whether the statement joins tables, so that columns are qualified. -/
  hasJoins : Bool := false

namespace SqlScope

/-- The alias of the table with the given index. -/
def aliasFor (scope : SqlScope) (index : Int) : Except SqlFault String :=
  if index < 0 then .error (.noAlias index)
  else
    match scope.aliases[index.toNat]? with
    | some name => .ok name
    | none => .error (.noAlias index)

/-- What qualifies the names of a row: an alias, a table path, or nothing. -/
def qualifier (scope : SqlScope) (table : String) (source : Option ColumnSource) :
    Except SqlFault (Option String) :=
  let unindexed : Except SqlFault (Option String) :=
    if !table.isEmpty then .ok (some table)
    else if scope.hasJoins then some <$> scope.aliasFor 0
    else .ok none
  match source with
  | some (.table name) => .ok (some name)
  | some (.joinParam i) | some (.joinResult i) | some (.spread i) =>
    if scope.hasJoins then some <$> scope.aliasFor i else .ok none
  | some .direct | none => unindexed

/-- A column, qualified where the statement needs it. -/
def column (scope : SqlScope) (name table : String) (source : Option ColumnSource) :
    Except SqlFault Fragment := do
  match ← scope.qualifier table source with
  | some q => return Fragment.text (quoteIdentifier q ++ "." ++ quoteIdentifier name)
  | none => return Fragment.text (quoteIdentifier name)

/-- All columns of a row. -/
def row (scope : SqlScope) (table : String) (source : Option ColumnSource) :
    Except SqlFault Fragment := do
  match ← scope.qualifier table source with
  | some q => return Fragment.text (quoteIdentifier q ++ ".*")
  | none => return Fragment.text "*"

end SqlScope

namespace ComparisonOp

def sql : ComparisonOp → String
  | eq => "="
  | neq => "!="
  | gt => ">"
  | gte => ">="
  | lt => "<"
  | lte => "<="

end ComparisonOp

namespace LogicalOp

def sql : LogicalOp → String
  | and => " AND "
  | or => " OR "

end LogicalOp

namespace StringMethod

def sql : StringMethod → String
  | toLowerCase => "LOWER"
  | toUpperCase => "UPPER"

end StringMethod

namespace AggregateFunction

def sql : AggregateFunction → String
  | count => "COUNT"
  | sum => "SUM"
  | avg => "AVG"
  | min => "MIN"
  | max => "MAX"

end AggregateFunction

namespace WindowFunction

def sql : WindowFunction → String
  | rowNumber => "ROW_NUMBER"
  | rank => "RANK"
  | denseRank => "DENSE_RANK"

end WindowFunction

/-- A text test as a pattern match. -/
def TextTest.sql (test : TextTest) (object argument : Fragment) : Fragment :=
  match test with
  | .startsWith => object ++ Fragment.text " LIKE " ++ argument ++ Fragment.text " || '%'"
  | .endsWith => object ++ Fragment.text " LIKE '%' || " ++ argument
  | .includes | .contains =>
    object ++ Fragment.text " LIKE '%' || " ++ argument ++ Fragment.text " || '%'"

/-- A test of two texts already brought to one case. -/
def CaseInsensitiveTest.sql (test : CaseInsensitiveTest) (left right : Fragment) : Fragment :=
  match test with
  | .equals => left ++ Fragment.text " = " ++ right
  | .startsWith => left ++ Fragment.text " LIKE " ++ right ++ Fragment.text " || '%'"
  | .endsWith => left ++ Fragment.text " LIKE '%' || " ++ right
  | .contains => left ++ Fragment.text " LIKE '%' || " ++ right ++ Fragment.text " || '%'"

namespace Sql

/-- Where an expression stands. -/
inductive Position where
  /-- A projection, operand of a comparison, assigned value and the like. -/
  | open
  | predicate
  | value
deriving DecidableEq, Repr

/-- A constant written out. -/
def constant : Json → String
  | .null => "NULL"
  | .bool b => if b then "TRUE" else "FALSE"
  | .str s => quoteString s
  | v => v.compress

/-- The placeholder of a parameter access; an index is part of the name. -/
def parameterName (param property : String) (index : Option Int) : String :=
  let name := Expr.placeholderName param property
  match index with
  | some i => name ++ "_" ++ toString i
  | none => name

/-- A comparison; equality with a null is a null test. -/
def comparison (d : Dialect) (op : ComparisonOp) (left right : Fragment) : Fragment :=
  let isNull (test : String) : Fragment :=
    if right.render d == "NULL" then left ++ Fragment.text test
    else if left.render d == "NULL" then right ++ Fragment.text test
    else left ++ Fragment.text (" " ++ op.sql ++ " ") ++ right
  match op with
  | .eq => isNull " IS NULL"
  | .neq => isNull " IS NOT NULL"
  | _ => left ++ Fragment.text (" " ++ op.sql ++ " ") ++ right

/-- A negation; an operand that is a single word needs no parentheses. -/
def negation (d : Dialect) (operand : Fragment) : Fragment :=
  if (operand.render d).toList.all fun c => c ≠ ' ' && c ≠ '(' then Fragment.text "NOT " ++ operand
  else Fragment.text "NOT (" ++ operand ++ Fragment.text ")"

/-- A membership test; no value is in the empty list. -/
def memberOf (negated : Bool) (value : Fragment) (items : List Fragment) : Fragment :=
  if items.isEmpty then Fragment.text (if negated then "TRUE" else "FALSE")
  else
    value ++ Fragment.text (if negated then " NOT IN (" else " IN (") ++
      Fragment.separated ", " items ++ Fragment.text ")"

/-- The placeholders of the items of an array parameter. -/
def arrayItems (params : Json) (name : String) : Except SqlFault (List Fragment) :=
  match params.get? name with
  | some (.arr items) =>
    .ok ((List.range items.length).map fun i => Fragment.placeholder (name ++ "_" ++ toString i))
  | some v => .error (.notArrayParameter name v.typeName)
  | none => .error (.notArrayParameter name "undefined")

/-- A window function over its partition and order. -/
def window (function : WindowFunction) (partitions orders : List Fragment) : Fragment :=
  let partition : List Fragment :=
    if partitions.isEmpty then []
    else [Fragment.text "PARTITION BY " ++ Fragment.separated ", " partitions]
  let order := Fragment.text "ORDER BY " ++ Fragment.separated ", " orders
  Fragment.text (function.sql ++ "() OVER (") ++ Fragment.separated " " (partition ++ [order]) ++
    Fragment.text ")"

/-- Whether a projected predicate has to be turned into a truth value. -/
def needsTruthValue (e : Expr) : Bool :=
  match e with
  | .booleanColumn _ _ _ | .booleanConstant _ => false
  | e => e.isBoolean

/-- A value expression, which is refused in a predicate position. -/
def inValue (position : Position) (type : String) (rendered : Except SqlFault Fragment) :
    Except SqlFault Fragment :=
  match position with
  | .predicate => .error (.unsupportedExpression "boolean" type)
  | .value | .open => rendered

end Sql

open Sql in
mutual

/-- The SQL of an expression in a position. -/
def Expr.sql (scope : SqlScope) (position : Position) : Expr → Except SqlFault Fragment
  | .absent => .error .missingExpression
  | .column name table source => inValue position "column" (scope.column name table source)
  | .excludedColumn name =>
    inValue position "excludedColumn" (.ok (Fragment.text ("excluded." ++ quoteIdentifier name)))
  | .constant v => inValue position "constant" (.ok (Fragment.text (Sql.constant v)))
  | .param p property index =>
    inValue position "param" (.ok (Fragment.placeholder (parameterName p property index)))
  | .arithmetic op left right =>
    inValue position "arithmetic" do
      let right ← right.sql scope .value
      let left ← left.sql scope .value
      return Fragment.text "(" ++ left ++ Fragment.text (" " ++ op.name ++ " ") ++ right ++
        Fragment.text ")"
  | .concat left right =>
    inValue position "concat" do
      let right ← right.sql scope .value
      let left ← left.sql scope .value
      return left ++ Fragment.text " || " ++ right
  | .stringMethod method operand =>
    inValue position "stringMethod" do
      let operand ← operand.sql scope .value
      return Fragment.text (method.sql ++ "(") ++ operand ++ Fragment.text ")"
  | .caseWhen conditions elseResult =>
    inValue position "case" do
      if conditions.isEmpty then .error .emptyCase
      else
        let clauses ← Expr.sqlConditions scope conditions
        let head := Fragment.text "CASE " ++ Fragment.separated " " clauses
        if elseResult.isAbsent then return head ++ Fragment.text " END"
        else
          let result ← elseResult.sql scope .open
          return head ++ Fragment.text " ELSE " ++ result ++ Fragment.text " END"
  | .coalesce expressions =>
    inValue position "coalesce" do
      let parts ← Expr.sqlList scope .open expressions
      return Fragment.text "COALESCE(" ++ Fragment.separated ", " parts ++ Fragment.text ")"
  | .aggregate function expression =>
    inValue position "aggregate" do
      if expression.isAbsent then return Fragment.text (function.sql ++ "(*)")
      else
        let operand ← expression.sql scope .value
        return Fragment.text (function.sql ++ "(") ++ operand ++ Fragment.text ")"
  | .window function partitionBy orderBy =>
    inValue position "windowFunction" do
      let partitions ← Expr.sqlList scope .value partitionBy
      let orders ← Expr.sqlOrders scope orderBy
      return Sql.window function partitions orders
  | .reference source table => inValue position "reference" (scope.row table source)
  | .allColumns => inValue position "allColumns" (.ok (Fragment.text "*"))
  | .comparison op left right => do
    let left ← left.sql scope .open
    let right ← right.sql scope .open
    return Sql.comparison scope.dialect op left right
  | .logical op left right => do
    let right ← right.sql scope .predicate
    let left ← left.sql scope .predicate
    return Fragment.text "(" ++ left ++ Fragment.text op.sql ++ right ++ Fragment.text ")"
  | .negation (.membership value (.param p property _)) => do
    let value ← value.sql scope .value
    let items ← arrayItems scope.params (placeholderName p property)
    return memberOf true value items
  | .negation expression => do
    let operand ← expression.sql scope .predicate
    return Sql.negation scope.dialect operand
  | .booleanConstant value => .ok (Fragment.text (if value then "TRUE" else "FALSE"))
  | .booleanColumn name table source => scope.column name table source
  | .booleanParam p property => .ok (Fragment.placeholder (booleanPlaceholderName p property))
  | .textTest method _ [] => .error (.methodWithoutArgument method.name)
  | .textTest method operand (argument :: _) => do
    let operand ← operand.sql scope .value
    let argument ← argument.sql scope .value
    return method.sql operand argument
  | .caseInsensitive function left right => do
    let left ← left.sql scope .value
    let right ← right.sql scope .value
    let lower (f : Fragment) : Fragment := Fragment.text "LOWER(" ++ f ++ Fragment.text ")"
    return function.sql (lower left) (lower right)
  | .membership value (.param p property _) => do
    let value ← value.sql scope .value
    let items ← arrayItems scope.params (placeholderName p property)
    return memberOf false value items
  | .membership value (.array elements) => do
    let value ← value.sql scope .value
    let items ← Expr.sqlList scope .open elements
    return memberOf false value items
  | .membership value _ => do
    let _ ← value.sql scope .value
    .error .notList
  | .isNull expression negated => do
    let operand ← expression.sql scope .value
    return operand ++ Fragment.text (if negated then " IS NOT NULL" else " IS NULL")
  | .object properties =>
    match position with
    | .open =>
      if properties.isEmpty then .error .emptyProjection
      else do
        let parts ← Expr.sqlProperties scope properties
        return Fragment.separated ", " parts
    | .predicate => .error (.unsupportedExpression "boolean" "object")
    | .value => .error (.unsupportedExpression "value" "object")
  | .array _ =>
    match position with
    | .predicate => .error (.unsupportedExpression "boolean" "array")
    | .value | .open => .error (.unsupportedExpression "value" "array")

/-- The SQL of several expressions in one position. -/
def Expr.sqlList (scope : SqlScope) (position : Position) :
    List Expr → Except SqlFault (List Fragment)
  | [] => .ok []
  | e :: rest => do
    let first ← e.sql scope position
    return first :: (← Expr.sqlList scope position rest)

/-- The WHEN clauses of conditions and their results. -/
def Expr.sqlConditions (scope : SqlScope) : List (Expr × Expr) → Except SqlFault (List Fragment)
  | [] => .ok []
  | (condition, result) :: rest => do
    let result ← result.sql scope .open
    let condition ← condition.sql scope .predicate
    let clause := Fragment.text "WHEN " ++ condition ++ Fragment.text " THEN " ++ result
    return clause :: (← Expr.sqlConditions scope rest)

/-- Ordering keys with their directions. -/
def Expr.sqlOrders (scope : SqlScope) : List (Expr × Bool) → Except SqlFault (List Fragment)
  | [] => .ok []
  | (key, descending) :: rest => do
    let key ← key.sql scope .value
    let order := key ++ Fragment.text (if descending then " DESC" else " ASC")
    return order :: (← Expr.sqlOrders scope rest)

/-- The members of a projected object.  A spread or a whole row contributes all its columns, every
other member one named column. -/
def Expr.sqlProperties (scope : SqlScope) : List (String × Expr) → Except SqlFault (List Fragment)
  | [] => .ok []
  | (key, value) :: rest => do
    let part : Fragment ←
      if key.isEmpty || value.isReference || value.isAllColumns then value.sql scope .value
      else if value.isObject then .error (.nestedObject key)
      else do
        let column ← value.sql scope .open
        let column :=
          if needsTruthValue value then
            Fragment.text "CASE WHEN " ++ column ++ Fragment.text " THEN TRUE ELSE FALSE END"
          else column
        pure (column ++ Fragment.text (" AS " ++ quoteIdentifier key))
    return part :: (← Expr.sqlProperties scope rest)

end

/-- The SQL of a projection; without one it is all columns. -/
def Expr.projectionSql (scope : SqlScope) (selector : Expr) : Except SqlFault Fragment :=
  if selector.isAbsent then .ok (Fragment.text "*") else selector.sql scope .open

end FluentQuery
