import FluentQuery.Json.Value

/-!
# Expressions

The expressions that lambdas of a query denote: values computed from columns and parameters,
predicates over them, and the objects and arrays that projections and lists are made of.  A slot
that holds no expression holds `Expr.absent`, so every position of every expression is filled and
traversals need no special case for missing operands.
-/

namespace FluentQuery

set_option autoImplicit false

inductive ComparisonOp where
  | eq | neq | gt | gte | lt | lte
deriving DecidableEq, Repr

inductive LogicalOp where
  | and | or
deriving DecidableEq, Repr

inductive ArithmeticOp where
  | add | sub | mul | div | mod
deriving DecidableEq, Repr

/-- Functions from text to text. -/
inductive StringMethod where
  | toLowerCase | toUpperCase
deriving DecidableEq, Repr

inductive AggregateFunction where
  | count | sum | avg | min | max
deriving DecidableEq, Repr

inductive WindowFunction where
  | rowNumber | rank | denseRank
deriving DecidableEq, Repr

/-- Tests of a text against a pattern. -/
inductive TextTest where
  | startsWith | endsWith | includes | contains
deriving DecidableEq, Repr

/-- Tests of two texts that ignore case. -/
inductive CaseInsensitiveTest where
  | equals | startsWith | endsWith | contains
deriving DecidableEq, Repr

namespace ComparisonOp

def name : ComparisonOp → String
  | eq => "=="
  | neq => "!="
  | gt => ">"
  | gte => ">="
  | lt => "<"
  | lte => "<="

def all : List ComparisonOp := [eq, neq, gt, gte, lt, lte]

end ComparisonOp

namespace LogicalOp

def name : LogicalOp → String
  | and => "and"
  | or => "or"

end LogicalOp

namespace ArithmeticOp

def name : ArithmeticOp → String
  | add => "+"
  | sub => "-"
  | mul => "*"
  | div => "/"
  | mod => "%"

def all : List ArithmeticOp := [add, sub, mul, div, mod]

end ArithmeticOp

namespace StringMethod

def name : StringMethod → String
  | toLowerCase => "toLowerCase"
  | toUpperCase => "toUpperCase"

end StringMethod

namespace AggregateFunction

def name : AggregateFunction → String
  | count => "count"
  | sum => "sum"
  | avg => "avg"
  | min => "min"
  | max => "max"

def all : List AggregateFunction := [count, sum, avg, min, max]

end AggregateFunction

namespace WindowFunction

def name : WindowFunction → String
  | rowNumber => "rowNumber"
  | rank => "rank"
  | denseRank => "denseRank"

def all : List WindowFunction := [rowNumber, rank, denseRank]

/-- The window function with the given name. -/
def ofName? (name : String) : Option WindowFunction :=
  all.find? (·.name == name)

end WindowFunction

namespace TextTest

def name : TextTest → String
  | startsWith => "startsWith"
  | endsWith => "endsWith"
  | includes => "includes"
  | contains => "contains"

def all : List TextTest := [startsWith, endsWith, includes, contains]

/-- The text test with the given name. -/
def ofName? (name : String) : Option TextTest :=
  all.find? (·.name == name)

end TextTest

namespace CaseInsensitiveTest

def name : CaseInsensitiveTest → String
  | equals => "iequals"
  | startsWith => "istartsWith"
  | endsWith => "iendsWith"
  | contains => "icontains"

def all : List CaseInsensitiveTest := [equals, startsWith, endsWith, contains]

/-- The test with the given name. -/
def ofName? (name : String) : Option CaseInsensitiveTest :=
  all.find? (·.name == name)

end CaseInsensitiveTest

/-- Which table of a statement a column belongs to.  Indices count the tables of the statement:
zero is its FROM table, `k` its `k`-th joined table. -/
inductive ColumnSource where
  | direct
  | table (name : String)
  | joinParam (index : Int)
  | joinResult (index : Int)
  | spread (index : Int)
deriving DecidableEq, Repr

namespace ColumnSource

/-- The table index of an indexed source. -/
def index? : ColumnSource → Option Int
  | direct => none
  | table _ => none
  | joinParam i => some i
  | joinResult i => some i
  | spread i => some i

end ColumnSource

/-- An expression. -/
inductive Expr where
  /-- The empty slot. -/
  | absent
  /-- A column; `table` is a dotted path through a join result, or empty. -/
  | column (name table : String) (source : Option ColumnSource)
  /-- A column of the row an insertion proposed. -/
  | excludedColumn (name : String)
  | constant (value : Json)
  /-- A placeholder: a parameter, a dotted path into it and an index into the value found. -/
  | param (param property : String) (index : Option Int)
  | arithmetic (op : ArithmeticOp) (left right : Expr)
  | concat (left right : Expr)
  | stringMethod (method : StringMethod) (object : Expr)
  /-- The value of the first condition that holds, else `elseResult`. -/
  | caseWhen (conditions : List (Expr × Expr)) (elseResult : Expr)
  /-- The first value that is not null. -/
  | coalesce (expressions : List Expr)
  /-- An aggregate of the rows of a group; counting needs no operand. -/
  | aggregate (function : AggregateFunction) (expression : Expr)
  /-- A window function; an order is descending when its flag is set. -/
  | window (function : WindowFunction) (partitionBy : List Expr) (orderBy : List (Expr × Bool))
  /-- A whole row. -/
  | reference (source : Option ColumnSource) (table : String)
  | allColumns
  | comparison (op : ComparisonOp) (left right : Expr)
  | logical (op : LogicalOp) (left right : Expr)
  | negation (expression : Expr)
  | booleanConstant (value : Bool)
  | booleanColumn (name table : String) (source : Option ColumnSource)
  | booleanParam (param property : String)
  | textTest (method : TextTest) (object : Expr) (arguments : List Expr)
  | caseInsensitive (function : CaseInsensitiveTest) (left right : Expr)
  /-- Membership in an array expression or in an array parameter. -/
  | membership (value list : Expr)
  | isNull (expression : Expr) (negated : Bool)
  /-- Named members in the order they were written; the name of a spread is empty. -/
  | object (properties : List (String × Expr))
  | array (elements : List Expr)
deriving Repr, Inhabited

namespace Expr

/-- The name of an expression's type. -/
def typeName : Expr → String
  | absent => ""
  | column _ _ _ => "column"
  | excludedColumn _ => "excludedColumn"
  | constant _ => "constant"
  | param _ _ _ => "param"
  | arithmetic _ _ _ => "arithmetic"
  | concat _ _ => "concat"
  | stringMethod _ _ => "stringMethod"
  | caseWhen _ _ => "case"
  | coalesce _ => "coalesce"
  | aggregate _ _ => "aggregate"
  | window _ _ _ => "windowFunction"
  | reference _ _ => "reference"
  | allColumns => "allColumns"
  | comparison _ _ _ => "comparison"
  | logical _ _ _ => "logical"
  | negation _ => "not"
  | booleanConstant _ => "booleanConstant"
  | booleanColumn _ _ _ => "booleanColumn"
  | booleanParam _ _ => "booleanParam"
  | textTest _ _ _ => "booleanMethod"
  | caseInsensitive _ _ _ => "caseInsensitiveFunction"
  | membership _ _ => "in"
  | isNull _ _ => "isNull"
  | object _ => "object"
  | array _ => "array"

def isAbsent : Expr → Bool
  | absent => true
  | _ => false

/-- Whether an expression is a predicate. -/
def isBoolean : Expr → Bool
  | comparison _ _ _ | logical _ _ _ | negation _ | booleanConstant _ | booleanColumn _ _ _
  | booleanParam _ _ | textTest _ _ _ | caseInsensitive _ _ _ | membership _ _
  | isNull _ _ => true
  | _ => false

/-- Whether an expression is a value: neither a predicate nor an object or array. -/
def isValue : Expr → Bool
  | column _ _ _ | excludedColumn _ | constant _ | param _ _ _ | arithmetic _ _ _ | concat _ _
  | stringMethod _ _ | caseWhen _ _ | coalesce _ | aggregate _ _ | window _ _ _ | reference _ _
  | allColumns => true
  | _ => false

def isObject : Expr → Bool
  | object _ => true
  | _ => false

def isReference : Expr → Bool
  | reference _ _ => true
  | _ => false

def isAllColumns : Expr → Bool
  | allColumns => true
  | _ => false

/-- The table index of an optional source, if it has one. -/
def sourceIndex? (source : Option ColumnSource) : Option Int :=
  source.bind ColumnSource.index?

/-- The part of a dotted path after its last dot. -/
def leafName (path : String) : String :=
  String.ofList (path.toList.reverse.takeWhile (· ≠ '.')).reverse

/-- The name under which a parameter access is bound: the leaf of its path, or the parameter. -/
def placeholderName (param property : String) : String :=
  if property.isEmpty then param else leafName property

/-- The name under which a boolean parameter access is bound. -/
def booleanPlaceholderName (param property : String) : String :=
  if property.isEmpty then param else property

/-- The member of an object with the given name; of several the first. -/
def findProperty (properties : List (String × Expr)) (key : String) : Expr :=
  match properties with
  | [] => absent
  | (name, value) :: rest => if name = key then value else findProperty rest key

/-- Both predicates hold; an absent one is left out. -/
def conj (left right : Expr) : Expr :=
  match left, right with
  | absent, r => r
  | l, absent => l
  | l, r => logical .and l r

@[simp] theorem conj_absent_left (e : Expr) : conj absent e = e := by
  cases e <;> rfl

@[simp] theorem conj_absent_right (e : Expr) : conj e absent = e := by
  cases e <;> rfl

end Expr

end FluentQuery
