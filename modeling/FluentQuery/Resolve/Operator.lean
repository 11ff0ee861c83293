import FluentQuery.Resolve.Name

/-!
# Operators in lambda bodies

What an operator makes of its operands.  The operands are given as work still to be done, because an
operator decides in which order they are resolved: literals become parameters, numbered in the
order in which they are met, and a literal that is compared with a column comes after it.
-/

namespace FluentQuery

set_option autoImplicit false

namespace ComparisonOp

/-- The comparison an operator stands for; loose and strict equality are the same. -/
def ofSymbol? (symbol : String) : Option ComparisonOp :=
  match symbol with
  | "===" | "==" => some eq
  | "!==" | "!=" => some neq
  | ">" => some gt
  | ">=" => some gte
  | "<" => some lt
  | "<=" => some lte
  | _ => none

end ComparisonOp

namespace ArithmeticOp

/-- The arithmetic operator with the given symbol. -/
def ofSymbol? (symbol : String) : Option ArithmeticOp :=
  all.find? (·.name == symbol)

end ArithmeticOp

/-! ### Which sums are concatenations -/

/-- Parts of parameter names that suggest a text. -/
def textualParamHints : List String :=
  ["text", "name", "title", "description", "message", "suffix", "prefix", "email", "url", "path",
    "label", "string", "content", "body"]

/-- Parts of column names that suggest a text. -/
def textualColumnHints : List String :=
  ["name", "title", "description"]

/-- Whether a name, in lower case, contains one of the hints. -/
def suggestsText (hints : List String) (name : String) : Bool :=
  hints.any (Text.mentions (Text.lowercase name))

mutual

/-- Whether an expression is taken for a text, so that adding to it concatenates.  An automatic
parameter is one if its value is; other names only suggest it. -/
def Expr.isTextual (autoParams : Assoc Json) : Expr → Bool
  | .constant value => value.isString
  | .concat _ _ => true
  | .stringMethod _ _ => true
  | .param p property _ =>
    match autoParams.find? p with
    | some value => value.isString
    | none => suggestsText textualParamHints (Expr.placeholderName p property)
  | .column name _ _ => suggestsText textualColumnHints name
  | .coalesce expressions => Expr.anyTextual autoParams expressions
  | _ => false

/-- Whether one of several expressions is taken for a text. -/
def Expr.anyTextual (autoParams : Assoc Json) : List Expr → Bool
  | [] => false
  | e :: rest => e.isTextual autoParams || Expr.anyTextual autoParams rest

end

/-! ### Combining expressions -/

namespace Expr

/-- The alternatives of a coalescing expression, or the expression itself. -/
def alternatives : Expr → List Expr
  | coalesce expressions => expressions
  | e => [e]

/-- The first alternative that is not null. -/
def firstOf (left right : Expr) : Expr :=
  coalesce (left.alternatives ++ right.alternatives)

def isParam : Expr → Bool
  | param _ _ _ => true
  | _ => false

/-- A value that can stand in a coalescing expression: not a whole row. -/
def isScalarValue (e : Expr) : Bool :=
  e.isValue && !e.isReference

/-- The truth of a conditional's test: a column is tested for being there. -/
def testOf : Expr → Except ExprFault Expr
  | column name table source => .ok (isNull (column name table source) true)
  | e => e.toBoolean

/-- A conditional; one in its alternative continues the list of conditions. -/
def conditional (test consequent alternate : Expr) : Expr :=
  match alternate with
  | caseWhen conditions elseResult => caseWhen ((test, consequent) :: conditions) elseResult
  | e => caseWhen [(test, consequent)] e

end Expr

namespace Resolve

/-! ### Literals and operands -/

/-- The expression of a literal.  A literal compared with a column remembers that column. -/
def literal (value : Json) (peer : Expr) : Resolve Expr :=
  match value with
  | .null => return .constant .null
  | value =>
    match peer with
    | .column name _ source => autoParam value name (Expr.sourceIndex? source)
    | _ => autoParam value "" none

/-- The expression of an operand, given that of its peer. -/
def operand (node : Node) (peer : Expr) (resolved : Resolve Expr) : Resolve Expr :=
  match node with
  | .literal value => literal value peer
  | _ => resolved

/-- The expressions of two operands.  A literal on the left comes after its peer, so that it can
remember the column it is compared with. -/
def operands (left right : Node) (resolveLeft resolveRight : Resolve Expr) :
    Resolve (Expr × Expr) :=
  if left.isLiteral then do
    let r ← resolveRight
    let l ← operand left r resolveLeft
    return (l, r)
  else do
    let l ← resolveLeft
    let r ← operand right l resolveRight
    return (l, r)

/-- An expression as a predicate. -/
def predicate (e : Expr) : Resolve Expr :=
  ofExcept e.toBoolean

/-- The negative of a numeric literal; 64-bit integers wrap. -/
def negativeLiteral (value : Json) : Resolve Expr :=
  match value with
  | .int n => autoParam (.int (Json.wrapSigned 64 (-(Json.wrapSigned 64 n)))) "" none
  | .double x => autoParam (.double x.negate) "" none
  | v => fail (ExprFault.nonNumericMinus ("-" ++ v.compress))

/-! ### Operators -/

/-- A comparison; a comparison with null is a null test, and has to be one for equality. -/
def comparison (op : ComparisonOp) (node left right : Node) (leftValue rightValue : Resolve Expr) :
    Resolve Expr :=
  if left.isNullLiteral && right.isNullLiteral then fail (ExprFault.nullComparison node.toSource)
  else if left.isNullLiteral || right.isNullLiteral then
    if op ≠ .eq && op ≠ .neq then fail (ExprFault.orderedNullComparison node.toSource)
    else do
      let operand ← if left.isNullLiteral then rightValue else leftValue
      return .isNull operand (op = .neq)
  else do
    let (l, r) ← operands left right leftValue rightValue
    return .comparison op l r

/-- Arithmetic; adding to a text concatenates. -/
def arithmetic (op : ArithmeticOp) (left right : Node) (leftValue rightValue : Resolve Expr) :
    Resolve Expr := do
  let (l, r) ← operands left right leftValue rightValue
  let known := (← get).autoParams
  if op = .add && (l.isTextual known || r.isTextual known) then return .concat l r
  else return .arithmetic op l r

/-- A binary operator; `left` and `right` are its operands, given with their values. -/
def binary (op : String) (left right : Node) (leftValue rightValue : Resolve Expr) :
    Resolve Expr :=
  match ComparisonOp.ofSymbol? op, ArithmeticOp.ofSymbol? op with
  | some op', _ => comparison op' (.binary op left right) left right leftValue rightValue
  | none, some op' => arithmetic op' left right leftValue rightValue
  | none, none => fail (ExprFault.unsupportedBinary op)

/-- A conjunction or disjunction of two predicates. -/
def connective (op : LogicalOp) (left right : Resolve Expr) : Resolve Expr := do
  let l ← predicate (← left)
  let r ← predicate (← right)
  return .logical op l r

/-- A disjunction in value position.  Between values it picks the first that is not null. -/
def eitherOf (left right : Resolve Expr) : Resolve Expr := do
  let l ← left
  let r ← right
  if l.isScalarValue && r.isScalarValue then return .coalesce [l, r]
  else
    let r ← predicate r
    let l ← predicate l
    return .logical .or l r

/-- The first of two values that is not null. -/
def nullish (left right : Resolve Expr) : Resolve Expr := do
  let l ← left
  let r ← right
  return l.firstOf r

/-- A logical operator.  An operand is resolved as a predicate (`true`) or as a value (`false`). -/
def logical (isPredicate : Bool) (op : String) (left right : Bool → Resolve Expr) :
    Resolve Expr :=
  match op with
  | "??" => nullish (left false) (right false)
  | "&&" => connective .and (left true) (right true)
  | "||" =>
    if isPredicate then connective .or (left true) (right true)
    else eitherOf (left false) (right false)
  | op => fail (ExprFault.unsupportedLogical op)

/-- The negation of a predicate. -/
def negation (argument : Resolve Expr) : Resolve Expr := do
  let e ← predicate (← argument)
  return .negation e

/-- The negative of a value; that of a literal is a literal. -/
def negative (argument : Node) (value : Resolve Expr) : Resolve Expr :=
  match argument with
  | .literal number => negativeLiteral number
  | _ => do
    let e ← value
    return .arithmetic .mul (.constant (.int (-1))) e

/-- A unary operator. -/
def unary (op : String) (argument : Node) (resolved : Bool → Resolve Expr) : Resolve Expr :=
  match op with
  | "!" => negation (resolved true)
  | "-" => negative argument (resolved false)
  | "+" => resolved false
  | op => fail (ExprFault.unsupportedUnary op)

/-- A conditional. -/
def conditional (test consequent alternate : Resolve Expr) : Resolve Expr := do
  let test ← ofExcept (← test).testOf
  let consequent ← consequent
  let alternate ← alternate
  return .conditional test consequent alternate

/-! ### Projections -/

/-- What a spread value contributes to a projection. -/
def spreadValue (argument : Node) : Expr → Resolve (List (String × Expr))
  | .object properties => return properties
  | .reference source _ =>
    match Expr.sourceIndex? source with
    | some index => return [("", .reference (some (.spread index)) "")]
    | none => return [("", .allColumns)]
  | _ => fail (ExprFault.unsupportedSpread argument.toSource)

/-- What a spread contributes to a projection: a row all its columns, an object its members. -/
def spread (argument : Node) (value : Resolve Expr) : Resolve (List (String × Expr)) := do
  match (← get).spreadRow? argument with
  | some e => return [("", e)]
  | none => spreadValue argument (← value)

end Resolve

end FluentQuery
