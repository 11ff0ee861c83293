import FluentQuery.Error.Basic
import FluentQuery.Expr.Basic
import FluentQuery.Shape

/-!
# Expressions in predicate and projection position

A value in predicate position is read as a boolean column or parameter (`Expr.toBoolean`).  An
object in projection position determines the shape of the rows it yields (`Expr.resultShape`), and
a shape can be turned back into the object that yields it (`Expr.ofShape`).
-/

namespace FluentQuery

set_option autoImplicit false

namespace Expr

/-- An expression as a predicate; only columns and parameters have a boolean reading. -/
def toBoolean (e : Expr) : Except ExprFault Expr :=
  if e.isBoolean then .ok e
  else
    match e with
    | absent => .error .missingPredicate
    | column name table source => .ok (booleanColumn name table source)
    | param p property _ => .ok (booleanParam p property)
    | e => .error (.notBoolean e.typeName)

mutual

/-- What a projected member holds; computed members have no shape. -/
def shapeNode : Expr → Option Shape
  | column name _ source => some (.column ((sourceIndex? source).getD 0) name)
  | reference source _ => some (.reference ((sourceIndex? source).getD 0))
  | object properties => some (.object (shapeProperties properties))
  | _ => none

/-- The shapes of the named members of an object. -/
def shapeProperties : List (String × Expr) → ResultShape
  | [] => []
  | (key, value) :: rest =>
    match shapeNode value with
    | some node => if key.isEmpty then shapeProperties rest else (key, node) :: shapeProperties rest
    | none => shapeProperties rest

end

/-- The shape of the rows a projection yields; only objects have one. -/
def resultShape : Expr → Option ResultShape
  | object properties => some (shapeProperties properties)
  | _ => none

mutual

/-- The expression that yields what a shape node describes; collections have none. -/
def ofShapeNode : Shape → Option Expr
  | .column table name => some (column name "" (some (.joinResult table)))
  | .reference table => some (reference (some (.joinResult table)) "")
  | .object properties => some (object (ofShape properties))
  | .array _ => none

/-- The members of the object that yields rows of the given shape. -/
def ofShape : List (String × Shape) → List (String × Expr)
  | [] => []
  | (key, node) :: rest =>
    match ofShapeNode node with
    | some e => (key, e) :: ofShape rest
    | none => ofShape rest

end

end Expr

end FluentQuery
