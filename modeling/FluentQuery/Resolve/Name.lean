import FluentQuery.Ast.Node
import FluentQuery.Data.Text
import FluentQuery.Resolve.Scope

/-!
# Names and member paths

What an identifier stands for (`Scope.identifier`) and what a path such as `u.address.city` leads to
(`Scope.access`), given the bindings of a scope.
-/

namespace FluentQuery

set_option autoImplicit false

/-! ### Identifiers -/

namespace Scope

/-- The expression an identifier stands for. -/
def identifier (s : Scope) (name : String) : Except ExprFault Expr :=
  let b := s.bindings
  if name = "undefined" then .ok (.constant .null)
  else if b.tables.contains name then .ok (.reference none "")
  else
    match b.joins.find? name with
    | some index => .ok (.reference (some (.joinParam index)) "")
    | none =>
      if !b.joinResult.isEmpty && name = b.joinResult then
        match b.shape with
        | some shape => .ok (.object (Expr.ofShape shape))
        | none => .ok (.reference none "")
      else if b.params.contains name then .ok (.param name "" none)
      else if b.groupings.contains name then .error (.bareGrouping name)
      else .error (.unknownIdentifier name)

/-- What spreading an identifier bound to a row contributes to a projection. -/
def spreadRow? (s : Scope) : Node → Option Expr
  | .identifier name =>
    if s.bindings.tables.contains name then some .allColumns
    else (s.bindings.joins.find? name).map fun index => .reference (some (.spread index)) ""
  | _ => none

end Scope

/-! ### Member paths -/

namespace Node

/-- The root, the names and the trailing index of a chain of member accesses.  The names and the
index already collected belong to accesses further out. -/
def memberPath (path : List String) (index : Option Int) :
    Node → Except ExprFault (Node × List String × Option Int)
  | member receiver property true =>
    match property with
    | literal (.str key) => receiver.memberPath (key :: path) index
    | literal (.int n) =>
      if index.isNone && path.isEmpty then receiver.memberPath path (some (Json.wrapSigned 32 n))
      else .error (.unsupportedComputedAccess (member receiver property true).toSource)
    | literal _ => .error (.unsupportedComputedAccess (member receiver property true).toSource)
    | _ => .error (.computedKeyNotLiteral (member receiver property true).toSource)
  | member receiver property false => receiver.memberPath (property.keyName :: path) index
  | root => .ok (root, path, index)

/-- Whether a node stands for null. -/
def isNullLiteral : Node → Bool
  | literal .null => true
  | identifier name => name = "undefined"
  | _ => false

end Node

/-- What a member path leads to. -/
inductive Access where
  | expr (e : Expr)
  /-- A named constant, which becomes a parameter. -/
  | number (name : String) (value : Json)
deriving Repr, Inhabited

/-- The numeric constants that can be named. -/
def numberConstants : List (String × Json) :=
  [("MAX_SAFE_INTEGER", .int 9007199254740991),
    ("MIN_SAFE_INTEGER", .int (-9007199254740991)),
    ("MAX_VALUE", .double (.ofDecimal false 17976931348623157 292)),
    ("MIN_VALUE", .double (.ofDecimal false 5 (-324))),
    ("EPSILON", .double (.ofDecimal false 2220446049250313 (-31)))]

namespace Scope

/-- Follows a path through the current shape from a node reached over `walked`.  A member the shape
does not know is taken for a column. -/
def shapePath (path : List String) :
    Option Shape → List String → List String → Except ExprFault Expr
  | none, _, _ => .ok (.column (path.getLastD "") "" none)
  | some (.reference table), _, _ :: _ =>
    .ok (.column (path.getLastD "") "" (some (.joinResult table)))
  | some (.object properties), walked, key :: rest =>
    shapePath path (Shape.lookup properties key) (walked ++ [key]) rest
  | some (.column _ _), walked, key :: _ => .error (.noShapeMember key (Text.dotted walked))
  | some (.array _), walked, key :: _ => .error (.noShapeMember key (Text.dotted walked))
  | some node, _, [] =>
    match Expr.ofShapeNode node with
    | some e => .ok e
    | none => .error (.unflattenedCollection (Text.dotted path))

/-- A member of a group: its key, or a member of its key. -/
def groupingAccess (s : Scope) (root first : String) (rest : List String) :
    Except ExprFault Expr :=
  if first ≠ "key" || s.groupByKey.isAbsent then .error (.unsupportedGroupingMember root first)
  else
    match rest, s.groupByKey with
    | [], key => .ok key
    | [name], .object properties =>
      match Expr.findProperty properties name with
      | .absent => .error (.noGroupingKeyMember name)
      | e => .ok e
    | rest, _ => .error (.noGroupingKeyMember (Text.dotted rest))

/-- A column of a row, qualified by the path that leads to it. -/
def rowColumn (path : List String) : Expr :=
  .column (path.getLastD "") (Text.dotted path.dropLast) none

/-- What a path from a named root leads to. -/
def access (s : Scope) (root : String) (path : List String) (index : Option Int) :
    Except ExprFault Access :=
  let b := s.bindings
  match path with
  | [] => .error (.indexOnRoot root)
  | first :: rest =>
    if index.isSome && !b.params.contains root then .error .indexOffParameter
    else if !b.excluded.isEmpty && root = b.excluded then
      if rest.isEmpty then .ok (.expr (.excludedColumn first)) else .error .excludedPath
    else if root = "Number" && !b.binds root then
      match Assoc.find? numberConstants first, rest with
      | some value, [] => .ok (.number first value)
      | _, _ => .error (.unsupportedNumberConstant (Text.dotted path))
    else if b.groupings.contains root then .expr <$> s.groupingAccess root first rest
    else if b.params.contains root then .ok (.expr (.param root (Text.dotted path) index))
    else
      match (if !b.joinResult.isEmpty && root = b.joinResult then b.shape else none) with
      | some shape => .expr <$> shapePath path (Shape.lookup shape first) [first] rest
      | none =>
        match b.joins.find? root with
        | some table =>
          .ok (.expr (.column (path.getLastD "") "" (some (.joinParam table))))
        | none =>
          if b.tables.contains root || root = b.joinResult then .ok (.expr (rowColumn path))
          else if !s.helpers.isEmpty && root = s.helpers then
            .error (.helperNotCalled root (Text.dotted path))
          else .error (.unknownIdentifier root)

end Scope

namespace Resolve

/-- The expression of an identifier. -/
def identifier (name : String) : Resolve Expr := do
  ofExcept ((← get).identifier name)

/-- The expression of a chain of member accesses. -/
def member (node : Node) : Resolve Expr := do
  match ← ofExcept (node.memberPath [] none) with
  | (.identifier root, path, index) =>
    match ← ofExcept ((← get).access root path index) with
    | .expr e => return e
    | .number name value => autoParam value name none
  | _ => fail (ExprFault.unsupportedMemberAccess node.toSource)

end Resolve

end FluentQuery
