import FluentQuery.Json.Value

/-!
# Result shapes

A join or a projection yields rows whose fields are columns, whole rows, nested objects or
collections of the tables involved.  A `ResultShape` says which field is which, so that a later
lambda can follow a path such as `r.user.name` to a column of a table.
-/

namespace FluentQuery

set_option autoImplicit false

/-- What one field of a result row holds.  Tables are given by their index in the statement. -/
inductive Shape where
  | column (table : Int) (name : String)
  | object (properties : List (String × Shape))
  | reference (table : Int)
  | array (element : Option Shape)
deriving Repr, Inhabited

/-- The fields of a result row, in the order they were written. -/
abbrev ResultShape := List (String × Shape)

namespace Shape

/-- The field with the given name; of several the first. -/
def lookup (properties : ResultShape) (key : String) : Option Shape :=
  match properties with
  | [] => none
  | (name, node) :: rest => if name = key then some node else lookup rest key

/-- The node a path leads to from a given node, through nested objects only. -/
def follow : Shape → List String → Option Shape
  | node, [] => some node
  | object properties, key :: path => (lookup properties key).bind fun node => follow node path
  | _, _ :: _ => none

mutual

/-- The description of a node. -/
def toJson : Shape → Json
  | column table name =>
    .object [("type", .str "column"), ("sourceTable", .int table), ("columnName", .str name)]
  | reference table => .object [("type", .str "reference"), ("sourceTable", .int table)]
  | array none => .object [("type", .str "array"), ("elementShape", .null)]
  | array (some element) => .object [("type", .str "array"), ("elementShape", element.toJson)]
  | object properties =>
    .object [("type", .str "object"), ("properties", .object (membersJson properties))]

/-- The descriptions of the fields of an object. -/
def membersJson : List (String × Shape) → List (String × Json)
  | [] => []
  | (name, node) :: rest => (name, node.toJson) :: membersJson rest

end

mutual

/-- The highest table index in a node, or -1. -/
def maxTable : Shape → Int
  | column table _ => table
  | reference table => table
  | array none => -1
  | array (some element) => element.maxTable
  | object properties => maxTableOf properties

/-- The highest table index in the fields of an object, or -1. -/
def maxTableOf : List (String × Shape) → Int
  | [] => -1
  | (_, node) :: rest => max node.maxTable (max (-1) (maxTableOf rest))

end

end Shape

namespace ResultShape

/-- The node a path leads to; the empty path leads nowhere. -/
def resolve (shape : ResultShape) : List String → Option Shape
  | [] => none
  | key :: path => (Shape.lookup shape key).bind fun node => node.follow path

/-- The highest table index in a shape, or -1. -/
def maxSourceTable (shape : ResultShape) : Int :=
  Shape.maxTableOf shape

/-- The description of a shape; of two fields with one name the later is shown. -/
def toJson (shape : ResultShape) : Json :=
  (Shape.object shape).toJson

end ResultShape

end FluentQuery
