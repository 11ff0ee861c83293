import FluentQuery.Error.Basic
import FluentQuery.Json.Printer

/-!
# Trees of query-building functions

A query is written as a function such as `(q, p) => q.from("users").where(u => u.age > p.min)`.
`Node` is the tree of such a function, with just the constructs that query builders use.  It can be
rendered as a document (`Node.toJson`) and as canonical source text (`Node.toSource`), which
serves as the key under which a parsed query is remembered.
-/

namespace FluentQuery

set_option autoImplicit false

mutual

/-- A tree node. -/
inductive Node where
  | identifier (name : String)
  | literal (value : Json)
  /-- `object.property`, or `object[property]` when computed. -/
  | member (object property : Node) (computed : Bool)
  | call (callee : Node) (arguments : List Node)
  | binary (op : String) (left right : Node)
  | logical (op : String) (left right : Node)
  | unary (op : String) (argument : Node)
  | conditional (test consequent alternate : Node)
  | object (properties : List Property)
  | array (elements : List Node)
  | arrow (params : List String) (body : Node)
  | block (body : List Node)
  | returnStatement (argument : Option Node)

/-- A member of an object literal. -/
inductive Property where
  | spread (value : Node)
  | named (key : String) (value : Node) (shorthand : Bool)

end

instance : Inhabited Node := ⟨.literal .null⟩

namespace Node

/-- The name of a node's type. -/
def typeName : Node → String
  | identifier _ => "Identifier"
  | literal _ => "Literal"
  | member _ _ _ => "MemberExpression"
  | call _ _ => "CallExpression"
  | binary _ _ _ => "BinaryExpression"
  | logical _ _ _ => "LogicalExpression"
  | unary _ _ => "UnaryExpression"
  | conditional _ _ _ => "ConditionalExpression"
  | object _ => "ObjectExpression"
  | array _ => "ArrayExpression"
  | arrow _ _ => "ArrowFunctionExpression"
  | block _ => "BlockStatement"
  | returnStatement _ => "ReturnStatement"

def isBlock : Node → Bool
  | block _ => true
  | _ => false

def isObject : Node → Bool
  | object _ => true
  | _ => false

def isArray : Node → Bool
  | array _ => true
  | _ => false

def isLiteral : Node → Bool
  | literal _ => true
  | _ => false

/-- The name a property node gives: that of an identifier or of a string literal, else none. -/
def keyName : Node → String
  | identifier name => name
  | literal (.str s) => s
  | _ => ""

/-! ### Documents -/

/-- The document of an identifier. -/
def identifierJson (name : String) : Json :=
  .object [("type", .str "Identifier"), ("name", .str name)]

end Node

mutual

/-- The document of a node. -/
def Node.toJson : Node → Json
  | .identifier name => Node.identifierJson name
  | .literal value => .object [("type", .str "Literal"), ("value", value)]
  | .member object property computed =>
    .object [("type", .str "MemberExpression"), ("object", object.toJson),
      ("property", property.toJson), ("computed", .bool computed)]
  | .call callee arguments =>
    .object [("type", .str "CallExpression"), ("callee", callee.toJson),
      ("arguments", .arr (Node.toJsonList arguments))]
  | .binary op left right =>
    .object [("type", .str "BinaryExpression"), ("operator", .str op),
      ("left", left.toJson), ("right", right.toJson)]
  | .logical op left right =>
    .object [("type", .str "LogicalExpression"), ("operator", .str op),
      ("left", left.toJson), ("right", right.toJson)]
  | .unary op argument =>
    .object [("type", .str "UnaryExpression"), ("operator", .str op), ("prefix", .bool true),
      ("argument", argument.toJson)]
  | .conditional test consequent alternate =>
    .object [("type", .str "ConditionalExpression"), ("test", test.toJson),
      ("consequent", consequent.toJson), ("alternate", alternate.toJson)]
  | .object properties =>
    .object [("type", .str "ObjectExpression"), ("properties", .arr (Property.toJsonList properties))]
  | .array elements =>
    .object [("type", .str "ArrayExpression"), ("elements", .arr (Node.toJsonList elements))]
  | .arrow params body =>
    .object [("type", .str "ArrowFunctionExpression"),
      ("params", .arr (params.map Node.identifierJson)), ("body", body.toJson),
      ("expression", .bool (!body.isBlock))]
  | .block body =>
    .object [("type", .str "BlockStatement"), ("body", .arr (Node.toJsonList body))]
  | .returnStatement none =>
    .object [("type", .str "ReturnStatement"), ("argument", .null)]
  | .returnStatement (some argument) =>
    .object [("type", .str "ReturnStatement"), ("argument", argument.toJson)]

/-- The documents of several nodes. -/
def Node.toJsonList : List Node → List Json
  | [] => []
  | n :: rest => n.toJson :: Node.toJsonList rest

/-- The document of a member of an object literal. -/
def Property.toJson : Property → Json
  | .spread value => .object [("type", .str "SpreadElement"), ("argument", value.toJson)]
  | .named key value shorthand =>
    .object [("type", .str "Property"), ("key", Node.identifierJson key), ("value", value.toJson),
      ("computed", .bool false), ("shorthand", .bool shorthand)]

/-- The documents of the members of an object literal. -/
def Property.toJsonList : List Property → List Json
  | [] => []
  | p :: rest => p.toJson :: Property.toJsonList rest

end

/-! ### Source text -/

mutual

/-- Canonical source text: operators are parenthesised and blanks are fixed. -/
def Node.toSource : Node → String
  | .identifier name => name
  | .literal value => value.compress
  | .member object property computed =>
    if computed then object.toSource ++ "[" ++ property.toSource ++ "]"
    else object.toSource ++ "." ++ property.toSource
  | .call callee arguments => callee.toSource ++ "(" ++ Node.toSourceList arguments ++ ")"
  | .binary op left right => "(" ++ left.toSource ++ " " ++ op ++ " " ++ right.toSource ++ ")"
  | .logical op left right => "(" ++ left.toSource ++ " " ++ op ++ " " ++ right.toSource ++ ")"
  | .unary op argument => op ++ argument.toSource
  | .conditional test consequent alternate =>
    "(" ++ test.toSource ++ " ? " ++ consequent.toSource ++ " : " ++ alternate.toSource ++ ")"
  | .object [] => "\x7b\x7d"
  | .object (p :: rest) => "\x7b " ++ Property.toSourceList (p :: rest) ++ " \x7d"
  | .array elements => "[" ++ Node.toSourceList elements ++ "]"
  | .arrow params body =>
    let text := body.toSource
    "(" ++ String.intercalate ", " params ++ ") => " ++
      (if body.isObject then "(" ++ text ++ ")" else text)
  | .block body => "\x7b " ++ Node.statementsSource body ++ "\x7d"
  | .returnStatement none => "return;"
  | .returnStatement (some argument) => "return " ++ argument.toSource ++ ";"

/-- Source texts separated by commas. -/
def Node.toSourceList : List Node → String
  | [] => ""
  | [n] => n.toSource
  | n :: rest => n.toSource ++ ", " ++ Node.toSourceList rest

/-- Source texts each followed by a blank. -/
def Node.statementsSource : List Node → String
  | [] => ""
  | n :: rest => n.toSource ++ " " ++ Node.statementsSource rest

/-- The source text of a member of an object literal. -/
def Property.toSource : Property → String
  | .spread value => "..." ++ value.toSource
  | .named key value shorthand => if shorthand then key else key ++ ": " ++ value.toSource

/-- Members of an object literal separated by commas. -/
def Property.toSourceList : List Property → String
  | [] => ""
  | [p] => p.toSource
  | p :: rest => p.toSource ++ ", " ++ Property.toSourceList rest

end

namespace Node

/-- The value an arrow function returns: its expression body, or the argument of the single return
statement of its block. -/
def lambdaBody : Node → Except LoadFault Node
  | block [returnStatement (some value)] => .ok value
  | block [returnStatement none] => .error .lambdaWithoutValue
  | block _ => .error .lambdaBlock
  | body => .ok body

end Node

end FluentQuery
