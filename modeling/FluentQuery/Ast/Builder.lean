import FluentQuery.Ast.Node

/-!
# Building trees by hand

Small constructors with which a query-building function can be written down directly.  They
produce the same trees as loading the function's document.
-/

namespace FluentQuery

set_option autoImplicit false

namespace Node

/-- The identifier that stands for a value never given. -/
def undefined : Node :=
  identifier "undefined"

/-- `object.name` -/
def dot (object : Node) (name : String) : Node :=
  member object (identifier name) false

/-- `object[index]` -/
def atIndex (object index : Node) : Node :=
  member object index true

/-- `object.method(arguments)` -/
def invoke (object : Node) (method : String) (arguments : List Node) : Node :=
  call (object.dot method) arguments

/-- The operators an expression can be built with. -/
inductive Operator where
  | equal | notEqual | looseEqual | looseNotEqual | less | lessEqual | greater | greaterEqual
  | plus | minus | times | divide | modulo
  | conjunction | disjunction | nullish
deriving DecidableEq, Repr

namespace Operator

/-- How an operator is written; equality is strict unless it is asked to be loose. -/
def symbol : Operator → String
  | equal => "==="
  | notEqual => "!=="
  | looseEqual => "=="
  | looseNotEqual => "!="
  | less => "<"
  | lessEqual => "<="
  | greater => ">"
  | greaterEqual => ">="
  | plus => "+"
  | minus => "-"
  | times => "*"
  | divide => "/"
  | modulo => "%"
  | conjunction => "&&"
  | disjunction => "||"
  | nullish => "??"

/-- Whether an operator makes a logical rather than a binary node. -/
def isLogical : Operator → Bool
  | conjunction | disjunction | nullish => true
  | _ => false

end Operator

/-- `left op right` -/
def operation (op : Operator) (left right : Node) : Node :=
  if op.isLogical then logical op.symbol left right else binary op.symbol left right

/-- `!argument` -/
def negation (argument : Node) : Node :=
  unary "!" argument

/-- `-argument` -/
def minus (argument : Node) : Node :=
  unary "-" argument

/-- `(params) => { statements }` -/
def arrowBlock (params : List String) (statements : List Node) : Node :=
  arrow params (block statements)

/-- `return value;` -/
def returning (value : Node) : Node :=
  returnStatement (some value)

end Node

end FluentQuery
