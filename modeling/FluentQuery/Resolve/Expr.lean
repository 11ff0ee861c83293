import FluentQuery.Resolve.Call

/-!
# Resolving lambda bodies

`Node.resolve` turns the body of a lambda into an expression.  Names are looked up in the scope, and
every literal but null becomes an automatic parameter, numbered in the order in which they are
met.  In a predicate `||` is a disjunction; elsewhere, between values, it picks the first that is
not null.
-/

namespace FluentQuery

set_option autoImplicit false

mutual

/-- The expression of a node; `isPredicate` says whether it stands in predicate position. -/
def Node.resolve (isPredicate : Bool) : Node → Resolve Expr
  | .identifier name => Resolve.identifier name
  | .literal value => Resolve.literal value .absent
  | .member receiver property computed => Resolve.member (.member receiver property computed)
  | .binary op left right =>
    Resolve.binary op left right (left.resolve false) (right.resolve false)
  | .logical op left right =>
    Resolve.logical isPredicate op (fun p => left.resolve p) (fun p => right.resolve p)
  | .unary op argument => Resolve.unary op argument (fun p => argument.resolve p)
  | .conditional test consequent alternate =>
    Resolve.conditional (test.resolve true) (consequent.resolve false) (alternate.resolve false)
  | .object properties => .object <$> Property.resolveList properties
  | .array elements => .array <$> Node.resolveList elements
  | .arrow _ _ => Resolve.fail ExprFault.nestedLambda
  | .block _ => Resolve.fail (ExprFault.unsupportedExpression "BlockStatement")
  | .returnStatement _ => Resolve.fail (ExprFault.unsupportedExpression "ReturnStatement")
  | .call (.identifier name) arguments =>
    Resolve.fail (ExprFault.externalCall (Node.call (.identifier name) arguments).toSource)
  | .call (.member receiver property computed) arguments =>
    Resolve.methodCall receiver property.keyName (receiver.resolve false)
      (Node.resolveWindow (.call (.member receiver property computed) arguments) receiver)
      (Node.arguments arguments)
  | .call callee arguments =>
    Resolve.fail (ExprFault.unsupportedCall (Node.call callee arguments).toSource)

/-- The expressions of several nodes, from left to right. -/
def Node.resolveList : List Node → Resolve (List Expr)
  | [] => return []
  | node :: rest => do
    let e ← node.resolve false
    return e :: (← Node.resolveList rest)

/-- The members of a projection. -/
def Property.resolveList : List Property → Resolve (List (String × Expr))
  | [] => return []
  | .spread argument :: rest => do
    let members ← Resolve.spread argument (argument.resolve false)
    return members ++ (← Property.resolveList rest)
  | .named key value _ :: rest => do
    let e ← value.resolve false
    return (key, e) :: (← Property.resolveList rest)

/-- The expression of a lambda's body, its parameters bound by `bindParams` for that long. -/
def Node.resolveLambda (isPredicate : Bool) (method : String)
    (bindParams : List String → Resolve Unit) : Node → Resolve Expr
  | .arrow params (.block [.returnStatement (some value)]) =>
    Resolve.withParams bindParams params (value.resolve isPredicate)
  | .arrow params (.block [.returnStatement none]) =>
    Resolve.withParams bindParams params (Resolve.failUnplaced LoadFault.lambdaWithoutValue)
  | .arrow params (.block _) =>
    Resolve.withParams bindParams params (Resolve.failUnplaced LoadFault.lambdaBlock)
  | .arrow params body => Resolve.withParams bindParams params (body.resolve isPredicate)
  | _ => Resolve.fail (ExprFault.notLambda method)

/-- Arguments with the work that resolves them. -/
def Node.arguments : List Node → List Argument
  | [] => []
  | node :: rest =>
    ⟨node, node.resolve false, fun method bindParams => node.resolveLambda false method bindParams⟩
      :: Node.arguments rest

/-- The window described by a chain of calls that starts at the helpers' `window(row)`; `whole` is
the call the window is for. -/
def Node.resolveWindow (whole : Node) : Node → Resolve WindowSpec
  | .call (.member receiver property _) arguments =>
    Resolve.windowStep receiver property.keyName (Node.resolveWindow whole receiver)
      (Node.arguments arguments)
  | .call _ _ => Resolve.fail (ExprFault.malformedWindow whole.toSource)
  | _ => do Resolve.fail (ExprFault.windowStart (← get).helpers)

end

end FluentQuery
