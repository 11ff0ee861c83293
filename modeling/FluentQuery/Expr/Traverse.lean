import FluentQuery.Expr.Basic

/-!
# Walking expressions and replacing their nodes

`Expr.walk` lists the nodes of an expression, parents before children.  `Expr.replaceM` offers
every node to a function, children before parents, and puts what the function returns in the
node's place; nothing inside a replacement is offered again.  Empty slots are neither listed nor
offered.
-/

namespace FluentQuery

set_option autoImplicit false

namespace Expr

mutual

/-- The nodes of an expression in pre-order. -/
def walk : Expr → List Expr
  | absent => []
  | column name table source => [column name table source]
  | excludedColumn name => [excludedColumn name]
  | constant value => [constant value]
  | param p property index => [param p property index]
  | arithmetic op left right => arithmetic op left right :: (walk left ++ walk right)
  | concat left right => concat left right :: (walk left ++ walk right)
  | stringMethod method operand => stringMethod method operand :: walk operand
  | caseWhen conditions elseResult =>
    caseWhen conditions elseResult :: (walkConditions conditions ++ walk elseResult)
  | coalesce expressions => coalesce expressions :: walkList expressions
  | aggregate function expression => aggregate function expression :: walk expression
  | window function partitionBy orderBy =>
    window function partitionBy orderBy :: (walkList partitionBy ++ walkOrders orderBy)
  | reference source table => [reference source table]
  | allColumns => [allColumns]
  | comparison op left right => comparison op left right :: (walk left ++ walk right)
  | logical op left right => logical op left right :: (walk left ++ walk right)
  | negation expression => negation expression :: walk expression
  | booleanConstant value => [booleanConstant value]
  | booleanColumn name table source => [booleanColumn name table source]
  | booleanParam p property => [booleanParam p property]
  | textTest method operand arguments =>
    textTest method operand arguments :: (walk operand ++ walkList arguments)
  | caseInsensitive function left right =>
    caseInsensitive function left right :: (walk left ++ walk right)
  | membership value list => membership value list :: (walk value ++ walk list)
  | isNull expression negated => isNull expression negated :: walk expression
  | object properties => object properties :: walkProperties properties
  | array elements => array elements :: walkList elements

/-- The nodes of several expressions. -/
def walkList : List Expr → List Expr
  | [] => []
  | e :: rest => walk e ++ walkList rest

/-- The nodes of conditions and their results. -/
def walkConditions : List (Expr × Expr) → List Expr
  | [] => []
  | (condition, result) :: rest => walk condition ++ walk result ++ walkConditions rest

/-- The nodes of ordering keys. -/
def walkOrders : List (Expr × Bool) → List Expr
  | [] => []
  | (key, _) :: rest => walk key ++ walkOrders rest

/-- The nodes of the members of an object. -/
def walkProperties : List (String × Expr) → List Expr
  | [] => []
  | (_, value) :: rest => walk value ++ walkProperties rest

end

/-- Whether a window function occurs in an expression. -/
def hasWindow (e : Expr) : Bool :=
  e.walk.any fun
    | window _ _ _ => true
    | _ => false

section

variable {m : Type → Type} [Monad m]

/-- Offers a node and takes the replacement, if there is one. -/
def offer (f : Expr → m (Option Expr)) (node : Expr) : m Expr := do
  return (← f node).getD node

mutual

/-- Replaces nodes of an expression from the leaves up. -/
def replaceM (f : Expr → m (Option Expr)) : Expr → m Expr
  | absent => pure absent
  | column name table source => offer f (column name table source)
  | excludedColumn name => offer f (excludedColumn name)
  | constant value => offer f (constant value)
  | param p property index => offer f (param p property index)
  | arithmetic op left right => do
    let left ← replaceM f left
    let right ← replaceM f right
    offer f (arithmetic op left right)
  | concat left right => do
    let left ← replaceM f left
    let right ← replaceM f right
    offer f (concat left right)
  | stringMethod method operand => do
    let operand ← replaceM f operand
    offer f (stringMethod method operand)
  | caseWhen conditions elseResult => do
    let conditions ← replaceConditionsM f conditions
    let elseResult ← replaceM f elseResult
    offer f (caseWhen conditions elseResult)
  | coalesce expressions => do
    let expressions ← replaceListM f expressions
    offer f (coalesce expressions)
  | aggregate function expression => do
    let expression ← replaceM f expression
    offer f (aggregate function expression)
  | window function partitionBy orderBy => do
    let partitionBy ← replaceListM f partitionBy
    let orderBy ← replaceOrdersM f orderBy
    offer f (window function partitionBy orderBy)
  | reference source table => offer f (reference source table)
  | allColumns => offer f allColumns
  | comparison op left right => do
    let left ← replaceM f left
    let right ← replaceM f right
    offer f (comparison op left right)
  | logical op left right => do
    let left ← replaceM f left
    let right ← replaceM f right
    offer f (logical op left right)
  | negation expression => do
    let expression ← replaceM f expression
    offer f (negation expression)
  | booleanConstant value => offer f (booleanConstant value)
  | booleanColumn name table source => offer f (booleanColumn name table source)
  | booleanParam p property => offer f (booleanParam p property)
  | textTest method operand arguments => do
    let operand ← replaceM f operand
    let arguments ← replaceListM f arguments
    offer f (textTest method operand arguments)
  | caseInsensitive function left right => do
    let left ← replaceM f left
    let right ← replaceM f right
    offer f (caseInsensitive function left right)
  | membership value list => do
    let value ← replaceM f value
    let list ← replaceM f list
    offer f (membership value list)
  | isNull expression negated => do
    let expression ← replaceM f expression
    offer f (isNull expression negated)
  | object properties => do
    let properties ← replacePropertiesM f properties
    offer f (object properties)
  | array elements => do
    let elements ← replaceListM f elements
    offer f (array elements)

/-- Replaces nodes of several expressions, in order. -/
def replaceListM (f : Expr → m (Option Expr)) : List Expr → m (List Expr)
  | [] => pure []
  | e :: rest => do
    let e ← replaceM f e
    let rest ← replaceListM f rest
    return e :: rest

/-- Replaces nodes of each condition before those of its result. -/
def replaceConditionsM (f : Expr → m (Option Expr)) : List (Expr × Expr) → m (List (Expr × Expr))
  | [] => pure []
  | (condition, result) :: rest => do
    let condition ← replaceM f condition
    let result ← replaceM f result
    let rest ← replaceConditionsM f rest
    return (condition, result) :: rest

/-- Replaces nodes of ordering keys. -/
def replaceOrdersM (f : Expr → m (Option Expr)) : List (Expr × Bool) → m (List (Expr × Bool))
  | [] => pure []
  | (key, descending) :: rest => do
    let key ← replaceM f key
    let rest ← replaceOrdersM f rest
    return (key, descending) :: rest

/-- Replaces nodes of the members of an object. -/
def replacePropertiesM (f : Expr → m (Option Expr)) :
    List (String × Expr) → m (List (String × Expr))
  | [] => pure []
  | (name, value) :: rest => do
    let value ← replaceM f value
    let rest ← replacePropertiesM f rest
    return (name, value) :: rest

end

end

/-- Replaces nodes without effects. -/
def replace (f : Expr → Option Expr) (e : Expr) : Expr :=
  Id.run (replaceM (fun node => pure (f node)) e)

/-- The nodes that are offered, in order, and the result. -/
def replaceTrace (f : Expr → Option Expr) (e : Expr) : List Expr × Expr :=
  let traced : StateM (List Expr) Expr :=
    replaceM (fun node => do modify (node :: ·); return f node) e
  let (result, offered) := traced.run []
  (offered.reverse, result)

end Expr

end FluentQuery
