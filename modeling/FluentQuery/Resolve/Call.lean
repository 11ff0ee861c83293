import FluentQuery.Resolve.Operator

/-!
# Method calls in lambda bodies

What a method call in a lambda body means depends on its receiver: the aggregate of a group, a helper
function, a window, a function on texts, or a test of texts and lists.
-/

namespace FluentQuery

set_option autoImplicit false

namespace AggregateFunction

/-- The aggregate a method of a group computes, counting apart. -/
def ofMethod? (method : String) : Option AggregateFunction :=
  match method with
  | "sum" => some sum
  | "avg" | "average" => some avg
  | "min" => some min
  | "max" => some max
  | _ => none

end AggregateFunction

namespace StringMethod

/-- The text function with the given name. -/
def ofName? (method : String) : Option StringMethod :=
  [toLowerCase, toUpperCase].find? (·.name == method)

end StringMethod

/-- The window a chain of window calls describes. -/
structure WindowSpec where
  /-- The row the window ranges over. -/
  row : String
  partitionBy : List Expr := []
  orderBy : List (Expr × Bool) := []
deriving Repr, Inhabited

/-- An ordering call of a window. -/
structure WindowOrderCall where
  isThenBy : Bool
  descending : Bool
deriving DecidableEq, Repr

/-- The ordering call with the given name. -/
def WindowOrderCall.ofName? (method : String) : Option WindowOrderCall :=
  match method with
  | "orderBy" => some ⟨false, false⟩
  | "orderByDescending" => some ⟨false, true⟩
  | "thenBy" => some ⟨true, false⟩
  | "thenByDescending" => some ⟨true, true⟩
  | _ => none

/-- What a method call in a lambda body is. -/
inductive CallKind where
  /-- A function of the host language. -/
  | external (receiver : String)
  /-- An aggregate of a group. -/
  | grouping
  /-- A case-insensitive test. -/
  | helper
  | window (function : WindowFunction)
  | dateArithmetic
  | stringMethod (method : StringMethod)
  | textTest (test : TextTest)
  | unsupported
deriving Repr, Inhabited

/-- What a call of a method is, by its name alone. -/
def CallKind.ofMethod (method : String) : CallKind :=
  match WindowFunction.ofName? method, StringMethod.ofName? method, TextTest.ofName? method with
  | some function, _, _ => .window function
  | none, some function, _ => .stringMethod function
  | none, none, some test => .textTest test
  | none, none, none => if method = "getTime" then .dateArithmetic else .unsupported

namespace Scope

/-- What a call of a method on a receiver is. -/
def callKind (s : Scope) (receiver : Node) (method : String) : CallKind :=
  match receiver with
  | .identifier name =>
    if name = "Date" || name = "Math" || name = "JSON" then .external name
    else if s.bindings.groupings.contains name then .grouping
    else .ofMethod method
  | .member (.identifier name) property _ =>
    if !s.helpers.isEmpty && name = s.helpers && property.keyName = "functions" then .helper
    else .ofMethod method
  | _ => .ofMethod method

end Scope

/-- An argument of a call, with the work that resolves it. -/
structure Argument where
  node : Node
  /-- Its value. -/
  value : Resolve Expr
  /-- The value of the lambda it is, given the method it is passed to and how the parameters of the
  lambda are bound. -/
  lambda : String → (List String → Resolve Unit) → Resolve Expr

namespace Resolve

/-! ### Binding -/

/-- Binds the parameter of a window key to the row of the window. -/
def bindWindowRow (row : String) : List String → Resolve Unit
  | [] => return ()
  | name :: _ => do
    let b := (← get).bindings
    if b.tables.contains row then bind (·.bindTable name)
    else
      match b.joins.find? row with
      | some index => bind (·.bindJoin name index)
      | none =>
        if row = b.joinResult then bind (·.bindShape name b.shape)
        else fail (ExprFault.windowRowUnbound row)

/-- Binds the parameter of a selector over the rows of a group. -/
def bindElement : List String → Resolve Unit
  | [] => return ()
  | name :: _ => bind (·.bindElement name)

/-! ### Kinds of calls -/

/-- An aggregate of a group. -/
def groupingCall (method : String) (arguments : List Argument) : Resolve Expr :=
  if method = "count" then
    if arguments.isEmpty then return .aggregate .count .absent
    else fail ExprFault.groupCountPredicate
  else
    match AggregateFunction.ofMethod? method, arguments with
    | none, _ => fail (ExprFault.unsupportedGroupingMethod method)
    | some function, [selector] => do
      let e ← selector.lambda method bindElement
      return .aggregate function e
    | some _, _ => fail (ExprFault.groupSelectorMissing method)

/-- A case-insensitive test. -/
def helperCall (method : String) (arguments : List Argument) : Resolve Expr :=
  match CaseInsensitiveTest.ofName? method, arguments with
  | none, _ => fail (ExprFault.unknownHelper method)
  | some test, [left, right] => do
    let l ← left.value
    let r ← operand right.node l right.value
    return .caseInsensitive test l r
  | some _, _ => fail (ExprFault.helperTakesTwoArguments method)

/-- A window function over the window described before it. -/
def windowCall (function : WindowFunction) (window : Resolve WindowSpec) : Resolve Expr := do
  let window ← window
  if window.orderBy.isEmpty then fail (ExprFault.windowWithoutOrder function.name)
  else return .window function window.partitionBy window.orderBy

/-- A function on texts. -/
def textCall (function : StringMethod) (receiver : Resolve Expr) (arguments : List Argument) :
    Resolve Expr :=
  if arguments.isEmpty then do
    let e ← receiver
    return .stringMethod function e
  else fail (ExprFault.takesNoArguments function.name)

/-- A test of a text, or of membership in a list. -/
def textTestCall (test : TextTest) (receiver : Node) (receiverValue : Resolve Expr)
    (argument : Argument) : Resolve Expr :=
  if test = .includes && receiver.isArray then do
    let value ← argument.value
    let items ← receiverValue
    return .membership value items
  else do
    let target ← receiverValue
    if test = .includes && target.isParam then
      let value ← argument.value
      return .membership value target
    else
      let e ← operand argument.node target argument.value
      return .textTest test target [e]

/-- A call of a method; `window` is the window the receiver describes, if it describes one. -/
def methodCall (receiver : Node) (method : String) (receiverValue : Resolve Expr)
    (window : Resolve WindowSpec) (arguments : List Argument) : Resolve Expr := do
  match (← get).callKind receiver method with
  | .external name => fail (ExprFault.externalCall (name ++ "." ++ method ++ "()"))
  | .grouping => groupingCall method arguments
  | .helper => helperCall method arguments
  | .window function => windowCall function window
  | .dateArithmetic => fail ExprFault.dateArithmetic
  | .stringMethod function => textCall function receiverValue arguments
  | .textTest test =>
    match arguments with
    | [argument] => textTestCall test receiver receiverValue argument
    | _ => fail (ExprFault.takesOneArgument method)
  | .unsupported => fail (ExprFault.unsupportedMethod method)

/-! ### Windows -/

/-- A window with more keys to partition by. -/
def partitionWindow (window : WindowSpec) (method : String) (arguments : List Argument) :
    Resolve WindowSpec :=
  if arguments.isEmpty then fail ExprFault.partitionWithoutSelector
  else do
    let keys ← arguments.mapM fun argument => argument.lambda method (bindWindowRow window.row)
    return { window with partitionBy := window.partitionBy ++ keys }

/-- A window with one more key to order by. -/
def orderWindow (window : WindowSpec) (method : String) (arguments : List Argument) :
    Resolve WindowSpec :=
  match WindowOrderCall.ofName? method, arguments with
  | none, _ => fail (ExprFault.unsupportedWindowMethod method)
  | some call, [argument] =>
    if call.isThenBy && window.orderBy.isEmpty then fail (ExprFault.windowThenByFirst method)
    else if !call.isThenBy && !window.orderBy.isEmpty then fail ExprFault.windowOrderedTwice
    else do
      let key ← argument.lambda method (bindWindowRow window.row)
      return { window with orderBy := window.orderBy ++ [(key, call.descending)] }
  | some _, _ => fail (ExprFault.takesOneSelector method)

/-- The window over the rows of the table it is opened on. -/
def openWindow : List Argument → Resolve WindowSpec
  | [⟨.identifier row, _, _⟩] => return { row }
  | _ => fail ExprFault.windowRowMissing

theorem openWindow_many (first second : Argument) (rest : List Argument) :
    openWindow (first :: second :: rest) = fail ExprFault.windowRowMissing := by
  rw [openWindow]
  simp

/-- Whether a call opens a window. -/
def opensWindow (helpers : String) (receiver : Node) (method : String) : Bool :=
  match receiver with
  | .identifier name => method = "window" && name = helpers
  | _ => false

/-- One call of a chain that describes a window; `earlier` is the window described before it. -/
def windowStep (receiver : Node) (method : String) (earlier : Resolve WindowSpec)
    (arguments : List Argument) : Resolve WindowSpec := do
  if opensWindow (← get).helpers receiver method then openWindow arguments
  else
    let window ← earlier
    if method = "partitionBy" then partitionWindow window method arguments
    else orderWindow window method arguments

end Resolve

end FluentQuery
