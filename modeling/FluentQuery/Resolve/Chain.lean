import FluentQuery.Resolve.Change
import FluentQuery.Resolve.Join
import FluentQuery.Resolve.Step

/-!
# Query chains

`Node.chain` resolves a chain of calls such as `q.from("users").where(…).take(10)` into an operation.
A chain starts at a table, at a nested query, or at the operation of a plan that is being extended.
-/

namespace FluentQuery

set_option autoImplicit false

/-! ### Roots -/

/-- The methods a chain can start with. -/
inductive RootMethod where
  | from
  | insertInto
  | update
  | deleteFrom
deriving DecidableEq, Repr

namespace RootMethod

def name : RootMethod → String
  | «from» => "from"
  | insertInto => "insertInto"
  | update => "update"
  | deleteFrom => "deleteFrom"

/-- The root method with the given name. -/
def ofName? (name : String) : Option RootMethod :=
  [«from», insertInto, update, deleteFrom].find? (·.name == name)

/-- The kind of statement a root starts. -/
def statement : RootMethod → String
  | «from» => "select"
  | insertInto => "insert"
  | update => "update"
  | deleteFrom => "delete"

/-- The step a root contributes. -/
def step (root : RootMethod) (schema table : String) : Step :=
  match root with
  | «from» => .fromSource table schema [] ""
  | insertInto => .insert { table, schema }
  | update => .update { table, schema }
  | deleteFrom => .delete { table, schema }

end RootMethod

namespace Resolve

/-- A name given as a text. -/
def nameArgument (method : String) : Node → Resolve String
  | .literal (.str name) => return name
  | _ => fail (ChainFault.tableNameNotString method)

/-- The schema and the table given to a root: as two texts, or as one with a dot between them. -/
def tableArguments (method : String) (arguments : List Node) : Resolve (String × String) := do
  let (schema, table) ←
    match arguments with
    | [schema, table] => do
      let schema ← nameArgument method schema
      let table ← nameArgument method table
      pure (schema, table)
    | [name] => do
      let name ← nameArgument method name
      pure (Text.splitQualified name)
    | _ => fail (ChainFault.tableNameMissing method)
  if table.isEmpty then fail (ChainFault.tableNameEmpty method)
  return (schema, table)

/-- Starts a new statement on a table. -/
def startStatement (operation table : String) : Resolve Unit :=
  modify fun s =>
    { s with
      operation, table
      bindings := { s.bindings with shape := none, joinResult := "" }
      groupByKey := .absent
      tableCount := 1 }

/-- The root of a chain; `subquery` is the query given to `from` in place of a table. -/
def root (method : RootMethod) (arguments : List Node) (subquery : Resolve Operation) :
    Resolve Operation := do
  modify fun s => { s with method := method.name }
  if method = .from then modify fun s => { s with operation := "select" }
  let isSubquery : Bool :=
    match method, arguments with
    | .from, [argument] => !argument.isLiteral
    | _, _ => false
  if isSubquery then
    let op ← subquery
    startStatement "select" ""
    return [.fromSource "" "" op ""]
  else
    let (schema, table) ← tableArguments method.name arguments
    startStatement method.statement table
    return [method.step schema table]

/-! ### Methods -/

/-- Extends an operation by a method.  The last two arguments resolve the first argument of the call
as a nested query: as it is, or as a collection to be flattened. -/
def apply (method : Method) (source : Operation) (arguments : List Node)
    (inner collection : Resolve Operation) : Resolve Operation :=
  match method with
  | .filter => filter source arguments
  | .select => select source arguments
  | .groupBy => groupBy source arguments
  | .sort kind descending => sort kind descending source arguments
  | .page kind => page kind source arguments
  | .distinct => mark .distinct source arguments
  | .reverse => mark .reverse source arguments
  | .join kind => join kind source arguments inner
  | .groupJoin => groupJoin source arguments inner
  | .selectMany => selectMany source arguments collection
  | .defaultIfEmpty => mark .defaultIfEmpty source arguments
  | .terminal kind => terminal kind source arguments
  | .contains => contains source arguments
  | .aggregate kind => aggregate kind source arguments
  | .values => values source arguments
  | .onConflict => onConflict source arguments
  | .doNothing => doNothing source arguments
  | .doUpdateSet => doUpdateSet source arguments
  | .returning => returning source arguments
  | .set => setColumns source arguments
  | .allowFullTableUpdate => allowFullTableUpdate source arguments
  | .allowFullTableDelete => allowFullTableDelete source arguments

/-- Extends an operation by the method with the given name. -/
def call (name : String) (source : Operation) (arguments : List Node)
    (inner collection : Resolve Operation) : Resolve Operation := do
  modify fun s => { s with method := name }
  match Method.ofName? name with
  | some method => apply method source arguments inner collection
  | none => fail (ChainFault.unknownMethod name)

/-- A nested query, which has to be a SELECT. -/
def subquery (chain : Resolve Operation) : Resolve Operation :=
  nested do
    let op ← chain
    match op with
    | step :: _ => if step.isCrud then fail ChainFault.nestedStatement else return op
    | [] => return op

end Resolve

/-! ### Chains -/

/-- The name that stands for the operation being extended. -/
def planSeed : String :=
  "__plan"

/-- Whether a trailing `defaultIfEmpty()` belongs to the collection or is a step of its query. -/
inductive DefaultMark where
  /-- In the argument that gives a collection: it may be a lambda or the collection itself. -/
  | argument
  /-- In the collection itself. -/
  | body
  | step
deriving DecidableEq, Repr

/-- The place reached by going into the body of a lambda. -/
def DefaultMark.inside : DefaultMark → DefaultMark
  | argument => body
  | _ => step

/-- A call in a chain, with the work that resolves the queries among its parts. -/
structure ChainCall where
  receiver : Node
  property : Node
  computed : Bool
  arguments : List Node
  /-- The chain the method is called on. -/
  earlier : Resolve Operation
  /-- The first argument as a nested query. -/
  inner : Resolve Operation
  /-- The first argument as a collection to be flattened. -/
  collection : Resolve Operation

namespace ChainCall

/-- The call as a node. -/
def node (c : ChainCall) : Node :=
  .call (.member c.receiver c.property c.computed) c.arguments

/-- The name of the called method. -/
def method (c : ChainCall) : String :=
  c.property.keyName

/-- Whether a call only marks that an empty collection keeps its row. -/
def marksDefault (c : ChainCall) (mark : DefaultMark) : Bool :=
  mark ≠ .step && c.method = "defaultIfEmpty" && c.arguments.isEmpty

/-- A call on a name: a method of the operation being extended, or the root of a chain. -/
def onName (c : ChainCall) (name : String) (seed : Operation) : Resolve Operation := do
  let builder := (← get).builder
  if name = planSeed then
    if seed.isEmpty then Resolve.fail ChainFault.planWithoutOperation
    else Resolve.call c.method seed c.arguments c.inner c.collection
  else
    match RootMethod.ofName? c.method with
    | some root =>
      if name = builder || builder.isEmpty then Resolve.root root c.arguments c.inner
      else Resolve.fail (ChainFault.unknownRoot name c.method)
    | none => Resolve.fail (ChainFault.unknownRoot name c.method)

/-- A call on what precedes it in the chain. -/
def onChain (c : ChainCall) : Resolve Operation := do
  let op ← c.earlier
  Resolve.call c.method op c.arguments c.inner c.collection

/-- The operation of a chain that ends in a call. -/
def resolve (c : ChainCall) (mark : DefaultMark) (seed : Operation) : Resolve Operation :=
  if c.marksDefault mark then c.earlier
  else if c.method.isEmpty then Resolve.fail (ChainFault.computedMethod c.node.toSource)
  else
    match c.receiver with
    | .identifier name => c.onName name seed
    | _ => c.onChain

end ChainCall

/-- A call of a function by its name alone, which has to be the root of a chain. -/
def Resolve.functionCall (name : String) (arguments : List Node) (inner : Resolve Operation) :
    Resolve Operation :=
  match RootMethod.ofName? name with
  | some method => Resolve.root method arguments inner
  | none => Resolve.fail (ChainFault.unknownFunction name)

mutual

/-- The operation of a chain of calls.  `seed` is the operation that is being extended, or empty. -/
def Node.chain (mark : DefaultMark) (seed : Operation) : Node → Resolve Operation
  | .arrow _ (.block [.returnStatement (some value)]) => value.chain mark.inside seed
  | .arrow _ (.block [.returnStatement none]) =>
    Resolve.failUnplaced LoadFault.lambdaWithoutValue
  | .arrow _ (.block _) => Resolve.failUnplaced LoadFault.lambdaBlock
  | .arrow _ body => body.chain mark.inside seed
  | .call (.identifier name) arguments =>
    Resolve.functionCall name arguments (Node.firstQuery .step arguments)
  | .call (.member receiver property computed) arguments =>
    ChainCall.resolve
      { receiver, property, computed, arguments
        earlier := receiver.chain .step seed
        inner := Node.firstQuery .step arguments
        collection := Node.firstQuery .argument arguments }
      mark seed
  | node => Resolve.fail (ChainFault.notCall node.toSource)

/-- The first of several nodes as a nested query. -/
def Node.firstQuery (mark : DefaultMark) : List Node → Resolve Operation
  | [] => return []
  | first :: _ => Resolve.subquery (first.chain mark [])

end

end FluentQuery
