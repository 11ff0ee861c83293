import FluentQuery.Resolve.Method

/-!
# Joins, groups and collections

A join adds a table to the statement; its index is the number of tables so far.  The joined query is
given as work still to be done, because it is resolved after the arguments have been counted and
before the other arguments are looked at.
-/

namespace FluentQuery

set_option autoImplicit false

namespace Shape

/-- The table a node is about; objects and collections are about the first. -/
def sourceTable : Shape → Int
  | column table _ => table
  | reference table => table
  | object _ => 0
  | array _ => 0

end Shape

/-- A collection to be flattened. -/
structure Collection where
  /-- The name of the row it is taken from, if any. -/
  param : String
  body : Node
  /-- Whether a row is kept when the collection is empty. -/
  usesDefault : Bool

namespace Node

/-- A collection without a trailing `defaultIfEmpty()`, and whether there was one. -/
def stripDefault : Node → Node × Bool
  | call (member receiver property computed) [] =>
    if property.keyName = "defaultIfEmpty" then (receiver, true)
    else (call (member receiver property computed) [], false)
  | node => (node, false)

/-- The collection an argument describes. -/
def collection (argument : Node) : Except LoadFault Collection := do
  let (param, body) ←
    match argument with
    | arrow params body => do pure (params.headD "", ← body.lambdaBody)
    | node => pure ("", node)
  let (body, usesDefault) := body.stripDefault
  return ⟨param, body, usesDefault⟩

/-- The names on the path from a parameter to a node, none if the node is no such path. -/
def pathFrom (param : String) (path : List String) : Node → List String
  | member receiver property _ =>
    if property.keyName.isEmpty then [] else receiver.pathFrom param (property.keyName :: path)
  | identifier name => if name = param then path else []
  | _ => []

end Node

namespace Collection

/-- The path from the row to the collection, empty for an independent collection. -/
def path (c : Collection) : List String :=
  if c.param.isEmpty then [] else c.body.pathFrom c.param []

end Collection

namespace Resolve

/-- Binds the outer row of a join: a row of the current shape, or of the first table. -/
def bindOuter (name : String) : Resolve Unit :=
  bind fun b =>
    match b.shape with
    | some shape => b.bindShape name (some shape)
    | none => b.bindJoin name 0

/-- Binds the first parameter of an outer key selector. -/
def bindOuterParam : List String → Resolve Unit
  | [] => return ()
  | name :: _ => bindOuter name

/-- Binds the parameters of a result selector: the outer row and a row of the joined table. -/
def bindResultParams (index : Int) (params : List String) : Resolve Unit := do
  match params with
  | [] => return ()
  | [outer] => bindOuter outer
  | [outer, inner] =>
    bindOuter outer
    bind (·.bindJoin inner index)
  | _ => fail (ChainFault.resultSelectorParameters (← get).method)

/-- The column a key selector picks, and its table. -/
def keyColumn (side : String) : Expr → Resolve (String × Int)
  | .column name _ source => return (name, (Expr.sourceIndex? source).getD 0)
  | _ => do fail (ChainFault.joinKeyNotColumn (← get).method side)

/-- The keys of a join. -/
def joinKeys (outer inner : Node) : Resolve JoinKeys := do
  let method := (← get).method
  let (outerKey, table) ← keyColumn "outer" (← outer.resolveLambda false method bindOuterParam)
  let (innerKey, _) ← keyColumn "inner" (← inner.resolveLambda false method bindTableParam)
  return ⟨outerKey, some table, innerKey⟩

/-- The result selector of a join with the table of the given index. -/
def resultSelector (index : Int) (node : Node) : Resolve Expr := do
  node.resolveLambda false (← get).method (bindResultParams index)

/-- Records that the statement has one more table and what its rows look like now. -/
def addTable (index : Int) (shape : Option ResultShape) : Resolve Unit := do
  modify fun s => { s with tableCount := index + 1 }
  setShape shape

/-- The shape of the rows a result selector yields; without one there is none. -/
def finishJoin (kind : JoinKind) (inner : Operation) (keys : JoinKeys) (selector : Expr)
    (index : Int) (source : Operation) : Resolve Operation := do
  let shape := selector.resultShape
  addTable index shape
  return .join kind inner keys selector shape :: source

/-- A join with another query. -/
def join (kind : JoinKind) (source : Operation) (arguments : List Node)
    (inner : Resolve Operation) : Resolve Operation := do
  requireSelect source
  let index := (← get).tableCount
  if kind = .cross then
    match arguments with
    | [_] =>
      let op ← inner
      finishJoin kind op {} .absent index source
    | [_, selector] =>
      let op ← inner
      let e ← resultSelector index selector
      finishJoin kind op {} e index source
    | arguments => failArguments 1 2 arguments.length
  else
    match arguments with
    | [_, outer, innerKey] =>
      let op ← inner
      let keys ← joinKeys outer innerKey
      finishJoin kind op keys .absent index source
    | [_, outer, innerKey, selector] =>
      let op ← inner
      let keys ← joinKeys outer innerKey
      let e ← resultSelector index selector
      finishJoin kind op keys e index source
    | arguments => failArguments 3 4 arguments.length

/-- The whole rows among the members of a result selector, by the index of their table. -/
def rowMembers : List (String × Expr) → List (String × Int)
  | [] => []
  | (key, .reference source _) :: rest =>
    match Expr.sourceIndex? source with
    | some index => if key.isEmpty then rowMembers rest else (key, index) :: rowMembers rest
    | none => rowMembers rest
  | _ :: rest => rowMembers rest

/-- A shape extended by the entries of another that have a new name. -/
def extendShape (shape : ResultShape) : ResultShape → ResultShape
  | [] => shape
  | (key, node) :: rest =>
    match Shape.lookup shape key with
    | some _ => extendShape shape rest
    | none => extendShape (shape ++ [(key, node)]) rest

/-- The shape of a group join: a row of the joined table stands for the collection of matches. -/
def groupShape (index : Int) (rows : List (String × Int)) : ResultShape :=
  rows.map fun (key, table) =>
    (key, if table = index then .array (some (.reference index)) else .reference table)

/-- `groupJoin(inner, outerKey, innerKey, (outer, group) => …)` -/
def groupJoin (source : Operation) (arguments : List Node) (inner : Resolve Operation) :
    Resolve Operation := do
  requireSelect source
  match arguments with
  | [_, outer, innerKey, selector] =>
    let index := (← get).tableCount
    let op ← inner
    let keys ← joinKeys outer innerKey
    let e ← resultSelector index selector
    match e with
    | .object properties =>
      let rows := rowMembers properties
      let groups := rows.filter fun row => row.2 = index
      let outers := rows.filter fun row => row.2 ≠ index
      match groups.getLast? with
      | none => fail ChainFault.groupJoinWithoutGroup
      | some (groupName, _) =>
        let shape := extendShape (groupShape index rows) (Expr.shapeProperties properties)
        addTable index (some shape)
        let outerName := (outers.head?.map Prod.fst).getD ""
        return .groupJoin op keys e (some shape) outerName groupName :: source
    | _ => fail ChainFault.groupJoinNotObject
  | arguments => failArguments 4 4 arguments.length

/-- The index of the table behind the group a path leads to. -/
def groupTable (path : List String) : Resolve Int := do
  let s ← get
  match s.bindings.shape.bind fun shape => ResultShape.resolve shape path with
  | some (.array (some element)) => return element.sourceTable
  | some (.array none) => return s.tableCount - 1
  | _ => fail ChainFault.selectManyNotGroup

/-- Records the flattening of a collection whose rows belong to the table of the given index. -/
def finishSelectMany (collection : Operation) (path : List String) (usesDefault : Bool)
    (index : Int) (selector? : Option Node) (source : Operation) : Resolve Operation := do
  let selector ←
    match selector? with
    | some node => resultSelector index node
    | none => pure .absent
  let shape := selector.resultShape
  setShape shape
  return .selectMany collection (Text.dotted path) selector shape usesDefault :: source

/-- Flattens a group of a group join, or an independent collection, which adds a table. -/
def flatten (argument : Node) (selector? : Option Node) (source : Operation)
    (query : Resolve Operation) : Resolve Operation := do
  match argument.collection with
  | .error fault => failUnplaced fault
  | .ok collection =>
    let path := collection.path
    if path.isEmpty then
      let op ← query
      let index := (← get).tableCount
      modify fun s => { s with tableCount := index + 1 }
      match op with
      | .defaultIfEmpty :: rest => finishSelectMany rest [] true index selector? source
      | op => finishSelectMany op [] collection.usesDefault index selector? source
    else
      let index ← groupTable path
      finishSelectMany [] path collection.usesDefault index selector? source

/-- `selectMany(collection)` and `selectMany(collection, (outer, inner) => …)` -/
def selectMany (source : Operation) (arguments : List Node) (query : Resolve Operation) :
    Resolve Operation := do
  requireSelect source
  match arguments with
  | [argument] => flatten argument none source query
  | [argument, selector] => flatten argument (some selector) source query
  | arguments => failArguments 1 2 arguments.length

end Resolve

end FluentQuery
