import FluentQuery.Ast.Node

/-!
# Loading documents

`Node.ofJson` reads the document of a query-building function.  It accepts the spellings of several
script parsers, looks through wrappers such as parentheses, and refuses every construct the query
language does not use.
-/

namespace FluentQuery

set_option autoImplicit false

namespace Node

/-- The type a document names. -/
def documentType (j : Json) : Except Failure String :=
  match j.get? "type" with
  | some (.str kind) => .ok kind
  | _ => .error (.ofFault LoadFault.missingType)

/-- A member the document must have, smaller than the document. -/
def field (j : Json) (name : String) : Except Failure { v : Json // sizeOf v + 2 < sizeOf j } :=
  match h : j.get? name with
  | some v => .ok ⟨v, Json.sizeOf_add_lt_of_get? h⟩
  | none => do
    let kind ← documentType j
    .error (.ofFault (LoadFault.missingField kind name))

/-- The first of two members, or the second if the first is absent. -/
def fieldOr (j : Json) (name other : String) :
    Except Failure { v : Json // sizeOf v + 2 < sizeOf j } :=
  if j.contains name then field j name else field j other

/-- The name of a lambda parameter. -/
def parameterName (j : Json) : Except Failure String := do
  let kind ← documentType j
  if kind ≠ "Identifier" then .error (.ofFault (LoadFault.notIdentifier kind))
  else
    let ⟨name, _⟩ ← field j "name"
    liftJson name.asString

/-- The key of a property: an identifier or a string. -/
def propertyKey (key : Json) : Except Failure String := do
  let kind ← documentType key
  if kind = "Identifier" then liftJson ((key.get? "name").getD .null).asString
  else
    match key.get? "value" with
    | some (.str s) => .ok s
    | _ => .error (.ofFault (LoadFault.unsupportedKey kind))

/-- The items of a member that must be an array. -/
def nodeItems (j : Json) : Except Failure { items : List Json // sizeOf items < sizeOf j } :=
  match j with
  | .arr items => .ok ⟨items, Json.sizeOf_items_lt items⟩
  | _ => .error (.ofFault LoadFault.notNodeList)

/-- The elements of a member that iteration visits. -/
def memberElements (j : Json) : { items : List Json // sizeOf items ≤ sizeOf j + 2 } :=
  ⟨j.elements, j.sizeOf_elements_le⟩

mutual

/-- The node a document describes. -/
def ofJson (j : Json) : Except Failure Node := do
  let kind ← documentType j
  match kind with
  | "Program" =>
    match ← field j "body" with
    | ⟨.arr [statement], h⟩ =>
      have : sizeOf statement < sizeOf j := by
        simp only [Json.arr.sizeOf_spec, List.cons.sizeOf_spec] at h
        omega
      ofJson statement
    | _ => .error (.ofFault LoadFault.programSize)
  | "ExpressionStatement" | "ParenthesizedExpression" | "ChainExpression" | "TSAsExpression"
  | "TSNonNullExpression" =>
    let ⟨inner, _⟩ ← field j "expression"
    ofJson inner
  | "Identifier" =>
    let ⟨name, _⟩ ← field j "name"
    return identifier (← liftJson name.asString)
  | "Literal" | "StringLiteral" | "NumericLiteral" | "BooleanLiteral" =>
    let ⟨value, _⟩ ← field j "value"
    return literal value
  | "NullLiteral" => return literal .null
  | "MemberExpression" | "StaticMemberExpression" | "ComputedMemberExpression" =>
    let computed ← liftJson (j.getD "computed" Json.asBool (kind == "ComputedMemberExpression"))
    let ⟨propertyJson, _⟩ ← fieldOr j "property" "expression"
    let property ← ofJson propertyJson
    let ⟨objectJson, _⟩ ← field j "object"
    let object ← ofJson objectJson
    return member object property computed
  | "CallExpression" =>
    let ⟨argumentsJson, _⟩ ← field j "arguments"
    let ⟨items, _⟩ ← nodeItems argumentsJson
    let arguments ← ofJsonList items
    let ⟨calleeJson, _⟩ ← field j "callee"
    let callee ← ofJson calleeJson
    return call callee arguments
  | "BinaryExpression" =>
    let ⟨rightJson, _⟩ ← field j "right"
    let right ← ofJson rightJson
    let ⟨leftJson, _⟩ ← field j "left"
    let left ← ofJson leftJson
    let ⟨op, _⟩ ← field j "operator"
    return binary (← liftJson op.asString) left right
  | "LogicalExpression" =>
    let ⟨rightJson, _⟩ ← field j "right"
    let right ← ofJson rightJson
    let ⟨leftJson, _⟩ ← field j "left"
    let left ← ofJson leftJson
    let ⟨op, _⟩ ← field j "operator"
    return logical (← liftJson op.asString) left right
  | "UnaryExpression" =>
    let ⟨argumentJson, _⟩ ← field j "argument"
    let argument ← ofJson argumentJson
    let ⟨op, _⟩ ← field j "operator"
    return unary (← liftJson op.asString) argument
  | "ConditionalExpression" =>
    let ⟨alternateJson, _⟩ ← field j "alternate"
    let alternate ← ofJson alternateJson
    let ⟨consequentJson, _⟩ ← field j "consequent"
    let consequent ← ofJson consequentJson
    let ⟨testJson, _⟩ ← field j "test"
    let test ← ofJson testJson
    return conditional test consequent alternate
  | "ObjectExpression" =>
    let ⟨propertiesJson, _⟩ ← field j "properties"
    let ⟨items, _⟩ := memberElements propertiesJson
    return object (← ofJsonProperties items)
  | "ArrayExpression" =>
    let ⟨elementsJson, _⟩ ← field j "elements"
    let ⟨items, _⟩ ← nodeItems elementsJson
    return array (← ofJsonList items)
  | "ArrowFunctionExpression" =>
    let async ← liftJson (j.getD "async" Json.asBool false)
    let generator ← if async then pure true else liftJson (j.getD "generator" Json.asBool false)
    if generator then .error (.ofFault LoadFault.asyncFunction)
    else
      let ⟨paramsJson, _⟩ ← field j "params"
      let params ← paramsJson.elements.mapM parameterName
      let ⟨bodyJson, _⟩ ← field j "body"
      return arrow params (← ofJson bodyJson)
  | "BlockStatement" | "FunctionBody" =>
    let ⟨bodyJson, _⟩ ← fieldOr j "body" "statements"
    let ⟨items, _⟩ ← nodeItems bodyJson
    return block (← ofJsonList items)
  | "ReturnStatement" =>
    match h : j.get? "argument" with
    | none | some .null => return returnStatement none
    | some argumentJson =>
      have := Json.sizeOf_add_lt_of_get? h
      return returnStatement (some (← ofJson argumentJson))
  | _ => .error (.ofFault (LoadFault.unsupportedNode kind))
termination_by sizeOf j
decreasing_by all_goals omega

/-- The nodes of an array; an array hole is refused. -/
def ofJsonList (items : List Json) : Except Failure (List Node) :=
  match items with
  | [] => .ok []
  | .null :: _ => .error (.ofFault LoadFault.arrayHole)
  | item :: rest => do
    let node ← ofJson item
    return node :: (← ofJsonList rest)
termination_by sizeOf items
decreasing_by all_goals (simp only [List.cons.sizeOf_spec]; omega)

/-- The members of an object literal. -/
def ofJsonProperties (items : List Json) : Except Failure (List Property) :=
  match items with
  | [] => .ok []
  | item :: rest => do
    let kind ← documentType item
    match kind with
    | "SpreadElement" | "SpreadProperty" =>
      let ⟨valueJson, _⟩ ← field item "argument"
      let value ← ofJson valueJson
      return .spread value :: (← ofJsonProperties rest)
    | "Property" | "ObjectProperty" =>
      if ← liftJson (item.getD "computed" Json.asBool false) then
        .error (.ofFault LoadFault.computedKey)
      else
        let ⟨keyJson, _⟩ ← field item "key"
        let key ← propertyKey keyJson
        let ⟨valueJson, _⟩ ← field item "value"
        let value ← ofJson valueJson
        let shorthand ← liftJson (item.getD "shorthand" Json.asBool false)
        return .named key value shorthand :: (← ofJsonProperties rest)
    | _ => .error (.ofFault (LoadFault.unsupportedMember kind))
termination_by sizeOf items
decreasing_by all_goals (simp only [List.cons.sizeOf_spec]; omega)

end

end Node

end FluentQuery
