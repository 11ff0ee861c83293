import FluentQuery.Error.Basic
import FluentQuery.Expr.Basic

/-!
# Descriptions of expressions

`Expr.toJson` describes an expression as a JSON value and `Expr.ofJson` reads such a description
back.  An empty slot is described by null.  When reading, a missing string is empty, a missing flag
is false, and a missing index or source is none.  Only a missing member counts as missing: one that
is there has to be of its type, so null is refused everywhere but in a slot.
-/

namespace FluentQuery

set_option autoImplicit false

namespace ColumnSource

def toJson : ColumnSource → Json
  | direct => .object [("type", .str "direct")]
  | table name => .object [("type", .str "table"), ("alias", .str name)]
  | joinParam i => .object [("type", .str "joinParam"), ("paramIndex", .int i)]
  | joinResult i => .object [("type", .str "joinResult"), ("tableIndex", .int i)]
  | spread i => .object [("type", .str "spread"), ("sourceIndex", .int i)]

end ColumnSource

namespace Expr

/-- What kind of value a constant is. -/
def constantType : Json → String
  | .null => "null"
  | .bool _ => "boolean"
  | .int _ => "number"
  | .double _ => "number"
  | .str _ => "string"
  | _ => "unknown"

/-- The optional members that say where a column or row comes from. -/
def originMembers (table : String) (source : Option ColumnSource) : List (String × Json) :=
  Json.memberUnlessEmpty "table" table ++
    Json.memberOfOption "source" (source.map ColumnSource.toJson)

mutual

/-- The description of an expression. -/
def toJson : Expr → Json
  | absent => .null
  | column name table source =>
    .object ([("type", .str "column"), ("name", .str name)] ++ originMembers table source)
  | excludedColumn name => .object [("type", .str "excludedColumn"), ("name", .str name)]
  | constant value =>
    .object [("type", .str "constant"), ("value", value), ("valueType", .str (constantType value))]
  | param p property index =>
    .object ([("type", .str "param"), ("param", .str p)] ++
      Json.memberUnlessEmpty "property" property ++
      Json.memberOfOption "index" (index.map Json.int))
  | arithmetic op left right =>
    .object [("type", .str "arithmetic"), ("operator", .str op.name), ("left", left.toJson),
      ("right", right.toJson)]
  | concat left right =>
    .object [("type", .str "concat"), ("left", left.toJson), ("right", right.toJson)]
  | stringMethod method operand =>
    .object [("type", .str "stringMethod"), ("method", .str method.name),
      ("object", operand.toJson)]
  | caseWhen conditions elseResult =>
    .object ([("type", .str "case"), ("conditions", .arr (conditionsJson conditions))] ++
      (if elseResult.isAbsent then [] else [("else", elseResult.toJson)]))
  | coalesce expressions =>
    .object [("type", .str "coalesce"), ("expressions", .arr (listJson expressions))]
  | aggregate function expression =>
    .object ([("type", .str "aggregate"), ("function", .str function.name)] ++
      (if expression.isAbsent then [] else [("expression", expression.toJson)]))
  | window function partitionBy orderBy =>
    .object [("type", .str "windowFunction"), ("function", .str function.name),
      ("partitionBy", .arr (listJson partitionBy)), ("orderBy", .arr (ordersJson orderBy))]
  | reference source table =>
    .object ([("type", .str "reference")] ++ originMembers table source)
  | allColumns => .object [("type", .str "allColumns")]
  | comparison op left right =>
    .object [("type", .str "comparison"), ("operator", .str op.name), ("left", left.toJson),
      ("right", right.toJson)]
  | logical op left right =>
    .object [("type", .str "logical"), ("operator", .str op.name), ("left", left.toJson),
      ("right", right.toJson)]
  | negation expression => .object [("type", .str "not"), ("expression", expression.toJson)]
  | booleanConstant value => .object [("type", .str "booleanConstant"), ("value", .bool value)]
  | booleanColumn name table source =>
    .object ([("type", .str "booleanColumn"), ("name", .str name)] ++ originMembers table source)
  | booleanParam p property =>
    .object ([("type", .str "booleanParam"), ("param", .str p)] ++
      Json.memberUnlessEmpty "property" property)
  | textTest method operand arguments =>
    .object [("type", .str "booleanMethod"), ("method", .str method.name),
      ("object", operand.toJson), ("arguments", .arr (listJson arguments))]
  | caseInsensitive function left right =>
    .object [("type", .str "caseInsensitiveFunction"), ("function", .str function.name),
      ("arguments", .arr [left.toJson, right.toJson])]
  | membership value list =>
    .object [("type", .str "in"), ("value", value.toJson), ("list", list.toJson)]
  | isNull expression negated =>
    .object [("type", .str "isNull"), ("expression", expression.toJson),
      ("negated", .bool negated)]
  | object properties =>
    .object [("type", .str "object"), ("properties", .arr (propertiesJson properties))]
  | array elements => .object [("type", .str "array"), ("elements", .arr (listJson elements))]

/-- The descriptions of several expressions. -/
def listJson : List Expr → List Json
  | [] => []
  | e :: rest => e.toJson :: listJson rest

/-- The descriptions of conditions and their results. -/
def conditionsJson : List (Expr × Expr) → List Json
  | [] => []
  | (condition, result) :: rest =>
    .object [("when", condition.toJson), ("then", result.toJson)] :: conditionsJson rest

/-- The descriptions of ordering keys. -/
def ordersJson : List (Expr × Bool) → List Json
  | [] => []
  | (key, descending) :: rest =>
    .object [("expression", key.toJson),
      ("direction", .str (if descending then "desc" else "asc"))] :: ordersJson rest

/-- The descriptions of the members of an object. -/
def propertiesJson : List (String × Expr) → List Json
  | [] => []
  | (name, value) :: rest =>
    .object [("key", .str name), ("value", value.toJson)] :: propertiesJson rest

end

/-! ### Reading descriptions -/

/-- A string member, empty if missing. -/
def readText (j : Json) (key : String) : Except Json.TypeError String :=
  j.getD key Json.asString ""

/-- A flag member, false if missing. -/
def readFlag (j : Json) (key : String) : Except Json.TypeError Bool :=
  j.getD key Json.asBool false

/-- A small integer member, zero if missing. -/
def readIndex (j : Json) (key : String) : Except Json.TypeError Int :=
  j.getD key Json.asInt32 0

/-- A member that is one of the listed values, given by its name; the first if there is none
of that name. -/
def readName {α : Type} (j : Json) (key : String) (first : α) (all : List α) (name : α → String) :
    Except Json.TypeError α := do
  let text ← readText j key
  return (all.find? (name · == text)).getD first

/-- The source a description describes. -/
def sourceOfJson (j : Json) : Except Json.TypeError ColumnSource := do
  match ← readText j "type" with
  | "table" => return .table (← readText j "alias")
  | "joinParam" => return .joinParam (← readIndex j "paramIndex")
  | "joinResult" => return .joinResult (← readIndex j "tableIndex")
  | "spread" => return .spread (← readIndex j "sourceIndex")
  | _ => return .direct

/-- The source of a column or row, none if missing. -/
def readSource (j : Json) : Except Json.TypeError (Option ColumnSource) :=
  j.getD "source" (fun source => some <$> sourceOfJson source) none

/-- An index member, none if missing. -/
def readOptionalIndex (j : Json) (key : String) : Except Json.TypeError (Option Int) :=
  j.getD key (fun index => some <$> index.asInt32) none

/-- The items of a list member, no larger than the value that has it; a missing list is empty. -/
def listMember (j : Json) (key : String) : { items : List Json // sizeOf items ≤ sizeOf j } :=
  match h : j.get? key with
  | some v =>
    ⟨v.elements, by
      have := Json.sizeOf_add_lt_of_get? h
      have := v.sizeOf_elements_le
      omega⟩
  | none => ⟨[], by cases j <;> simp⟩

mutual

/-- The expression a description describes. -/
def ofJson (j : Json) : Except Json.TypeError Expr :=
  match j with
  | .null => .ok absent
  | j => do
    match ← readText j "type" with
    | "column" =>
      return column (← readText j "name") (← readText j "table") (← readSource j)
    | "excludedColumn" => return excludedColumn (← readText j "name")
    | "constant" => return constant ((j.get? "value").getD .null)
    | "param" =>
      return param (← readText j "param") (← readText j "property") (← readOptionalIndex j "index")
    | "arithmetic" =>
      return arithmetic (← readName j "operator" .add ArithmeticOp.all ArithmeticOp.name)
        (← ofMember j "left") (← ofMember j "right")
    | "concat" => return concat (← ofMember j "left") (← ofMember j "right")
    | "stringMethod" =>
      return stringMethod
        (← readName j "method" .toUpperCase [.toLowerCase] StringMethod.name)
        (← ofMember j "object")
    | "case" =>
      let ⟨conditions, _⟩ := listMember j "conditions"
      return caseWhen (← ofJsonConditions conditions) (← ofMember j "else")
    | "coalesce" =>
      let ⟨expressions, _⟩ := listMember j "expressions"
      return coalesce (← ofJsonList expressions)
    | "aggregate" =>
      return aggregate (← readName j "function" .count AggregateFunction.all AggregateFunction.name)
        (← ofMember j "expression")
    | "windowFunction" =>
      let ⟨partitions, _⟩ := listMember j "partitionBy"
      let ⟨orders, _⟩ := listMember j "orderBy"
      return window (← readName j "function" .rowNumber WindowFunction.all WindowFunction.name)
        (← ofJsonList partitions) (← ofJsonOrders orders)
    | "reference" => return reference (← readSource j) (← readText j "table")
    | "allColumns" => return allColumns
    | "comparison" =>
      return comparison (← readName j "operator" .eq ComparisonOp.all ComparisonOp.name)
        (← ofMember j "left") (← ofMember j "right")
    | "logical" =>
      return logical (← readName j "operator" .or [.and] LogicalOp.name)
        (← ofMember j "left") (← ofMember j "right")
    | "not" => return negation (← ofMember j "expression")
    | "booleanConstant" => return booleanConstant (← readFlag j "value")
    | "booleanColumn" =>
      return booleanColumn (← readText j "name") (← readText j "table") (← readSource j)
    | "booleanParam" => return booleanParam (← readText j "param") (← readText j "property")
    | "booleanMethod" =>
      let ⟨arguments, _⟩ := listMember j "arguments"
      return textTest (← readName j "method" .includes TextTest.all TextTest.name)
        (← ofMember j "object") (← ofJsonList arguments)
    | "caseInsensitiveFunction" =>
      let ⟨arguments, _⟩ := listMember j "arguments"
      let arguments ← ofJsonList arguments
      return caseInsensitive
        (← readName j "function" .equals CaseInsensitiveTest.all CaseInsensitiveTest.name)
        (arguments.getD 0 absent) (arguments.getD 1 absent)
    | "in" => return membership (← ofMember j "value") (← ofMember j "list")
    | "isNull" => return isNull (← ofMember j "expression") (← readFlag j "negated")
    | "object" =>
      let ⟨properties, _⟩ := listMember j "properties"
      return object (← ofJsonProperties properties)
    | "array" =>
      let ⟨elements, _⟩ := listMember j "elements"
      return array (← ofJsonList elements)
    | _ => .error .mismatch
termination_by 2 * sizeOf j + 1
decreasing_by all_goals omega

/-- The expression a member describes; a missing member is an empty slot. -/
def ofMember (j : Json) (key : String) : Except Json.TypeError Expr :=
  match h : j.get? key with
  | some v =>
    have := Json.sizeOf_add_lt_of_get? h
    ofJson v
  | none => .ok absent
termination_by 2 * sizeOf j
decreasing_by omega

/-- The expressions of a list. -/
def ofJsonList (items : List Json) : Except Json.TypeError (List Expr) :=
  match items with
  | [] => .ok []
  | item :: rest => do
    let e ← ofJson item
    return e :: (← ofJsonList rest)
termination_by 2 * sizeOf items
decreasing_by all_goals (simp only [List.cons.sizeOf_spec]; omega)

/-- Conditions and their results. -/
def ofJsonConditions (items : List Json) : Except Json.TypeError (List (Expr × Expr)) :=
  match items with
  | [] => .ok []
  | item :: rest => do
    let condition ← ofMember item "when"
    let result ← ofMember item "then"
    return (condition, result) :: (← ofJsonConditions rest)
termination_by 2 * sizeOf items
decreasing_by all_goals (simp only [List.cons.sizeOf_spec]; omega)

/-- Ordering keys with their directions. -/
def ofJsonOrders (items : List Json) : Except Json.TypeError (List (Expr × Bool)) :=
  match items with
  | [] => .ok []
  | item :: rest => do
    let key ← ofMember item "expression"
    let direction ← readText item "direction"
    return (key, direction == "desc") :: (← ofJsonOrders rest)
termination_by 2 * sizeOf items
decreasing_by all_goals (simp only [List.cons.sizeOf_spec]; omega)

/-- The members of an object. -/
def ofJsonProperties (items : List Json) : Except Json.TypeError (List (String × Expr)) :=
  match items with
  | [] => .ok []
  | item :: rest => do
    let name ← readText item "key"
    let value ← ofMember item "value"
    return (name, value) :: (← ofJsonProperties rest)
termination_by 2 * sizeOf items
decreasing_by all_goals (simp only [List.cons.sizeOf_spec]; omega)

end

end Expr

end FluentQuery
