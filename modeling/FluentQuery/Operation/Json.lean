import FluentQuery.Expr.Json
import FluentQuery.Operation.Basic

/-!
# Descriptions of operations

`Operation.toJson` describes an operation as a JSON value, each step holding the description of
the steps before it under `source`.  `Operation.ofJson` reads such a description back; result
shapes are not part of what it reads.
-/

namespace FluentQuery

set_option autoImplicit false

/-- A described expression member, left out when the slot is empty. -/
def exprMember (key : String) (e : Expr) : List (String × Json) :=
  if e.isAbsent then [] else [(key, e.toJson)]

/-- The description of assignments; null if there are none. -/
def assignmentsJson : Option Assignments → Json
  | some properties => (Expr.object properties).toJson
  | none => .null

namespace OnConflict

/-- The description of a conflict clause; its assignments belong to the description of an update. -/
def toJson (conflict : OnConflict) : Json :=
  let action : List (String × Json) :=
    match conflict.action with
    | .none => []
    | .nothing => [("action", .object [("type", .str "nothing")])]
    | .update =>
      [("action",
        .object [("type", .str "update"), ("assignments", assignmentsJson conflict.assignments)])]
  .object (("target", .strings conflict.target) :: action)

end OnConflict

namespace Step

/-- The members of a step's description that come from its own fields, its nested operation given
by its description. -/
def members (nested : Json) : Step → List (String × Json)
  | fromSource table schema subquery aliasHint =>
    Json.memberUnlessEmpty "table" table ++ Json.memberUnlessEmpty "schema" schema ++
      (if subquery.isEmpty then [] else [("subquery", nested)]) ++
      Json.memberUnlessEmpty "aliasHint" aliasHint
  | filter predicate => [("predicate", predicate.toJson)]
  | select selector => [("selector", selector.toJson)]
  | join kind _ keys selector shape =>
    [("inner", nested), ("outerKey", .str keys.outer)] ++
      Json.memberOfOption "outerKeySource" (keys.outerSource.map Json.int) ++
      [("innerKey", .str keys.inner), ("joinType", .str kind.name)] ++
      exprMember "resultSelector" selector ++
      Json.memberOfOption "resultShape" (shape.map ResultShape.toJson)
  | groupJoin _ keys selector shape outerName groupName =>
    [("inner", nested), ("outerKey", .str keys.outer), ("innerKey", .str keys.inner),
      ("outerBindingName", .str outerName), ("groupBindingName", .str groupName)] ++
      exprMember "resultSelector" selector ++
      Json.memberOfOption "resultShape" (shape.map ResultShape.toJson)
  | selectMany collection path selector shape usesDefault =>
    (if collection.isEmpty then [] else [("collection", nested)]) ++
      Json.memberUnlessEmpty "collectionPropertyPath" path ++
      [("usesDefaultIfEmpty", .bool usesDefault)] ++
      exprMember "resultSelector" selector ++
      Json.memberOfOption "resultShape" (shape.map ResultShape.toJson)
  | defaultIfEmpty | distinct | reverse => []
  | groupBy key => [("keySelector", key.toJson)]
  | sort _ key descending => [("keySelector", key.toJson), ("descending", .bool descending)]
  | page _ count => [("count", count.toJson)]
  | terminal _ predicate => exprMember "predicate" predicate
  | contains value => [("value", value.toJson)]
  | aggregate _ selector => exprMember "selectorExpression" selector
  | insert s =>
    [("table", .str s.table)] ++ Json.memberUnlessEmpty "schema" s.schema ++
      [("values", assignmentsJson s.values)] ++ exprMember "returning" s.returning ++
      Json.memberOfOption "onConflict" (s.onConflict.map OnConflict.toJson)
  | update s =>
    [("table", .str s.table)] ++ Json.memberUnlessEmpty "schema" s.schema ++
      [("assignments", assignmentsJson s.assignments)] ++ exprMember "predicate" s.predicate ++
      [("allowFullTableUpdate", .bool s.allowFullTable)] ++ exprMember "returning" s.returning
  | delete s =>
    [("table", .str s.table)] ++ Json.memberUnlessEmpty "schema" s.schema ++
      exprMember "predicate" s.predicate ++ [("allowFullTableDelete", .bool s.allowFullTable)]

end Step

namespace Operation

mutual

/-- The description of an operation; null for no query. -/
def toJson : List Step → Json
  | [] => .null
  | step :: rest =>
    let source : List (String × Json) := if rest.isEmpty then [] else [("source", toJson rest)]
    .object (("operationType", .str step.typeName) :: source ++ step.members (nestedJson step))

/-- The description of the operation nested in a step. -/
def nestedJson : Step → Json
  | .fromSource _ _ subquery _ => toJson subquery
  | .join _ inner _ _ _ => toJson inner
  | .groupJoin inner _ _ _ _ _ => toJson inner
  | .selectMany collection _ _ _ _ => toJson collection
  | _ => .null

end

/-! ### Reading descriptions -/

/-- Assignments; a missing or null description is none. -/
def readAssignments (j : Json) (key : String) : Except Json.TypeError (Option Assignments) := do
  match ← Expr.ofMember j key with
  | .absent => return none
  | .object properties => return some properties
  | _ => .error .mismatch

/-- The action with the given name. -/
def conflictAction : String → ConflictAction
  | "nothing" => .nothing
  | "update" => .update
  | _ => .none

/-- The conflict clause a description describes.  Assignments are read with every action. -/
def conflictOfJson (j : Json) : Except Json.TypeError OnConflict := do
  let target ← j.getD "target" (fun columns => columns.elements.mapM Json.asString) []
  let withAction (action : Json) : Except Json.TypeError OnConflict := do
    return { target
             action := conflictAction (← Expr.readText action "type")
             assignments := ← readAssignments action "assignments" }
  j.getD "action" withAction { target }

/-- The conflict clause of an insertion, none if missing. -/
def readConflict (j : Json) : Except Json.TypeError (Option OnConflict) :=
  j.getD "onConflict" (fun conflict => some <$> conflictOfJson conflict) none

/-- The columns a join compares. -/
def readKeys (j : Json) (outerSource : Option Int) : Except Json.TypeError JoinKeys := do
  return { outer := ← Expr.readText j "outerKey", outerSource,
           inner := ← Expr.readText j "innerKey" }

/-- The step a description describes, its nested operation given. -/
def readStep (j : Json) (type : String) (nested : Operation) : Except Json.TypeError Step := do
  match type with
  | "from" =>
    return .fromSource (← Expr.readText j "table") (← Expr.readText j "schema") nested
      (← Expr.readText j "aliasHint")
  | "where" => return .filter (← Expr.ofMember j "predicate")
  | "select" => return .select (← Expr.ofMember j "selector")
  | "join" =>
    let kind ← Expr.readName j "joinType" .inner JoinKind.all JoinKind.name
    let keys ← readKeys j (← Expr.readOptionalIndex j "outerKeySource")
    return .join kind nested keys (← Expr.ofMember j "resultSelector") none
  | "groupJoin" =>
    return .groupJoin nested (← readKeys j none) (← Expr.ofMember j "resultSelector") none
      (← Expr.readText j "outerBindingName") (← Expr.readText j "groupBindingName")
  | "selectMany" =>
    return .selectMany nested (← Expr.readText j "collectionPropertyPath")
      (← Expr.ofMember j "resultSelector") none (← Expr.readFlag j "usesDefaultIfEmpty")
  | "defaultIfEmpty" => return .defaultIfEmpty
  | "groupBy" => return .groupBy (← Expr.ofMember j "keySelector")
  | "orderBy" =>
    return .sort .orderBy (← Expr.ofMember j "keySelector") (← Expr.readFlag j "descending")
  | "thenBy" =>
    return .sort .thenBy (← Expr.ofMember j "keySelector") (← Expr.readFlag j "descending")
  | "distinct" => return .distinct
  | "reverse" => return .reverse
  | "take" => return .page .take (← Expr.ofMember j "count")
  | "skip" => return .page .skip (← Expr.ofMember j "count")
  | "first" => return .terminal .first (← Expr.ofMember j "predicate")
  | "firstOrDefault" => return .terminal .firstOrDefault (← Expr.ofMember j "predicate")
  | "single" => return .terminal .single (← Expr.ofMember j "predicate")
  | "singleOrDefault" => return .terminal .singleOrDefault (← Expr.ofMember j "predicate")
  | "last" => return .terminal .last (← Expr.ofMember j "predicate")
  | "lastOrDefault" => return .terminal .lastOrDefault (← Expr.ofMember j "predicate")
  | "any" => return .terminal .any (← Expr.ofMember j "predicate")
  | "all" => return .terminal .all (← Expr.ofMember j "predicate")
  | "count" => return .terminal .count (← Expr.ofMember j "predicate")
  | "longCount" => return .terminal .longCount (← Expr.ofMember j "predicate")
  | "contains" => return .contains (← Expr.ofMember j "value")
  | "sum" => return .aggregate .sum (← Expr.ofMember j "selectorExpression")
  | "average" => return .aggregate .average (← Expr.ofMember j "selectorExpression")
  | "min" => return .aggregate .min (← Expr.ofMember j "selectorExpression")
  | "max" => return .aggregate .max (← Expr.ofMember j "selectorExpression")
  | "insert" =>
    return .insert
      { table := ← Expr.readText j "table"
        schema := ← Expr.readText j "schema"
        values := ← readAssignments j "values"
        returning := ← Expr.ofMember j "returning"
        onConflict := ← readConflict j }
  | "update" =>
    return .update
      { table := ← Expr.readText j "table"
        schema := ← Expr.readText j "schema"
        assignments := ← readAssignments j "assignments"
        predicate := ← Expr.ofMember j "predicate"
        allowFullTable := ← Expr.readFlag j "allowFullTableUpdate"
        returning := ← Expr.ofMember j "returning" }
  | "delete" =>
    return .delete
      { table := ← Expr.readText j "table"
        schema := ← Expr.readText j "schema"
        predicate := ← Expr.ofMember j "predicate"
        allowFullTable := ← Expr.readFlag j "allowFullTableDelete" }
  | _ => .error .mismatch

/-- The member in which a step of the given type keeps its nested operation. -/
def nestedKey? : String → Option String
  | "from" => some "subquery"
  | "join" | "groupJoin" => some "inner"
  | "selectMany" => some "collection"
  | _ => none

mutual

/-- The operation a description describes. -/
def ofJson (j : Json) : Except Json.TypeError Operation :=
  match j with
  | .null => .ok []
  | j => do
    let type ← Expr.readText j "operationType"
    let nested ←
      match nestedKey? type with
      | some key => ofMember j key
      | none => pure []
    let step ← readStep j type nested
    return step :: (← ofMember j "source")
termination_by 2 * sizeOf j + 1

/-- The operation a member describes; a missing member is no query. -/
def ofMember (j : Json) (key : String) : Except Json.TypeError Operation :=
  match h : j.get? key with
  | some v =>
    have := Json.sizeOf_add_lt_of_get? h
    ofJson v
  | none => .ok []
termination_by 2 * sizeOf j

end

end Operation

end FluentQuery
