import FluentQuery.Proofs.Data.Assoc
import FluentQuery.Proofs.Expr.Evaluation
import FluentQuery.Expr.Json

/-!
# What the description of an expression says

Every node of an expression can be read off its description: the node itself from the members that
are not descriptions (`Expr.nodeOf`), and the descriptions of what stands below it (`Expr.partsOf`).
A member that is left out stands for the value it is left out for.  Main statement:
`Expr.toJson_injective`, that different expressions have different descriptions.
-/

namespace FluentQuery

set_option autoImplicit false

/-! ### Members of descriptions -/

namespace Json

/-- A text; one that is left out is empty. -/
def textOf : Option Json → String
  | some (str s) => s
  | _ => ""

/-- A whole number, if it is there. -/
def wholeOf : Option Json → Option Int
  | some (int n) => some n
  | _ => none

/-- A flag; one that is left out is not set. -/
def flagOf : Option Json → Bool
  | some (bool b) => b
  | _ => false

/-- A description; that of an empty slot is left out. -/
def partOf (member : Option Json) : Json :=
  member.getD null

/-- The items of a list. -/
def itemsOf : Option Json → List Json
  | some (arr items) => items
  | _ => []

@[simp] theorem textOf_some (s : String) : textOf (some (str s)) = s := rfl

@[simp] theorem wholeOf_some (n : Int) : wholeOf (some (int n)) = some n := rfl

@[simp] theorem flagOf_some (b : Bool) : flagOf (some (bool b)) = b := rfl

@[simp] theorem partOf_some (j : Json) : partOf (some j) = j := rfl

@[simp] theorem itemsOf_some (items : List Json) : itemsOf (some (arr items)) = items := rfl

@[simp] theorem textOf_unlessEmpty (value : String) :
    textOf (if value = "" then none else some (str value)) = value := by
  by_cases h : value = ""
  · rw [if_pos h, h]
    rfl
  · rw [if_neg h, textOf_some]

@[simp] theorem wholeOf_map (value : Option Int) : wholeOf (value.map int) = value := by
  cases value <;> rfl

@[simp] theorem get?_object_nil (key : String) : (object []).get? key = none := rfl

/-- Of the members with one name the last counts. -/
@[simp] theorem get?_object_cons (name : String) (value : Json) (ms : List (String × Json))
    (key : String) : (object ((name, value) :: ms)).get? key =
      ((object ms).get? key).or (if name = key then some value else none) := by
  rw [get?_object, get?_object, List.reverse_cons, Assoc.find?_append]
  rfl

@[simp] theorem get?_object_append (front back : List (String × Json)) (key : String) :
    (object (front ++ back)).get? key =
      ((object back).get? key).or ((object front).get? key) := by
  rw [get?_object, get?_object, get?_object, List.reverse_append, Assoc.find?_append]

@[simp] theorem get?_object_unlessEmpty (name value key : String) :
    (object (memberUnlessEmpty name value)).get? key =
      if name = key then if value = "" then none else some (str value) else none := by
  by_cases h : value = "" <;> simp [memberUnlessEmpty, h]

@[simp] theorem get?_object_ofOption (name : String) (value : Option Json) (key : String) :
    (object (memberOfOption name value)).get? key = if name = key then value else none := by
  cases value <;> simp [memberOfOption]

/-- A member that is there unless something holds. -/
@[simp] theorem get?_object_unless (missing : Prop) [Decidable missing] (name : String)
    (value : Json) (key : String) :
    (object (if missing then [] else [(name, value)])).get? key =
      if name = key then if missing then none else some value else none := by
  by_cases h : missing <;> simp [h]

end Json

/-- The value of the given name. -/
def namedIn {α : Type} (all : List α) (name : α → String) (text : String) : Option α :=
  all.find? (name · == text)

namespace Expr

open Json

/-- An empty slot is described by null, so it does not matter whether its member is left out. -/
@[simp] theorem partOf_unless (e : Expr) :
    partOf (if e.isAbsent then none else some e.toJson) = e.toJson := by
  cases e <;> rfl

/-- The source that a description describes. -/
def sourceAt (j : Json) : ColumnSource :=
  match textOf (j.get? "type") with
  | "table" => .table (textOf (j.get? "alias"))
  | "joinParam" => .joinParam ((wholeOf (j.get? "paramIndex")).getD 0)
  | "joinResult" => .joinResult ((wholeOf (j.get? "tableIndex")).getD 0)
  | "spread" => .spread ((wholeOf (j.get? "sourceIndex")).getD 0)
  | _ => .direct

/-- A source is read off its description. -/
@[simp] theorem sourceAt_toJson (source : ColumnSource) : sourceAt source.toJson = source := by
  cases source <;> simp [sourceAt, ColumnSource.toJson]

@[simp] theorem sourceAt_comp_toJson : sourceAt ∘ ColumnSource.toJson = id :=
  funext sourceAt_toJson

/-- The node that a description describes, without what stands below it. -/
def nodeOf (j : Json) : Expr :=
  let text (key : String) : String := textOf (j.get? key)
  let source : Option ColumnSource := (j.get? "source").map sourceAt
  match text "type" with
  | "column" => column (text "name") (text "table") source
  | "excludedColumn" => excludedColumn (text "name")
  | "constant" => constant (partOf (j.get? "value"))
  | "param" => param (text "param") (text "property") (wholeOf (j.get? "index"))
  | "arithmetic" =>
    arithmetic ((namedIn ArithmeticOp.all ArithmeticOp.name (text "operator")).getD .add)
      absent absent
  | "concat" => concat absent absent
  | "stringMethod" =>
    stringMethod (if text "method" = "toLowerCase" then .toLowerCase else .toUpperCase) absent
  | "case" =>
    caseWhen ((itemsOf (j.get? "conditions")).map fun _ => (absent, absent)) absent
  | "coalesce" => coalesce ((itemsOf (j.get? "expressions")).map fun _ => absent)
  | "aggregate" =>
    aggregate ((namedIn AggregateFunction.all AggregateFunction.name (text "function")).getD .count)
      absent
  | "windowFunction" =>
    window ((namedIn WindowFunction.all WindowFunction.name (text "function")).getD .rowNumber)
      ((itemsOf (j.get? "partitionBy")).map fun _ => absent)
      ((itemsOf (j.get? "orderBy")).map fun order =>
        (absent, textOf (order.get? "direction") == "desc"))
  | "reference" => reference source (text "table")
  | "allColumns" => allColumns
  | "comparison" =>
    comparison ((namedIn ComparisonOp.all ComparisonOp.name (text "operator")).getD .eq)
      absent absent
  | "logical" => logical (if text "operator" = "and" then .and else .or) absent absent
  | "not" => negation absent
  | "booleanConstant" => booleanConstant (flagOf (j.get? "value"))
  | "booleanColumn" => booleanColumn (text "name") (text "table") source
  | "booleanParam" => booleanParam (text "param") (text "property")
  | "booleanMethod" =>
    textTest ((namedIn TextTest.all TextTest.name (text "method")).getD .includes) absent
      ((itemsOf (j.get? "arguments")).map fun _ => absent)
  | "caseInsensitiveFunction" =>
    caseInsensitive
      ((namedIn CaseInsensitiveTest.all CaseInsensitiveTest.name (text "function")).getD .equals)
      absent absent
  | "in" => membership absent absent
  | "isNull" => isNull absent (flagOf (j.get? "negated"))
  | "object" =>
    object ((itemsOf (j.get? "properties")).map fun member => (textOf (member.get? "key"), absent))
  | "array" => array ((itemsOf (j.get? "elements")).map fun _ => absent)
  | _ => absent

/-- The descriptions of what stands below the node that a description describes. -/
def partsOf (j : Json) : List Json :=
  let part (key : String) : Json := partOf (j.get? key)
  let items (key : String) : List Json := itemsOf (j.get? key)
  match textOf (j.get? "type") with
  | "arithmetic" | "concat" | "comparison" | "logical" => [part "left", part "right"]
  | "stringMethod" => [part "object"]
  | "case" =>
    ((items "conditions").flatMap fun condition =>
      [partOf (condition.get? "when"), partOf (condition.get? "then")]) ++ [part "else"]
  | "coalesce" => items "expressions"
  | "aggregate" | "not" | "isNull" => [part "expression"]
  | "windowFunction" =>
    items "partitionBy" ++ (items "orderBy").map fun order => partOf (order.get? "expression")
  | "booleanMethod" => part "object" :: items "arguments"
  | "caseInsensitiveFunction" => items "arguments"
  | "in" => [part "value", part "list"]
  | "object" => (items "properties").map fun member => partOf (member.get? "value")
  | "array" => items "elements"
  | _ => []

/-! ### Reading a node off its description -/

/-- Descriptions of lists are lists of descriptions. -/
theorem listJson_eq_map (es : List Expr) : listJson es = es.map toJson := by
  induction es with
  | nil => rfl
  | cons e rest ih => rw [listJson, ih, List.map_cons]

theorem conditionsJson_eq_map (cs : List (Expr × Expr)) :
    conditionsJson cs =
      cs.map fun c => Json.object [("when", c.1.toJson), ("then", c.2.toJson)] := by
  induction cs with
  | nil => rfl
  | cons c rest ih => rw [conditionsJson, ih, List.map_cons]

theorem ordersJson_eq_map (os : List (Expr × Bool)) :
    ordersJson os = os.map fun o =>
      Json.object [("expression", o.1.toJson),
        ("direction", .str (if o.2 then "desc" else "asc"))] := by
  induction os with
  | nil => rfl
  | cons o rest ih => rw [ordersJson, ih, List.map_cons]

theorem propertiesJson_eq_map (ps : List (String × Expr)) :
    propertiesJson ps = ps.map fun p => Json.object [("key", .str p.1), ("value", p.2.toJson)] := by
  induction ps with
  | nil => rfl
  | cons p rest ih => rw [propertiesJson, ih, List.map_cons]

/-- What is left of conditions and results is how many there are. -/
theorem fillConditions_absent (cs : List (Expr × Expr)) (es : List Expr) :
    fillConditions cs ((conditionChildren cs).map (fun _ => absent) ++ es) =
      cs.map fun _ => (absent, absent) := by
  induction cs with
  | nil => rfl
  | cons c rest ih =>
    simp only [conditionChildren, List.map_cons, List.cons_append, fillConditions, ih]

theorem shape_caseWhen (cs : List (Expr × Expr)) (e : Expr) :
    (caseWhen cs e).shape = caseWhen (cs.map fun _ => (absent, absent)) absent := by
  have last : ((conditionChildren cs).map (fun _ => absent) ++ [absent]).drop (2 * cs.length) =
      [absent] := by
    apply List.drop_left'
    rw [List.length_map, length_conditionChildren]
  rw [shape, children, List.map_append, List.map_singleton, withChildren, fillConditions_absent,
    last]
  rfl

theorem shape_window (function : WindowFunction) (partitionBy : List Expr)
    (orderBy : List (Expr × Bool)) :
    (window function partitionBy orderBy).shape =
      window function (partitionBy.map fun _ => absent) (orderBy.map fun o => (absent, o.2)) := by
  simp [shape, children, withChildren, List.zipWith_map_right]

theorem shape_object (ps : List (String × Expr)) :
    (object ps).shape = object (ps.map fun p => (p.1, absent)) := by
  simp [shape, children, withChildren, List.zipWith_map_right]

/-- A node is read off its description, apart from what stands below it. -/
theorem nodeOf_toJson (e : Expr) : nodeOf e.toJson = e.shape := by
  cases e with
  | absent => rfl
  | excludedColumn | constant | allColumns | booleanConstant =>
    simp [nodeOf, toJson, shape, withChildren]
  | column | booleanColumn | reference | param | booleanParam =>
    simp [nodeOf, toJson, originMembers, shape, withChildren]
  | arithmetic op l r =>
    have named : namedIn ArithmeticOp.all ArithmeticOp.name op.name = some op := by
      cases op <;> rfl
    simp [nodeOf, toJson, named, shape, children, withChildren]
  | comparison op l r =>
    have named : namedIn ComparisonOp.all ComparisonOp.name op.name = some op := by
      cases op <;> rfl
    simp [nodeOf, toJson, named, shape, children, withChildren]
  | aggregate function e =>
    have named : namedIn AggregateFunction.all AggregateFunction.name function.name =
        some function := by
      cases function <;> rfl
    simp [nodeOf, toJson, named, shape, children, withChildren]
  | textTest method e arguments =>
    have named : namedIn TextTest.all TextTest.name method.name = some method := by
      cases method <;> rfl
    simp [nodeOf, toJson, named, shape, children, withChildren, listJson_eq_map, Function.comp_def]
  | caseInsensitive function l r =>
    have named : namedIn CaseInsensitiveTest.all CaseInsensitiveTest.name function.name =
        some function := by
      cases function <;> rfl
    simp [nodeOf, toJson, named, shape, children, withChildren]
  | window function partitionBy orderBy =>
    have named : namedIn WindowFunction.all WindowFunction.name function.name = some function := by
      cases function <;> rfl
    simp [nodeOf, toJson, named, shape_window, ordersJson_eq_map, listJson_eq_map,
      Function.comp_def]
  | stringMethod method e =>
    cases method <;> simp [nodeOf, toJson, StringMethod.name, shape, children, withChildren]
  | logical op l r =>
    cases op <;> simp [nodeOf, toJson, LogicalOp.name, shape, children, withChildren]
  | caseWhen =>
    simp [nodeOf, toJson, shape_caseWhen, conditionsJson_eq_map, Function.comp_def]
  | object =>
    simp [nodeOf, toJson, shape_object, propertiesJson_eq_map, Function.comp_def]
  | coalesce | array =>
    simp [nodeOf, toJson, shape, children, withChildren, listJson_eq_map, Function.comp_def]
  | concat | negation | membership | isNull =>
    simp [nodeOf, toJson, shape, children, withChildren]

/-- The descriptions of what stands below a node are parts of its own. -/
theorem partsOf_toJson (e : Expr) : partsOf e.toJson = e.children.map toJson := by
  have conditions (cs : List (Expr × Expr)) :
      cs.flatMap (fun c => [c.1.toJson, c.2.toJson]) = (conditionChildren cs).map toJson := by
    induction cs with
    | nil => rfl
    | cons c rest ih => simp only [List.flatMap_cons, ih, conditionChildren, List.map_cons,
        List.cons_append, List.nil_append]
  cases e with
  | absent => rfl
  | caseWhen =>
    simp [partsOf, toJson, children, conditionsJson_eq_map, List.flatMap_map, conditions]
  | window =>
    simp [partsOf, toJson, children, ordersJson_eq_map, listJson_eq_map]
  | object => simp [partsOf, toJson, children, propertiesJson_eq_map]
  | coalesce | array | textTest => simp [partsOf, toJson, children, listJson_eq_map]
  | _ => simp [partsOf, toJson, children, originMembers]

/-- Lists are equal if their images are, when equal images come from equal elements. -/
theorem eq_of_map_toJson {es es' : List Expr}
    (inj : ∀ e ∈ es, ∀ e', e.toJson = e'.toJson → e = e')
    (same : es.map toJson = es'.map toJson) : es = es' := by
  induction es generalizing es' with
  | nil => exact (List.map_eq_nil_iff.1 same.symm).symm
  | cons e rest ih =>
    cases es' with
    | nil => cases same
    | cons e' rest' =>
      obtain ⟨first, later⟩ := List.cons.inj same
      rw [inj e (List.mem_cons_self ..) e' first,
        ih (fun c hc => inj c (List.mem_cons_of_mem _ hc)) later]

/-- Different expressions have different descriptions. -/
theorem toJson_injective : Function.Injective toJson := by
  intro e
  induction e using children_induction with
  | step e ih =>
    intro e' same
    have node : e.shape = e'.shape := by
      rw [← nodeOf_toJson, same, nodeOf_toJson]
    have parts : e.children.map toJson = e'.children.map toJson := by
      rw [← partsOf_toJson, same, partsOf_toJson]
    have below : e.children = e'.children :=
      eq_of_map_toJson (fun c hc c' h => ih c hc h) parts
    calc e
      _ = e.shape.withChildren e.children := by
        rw [Evaluation.shape_fill e rfl, withChildren_children]
      _ = e'.shape.withChildren e'.children := by rw [node, below]
      _ = e' := by rw [Evaluation.shape_fill e' rfl, withChildren_children]

end Expr

end FluentQuery
