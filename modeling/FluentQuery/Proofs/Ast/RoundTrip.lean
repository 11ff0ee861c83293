import FluentQuery.Ast.Loader
import FluentQuery.Proofs.Data.Assoc

/-!
# Written trees load back

A document may spell a construct in several ways, wrap it in parentheses or in a one-statement
program, and leave out members that have a default.  The document `Node.toJson` writes uses one
spelling and every member, and loading it gives the tree again.
-/

namespace FluentQuery

set_option autoImplicit false

namespace Node

/-! ### Reading the members of a written document -/

section Members

variable {members : List (String × Json)}

/-- A member that is there is found, with the proof that it is smaller. -/
theorem field_of_get? {j : Json} {name : String} {v : Json} (h : j.get? name = some v) :
    field j name = .ok ⟨v, Json.sizeOf_add_lt_of_get? h⟩ := by
  unfold field
  split
  case h_1 w found =>
    cases h.symm.trans found
    rfl
  case h_2 absent =>
    rw [h] at absent
    cases absent

/-- The last member of a name counts. -/
theorem field_object (name : String) (v : Json) (h : Assoc.find? members.reverse name = some v) :
    field (.object members) name =
      .ok ⟨v, Json.sizeOf_add_lt_of_get? ((Json.get?_object members name).trans h)⟩ :=
  field_of_get? ((Json.get?_object members name).trans h)

theorem fieldOr_object (name other : String) (v : Json)
    (h : Assoc.find? members.reverse name = some v) :
    fieldOr (.object members) name other =
      .ok ⟨v, Json.sizeOf_add_lt_of_get? ((Json.get?_object members name).trans h)⟩ := by
  have present : (Json.object members).contains name = true := by
    rw [Json.contains, Json.get?_object, h]
    rfl
  rw [fieldOr, if_pos present, field_object name v h]

/-- The type of a written document is read back. -/
theorem documentType_object (kind : String)
    (h : Assoc.find? members.reverse "type" = some (.str kind)) :
    documentType (.object members) = .ok kind := by
  rw [documentType, Json.get?_object, h]

end Members

@[simp] theorem liftJson_ok {α : Type} (a : α) : liftJson (.ok a) = .ok a :=
  rfl

theorem parameterName_identifierJson (name : String) :
    parameterName (identifierJson name) = .ok name := by
  simp [parameterName, identifierJson, documentType_object, field_object "name" (.str name),
    Assoc.find?, bind, Except.bind, Json.asString]

/-- Parameters are written as identifiers, and read back one by one. -/
theorem mapM_parameterName (params : List String) :
    params.mapM (parameterName ∘ identifierJson) = .ok params := by
  induction params with
  | nil => rfl
  | cons name rest ih =>
    simp [ih, parameterName_identifierJson, bind, Except.bind, pure, Except.pure]

theorem propertyKey_identifierJson (key : String) :
    propertyKey (identifierJson key) = .ok key := by
  simp [propertyKey, identifierJson, documentType_object, Json.get?_object, Assoc.find?, bind,
    Except.bind, Json.asString]

/-! ### Loading what was written -/

/-- A node is written as an object, so it is neither a hole nor an argument left out. -/
theorem toJson_ne_null (node : Node) : node.toJson ≠ .null := by
  cases node with
  | returnStatement argument => cases argument <;> simp [toJson, Json.object]
  | _ => simp [toJson, identifierJson, Json.object]

/-- A return without a value is written with a null. -/
theorem ofJson_return_null {j : Json} (kind : documentType j = .ok "ReturnStatement")
    (argument : j.get? "argument" = some .null) : ofJson j = .ok (returnStatement none) := by
  rw [ofJson, kind]
  simp only [bind, Except.bind]
  split
  case h_1 | h_2 => rfl
  case h_3 v notNull found =>
    cases argument.symm.trans found
    exact absurd rfl notNull

/-- A return with a value is written with it. -/
theorem ofJson_return {j v : Json} {node : Node} (kind : documentType j = .ok "ReturnStatement")
    (argument : j.get? "argument" = some v) (given : v ≠ .null) (loaded : ofJson v = .ok node) :
    ofJson j = .ok (returnStatement (some node)) := by
  rw [ofJson, kind]
  simp only [bind, Except.bind]
  split
  case h_1 absent => cases argument.symm.trans absent
  case h_2 null =>
    cases argument.symm.trans null
    exact absurd rfl given
  case h_3 w _ found =>
    cases argument.symm.trans found
    rw [loaded]
    rfl

mutual

/-- By recursion on trees, together with lists of nodes and of properties. -/
theorem ofJson_toJson (node : Node) : ofJson node.toJson = .ok node := by
  cases node with
  | identifier name =>
    rw [toJson, identifierJson, ofJson, documentType_object "Identifier" (by simp [Assoc.find?])]
    simp [field_object "name" (.str name), Assoc.find?, bind, Except.bind, Json.asString, pure,
      Except.pure]
  | literal value =>
    rw [toJson, ofJson, documentType_object "Literal" (by simp [Assoc.find?])]
    simp [field_object "value" value, Assoc.find?, bind, Except.bind, pure, Except.pure]
  | member object property computed =>
    rw [toJson, ofJson, documentType_object "MemberExpression" (by simp [Assoc.find?])]
    simp [fieldOr_object "property" "expression" property.toJson,
      field_object "object" object.toJson, Json.getD_object, Assoc.find?, ofJson_toJson object,
      ofJson_toJson property, bind, Except.bind, Json.asBool, pure, Except.pure]
  | call callee arguments =>
    rw [toJson, ofJson, documentType_object "CallExpression" (by simp [Assoc.find?])]
    simp [field_object "arguments" (.arr (toJsonList arguments)), nodeItems,
      field_object "callee" callee.toJson, Assoc.find?, ofJson_toJson callee,
      ofJsonList_toJsonList arguments, bind, Except.bind, pure, Except.pure]
  | binary op left right =>
    rw [toJson, ofJson, documentType_object "BinaryExpression" (by simp [Assoc.find?])]
    simp [field_object "right" right.toJson, field_object "left" left.toJson,
      field_object "operator" (.str op), Assoc.find?, ofJson_toJson left, ofJson_toJson right,
      bind, Except.bind, Json.asString, pure, Except.pure]
  | logical op left right =>
    rw [toJson, ofJson, documentType_object "LogicalExpression" (by simp [Assoc.find?])]
    simp [field_object "right" right.toJson, field_object "left" left.toJson,
      field_object "operator" (.str op), Assoc.find?, ofJson_toJson left, ofJson_toJson right,
      bind, Except.bind, Json.asString, pure, Except.pure]
  | unary op argument =>
    rw [toJson, ofJson, documentType_object "UnaryExpression" (by simp [Assoc.find?])]
    simp [field_object "argument" argument.toJson, field_object "operator" (.str op),
      Assoc.find?, ofJson_toJson argument, bind, Except.bind, Json.asString, pure, Except.pure]
  | conditional test consequent alternate =>
    rw [toJson, ofJson, documentType_object "ConditionalExpression" (by simp [Assoc.find?])]
    simp [field_object "alternate" alternate.toJson, field_object "consequent" consequent.toJson,
      field_object "test" test.toJson, Assoc.find?, ofJson_toJson test,
      ofJson_toJson consequent, ofJson_toJson alternate, bind, Except.bind, pure, Except.pure]
  | object properties =>
    rw [toJson, ofJson, documentType_object "ObjectExpression" (by simp [Assoc.find?])]
    simp [field_object "properties" (.arr (Property.toJsonList properties)), memberElements,
      Json.elements, Assoc.find?, ofJsonProperties_toJsonList properties, bind, Except.bind, pure,
      Except.pure]
  | array elements =>
    rw [toJson, ofJson, documentType_object "ArrayExpression" (by simp [Assoc.find?])]
    simp [field_object "elements" (.arr (toJsonList elements)), nodeItems, Assoc.find?,
      ofJsonList_toJsonList elements, bind, Except.bind, pure, Except.pure]
  | arrow params body =>
    rw [toJson, ofJson, documentType_object "ArrowFunctionExpression" (by simp [Assoc.find?])]
    simp [field_object "params" (.arr (params.map identifierJson)), Json.elements,
      field_object "body" body.toJson, Json.getD_object, Assoc.find?, mapM_parameterName,
      ofJson_toJson body, bind, Except.bind, pure, Except.pure]
  | block body =>
    rw [toJson, ofJson, documentType_object "BlockStatement" (by simp [Assoc.find?])]
    simp [fieldOr_object "body" "statements" (.arr (toJsonList body)), nodeItems, Assoc.find?,
      ofJsonList_toJsonList body, bind, Except.bind, pure, Except.pure]
  | returnStatement argument =>
    have kind (argument : Json) : documentType (.object [("type", .str "ReturnStatement"),
        ("argument", argument)]) = .ok "ReturnStatement" :=
      documentType_object "ReturnStatement" (by simp [Assoc.find?])
    cases argument with
    | none =>
      rw [toJson]
      apply ofJson_return_null (kind .null)
      simp [Json.get?_object, Assoc.find?]
    | some argument =>
      rw [toJson]
      apply ofJson_return (kind _) _ (toJson_ne_null argument) (ofJson_toJson argument)
      simp [Json.get?_object, Assoc.find?]

theorem ofJsonList_toJsonList (nodes : List Node) : ofJsonList (toJsonList nodes) = .ok nodes := by
  cases nodes with
  | nil => simp [toJsonList, ofJsonList]
  | cons node rest =>
    rw [toJsonList, ofJsonList, ofJson_toJson node, ofJsonList_toJsonList rest]
    · rfl
    · exact toJson_ne_null node

theorem ofJsonProperties_toJsonList (properties : List Property) :
    ofJsonProperties (Property.toJsonList properties) = .ok properties := by
  cases properties with
  | nil => simp [Property.toJsonList, ofJsonProperties]
  | cons property rest =>
    cases property with
    | spread value =>
      rw [Property.toJsonList, Property.toJson, ofJsonProperties,
        documentType_object "SpreadElement" (by simp [Assoc.find?])]
      simp [field_object "argument" value.toJson, Assoc.find?, ofJson_toJson value,
        ofJsonProperties_toJsonList rest, bind, Except.bind, pure, Except.pure]
    | named key value shorthand =>
      rw [Property.toJsonList, Property.toJson, ofJsonProperties,
        documentType_object "Property" (by simp [Assoc.find?])]
      simp [field_object "key" (identifierJson key), propertyKey_identifierJson,
        field_object "value" value.toJson, Json.getD_object, Assoc.find?, ofJson_toJson value,
        ofJsonProperties_toJsonList rest, bind, Except.bind, Json.asBool, pure, Except.pure]

end

/-- Two trees with one document are the same tree. -/
theorem toJson_injective : Function.Injective toJson := by
  intro node other same
  have written := ofJson_toJson node
  rw [same, ofJson_toJson other] at written
  cases written
  rfl

/-- The document of every tree is accepted and gives the tree.  So, whatever spelling, wrapper or
nesting a document uses, if it is accepted then the document written of its tree is accepted too and
gives the same tree. -/
theorem ofJson_written :
    (∀ node : Node, ofJson node.toJson = .ok node) ∧
      ∀ j : Json, (do ofJson (← ofJson j).toJson) = ofJson j := by
  refine ⟨ofJson_toJson, ?_⟩
  intro j
  cases ofJson j with
  | error e => rfl
  | ok node => exact ofJson_toJson node

end Node

end FluentQuery
