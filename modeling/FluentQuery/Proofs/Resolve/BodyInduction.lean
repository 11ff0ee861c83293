import FluentQuery.Resolve.Expr

/-!
# Induction over lambda bodies

A body is resolved along its syntax: operands, members and elements, the object and the arguments of a
method call, and what a lambda among those returns.  `Node.body_induction` has one case for each form of
a node; the lemmas before it say what is refused as it stands.
-/

namespace FluentQuery

set_option autoImplicit false

namespace Node

/-! ### What is refused -/

/-- The value of a lambda is that of what it returns. -/
theorem resolveLambda_arrow (params : List String) (body : Node) (isPredicate : Bool)
    (method : String) (bindParams : List String → Resolve Unit) :
    (arrow params body).resolveLambda isPredicate method bindParams =
      Resolve.withParams bindParams params
        (match body.lambdaBody with
          | .ok value => value.resolve isPredicate
          | .error fault => Resolve.failUnplaced fault) := by
  cases body with
  | block nodes =>
    match nodes with
    | [] => rfl
    | [node] | node :: _ :: _ =>
      cases node with
      | returnStatement value => cases value <;> rfl
      | _ => rfl
  | _ => rfl

theorem resolveLambda_of_ne_arrow {node : Node} (noLambda : ∀ params body, node ≠ arrow params body)
    (isPredicate : Bool) (method : String) (bindParams : List String → Resolve Unit) :
    node.resolveLambda isPredicate method bindParams = Resolve.fail (ExprFault.notLambda method) := by
  cases node with
  | arrow params body => exact absurd rfl (noLambda params body)
  | _ => rfl

/-- A call of anything but a method is no expression. -/
theorem resolve_call_of_ne_member {callee : Node}
    (noMethod : ∀ receiver property computed, callee ≠ member receiver property computed)
    (arguments : List Node) (isPredicate : Bool) :
    ∃ fault : Fault, (call callee arguments).resolve isPredicate = Resolve.fail fault := by
  cases callee with
  | member receiver property computed => exact absurd rfl (noMethod receiver property computed)
  | _ => exact ⟨_, rfl⟩

/-- What is no call of a method describes no window. -/
theorem resolveWindow_of_ne_method {node : Node} (noMethod : ∀ receiver property computed arguments,
      node ≠ call (member receiver property computed) arguments) (whole : Node) :
    ∃ fault : Scope → Fault, resolveWindow whole node = get >>= fun s => Resolve.fail (fault s) := by
  cases node with
  | call callee arguments =>
    cases callee with
    | member receiver property computed =>
      exact absurd rfl (noMethod receiver property computed arguments)
    | _ => exact ⟨fun _ => ExprFault.malformedWindow whole.toSource, rfl⟩
  | _ => exact ⟨fun s => ExprFault.windowStart s.helpers, rfl⟩

/-! ### Induction -/

/-- The value of a lambda's body is the body, or part of it. -/
theorem sizeOf_lambdaBody_le {body value : Node} (returned : body.lambdaBody = .ok value) :
    sizeOf value ≤ sizeOf body := by
  unfold lambdaBody at returned
  split at returned
  · cases returned
    simp +arith
  · cases returned
  · cases returned
  · cases returned
    exact Nat.le_refl _

/-- Induction over the nodes that take part in the resolution of a node. -/
theorem body_induction {motive : Node → Prop} (identifier : ∀ name, motive (identifier name))
    (literal : ∀ value, motive (literal value))
    (member : ∀ receiver property computed, motive (member receiver property computed))
    (binary : ∀ op left right, motive left → motive right → motive (binary op left right))
    (logical : ∀ op left right, motive left → motive right → motive (logical op left right))
    (unary : ∀ op argument, motive argument → motive (unary op argument))
    (conditional : ∀ test consequent alternate, motive test → motive consequent → motive alternate →
      motive (conditional test consequent alternate))
    (object : ∀ properties, (∀ argument, .spread argument ∈ properties → motive argument) →
      (∀ key value shorthand, .named key value shorthand ∈ properties → motive value) →
      motive (object properties))
    (array : ∀ elements, (∀ element ∈ elements, motive element) → motive (array elements))
    (arrow : ∀ params body, (∀ value, body.lambdaBody = .ok value → motive value) →
      motive (arrow params body))
    (block : ∀ nodes, motive (block nodes))
    (returnStatement : ∀ value, motive (returnStatement value))
    (method : ∀ receiver property computed arguments, motive receiver →
      (∀ argument ∈ arguments, motive argument) →
      motive (call (.member receiver property computed) arguments))
    (call : ∀ callee arguments,
      (∀ receiver property computed, callee ≠ .member receiver property computed) →
      motive (call callee arguments)) (node : Node) : motive node := by
  induction size : sizeOf node using Nat.strongRecOn generalizing node with
  | ind _ ih =>
    subst size
    have smaller (node' : Node) (lt : sizeOf node' < sizeOf node) : motive node' :=
      ih (sizeOf node') lt node' rfl
    cases node with
    | identifier name => exact identifier name
    | literal value => exact literal value
    | member receiver property computed => exact member receiver property computed
    | binary op left right =>
      rw [Node.binary.sizeOf_spec] at smaller
      exact binary op left right (smaller left (by omega)) (smaller right (by omega))
    | logical op left right =>
      rw [Node.logical.sizeOf_spec] at smaller
      exact logical op left right (smaller left (by omega)) (smaller right (by omega))
    | unary op argument =>
      rw [Node.unary.sizeOf_spec] at smaller
      exact unary op argument (smaller argument (by omega))
    | conditional test consequent alternate =>
      rw [Node.conditional.sizeOf_spec] at smaller
      exact conditional test consequent alternate (smaller test (by omega))
        (smaller consequent (by omega)) (smaller alternate (by omega))
    | object properties =>
      rw [Node.object.sizeOf_spec] at smaller
      refine object properties (fun argument mem => ?_) fun key value shorthand mem => ?_
      · have part := List.sizeOf_lt_of_mem mem
        rw [Property.spread.sizeOf_spec] at part
        exact smaller argument (by omega)
      · have part := List.sizeOf_lt_of_mem mem
        rw [Property.named.sizeOf_spec] at part
        exact smaller value (by omega)
    | array elements =>
      rw [Node.array.sizeOf_spec] at smaller
      refine array elements fun element mem => ?_
      have part := List.sizeOf_lt_of_mem mem
      exact smaller element (by omega)
    | arrow params body =>
      rw [Node.arrow.sizeOf_spec] at smaller
      refine arrow params body fun value returned => ?_
      have part := sizeOf_lambdaBody_le returned
      exact smaller value (by omega)
    | block nodes => exact block nodes
    | returnStatement value => exact returnStatement value
    | call callee arguments =>
      cases callee with
      | member receiver property computed =>
        rw [Node.call.sizeOf_spec, Node.member.sizeOf_spec] at smaller
        refine method receiver property computed arguments (smaller receiver (by omega)) ?_
        intro argument mem
        have part := List.sizeOf_lt_of_mem mem
        exact smaller argument (by omega)
      | _ => exact call _ arguments nofun

end Node

end FluentQuery
