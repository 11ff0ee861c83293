import FluentQuery.Proofs.Resolve.LiteralValues

/-!
# Lambda bodies that differ in literals

Main statement: `Node.blind_resolve`.  In scopes that are alike, two bodies that differ only in
literals both fail or resolve to one and the same expression.
-/

namespace FluentQuery

set_option autoImplicit false

variable {differ : Json → Json → Prop}

/-- The call is of the same kind, whatever the literals are. -/
theorem Scope.callKind_alike {s s' : Scope} (hs : s.Counterpart differ s') {place : Place}
    {receiver receiver' : Node} (h : receiver.Alike differ place receiver') (method : String) :
    s.callKind receiver method = s'.callKind receiver' method := by
  obtain ⟨-, -⟩ := hs
  cases h with
  | member property computed h =>
    cases h <;> rfl
  | _ => rfl

namespace Resolve

variable {α : Type} {place : Place}

/-! ### Binding -/

/-- The row of a window is the same name on both sides. -/
theorem blind_bindWindowRow (row : String) (params : List String) :
    Blind differ (bindWindowRow row params) (bindWindowRow row params) := by
  unfold bindWindowRow
  split
  · exact .pure _
  · refine .get ?_
    rintro s _ ⟨-, -⟩
    dsimp only
    refine .ite (blind_bind _) ?_
    split
    · exact blind_bind _
    · exact .ite (blind_bind _) (blind_fail _ _)

theorem blind_bindElement (params : List String) :
    Blind differ (bindElement params) (bindElement params) := by
  unfold bindElement
  split
  · exact .pure _
  · exact blind_bind _

/-! ### Calls -/

/-- Arguments that are alike, with the work that resolves them. -/
structure AlikeArgument (differ : Json → Json → Prop) (a a' : Argument) : Prop where
  node : ∃ place, a.node.Alike differ place a'.node
  value : Blind differ a.value a'.value
  lambda : ∀ method bindParams, (∀ params, Blind differ (bindParams params) (bindParams params)) →
    Blind differ (a.lambda method bindParams) (a'.lambda method bindParams)

section

variable {arguments arguments' : List Argument}
  (args : List.Forall₂ (AlikeArgument differ) arguments arguments')

include args

theorem isEmpty_alike : arguments.isEmpty = arguments'.isEmpty := by
  cases args <;> rfl

/-- The aggregate of a group is chosen by the method, and its selector is the same expression. -/
theorem blind_groupingCall (method : String) :
    Blind differ (groupingCall method arguments) (groupingCall method arguments') := by
  unfold groupingCall
  rw [isEmpty_alike args]
  refine .ite (.ite (.pure _) (blind_fail _ _)) ?_
  cases AggregateFunction.ofMethod? method with
  | none => exact blind_fail _ _
  | some function =>
    cases args with
    | nil => exact blind_fail _ _
    | cons arg rest =>
      cases rest with
      | nil => exact (arg.lambda method _ blind_bindElement).bind fun _ => .pure _
      | cons => exact blind_fail _ _

/-- Both arguments are the same expressions, literals among them. -/
theorem blind_helperCall (kinds : KeepsKinds differ) (method : String) :
    Blind differ (helperCall method arguments) (helperCall method arguments') := by
  unfold helperCall
  cases CaseInsensitiveTest.ofName? method with
  | none => exact blind_fail _ _
  | some test =>
    match args with
    | .cons left (.cons right .nil) =>
      obtain ⟨place, hnode⟩ := right.node
      exact left.value.bind fun l => (blind_operand kinds hnode right.value l).bind fun _ => .pure _
    | .nil => exact blind_fail _ _
    | .cons _ .nil => exact blind_fail _ _
    | .cons _ (.cons _ (.cons _ _)) => exact blind_fail _ _

theorem blind_textCall {receiver receiver' : Resolve Expr} (h : Blind differ receiver receiver')
    (function : StringMethod) :
    Blind differ (textCall function receiver arguments) (textCall function receiver' arguments') := by
  unfold textCall
  rw [isEmpty_alike args]
  exact .ite (h.bind fun _ => .pure _) (blind_fail _ _)

end

theorem blind_windowCall {window window' : Resolve WindowSpec} (h : Blind differ window window')
    (function : WindowFunction) :
    Blind differ (windowCall function window) (windowCall function window') :=
  h.bind fun _ => .ite (blind_fail _ _) (.pure _)

/-- Whether a list or a text is searched does not depend on the values of literals. -/
theorem blind_textTestCall (kinds : KeepsKinds differ) {receiver receiver' : Node}
    {receiverValue receiverValue' : Resolve Expr} {argument argument' : Argument}
    (hreceiver : receiver.Alike differ place receiver')
    (h : Blind differ receiverValue receiverValue') (arg : AlikeArgument differ argument argument')
    (test : TextTest) :
    Blind differ (textTestCall test receiver receiverValue argument)
      (textTestCall test receiver' receiverValue' argument') := by
  unfold textTestCall
  rw [hreceiver.isArray_eq]
  obtain ⟨_, hnode⟩ := arg.node
  refine .ite (arg.value.bind fun _ => h.bind fun _ => .pure _) (h.bind fun target => ?_)
  refine .ite (arg.value.bind fun _ => .pure _) ?_
  exact (blind_operand kinds hnode arg.value target).bind fun _ => .pure _

/-- What a call is depends on its receiver and its method, which both sides share. -/
theorem blind_methodCall (kinds : KeepsKinds differ) {receiver receiver' : Node}
    {receiverValue receiverValue' : Resolve Expr} {window window' : Resolve WindowSpec}
    {arguments arguments' : List Argument} (hreceiver : receiver.Alike differ place receiver')
    (h : Blind differ receiverValue receiverValue') (hw : Blind differ window window')
    (args : List.Forall₂ (AlikeArgument differ) arguments arguments') (method : String) :
    Blind differ (methodCall receiver method receiverValue window arguments)
      (methodCall receiver' method receiverValue' window' arguments') := by
  refine .get fun s s' hs => ?_
  rw [Scope.callKind_alike hs hreceiver]
  cases s'.callKind receiver' method with
  | external => exact blind_fail _ _
  | grouping => exact blind_groupingCall args method
  | helper => exact blind_helperCall args kinds method
  | window function => exact blind_windowCall hw function
  | dateArithmetic => exact blind_fail _ _
  | stringMethod function => exact blind_textCall args h function
  | textTest test =>
    match args with
    | .cons arg .nil => exact blind_textTestCall kinds hreceiver h arg test
    | .nil => exact blind_fail _ _
    | .cons _ (.cons _ _) => exact blind_fail _ _
  | unsupported => exact blind_fail _ _

/-! ### Windows -/

section

variable {arguments arguments' : List Argument}
  (args : List.Forall₂ (AlikeArgument differ) arguments arguments')

include args

/-- The keys of a window are the same expressions. -/
theorem blind_keys (method row : String) :
    Blind differ (arguments.mapM fun argument => argument.lambda method (bindWindowRow row))
      (arguments'.mapM fun argument => argument.lambda method (bindWindowRow row)) := by
  induction args with
  | nil => exact .pure _
  | cons arg _ ih =>
    rw [List.mapM_cons, List.mapM_cons]
    exact (arg.lambda method _ (blind_bindWindowRow row)).bind fun _ => ih.bind fun _ => .pure _

theorem blind_partitionWindow (window : WindowSpec) (method : String) :
    Blind differ (partitionWindow window method arguments)
      (partitionWindow window method arguments') := by
  unfold partitionWindow
  rw [isEmpty_alike args]
  exact .ite (blind_fail _ _) ((blind_keys args method window.row).bind fun _ => .pure _)

theorem blind_orderWindow (window : WindowSpec) (method : String) :
    Blind differ (orderWindow window method arguments) (orderWindow window method arguments') := by
  unfold orderWindow
  cases WindowOrderCall.ofName? method with
  | none => exact blind_fail _ _
  | some call =>
    match args with
    | .cons arg .nil =>
      refine .ite (blind_fail _ _) (.ite (blind_fail _ _) ?_)
      exact (arg.lambda method _ (blind_bindWindowRow window.row)).bind fun _ => .pure _
    | .nil => exact blind_fail _ _
    | .cons _ (.cons _ _) => exact blind_fail _ _

theorem blind_openWindow : Blind differ (openWindow arguments) (openWindow arguments') := by
  match args with
  | .cons (a := ⟨node, _, _⟩) (b := ⟨node', _, _⟩) arg .nil =>
    obtain ⟨_, hnode⟩ := arg.node
    cases hnode with
    | identifier => exact .pure _
    | _ => exact blind_fail _ _
  | .nil => exact blind_fail _ _
  | .cons _ (.cons _ _) =>
    rw [openWindow_many, openWindow_many]
    exact blind_fail _ _

/-- A window is described step by step, alike on both sides. -/
theorem blind_windowStep {receiver receiver' : Node} {earlier earlier' : Resolve WindowSpec}
    (hreceiver : receiver.Alike differ place receiver') (h : Blind differ earlier earlier')
    (method : String) :
    Blind differ (windowStep receiver method earlier arguments)
      (windowStep receiver' method earlier' arguments') := by
  refine .get ?_
  rintro s _ ⟨-, -⟩
  have same : opensWindow s.helpers receiver method = opensWindow s.helpers receiver' method := by
    cases hreceiver <;> rfl
  dsimp only
  rw [same]
  refine .ite (blind_openWindow args) (h.bind fun window => ?_)
  exact .ite (blind_partitionWindow args window method) (blind_orderWindow args window method)

end

end Resolve

/-! ### Nodes -/

open Resolve

variable {place : Place}

/-- A call of anything but a method is no expression. -/
theorem Node.blind_call_of_ne_member {callee callee' : Node} (arguments arguments' : List Node)
    (h : callee.Alike differ place callee')
    (other : ∀ receiver property computed, callee ≠ .member receiver property computed)
    (isPredicate : Bool) :
    Blind differ ((Node.call callee arguments).resolve isPredicate)
      ((Node.call callee' arguments').resolve isPredicate) := by
  cases h with
  | member => exact absurd rfl (other _ _ _)
  | _ => exact blind_fail _ _

/-- What is no call of a method describes no window. -/
theorem Node.blind_window_of_ne_call {node node' : Node} (whole whole' : Node)
    (h : node.Alike differ place node') (other : ∀ receiver property computed arguments,
      node ≠ .call (.member receiver property computed) arguments) :
    Blind differ (Node.resolveWindow whole node) (Node.resolveWindow whole' node') := by
  have fails : Blind differ (get >>= fun s : Scope =>
      (Resolve.fail (ExprFault.windowStart s.helpers) : Resolve WindowSpec)) (get >>= fun s : Scope =>
      (Resolve.fail (ExprFault.windowStart s.helpers) : Resolve WindowSpec)) :=
    .get fun _ _ _ => blind_fail _ _
  cases h with
  | call h =>
    cases h with
    | member => exact absurd rfl (other _ _ _ _)
    | _ => exact blind_fail _ _
  | _ => exact fails

mutual

/-- Bodies that differ only in literals resolve to the same expression, or both fail. -/
theorem Node.blind_resolve (kinds : KeepsKinds differ) : ∀ (node : Node) {node' : Node} {place : Place},
    node.Alike differ place node' → ∀ isPredicate : Bool,
      Blind differ (node.resolve isPredicate) (node'.resolve isPredicate)
  | .identifier _, _, _, .identifier name, _ => blind_identifier name
  | .literal _, _, _, .literal h, _ => blind_literal kinds (h.imp_right And.left) .absent
  | .member _ _ _, _, _, h, _ => by
    have accesses := blind_member h
    cases h with
    | member => exact accesses
  | .binary _ left right, _, _, .binary op hl hr, _ =>
    blind_binary kinds hl hr (Node.blind_resolve kinds left hl false)
      (Node.blind_resolve kinds right hr false) op
  | .logical _ left right, _, _, .logical op hl hr, isPredicate =>
    blind_logical (Node.blind_resolve kinds left hl) (Node.blind_resolve kinds right hr) isPredicate op
  | .unary _ argument, _, _, .unary op h, _ =>
    blind_unary kinds h (Node.blind_resolve kinds argument h) op
  | .conditional test consequent alternate, _, _, .conditional ht hc ha, _ =>
    blind_conditional (Node.blind_resolve kinds test ht true)
      (Node.blind_resolve kinds consequent hc false) (Node.blind_resolve kinds alternate ha false)
  | .object properties, _, _, .object h, _ => (Property.blind_resolveList kinds properties h).map _
  | .array elements, _, _, .array h, _ => (Node.blind_resolveList kinds elements h).map _
  | .arrow _ _, _, _, .arrow _ _, _ => blind_fail _ _
  | .block _, _, _, .block _, _ => blind_fail _ _
  | .returnStatement none, _, _, .returnNothing, _ => blind_fail _ _
  | .returnStatement (some _), _, _, .returnValue _, _ => blind_fail _ _
  | .call callee arguments, _, _, .call h args, isPredicate =>
    match callee, h, args with
    | .member receiver _ _, .member property computed h, args =>
      blind_methodCall kinds h (Node.blind_resolve kinds receiver h false)
        (Node.blind_resolveWindow kinds receiver h _ _) (Node.alike_arguments kinds arguments args)
        property.keyName
    | .identifier _, h, _ | .literal _, h, _ | .call _ _, h, _ | .binary _ _ _, h, _
    | .logical _ _ _, h, _ | .unary _ _, h, _ | .conditional _ _ _, h, _ | .object _, h, _
    | .array _, h, _ | .arrow _ _, h, _ | .block _, h, _ | .returnStatement _, h, _ =>
      Node.blind_call_of_ne_member _ _ h nofun isPredicate
termination_by node => sizeOf node
decreasing_by all_goals simp <;> omega

/-- Items are resolved in order, so that corresponding literals get one number. -/
theorem Node.blind_resolveList (kinds : KeepsKinds differ) : ∀ (nodes : List Node)
    {nodes' : List Node} {first rest : Place}, Node.AlikeList differ first rest nodes nodes' →
      Blind differ (Node.resolveList nodes) (Node.resolveList nodes')
  | [], _, _, _, .nil => .pure _
  | node :: nodes, _, _, _, .cons h hs =>
    (Node.blind_resolve kinds node h false).bind fun _ =>
      (Node.blind_resolveList kinds nodes hs).bind fun _ => .pure _
termination_by nodes => sizeOf nodes
decreasing_by all_goals (simp only [List.cons.sizeOf_spec]; omega)

/-- Properties are resolved in order, under names that both sides share. -/
theorem Property.blind_resolveList (kinds : KeepsKinds differ) : ∀ (properties : List Property)
    {properties' : List Property}, Property.AlikeList differ properties properties' →
      Blind differ (Property.resolveList properties) (Property.resolveList properties')
  | [], _, .nil => .pure _
  | .spread argument :: rest, _, .spread h hs =>
    (blind_spread h (Node.blind_resolve kinds argument h false)).bind fun _ =>
      (Property.blind_resolveList kinds rest hs).bind fun _ => .pure _
  | .named _ value _ :: rest, _, .named _ _ h hs =>
    (Node.blind_resolve kinds value h false).bind fun _ =>
      (Property.blind_resolveList kinds rest hs).bind fun _ => .pure _
termination_by properties => sizeOf properties
decreasing_by
  all_goals
    simp only [List.cons.sizeOf_spec, Property.spread.sizeOf_spec, Property.named.sizeOf_spec]
    omega

/-- A lambda is resolved alike if its parameters are bound alike. -/
theorem Node.blind_resolveLambda (kinds : KeepsKinds differ) : ∀ (node : Node) {node' : Node}
    {place : Place}, node.Alike differ place node' → ∀ (isPredicate : Bool) (method : String)
      (bindParams : List String → Resolve Unit),
      (∀ params, Blind differ (bindParams params) (bindParams params)) →
      Blind differ (node.resolveLambda isPredicate method bindParams)
        (node'.resolveLambda isPredicate method bindParams)
  | .arrow _ body, _, _, .arrow params h, isPredicate, method, bindParams, binds => by
    have value := Node.blind_resolve kinds body h isPredicate
    have unreadable (fault fault' : LoadFault) : Blind differ
        (withParams bindParams params (failUnplaced fault : Resolve Expr))
        (withParams bindParams params (failUnplaced fault')) :=
      blind_withParams (binds params) (blind_failUnplaced _ _)
    cases h with
    | block hs =>
      cases hs with
      | nil => exact unreadable _ _
      | cons h hs =>
        cases h with
        | returnValue h =>
          cases hs with
          | nil => exact blind_withParams (binds params) (Node.blind_resolve kinds _ h isPredicate)
          | cons => exact unreadable _ _
        | _ => cases hs <;> exact unreadable _ _
    | _ => exact blind_withParams (binds params) value
  | .identifier _, _, _, h, _, _, _, _ | .literal _, _, _, h, _, _, _, _
  | .member _ _ _, _, _, h, _, _, _, _ | .binary _ _ _, _, _, h, _, _, _, _
  | .logical _ _ _, _, _, h, _, _, _, _ | .unary _ _, _, _, h, _, _, _, _
  | .conditional _ _ _, _, _, h, _, _, _, _ | .object _, _, _, h, _, _, _, _
  | .array _, _, _, h, _, _, _, _ | .block _, _, _, h, _, _, _, _
  | .returnStatement _, _, _, h, _, _, _, _ | .call _ _, _, _, h, _, _, _, _ => by
    cases h <;> exact blind_fail _ _
termination_by node => sizeOf node

/-- Corresponding arguments resolve to the same, as values and as lambdas. -/
theorem Node.alike_arguments (kinds : KeepsKinds differ) : ∀ (nodes : List Node)
    {nodes' : List Node} {first rest : Place}, Node.AlikeList differ first rest nodes nodes' →
      List.Forall₂ (AlikeArgument differ) (Node.arguments nodes) (Node.arguments nodes')
  | [], _, _, _, .nil => .nil
  | node :: nodes, _, _, _, .cons h hs =>
    .cons ⟨⟨_, h⟩, Node.blind_resolve kinds node h false,
        fun method bindParams binds =>
          Node.blind_resolveLambda kinds node h false method bindParams binds⟩
      (Node.alike_arguments kinds nodes hs)
termination_by nodes => sizeOf nodes
decreasing_by all_goals (simp only [List.cons.sizeOf_spec]; omega)

/-- Chains of calls that describe windows describe the same one. -/
theorem Node.blind_resolveWindow (kinds : KeepsKinds differ) : ∀ (node : Node) {node' : Node}
    {place : Place}, node.Alike differ place node' → ∀ whole whole' : Node,
      Blind differ (Node.resolveWindow whole node) (Node.resolveWindow whole' node')
  | .call (.member receiver _ _) arguments, _, _, .call (.member property _ h) args, _, _ =>
    blind_windowStep (Node.alike_arguments kinds arguments args) h
      (Node.blind_resolveWindow kinds receiver h _ _) property.keyName
  | .call (.identifier _) _, _, _, h, whole, whole' | .call (.literal _) _, _, _, h, whole, whole'
  | .call (.call _ _) _, _, _, h, whole, whole' | .call (.binary _ _ _) _, _, _, h, whole, whole'
  | .call (.logical _ _ _) _, _, _, h, whole, whole' | .call (.unary _ _) _, _, _, h, whole, whole'
  | .call (.conditional _ _ _) _, _, _, h, whole, whole' | .call (.object _) _, _, _, h, whole, whole'
  | .call (.array _) _, _, _, h, whole, whole' | .call (.arrow _ _) _, _, _, h, whole, whole'
  | .call (.block _) _, _, _, h, whole, whole'
  | .call (.returnStatement _) _, _, _, h, whole, whole' | .identifier _, _, _, h, whole, whole'
  | .literal _, _, _, h, whole, whole' | .member _ _ _, _, _, h, whole, whole'
  | .binary _ _ _, _, _, h, whole, whole' | .logical _ _ _, _, _, h, whole, whole'
  | .unary _ _, _, _, h, whole, whole' | .conditional _ _ _, _, _, h, whole, whole'
  | .object _, _, _, h, whole, whole' | .array _, _, _, h, whole, whole'
  | .arrow _ _, _, _, h, whole, whole' | .block _, _, _, h, whole, whole'
  | .returnStatement _, _, _, h, whole, whole' => Node.blind_window_of_ne_call whole whole' h nofun
termination_by node => sizeOf node
decreasing_by all_goals (simp only [Node.call.sizeOf_spec, Node.member.sizeOf_spec]; omega)

end

end FluentQuery
