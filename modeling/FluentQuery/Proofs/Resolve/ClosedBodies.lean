import FluentQuery.Proofs.Resolve.BodyInduction
import FluentQuery.Proofs.Resolve.ClosedOperators

/-!
# Lambda bodies resolve to closed expressions

Main statement: `Node.tidy_resolve`.  Resolving a node from a scope within a vocabulary only adds
automatic parameters to the scope, and every name of the resulting expression is known or is an
automatic parameter.  Lambdas inside a body may rebind names, but never to anything unknown, and
their bindings are taken back.
-/

namespace FluentQuery

set_option autoImplicit false

namespace Resolve

open FluentQuery.Expr

variable {v : Vocabulary} {s : Scope}

/-! ### Lambdas -/

/-- Work that binds the parameters of a lambda changes nothing but bindings, and binds them to nothing
unknown. -/
def Rebinds (v : Vocabulary) (bindParams : Resolve Unit) : Prop :=
  ∀ s, s.Within v → Ensures bindParams s
    (fun _ s' => ∃ b : Bindings, s' = { s with bindings := b } ∧ b.Within v)
    (fun s' => ∃ b : Bindings, s' = { s with bindings := b })

/-- Work whose bindings are taken back is judged by what it leaves besides. -/
theorem ensures_withBindings {α : Type} {work : Resolve α} {post : α → Scope → Prop}
    {failed : Scope → Prop}
    (h : Ensures work s (fun a s' => post a { s' with bindings := s.bindings })
      (fun s' => failed { s' with bindings := s.bindings })) :
    Ensures (withBindings work) s post failed := by
  unfold Ensures withBindings at *
  split at h
  · simpa only [‹work s = _›] using h
  · simpa only [‹work s = _›] using h

/-- A body is closed under the names of its own lambda, none of which is unknown. -/
theorem tidy_withParams {bindParams : List String → Resolve Unit} {params : List String}
    {body : Resolve Expr} (binds : Rebinds v (bindParams params))
    (h : Tidy v (closed v) body) :
    Tidy v (closed v) (withParams bindParams params body) := by
  intro s within
  refine ensures_withBindings ?_
  -- The body runs with other bindings; taking them back turns what it minted into a change of `s`.
  refine ((binds s within).mono (fun _ _ => id) ?_).bind ?_
  · rintro s' ⟨b, rfl⟩
    exact .refl s
  rintro _ s' ⟨b, rfl, known⟩
  have within' : Scope.Within v { s with bindings := b } := ⟨known, within.groupKey⟩
  refine (h _ within').mono ?_ ?_
  · rintro e s'' ⟨minted, within'', he⟩
    have minted' : s.Mints { s'' with bindings := s.bindings } := minted.rebind s.bindings
    exact ⟨minted', within.mono minted', he⟩
  · intro s'' minted
    exact minted.rebind s.bindings

theorem ensures_bind {change : Bindings → Bindings} (h : (change s.bindings).Within v) :
    Ensures (bind change) s
      (fun _ s' => ∃ b : Bindings, s' = { s with bindings := b } ∧ b.Within v)
      (fun s' => ∃ b : Bindings, s' = { s with bindings := b }) :=
  ⟨change s.bindings, rfl, h⟩

/-- The row of a window is one that is known. -/
theorem rebinds_bindWindowRow (row : String) (params : List String) :
    Rebinds v (bindWindowRow row params) := by
  intro s within
  unfold bindWindowRow
  split
  · exact ⟨s.bindings, rfl, within.bindings⟩
  · refine Ensures.bind (show Ensures get s (fun t t' => t = s ∧ t' = s) _ from ⟨rfl, rfl⟩) ?_
    rintro _ _ ⟨rfl, rfl⟩
    dsimp only
    split
    · exact ensures_bind (within.bindings.bindTable _)
    split
    · rename_i index hjoin
      exact ensures_bind (within.bindings.bindJoin _ (within.bindings.joins row index hjoin))
    split
    · exact ensures_bind (within.bindings.bindShape _ within.bindings.shape)
    · exact ⟨_, rfl⟩

/-- The row of a group belongs to the first table. -/
theorem rebinds_bindElement (params : List String) : Rebinds v (bindElement params) := by
  intro s within
  unfold bindElement
  split
  · exact ⟨s.bindings, rfl, within.bindings⟩
  · exact ensures_bind (within.bindings.bindElement _)

/-! ### Calls -/

/-- The work that resolves an argument is tidy. -/
structure TidyArgument (v : Vocabulary) (a : Argument) : Prop where
  value : Tidy v (closed v) a.value
  lambda : ∀ method bindParams, (∀ params, Rebinds v (bindParams params)) →
    Tidy v (closed v) (a.lambda method bindParams)

/-- The keys of a window are closed. -/
structure windowClosed (v : Vocabulary) (w : WindowSpec) (s : Scope) : Prop where
  partitionBy : ∀ e ∈ w.partitionBy, e.Closed v s
  orderBy : ∀ o ∈ w.orderBy, o.1.Closed v s

section

variable {arguments : List Argument} (args : ∀ a ∈ arguments, TidyArgument v a)

include args

/-- An aggregate names what its selector does. -/
theorem tidy_groupingCall (method : String) :
    Tidy v (closed v) (groupingCall method arguments) := by
  intro s within
  unfold groupingCall
  split
  · split
    · exact .pure within ((every_aggregate _ _).2 ⟨trivial, every_absent⟩)
    · exact .fail
  split
  · exact .fail
  · rename_i function selector _
    have arg := args selector (List.mem_cons_self ..)
    refine .bind (arg.lambda method bindElement rebinds_bindElement s within) ?_
    intro e s₁ _ within₁ he
    exact .pure within₁ ((every_aggregate _ _).2 ⟨trivial, he⟩)
  · exact .fail

theorem tidy_helperCall (method : String) :
    Tidy v (closed v) (helperCall method arguments) := by
  intro s within
  unfold helperCall
  split
  · exact .fail
  · rename_i test left right _
    refine .bind ((args left (by simp)).value s within) ?_
    intro l s₁ _ within₁ hl
    refine .bind (tidy_operand (args right (by simp)).value s₁ within₁) ?_
    intro r s₂ minted₂ within₂ hr
    exact .pure within₂
      ((every_caseInsensitive _ _ _).2 ⟨trivial, Expr.Closed.mono hl minted₂, hr⟩)
  · exact .fail

end

theorem tidy_textCall {receiver : Resolve Expr} {arguments : List Argument}
    (h : Tidy v (closed v) receiver) (function : StringMethod) :
    Tidy v (closed v) (textCall function receiver arguments) := by
  intro s within
  unfold textCall
  split
  · refine .bind (h s within) ?_
    intro e s₁ _ within₁ he
    exact .pure within₁ ((every_stringMethod _ _).2 ⟨trivial, he⟩)
  · exact .fail

/-- A test names what its receiver and its argument do. -/
theorem tidy_textTestCall {receiverValue : Resolve Expr} {argument : Argument}
    (h : Tidy v (closed v) receiverValue) (arg : TidyArgument v argument)
    (test : TextTest) (receiver : Node) :
    Tidy v (closed v) (textTestCall test receiver receiverValue argument) := by
  intro s within
  unfold textTestCall
  split
  · refine .two within arg.value h ?_
    intro value items s₁ within₁ hv hi
    exact .pure within₁ ((every_membership _ _).2 ⟨trivial, hv, hi⟩)
  · refine .bind (h s within) ?_
    intro target s₁ _ within₁ ht
    split
    · refine .bind (arg.value s₁ within₁) ?_
      intro value s₂ minted₂ within₂ hv
      exact .pure within₂ ((every_membership _ _).2 ⟨trivial, hv, Expr.Closed.mono ht minted₂⟩)
    · refine .bind (tidy_operand arg.value s₁ within₁) ?_
      intro e s₂ minted₂ within₂ he
      refine .pure within₂ ((every_textTest _ _ _).2 ⟨trivial, Expr.Closed.mono ht minted₂, ?_⟩)
      intro a ha
      rw [List.mem_singleton.1 ha]
      exact he

theorem tidy_windowCall {window : Resolve WindowSpec} (h : Tidy v (windowClosed v) window)
    (function : WindowFunction) :
    Tidy v (closed v) (windowCall function window) := by
  intro s within
  unfold windowCall
  refine .bind (h s within) ?_
  intro w s₁ _ within₁ hw
  split
  · exact .fail
  · exact .pure within₁ ((every_window _ _ _).2 ⟨trivial, hw.partitionBy, hw.orderBy⟩)

/-- A call names what its parts do. -/
theorem tidy_methodCall {receiverValue : Resolve Expr} {window : Resolve WindowSpec}
    {arguments : List Argument} (h : Tidy v (closed v) receiverValue)
    (hw : Tidy v (windowClosed v) window)
    (args : ∀ a ∈ arguments, TidyArgument v a) (receiver : Node) (method : String) :
    Tidy v (closed v) (methodCall receiver method receiverValue window arguments) := by
  intro s within
  unfold methodCall
  refine .get ?_
  split
  · exact .fail
  · exact tidy_groupingCall args method s within
  · exact tidy_helperCall args method s within
  · exact tidy_windowCall hw _ s within
  · exact .fail
  · exact tidy_textCall h _ s within
  · split
    · exact tidy_textTestCall h (args _ (List.mem_cons_self ..)) _ _ s within
    · exact .fail
  · exact .fail

/-! ### Windows -/

/-- A window stays closed while parameters are minted. -/
theorem windowClosed.mono {w : WindowSpec} {s' : Scope} (h : windowClosed v w s)
    (minted : s.Mints s') : windowClosed v w s' :=
  ⟨fun e he => (h.partitionBy e he).mono minted, fun o ho => (h.orderBy o ho).mono minted⟩

/-- The keys of a window are closed, one after the other. -/
theorem tidy_keys {arguments : List Argument} (args : ∀ a ∈ arguments, TidyArgument v a)
    (method row : String) :
    Tidy v (allClosed v)
      (arguments.mapM fun argument => argument.lambda method (bindWindowRow row)) := by
  induction arguments with
  | nil =>
    intro s within
    exact .pure within fun e he => by cases he
  | cons a rest ih =>
    intro s within
    rw [List.mapM_cons]
    have head := (args a (List.mem_cons_self ..)).lambda method _ (rebinds_bindWindowRow row)
    refine .bind (head s within) ?_
    intro e s₁ _ within₁ he
    refine .bind (ih (fun a ha => args a (List.mem_cons_of_mem _ ha)) s₁ within₁) ?_
    intro es s₂ minted₂ within₂ hes
    refine .pure within₂ ?_
    intro e' he'
    rcases List.mem_cons.1 he' with rfl | hrest
    · exact Expr.Closed.mono he minted₂
    · exact hes e' hrest

/-- Keys are added to a window that stays closed meanwhile. -/
theorem tidy_windowStep {earlier : Resolve WindowSpec} {arguments : List Argument}
    (h : Tidy v (windowClosed v) earlier)
    (args : ∀ a ∈ arguments, TidyArgument v a) (receiver : Node) (method : String) :
    Tidy v (windowClosed v) (windowStep receiver method earlier arguments) := by
  intro s within
  unfold windowStep
  refine .get ?_
  split
  · unfold openWindow
    split
    · exact .pure within ⟨by simp, by simp⟩
    · exact .fail
  refine .bind (h s within) ?_
  intro w s₁ _ within₁ hw
  split
  · unfold partitionWindow
    split
    · exact .fail
    · refine .bind (tidy_keys args method w.row s₁ within₁) ?_
      intro keys s₂ minted₂ within₂ hkeys
      refine .pure within₂ ⟨?_, (hw.mono minted₂).orderBy⟩
      intro e he
      rcases List.mem_append.1 he with hm | hm
      · exact (hw.mono minted₂).partitionBy e hm
      · exact hkeys e hm
  · unfold orderWindow
    split
    · exact .fail
    · rename_i call argument _
      split
      · exact .fail
      split
      · exact .fail
      have arg := args argument (List.mem_cons_self ..)
      refine .bind (arg.lambda method _ (rebinds_bindWindowRow w.row) s₁ within₁) ?_
      intro key s₂ minted₂ within₂ hkey
      refine .pure within₂ ⟨(hw.mono minted₂).partitionBy, ?_⟩
      intro o ho
      rcases List.mem_append.1 ho with hm | hm
      · exact (hw.mono minted₂).orderBy o hm
      · rw [List.mem_singleton.1 hm]
        exact hkey
    · exact .fail

end Resolve

/-! ### Nodes -/

section

open Resolve FluentQuery.Expr

variable {v : Vocabulary}

/-- All work on a node is tidy, and what is made of it is closed: its expression, that of the lambda
that it is, under what is known outside of it, and the window that it describes. -/
structure Node.TidyAll (v : Vocabulary) (node : Node) : Prop where
  value : ∀ isPredicate, Tidy v (closed v) (node.resolve isPredicate)
  lambda : ∀ isPredicate method (bindParams : List String → Resolve Unit),
    (∀ params body, node = .arrow params body → Rebinds v (bindParams params)) →
    Tidy v (closed v) (node.resolveLambda isPredicate method bindParams)
  window : ∀ whole, Tidy v (windowClosed v) (Node.resolveWindow whole node)

namespace Node

/-- What is neither a lambda nor a call of a method is an expression only. -/
theorem TidyAll.of_value {node : Node} (noLambda : ∀ params body, node ≠ .arrow params body)
    (noMethod : ∀ receiver property computed arguments,
      node ≠ .call (.member receiver property computed) arguments)
    (value : ∀ isPredicate, Tidy v (closed v) (node.resolve isPredicate)) : node.TidyAll v where
  value := value
  lambda isPredicate method bindParams _ := by
    rw [resolveLambda_of_ne_arrow noLambda]
    exact fun _ _ => .fail
  window whole := by
    obtain ⟨fault, fails⟩ := resolveWindow_of_ne_method noMethod whole
    rw [fails]
    exact fun _ _ => .get .fail

/-- Items stay closed while later ones are resolved. -/
theorem tidy_resolveList {nodes : List Node} (h : ∀ node ∈ nodes, node.TidyAll v) :
    Tidy v (allClosed v) (Node.resolveList nodes) := by
  induction nodes with
  | nil => exact fun _ within => .pure within fun e he => by cases he
  | cons node rest ih =>
    rw [List.forall_mem_cons] at h
    intro s within
    refine .bind (h.1.value false s within) ?_
    intro e s₁ _ within₁ he
    refine .bind (ih h.2 s₁ within₁) ?_
    intro es s₂ minted₂ within₂ hes
    exact .pure within₂ (List.forall_mem_cons.2 ⟨Expr.Closed.mono he minted₂, hes⟩)

/-- Members stay closed while later ones are resolved. -/
theorem tidy_properties {properties : List Property}
    (spread : ∀ argument, .spread argument ∈ properties → argument.TidyAll v)
    (named : ∀ key value shorthand, .named key value shorthand ∈ properties → value.TidyAll v) :
    Tidy v (membersClosed v) (Property.resolveList properties) := by
  induction properties with
  | nil => exact fun _ within => .pure within fun m hm => by cases hm
  | cons first rest ih =>
    have later := ih (fun argument mem => spread argument (List.mem_cons_of_mem _ mem))
      fun key value shorthand mem => named key value shorthand (List.mem_cons_of_mem _ mem)
    intro s within
    cases first with
    | spread argument =>
      have here := (spread argument (List.mem_cons_self ..)).value false
      refine .bind (tidy_spread here s within) ?_
      intro members s₁ _ within₁ hmembers
      refine .bind (later s₁ within₁) ?_
      intro others s₂ minted₂ within₂ hothers
      refine .pure within₂ (List.forall_mem_append.2 ⟨fun m hm => ?_, hothers⟩)
      exact (hmembers m hm).mono minted₂
    | named key value shorthand =>
      have here := (named key value shorthand (List.mem_cons_self ..)).value false
      refine .bind (here s within) ?_
      intro e s₁ _ within₁ he
      refine .bind (later s₁ within₁) ?_
      intro others s₂ minted₂ within₂ hothers
      exact .pure within₂ (List.forall_mem_cons.2 ⟨Expr.Closed.mono he minted₂, hothers⟩)

/-- Arguments come with the work that resolves them, as values and as lambdas. -/
theorem tidy_arguments {nodes : List Node} (h : ∀ node ∈ nodes, node.TidyAll v) :
    ∀ a ∈ Node.arguments nodes, TidyArgument v a := by
  induction nodes with
  | nil => exact nofun
  | cons node rest ih =>
    rw [List.forall_mem_cons] at h
    refine List.forall_mem_cons.2 ⟨⟨h.1.value false, fun method bindParams binds => ?_⟩, ih h.2⟩
    exact h.1.lambda false method bindParams fun params _ _ => binds params

/-- By induction on nodes. -/
theorem tidyAll (node : Node) : node.TidyAll v := by
  induction node using Node.body_induction with
  | identifier name => exact .of_value nofun nofun fun _ => tidy_identifier name
  | literal value => exact .of_value nofun nofun fun _ => tidy_literal value .absent
  | member receiver property computed => exact .of_value nofun nofun fun _ => tidy_member _
  | binary op left right hl hr =>
    exact .of_value nofun nofun fun _ => tidy_binary (hl.value false) (hr.value false) op left right
  | logical op left right hl hr =>
    exact .of_value nofun nofun fun isPredicate => tidy_logical hl.value hr.value isPredicate op
  | unary op argument h => exact .of_value nofun nofun fun _ => tidy_unary h.value op argument
  | conditional test consequent alternate ht hc ha =>
    exact .of_value nofun nofun fun _ =>
      tidy_conditional (ht.value true) (hc.value false) (ha.value false)
  | object properties spread named =>
    exact .of_value nofun nofun fun _ s within =>
      .map (tidy_properties spread named s within) fun _ _ h => (every_object _).2 ⟨trivial, h⟩
  | array elements h =>
    exact .of_value nofun nofun fun _ s within =>
      .map (tidy_resolveList h s within) fun _ _ h => (every_array _).2 ⟨trivial, h⟩
  | arrow params body returned =>
    refine ⟨fun _ _ _ => .fail, fun isPredicate method bindParams binds => ?_, fun _ _ _ => .get .fail⟩
    rw [resolveLambda_arrow]
    refine tidy_withParams (binds params body rfl) ?_
    split
    · rename_i value found
      exact (returned value found).value isPredicate
    · exact fun _ _ => .failUnplaced
  | block | returnStatement => exact .of_value nofun nofun fun _ _ _ => .fail
  | method receiver property computed arguments hr ha =>
    refine ⟨fun _ => ?_, fun _ _ _ _ _ _ => .fail, fun whole => ?_⟩
    · exact tidy_methodCall (hr.value false) (hr.window _) (tidy_arguments ha) receiver property.keyName
    · exact tidy_windowStep (hr.window whole) (tidy_arguments ha) receiver property.keyName
  | call callee arguments noMethod =>
    refine .of_value nofun (fun _ _ _ _ is => ?_) fun isPredicate => ?_
    · cases is
      exact noMethod _ _ _ rfl
    · obtain ⟨fault, fails⟩ := resolve_call_of_ne_member noMethod arguments isPredicate
      rw [fails]
      exact fun _ _ => .fail

/-- Resolving a node is tidy, and its expression is closed. -/
theorem tidy_resolve (node : Node) (isPredicate : Bool) : Tidy v (closed v)
    (node.resolve isPredicate) :=
  node.tidyAll.value isPredicate

/-- The value of a lambda is closed under what is known outside of it. -/
theorem tidy_resolveLambda (node : Node) (isPredicate : Bool) (method : String)
    (bindParams : List String → Resolve Unit)
    (binds : ∀ params body, node = .arrow params body → Rebinds v (bindParams params)) :
    Tidy v (closed v) (node.resolveLambda isPredicate method bindParams) :=
  node.tidyAll.lambda isPredicate method bindParams binds

end Node

end

end FluentQuery
