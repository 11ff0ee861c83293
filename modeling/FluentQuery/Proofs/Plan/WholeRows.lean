import FluentQuery.Proofs.Plan.JoinedColumns

/-!
# Selecting whole rows

A shape can be turned into the object that yields it, and the object has that shape again, if no
field is a collection or without a name (`Expr.resultShape_ofShape_iff`).  So a projection to the
whole row, `r => r` or `r => ({ ...r })`, leaves the scope as it was: later calls resolve their
lambdas as if it were not there (`whole_row_selections_keep_paths`).
-/

namespace FluentQuery

set_option autoImplicit false

/-! ### Shapes and the objects that yield them -/

namespace Shape

mutual

/-- At no depth of a node there is a collection or a field without a name. -/
def Plain : Shape → Prop
  | column _ _ => True
  | reference _ => True
  | object properties => PlainFields properties
  | array _ => False

/-- All fields have names and plain nodes. -/
def PlainFields : List (String × Shape) → Prop
  | [] => True
  | (key, node) :: rest => key ≠ "" ∧ node.Plain ∧ PlainFields rest

end

end Shape

namespace Expr

open Shape

mutual

theorem shapeNode_ofShapeNode : ∀ node : Shape, node.Plain →
    ∃ e, ofShapeNode node = some e ∧ shapeNode e = some node
  | .column _ _, _ => ⟨_, rfl, rfl⟩
  | .reference _, _ => ⟨_, rfl, rfl⟩
  | .object properties, plain =>
    ⟨_, rfl, congrArg (some ∘ Shape.object) (shapeProperties_ofShape properties plain)⟩
  | .array _, plain => plain.elim

theorem shapeProperties_ofShape : ∀ properties : List (String × Shape), PlainFields properties →
    shapeProperties (ofShape properties) = properties
  | [], _ => rfl
  | (key, node) :: rest, ⟨named, plain, others⟩ => by
    obtain ⟨e, made, shape⟩ := shapeNode_ofShapeNode node plain
    have below := shapeProperties_ofShape rest others
    have unempty : key.isEmpty = false := by simpa using named
    rw [ofShape, made]
    dsimp only
    rw [shapeProperties, shape]
    dsimp only
    rw [unempty, below]
    rfl

end

mutual

/-- What an expression is shaped like is plain. -/
theorem plain_shapeNode : ∀ (e : Expr) (node : Shape), shapeNode e = some node → node.Plain
  | .column _ _ _, _, shape => by
    cases shape
    exact trivial
  | .reference _ _, _, shape => by
    cases shape
    exact trivial
  | .object properties, _, shape => by
    cases shape
    exact plainFields_shapeProperties properties
  | .absent, _, shape | .excludedColumn _, _, shape | .constant _, _, shape
  | .param _ _ _, _, shape | .arithmetic _ _ _, _, shape | .concat _ _, _, shape
  | .stringMethod _ _, _, shape | .caseWhen _ _, _, shape | .coalesce _, _, shape
  | .aggregate _ _, _, shape | .window _ _ _, _, shape | .allColumns, _, shape
  | .comparison _ _ _, _, shape | .logical _ _ _, _, shape | .negation _, _, shape
  | .booleanConstant _, _, shape | .booleanColumn _ _ _, _, shape | .booleanParam _ _, _, shape
  | .textTest _ _ _, _, shape | .caseInsensitive _ _ _, _, shape | .membership _ _, _, shape
  | .isNull _ _, _, shape | .array _, _, shape => by cases shape

theorem plainFields_shapeProperties : ∀ properties : List (String × Expr),
    PlainFields (shapeProperties properties)
  | [] => trivial
  | (key, value) :: rest => by
    have below := plainFields_shapeProperties rest
    unfold shapeProperties
    split
    · rename_i node found
      split
      · exact below
      · exact ⟨by simpa using ‹¬ key.isEmpty = true›, plain_shapeNode value node found, below⟩
    · exact below

end

/-- A shape is kept by the object that yields it exactly if it is plain. -/
theorem resultShape_ofShape_iff (shape : ResultShape) :
    resultShape (object (ofShape shape)) = some shape ↔ PlainFields shape := by
  constructor
  · intro kept
    rw [← Option.some.inj kept]
    exact plainFields_shapeProperties (ofShape shape)
  · exact fun plain => congrArg some (shapeProperties_ofShape shape plain)

mutual

theorem hasWindow_ofShapeNode : ∀ (node : Shape) (e : Expr), ofShapeNode node = some e →
    e.hasWindow = false
  | .column _ _, _, made => by
    cases made
    rfl
  | .reference _, _, made => by
    cases made
    rfl
  | .object properties, _, made => by
    cases made
    exact hasWindow_ofShape properties
  | .array _, _, made => by cases made

/-- An object that yields the fields of a shape computes nothing. -/
theorem hasWindow_ofShape : ∀ properties : List (String × Shape),
    (object (ofShape properties)).hasWindow = false
  | [] => rfl
  | (key, node) :: rest => by
    have below := hasWindow_ofShape rest
    rw [ofShape]
    split
    · rename_i e made
      have here := hasWindow_ofShapeNode node e made
      simp only [hasWindow, walk, walkProperties, List.any_cons, List.any_append, Bool.false_or,
        Bool.or_eq_false_iff] at here below ⊢
      exact ⟨here, below⟩
    · exact below

end

end Expr

/-! ### Selecting the row -/

/-- The rows of the statement so far have a shape and are not grouped. -/
structure Scope.HasRows (s : Scope) (shape : ResultShape) : Prop where
  shape : s.bindings.shape = some shape
  ungrouped : s.groupByKey = .absent

/-- A name for rows.  The empty name binds nothing, and `undefined` is null whatever it is bound
to. -/
def IsRowName (name : String) : Prop :=
  name ≠ "" ∧ name ≠ "undefined"

instance (name : String) : Decidable (IsRowName name) :=
  inferInstanceAs (Decidable (name ≠ "" ∧ name ≠ "undefined"))

/-- A lambda that gives its whole row. -/
inductive Node.YieldsRow : Node → Prop where
  /-- `r => r` -/
  | row {name : String} (named : IsRowName name) : YieldsRow (.arrow [name] (.identifier name))
  /-- `r => ({ ...r })` -/
  | spread {name : String} (named : IsRowName name) :
    YieldsRow (.arrow [name] (.object [.spread (.identifier name)]))

namespace Scope

variable {s : Scope} {shape : ResultShape} {name : String}

/-- The scope in which a name stands for rows of a shape. -/
def withRow (s : Scope) (name : String) (shape : ResultShape) : Scope :=
  { s with bindings := s.bindings.bindShape name (some shape) }

theorem tables_withRow : (s.withRow name shape).bindings.tables.contains name = false := by
  simp [withRow, Bindings.bindShape, NameSet.erase]

theorem joins_withRow : (s.withRow name shape).bindings.joins.find? name = none :=
  Assoc.find?_erase_self _ _

theorem identifier_withRow (named : IsRowName name) :
    (s.withRow name shape).identifier name = .ok (.object (Expr.ofShape shape)) := by
  have isRow : (!name.isEmpty && decide (name = name)) = true := by simpa using named.1
  unfold identifier
  simp only [tables_withRow, joins_withRow, if_neg named.2, Bool.false_eq_true, if_false]
  exact if_pos isRow

theorem spreadRow?_withRow : (s.withRow name shape).spreadRow? (.identifier name) = none := by
  rw [spreadRow?, tables_withRow, joins_withRow]
  rfl

end Scope

namespace Resolve

variable {s : Scope} {shape : ResultShape}

theorem bindRowParams_hasRows (rows : s.HasRows shape) (name : String) :
    bindRowParams [name] s = .ok () (s.withRow name shape) := by
  have bound : (if s.groupByKey.isAbsent then s.bindings.bindElement name
      else { s.bindings with groupings := NameSet.insert s.bindings.groupings name }) =
        s.bindings.bindShape name (some shape) := by
    rw [rows.ungrouped, Bindings.bindElement, rows.shape]
    rfl
  show EStateM.Result.ok () { s with bindings := _ } = _
  rw [bound]
  rfl

/-- The body of a lambda is resolved with its row bound, and the binding is taken back. -/
theorem withParams_hasRows (rows : s.HasRows shape) {name : String} {body : Resolve Expr} {e : Expr}
    (resolved : body (s.withRow name shape) = .ok e (s.withRow name shape)) :
    withParams bindRowParams [name] body s = .ok e s := by
  have run : (bindRowParams [name] >>= fun _ => body) s = .ok e (s.withRow name shape) :=
    bind_eq_ok.2 ⟨(), _, bindRowParams_hasRows rows name, resolved⟩
  unfold withParams withBindings
  rw [run]
  rfl

theorem identifier_withRow {name : String} (named : IsRowName name) :
    identifier name (s.withRow name shape) =
      .ok (.object (Expr.ofShape shape)) (s.withRow name shape) := by
  refine bind_eq_ok.2 ⟨_, _, rfl, ?_⟩
  rw [Scope.identifier_withRow named]
  rfl

/-- Both ways to select the row give the object that yields its shape. -/
theorem rowValue_of_yieldsRow (rows : s.HasRows shape) {selector : Node}
    (whole : selector.YieldsRow) :
    rowValue selector s = .ok (.object (Expr.ofShape shape)) s := by
  refine bind_eq_ok.2 ⟨s, s, rfl, ?_⟩
  cases whole with
  | @row name named => exact withParams_hasRows rows (identifier_withRow named)
  | @spread name named =>
    refine withParams_hasRows rows (map_eq_ok.2 ⟨Expr.ofShape shape, ?_, rfl⟩)
    have spread : spread (.identifier name) (identifier name) (s.withRow name shape) =
        .ok (Expr.ofShape shape) (s.withRow name shape) := by
      refine bind_eq_ok.2 ⟨_, _, rfl, ?_⟩
      rw [Scope.spreadRow?_withRow]
      exact bind_eq_ok.2 ⟨_, _, identifier_withRow named, rfl⟩
    refine bind_eq_ok.2 ⟨_, _, spread, ?_⟩
    exact bind_eq_ok.2 ⟨[], _, rfl, congrArg (EStateM.Result.ok · _) (List.append_nil _)⟩

end Resolve

/-- A selection of the whole row adds its step and does nothing else. -/
theorem MethodCall.resolve_wholeRow {op : Operation} {s : Scope} {shape : ResultShape}
    {selector : Node} (isOpen : op.IsOpen) (rows : s.HasRows shape)
    (plain : Shape.PlainFields shape) (whole : selector.YieldsRow) :
    (MethodCall.of "select" selector).resolve op s =
      .ok (.select (.object (Expr.ofShape shape)) :: op) { s with method := "select" } := by
  have rows' : Scope.HasRows { s with method := "select" } shape := ⟨rows.shape, rows.ungrouped⟩
  have kept : (if (Expr.object (Expr.ofShape shape)).hasWindow then none
      else (Expr.object (Expr.ofShape shape)).resultShape) = some shape := by
    rw [Expr.hasWindow_ofShape, (Expr.resultShape_ofShape_iff shape).2 plain]
    rfl
  show Resolve.select op [selector] { s with method := "select" } = _
  unfold Resolve.select
  rw [Resolve.requireSelect_open isOpen, pure_bind]
  refine bind_eq_ok.2 ⟨_, _, Resolve.rowValue_of_yieldsRow rows' whole, ?_⟩
  rw [kept]
  show EStateM.Result.ok _ { s with
    method := "select", groupByKey := .absent,
    bindings := { s.bindings with shape := some shape } } = _
  rw [← rows.shape, ← rows.ungrouped]

/-! ### What later calls add -/

/-- Steps that calls add to a SELECT. -/
def Operation.AreAdded (steps : List Step) : Prop :=
  ∀ step ∈ steps, step.isFrom = false ∧ step.isCrud = false

/-- Calls on two queries either fail alike, or add the same steps to both and leave one scope. -/
inductive AddsAlike (base base' : Operation) : EStateM.Result CompileError Scope Operation →
    EStateM.Result CompileError Scope Operation → Prop where
  | ok (steps : List Step) (s : Scope) (added : Operation.AreAdded steps) :
    AddsAlike base base' (.ok (steps ++ base) s) (.ok (steps ++ base') s)
  | error (e : CompileError) (s : Scope) : AddsAlike base base' (.error e s) (.error e s)

theorem Operation.isSorted_append {steps : List Step} (added : AreAdded steps) (base : Operation) :
    isSorted (steps ++ base) = (steps.any Step.isOrderBy || isSorted base) := by
  induction steps with
  | nil => rfl
  | cons step rest ih =>
    obtain ⟨⟨isFrom, -⟩, below⟩ := List.forall_mem_cons.1 added
    rw [List.cons_append, isSorted_step isFrom, ih below, List.any_cons, Bool.or_assoc]

/-- After a terminal step a method is refused, whatever comes before the step. -/
theorem Resolve.apply_terminal {step : Step} (isTerminal : step.isTerminal = true) (method : Method)
    (arguments : List Node) (inner collection : Resolve Operation) (s : Scope) :
    ∃ e s', ∀ earlier,
      apply method (step :: earlier) arguments inner collection s = .error e s' := by
  cases step with
  | terminal | contains | aggregate =>
    cases method with
    | filter =>
      match arguments with
      | [_] => exact ⟨_, _, fun _ => rfl⟩
      | [] | _ :: _ :: _ => exact ⟨_, _, fun _ => rfl⟩
    | _ => exact ⟨_, _, fun _ => rfl⟩
  | _ => cases isTerminal

namespace AddsAlike

variable {base base' : Operation}

theorem apply (steps : List Step) (isOpen : Operation.IsOpen (steps ++ base))
    (isOpen' : Operation.IsOpen (steps ++ base')) (sorted : base'.isSorted = base.isSorted)
    (added : Operation.AreAdded steps)
    (method : Method) (arguments : List Node) (inner collection : Resolve Operation) (s : Scope) :
    AddsAlike base base' (Resolve.apply method (steps ++ base) arguments inner collection s)
      (Resolve.apply method (steps ++ base') arguments inner collection s) := by
  -- The method looks at nothing of the query but whether it is sorted.
  have known (source : Operation)
      (h : source.isSorted = (steps.any Step.isOrderBy || base.isSorted))
      (_ : method.refinesOrder = true) := h
  obtain ⟨work, yields, same⟩ := Resolve.extends_apply arguments method inner collection _ known
  have run : Resolve.apply method (steps ++ base) arguments inner collection =
      (· :: (steps ++ base)) <$> work := same _ isOpen (Operation.isSorted_append added base)
  have run' : Resolve.apply method (steps ++ base') arguments inner collection =
      (· :: (steps ++ base')) <$> work :=
    same _ isOpen' ((Operation.isSorted_append added base').trans (by rw [sorted]))
  rw [run, run']
  simp only [map_eq_pure_bind, Bind.bind, EStateM.bind]
  cases ran : work s with
  | ok step s' =>
    exact .ok (step :: steps) s' (List.forall_mem_cons.2 ⟨yields s step s' ran, added⟩)
  | error e s' => exact .error e s'

/-- One call on two queries with the same steps on top. -/
theorem call (steps : List Step) (isOpen : base.IsOpen) (isOpen' : base'.IsOpen)
    (sorted : base'.isSorted = base.isSorted) (added : Operation.AreAdded steps) (c : MethodCall)
    (s : Scope) :
    AddsAlike base base' (c.resolve (steps ++ base) s) (c.resolve (steps ++ base') s) := by
  unfold MethodCall.resolve Resolve.call
  cases Method.ofName? c.name with
  | none => exact .error _ _
  | some method =>
    cases steps with
    | nil => exact apply [] isOpen isOpen' sorted added method _ _ _ _
    | cons step rest =>
      obtain ⟨⟨-, isCrud⟩, -⟩ := List.forall_mem_cons.1 added
      cases isTerminal : step.isTerminal with
      | false =>
        have extensible (earlier : Operation) : Operation.IsOpen (step :: rest ++ earlier) :=
          ⟨isCrud, isTerminal⟩
        exact apply _ (extensible base) (extensible base') sorted added method _ _ _ _
      | true =>
        obtain ⟨e, s', refused⟩ := Resolve.apply_terminal isTerminal method c.arguments
          (Node.firstQuery .step c.arguments) (Node.firstQuery .argument c.arguments)
          { s with method := c.name }
        have outcome (earlier : Operation) : (modify (fun s => { s with method := c.name }) >>=
            fun _ => Resolve.apply method (step :: earlier) c.arguments
              (Node.firstQuery .step c.arguments) (Node.firstQuery .argument c.arguments)) s =
            .error e s' := refused earlier
        rw [List.cons_append, List.cons_append, outcome, outcome]
        exact .error e s'

end AddsAlike

/-- A call under a name is resolved after what it is called on. -/
theorem Node.chain_withCall {receiver : Node} (isChain : ∀ name, receiver ≠ .identifier name)
    {c : MethodCall} (named : c.name ≠ "") (seed : Operation) :
    (receiver.withCall c).chain .step seed = receiver.chain .step seed >>= c.resolve := by
  have isStep (call : ChainCall) : call.marksDefault .step = false := rfl
  have unempty : c.property.keyName.isEmpty = false := by simpa [MethodCall.name] using named
  rw [withCall, Node.chain, ChainCall.resolve, isStep, if_neg Bool.false_ne_true, ChainCall.method,
    unempty, if_neg Bool.false_ne_true]
  cases receiver with
  | identifier name => exact absurd rfl (isChain name)
  | _ => rfl

theorem Node.withCall_ne_identifier (receiver : Node) (c : MethodCall) (name : String) :
    receiver.withCall c ≠ .identifier name :=
  nofun

namespace AddsAlike

variable {base base' : Operation}

/-- The same calls on two chains. -/
theorem withCalls (isOpen : base.IsOpen) (isOpen' : base'.IsOpen)
    (sorted : base'.isSorted = base.isSorted) {seed : Operation} {start : Scope}
    {calls : List MethodCall} (named : ∀ c ∈ calls, c.name ≠ "") {chain chain' : Node}
    (isChain : ∀ name, chain ≠ .identifier name) (isChain' : ∀ name, chain' ≠ .identifier name)
    (h : AddsAlike base base' (chain.chain .step seed start) (chain'.chain .step seed start)) :
    AddsAlike base base' ((chain.withCalls calls).chain .step seed start)
      ((chain'.withCalls calls).chain .step seed start) := by
  induction calls generalizing chain chain' with
  | nil => exact h
  | cons c rest ih =>
    rw [List.forall_mem_cons] at named
    refine ih named.2 (chain.withCall_ne_identifier c) (chain'.withCall_ne_identifier c) ?_
    rw [Node.chain_withCall isChain named.1, Node.chain_withCall isChain' named.1]
    simp only [Bind.bind, EStateM.bind]
    generalize chain.chain .step seed start = r at h ⊢
    generalize chain'.chain .step seed start = r' at h ⊢
    cases h with
    | ok steps s added => exact call _ isOpen isOpen' sorted added c s
    | error e s => exact .error e s

end AddsAlike

/-- For every shape, the object that yields it has this shape exactly if the shape is plain.  Then a
selection of the whole row, in any chain whose rows have the shape, adds a step for that object and
leaves the scope as it was; and any calls that follow fail as they do without the selection, or add
the same steps, with the same expressions for all paths in their lambdas. -/
theorem whole_row_selections_keep_paths (shape : ResultShape) :
    (Expr.resultShape (.object (Expr.ofShape shape)) = some shape ↔ Shape.PlainFields shape) ∧
    ∀ {chain selector : Node} {seed op : Operation} {start s : Scope},
      chain.chain .step seed start = .ok op s → op.IsOpen → s.HasRows shape →
      Shape.PlainFields shape → selector.YieldsRow →
      let selected := chain.withCall (.of "select" selector)
      let projected : Operation := .select (.object (Expr.ofShape shape)) :: op
      selected.chain .step seed start = .ok projected { s with method := "select" } ∧
      ∀ (next : MethodCall) (later : List MethodCall), (∀ c ∈ next :: later, c.name ≠ "") →
        AddsAlike op projected ((chain.withCalls (next :: later)).chain .step seed start)
          ((selected.withCalls (next :: later)).chain .step seed start) := by
  refine ⟨Expr.resultShape_ofShape_iff shape, ?_⟩
  intro chain selector seed op start s resolved isOpen rows plain whole selected projected
  have isChain (name : String) : chain ≠ .identifier name := by
    rintro rfl
    cases resolved
  have isChain' : ∀ name, selected ≠ .identifier name := chain.withCall_ne_identifier _
  have selection :
      selected.chain .step seed start = .ok projected { s with method := "select" } := by
    have named : (MethodCall.of "select" selector).name ≠ "" := show "select" ≠ "" by decide
    rw [Node.chain_withCall isChain named]
    exact bind_eq_ok.2 ⟨op, s, resolved, MethodCall.resolve_wholeRow isOpen rows plain whole⟩
  refine ⟨selection, fun next later named => ?_⟩
  have isOpen' : projected.IsOpen := ⟨rfl, rfl⟩
  have sorted : projected.isSorted = op.isSorted := Operation.isSorted_step rfl op
  rw [List.forall_mem_cons] at named
  refine AddsAlike.withCalls isOpen isOpen' sorted named.2 (chain.withCall_ne_identifier next)
    (selected.withCall_ne_identifier next) ?_
  rw [Node.chain_withCall isChain named.1, Node.chain_withCall isChain' named.1]
  -- The first call overwrites the one thing in which the two scopes differ, the current method.
  simp only [Bind.bind, EStateM.bind, resolved, selection]
  exact AddsAlike.call [] isOpen isOpen' sorted (List.forall_mem_nil _) next s

namespace Node

/-- The shape of the rows of users joined with their orders. -/
def userAndOrderShape : ResultShape :=
  [("user", .reference 0), ("order", .object [("total", .column 1 "total")])]

/-- `.where((r) => r.order.total > 100)` -/
def largeOrders : MethodCall :=
  .of "where" (.arrow ["r"]
    (.binary ">" ((columnOf "r" "order").dot "total") (.literal (.int 100))))

/-- With `.select((r) => ({ ...r }))` after the join or without it, the same orders are large. -/
theorem large_orders_of_selected_rows :
    let chain := (fromTable "users").withCalls [joinOrders userAndOrder]
    let selector : Node := .arrow ["r"] (.object [.spread (.identifier "r")])
    ∃ op s, chain.chain .step [] {} = .ok op s ∧ op.IsOpen ∧ s.HasRows userAndOrderShape ∧
      Shape.PlainFields userAndOrderShape ∧ selector.YieldsRow ∧
      AddsAlike op (.select (.object (Expr.ofShape userAndOrderShape)) :: op)
        ((chain.withCalls [largeOrders]).chain .step [] {})
        (((chain.withCall (.of "select" selector)).withCalls [largeOrders]).chain .step [] {}) := by
  intro chain selector
  have joined : ∃ op s, chain.chain .step [] {} = .ok op s ∧ op.IsOpen ∧
      s.HasRows userAndOrderShape := ⟨_, _, rfl, ⟨rfl, rfl⟩, ⟨rfl, rfl⟩⟩
  obtain ⟨op, s, resolved, isOpen, rows⟩ := joined
  have plain : Shape.PlainFields userAndOrderShape :=
    ⟨by decide, trivial, by decide, ⟨by decide, trivial, trivial⟩, trivial⟩
  have whole : selector.YieldsRow := .spread (by decide)
  have named : ∀ c ∈ [largeOrders], c.name ≠ "" :=
    List.forall_mem_singleton.2 (show "where" ≠ "" by decide)
  have kept :=
    (whole_row_selections_keep_paths userAndOrderShape).2 resolved isOpen rows plain whole
  exact ⟨op, s, resolved, isOpen, rows, plain, whole, kept.2 largeOrders [] named⟩

end Node

end FluentQuery
