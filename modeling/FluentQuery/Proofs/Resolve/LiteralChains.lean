import FluentQuery.Proofs.Resolve.LiteralMethods
import FluentQuery.Query

/-!
# Builders that differ in literals resolve alike

Joins and flattened collections resolve a nested query and then their lambdas, so they are blind to
literals if the nested query is.  By induction on the builder a whole chain is, and two builders that
differ only in literals parse to the same operation.
-/

namespace FluentQuery

set_option autoImplicit false

variable {differ : Json → Json → Prop} {place : Place}

/-! ### Collections -/

/-- The path from a parameter is spelt the same. -/
theorem Node.pathFrom_alike (param : String) : ∀ (node : Node) {node' : Node} {place : Place},
    node.Alike differ place node' → ∀ path : List String,
      node.pathFrom param path = node'.pathFrom param path
  | .member receiver _ _, _, _, .member property computed h, path => by
    unfold Node.pathFrom
    rw [Node.pathFrom_alike param receiver h]
  | .identifier _, _, _, .identifier _, _ => rfl
  | .literal _, _, _, .literal _, _ | .call _ _, _, _, .call _ _, _
  | .binary _ _ _, _, _, .binary _ _ _, _ | .logical _ _ _, _, _, .logical _ _ _, _
  | .unary _ _, _, _, .unary _ _, _ | .conditional _ _ _, _, _, .conditional _ _ _, _
  | .object _, _, _, .object _, _ | .array _, _, _, .array _, _ | .arrow _ _, _, _, .arrow _ _, _
  | .block _, _, _, .block _, _ | .returnStatement none, _, _, .returnNothing, _
  | .returnStatement (some _), _, _, .returnValue _, _ => rfl

/-- A trailing `defaultIfEmpty()` is found on both sides or on neither. -/
theorem Node.stripDefault_alike {node node' : Node} (h : node.Alike differ place node') :
    node.stripDefault.2 = node'.stripDefault.2 ∧
      ∃ place, node.stripDefault.1.Alike differ place node'.stripDefault.1 := by
  have whole := h
  cases h with
  | call h args =>
    cases h with
    | member property computed h =>
      cases args with
      | nil =>
        by_cases marked : property.keyName = "defaultIfEmpty"
        · simp only [Node.stripDefault, if_pos marked]
          exact ⟨trivial, _, h⟩
        · simp only [Node.stripDefault, if_neg marked]
          exact ⟨trivial, _, whole⟩
      | cons => exact ⟨rfl, _, whole⟩
    | _ => exact ⟨rfl, _, whole⟩
  | _ => exact ⟨rfl, _, whole⟩

/-- A collection is reached by the same path on both sides. -/
theorem Node.collection_alike {node node' : Node} (h : node.Alike differ place node') :
    Agree (fun c c' => c.path = c'.path ∧ c.usesDefault = c'.usesDefault) node.collection
      node'.collection := by
  have stripped (param : String) {body body' : Node} {place : Place}
      (h : body.Alike differ place body') :
      Agree (fun c c' : Collection => c.path = c'.path ∧ c.usesDefault = c'.usesDefault)
        (.ok ⟨param, body.stripDefault.1, body.stripDefault.2⟩ : Except LoadFault Collection)
        (.ok ⟨param, body'.stripDefault.1, body'.stripDefault.2⟩) := by
    obtain ⟨usesDefault, _, h⟩ := Node.stripDefault_alike h
    refine .ok ⟨?_, usesDefault⟩
    unfold Collection.path
    rw [Node.pathFrom_alike param _ h]
  have plain := stripped "" h
  cases h with
  | arrow params h =>
    have bodies := Node.lambdaBody_alike h
    unfold Node.collection
    dsimp only
    generalize Node.lambdaBody _ = x at bodies ⊢
    generalize Node.lambdaBody _ = x' at bodies ⊢
    cases bodies with
    | ok same =>
      obtain ⟨_, h⟩ := same
      exact stripped _ h
    | error => exact .error
  | _ => exact plain

namespace Resolve

variable {first rest : Place}

/-! ### Joins -/

theorem blind_bindOuter (name : String) : Blind differ (bindOuter name) (bindOuter name) :=
  blind_bind _

theorem blind_bindOuterParam (params : List String) :
    Blind differ (bindOuterParam params) (bindOuterParam params) := by
  unfold bindOuterParam
  split
  · exact .pure _
  · exact blind_bindOuter _

/-- The parameters of a result are bound to the same tables. -/
theorem blind_bindResultParams (index : Int) (params : List String) :
    Blind differ (bindResultParams index params) (bindResultParams index params) := by
  unfold bindResultParams
  split
  · exact .pure _
  · exact blind_bindOuter _
  · exact (blind_bindOuter _).bind fun _ => blind_bind _
  · exact .get fun _ _ _ => blind_fail _ _

/-- The column of a key is picked from the same expression. -/
theorem blind_keyColumn (side : String) (e : Expr) :
    Blind differ (keyColumn side e) (keyColumn side e) := by
  unfold keyColumn
  split
  · exact .pure _
  · exact .get fun _ _ _ => blind_fail _ _

theorem blind_addTable (index : Int) (shape : Option ResultShape) :
    Blind differ (addTable index shape) (addTable index shape) :=
  Matches.bind (.modify fun _ _ ⟨params, infos⟩ => ⟨params, infos⟩) fun _ => blind_setShape shape

/-- Nothing in the last part of a join looks at literals. -/
theorem blind_finishJoin (kind : JoinKind) (inner : Operation) (keys : JoinKeys) (selector : Expr)
    (index : Int) (source : Operation) :
    Blind differ (finishJoin kind inner keys selector index source)
      (finishJoin kind inner keys selector index source) :=
  (blind_addTable _ _).bind fun _ => .pure _

/-- The table of a group is found by its path. -/
theorem blind_groupTable (path : List String) :
    Blind differ (groupTable path) (groupTable path) := by
  refine .get ?_
  rintro s _ ⟨-, -⟩
  dsimp only
  split
  · exact .pure _
  · exact .pure _
  · exact blind_fail _ _

section

variable (kinds : KeepsKinds differ)

include kinds

/-- The keys of a join are the same columns. -/
theorem blind_joinKeys {place' : Place} {outer outer' inner inner' : Node}
    (ho : outer.Alike differ place outer') (hi : inner.Alike differ place' inner') :
    Blind differ (joinKeys outer inner) (joinKeys outer' inner') := by
  refine .get ?_
  rintro s _ ⟨-, -⟩
  refine (Node.blind_resolveLambda kinds _ ho false _ _ blind_bindOuterParam).bind fun e => ?_
  refine (blind_keyColumn _ e).bind fun ⟨outerKey, table⟩ => ?_
  refine (Node.blind_resolveLambda kinds _ hi false _ _ blind_bindTableParam).bind fun e => ?_
  exact (blind_keyColumn _ e).bind fun _ => .pure _

/-- The lambda of a result is resolved alike. -/
theorem blind_resultSelector (index : Int) {node node' : Node}
    (h : node.Alike differ place node') :
    Blind differ (resultSelector index node) (resultSelector index node') := by
  refine .get ?_
  rintro s _ ⟨-, -⟩
  exact Node.blind_resolveLambda kinds _ h false _ _ (blind_bindResultParams index)

/-- A collection without a result is one on both sides. -/
theorem blind_finishSelectMany (collection : Operation) (path : List String) (usesDefault : Bool)
    (index : Int) {selector selector' : Option Node}
    (h : Option.Rel (fun node node' => ∃ place, node.Alike differ place node') selector selector')
    (source : Operation) :
    Blind differ (finishSelectMany collection path usesDefault index selector source)
      (finishSelectMany collection path usesDefault index selector' source) := by
  cases h with
  | none => exact (blind_setShape _).bind fun _ => .pure _
  | some h =>
    obtain ⟨_, h⟩ := h
    exact (blind_resultSelector kinds index h).bind fun _ => (blind_setShape _).bind fun _ => .pure _

variable {arguments arguments' : List Node} {inner inner' : Resolve Operation}
  (args : Node.AlikeList differ first rest arguments arguments')
  (blind : Blind differ inner inner') (source : Operation)

include args blind

/-- A join is resolved alike if the queries in its argument are. -/
theorem blind_join (kind : JoinKind) :
    Blind differ (join kind source arguments inner) (join kind source arguments' inner') := by
  refine (blind_requireSelect source).bind fun _ => .get ?_
  rintro s _ ⟨-, -⟩
  refine .ite ?_ ?_
  · match args with
    | .cons _ .nil => exact blind.bind fun _ => blind_finishJoin _ _ _ _ _ _
    | .cons _ (.cons h .nil) =>
      refine blind.bind fun _ => (blind_resultSelector kinds _ h).bind fun _ => ?_
      exact blind_finishJoin _ _ _ _ _ _
    | .nil => exact blind_failArguments _ _ _ _
    | .cons _ (.cons _ (.cons _ _)) => exact blind_failArguments _ _ _ _
  · match args with
    | .cons _ (.cons ho (.cons hi .nil)) =>
      refine blind.bind fun _ => (blind_joinKeys kinds ho hi).bind fun _ => ?_
      exact blind_finishJoin _ _ _ _ _ _
    | .cons _ (.cons ho (.cons hi (.cons hs .nil))) =>
      refine blind.bind fun _ => (blind_joinKeys kinds ho hi).bind fun _ => ?_
      exact (blind_resultSelector kinds _ hs).bind fun _ => blind_finishJoin _ _ _ _ _ _
    | .nil | .cons _ .nil | .cons _ (.cons _ .nil) => exact blind_failArguments _ _ _ _
    | .cons _ (.cons _ (.cons _ (.cons _ (.cons _ _)))) => exact blind_failArguments _ _ _ _

/-- A group join is resolved alike if the queries in its argument are. -/
theorem blind_groupJoin :
    Blind differ (groupJoin source arguments inner) (groupJoin source arguments' inner') := by
  refine (blind_requireSelect source).bind fun _ => ?_
  match args with
  | .cons _ (.cons ho (.cons hi (.cons hs .nil))) =>
    refine .get ?_
    rintro s _ ⟨-, -⟩
    refine blind.bind fun _ => (blind_joinKeys kinds ho hi).bind fun _ => ?_
    refine (blind_resultSelector kinds _ hs).bind fun e => ?_
    split
    · dsimp only
      generalize List.getLast? _ = group
      cases group with
      | none => exact blind_fail _ _
      | some => exact (blind_addTable _ _).bind fun _ => .pure _
    · exact blind_fail _ _
  | .nil | .cons _ .nil | .cons _ (.cons _ .nil) | .cons _ (.cons _ (.cons _ .nil)) =>
    exact blind_failArguments _ _ _ _
  | .cons _ (.cons _ (.cons _ (.cons _ (.cons _ _)))) => exact blind_failArguments _ _ _ _

omit args in
/-- Whether a collection is a query or a group is seen without looking at literals. -/
theorem blind_flatten {argument argument' : Node} {selector selector' : Option Node}
    (h : argument.Alike differ place argument')
    (hs : Option.Rel (fun node node' => ∃ place, node.Alike differ place node') selector selector') :
    Blind differ (flatten argument selector source inner)
      (flatten argument' selector' source inner') := by
  have collections := Node.collection_alike h
  unfold flatten
  generalize argument.collection = x at collections ⊢
  generalize argument'.collection = x' at collections ⊢
  cases collections with
  | error => exact blind_failUnplaced _ _
  | ok same =>
    obtain ⟨path, usesDefault⟩ := same
    dsimp only
    rw [path, usesDefault]
    refine .ite ?_ ?_
    · refine blind.bind fun op => .get ?_
      rintro s _ ⟨-, -⟩
      refine Matches.bind (.modify fun _ _ ⟨params, infos⟩ => ⟨params, infos⟩) fun _ => ?_
      split
      · exact blind_finishSelectMany kinds _ _ _ _ hs _
      · exact blind_finishSelectMany kinds _ _ _ _ hs _
    · exact (blind_groupTable _).bind fun _ => blind_finishSelectMany kinds _ _ _ _ hs _

/-- `selectMany` is resolved alike if the collections are. -/
theorem blind_selectMany :
    Blind differ (selectMany source arguments inner) (selectMany source arguments' inner') := by
  refine (blind_requireSelect source).bind fun _ => ?_
  match args with
  | .cons h .nil => exact blind_flatten kinds blind source h .none
  | .cons h (.cons hs .nil) => exact blind_flatten kinds blind source h (.some ⟨_, hs⟩)
  | .nil => exact blind_failArguments _ _ _ _
  | .cons _ (.cons _ (.cons _ _)) => exact blind_failArguments _ _ _ _

end

/-! ### Roots -/

/-- Names of tables are the same. -/
theorem blind_nameArgument (method : String) {node node' : Node}
    (h : node.Alike differ .table node') :
    Blind differ (nameArgument method node) (nameArgument method node') := by
  cases h with
  | @literal _ v v' h =>
    rcases h with rfl | ⟨-, admits⟩
    · cases v with
      | str => exact .pure _
      | _ => exact blind_fail _ _
    · exact admits.elim
  | _ => exact blind_fail _ _

theorem blind_startStatement (operation table : String) :
    Blind differ (startStatement operation table) (startStatement operation table) :=
  .modify fun _ _ ⟨params, infos⟩ => ⟨params, infos⟩

section

variable {arguments arguments' : List Node}
  (args : Node.AlikeList differ .table .table arguments arguments')

include args

/-- The names of tables are the same literals on both sides. -/
theorem blind_tableArguments (method : String) :
    Blind differ (tableArguments method arguments) (tableArguments method arguments') := by
  unfold tableArguments
  match args with
  | .cons hs (.cons ht .nil) =>
    refine (blind_nameArgument method hs).bind fun _ => (blind_nameArgument method ht).bind fun _ => ?_
    exact .check (blind_fail _ _) fun _ => .pure _
  | .cons h .nil =>
    refine (blind_nameArgument method h).bind fun _ => ?_
    exact .check (blind_fail _ _) fun _ => .pure _
  | .nil => exact fun _ _ _ => .error
  | .cons _ (.cons _ (.cons _ _)) => exact fun _ _ _ => .error

/-- The first call is resolved alike if the queries in its argument are. -/
theorem blind_root (method : RootMethod) {subquery subquery' : Resolve Operation}
    (blind : Blind differ subquery subquery') :
    Blind differ (root method arguments subquery) (root method arguments' subquery') := by
  refine Matches.bind (.modify fun _ _ ⟨params, infos⟩ => ⟨params, infos⟩) fun _ => ?_
  have queried : Blind differ
      (subquery >>= fun op => startStatement "select" "" >>= fun _ =>
        (pure [Step.fromSource "" "" op ""] : Resolve Operation))
      (subquery' >>= fun op => startStatement "select" "" >>= fun _ =>
        pure [Step.fromSource "" "" op ""]) :=
    blind.bind fun _ => (blind_startStatement _ _).bind fun _ => .pure _
  have named : Blind differ
      (tableArguments method.name arguments >>= fun names =>
        startStatement method.statement names.2 >>= fun _ => pure [method.step names.1 names.2])
      (tableArguments method.name arguments' >>= fun names =>
        startStatement method.statement names.2 >>= fun _ => pure [method.step names.1 names.2]) :=
    (blind_tableArguments args method.name).bind fun _ =>
      (blind_startStatement _ _).bind fun _ => .pure _
  cases method with
  | «from» =>
    refine Matches.bind (.modify fun _ _ ⟨params, infos⟩ => ⟨params, infos⟩) fun _ => ?_
    match args with
    | .cons h .nil =>
      dsimp only
      rw [h.isLiteral_eq]
      exact .ite queried named
    | .nil => exact named
    | .cons _ (.cons _ _) => exact named
  | insertInto => exact named
  | update => exact named
  | deleteFrom => exact named

end

/-! ### Methods by name -/

section

variable (kinds : KeepsKinds differ) {arguments arguments' : List Node} (source : Operation)
  {inner inner' collection collection' : Resolve Operation}

include kinds

/-- Only methods whose first argument is a query look at the work that resolves it as one. -/
theorem blind_apply (method : Method) (args : Node.AlikeList differ (Place.ofMethod method).1
      (Place.ofMethod method).2 arguments arguments')
    (hinner : (Place.ofMethod method).1 = .query → Blind differ inner inner')
    (hcollection : (Place.ofMethod method).1 = .query → Blind differ collection collection') :
    Blind differ (apply method source arguments inner collection)
      (apply method source arguments' inner' collection') := by
  cases method with
  | filter => exact blind_filter kinds args source
  | select => exact blind_select kinds args source
  | groupBy => exact blind_groupBy kinds args source
  | sort kind descending => exact blind_sort kinds args source kind descending
  | page kind => exact blind_page kinds args kind source
  | distinct => exact blind_mark args source _
  | reverse => exact blind_mark args source _
  | join kind => exact blind_join kinds args (hinner rfl) source kind
  | groupJoin => exact blind_groupJoin kinds args (hinner rfl) source
  | selectMany => exact blind_selectMany kinds args (hcollection rfl) source
  | defaultIfEmpty => exact blind_mark args source _
  | terminal kind => exact blind_terminal kinds args source kind
  | contains => exact blind_contains kinds args source
  | aggregate kind => exact blind_aggregate kinds args source kind
  | values => exact blind_values kinds args source
  | onConflict => exact blind_onConflict kinds args source
  | doNothing => exact blind_doNothing args source
  | doUpdateSet => exact blind_doUpdateSet kinds args source
  | returning => exact blind_returning kinds args source
  | set => exact blind_setColumns kinds args source
  | allowFullTableUpdate => exact blind_allowFullTableUpdate args source
  | allowFullTableDelete => exact blind_allowFullTableDelete args source

/-- A method is known by its name, and takes arguments that are alike. -/
theorem blind_call (name : String) (args : Node.AlikeList differ (Place.ofMethodName name).1
      (Place.ofMethodName name).2 arguments arguments')
    (hinner : (Place.ofMethodName name).1 = .query → Blind differ inner inner')
    (hcollection : (Place.ofMethodName name).1 = .query → Blind differ collection collection') :
    Blind differ (call name source arguments inner collection)
      (call name source arguments' inner' collection') := by
  refine Matches.bind (.modify fun _ _ ⟨params, infos⟩ => ⟨params, infos⟩) fun _ => ?_
  unfold Place.ofMethodName at args hinner hcollection
  cases found : Method.ofName? name with
  | none => exact blind_fail _ _
  | some method =>
    rw [found] at args hinner hcollection
    exact blind_apply kinds source method args hinner hcollection

end

theorem blind_subquery {chain chain' : Resolve Operation} (h : Blind differ chain chain') :
    Blind differ (subquery chain) (subquery chain') := by
  refine blind_nested (h.bind fun op => ?_)
  split
  · exact .ite (blind_fail _ _) (.pure _)
  · exact .pure _

end Resolve

/-! ### Chains -/

open Resolve

/-- Where a root takes the name of a table, a query may stand in its place. -/
theorem Place.table_of_ofRootName {name : String} {root : RootMethod}
    (found : RootMethod.ofName? name = some root) : Place.ofRootName name = (.table, .table) := by
  unfold Place.ofRootName
  rw [found]

section

variable {arguments arguments' : List Node} {inner inner' : Resolve Operation} {name : String}
  (args : Node.AlikeList differ (Place.ofRootName name).1 (Place.ofRootName name).2 arguments
    arguments')
  (hinner : (Place.ofRootName name).1.inside = .query → Blind differ inner inner')

include args hinner

theorem blind_rootCall {root : RootMethod} (found : RootMethod.ofName? name = some root) :
    Blind differ (Resolve.root root arguments inner) (Resolve.root root arguments' inner') := by
  rw [Place.table_of_ofRootName found] at args hinner
  exact blind_root args root (hinner rfl)

theorem blind_functionCall :
    Blind differ (functionCall name arguments inner) (functionCall name arguments' inner') := by
  unfold functionCall
  cases found : RootMethod.ofName? name with
  | none => exact blind_fail _ _
  | some root => exact blind_rootCall args hinner found

end

/-- Where the arguments of a call in a chain stand. -/
def ChainCall.places (c : ChainCall) : Place × Place :=
  Place.query.ofCall (.member c.receiver c.property c.computed)

/-- Calls that differ only in literals, with work that is blind to them. -/
structure ChainCall.Alike (differ : Json → Json → Prop) (c c' : ChainCall) : Prop where
  receiver : c.receiver.Alike differ .query c'.receiver
  property : c.property = c'.property
  arguments : Node.AlikeList differ c.places.1 c.places.2 c.arguments c'.arguments
  earlier : Blind differ c.earlier c'.earlier
  inner : c.places.1.inside = .query → Blind differ c.inner c'.inner
  collection : c.places.1.inside = .query → Blind differ c.collection c'.collection

namespace ChainCall

variable {c c' : ChainCall}

theorem Alike.method_eq (h : c.Alike differ c') : c.method = c'.method :=
  congrArg Node.keyName h.property

theorem Alike.marksDefault_eq (h : c.Alike differ c') (mark : DefaultMark) :
    c.marksDefault mark = c'.marksDefault mark := by
  unfold marksDefault
  rw [h.method_eq, h.arguments.isEmpty_eq]

/-- A call on a name starts a chain; there is no operation to be extended. -/
theorem blind_onName (h : c.Alike differ c') {name : String} (on : c.receiver = .identifier name) :
    Blind differ (c.onName name []) (c'.onName name []) := by
  have places : c.places = Place.ofRootName c.method := by
    unfold places
    rw [on]
    rfl
  have args := h.arguments
  have hinner := h.inner
  rw [places] at args hinner
  refine .get ?_
  rintro s _ ⟨-, -⟩
  refine .ite (blind_fail _ _) ?_
  rw [← h.method_eq]
  cases found : RootMethod.ofName? c.method with
  | none => exact blind_fail _ _
  | some root => exact .ite (blind_rootCall args hinner found) (blind_fail _ _)

theorem blind_onChain (kinds : KeepsKinds differ) (h : c.Alike differ c')
    (on : ∀ name, c.receiver ≠ .identifier name) :
    Blind differ c.onChain c'.onChain := by
  have places : c.places = Place.ofMethodName c.method := by
    unfold places method
    cases receiver : c.receiver with
    | identifier name => exact absurd receiver (on name)
    | _ => rfl
  have args := h.arguments
  rw [places] at args
  refine h.earlier.bind fun op => ?_
  rw [← h.method_eq]
  refine blind_call kinds op c.method args (fun query => h.inner ?_) (fun query => h.collection ?_)
  · rw [places, query]
    rfl
  · rw [places, query]
    rfl

theorem blind_resolve (kinds : KeepsKinds differ) (h : c.Alike differ c') (mark : DefaultMark) :
    Blind differ (c.resolve mark []) (c'.resolve mark []) := by
  unfold resolve
  rw [h.marksDefault_eq mark, h.method_eq]
  refine .ite h.earlier (.ite (blind_fail _ _) ?_)
  have receiver := h.receiver
  cases on : c.receiver with
  | identifier name =>
    rw [on] at receiver
    cases on' : c'.receiver with
    | identifier name' =>
      rw [on'] at receiver
      cases receiver
      exact blind_onName h on
    | _ =>
      rw [on'] at receiver
      cases receiver
  | _ =>
    have other : ∀ name, c.receiver ≠ .identifier name := by simp [on]
    have chained := blind_onChain kinds h other
    rw [on] at receiver
    generalize c'.receiver = receiver' at receiver
    cases receiver <;> exact chained

end ChainCall

/-- What is neither a lambda nor a call starts no chain. -/
theorem Node.blind_chain_of_not_call {node node' : Node} (h : node.Alike differ place node')
    (noLambda : ∀ params body, node ≠ .arrow params body)
    (noCall : ∀ callee arguments, node ≠ .call callee arguments) (mark : DefaultMark) :
    Blind differ (node.chain mark []) (node'.chain mark []) := by
  cases h with
  | arrow => exact absurd rfl (noLambda _ _)
  | call => exact absurd rfl (noCall _ _)
  | _ => exact blind_fail _ _

/-- A call of anything but a name or a method is no part of a chain. -/
theorem Node.blind_chain_of_callee {callee callee' : Node} (h : callee.Alike differ place callee')
    (noName : ∀ name, callee ≠ .identifier name)
    (noMethod : ∀ receiver property computed, callee ≠ .member receiver property computed)
    (arguments arguments' : List Node) (mark : DefaultMark) :
    Blind differ ((Node.call callee arguments).chain mark [])
      ((Node.call callee' arguments').chain mark []) := by
  cases h with
  | identifier => exact absurd rfl (noName _)
  | member => exact absurd rfl (noMethod _ _ _)
  | _ => exact blind_fail _ _

mutual

/-- A chain is blind to the literals in it. -/
theorem Node.blind_chain (kinds : KeepsKinds differ) : ∀ (node : Node) {node' : Node}
    {place : Place}, place.inside = .query → node.Alike differ place node' → ∀ mark : DefaultMark,
      Blind differ (node.chain mark []) (node'.chain mark [])
  | .arrow _ body, _, _, within, .arrow params h, mark => by
    have value := Node.blind_chain kinds body (congrArg Place.inside within) h mark.inside
    cases h with
    | block hs =>
      cases hs with
      | nil => exact blind_failUnplaced _ _
      | cons h hs =>
        cases h with
        | returnValue h =>
          cases hs with
          | nil =>
            exact Node.blind_chain kinds _ (congrArg (·.inside.inside.inside) within) h mark.inside
          | cons => exact blind_failUnplaced _ _
        | _ => cases hs <;> exact blind_failUnplaced _ _
    | _ => exact value
  | .call callee arguments, _, _, within, .call h args, mark =>
    match callee, h, args with
    | .identifier _, .identifier name, args => by
      rw [within] at args
      exact blind_functionCall args fun query => Node.blind_firstQuery kinds arguments query args .step
    | .member receiver _ _, .member property computed h, args => by
      rw [within] at args h
      refine ChainCall.blind_resolve kinds ?_ mark
      refine ⟨h, rfl, args, ?_, ?_, ?_⟩
      · exact Node.blind_chain kinds receiver rfl h .step
      · exact fun query => Node.blind_firstQuery kinds arguments query args .step
      · exact fun query => Node.blind_firstQuery kinds arguments query args .argument
    | .literal _, h, _ | .call _ _, h, _ | .binary _ _ _, h, _ | .logical _ _ _, h, _
    | .unary _ _, h, _ | .conditional _ _ _, h, _ | .object _, h, _ | .array _, h, _
    | .arrow _ _, h, _ | .block _, h, _ | .returnStatement _, h, _ =>
      Node.blind_chain_of_callee h nofun nofun _ _ mark
  | .identifier _, _, _, _, h, mark | .literal _, _, _, _, h, mark | .member _ _ _, _, _, _, h, mark
  | .binary _ _ _, _, _, _, h, mark | .logical _ _ _, _, _, _, h, mark | .unary _ _, _, _, _, h, mark
  | .conditional _ _ _, _, _, _, h, mark | .object _, _, _, _, h, mark | .array _, _, _, _, h, mark
  | .block _, _, _, _, h, mark | .returnStatement _, _, _, _, h, mark =>
    Node.blind_chain_of_not_call h nofun nofun mark

/-- The query among the arguments of a call is blind to the literals in it. -/
theorem Node.blind_firstQuery (kinds : KeepsKinds differ) : ∀ (nodes : List Node)
    {nodes' : List Node} {first rest : Place}, first.inside = .query →
      Node.AlikeList differ first rest nodes nodes' → ∀ mark : DefaultMark,
      Blind differ (Node.firstQuery mark nodes) (Node.firstQuery mark nodes')
  | [], _, _, _, _, .nil, _ => .pure _
  | node :: _, _, _, _, within, .cons h _, mark =>
    blind_subquery (Node.blind_chain kinds node within h mark)

end

/-! ### Queries -/

theorem Scope.Counterpart.refl (s : Scope) : s.Counterpart differ s :=
  ⟨List.forall₂_same.2 fun _ _ => ⟨rfl, .inl rfl⟩, List.forall₂_same.2 fun _ _ => ⟨rfl, .inl rfl, rfl⟩⟩

theorem Node.rootScope_alike {builder builder' : Node} (h : builder.Alike differ place builder') :
    builder.rootScope = builder'.rootScope := by
  cases h <;> rfl

/-- Literals never reach the operation: builders that differ only in literals are both refused, or
have the same operation and scopes that differ in the values of automatic parameters only. -/
theorem parseQuery_ignores_literal_values (kinds : KeepsKinds differ) {builder builder' : Node}
    (h : builder.Alike differ .query builder') :
    (∃ e e', builder.parseQuery = .error e ∧ builder'.parseQuery = .error e') ∨
      ∃ operation scope scope', builder.parseQuery = .ok ⟨operation, scope⟩ ∧
        builder'.parseQuery = .ok ⟨operation, scope'⟩ ∧ scope.Counterpart differ scope' := by
  unfold Node.parseQuery
  rw [Node.rootScope_alike h]
  cases builder'.rootScope with
  | error e => exact .inl ⟨e, e, rfl, rfl⟩
  | ok scope =>
    have ends := Node.blind_chain kinds builder rfl h .step scope scope (.refl scope)
    dsimp only [Bind.bind, Except.bind]
    generalize builder.chain .step [] scope = r at ends ⊢
    generalize builder'.chain .step [] scope = r' at ends ⊢
    cases ends with
    | ok alike => exact .inr ⟨_, _, _, rfl, rfl, alike⟩
    | error => exact .inl ⟨_, _, rfl, rfl⟩

/-- `q => q.from("users").where(u => u.age > least && u.name + mark !== "").skip(1).take(limit)` -/
def namedUsers (least : Int) (mark : String) (limit : Int) : Node :=
  .arrow ["q"] (((((Node.identifier "q").invoke "from" [.literal (.str "users")]).invoke "where"
    [.arrow ["u"] (.logical "&&"
      (.binary ">" ((Node.identifier "u").dot "age") (.unary "-" (.literal (.int least))))
      (.binary "!==" (.binary "+" ((Node.identifier "u").dot "name") (.literal (.str mark)))
        (.literal (.str ""))))]).invoke "skip" [.literal (.int 1)]).invoke "take"
    [.literal (.int limit)])

/-- Whose names are looked at, how they are told apart and how many are taken stays out of the
operation. -/
theorem parseQuery_ignores_literal_values_namedUsers :
    (namedUsers 18 "*" 10).Alike Json.SameKind .query (namedUsers (-7) "' OR 1=1" 0) ∧
      ∃ operation scope scope', (namedUsers 18 "*" 10).parseQuery = .ok ⟨operation, scope⟩ ∧
        (namedUsers (-7) "' OR 1=1" 0).parseQuery = .ok ⟨operation, scope'⟩ ∧
        scope.Counterpart Json.SameKind scope' := by
  have parses : (namedUsers 18 "*" 10).parseQuery.isOk = true := by decide +kernel
  have alike : (namedUsers 18 "*" 10).Alike Json.SameKind .query (namedUsers (-7) "' OR 1=1" 0) := by
    refine .arrow _ (.call (.member _ _ (.call (.member _ _ (.call (.member _ _
      (.call (.member _ _ (.identifier _)) ?table)) ?condition)) ?skipped)) ?limit)
    case table => exact .cons (.literal (.inl rfl)) .nil
    case condition =>
      refine .cons (.arrow _ (.logical _ ?_ ?_)) .nil
      · exact .binary _ (.member _ _ (.identifier _))
          (.unary _ (.literal (.inr ⟨.int _ _, trivial⟩)))
      · refine .binary _ ?_ (.literal (.inl rfl))
        exact .binary _ (.member _ _ (.identifier _)) (.literal (.inr ⟨.str _ _, trivial⟩))
    case skipped => exact .cons (.literal (.inl rfl)) .nil
    case limit =>
      refine .cons (.literal (.inr ⟨.int _ _, ?_⟩)) .nil
      rintro n (⟨⟨⟩⟩ | ⟨⟨⟩⟩) <;> decide
  refine ⟨alike, ?_⟩
  rcases parseQuery_ignores_literal_values (fun _ _ h => h) alike with ⟨e, e', fails, -⟩ | same
  · rw [fails] at parses
    cases parses
  · exact same

end FluentQuery
