import FluentQuery.Proofs.Resolve.QueryParams
import FluentQuery.Proofs.Resolve.RenamedMethods
import FluentQuery.Query

/-!
# Builders whose lambdas rename their rows

Two chains may differ in what the lambdas in them call their rows (`Node.AlphaChain`).  By induction on
the chain both fail, or give the same query and leave the same scope (`Node.together_chain`).  A group
that is called like the parameters of the query is left out: it is taken for them.
-/

namespace FluentQuery

set_option autoImplicit false

/-! ### Chains that differ in names -/

/-- Whether a node is no part of a chain, neither a call nor a lambda. -/
def Node.chainless : Node → Bool
  | .arrow _ _ | .call (.identifier _) _ | .call (.member _ _ _) _ => false
  | .block [.returnStatement (some _)] => false
  | _ => true

mutual

/-- Chains that differ only in what the lambdas in them call their first parameters. -/
inductive Node.AlphaChain (taken params : List String) : Node → Node → Prop
  | leaf {node : Node} (h : node.chainless = true) : Node.AlphaChain taken params node node
  | arrow (names : List String) {body body' : Node} (h : Node.AlphaChain taken params body body') :
      Node.AlphaChain taken params (.arrow names body) (.arrow names body')
  | block {value value' : Node} (h : Node.AlphaChain taken params value value') :
      Node.AlphaChain taken params (.block [.returnStatement (some value)])
        (.block [.returnStatement (some value')])
  | function (name : String) {arguments arguments' : List Node}
      (args : Node.AlphaArguments taken params false name arguments arguments') :
      Node.AlphaChain taken params (.call (.identifier name) arguments)
        (.call (.identifier name) arguments')
  | call (property : Node) (computed : Bool) {receiver receiver' : Node}
      {arguments arguments' : List Node} (h : Node.AlphaChain taken params receiver receiver')
      (args : Node.AlphaArguments taken params (receiver.groups false) property.keyName arguments
        arguments') :
      Node.AlphaChain taken params (.call (.member receiver property computed) arguments)
        (.call (.member receiver' property computed) arguments')

/-- Arguments of a call by name that differ only in what lambdas call their first parameters.  The first
one may be a query of its own. -/
inductive Node.AlphaArguments (taken params : List String) :
    Bool → String → List Node → List Node → Prop
  | nil {grouped : Bool} {name : String} : Node.AlphaArguments taken params grouped name [] []
  | unknown {grouped : Bool} {name : String} (noMethod : Method.ofName? name = none)
      (noSource : name ≠ RootMethod.from.name) (arguments : List Node) :
      Node.AlphaArguments taken params grouped name arguments arguments
  | source {grouped : Bool} {first first' : Node} (rest : List Node)
      (h : Node.AlphaChain taken params first first') :
      Node.AlphaArguments taken params grouped RootMethod.from.name (first :: rest) (first' :: rest)
  | lambdas {grouped : Bool} {name : String} {method : Method} {arguments arguments' : List Node}
      (named : Method.ofName? name = some method) (noQuery : method.takesQuery = false)
      (args : List.Forall₂ (Node.AlphaArgument taken params grouped method) arguments arguments') :
      Node.AlphaArguments taken params grouped name arguments arguments'
  | query {grouped : Bool} {name : String} {method : Method} {first first' : Node}
      {rest rest' : List Node} (named : Method.ofName? name = some method)
      (takes : method.takesQuery = true) (h : Node.AlphaChain taken params first first')
      (args : List.Forall₂ (Node.AlphaArgument taken params grouped method) rest rest') :
      Node.AlphaArguments taken params grouped name (first :: rest) (first' :: rest')

end

variable {taken params : List String} {grouped : Bool}

theorem Node.AlphaArguments.isEmpty_eq {name : String} {arguments arguments' : List Node}
    (args : Node.AlphaArguments taken params grouped name arguments arguments') :
    arguments.isEmpty = arguments'.isEmpty := by
  cases args with
  | lambdas _ _ args => cases args <;> rfl
  | _ => rfl

/-- What starts a statement is no method of a query. -/
theorem RootMethod.not_method {name : String} {root : RootMethod}
    (h : RootMethod.ofName? name = some root) : Method.ofName? name = none := by
  rw [← RootMethod.name_of_ofName? h]
  cases root <;> decide

/-! ### Collections -/

/-- The path from a parameter is spelt the same. -/
theorem Node.AlphaChain.pathFrom_eq {node node' : Node} (h : node.AlphaChain taken params node')
    (param : String) (path : List String) : node.pathFrom param path = node'.pathFrom param path := by
  cases h <;> rfl

theorem Node.stripDefault_of_chainless {node : Node} (h : node.chainless = true) :
    node.stripDefault = (node, false) := by
  unfold Node.stripDefault
  split
  · cases h
  · rfl

theorem Node.AlphaChain.isLiteral_eq {node node' : Node} (h : node.AlphaChain taken params node') :
    node.isLiteral = node'.isLiteral := by
  cases h <;> rfl

/-- A trailing `defaultIfEmpty()` is found on both sides or on neither. -/
theorem Node.AlphaChain.stripDefault {node node' : Node} (h : node.AlphaChain taken params node') :
    node.stripDefault.2 = node'.stripDefault.2 ∧
      node.stripDefault.1.AlphaChain taken params node'.stripDefault.1 := by
  have whole := h
  cases h with
  | leaf h =>
    rw [Node.stripDefault_of_chainless h]
    exact ⟨rfl, whole⟩
  | @call property computed receiver receiver' arguments arguments' h args =>
    have empty := args.isEmpty_eq
    match arguments, arguments', empty with
    | [], [], _ =>
      by_cases marked : property.keyName = "defaultIfEmpty"
      · simp only [Node.stripDefault, if_pos marked]
        exact ⟨trivial, h⟩
      · simp only [Node.stripDefault, if_neg marked]
        exact ⟨trivial, whole⟩
    | _ :: _, _ :: _, _ => exact ⟨rfl, whole⟩
  | _ => exact ⟨rfl, whole⟩

/-- The value of a lambda's body, if it has one, differs in names only. -/
theorem Node.AlphaChain.lambdaBody {body body' : Node} (h : body.AlphaChain taken params body') :
    Agree (fun value value' => value.AlphaChain taken params value') body.lambdaBody
      body'.lambdaBody := by
  have whole := h
  cases h with
  | leaf h =>
    unfold Node.lambdaBody
    split
    · cases h
    · exact .error
    · exact .error
    · exact .ok whole
  | block h => exact .ok h
  | _ => exact .ok whole

/-- A collection is reached by the same path on both sides. -/
theorem Node.AlphaChain.collection {node node' : Node} (h : node.AlphaChain taken params node') :
    Agree (fun c c' => c.path = c'.path ∧ c.usesDefault = c'.usesDefault) node.collection
      node'.collection := by
  have stripped (param : String) {body body' : Node} (h : body.AlphaChain taken params body') :
      Agree (fun c c' : Collection => c.path = c'.path ∧ c.usesDefault = c'.usesDefault)
        (.ok ⟨param, body.stripDefault.1, body.stripDefault.2⟩ : Except LoadFault Collection)
        (.ok ⟨param, body'.stripDefault.1, body'.stripDefault.2⟩) := by
    obtain ⟨usesDefault, h⟩ := h.stripDefault
    refine .ok ⟨?_, usesDefault⟩
    unfold Collection.path
    rw [h.pathFrom_eq]
  have plain := stripped "" h
  cases h with
  | leaf h =>
    cases node with
    | arrow => cases h
    | _ => exact plain
  | arrow names h =>
    have bodies := h.lambdaBody
    unfold Node.collection
    dsimp only
    generalize Node.lambdaBody _ = x at bodies ⊢
    generalize Node.lambdaBody _ = x' at bodies ⊢
    cases bodies with
    | ok h => exact stripped _ h
    | error => exact .error
  | _ => exact plain

namespace Resolve

/-! ### Joins -/

theorem together_keyColumn (side : String) (e : Expr) :
    Together taken params grouped (keyColumn side e) (keyColumn side e) :=
  together_of_same fun _ => leads_pickKey side e

theorem together_addTable (index : Int) (shape : Option ResultShape) :
    Together taken params grouped (addTable index shape) (addTable index shape) := by
  rintro s s' hs
  obtain rfl := hs.same
  exact .ok ⟨rfl, hs.reshape shape, hs.helpers, hs.ungrouped⟩

theorem together_setShape (shape : Option ResultShape) :
    Together taken params grouped (setShape shape) (setShape shape) := by
  rintro s s' hs
  obtain rfl := hs.same
  exact .ok ⟨rfl, hs.reshape shape, hs.helpers, hs.ungrouped⟩

theorem together_finishJoin (kind : JoinKind) (inner : Operation) (keys : JoinKeys) (selector : Expr)
    (index : Int) (source : Operation) :
    Together taken params grouped (finishJoin kind inner keys selector index source)
      (finishJoin kind inner keys selector index source) :=
  (together_addTable _ _).bind fun _ => .pure _

section

variable {method : Method} (reserved : reservedNames ⊆ taken)

include reserved

theorem together_joinKeys {outer outer' inner inner' : Node}
    (ho : outer.AlphaArgument taken params grouped method outer')
    (hi : inner.AlphaArgument taken params grouped method inner') :
    Together taken params grouped (joinKeys outer inner) (joinKeys outer' inner') := by
  rintro s s' hs
  obtain rfl := hs.same
  have picked := together_lambda reserved hs (bindsLambda_outer reserved hs) ho false s.method
  refine picked.bind fun e t t' ht => ?_
  refine (together_keyColumn "outer" e t t' ht).bind fun ⟨outerKey, table⟩ u u' hu => ?_
  refine (together_tableLambda reserved hi s.method u u' hu).bind fun e => ?_
  exact (together_keyColumn "inner" e).bind fun _ => .pure _

theorem together_resultSelector (index : Int) {node node' : Node}
    (h : node.AlphaArgument taken params grouped method node') :
    Together taken params grouped (resultSelector index node) (resultSelector index node') := by
  rintro s s' hs
  obtain rfl := hs.same
  exact together_lambda reserved hs (bindsLambda_result reserved hs index) h false s.method

theorem together_finishSelectMany (collection : Operation) (path : List String) (usesDefault : Bool)
    (index : Int) {selector selector' : Option Node}
    (h : Option.Rel (Node.AlphaArgument taken params grouped method) selector selector')
    (source : Operation) :
    Together taken params grouped
      (finishSelectMany collection path usesDefault index selector source)
      (finishSelectMany collection path usesDefault index selector' source) := by
  cases h with
  | none => exact (together_setShape _).bind fun _ => .pure _
  | some h =>
    exact (together_resultSelector reserved index h).bind fun _ =>
      (together_setShape _).bind fun _ => .pure _

variable {first first' : Node} {rest rest' : List Node} {inner inner' : Resolve Operation}
  (args : List.Forall₂ (Node.AlphaArgument taken params grouped method) rest rest')
  (nested : Together taken params grouped inner inner') (source : Operation)

include args nested

theorem together_join (kind : JoinKind) :
    Together taken params grouped (join kind source (first :: rest) inner)
      (join kind source (first' :: rest') inner') := by
  refine (together_requireSelect source).bind fun _ => .get ?_
  rintro s s' hs
  obtain rfl := hs.same
  refine .ite ?_ ?_
  · match args with
    | .nil => exact nested.bind fun _ => together_finishJoin _ _ _ _ _ _
    | .cons h .nil =>
      refine nested.bind fun _ => (together_resultSelector reserved _ h).bind fun _ => ?_
      exact together_finishJoin _ _ _ _ _ _
    | .cons _ (.cons _ _) => exact fun _ _ _ => .error
  · match args with
    | .cons ho (.cons hi .nil) =>
      refine nested.bind fun _ => (together_joinKeys reserved ho hi).bind fun _ => ?_
      exact together_finishJoin _ _ _ _ _ _
    | .cons ho (.cons hi (.cons hs .nil)) =>
      refine nested.bind fun _ => (together_joinKeys reserved ho hi).bind fun _ => ?_
      exact (together_resultSelector reserved _ hs).bind fun _ => together_finishJoin _ _ _ _ _ _
    | .nil | .cons _ .nil => exact fun _ _ _ => .error
    | .cons _ (.cons _ (.cons _ (.cons _ _))) => exact fun _ _ _ => .error

theorem together_groupJoin :
    Together taken params grouped (groupJoin source (first :: rest) inner)
      (groupJoin source (first' :: rest') inner') := by
  refine (together_requireSelect source).bind fun _ => ?_
  match args with
  | .cons ho (.cons hi (.cons hs .nil)) =>
    refine .get ?_
    rintro s s' outside
    obtain rfl := outside.same
    refine nested.bind fun _ => (together_joinKeys reserved ho hi).bind fun _ => ?_
    refine (together_resultSelector reserved _ hs).bind fun e => ?_
    split
    · dsimp only
      generalize List.getLast? _ = group
      cases group with
      | none => exact fun _ _ _ => .error
      | some => exact (together_addTable _ _).bind fun _ => .pure _
    · exact fun _ _ _ => .error
  | .nil | .cons _ .nil | .cons _ (.cons _ .nil) => exact fun _ _ _ => .error
  | .cons _ (.cons _ (.cons _ (.cons _ _))) => exact fun _ _ _ => .error

omit args in
theorem together_flatten {selector selector' : Option Node}
    (h : first.AlphaChain taken params first')
    (hs : Option.Rel (Node.AlphaArgument taken params grouped method) selector selector') :
    Together taken params grouped (flatten first selector source inner)
      (flatten first' selector' source inner') := by
  have collections := h.collection
  unfold flatten
  generalize first.collection = x at collections ⊢
  generalize first'.collection = x' at collections ⊢
  cases collections with
  | error => exact fun _ _ _ => .error
  | ok same =>
    obtain ⟨path, usesDefault⟩ := same
    dsimp only
    rw [path, usesDefault]
    refine .ite ?_ ?_
    · refine nested.bind fun op => .get ?_
      rintro s s' outside
      obtain rfl := outside.same
      refine Matches.bind (.modify fun t t' ht => ?_) fun _ => ?_
      · obtain rfl := ht.same
        exact ⟨rfl, ht.bindings, ht.helpers, ht.ungrouped⟩
      · split
        · exact together_finishSelectMany reserved _ _ _ _ hs _
        · exact together_finishSelectMany reserved _ _ _ _ hs _
    · exact (together_of_same fun _ => leads_steadyTable _).bind fun _ =>
        together_finishSelectMany reserved _ _ _ _ hs _

theorem together_selectMany (h : first.AlphaChain taken params first') :
    Together taken params grouped (selectMany source (first :: rest) inner)
      (selectMany source (first' :: rest') inner') := by
  refine (together_requireSelect source).bind fun _ => ?_
  match args with
  | .nil =>
    have alone : Option.Rel (Node.AlphaArgument taken params grouped method) none none := .none
    exact together_flatten reserved nested source h alone
  | .cons hs .nil => exact together_flatten reserved nested source h (.some hs)
  | .cons _ (.cons _ _) => exact fun _ _ _ => .error

end

/-! ### Methods by name -/

/-- Where an error would be noticed is the same on both sides. -/
theorem together_report {s : Scope} (hs : s.Outside taken params grouped s) (change : Scope → Scope)
    (bindings : (change s).bindings = s.bindings) (helpers : (change s).helpers = s.helpers)
    (groupByKey : (change s).groupByKey = s.groupByKey) :
    SameResult (Scope.Outside taken params grouped) ((modify change : Resolve Unit) s)
      ((modify change : Resolve Unit) s) := by
  refine .ok ⟨rfl, ?_, helpers ▸ hs.helpers, groupByKey ▸ hs.ungrouped⟩
  rw [bindings]
  exact hs.bindings

/-- Only methods whose first argument is a query look at the work that resolves it as one. -/
theorem together_apply (reserved : reservedNames ⊆ taken) {method : Method}
    {arguments arguments' : List Node} (noQuery : method.takesQuery = false)
    (args : List.Forall₂ (Node.AlphaArgument taken params grouped method) arguments arguments')
    (source : Operation) (inner inner' collection collection' : Resolve Operation) (s s' : Scope)
    (hs : s.Outside taken params grouped s') :
    SameResult (Scope.Outside taken params (method.groups grouped))
      (apply method source arguments inner collection s)
      (apply method source arguments' inner' collection' s') := by
  cases method with
  | filter => exact together_filter reserved source args s s' hs
  | select => exact together_select reserved source args s s' hs
  | groupBy => exact together_groupBy reserved source args s s' hs
  | sort kind descending => exact together_sort reserved source kind descending args s s' hs
  | page kind => exact together_page reserved source kind args s s' hs
  | distinct | reverse | defaultIfEmpty => exact together_mark source _ args s s' hs
  | join | groupJoin | selectMany => cases noQuery
  | terminal kind => exact together_terminal reserved source kind args s s' hs
  | contains => exact together_contains reserved source args s s' hs
  | aggregate kind => exact together_aggregate reserved source kind args s s' hs
  | values => exact together_values reserved source args s s' hs
  | onConflict => exact together_onConflict reserved source args s s' hs
  | doNothing => exact together_doNothing args source s s' hs
  | doUpdateSet => exact together_doUpdateSet reserved source args s s' hs
  | returning => exact together_returning reserved source args s s' hs
  | set => exact together_setColumns reserved source args s s' hs
  | allowFullTableUpdate => exact together_allowFullTableUpdate args source s s' hs
  | allowFullTableDelete => exact together_allowFullTableDelete args source s s' hs

theorem groups_of_takesQuery {method : Method} (takes : method.takesQuery = true) :
    method.groups grouped = grouped := by
  cases method with
  | join | groupJoin | selectMany => rfl
  | _ => cases takes

/-- A method whose first argument is a query. -/
theorem together_applyQuery (reserved : reservedNames ⊆ taken) {method : Method}
    (takes : method.takesQuery = true) {first first' : Node} {rest rest' : List Node}
    (h : first.AlphaChain taken params first')
    (args : List.Forall₂ (Node.AlphaArgument taken params grouped method) rest rest')
    {inner inner' collection collection' : Resolve Operation}
    (nested : Together taken params grouped inner inner')
    (collected : Together taken params grouped collection collection') (source : Operation) :
    Together taken params grouped (apply method source (first :: rest) inner collection)
      (apply method source (first' :: rest') inner' collection') := by
  cases method with
  | join kind => exact together_join reserved args nested source kind
  | groupJoin => exact together_groupJoin reserved args nested source
  | selectMany => exact together_selectMany reserved args collected source h
  | _ => cases takes

/-- Without a query such a method fails. -/
theorem together_applyNothing {method : Method} (takes : method.takesQuery = true)
    (source : Operation) (inner inner' collection collection' : Resolve Operation) :
    Together taken params grouped (apply method source [] inner collection)
      (apply method source [] inner' collection') := by
  cases method with
  | join kind =>
    refine (together_requireSelect source).bind fun _ => .get fun _ _ _ => ?_
    exact .ite (fun _ _ _ => .error) fun _ _ _ => .error
  | groupJoin | selectMany => exact (together_requireSelect source).bind fun _ => fun _ _ _ => .error
  | _ => cases takes

theorem together_call (reserved : reservedNames ⊆ taken) {name : String}
    {arguments arguments' : List Node}
    (args : Node.AlphaArguments taken params grouped name arguments arguments')
    {inner inner' collection collection' : Resolve Operation}
    (nested : Node.callTakesQuery name = true → Together taken params grouped inner inner')
    (collected : Node.callTakesQuery name = true →
      Together taken params grouped collection collection')
    (source : Operation) (s s' : Scope) (hs : s.Outside taken params grouped s') :
    SameResult (Scope.Outside taken params (Node.callGroups grouped name))
      (call name source arguments inner collection s)
      (call name source arguments' inner' collection' s') := by
  obtain rfl := hs.same
  refine (together_report hs (fun t => { t with method := name }) rfl rfl rfl).bind
    fun _ t t' ht => ?_
  unfold Node.callGroups
  have takes {method : Method} (named : Method.ofName? name = some method)
      (takes : method.takesQuery = true) : Node.callTakesQuery name = true := by
    simp [Node.callTakesQuery, named, takes]
  cases args with
  | nil =>
    cases named : Method.ofName? name with
    | none => exact .error
    | some method =>
      cases query : method.takesQuery with
      | false => exact together_apply reserved query .nil source _ _ _ _ t t' ht
      | true =>
        dsimp only
        rw [groups_of_takesQuery query]
        exact together_applyNothing query source _ _ _ _ t t' ht
  | unknown noMethod =>
    rw [noMethod]
    exact .error
  | source => exact .error
  | @lambdas _ _ method _ _ named noQuery args =>
    rw [named]
    exact together_apply reserved noQuery args source _ _ _ _ t t' ht
  | @query _ _ method _ _ _ _ named query h args =>
    rw [named]
    dsimp only
    rw [groups_of_takesQuery query]
    exact together_applyQuery reserved query h args (nested (takes named query))
      (collected (takes named query)) source t t' ht

/-! ### Roots -/

/-- After a statement is started rows are not grouped. -/
theorem together_started {α : Type} {work work' : Resolve α}
    (h : Together taken params grouped work work') (statement : String) (table : α → String)
    (op : α → Operation) (s s' : Scope) (hs : s.Outside taken params grouped s') :
    SameResult (Scope.Outside taken params false)
      ((work >>= fun a => startStatement statement (table a) >>= fun _ => pure (op a)) s)
      ((work' >>= fun a => startStatement statement (table a) >>= fun _ => pure (op a)) s') := by
  refine (h s s' hs).bind fun a t t' ht => ?_
  obtain rfl := ht.same
  refine .ok ⟨rfl, ?_, ht.helpers, fun _ => rfl⟩
  dsimp only
  rw [ht.bindings]

theorem together_tableArguments (method : String) {first first' : Node}
    (h : first.AlphaChain taken params first') (rest : List Node) :
    Together taken params grouped (tableArguments method (first :: rest))
      (tableArguments method (first' :: rest)) := by
  cases h with
  | leaf => exact together_of_same fun _ => leads_tableArguments _ _
  | _ =>
    match rest with
    | [] | [_] | _ :: _ :: _ => exact fun _ _ _ => .error

/-- The root of a chain; after it rows are not grouped. -/
theorem together_root {root : RootMethod} {name : String} (named : RootMethod.ofName? name = some root)
    {arguments arguments' : List Node}
    (args : Node.AlphaArguments taken params grouped name arguments arguments')
    {before : Bool} {inner inner' : Resolve Operation}
    (nested : Node.callTakesQuery name = true → Together taken params before inner inner')
    (s s' : Scope) (hs : s.Outside taken params before s') :
    SameResult (Scope.Outside taken params false) (Resolve.root root arguments inner s)
      (Resolve.root root arguments' inner' s') := by
  have noMethod := RootMethod.not_method named
  have isName := RootMethod.name_of_ofName? named
  obtain rfl := hs.same
  have started {arguments arguments' : List Node} {t t' : Scope}
      (ht : t.Outside taken params before t')
      (names : Together taken params before (tableArguments root.name arguments)
        (tableArguments root.name arguments')) :=
    together_started names root.statement Prod.snd (fun found => [root.step found.1 found.2]) t t' ht
  refine (together_report hs (fun t => { t with method := root.name }) rfl rfl rfl).bind
    fun _ t t' ht => ?_
  obtain rfl := ht.same
  cases args with
  | nil => cases root <;> exact .error
  | unknown _ noSource arguments =>
    cases root with
    | «from» => exact absurd isName.symm noSource
    | _ => exact started ht (together_of_same fun _ => leads_tableArguments _ arguments)
  | @source _ first first' rest h =>
    cases root with
    | «from» =>
      refine (together_report ht (fun u => { u with operation := "select" }) rfl rfl rfl).bind
        fun _ u u' hu => ?_
      have names := started hu (together_tableArguments RootMethod.from.name h rest)
      cases rest with
      | cons => exact names
      | nil =>
        have queried := together_started (nested rfl) "select" (fun _ => "")
          (fun op => [.fromSource "" "" op ""]) u u' hu
        dsimp only
        rw [h.isLiteral_eq]
        cases first'.isLiteral with
        | true => exact names
        | false => exact queried
    | _ => exact absurd isName (by decide)
  | lambdas named' =>
    rw [noMethod] at named'
    cases named'
  | query named' =>
    rw [noMethod] at named'
    cases named'

/-- A query of its own leaves the scope around it alone. -/
theorem together_subquery {after : Bool} {chain chain' : Resolve Operation}
    (h : ∀ before s s', s.Outside taken params before s' →
      SameResult (Scope.Outside taken params after) (chain s) (chain' s')) :
    Together taken params grouped (subquery chain) (subquery chain') := by
  rintro s s' hs
  obtain rfl := hs.same
  have checked : SameResult (Scope.Outside taken params after) (selectOnly chain s)
      (selectOnly chain' s) := by
    refine (h grouped s s hs).bind fun op t t' ht => ?_
    cases op with
    | nil => exact .ok ht
    | cons step =>
      dsimp only
      cases step.isCrud with
      | true => exact .error
      | false => exact .ok ht
  change SameResult _ (nested (selectOnly chain) s) (nested (selectOnly chain') s)
  unfold nested
  generalize selectOnly chain s = r at checked ⊢
  generalize selectOnly chain' s = r' at checked ⊢
  cases checked with
  | ok ht =>
    obtain rfl := ht.same
    exact .ok ⟨rfl, hs.bindings, hs.helpers, hs.ungrouped⟩
  | error => exact .error

end Resolve

/-! ### Chains -/

open Resolve

/-- What is neither a lambda nor a call starts no chain. -/
theorem Node.together_chainless {post : Scope → Scope → Prop} {node : Node}
    (h : node.chainless = true) (mark : DefaultMark) (s s' : Scope) :
    SameResult post (node.chain mark [] s) (node.chain mark [] s') := by
  cases node with
  | arrow => cases h
  | call callee =>
    cases callee with
    | identifier | member => cases h
    | _ => exact .error
  | _ => exact .error

/-- A lambda whose body is no part of a chain starts no chain. -/
theorem Node.together_arrow_chainless {post : Scope → Scope → Prop} {body : Node}
    (h : body.chainless = true) (names : List String) (mark : DefaultMark) (s s' : Scope) :
    SameResult post ((Node.arrow names body).chain mark [] s)
      ((Node.arrow names body).chain mark [] s') := by
  rw [Node.chain_arrow]
  unfold Node.lambdaBody
  split
  · cases h
  · exact .error
  · exact .error
  · exact Node.together_chainless h mark.inside s s'

/-- Calls that differ only in what lambdas call their first parameters, with work that leaves one
scope. -/
structure ChainCall.Alpha (taken params : List String) (before : Bool) (c c' : ChainCall) : Prop where
  receiver : c.receiver.AlphaChain taken params c'.receiver
  property : c.property = c'.property
  arguments : Node.AlphaArguments taken params (c.receiver.groups false) c.method c.arguments
    c'.arguments
  earlier : ∀ s s', s.Outside taken params before s' →
    SameResult (Scope.Outside taken params (c.receiver.groups false)) (c.earlier s) (c'.earlier s')
  inner : Node.callTakesQuery c.method = true →
    ∀ grouped, Together taken params grouped c.inner c'.inner
  collection : Node.callTakesQuery c.method = true →
    ∀ grouped, Together taken params grouped c.collection c'.collection

namespace ChainCall.Alpha

variable {before : Bool} {c c' : ChainCall} (h : c.Alpha taken params before c')

include h

theorem method_eq : c.method = c'.method :=
  congrArg Node.keyName h.property

theorem marksDefault_eq (mark : DefaultMark) : c.marksDefault mark = c'.marksDefault mark := by
  unfold marksDefault
  rw [h.method_eq, h.arguments.isEmpty_eq]

/-- A call on a name starts a chain; there is no operation to be extended. -/
theorem onName (name : String) {after : Bool} (s s' : Scope) (hs : s.Outside taken params before s') :
    SameResult (Scope.Outside taken params after) (c.onName name [] s) (c'.onName name [] s') := by
  obtain rfl := hs.same
  unfold ChainCall.onName
  refine .get ?_
  rw [← h.method_eq]
  by_cases isSeed : name = planSeed
  · rw [if_pos isSeed, if_pos isSeed]
    exact .error
  rw [if_neg isSeed, if_neg isSeed]
  cases named : RootMethod.ofName? c.method with
  | none => exact .error
  | some root =>
    have started := together_root named h.arguments (fun takes => h.inner takes before) s s hs
    dsimp only
    split
    · exact started.mono fun _ _ ht => ht.weaken after fun _ => rfl
    · exact .error

theorem onChain (reserved : reservedNames ⊆ taken) (s s' : Scope)
    (hs : s.Outside taken params before s') :
    SameResult (Scope.Outside taken params (c.node.groups false)) (c.onChain s) (c'.onChain s') := by
  refine (h.earlier s s' hs).bind fun op t t' ht => ?_
  rw [← h.method_eq]
  exact together_call reserved h.arguments (fun takes => h.inner takes _)
    (fun takes => h.collection takes _) op t t' ht

omit h in
/-- A call that only marks a collection groups no rows. -/
theorem groups_marked {mark : DefaultMark} (marked : c.marksDefault mark = true) :
    c.node.groups false = c.receiver.groups false := by
  change Node.callGroups (c.receiver.groups false) c.method = _
  rw [method_of_marksDefault marked]
  rfl

theorem resolve (reserved : reservedNames ⊆ taken) (mark : DefaultMark) (s s' : Scope)
    (hs : s.Outside taken params before s') :
    SameResult (Scope.Outside taken params (c.node.groups false)) (c.resolve mark [] s)
      (c'.resolve mark [] s') := by
  unfold ChainCall.resolve
  rw [← h.marksDefault_eq, ← h.method_eq]
  by_cases marked : c.marksDefault mark = true
  · rw [if_pos marked, if_pos marked, groups_marked marked]
    exact h.earlier s s' hs
  rw [if_neg marked, if_neg marked]
  by_cases unnamed : c.method.isEmpty = true
  · rw [if_pos unnamed, if_pos unnamed]
    exact .error
  rw [if_neg unnamed, if_neg unnamed]
  have onChain := h.onChain reserved s s' hs
  have onName (name : String) :
      SameResult (Scope.Outside taken params (c.node.groups false)) _ _ := h.onName name s s' hs
  have receivers := h.receiver
  generalize c.receiver = receiver at receivers ⊢
  generalize c'.receiver = receiver' at receivers ⊢
  cases receivers with
  | leaf =>
    cases receiver with
    | identifier name => exact onName name
    | _ => exact onChain
  | _ => exact onChain

end ChainCall.Alpha

mutual

/-- Chains that differ only in what lambdas call their first parameters fail on both sides, or give the
same query and leave the same scope. -/
theorem Node.together_chain (reserved : reservedNames ⊆ taken) : ∀ {node node' : Node},
    node.AlphaChain taken params node' → ∀ (mark : DefaultMark) (before : Bool) (s s' : Scope),
      s.Outside taken params before s' →
      SameResult (Scope.Outside taken params (node.groups false)) (node.chain mark [] s)
        (node'.chain mark [] s')
  | _, _, .leaf h, mark, _, s, s', hs => by
    obtain rfl := hs.same
    exact Node.together_chainless h mark s s
  | _, _, .arrow names (.leaf h), mark, _, s, s', hs => by
    obtain rfl := hs.same
    exact Node.together_arrow_chainless h names mark s s
  | _, _, .arrow _ (.block h), mark, before, s, s', hs =>
    Node.together_chain reserved h mark.inside before s s' hs
  | _, _, .arrow _ (.arrow names h), mark, before, s, s', hs =>
    Node.together_chain reserved (.arrow names h) mark.inside before s s' hs
  | _, _, .arrow _ (.function name args), mark, before, s, s', hs =>
    Node.together_chain reserved (.function name args) mark.inside before s s' hs
  | _, _, .arrow _ (.call property computed h args), mark, before, s, s', hs =>
    Node.together_chain reserved (.call property computed h args) mark.inside before s s' hs
  | _, _, .block _, _, _, _, _, _ => .error
  | _, _, .function name args, mark, before, s, s', hs => by
    unfold Node.chain functionCall
    cases named : RootMethod.ofName? name with
    | none => exact .error
    | some root =>
      exact together_root named args
        (fun takes => Node.together_firstQuery reserved args takes .step before) s s' hs
  | _, _, .call property computed h args, mark, before, s, s', hs => by
    have nested (mark : DefaultMark) (takes : Node.callTakesQuery property.keyName = true) :=
      Node.together_firstQuery reserved args takes mark
    have earlier := Node.together_chain reserved h .step before
    unfold Node.chain
    have calls : ChainCall.Alpha taken params before
        ⟨_, property, computed, _, _, Node.firstQuery .step _, Node.firstQuery .argument _⟩
        ⟨_, property, computed, _, _, Node.firstQuery .step _, Node.firstQuery .argument _⟩ :=
      ⟨h, rfl, args, earlier, nested .step, nested .argument⟩
    exact calls.resolve reserved mark s s' hs

theorem Node.together_firstQuery (reserved : reservedNames ⊆ taken) : ∀ {nodes nodes' : List Node}
    {grouped : Bool} {name : String},
    Node.AlphaArguments taken params grouped name nodes nodes' → Node.callTakesQuery name = true →
      ∀ (mark : DefaultMark) (before : Bool), Together taken params before
        (Node.firstQuery mark nodes) (Node.firstQuery mark nodes')
  | _, _, _, _, .nil, _, _, _ => .pure _
  | _, _, _, _, .source _ h, _, mark, _ =>
    together_subquery fun before => Node.together_chain reserved h mark before
  | _, _, _, _, .query _ _ h _, _, mark, _ =>
    together_subquery fun before => Node.together_chain reserved h mark before
  | _, _, _, _, .unknown noMethod noSource _, takes, _, _ => by
    simp [Node.callTakesQuery, noMethod, noSource] at takes
  | _, _, _, _, .lambdas named noQuery _, takes, _, _ => by
    simp only [Node.callTakesQuery, named, Option.any_some, noQuery, Bool.or_false,
      decide_eq_true_eq] at takes
    rw [takes] at named
    cases named

end

end FluentQuery
