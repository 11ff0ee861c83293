import FluentQuery.Proofs.Resolve.Extension

/-!
# Invariants of chains

Between two calls of a chain there are a query and the scope it was reached in.  What holds of a new
statement and is kept up by the methods of a SELECT (`Resolve.Upheld`) holds of whatever a chain builds,
and of the queries nested in it (`Resolve.Upheld.chain`).
-/

namespace FluentQuery

set_option autoImplicit false

namespace Scope

/-- Two scopes that differ in automatic parameters and in what is reported only. -/
structure Alike (s s' : Scope) : Prop where
  bindings : s'.bindings = s.bindings
  groupByKey : s'.groupByKey = s.groupByKey
  tableCount : s'.tableCount = s.tableCount

theorem Alike.refl (s : Scope) : s.Alike s :=
  ⟨rfl, rfl, rfl⟩

theorem Alike.trans {s s' s'' : Scope} (h : s.Alike s') (h' : s'.Alike s'') : s.Alike s'' :=
  ⟨h'.bindings.trans h.bindings, h'.groupByKey.trans h.groupByKey,
    h'.tableCount.trans h.tableCount⟩

end Scope

namespace Resolve

variable {α : Type}

theorem Leads.require {s : Scope} {post : α → Scope → Prop} {source : Operation}
    {next : Unit → Resolve α} (isOpen : source.IsOpen) (h : Leads s post (next ())) :
    Leads s post (requireSelect source >>= next) := by
  rw [requireSelect_open isOpen]
  exact h

/-- On a SELECT a method of another statement does not succeed. -/
theorem Leads.refuse {source : Operation} (isOpen : source.IsOpen) {s : Scope}
    {post : Operation → Scope → Prop} {work : Resolve Operation} (h : Yields (Changes source) work) :
    Leads s post work := by
  refine .intro fun op s' run => ?_
  obtain ⟨step, _, rest, rfl, -, isCrud, -⟩ := h s op s' run
  cases isCrud.symm.trans isOpen.1

/-- A nested query is one that a chain reaches, and leaves the scope as it was. -/
def Embedded (idle : Bindings → Prop) (reached : Operation → Scope → Prop) (query : Resolve Operation) :
    Prop :=
  ∀ s : Scope, idle s.bindings →
    Leads s (fun op s' => op.Built ∧ (∃ t, reached op t) ∧ s.Alike s') query

/-- A nested query leaves of its work on the scope only the automatic parameters. -/
theorem embedded_subquery {idle : Bindings → Prop} {reached : Operation → Scope → Prop}
    {chain : Resolve Operation} (built : Yields Operation.Built chain)
    (h : ∀ s : Scope, idle s.bindings → Leads s reached chain) :
    Embedded idle reached (subquery chain) := by
  intro s here
  refine .intro fun op s' run => ?_
  unfold subquery nested at run
  dsimp only at run
  split at run
  · rename_i inner
    cases run
    obtain ⟨found, t, ran, checked⟩ := bind_eq_ok.1 inner
    have same : found = op := by
      split at checked
      · split at checked <;> cases checked
        rfl
      · cases checked
        rfl
    subst same
    exact ⟨built s found t ran, ⟨t, Ensures.of_ok (h s here) ran⟩, ⟨rfl, rfl, rfl⟩⟩
  · cases run

/-- A property of queries and the scopes they are reached in, which every call keeps up; chains are
resolved where the bindings are `idle`. -/
structure Upheld (idle : Bindings → Prop) (reached : Operation → Scope → Prop) : Prop where
  /-- A scope may get another one's automatic parameters and places of errors. -/
  alike {op : Operation} {s s' : Scope} : reached op s → s.Alike s' → reached op s'
  /-- Of a statement that changes rows nothing is said. -/
  change {step : Step} (isCrud : step.isCrud = true) (s : Scope) : reached [step] s
  start {step : Step} {s : Scope} (isFrom : step.isFrom = true) (idle : idle s.bindings)
    (nested : step.nested = [] ∨ ∃ t, reached step.nested t) (statement table : String) :
    Leads s reached (startStatement statement table >>= fun _ => pure [step])
  extend {source : Operation} {s : Scope} (isOpen : source.IsOpen) (h : reached source s)
    (method : Method) (arguments : List Node) {inner collection : Resolve Operation}
    (nests : arguments ≠ [] → Embedded idle reached inner)
    (collects : arguments ≠ [] → Embedded idle reached collection) :
    Leads s reached (apply method source arguments inner collection)

namespace Upheld

variable {idle : Bindings → Prop} {reached : Operation → Scope → Prop} (upheld : Upheld idle reached)

include upheld

/-- One call: what it is called on is reached, and so is its result. -/
theorem call {source : Operation} {s : Scope} (built : source.Built) (h : reached source s)
    (name : String) (arguments : List Node) {inner collection : Resolve Operation}
    (nests : arguments ≠ [] → Embedded idle reached inner)
    (collects : arguments ≠ [] → Embedded idle reached collection) :
    Leads s reached (Resolve.call name source arguments inner collection) := by
  refine .modify ?_
  split
  · rename_i method _
    refine .intro fun op s' run => ?_
    rcases yields_apply arguments method inner collection built.ne_nil _ op s' run with
      isOpen | ⟨step, step', rest, rfl, rfl, isCrud, isCrud'⟩
    · have h' : reached source { s with method := name } := upheld.alike h ⟨rfl, rfl, rfl⟩
      exact Ensures.of_ok (upheld.extend isOpen h' method arguments nests collects) run
    · cases built with
      | start => exact upheld.change isCrud' s'
      | extend _ _ _ notCrud => cases notCrud.symm.trans isCrud
  · exact .fail

theorem root (method : RootMethod) (arguments : List Node) {subquery : Resolve Operation}
    (nests : arguments ≠ [] → Embedded idle reached subquery) {s : Scope} (here : idle s.bindings) :
    Leads s reached (Resolve.root method arguments subquery) := by
  have rest (isSubquery : Bool) (holds : isSubquery = true → arguments ≠ []) {s : Scope}
      (here : idle s.bindings) : Leads s reached
      (if isSubquery then do
        let op ← subquery
        startStatement "select" ""
        return [.fromSource "" "" op ""]
      else do
        let name ← tableArguments method.name arguments
        startStatement method.statement name.2
        return [method.step name.1 name.2]) := by
    split
    · rename_i is
      refine .bind (nests (holds is) s here) ?_
      rintro op s' ⟨-, nested, same⟩
      refine upheld.start rfl (same.bindings ▸ here) ?_ _ _
      exact .inr nested
    · refine .bind (leads_tableArguments _ _) ?_
      rintro name _ rfl
      cases method with
      | «from» => exact upheld.start rfl here (.inl rfl) _ _
      | insertInto | update | deleteFrom => exact upheld.change rfl _
  refine .modify ?_
  dsimp only
  split
  · refine .modify (rest _ ?_ here)
    rintro is rfl
    cases method <;> cases is
  · refine rest _ ?_ here
    rintro is rfl
    cases method <;> cases is

end Upheld

end Resolve

open Resolve

/-- What the chains among several nodes build is nested where the first of them is one. -/
theorem Resolve.embedded_firstQuery {idle : Bindings → Prop} {reached : Operation → Scope → Prop}
    {nodes : List Node} (mark : DefaultMark) (nonempty : nodes ≠ [])
    (h : ∀ first ∈ nodes.head?, ∀ mark (s : Scope), idle s.bindings →
      Leads s reached (first.chain mark [])) : Embedded idle reached (Node.firstQuery mark nodes) := by
  cases nodes with
  | nil => exact absurd rfl nonempty
  | cons first rest =>
    unfold Node.firstQuery
    exact embedded_subquery (Node.built_chain [] (.inl rfl) first mark) (h first rfl mark)

namespace Resolve.Upheld

variable {idle : Bindings → Prop} {reached : Operation → Scope → Prop} (upheld : Upheld idle reached)

include upheld

/-- Whatever a chain builds is reached. -/
theorem chain (node : Node) (mark : DefaultMark) (s : Scope) (here : idle s.bindings) :
    Leads s reached (node.chain mark []) := by
  induction node, mark using Node.chain_induction generalizing s with
  | refused node mark h => exact .refused h
  | lambda names body value mark returned ih =>
    rw [Node.chain_arrow_of_ok returned]
    exact ih s here
  | function name arguments mark first =>
    unfold Node.chain functionCall
    split
    · exact upheld.root _ arguments (fun nonempty => embedded_firstQuery .step nonempty first) here
    · exact .fail
  | method receiver property computed arguments mark earlier first =>
    have nests (nonempty : arguments ≠ []) := embedded_firstQuery .step nonempty first
    have collects (nonempty : arguments ≠ []) := embedded_firstQuery .argument nonempty first
    unfold Node.chain ChainCall.resolve
    split
    · exact earlier s here
    split
    · exact .fail
    dsimp only
    split
    · refine .get ?_
      dsimp only
      split
      · exact .fail
      · split
        · split
          · exact upheld.root _ arguments nests here
          · exact .fail
        · exact .fail
    · refine .intro fun op s' run => ?_
      obtain ⟨op', t, ran, called⟩ := bind_eq_ok.1 run
      have built := Node.built_chain [] (.inl rfl) receiver .step s op' t ran
      have reached := Ensures.of_ok (earlier s here) ran
      exact Ensures.of_ok (upheld.call built reached _ arguments nests collects) called

theorem firstQuery (nodes : List Node) (mark : DefaultMark) (nonempty : nodes ≠ []) :
    Embedded idle reached (Node.firstQuery mark nodes) :=
  embedded_firstQuery mark nonempty fun first _ mark => upheld.chain first mark

end Resolve.Upheld

end FluentQuery
