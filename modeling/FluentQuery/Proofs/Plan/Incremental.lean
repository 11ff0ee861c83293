import Mathlib.Data.List.Induction
import FluentQuery.Plan.State
import FluentQuery.Proofs.Operation.Normalization
import FluentQuery.Proofs.Resolve.Extension

/-!
# Plans that grow call by call

A plan is brought into normal form after every call, a builder only once, after its last call.  The
two give the same query, with one exception: a call that refines an order looks for it in what
precedes, and the normal form may have moved the `orderBy` into a derived table, under a filter of
window results.  `BuilderForm.incremental_parse_iff` is the exact statement.
-/

namespace FluentQuery

set_option autoImplicit false

/-! ### Builders as lists of calls -/

/-- A call of a method in a chain. -/
structure MethodCall where
  property : Node
  computed : Bool
  arguments : List Node

namespace MethodCall

def name (c : MethodCall) : String :=
  c.property.keyName

/-- Whether a call refines the order that an earlier call gave. -/
def refinesOrder (c : MethodCall) : Bool :=
  (Method.ofName? c.name).any Method.refinesOrder

end MethodCall

namespace Node

/-- A chain with one more call. -/
def withCall (receiver : Node) (c : MethodCall) : Node :=
  .call (.member receiver c.property c.computed) c.arguments

/-- A chain with further calls. -/
def withCalls (receiver : Node) (calls : List MethodCall) : Node :=
  calls.foldl withCall receiver

theorem withCalls_append (receiver : Node) (before after : List MethodCall) :
    receiver.withCalls (before ++ after) = (receiver.withCalls before).withCalls after :=
  List.foldl_append

theorem withCalls_concat (receiver : Node) (calls : List MethodCall) (c : MethodCall) :
    receiver.withCalls (calls ++ [c]) = (receiver.withCalls calls).withCall c :=
  withCalls_append receiver calls [c]

/-- Whether a node is a call. -/
def IsCall (node : Node) : Prop :=
  ∃ callee arguments, node = .call callee arguments

theorem isCall_withCall (receiver : Node) (c : MethodCall) : (receiver.withCall c).IsCall :=
  ⟨_, _, rfl⟩

theorem isCall_withCalls {root : Node} (h : root.IsCall) (calls : List MethodCall) :
    (root.withCalls calls).IsCall := by
  induction calls generalizing root with
  | nil => exact h
  | cons c calls ih => exact ih (root.isCall_withCall c)

end Node

/-- How a query-building function gives its chain. -/
inductive BuilderForm where
  /-- The chain alone. -/
  | chain
  /-- `(q, params, helpers) => chain` -/
  | lambda (params : List String)
  /-- `(q, params, helpers) => { return chain }` -/
  | block (params : List String)

namespace BuilderForm

/-- The query-building function with the given chain. -/
def build : BuilderForm → Node → Node
  | chain, body => body
  | lambda params, body => .arrow params body
  | block params, body => .arrow params (.block [.returnStatement (some body)])

/-- The scope in which the chain is resolved. -/
def scope : BuilderForm → Except CompileError Scope
  | chain => .ok {}
  | lambda params | block params => (Node.arrow params (.block [])).rootScope

variable (form : BuilderForm) {body : Node}

theorem rootScope_build (h : body.IsCall) : (form.build body).rootScope = form.scope := by
  obtain ⟨callee, arguments, rfl⟩ := h
  cases form <;> rfl

theorem chain_build (h : body.IsCall) :
    (form.build body).chain .step [] = body.chain .step [] := by
  obtain ⟨callee, arguments, rfl⟩ := h
  cases form with
  | chain => rfl
  | lambda params =>
    unfold build
    rw [Node.chain]
    · rfl
    all_goals simp
  | block params =>
    unfold build
    rw [Node.chain]
    rfl

/-- A builder is parsed by resolving its chain; the normal form is taken of the whole. -/
theorem parseQuery_eq_ok (h : body.IsCall) {q : ParsedQuery} :
    (form.build body).parseQuery = .ok q ↔
      ∃ start op, form.scope = .ok start ∧ body.chain .step [] start = .ok op q.scope ∧
        q.operation = op.normalize := by
  unfold Node.parseQuery
  rw [outcome_bind_eq_ok, form.rootScope_build h, form.chain_build h]
  refine exists_congr fun start => ?_
  constructor
  · rintro ⟨hstart, hq⟩
    split at hq
    · rename_i op scope' hrun
      cases hq
      exact ⟨op, hstart, hrun, rfl⟩
    · cases hq
  · rintro ⟨op, hstart, hrun, hop⟩
    refine ⟨hstart, ?_⟩
    rw [hrun]
    dsimp only
    rw [← hop]

end BuilderForm

/-- A plan extended by several calls, one after the other. -/
def PlanState.appendAll (state : PlanState) (calls : List MethodCall) :
    Except CompileError PlanState :=
  calls.foldlM (fun state c => state.append c.name c.arguments) state

/-! ### The normal form of what calls extend -/

namespace Operation

theorem isSorted_step {step : Step} (isFrom : step.isFrom = false) (earlier : Operation) :
    isSorted (step :: earlier) = (step.isOrderBy || isSorted earlier) := by
  rw [isSorted, level_step isFrom, List.any_cons, isSorted]

theorem isSorted_from {step : Step} (isFrom : step.isFrom = true) (earlier : Operation) :
    isSorted (step :: earlier) = false := by
  rw [isSorted, level_from isFrom]
  cases step with
  | fromSource => rfl
  | _ => cases isFrom

theorem isOrderBy_withNested (step : Step) (op : Operation) :
    (step.withNested op).isOrderBy = step.isOrderBy := by
  cases step <;> rfl

/-- Lowering a step makes no `orderBy`. -/
theorem isSorted_lowerStep {step : Step} (isFrom : step.isFrom = false) {earlier : Operation}
    (h : isSorted (lowerStep step earlier) = true) :
    step.isOrderBy = true ∨ isSorted earlier = true := by
  have onTop {step : Step} (isFrom : step.isFrom = false)
      (h : isSorted (step :: earlier) = true) : step.isOrderBy = true ∨ isSorted earlier = true := by
    rwa [isSorted_step isFrom, Bool.or_eq_true] at h
  cases step with
  | defaultIfEmpty => exact .inr h
  | selectMany collection path selector shape usesDefault =>
    simp only [lowerStep, lowerSelectMany] at h
    split at h
    · split at h
      · rw [isSorted_step rfl, Bool.or_eq_true] at h
        rw [isSorted_step rfl, Bool.or_eq_true]
        exact .inr h
      · exact onTop rfl h
    · exact onTop rfl h
    · refine .inr ?_
      rwa [isSorted_step rfl] at h
  | fromSource => cases isFrom
  | _ => exact onTop rfl h

theorem isSorted_lowerJoins {op : Operation} (h : isSorted (lowerJoins op) = true) :
    isSorted op = true := by
  induction op with
  | nil =>
    rw [lowerJoins_nil] at h
    exact h
  | cons step earlier ih =>
    cases isFrom : step.isFrom with
    | true =>
      rw [lowerJoins_from isFrom, isSorted_from (by rw [Step.isFrom_withNested, isFrom])] at h
      cases h
    | false =>
      rw [lowerJoins_step isFrom] at h
      rw [isSorted_step isFrom, Bool.or_eq_true]
      rcases isSorted_lowerStep (by rw [Step.isFrom_withNested, isFrom]) h with here | below
      · exact .inl (by rwa [isOrderBy_withNested] at here)
      · exact .inr (ih below)

theorem isSorted_isolateWindows {op : Operation} (h : isSorted (isolateWindows op) = true) :
    isSorted op = true := by
  induction op with
  | nil =>
    rw [isolateWindows_nil] at h
    exact h
  | cons step earlier ih =>
    cases isFrom : step.isFrom with
    | true =>
      rw [isolateWindows_from isFrom, isSorted_from (by rw [Step.isFrom_withNested, isFrom])] at h
      cases h
    | false =>
      rw [isolateWindows_step isFrom] at h
      rw [isSorted_step isFrom, Bool.or_eq_true]
      rcases isolateStep_cases (step.withNested (isolateWindows step.nested))
        (isolateWindows earlier) with kept | ⟨⟨predicate, hfilter⟩, -, moved⟩
      · rw [kept, isSorted_step (by rw [Step.isFrom_withNested, isFrom]), isOrderBy_withNested,
          Bool.or_eq_true] at h
        exact h.imp_right ih
      · rw [moved, hfilter] at h
        cases h

/-- The normal form is sorted only if the query is; filters of window results hide orders. -/
theorem isSorted_normalize {op : Operation} (h : isSorted (normalize op) = true) :
    isSorted op = true :=
  isSorted_lowerJoins (isSorted_isolateWindows h)

/-- The kind of a query, which decides what it can be extended by. -/
theorem Built.kind {op : Operation} (h : Built op) :
    op.IsOpen ∨ (∃ step, op = [step] ∧ step.isCrud = true) ∨
      ∃ step earlier, op = step :: earlier ∧ step.isTerminal = true := by
  have notFrom {step : Step} (isFrom : step.isFrom = true) (earlier : Operation) :
      IsOpen (step :: earlier) := by
    cases step with
    | fromSource => exact ⟨rfl, rfl⟩
    | _ => cases isFrom
  cases h with
  | @start step root =>
    rcases root with isFrom | isCrud
    · exact .inl (notFrom isFrom [])
    · exact .inr (.inl ⟨step, rfl, isCrud⟩)
  | @extend step source built isOpen isFrom isCrud =>
    cases isTerminal : step.isTerminal with
    | true => exact .inr (.inr ⟨step, source, rfl, isTerminal⟩)
    | false => exact .inl ⟨isCrud, isTerminal⟩

/-- A step that holds no query and is not dropped stays the last one. -/
theorem normalize_keeps {step : Step} (isFrom : step.isFrom = false) (nested : step.nested = [])
    (kept : ∀ earlier, lowerStep step earlier = step :: earlier) (earlier : Operation) :
    ∃ earlier', normalize (step :: earlier) = step :: earlier' := by
  rw [normalize, lowerJoins_step isFrom, nested, lowerJoins_nil, ← nested, Step.withNested_nested,
    kept]
  obtain ⟨earlier', h⟩ := isolateWindows_cons step (lowerJoins earlier)
  rw [nested, isolateWindows_nil, ← nested, Step.withNested_nested] at h
  exact ⟨earlier', h⟩

theorem normalize_terminal {step : Step} (h : step.isTerminal = true) (earlier : Operation) :
    ∃ earlier', normalize (step :: earlier) = step :: earlier' := by
  cases step with
  | terminal | contains | aggregate => exact normalize_keeps rfl rfl (fun _ => rfl) earlier
  | _ => cases h

theorem normalize_crud {step : Step} (h : step.isCrud = true) : normalize [step] = [step] := by
  cases step with
  | insert | update | delete => simp [normalize, lowerJoins, lowerNested, lowerStep, isolateWindows,
      isolateNested, isolateStep, Step.isFrom]
  | _ => cases h

theorem isOpen_withNested {step : Step} {earlier : Operation} (h : IsOpen (step :: earlier))
    (op earlier' : Operation) : IsOpen (step.withNested op :: earlier') := by
  cases step <;> exact h

/-- Lowering a step on top of an open query leaves an open query. -/
theorem IsOpen.lowerStep {step : Step} {earlier : Operation} (below : earlier.IsOpen)
    (h : IsOpen (step :: earlier)) : IsOpen (lowerStep step earlier) := by
  cases step with
  | defaultIfEmpty => exact below
  | selectMany =>
    simp only [Operation.lowerStep, lowerSelectMany]
    split
    · split <;> exact ⟨rfl, rfl⟩
    · exact ⟨rfl, rfl⟩
    · exact ⟨rfl, rfl⟩
  | _ => exact h

theorem IsOpen.isolateWindows {op : Operation} (h : op.IsOpen) : IsOpen (isolateWindows op) := by
  cases op with
  | nil => exact h.elim
  | cons step earlier =>
    obtain ⟨earlier', heq⟩ := isolateWindows_cons step earlier
    rw [heq]
    exact isOpen_withNested h _ _

theorem Built.isOpen_lowerJoins {op : Operation} (built : Built op) (h : op.IsOpen) :
    IsOpen (lowerJoins op) := by
  induction built with
  | @start step root =>
    rcases root with isFrom | isCrud
    · rw [lowerJoins_from isFrom]
      exact isOpen_withNested h _ _
    · cases h.1.symm.trans isCrud
  | @extend step source built isOpen isFrom isCrud ih =>
    rw [lowerJoins_step isFrom]
    exact (ih isOpen).lowerStep (isOpen_withNested h _ _)

/-- The normal form of a query can be extended if the query can. -/
theorem Built.isOpen_normalize {op : Operation} (built : Built op) (h : op.IsOpen) :
    op.normalize.IsOpen :=
  (built.isOpen_lowerJoins h).isolateWindows

theorem Built.normalize_ne_nil {op : Operation} (built : Built op) : op.normalize ≠ [] := by
  rcases built.kind with isOpen | ⟨step, rfl, isCrud⟩ | ⟨step, earlier, rfl, isTerminal⟩
  · have isOpen' := built.isOpen_normalize isOpen
    intro nil
    rw [nil] at isOpen'
    exact isOpen'
  · rw [normalize_crud isCrud]
    exact List.cons_ne_nil _ _
  · obtain ⟨earlier', heq⟩ := normalize_terminal isTerminal earlier
    rw [heq]
    exact List.cons_ne_nil _ _

end Operation

/-! ### One call -/

namespace Resolve

/-- A method that refines an order needs a sorted SELECT. -/
theorem yields_refinesOrder {method : Method} (h : method.refinesOrder = true) {source : Operation}
    (ne : source ≠ []) (arguments : List Node) (inner collection : Resolve Operation) :
    Yields (fun _ => source.IsOpen ∧ source.isSorted = true)
      (apply method source arguments inner collection) := by
  cases method with
  | sort kind descending =>
    cases kind with
    | orderBy => cases h
    | thenBy =>
      refine (yields_requireSelect ne).bind_of fun _ isOpen => ?_
      dsimp only
      split
      · cases sorted : source.isSorted with
        | true => exact fun _ _ _ _ => ⟨isOpen, rfl⟩
        | false =>
          unfold Operation.isSorted at sorted
          simp only [sorted]
          exact .bind fun s => .bind_of .fail fun _ (absurd : False) => absurd.elim
      · exact .failArguments
  | _ => cases h

/-- A method has the same effect on a query and on its normal form, up to the normal form, unless it
refines an order that the normal form hides. -/
theorem apply_normalize_iff {op : Operation} (built : op.Built) (method : Method)
    (arguments : List Node) (inner collection : Resolve Operation) (s s' : Scope) (result : Operation) :
    (∃ op', apply method op.normalize arguments inner collection s = .ok op' s' ∧
        result = op'.normalize) ↔
      (∃ op', apply method op arguments inner collection s = .ok op' s' ∧ result = op'.normalize) ∧
        (method.refinesOrder = true → op.normalize.isSorted = true) := by
  rcases built.kind with isOpen | ⟨step, rfl, isCrud⟩ | ⟨step, earlier, rfl, isTerminal⟩
  · have isOpen' := built.isOpen_normalize isOpen
    by_cases hidden : method.refinesOrder = true ∧ op.normalize.isSorted = false
    · constructor
      · rintro ⟨op', run, -⟩
        have sorted :=
          (yields_refinesOrder hidden.1 built.normalize_ne_nil _ _ _ s op' s' run).2
        cases hidden.2.symm.trans sorted
      · rintro ⟨-, sorted⟩
        cases hidden.2.symm.trans (sorted hidden.1)
    · have visible (h : method.refinesOrder = true) : op.normalize.isSorted = true := by
        simpa [h] using hidden
      -- Both queries are sorted if the method asks, so it adds the same step to both.
      have known (source : Operation) (hsource : source = op ∨ source = op.normalize)
          (h : method.refinesOrder = true) : source.isSorted = true := by
        rcases hsource with rfl | rfl
        · exact Operation.isSorted_normalize (visible h)
        · exact visible h
      obtain ⟨work, yields, same⟩ := extends_apply arguments method inner collection true known
      have onRaw : apply method op arguments inner collection = (· :: op) <$> work :=
        same op isOpen (.inl rfl)
      have onNormal : apply method op.normalize arguments inner collection =
          (· :: op.normalize) <$> work := same op.normalize isOpen' (.inr rfl)
      have added (source : Operation) :
          (∃ op', ((· :: source) <$> work) s = .ok op' s' ∧ result = Operation.normalize op') ↔
            ∃ step, work s = .ok step s' ∧ result = Operation.normalize (step :: source) := by
        simp only [map_eq_pure_bind, bind_eq_ok]
        constructor
        · rintro ⟨op', ⟨step, t, hstep, hpure⟩, hresult⟩
          cases hpure
          exact ⟨step, hstep, hresult⟩
        · rintro ⟨step, hstep, hresult⟩
          exact ⟨_, ⟨step, s', hstep, rfl⟩, hresult⟩
      rw [onRaw, onNormal, added, added, and_iff_left visible]
      refine exists_congr fun step => and_congr_right fun hstep => ?_
      rw [Operation.normalize_cons_normalize (yields s step s' hstep).1]
  · rw [Operation.normalize_crud isCrud]
    refine (and_iff_left_of_imp ?_).symm
    rintro ⟨op', run, -⟩ refines
    exact (yields_refinesOrder refines (List.cons_ne_nil _ _) _ _ _ s op' s' run).2
  · have refused (earlier : Operation) (op' : Operation) :
        apply method (step :: earlier) arguments inner collection s ≠ .ok op' s' := by
      intro run
      rcases yields_apply arguments method inner collection (List.cons_ne_nil _ _) s op' s' run with
        isOpen | ⟨step, step', rest, heq, -, isCrud, -⟩
      · cases isOpen.2.symm.trans isTerminal
      · cases heq
        cases step with
        | insert | update | delete => cases isTerminal
        | _ => cases isCrud
    obtain ⟨earlier', heq⟩ := Operation.normalize_terminal isTerminal earlier
    rw [heq]
    simp [refused]

end Resolve

namespace MethodCall

/-- The work of a call on a query. -/
def resolve (c : MethodCall) (source : Operation) : Resolve Operation :=
  Resolve.call c.name source c.arguments (Node.firstQuery .step c.arguments)
    (Node.firstQuery .argument c.arguments)

/-- A call has the same effect on a query and on its normal form, up to the normal form, unless it
refines an order that the normal form hides. -/
theorem resolve_normalize_iff (c : MethodCall) {op : Operation} (built : op.Built) (s s' : Scope)
    (result : Operation) :
    (∃ op', c.resolve op.normalize s = .ok op' s' ∧ result = op'.normalize) ↔
      (∃ op', c.resolve op s = .ok op' s' ∧ result = op'.normalize) ∧
        (c.refinesOrder = true → op.normalize.isSorted = true) := by
  unfold resolve Resolve.call refinesOrder
  cases Method.ofName? c.name with
  | none =>
    have refused (op' : Operation) : (modify (fun s => { s with method := c.name }) >>= fun _ =>
        (Resolve.fail (ChainFault.unknownMethod c.name) : Resolve Operation)) s ≠ .ok op' s' := by
      intro run
      obtain ⟨_, _, -, failed⟩ := bind_eq_ok.1 run
      cases failed
    simp only [refused, false_and, exists_false]
  | some method => exact Resolve.apply_normalize_iff built method _ _ _ _ s' result

end MethodCall

/-! ### Chains call by call -/

/-- A call that is a step of its chain succeeds on what it is called on, under a name. -/
theorem ChainCall.resolve_step_eq_ok (c : ChainCall) {seed op : Operation} {s s' : Scope} :
    c.resolve .step seed s = .ok op s' ↔ c.method ≠ "" ∧
      (match c.receiver with
        | .identifier name => c.onName name seed
        | _ => c.onChain) s = .ok op s' := by
  have isStep : c.marksDefault .step = false := rfl
  rw [resolve, isStep, if_neg Bool.false_ne_true]
  by_cases unnamed : c.method = ""
  · rw [if_pos (String.isEmpty_iff.2 unnamed)]
    refine iff_of_false (fun run => ?_) (fun named => named.1 unnamed)
    cases run
  · rw [if_neg fun empty => unnamed (String.isEmpty_iff.1 empty)]
    exact (and_iff_right unnamed).symm

namespace Node

/-- A call on a chain is resolved after the chain. -/
theorem chain_withCall_eq_ok {receiver : Node} (h : receiver.IsCall) (c : MethodCall)
    {seed op : Operation} {s s' : Scope} :
    (receiver.withCall c).chain .step seed s = .ok op s' ↔ c.name ≠ "" ∧
      ∃ earlier t, receiver.chain .step seed s = .ok earlier t ∧ c.resolve earlier t = .ok op s' := by
  obtain ⟨callee, arguments, rfl⟩ := h
  unfold withCall
  rw [Node.chain, ChainCall.resolve_step_eq_ok]
  exact and_congr_right fun _ => bind_eq_ok

/-- A call on the query being extended. -/
theorem chain_planSeed_eq_ok (c : MethodCall) {seed op : Operation} (ne : seed ≠ []) {s s' : Scope} :
    ((Node.identifier planSeed).withCall c).chain .step seed s = .ok op s' ↔
      c.name ≠ "" ∧ c.resolve seed s = .ok op s' := by
  have seeded : seed.isEmpty = false := by simpa using ne
  unfold withCall
  rw [Node.chain, ChainCall.resolve_step_eq_ok]
  simp only [ChainCall.onName, if_true, seeded]
  rfl

end Node

namespace ParsedQuery

/-- Appending a call resolves it on the query so far. -/
theorem append_eq_ok {q q' : ParsedQuery} (ne : q.operation ≠ []) (c : MethodCall) :
    q.append c.name c.arguments = .ok q' ↔ c.name ≠ "" ∧
      ∃ op, c.resolve q.operation q.scope = .ok op q'.scope ∧ q'.operation = op.normalize := by
  have run (op : Operation) (s : Scope) :
      ((Node.identifier planSeed).withCall ⟨.identifier c.name, false, c.arguments⟩).chain .step
          q.operation q.scope = .ok op s ↔
        c.name ≠ "" ∧ c.resolve q.operation q.scope = .ok op s :=
    Node.chain_planSeed_eq_ok ⟨.identifier c.name, false, c.arguments⟩ ne
  unfold append
  constructor
  · intro h
    dsimp only at h
    split at h
    · rename_i op s hrun
      cases h
      obtain ⟨named, resolved⟩ := (run op s).1 hrun
      exact ⟨named, op, resolved, rfl⟩
    · cases h
  · rintro ⟨named, op, resolved, hop⟩
    have hrun := (run op q'.scope).2 ⟨named, resolved⟩
    dsimp only [Node.invoke, Node.dot, Node.withCall] at hrun ⊢
    rw [hrun]
    dsimp only
    rw [← hop]

end ParsedQuery

namespace BuilderForm

variable (form : BuilderForm) {body : Node}

/-- What is parsed can be extended further. -/
theorem parseQuery_ne_nil (h : body.IsCall) {q : ParsedQuery}
    (parsed : (form.build body).parseQuery = .ok q) : q.operation ≠ [] := by
  obtain ⟨start, op, -, hop, hq⟩ := (form.parseQuery_eq_ok h).1 parsed
  have built : op.Built := Node.built_chain [] (.inl rfl) body .step start op q.scope hop
  rw [hq]
  exact built.normalize_ne_nil

/-- Parsing a builder with one more call extends the query of the builder, unless the call refines an
order that is no longer to be seen. -/
theorem parseQuery_withCall (h : body.IsCall) (c : MethodCall) {q q' : ParsedQuery}
    (parsed : (form.build body).parseQuery = .ok q) :
    q.append c.name c.arguments = .ok q' ↔
      (form.build (body.withCall c)).parseQuery = .ok q' ∧
        (c.refinesOrder = true → q.operation.isSorted = true) := by
  obtain ⟨start, op, hstart, hop, hq⟩ := (form.parseQuery_eq_ok h).1 parsed
  have built : op.Built := Node.built_chain [] (.inl rfl) body .step start op q.scope hop
  have whole : (form.build (body.withCall c)).parseQuery = .ok q' ↔
      c.name ≠ "" ∧ ∃ op', c.resolve op q.scope = .ok op' q'.scope ∧ q'.operation = op'.normalize := by
    rw [form.parseQuery_eq_ok (body.isCall_withCall c)]
    constructor
    · rintro ⟨start', op', hstart', hrun, hop'⟩
      obtain ⟨named, earlier, t, hearlier, hresolve⟩ := (Node.chain_withCall_eq_ok h c).1 hrun
      cases hstart.symm.trans hstart'
      cases hop.symm.trans hearlier
      exact ⟨named, op', hresolve, hop'⟩
    · rintro ⟨named, op', hresolve, hop'⟩
      exact ⟨start, op', hstart,
        (Node.chain_withCall_eq_ok h c).2 ⟨named, op, q.scope, hop, hresolve⟩, hop'⟩
  rw [ParsedQuery.append_eq_ok (form.parseQuery_ne_nil h parsed), whole, hq,
    c.resolve_normalize_iff built, and_assoc]

/-- A builder is parsed only if it can be cut before its last call. -/
theorem parseQuery_of_withCall (h : body.IsCall) (c : MethodCall) {q' : ParsedQuery}
    (parsed : (form.build (body.withCall c)).parseQuery = .ok q') :
    ∃ q, (form.build body).parseQuery = .ok q := by
  obtain ⟨start, op, hstart, hrun, -⟩ := (form.parseQuery_eq_ok (body.isCall_withCall c)).1 parsed
  obtain ⟨-, earlier, t, hearlier, -⟩ := (Node.chain_withCall_eq_ok h c).1 hrun
  exact ⟨⟨earlier.normalize, t⟩, (form.parseQuery_eq_ok h).2 ⟨start, earlier, hstart, hearlier, rfl⟩⟩

/-- A parsed query is in normal form, so the plan that starts from it is the query itself. -/
theorem ofQuery_parseQuery (h : body.IsCall) {q : ParsedQuery}
    (parsed : (form.build body).parseQuery = .ok q) (schema : Schema) :
    PlanState.ofQuery q schema = ⟨q, schema⟩ := by
  obtain ⟨start, op, -, -, hq⟩ := (form.parseQuery_eq_ok h).1 parsed
  unfold PlanState.ofQuery
  rw [hq, Operation.normalize_normalize, ← hq]

end BuilderForm

namespace PlanState

theorem appendAll_concat (state : PlanState) (calls : List MethodCall) (c : MethodCall) :
    state.appendAll (calls ++ [c]) =
      state.appendAll calls >>= fun state => state.append c.name c.arguments := by
  unfold appendAll
  rw [List.foldlM_append]
  refine congrArg (_ >>= ·) (funext fun state => ?_)
  rw [List.foldlM_cons]
  simp only [List.foldlM_nil, bind_pure]

theorem append_eq_ok {state state' : PlanState} {method : String} {arguments : List Node} :
    state.append method arguments = .ok state' ↔
      state'.schema = state.schema ∧ state.query.append method arguments = .ok state'.query := by
  unfold append
  rw [outcome_bind_eq_ok]
  constructor
  · rintro ⟨query, hquery, heq⟩
    cases heq
    exact ⟨rfl, hquery⟩
  · rintro ⟨hschema, hquery⟩
    refine ⟨state'.query, hquery, ?_⟩
    rw [← hschema]
    rfl

end PlanState

/-- In a builder that is cut after the calls `before`, every later call that refines an order finds
one in the normal form of what precedes it. -/
def BuilderForm.ShowsOrders (form : BuilderForm) (root : Node) (before after : List MethodCall) :
    Prop :=
  ∀ between call rest, after = between ++ call :: rest → call.refinesOrder = true →
    ∀ q, (form.build (root.withCalls (before ++ between))).parseQuery = .ok q →
      q.operation.isSorted = true

theorem BuilderForm.showsOrders_concat (form : BuilderForm) (root : Node)
    (before after : List MethodCall) (c : MethodCall) :
    form.ShowsOrders root before (after ++ [c]) ↔ form.ShowsOrders root before after ∧
      (c.refinesOrder = true → ∀ q,
        (form.build (root.withCalls (before ++ after))).parseQuery = .ok q →
          q.operation.isSorted = true) := by
  constructor
  · intro h
    refine ⟨fun between call rest heq => h between call (rest ++ [c]) (by simp [heq]), ?_⟩
    exact h after c [] rfl
  · rintro ⟨earlier, last⟩ between call rest heq
    rcases List.eq_nil_or_concat rest with rfl | ⟨rest, d, rfl⟩
    · obtain ⟨rfl, hcall⟩ := List.append_inj' heq rfl
      cases hcall
      exact last
    · have heq : after ++ [c] = (between ++ call :: rest) ++ [d] := by simpa using heq
      exact earlier between call rest (List.append_inj' heq rfl).1

/-- A plan that starts from a builder cut at any place and grows by the remaining calls is the plan
of the whole builder, if every call that refines an order finds it; otherwise it fails.  Apart from
that it fails exactly if the whole builder does. -/
theorem BuilderForm.incremental_parse_iff (form : BuilderForm) (callee : Node)
    (rootArguments : List Node) (before after : List MethodCall) (schema : Schema)
    (state : PlanState) :
    ((form.build ((Node.call callee rootArguments).withCalls before)).parseQuery >>= fun q =>
        (PlanState.ofQuery q schema).appendAll after) = .ok state ↔
      (form.build ((Node.call callee rootArguments).withCalls (before ++ after))).parseQuery =
          .ok state.query ∧ state.schema = schema ∧
        form.ShowsOrders (.call callee rootArguments) before after := by
  have isCall (calls : List MethodCall) :
      ((Node.call callee rootArguments).withCalls calls).IsCall :=
    Node.isCall_withCalls ⟨_, _, rfl⟩ calls
  -- Both sides fail at the same call: the induction adds the last one.
  induction after using List.reverseRecOn generalizing state with
  | nil =>
    rw [List.append_nil, outcome_bind_eq_ok]
    constructor
    · rintro ⟨q, parsed, heq⟩
      rw [form.ofQuery_parseQuery (isCall before) parsed] at heq
      cases heq
      refine ⟨parsed, rfl, fun between call rest absurd => ?_⟩
      cases between <;> cases absurd
    · rintro ⟨parsed, rfl, -⟩
      refine ⟨state.query, parsed, ?_⟩
      rw [form.ofQuery_parseQuery (isCall before) parsed]
      rfl
  | append_singleton after c ih =>
    simp only [PlanState.appendAll_concat, ← bind_assoc]
    rw [outcome_bind_eq_ok, form.showsOrders_concat, ← List.append_assoc, Node.withCalls_concat]
    constructor
    · rintro ⟨mid, hmid, happend⟩
      obtain ⟨parsed, hschema, shows⟩ := (ih mid).1 hmid
      obtain ⟨hschema', hquery⟩ := PlanState.append_eq_ok.1 happend
      obtain ⟨whole, sorted⟩ := (form.parseQuery_withCall (isCall _) c parsed).1 hquery
      refine ⟨whole, hschema'.trans hschema, shows, fun refines q hq => ?_⟩
      cases parsed.symm.trans hq
      exact sorted refines
    · rintro ⟨whole, hschema, shows, last⟩
      obtain ⟨q, parsed⟩ := form.parseQuery_of_withCall (isCall _) c whole
      refine ⟨⟨q, schema⟩, (ih ⟨q, schema⟩).2 ⟨parsed, rfl, shows⟩, ?_⟩
      refine PlanState.append_eq_ok.2 ⟨hschema, ?_⟩
      exact (form.parseQuery_withCall (isCall _) c parsed).2
        ⟨whole, fun refines => last refines q parsed⟩

/-- `row => row.column` -/
def columnOfRow (column : String) : Node :=
  .arrow ["row"] ((Node.identifier "row").dot column)

/-- `.method(argument)` -/
def MethodCall.of (method : String) (argument : Node) : MethodCall :=
  ⟨.identifier method, false, [argument]⟩

/-- `q.from("users")` -/
def fromUsers : Node :=
  (Node.identifier "q").invoke "from" [.literal (.str "users")]

/-- The users by name, numbered by their ids, that have the number `p.n`. -/
def numberedUsers : List MethodCall :=
  [.of "orderBy" (columnOfRow "name"),
    .of "select" (.arrow ["row"] (.object
      [.named "id" ((Node.identifier "row").dot "id") false,
        .named "number" ((((Node.identifier "h").invoke "window" [.identifier "row"]).invoke "orderBy"
          [columnOfRow "id"]).invoke "rowNumber" []) false])),
    .of "where" (.arrow ["row"]
      (.binary "===" ((Node.identifier "row").dot "number") ((Node.identifier "p").dot "n")))]

/-- The `orderBy` of a plan that filters window results is in a derived table, so that `thenBy` does
not find it; in one piece the same calls are a query. -/
theorem incremental_parse_misses_order :
    ((BuilderForm.lambda ["q", "p", "h"]).build
        (fromUsers.withCalls (numberedUsers ++ [.of "thenBy" (columnOfRow "id")]))).parseQuery.isOk =
          true ∧
      (((BuilderForm.lambda ["q", "p", "h"]).build
          (fromUsers.withCalls numberedUsers)).parseQuery >>= fun q =>
        (PlanState.ofQuery q {}).appendAll [.of "thenBy" (columnOfRow "id")]) =
          .error ⟨ChainFault.thenByFirst "thenBy", ⟨"select", "users", "thenBy"⟩⟩ := by
  constructor
  · decide +kernel
  · rfl

end FluentQuery
