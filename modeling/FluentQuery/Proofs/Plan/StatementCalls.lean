import FluentQuery.Plan.Handle
import FluentQuery.Proofs.Plan.Incremental
import FluentQuery.Proofs.Resolve.SoundChains

/-!
# Calls on a statement that changes rows

Each method of an INSERT, UPDATE or DELETE fills in one part of it, and most parts are filled in once
only: `Step.Next` lists what the methods do.  Whatever call succeeds on such a statement does one of
these things (`Step.next_of_resolve`), and a builder starts a new statement at its root and makes its
calls on it (`Node.called_of_chain`).
-/

namespace FluentQuery

set_option autoImplicit false

/-- The method that a call is one of, if there is one of its name. -/
def MethodCall.method? (c : MethodCall) : Option Method :=
  Method.ofName? c.name

/-! ### What methods do -/

/-- What a method makes of an INSERT. -/
inductive InsertStatement.Next (s : InsertStatement) : Method → InsertStatement → Prop
  | values {assigned : Assignments} (first : s.values = none) (given : assigned ≠ []) :
      Next s .values { s with values := some assigned }
  | onConflict (target : List String) (assigns : s.values ≠ none) (first : s.onConflict = none) :
      Next s .onConflict { s with onConflict := some { target } }
  | doNothing {conflict : OnConflict} (clause : s.onConflict = some conflict)
      (first : conflict.action = .none) :
      Next s .doNothing { s with onConflict := some { conflict with action := .nothing } }
  | doUpdateSet {conflict : OnConflict} {assigned : Assignments} (clause : s.onConflict = some conflict)
      (first : conflict.action = .none) (given : assigned ≠ []) :
      Next s .doUpdateSet
        { s with onConflict := some { conflict with action := .update, assignments := some assigned } }
  | returning {selector : Expr} (assigns : s.values ≠ none) (there : selector ≠ .absent) :
      Next s .returning { s with returning := selector }

/-- What a method makes of an UPDATE. -/
inductive UpdateStatement.Next (s : UpdateStatement) : Method → UpdateStatement → Prop
  | set {assigned : Assignments} (first : s.assignments = none) (given : assigned ≠ []) :
      Next s .set { s with assignments := some assigned }
  | filter {condition : Expr} (isBoolean : condition.isBoolean = true) :
      Next s .filter { s with predicate := Expr.conj s.predicate condition }
  | allow : Next s .allowFullTableUpdate { s with allowFullTable := true }
  | returning {selector : Expr} (there : selector ≠ .absent) :
      Next s .returning { s with returning := selector }

/-- What a method makes of a DELETE. -/
inductive DeleteStatement.Next (s : DeleteStatement) : Method → DeleteStatement → Prop
  | filter {condition : Expr} (isBoolean : condition.isBoolean = true) :
      Next s .filter { s with predicate := Expr.conj s.predicate condition }
  | allow : Next s .allowFullTableDelete { s with allowFullTable := true }

/-- What a method makes of a statement, which stays one of its kind. -/
inductive Step.Next (method : Method) : Step → Step → Prop
  | insert {s s' : InsertStatement} (next : s.Next method s') : Next method (.insert s) (.insert s')
  | update {s s' : UpdateStatement} (next : s.Next method s') : Next method (.update s) (.update s')
  | delete {s s' : DeleteStatement} (next : s.Next method s') : Next method (.delete s) (.delete s')

theorem Step.Next.isCrud {method : Method} {step step' : Step} (next : step.Next method step') :
    step.isCrud = true ∧ step'.isCrud = true := by
  cases next <;> exact ⟨rfl, rfl⟩

/-! ### One call -/

namespace Resolve

open FluentQuery.Expr (formative_trivial aggregating_trivial)

variable {α : Type} {post : α → Prop}

theorem yields_rowPredicate (argument : Node) :
    Yields (fun condition => condition.isBoolean = true) (rowPredicate argument) := by
  have forms : Forms (fun _ => True) (Expr.FormedTest fun _ => True) (rowPredicate argument) := by
    refine .get fun _ _ => ?_
    refine (argument.forms_resolveLambda formative_trivial _ _ _
      (forms_bindRowParams aggregating_trivial)).bind ?_
    exact fun _ formed => forms_predicate formative_trivial formed.2
  exact fun s e s' run => (forms.yields s e s' run).1

theorem yields_returningSelector (arguments : List Node) :
    Yields (fun selector => selector ≠ .absent) (returningSelector arguments) := by
  unfold returningSelector
  split
  · have forms := Node.forms_resolveLambda formative_trivial ‹Node› false "returning" bindTableParam
      forms_bindTableParam
    exact fun s e s' run => (forms.yields s e s' run).1
  · exact .failArguments

/-- A conflict clause that lacks its action. -/
theorem yields_openConflict (s : InsertStatement) :
    Yields (fun conflict => s.onConflict = some conflict ∧ conflict.action = .none)
      (openConflict s) := by
  unfold openConflict
  split
  · exact .bind fun _ => .fail
  · rename_i conflict clause
    split
    · exact .pure ⟨clause, ‹_›⟩
    · exact .fail

/-- A check that may fail before the work goes on, which can rely on it. -/
theorem Yields.guard {c : Prop} [Decidable c] {fault : Fault} {next : PUnit → Resolve α}
    (rest : ¬ c → Yields post (next ⟨⟩)) :
    Yields post (if c then Resolve.fail fault >>= next else next ⟨⟩) := by
  split
  · have never : Yields (fun _ => False) (Resolve.fail fault : Resolve PUnit) := .fail
    exact never.bind_of fun _ => False.elim
  · exact rest ‹_›

section

variable (arguments : List Node) (inner collection : Resolve Operation)

/-- A method of a SELECT refuses a statement that changes rows. -/
theorem Yields.refused {step : Step} (isCrud : step.isCrud = true)
    {next : Unit → Resolve Operation} {post : Operation → Prop} :
    Yields post (requireSelect [step] >>= next) :=
  (yields_requireSelect (List.cons_ne_nil _ _)).bind_of fun _ isOpen => by
    cases isOpen.1.symm.trans isCrud

/-- A method of another statement refuses this one. -/
theorem Yields.otherStatement {β : Type} {statement : String} {next : β → Resolve α} :
    Yields post (Resolve.failStatement statement >>= next) := by
  have never : Yields (fun _ => False) (Resolve.failStatement statement : Resolve β) := .failStatement
  exact never.bind_of fun _ => False.elim

theorem next_of_insert (s : InsertStatement) (method : Method) :
    Yields (fun op => ∃ s', op = [.insert s'] ∧ s.Next method s')
      (apply method [.insert s] arguments inner collection) := by
  have accepts {next : InsertStatement × Operation → Resolve Operation} {post : Operation → Prop}
      (rest : Yields post (next (s, []))) : Yields post (requireInsert [.insert s] >>= next) := rest
  have assigns (h : ¬ s.values.isNone = true) : s.values ≠ none := by simpa using h
  cases method with
  | filter =>
    match arguments with
    | [argument] => exact .refused rfl
    | [] | _ :: _ :: _ => exact .failArguments
  | select | groupBy | sort | page | distinct | reverse | join | groupJoin | selectMany
  | defaultIfEmpty | terminal | contains | aggregate => exact .refused rfl
  | values =>
    refine accepts ?_
    dsimp only
    split
    · refine .guard fun first => .bind fun assigned => .guard fun given => .pure ⟨_, rfl, ?_⟩
      exact .values (by simpa using first) (by simpa using given)
    · exact .failArguments
  | onConflict =>
    refine accepts (.check fun _ => .guard fun given => .guard fun first => ?_)
    refine .bind fun target => .pure ⟨_, rfl, ?_⟩
    exact .onConflict target (assigns given) (by simpa using first)
  | doNothing =>
    refine accepts (.check fun _ => (yields_openConflict s).bind_of fun conflict opened => ?_)
    exact .pure ⟨_, rfl, .doNothing opened.1 opened.2⟩
  | doUpdateSet =>
    refine accepts ?_
    dsimp only
    split
    · refine (yields_openConflict s).bind_of fun conflict opened => .bind fun assigned => ?_
      exact .guard fun given => .pure
        ⟨_, rfl, .doUpdateSet opened.1 opened.2 (by simpa using given)⟩
    · exact .failArguments
  | returning =>
    unfold apply returning
    refine .guard fun given => (yields_returningSelector arguments).bind_of fun selector there => ?_
    exact .pure ⟨_, rfl, .returning (assigns given) there⟩
  | set | allowFullTableUpdate | allowFullTableDelete => exact .otherStatement

theorem next_of_update (s : UpdateStatement) (method : Method) :
    Yields (fun op => ∃ s', op = [.update s'] ∧ s.Next method s')
      (apply method [.update s] arguments inner collection) := by
  have accepts {next : UpdateStatement × Operation → Resolve Operation} {post : Operation → Prop}
      (rest : Yields post (next (s, []))) : Yields post (requireUpdate [.update s] >>= next) := rest
  cases method with
  | filter =>
    match arguments with
    | [argument] =>
      refine (yields_rowPredicate argument).bind_of fun condition isBoolean => ?_
      exact .pure ⟨_, rfl, .filter isBoolean⟩
    | [] | _ :: _ :: _ => exact .failArguments
  | select | groupBy | sort | page | distinct | reverse | join | groupJoin | selectMany
  | defaultIfEmpty | terminal | contains | aggregate => exact .refused rfl
  | returning =>
    refine (yields_returningSelector arguments).bind_of fun selector there => ?_
    exact .pure ⟨_, rfl, .returning there⟩
  | set =>
    refine accepts ?_
    dsimp only
    split
    · refine .guard fun first => .bind fun assigned => .guard fun given => .pure ⟨_, rfl, ?_⟩
      exact .set (by simpa using first) (by simpa using given)
    · exact .failArguments
  | allowFullTableUpdate => exact accepts (.check fun _ => .pure ⟨_, rfl, .allow⟩)
  | values | onConflict | doNothing | doUpdateSet | allowFullTableDelete => exact .otherStatement

theorem next_of_delete (s : DeleteStatement) (method : Method) :
    Yields (fun op => ∃ s', op = [.delete s'] ∧ s.Next method s')
      (apply method [.delete s] arguments inner collection) := by
  have accepts {next : DeleteStatement × Operation → Resolve Operation} {post : Operation → Prop}
      (rest : Yields post (next (s, []))) : Yields post (requireDelete [.delete s] >>= next) := rest
  cases method with
  | filter =>
    match arguments with
    | [argument] =>
      refine (yields_rowPredicate argument).bind_of fun condition isBoolean => ?_
      exact .pure ⟨_, rfl, .filter isBoolean⟩
    | [] | _ :: _ :: _ => exact .failArguments
  | select | groupBy | sort | page | distinct | reverse | join | groupJoin | selectMany
  | defaultIfEmpty | terminal | contains | aggregate => exact .refused rfl
  | returning => exact .fail
  | allowFullTableDelete => exact accepts (.check fun _ => .pure ⟨_, rfl, .allow⟩)
  | values | onConflict | doNothing | doUpdateSet | set | allowFullTableUpdate =>
    exact .otherStatement

end

end Resolve

/-- A call is one of a method, which finds the scope as it was left. -/
theorem MethodCall.method_of_resolve {c : MethodCall} {source op : Operation} {s t : Scope}
    (run : c.resolve source s = .ok op t) : ∃ method, c.method? = some method ∧
      Resolve.apply method source c.arguments (Node.firstQuery .step c.arguments)
        (Node.firstQuery .argument c.arguments) { s with method := c.name } = .ok op t := by
  unfold resolve Resolve.call at run
  unfold method?
  cases found : Method.ofName? c.name with
  | none =>
    rw [found] at run
    cases run
  | some method =>
    rw [found] at run
    exact ⟨method, rfl, run⟩

/-- Whatever is called on a statement, it stays a single statement of its kind, changed as the method
says. -/
theorem Step.next_of_resolve {c : MethodCall} {step : Step} {op : Operation} {s t : Scope}
    (isCrud : step.isCrud = true) (run : c.resolve [step] s = .ok op t) :
    ∃ method step', c.method? = some method ∧ op = [step'] ∧ step.Next method step' := by
  obtain ⟨method, called, run⟩ := c.method_of_resolve run
  cases step with
  | insert statement =>
    obtain ⟨s', rfl, next⟩ := Resolve.next_of_insert _ _ _ statement method _ _ _ run
    exact ⟨method, _, called, rfl, .insert next⟩
  | update statement =>
    obtain ⟨s', rfl, next⟩ := Resolve.next_of_update _ _ _ statement method _ _ _ run
    exact ⟨method, _, called, rfl, .update next⟩
  | delete statement =>
    obtain ⟨s', rfl, next⟩ := Resolve.next_of_delete _ _ _ statement method _ _ _ run
    exact ⟨method, _, called, rfl, .delete next⟩
  | _ => cases isCrud

/-- A call that leaves a single statement was made on one. -/
theorem MethodCall.statement_of_resolve {c : MethodCall} {source : Operation} {s t : Scope}
    {step : Step} (built : source.Built) (run : c.resolve source s = .ok [step] t) :
    ∃ before, source = [before] ∧ before.isCrud = true := by
  obtain ⟨method, -, run⟩ := c.method_of_resolve run
  rcases Resolve.yields_apply _ method _ _ built.ne_nil _ _ _ run with
    isOpen | ⟨before, after, rest, rfl, same, isStatement, -⟩
  · -- A chain that is still open is kept by what is called on it, so it cannot leave a single step.
    have known (other : Operation) (same : other = source) (_ : method.refinesOrder = true) :
        other.isSorted = source.isSorted := by rw [same]
    obtain ⟨work, -, extended⟩ := Resolve.extends_apply c.arguments method
      (Node.firstQuery .step c.arguments) (Node.firstQuery .argument c.arguments) source.isSorted known
    have extended : Resolve.apply method source c.arguments (Node.firstQuery .step c.arguments)
      (Node.firstQuery .argument c.arguments) = (· :: source) <$> work := extended source isOpen rfl
    rw [extended, map_eq_pure_bind] at run
    obtain ⟨added, _, -, run⟩ := bind_eq_ok.1 run
    cases run
    exact absurd rfl built.ne_nil
  · obtain ⟨-, rfl⟩ := List.cons.inj same
    exact ⟨before, rfl, isStatement⟩

/-- A call that extends the plan of a statement is a call on the statement. -/
theorem PlanState.statement_of_append {state state' : PlanState} {step : Step} {c : MethodCall}
    (isCrud : step.isCrud = true) (operation : state.operation = [step])
    (run : state.append c.name c.arguments = .ok state') : state'.schema = state.schema ∧
      ∃ step', c.resolve [step] state.query.scope = .ok [step'] state'.query.scope ∧
        state'.operation = [step'] := by
  obtain ⟨schema, run⟩ := append_eq_ok.1 run
  have operation : state.query.operation = [step] := operation
  have ne : state.query.operation ≠ [] := by simp [operation]
  obtain ⟨-, op, resolved, same⟩ := (ParsedQuery.append_eq_ok ne c).1 run
  rw [operation] at resolved
  obtain ⟨_, step', -, rfl, next⟩ := Step.next_of_resolve isCrud resolved
  exact ⟨schema, step', resolved, same.trans (Operation.normalize_crud next.isCrud.2)⟩

/-! ### Builders -/

/-- A statement after a number of calls. -/
inductive Step.Called (first : Step) (start : Scope) : List MethodCall → Step → Scope → Prop
  | nil : Called first start [] first start
  | call {calls : List MethodCall} {step step' : Step} {s t : Scope} {c : MethodCall}
      (before : Called first start calls step s) (run : c.resolve [step] s = .ok [step'] t) :
      Called first start (calls ++ [c]) step' t

/-- A statement stays one, whatever is called on it. -/
theorem Step.Called.isCrud {first step : Step} {start s : Scope} {calls : List MethodCall}
    (called : first.Called start calls step s) (isCrud : first.isCrud = true) :
    step.isCrud = true := by
  induction called with
  | nil => exact isCrud
  | call _ run ih =>
    obtain ⟨method, step', -, same, next⟩ := Step.next_of_resolve ih run
    cases same
    exact next.isCrud.2

/-- A statement that has just been started at the root of a chain. -/
def Step.IsStarted (step : Step) : Prop :=
  step.isCrud = true ∧ ∃ method schema table, step = RootMethod.step method schema table

namespace Node

/-- The calls that a builder chains on its root. -/
def methodCalls : Node → List MethodCall
  | .arrow _ (.block [.returnStatement (some value)]) => value.methodCalls
  | .arrow _ body => body.methodCalls
  | .call (.member (.identifier _) _ _) _ => []
  | .call (.member receiver property computed) arguments =>
    receiver.methodCalls ++ [⟨property, computed, arguments⟩]
  | _ => []

/-- The root that a builder starts from. -/
def root : Node → Node
  | .arrow _ (.block [.returnStatement (some value)]) => value.root
  | .arrow _ body => body.root
  | .call (.member (.identifier name) property computed) arguments =>
    .call (.member (.identifier name) property computed) arguments
  | .call (.member receiver _ _) _ => receiver.root
  | node => node

end Node

/-- The root of a statement that changes rows starts a new one. -/
theorem Resolve.started_of_root (method : RootMethod) (arguments : List Node)
    (subquery : Resolve Operation) :
    Yields (fun op => ∀ step, op = [step] → step.isCrud = true → step.IsStarted)
      (root method arguments subquery) := by
  have rest (isSubquery : Bool) :
      Yields (fun op => ∀ step, op = [step] → step.isCrud = true → step.IsStarted)
        (if isSubquery then do
          let op ← subquery
          startStatement "select" ""
          return [.fromSource "" "" op ""]
        else do
          let name ← tableArguments method.name arguments
          startStatement method.statement name.2
          return [method.step name.1 name.2]) := by
    split
    · refine .bind fun _ => .bind fun _ => .pure ?_
      rintro step ⟨⟩ ⟨⟩
    · refine .bind fun name => .bind fun _ => .pure ?_
      rintro step ⟨⟩ isCrud
      exact ⟨isCrud, method, name.1, name.2, rfl⟩
  refine .bind fun _ => ?_
  dsimp only
  split
  · exact .bind fun _ => rest _
  · exact rest _

namespace Node

/-- A call on a name is a root. -/
theorem started_of_onName (c : ChainCall) {name : String} {s t : Scope} {step : Step}
    (isCrud : step.isCrud = true) (run : c.onName name [] s = .ok [step] t) : step.IsStarted := by
  have yields : Resolve.Yields (fun op => ∀ step, op = [step] → step.isCrud = true → step.IsStarted)
      (c.onName name []) := by
    refine .bind fun s => ?_
    dsimp only
    split
    · exact .fail
    · split
      · split
        · exact Resolve.started_of_root _ _ _
        · exact .fail
      · exact .fail
  exact yields s _ t run step rfl isCrud

theorem started_of_functionCall {name : String} {arguments : List Node} {inner : Resolve Operation}
    {s t : Scope} {step : Step} (isCrud : step.isCrud = true)
    (run : Resolve.functionCall name arguments inner s = .ok [step] t) : step.IsStarted := by
  have yields : Resolve.Yields (fun op => ∀ step, op = [step] → step.isCrud = true → step.IsStarted)
      (Resolve.functionCall name arguments inner) := by
    unfold Resolve.functionCall
    split
    · exact Resolve.started_of_root _ _ _
    · exact .fail
  exact yields s _ t run step rfl isCrud

/-- Whatever else a lambda has as its body is the chain itself. -/
theorem chain_of_lambda {params : List String} {body : Node} {s t : Scope} {op : Operation}
    (other : ∀ value, body = .block [.returnStatement (some value)] → False)
    (run : (Node.arrow params body).chain .step [] s = .ok op t) :
    body.chain .step [] s = .ok op t := by
  cases body with
  | block statements =>
    by_cases empty : statements = [.returnStatement none]
    · rw [empty, Node.chain] at run
      cases run
    · rw [Node.chain] at run
      · cases run
      · rintro value rfl
        exact other value rfl
      · exact empty
  | _ => exact run

/-- A builder of a statement that changes rows starts a new one and makes its calls on it. -/
theorem called_of_chain (node : Node) {s t : Scope} {step : Step} (isCrud : step.isCrud = true)
    (run : node.chain .step [] s = .ok [step] t) : ∃ first start, first.IsStarted ∧
      node.root.chain .step [] s = .ok [first] start ∧ first.Called start node.methodCalls step t := by
  -- The calls are taken off the chain from its end, where the last one was made.
  fun_induction methodCalls node generalizing t step with
  | case1 params value ih =>
    rw [root]
    exact ih isCrud run
  | case2 params body other ih =>
    rw [root]
    · exact ih isCrud (chain_of_lambda other run)
    · exact other
  | case3 name property computed arguments =>
    rw [Node.chain, ChainCall.resolve_step_eq_ok] at run
    have new := started_of_onName _ isCrud run.2
    refine ⟨step, t, new, ?_, .nil⟩
    rw [root, Node.chain, ChainCall.resolve_step_eq_ok]
    exact run
  | case4 receiver property computed arguments other ih =>
    rw [Node.chain, ChainCall.resolve_step_eq_ok] at run
    obtain ⟨-, run⟩ := run
    dsimp only at run
    split at run
    · exact (other _ rfl).elim
    · obtain ⟨earlier, u, hearlier, resolved⟩ := bind_eq_ok.1 run
      have built := built_chain [] (.inl rfl) receiver .step s earlier u hearlier
      have resolved : MethodCall.resolve ⟨property, computed, arguments⟩ earlier u =
        .ok [step] t := resolved
      obtain ⟨before, rfl, isStatement⟩ := MethodCall.statement_of_resolve built resolved
      obtain ⟨first, start, new, hroot, called⟩ := ih isStatement hearlier
      refine ⟨first, start, new, ?_, called.call resolved⟩
      rwa [root]
      exact other
  | case5 node lambdas lambda names calls =>
    have isRoot : node.root = node := by
      rw [root] <;> assumption
    refine ⟨step, t, ?_, by rwa [isRoot], .nil⟩
    cases node with
    | call callee arguments =>
      cases callee with
      | identifier name => exact started_of_functionCall isCrud run
      | member => exact (calls _ _ _ _ rfl).elim
      | _ => cases run
    | arrow => exact (lambda _ _ rfl).elim
    | _ => cases run

end Node

/-- The normal form of a query is a statement that changes rows only if it is one. -/
theorem Operation.eq_statement_of_normalize {op rest : Operation} {step : Step} (built : op.Built)
    (isCrud : step.isCrud = true) (h : op.normalize = step :: rest) : op = [step] := by
  rcases built.kind with isOpen | ⟨statement, rfl, isStatement⟩ | ⟨last, earlier, rfl, isTerminal⟩
  · have isOpen' := built.isOpen_normalize isOpen
    rw [h] at isOpen'
    cases isOpen'.1.symm.trans isCrud
  · rw [normalize_crud isStatement] at h
    rw [(List.cons.inj h).1]
  · obtain ⟨earlier', normal⟩ := normalize_terminal isTerminal earlier
    rw [normal] at h
    rw [(List.cons.inj h).1] at isTerminal
    cases step <;> (try cases isTerminal) <;> cases isCrud

/-- A query-building function of a statement that changes rows starts a new one at its root and makes
its calls on it. -/
theorem Node.called_of_parse {builder : Node} {query : ParsedQuery} {step : Step} {rest : Operation}
    (parsed : builder.parseQuery = .ok query) (schema : Schema) (isCrud : step.isCrud = true)
    (operation : (PlanState.ofQuery query schema).operation = step :: rest) :
    (PlanState.ofQuery query schema).operation = [step] ∧ ∃ scope first start,
      builder.rootScope = .ok scope ∧ first.IsStarted ∧
        builder.root.chain .step [] scope = .ok [first] start ∧
          first.Called start builder.methodCalls step query.scope := by
  obtain ⟨scope, hscope, parsed⟩ := outcome_bind_eq_ok.1 parsed
  split at parsed
  · rename_i op t run
    cases parsed
    have built := built_chain [] (.inl rfl) builder .step scope op t run
    have normal : op.normalize.normalize = step :: rest := operation
    rw [Operation.normalize_normalize] at normal
    obtain rfl := Operation.eq_statement_of_normalize built isCrud normal
    obtain ⟨first, start, started, root, called⟩ := builder.called_of_chain isCrud run
    refine ⟨?_, scope, first, start, hscope, started, root, called⟩
    exact (Operation.normalize_normalize _).trans (Operation.normalize_crud isCrud)
  · cases parsed

end FluentQuery
