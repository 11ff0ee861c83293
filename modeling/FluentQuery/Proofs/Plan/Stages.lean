import FluentQuery.Proofs.Plan.Origins

/-!
# The stages of statements that change rows

A handle says by its stage which methods it has, and the statement that it holds has a stage of its
own, read off the parts that are filled in.  The handles of one query-building function start at the
stage of its statement, and every method moves both along together
(`stages_follow_statements`), because a method fills in what the stage before it lacks
(`InsertStatement.IsAt.goes`, `UpdateStatement.IsAt.goes`, `DeleteStatement.IsAt.goes`).
-/

namespace FluentQuery

set_option autoImplicit false

/-! ### The stages of an INSERT -/

namespace Expr

theorem not_isAbsent {e : Expr} : (!e.isAbsent) = true ↔ e ≠ .absent := by
  cases e <;> simp [isAbsent]

/-- A condition that a test was added to is there. -/
theorem conj_ne_absent_of_isBoolean (e : Expr) {test : Expr} (isBoolean : test.isBoolean = true) :
    conj e test ≠ .absent :=
  conj_ne_absent_right (ne_absent_of_isBoolean isBoolean)

end Expr

theorem hasAssignments_of_ne_nil {assigned : Assignments} (given : assigned ≠ []) :
    hasAssignments (some assigned) = true := by
  cases assigned with
  | nil => exact absurd rfl given
  | cons => rfl

/-- The stages that the methods of an INSERT lead from and to. -/
inductive InsertStage.Goes : InsertStage → Method → InsertStage → Prop
  | values : Goes .initial .values .withValues
  | onConflict : Goes .withValues .onConflict .withConflictTarget
  | returning : Goes .withValues .returning .withReturning
  | doNothing : Goes .withConflictTarget .doNothing .withValues
  | doUpdateSet : Goes .withConflictTarget .doUpdateSet .withValues

theorem InsertStage.goes_of_next {stage stage' : InsertStage} {name : String} {method : Method}
    {arguments : Nat} (called : Method.ofName? name = some method)
    (next : Handle.insertNext? stage name arguments = some stage') :
    stage.Goes method stage' := by
  unfold Handle.insertNext? at next
  split at next <;> cases next <;> cases called <;> constructor

namespace InsertStatement

/-- A part that has been filled in holds something, and the values come before what is done about
conflicts and what is returned. -/
structure Ordered (s : InsertStatement) : Prop where
  given : s.values ≠ some []
  assigns : s.onConflict ≠ none → s.values ≠ none
  returns : s.returning ≠ .absent → s.values ≠ none

/-- What each stage says about the parts of an INSERT. -/
inductive IsAt (s : InsertStatement) : InsertStage → Prop
  | initial (plain : s.returning = .absent)
      (settled : ∀ conflict, s.onConflict = some conflict → conflict.action ≠ .none)
      (bare : hasAssignments s.values = false) : IsAt s .initial
  | withValues (plain : s.returning = .absent)
      (settled : ∀ conflict, s.onConflict = some conflict → conflict.action ≠ .none)
      (assigns : hasAssignments s.values = true) : IsAt s .withValues
  | withConflictTarget {conflict : OnConflict} (plain : s.returning = .absent)
      (clause : s.onConflict = some conflict) (lacks : conflict.action = .none) :
      IsAt s .withConflictTarget
  | withReturning (there : s.returning ≠ .absent) : IsAt s .withReturning

variable {s s' : InsertStatement} {stage stage' : InsertStage} {method : Method}

theorem Ordered.hasAssignments (ordered : s.Ordered) (there : s.values ≠ none) :
    FluentQuery.hasAssignments s.values = true := by
  match values : s.values with
  | none => exact absurd values there
  | some [] => exact absurd values ordered.given
  | some (_ :: _) => rfl

theorem Next.ordered (next : s.Next method s') (ordered : s.Ordered) : s'.Ordered := by
  obtain ⟨given, assigns, returns⟩ := ordered
  cases next with
  | values first some => exact ⟨by simpa using some, fun _ => nofun, fun _ => nofun⟩
  | onConflict target there first => exact ⟨given, fun _ => there, returns⟩
  | doNothing clause first => exact ⟨given, fun _ => assigns (by simp [clause]), returns⟩
  | doUpdateSet clause first some => exact ⟨given, fun _ => assigns (by simp [clause]), returns⟩
  | returning there asked => exact ⟨given, assigns, fun _ => there⟩

theorem isAt_stage (s : InsertStatement) : s.IsAt s.stage := by
  unfold InsertStatement.stage
  split
  · exact .withReturning (Expr.not_isAbsent.1 ‹_›)
  · have plain : s.returning = .absent := not_not.1 (mt Expr.not_isAbsent.2 ‹_›)
    split
    · exact .withConflictTarget plain ‹_› rfl
    · rename_i settled
      have settled : ∀ conflict, s.onConflict = some conflict → conflict.action ≠ .none := by
        rintro ⟨target, action, assignments⟩ clause rfl
        exact settled _ _ clause
      split
      · exact .withValues plain settled ‹_›
      · exact .initial plain settled (Bool.not_eq_true _ ▸ ‹_›)

/-- What a stage says of an INSERT, no other stage says. -/
theorem IsAt.unique (isAt : s.IsAt stage) (isAt' : s.IsAt stage') : stage = stage' := by
  cases isAt <;> cases isAt' <;> first | rfl | simp_all

/-- A method leads an INSERT to the stage that a handle goes to. -/
theorem IsAt.goes (isAt : s.IsAt stage) (ordered : s.Ordered) (next : s.Next method s')
    (goes : stage.Goes method stage') : s'.IsAt stage' := by
  cases goes with
  | values =>
    obtain ⟨plain, settled, -⟩ := isAt
    cases next with
    | values first given => exact .withValues plain settled (hasAssignments_of_ne_nil given)
  | onConflict =>
    obtain - | ⟨plain, settled, assigns⟩ := isAt
    cases next with
    | onConflict => exact .withConflictTarget plain rfl rfl
  | returning =>
    cases next with
    | returning assigns there => exact .withReturning there
  | doNothing =>
    obtain - | - | ⟨plain, clause, lacks⟩ := isAt
    have assigns := ordered.hasAssignments (ordered.assigns (by simp [clause]))
    cases next with
    | doNothing => exact .withValues plain (by rintro _ ⟨⟩ ⟨⟩) assigns
  | doUpdateSet =>
    obtain - | - | ⟨plain, clause, lacks⟩ := isAt
    have assigns := ordered.hasAssignments (ordered.assigns (by simp [clause]))
    cases next with
    | doUpdateSet => exact .withValues plain (by rintro _ ⟨⟩ ⟨⟩) assigns

end InsertStatement

/-! ### The stages of an UPDATE -/

/-- The stages that the methods of an UPDATE lead from and to. -/
inductive UpdateStage.Goes : UpdateStage → Method → UpdateStage → Prop
  | set : Goes .initial .set .withSet
  | filter : Goes .withSet .filter .complete
  | allow : Goes .withSet .allowFullTableUpdate .complete
  | filterAgain : Goes .complete .filter .complete
  | returning : Goes .withSet .returning .withReturning
  | returningSome : Goes .complete .returning .withReturning

theorem UpdateStage.goes_of_next {stage stage' : UpdateStage} {name : String} {method : Method}
    {arguments : Nat} (called : Method.ofName? name = some method)
    (next : Handle.updateNext? stage name arguments = some stage') :
    stage.Goes method stage' := by
  unfold Handle.updateNext? at next
  split at next <;> cases next <;> cases called <;> constructor

namespace UpdateStatement

/-- What each stage says about the parts of an UPDATE. -/
inductive IsAt (s : UpdateStatement) : UpdateStage → Prop
  | initial (plain : s.returning = .absent) (all : s.predicate = .absent)
      (strict : s.allowFullTable = false) (bare : hasAssignments s.assignments = false) :
      IsAt s .initial
  | withSet (plain : s.returning = .absent) (all : s.predicate = .absent)
      (strict : s.allowFullTable = false) (assigns : hasAssignments s.assignments = true) :
      IsAt s .withSet
  | complete (plain : s.returning = .absent)
      (guarded : s.predicate ≠ .absent ∨ s.allowFullTable = true) : IsAt s .complete
  | withReturning (there : s.returning ≠ .absent) : IsAt s .withReturning

variable {s s' : UpdateStatement} {stage stage' : UpdateStage} {method : Method}

theorem isAt_stage (s : UpdateStatement) : s.IsAt s.stage := by
  unfold UpdateStatement.stage
  split
  · exact .withReturning (Expr.not_isAbsent.1 ‹_›)
  · have plain : s.returning = .absent := not_not.1 (mt Expr.not_isAbsent.2 ‹_›)
    split
    · rename_i guarded
      rw [Bool.or_eq_true, Expr.not_isAbsent] at guarded
      exact .complete plain guarded
    · rename_i unguarded
      rw [Bool.or_eq_true, Expr.not_isAbsent, not_or, not_not, Bool.not_eq_true] at unguarded
      split
      · exact .withSet plain unguarded.1 unguarded.2 ‹_›
      · exact .initial plain unguarded.1 unguarded.2 (Bool.not_eq_true _ ▸ ‹_›)

/-- What a stage says of an UPDATE, no other stage says. -/
theorem IsAt.unique (isAt : s.IsAt stage) (isAt' : s.IsAt stage') : stage = stage' := by
  cases isAt <;> cases isAt' <;> first | rfl | simp_all

/-- A method leads an UPDATE to the stage that a handle goes to. -/
theorem IsAt.goes (isAt : s.IsAt stage) (next : s.Next method s') (goes : stage.Goes method stage') :
    s'.IsAt stage' := by
  cases goes with
  | set =>
    obtain ⟨plain, all, strict, -⟩ := isAt
    cases next with
    | set first given => exact .withSet plain all strict (hasAssignments_of_ne_nil given)
  | filter =>
    obtain - | ⟨plain, -, -, -⟩ := isAt
    cases next with
    | filter isBoolean =>
      exact .complete plain (.inl (Expr.conj_ne_absent_of_isBoolean _ isBoolean))
  | allow =>
    obtain - | ⟨plain, -, -, -⟩ := isAt
    cases next with
    | allow => exact .complete plain (.inr rfl)
  | filterAgain =>
    obtain - | - | ⟨plain, -⟩ := isAt
    cases next with
    | filter isBoolean =>
      exact .complete plain (.inl (Expr.conj_ne_absent_of_isBoolean _ isBoolean))
  | returning | returningSome =>
    cases next with
    | returning there => exact .withReturning there

end UpdateStatement

/-! ### The stages of a DELETE -/

/-- The stages that the methods of a DELETE lead from and to. -/
inductive DeleteStage.Goes : DeleteStage → Method → DeleteStage → Prop
  | filter (stage : DeleteStage) : Goes stage .filter .complete
  | allow : Goes .initial .allowFullTableDelete .complete

theorem DeleteStage.goes_of_next {stage stage' : DeleteStage} {name : String} {method : Method}
    {arguments : Nat} (called : Method.ofName? name = some method)
    (next : Handle.deleteNext? stage name arguments = some stage') :
    stage.Goes method stage' := by
  unfold Handle.deleteNext? at next
  split at next <;> cases next <;> cases called <;> constructor

namespace DeleteStatement

/-- What each stage says about the parts of a DELETE. -/
inductive IsAt (s : DeleteStatement) : DeleteStage → Prop
  | initial (all : s.predicate = .absent) (strict : s.allowFullTable = false) : IsAt s .initial
  | complete (guarded : s.predicate ≠ .absent ∨ s.allowFullTable = true) : IsAt s .complete

variable {s s' : DeleteStatement} {stage stage' : DeleteStage} {method : Method}

theorem isAt_stage (s : DeleteStatement) : s.IsAt s.stage := by
  unfold DeleteStatement.stage
  split
  · rename_i guarded
    rw [Bool.or_eq_true, Expr.not_isAbsent] at guarded
    exact .complete guarded
  · rename_i unguarded
    rw [Bool.or_eq_true, Expr.not_isAbsent, not_or, not_not, Bool.not_eq_true] at unguarded
    exact .initial unguarded.1 unguarded.2

/-- What a stage says of a DELETE, no other stage says. -/
theorem IsAt.unique (isAt : s.IsAt stage) (isAt' : s.IsAt stage') : stage = stage' := by
  cases isAt <;> cases isAt' <;> first | rfl | simp_all

/-- A method leads a DELETE to the stage that a handle goes to. -/
theorem IsAt.goes (next : s.Next method s') (goes : stage.Goes method stage') : s'.IsAt stage' := by
  cases goes with
  | filter =>
    cases next with
    | filter isBoolean =>
      exact .complete (.inl (Expr.conj_ne_absent_of_isBoolean _ isBoolean))
  | allow =>
    cases next with
    | allow => exact .complete (.inr rfl)

end DeleteStatement

/-! ### Handles -/

/-- A statement whose parts were filled in one after the other. -/
def Step.Ordered : Step → Prop
  | .insert s => s.Ordered
  | _ => True

theorem Step.Next.ordered {method : Method} {step step' : Step} (next : step.Next method step')
    (ordered : step.Ordered) : step'.Ordered := by
  cases next with
  | insert next => exact next.ordered ordered
  | update | delete => trivial

/-- A statement after calls on a new one is ordered. -/
theorem Step.Called.ordered {first step : Step} {start s : Scope} {calls : List MethodCall}
    (called : first.Called start calls step s) (started : first.IsStarted) : step.Ordered := by
  induction called with
  | nil =>
    obtain ⟨-, method, schema, table, rfl⟩ := started
    cases method with
    | insertInto => exact ⟨nofun, fun clause => absurd rfl clause, fun there => absurd rfl there⟩
    | «from» | update | deleteFrom => trivial
  | call before run ih =>
    obtain ⟨_, step', -, same, next⟩ := next_of_resolve (before.isCrud started.1) run
    cases same
    exact next.ordered ih

namespace Handle

/-- Asks for a statement that changes rows. -/
def Definition.changesRows : Definition → Bool
  | .insert _ | .update _ | .delete _ => true
  | _ => false

/-- A handle of the kind that was asked for, at the stage of the statement that it holds. -/
inductive Staged : Definition → Step → Handle → Prop
  | insert {asked : InsertStage} {s : InsertStatement} {state : PlanState}
      (operation : state.operation = [.insert s]) :
      Staged (.insert asked) (.insert s) (.insert s.stage state)
  | update {asked : UpdateStage} {s : UpdateStatement} {state : PlanState}
      (operation : state.operation = [.update s]) :
      Staged (.update asked) (.update s) (.update s.stage state)
  | delete {asked : DeleteStage} {s : DeleteStatement} {state : PlanState}
      (operation : state.operation = [.delete s]) :
      Staged (.delete asked) (.delete s) (.delete s.stage state)

/-- A handle reached by methods of the handles before it. -/
inductive Advances (first : Handle) : List MethodCall → Handle → Prop
  | nil : Advances first [] first
  | call {calls : List MethodCall} {h h' : Handle} {c : MethodCall} {count : Int}
      (before : Advances first calls h)
      (run : h.call? c.name c.arguments count = some (.ok h')) : Advances first (calls ++ [c]) h'

variable {definition : Definition} {step : Step} {first h h' : Handle} {c : MethodCall}

theorem Staged.isCrud (staged : Staged definition step h) : step.isCrud = true := by
  cases staged <;> rfl

theorem Staged.operation (staged : Staged definition step h) : h.state.operation = [step] := by
  cases staged <;> assumption

/-- A method that a handle has is called on the statement of its plan. -/
theorem statement_of_call {σ : Type} {next? : Option σ} {make : σ → PlanState → Handle}
    {state : PlanState} (isCrud : step.isCrud = true) (operation : state.operation = [step])
    (run : next?.map (fun next => make next <$> state.append c.name c.arguments) = some (.ok h')) :
    ∃ stage state' method step', next? = some stage ∧ h' = make stage state' ∧
      state'.schema = state.schema ∧ c.method? = some method ∧ step.Next method step' ∧
        state'.operation = [step'] ∧
          c.resolve [step] state.query.scope = .ok [step'] state'.query.scope := by
  obtain ⟨stage, goes, run⟩ := Option.map_eq_some_iff.1 run
  obtain ⟨state', appended, rfl⟩ := outcome_map_eq_ok.1 run
  obtain ⟨schema, step', resolved, operation'⟩ := state.statement_of_append isCrud operation appended
  obtain ⟨method, _, called, same, next⟩ := Step.next_of_resolve isCrud resolved
  cases same
  exact ⟨stage, state', method, step', goes, rfl, schema, called, next, operation', resolved⟩

/-- A method of a handle at the stage of its statement leads to one at the stage of the statement that
the method makes of it. -/
theorem Staged.call {count : Int} (staged : Staged definition step h) (ordered : step.Ordered)
    (run : h.call? c.name c.arguments count = some (.ok h')) :
    h'.state.schema = h.state.schema ∧ ∃ step', Staged definition step' h' ∧
      c.resolve [step] h.state.query.scope = .ok [step'] h'.state.query.scope := by
  -- The handle goes where its table of methods says, and so does the statement, which is at one stage.
  cases staged with
  | @insert asked s state operation =>
    obtain ⟨stage, state', method, step', goes, rfl, schema, called, next, operation', resolved⟩ :=
      statement_of_call rfl operation run
    cases next with
    | @insert _ s' next =>
      have isAt := s.isAt_stage.goes ordered next (InsertStage.goes_of_next called goes)
      obtain rfl := isAt.unique s'.isAt_stage
      exact ⟨schema, _, .insert operation', resolved⟩
  | @update asked s state operation =>
    obtain ⟨stage, state', method, step', goes, rfl, schema, called, next, operation', resolved⟩ :=
      statement_of_call rfl operation run
    cases next with
    | @update _ s' next =>
      have isAt := s.isAt_stage.goes next (UpdateStage.goes_of_next called goes)
      obtain rfl := isAt.unique s'.isAt_stage
      exact ⟨schema, _, .update operation', resolved⟩
  | @delete asked s state operation =>
    obtain ⟨stage, state', method, step', goes, rfl, schema, called, next, operation', resolved⟩ :=
      statement_of_call rfl operation run
    cases next with
    | @delete _ s' next =>
      have isAt := DeleteStatement.IsAt.goes next (DeleteStage.goes_of_next called goes)
      obtain rfl := isAt.unique s'.isAt_stage
      exact ⟨schema, _, .delete operation', resolved⟩

/-- Methods keep a handle at the stage of its statement, which is the one that all calls make. -/
theorem Advances.staged {root before : Step} {start : Scope} {earlier calls : List MethodCall}
    (advances : first.Advances calls h) (started : root.IsStarted)
    (called : root.Called start earlier before first.state.query.scope)
    (staged : Staged definition before first) :
    h.state.schema = first.state.schema ∧ ∃ step, Staged definition step h ∧
      root.Called start (earlier ++ calls) step h.state.query.scope := by
  induction advances with
  | nil =>
    rw [List.append_nil]
    exact ⟨rfl, before, staged, called⟩
  | call _ run ih =>
    obtain ⟨schema, step, staged, called⟩ := ih
    obtain ⟨schema', step', staged', resolved⟩ := staged.call (called.ordered started) run
    rw [← List.append_assoc]
    exact ⟨schema'.trans schema, step', staged', called.call resolved⟩

/-- The handle that is asked for is at the stage of the first step of its plan. -/
theorem staged_of_query {schema : Schema} {query : ParsedQuery}
    (asked : definition.changesRows = true) (defined : ofQuery definition schema query = .ok h) :
    h.state = .ofQuery query schema ∧ ∃ step rest, h.state.operation = step :: rest ∧
      step.isCrud = true ∧ (h.state.operation = [step] → Staged definition step h) := by
  cases definition with
  | insert stage =>
    simp only [ofQuery] at defined
    split at defined
    · rename_i statement rest operation
      split at defined
      · obtain rfl := ‹statement.stage = stage›
        cases defined
        exact ⟨rfl, _, rest, operation, rfl, .insert⟩
      · cases defined
    · cases defined
  | update stage =>
    simp only [ofQuery] at defined
    split at defined
    · rename_i statement rest operation
      split at defined
      · obtain rfl := ‹statement.stage = stage›
        cases defined
        exact ⟨rfl, _, rest, operation, rfl, .update⟩
      · cases defined
    · cases defined
  | delete stage =>
    simp only [ofQuery] at defined
    split at defined
    · rename_i statement rest operation
      split at defined
      · obtain rfl := ‹statement.stage = stage›
        cases defined
        exact ⟨rfl, _, rest, operation, rfl, .delete⟩
      · cases defined
    · cases defined
  | select | terminal => cases asked

/-- A handle reached from a query-building function is at the stage of the statement that the calls in
the function, and those on the handles, make of a new one. -/
theorem Advances.staged_of_query {schema : Schema} {builder : Node} {query : ParsedQuery}
    {calls : List MethodCall} (advances : first.Advances calls h)
    (asked : definition.changesRows = true) (parsed : builder.parseQuery = .ok query)
    (defined : ofQuery definition schema query = .ok first) :
    h.state.schema = schema ∧ ∃ (root : Step) (start : Scope) (step : Step), root.IsStarted ∧
      root.Called start (builder.methodCalls ++ calls) step h.state.query.scope ∧
        Staged definition step h := by
  obtain ⟨same, step, rest, operation, isCrud, staged⟩ := Handle.staged_of_query asked defined
  rw [same] at operation
  obtain ⟨single, -, root, start, -, started, -, called⟩ :=
    Node.called_of_parse parsed schema isCrud operation
  rw [same] at staged
  have called : root.Called start builder.methodCalls step first.state.query.scope := by
    rw [same]
    exact called
  obtain ⟨schema', step', staged', called'⟩ := advances.staged started called (staged single)
  rw [same] at schema'
  exact ⟨schema', root, start, step', started, called', staged'⟩

end Handle

/-- The handles of a statement that changes rows, from the first one that its query-building function
gives on and whatever methods are called, are at the stage of the statement that they hold. -/
theorem stages_follow_statements {w w' : Workspace} (arises : w.Arises)
    {definition : Handle.Definition} (asked : definition.changesRows = true) {schema : Schema}
    {builder : Node} {useCache : Bool} {sourceText : String} {first h : Handle}
    {calls : List MethodCall}
    (defined : Handle.define definition schema builder useCache sourceText w = .ok first w')
    (advances : first.Advances calls h) : ∃ step, Handle.Staged definition step h := by
  obtain ⟨origin, query, parsed, -, defined⟩ := Handle.origin_of_define arises defined
  obtain ⟨-, root, start, step, -, -, staged⟩ := advances.staged_of_query asked parsed defined
  exact ⟨step, staged⟩

/-- `q => q.insertInto("users").values({ name: "x" })` -/
def insertUser : Node :=
  (BuilderForm.lambda ["q"]).build
    (((Node.identifier "q").invoke "insertInto" [.literal (.str "users")]).withCalls
      [.of "values" (.object [.named "name" (.literal (.str "x")) false])])

/-- A new user that may be there already: what is done then is decided before the row is asked for. -/
theorem stages_follow_statements_insertUser :
    ∃ first w upsert settled last,
      Handle.define (.insert .withValues) {} insertUser true "" {} = .ok first w ∧
      first.call? "onConflict" [columnOfRow "name"] 0 = some (.ok upsert) ∧
      upsert.name = "insert:WithConflictTarget" ∧
      upsert.call? "doNothing" [] 0 = some (.ok settled) ∧ settled.name = "insert:WithValues" ∧
      settled.call? "returning" [columnOfRow "id"] 0 = some (.ok last) ∧
      last.name = "insert:WithReturning" ∧ ∃ step, Handle.Staged (.insert .withValues) step last := by
  have succeeds : ∃ first w upsert settled last,
      Handle.define (.insert .withValues) {} insertUser true "" {} = .ok first w ∧
      first.call? "onConflict" [columnOfRow "name"] 0 = some (.ok upsert) ∧
      upsert.name = "insert:WithConflictTarget" ∧
      upsert.call? "doNothing" [] 0 = some (.ok settled) ∧ settled.name = "insert:WithValues" ∧
      settled.call? "returning" [columnOfRow "id"] 0 = some (.ok last) ∧
      last.name = "insert:WithReturning" :=
    ⟨_, _, _, _, _, rfl, rfl, rfl, rfl, rfl, rfl, rfl⟩
  obtain ⟨first, w, upsert, settled, last, defined, asked, atTarget, decided, atValues, ended,
    atReturning⟩ := succeeds
  have advances : first.Advances [.of "onConflict" (columnOfRow "name"), ⟨.identifier "doNothing",
      false, []⟩, .of "returning" (columnOfRow "id")] last :=
    .call (.call (.call .nil asked) decided) ended
  exact ⟨first, w, upsert, settled, last, defined, asked, atTarget, decided, atValues, ended,
    atReturning, stages_follow_statements .new rfl defined advances⟩

end FluentQuery
