import FluentQuery.Proofs.Resolve.AutoParams
import FluentQuery.Proofs.Resolve.ChainInduction
import FluentQuery.Proofs.Resolve.ClosedBodies

/-!
# Visits leave the scope as it was

Resolving a lambda body or a nested query ends in the scope it was started from, whether it succeeds
or not, except that automatic parameters may have been added: `visits_restore_scope`.  Bodies restore
bindings wherever they made some.  A chain of calls changes the statement it is resolved in, but never
the names of the builder and the helpers (`Node.careful_chain`); a nested query takes back the rest.
-/

namespace FluentQuery

set_option autoImplicit false

namespace Scope

/-- Automatic parameters were added, with the numbers that come after the counter: each is bound, and
recorded with its value, and every other name is bound and recorded as before. -/
structure Adds (s s' : Scope) : Prop where
  counter : s.autoParamCounter ≤ s'.autoParamCounter
  added : ∀ number, s.autoParamCounter < number → number ≤ s'.autoParamCounter →
    ∃ info, s'.autoParams.find? (autoParamName number) = some info.value ∧
      s'.autoParamInfos.find? (autoParamName number) = some info
  others : ∀ name,
    (∀ number, s.autoParamCounter < number → number ≤ s'.autoParamCounter →
      name ≠ autoParamName number) →
    s'.autoParams.find? name = s.autoParams.find? name ∧
      s'.autoParamInfos.find? name = s.autoParamInfos.find? name

/-- A scope is as it was, but for automatic parameters that were added. -/
structure Restored (s s' : Scope) : Prop where
  same : s' = { s with
    autoParams := s'.autoParams
    autoParamCounter := s'.autoParamCounter
    autoParamInfos := s'.autoParamInfos }
  adds : s.Adds s'

/-- The names of the builder and the helpers are as they were, and so are automatic parameters, but
for those that were added. -/
structure Preserves (s s' : Scope) : Prop where
  builder : s'.builder = s.builder
  helpers : s'.helpers = s.helpers
  adds : s.Adds s'

variable {s s' s'' : Scope}

namespace Adds

/-- Nothing is added. -/
theorem refl (s : Scope) : s.Adds s :=
  ⟨Int.le_refl _, fun _ low high => absurd high (Int.not_le.2 low), fun _ _ => ⟨rfl, rfl⟩⟩

/-- The parameters that were there keep their values and what is recorded about them. -/
theorem kept (h : s.Adds s') {number : Int} (old : number ≤ s.autoParamCounter) :
    s'.autoParams.find? (autoParamName number) = s.autoParams.find? (autoParamName number) ∧
      s'.autoParamInfos.find? (autoParamName number) =
        s.autoParamInfos.find? (autoParamName number) := by
  refine h.others _ fun other low _ same => ?_
  have := autoParamName_inj same
  omega

/-- What is added in two steps is added. -/
theorem trans (h : s.Adds s') (h' : s'.Adds s'') : s.Adds s'' := by
  refine ⟨h.counter.trans h'.counter, fun number low high => ?_, fun name apart => ?_⟩
  · by_cases first : number ≤ s'.autoParamCounter
    · rw [(h'.kept first).1, (h'.kept first).2]
      exact h.added number low first
    · exact h'.added number (Int.not_le.1 first) high
  · have before := h.others name fun number low high =>
      apart number low (high.trans h'.counter)
    have after := h'.others name fun number low high =>
      apart number (Int.lt_of_le_of_lt h.counter low) high
    exact ⟨after.1.trans before.1, after.2.trans before.2⟩

/-- A parameter is added under the next number. -/
theorem mint (s : Scope) (value : Json) (fieldName : String) (sourceTable : Option Int) :
    s.Adds (s.addAutoParam value fieldName sourceTable).2 := by
  refine ⟨?_, fun number low high => ?_, fun name apart => ?_⟩
  · simp only [addAutoParam]
    omega
  · obtain rfl : number = s.autoParamCounter + 1 := by
      simp only [addAutoParam] at high
      omega
    exact ⟨⟨value, fieldName, s.table, sourceTable⟩, Assoc.find?_insert_self _ _ _,
      Assoc.find?_insert_self _ _ _⟩
  · have other : autoParamName (s.autoParamCounter + 1) ≠ name :=
      (apart _ (Int.lt_succ _) (Int.le_refl _)).symm
    exact ⟨Assoc.find?_insert_of_ne _ _ other, Assoc.find?_insert_of_ne _ _ other⟩

/-- What values are put into parameters for adds these parameters. -/
theorem of_mints (h : s.Mints s') : s.Adds s' := by
  induction h with
  | refl => exact .refl s
  | mint _ value fieldName sourceTable ih => exact ih.trans (.mint _ value fieldName sourceTable)

end Adds

/-- Adding automatic parameters changes nothing else. -/
theorem Mints.restored (h : s.Mints s') : s.Restored s' := by
  refine ⟨?_, .of_mints h⟩
  induction h with
  | refl => rfl
  | mint before value fieldName sourceTable ih =>
    rw [ih]
    rfl

/-- A scope that is restored has kept the names of the builder and the helpers. -/
theorem Restored.preserves (h : s.Restored s') : s.Preserves s' := by
  refine ⟨?_, ?_, h.adds⟩ <;> rw [h.same]

/-- What does not touch the automatic parameters keeps them. -/
theorem Preserves.of_eq (builder : s'.builder = s.builder) (helpers : s'.helpers = s.helpers)
    (values : s'.autoParams = s.autoParams) (counter : s'.autoParamCounter = s.autoParamCounter)
    (infos : s'.autoParamInfos = s.autoParamInfos) : s.Preserves s' := by
  refine ⟨builder, helpers, ?_⟩
  refine ⟨counter.ge, fun number low high => ?_, fun name _ => ⟨by rw [values], by rw [infos]⟩⟩
  omega

/-- A scope that is left alone is preserved. -/
theorem Preserves.refl (s : Scope) : s.Preserves s :=
  ⟨rfl, rfl, .refl s⟩

/-- What is preserved twice is preserved. -/
theorem Preserves.trans (h : s.Preserves s') (h' : s'.Preserves s'') : s.Preserves s'' :=
  ⟨h'.builder.trans h.builder, h'.helpers.trans h.helpers, h.adds.trans h'.adds⟩

end Scope

/-! ### Work that keeps what it finds -/

namespace Resolve

open Scope (Preserves)

variable {α β : Type}

/-- From any scope, work keeps the names of the builder and the helpers and the automatic parameters
that are there, whether it succeeds or not. -/
def Careful (work : Resolve α) : Prop :=
  ∀ s, Ensures work s (fun _ s' => s.Preserves s') s.Preserves

namespace Careful

variable {work : Resolve α}

/-- Work that returns leaves the scope alone. -/
theorem pure (a : α) : Careful (pure a) :=
  fun s => .refl s

/-- Work that fails leaves the scope alone. -/
theorem fail {fault : Fault} : Careful (fail fault : Resolve α) :=
  fun s => .refl s

theorem failUnplaced {fault : Fault} : Careful (failUnplaced fault : Resolve α) :=
  fun s => .refl s

theorem failArguments {least most got : Nat} :
    Careful (failArguments least most got : Resolve α) :=
  fun s => .refl s

theorem failStatement {statement : String} : Careful (failStatement statement : Resolve α) :=
  fun s => .refl s

/-- Work is careful if its steps are. -/
theorem bind {next : α → Resolve β} (h : Careful work) (rest : ∀ a, Careful (next a)) :
    Careful (work >>= next) := by
  intro s
  refine (h s).bind fun a s' kept => ?_
  exact (rest a s').mono (fun _ _ => kept.trans) (fun _ => kept.trans)

/-- Looking at the scope is careful. -/
theorem get {next : Scope → Resolve α} (h : ∀ s, Careful (next s)) : Careful (get >>= next) :=
  fun s => h s s

/-- A change of the scope that leaves alone what is to be kept. -/
theorem modify {change : Scope → Scope} (h : ∀ s : Scope, s.Preserves (change s)) :
    Careful (modify change) :=
  fun s => h s

/-- A check that may fail before the work goes on. -/
theorem check {c : Prop} [Decidable c] {failure : Resolve PUnit} {next : PUnit → Resolve α}
    (failing : Careful failure) (rest : ∀ u, Careful (next u)) :
    Careful (if c then failure >>= next else next ⟨⟩) := by
  split
  · exact failing.bind rest
  · exact rest _

/-- Bindings are put back, whatever the work has done to them. -/
theorem withBindings (h : Careful work) : Careful (withBindings work) := by
  refine fun s => ensures_withBindings ((h s).mono (fun _ s' kept => ?_) (fun s' kept => ?_))
  · exact ⟨kept.builder, kept.helpers, ⟨kept.adds.counter, kept.adds.added, kept.adds.others⟩⟩
  · exact ⟨kept.builder, kept.helpers, ⟨kept.adds.counter, kept.adds.added, kept.adds.others⟩⟩

/-- Bindings may change: the names of the builder and the helpers are not among them. -/
theorem rebind (change : Bindings → Bindings) : Careful (Resolve.bind change) :=
  modify fun _ => .of_eq rfl rfl rfl rfl rfl

theorem ofExcept (x : Except ExprFault α) : Careful (ofExcept x) := by
  cases x with
  | ok a => exact pure a
  | error => exact fail

end Careful

/-! ### Bodies -/

/-- Work that is tidy within any vocabulary restores the scope. -/
theorem restores_of_tidy {work : Resolve α} {post : α → Scope → Prop}
    (h : Tidy .everything post work) (s : Scope) :
    Ensures work s (fun _ s' => s.Restored s') s.Restored :=
  (h s (Scope.within_everything s)).mono (fun _ _ found => found.1.restored)
    (fun _ minted => minted.restored)

/-- Work that puts everything back is careful. -/
theorem careful_of_tidy {work : Resolve α} {post : α → Scope → Prop}
    (h : Tidy .everything post work) : Careful work :=
  fun s => (restores_of_tidy h s).mono (fun _ _ restored => restored.preserves)
    (fun _ restored => restored.preserves)

/-- A body is resolved with care, as a value or as a condition. -/
theorem careful_resolve (node : Node) (isPredicate : Bool) : Careful (node.resolve isPredicate) :=
  careful_of_tidy (node.tidy_resolve isPredicate)

theorem careful_autoParam (value : Json) (fieldName : String) (sourceTable : Option Int) :
    Careful (autoParam value fieldName sourceTable) :=
  careful_of_tidy (tidy_autoParam value fieldName sourceTable)

theorem careful_predicate (e : Expr) : Careful (predicate e) :=
  .ofExcept _

/-- The parameters of a lambda are bound for its body only. -/
theorem careful_withParams {bindParams : List String → Resolve Unit} {params : List String}
    {body : Resolve α} (binds : ∀ params, Careful (bindParams params)) (h : Careful body) :
    Careful (withParams bindParams params body) :=
  .withBindings ((binds params).bind fun _ => h)

/-- A lambda is resolved with care if its parameters are bound so. -/
theorem careful_resolveLambda {bindParams : List String → Resolve Unit}
    (binds : ∀ params, Careful (bindParams params)) (isPredicate : Bool) (method : String)
    (node : Node) : Careful (node.resolveLambda isPredicate method bindParams) := by
  unfold Node.resolveLambda
  split
  · exact careful_withParams binds (careful_resolve _ _)
  · exact careful_withParams binds .failUnplaced
  · exact careful_withParams binds .failUnplaced
  · exact careful_withParams binds (careful_resolve _ _)
  · exact .fail

/-! ### Binding the parameters of lambdas -/

theorem careful_bindRow (name : String) : Careful (bindRow name) :=
  .modify fun _ => .of_eq rfl rfl rfl rfl rfl

/-- Lambdas over rows bind the row and the parameters of the query. -/
theorem careful_bindRowParams (params : List String) : Careful (bindRowParams params) := by
  unfold bindRowParams
  split
  · exact .pure _
  · exact careful_bindRow _
  · exact (careful_bindRow _).bind fun _ => .rebind _
  · exact .get fun _ => .fail

theorem careful_bindTableParam (params : List String) : Careful (bindTableParam params) := by
  unfold bindTableParam
  split
  · exact .pure _
  · exact .rebind _

theorem careful_bindOuterParam (params : List String) : Careful (bindOuterParam params) := by
  unfold bindOuterParam
  split
  · exact .pure _
  · exact .rebind _

/-- Lambdas over the rows of a join bind both of them. -/
theorem careful_bindResultParams (index : Int) (params : List String) :
    Careful (bindResultParams index params) := by
  unfold bindResultParams
  split
  · exact .pure _
  · exact .rebind _
  · exact Careful.bind (.rebind _) fun _ => .rebind _
  · exact .get fun _ => .fail

theorem careful_bindQueryParam (params : List String) : Careful (bindQueryParam params) := by
  unfold bindQueryParam
  split
  · exact .pure _
  · exact .rebind _

theorem careful_bindConflictParams (params : List String) : Careful (bindConflictParams params) := by
  unfold bindConflictParams
  split
  · exact .pure _
  · exact .rebind _
  · exact .rebind _

theorem careful_bindUpdateParams (params : List String) : Careful (bindUpdateParams params) := by
  unfold bindUpdateParams
  split
  · exact .pure _
  · exact .rebind _
  · exact .rebind _

theorem careful_rowValue (node : Node) : Careful (rowValue node) :=
  .get fun _ => careful_resolveLambda careful_bindRowParams _ _ _

theorem careful_rowPredicate (node : Node) : Careful (rowPredicate node) :=
  .get fun _ => (careful_resolveLambda careful_bindRowParams _ _ _).bind careful_predicate

theorem careful_setShape (shape : Option ResultShape) : Careful (setShape shape) :=
  .rebind _

/-! ### Methods of a SELECT -/

/-- A statement that is no SELECT, or has ended, is refused. -/
theorem careful_requireSelect (source : Operation) : Careful (requireSelect source) := by
  refine .get fun s => ?_
  dsimp only
  split
  · split
    · exact .fail
    split
    · exact .fail
    · exact .pure _
  · exact .pure _

section

variable (source : Operation) (arguments : List Node)

theorem careful_filter : Careful (filter source arguments) := by
  unfold filter
  split
  · split
    · exact (careful_rowPredicate _).bind fun _ => .pure _
    · exact (careful_rowPredicate _).bind fun _ => .pure _
    · refine (careful_requireSelect _).bind fun _ => ?_
      exact (careful_rowPredicate _).bind fun _ => .pure _
  · exact .failArguments

theorem careful_select : Careful (select source arguments) := by
  refine (careful_requireSelect _).bind fun _ => ?_
  split
  · refine (careful_rowValue _).bind fun _ => ?_
    refine Careful.bind (.modify fun _ => .of_eq rfl rfl rfl rfl rfl) fun _ => ?_
    exact (careful_setShape _).bind fun _ => .pure _
  · exact .failArguments

theorem careful_groupBy : Careful (groupBy source arguments) := by
  refine (careful_requireSelect _).bind fun _ => ?_
  split
  · refine .get fun _ => ?_
    refine .check .fail fun _ => (careful_rowValue _).bind fun _ => ?_
    exact Careful.bind (.modify fun _ => .of_eq rfl rfl rfl rfl rfl) fun _ => .pure _
  · exact .failArguments

/-- The four methods that sort rows. -/
theorem careful_sort (kind : SortKind) (descending : Bool) :
    Careful (sort kind descending source arguments) := by
  refine (careful_requireSelect _).bind fun _ => ?_
  split
  · dsimp only
    split
    · exact .get fun _ => Careful.bind .fail fun _ => (careful_rowValue _).bind fun _ => .pure _
    · exact (careful_rowValue _).bind fun _ => .pure _
  · exact .failArguments

/-- `take` and `skip` -/
theorem careful_page (kind : PageKind) : Careful (page kind source arguments) := by
  refine (careful_requireSelect _).bind fun _ => ?_
  split
  · split
    · dsimp only
      split
      · exact .get fun _ => Careful.bind .fail fun _ => (careful_autoParam _ _ _).bind fun _ => .pure _
      · exact (careful_autoParam _ _ _).bind fun _ => .pure _
    · exact .get fun _ => .fail
  · exact (careful_resolve _ _).bind fun _ => .pure _
  · exact .failArguments

/-- Methods without arguments. -/
theorem careful_mark (step : Step) : Careful (mark step source arguments) := by
  refine (careful_requireSelect _).bind fun _ => ?_
  split
  · exact .pure _
  · exact .failArguments

/-- `first`, `any` and their kin. -/
theorem careful_terminal (kind : TerminalKind) : Careful (terminal kind source arguments) := by
  refine (careful_requireSelect _).bind fun _ => ?_
  split
  · exact (careful_rowPredicate _).bind fun _ => .pure _
  · dsimp only
    generalize (if kind = TerminalKind.all then 1 else 0) = least
    split
    · exact .pure _
    · exact .failArguments

theorem careful_literal (value : Json) (peer : Expr) : Careful (literal value peer) :=
  careful_of_tidy (tidy_literal value peer)

theorem careful_contains : Careful (contains source arguments) := by
  refine (careful_requireSelect _).bind fun _ => ?_
  split
  · dsimp only
    split
    · split
      · exact (careful_literal _ _).bind fun _ => .pure _
      · exact (careful_autoParam _ _ _).bind fun _ => .pure _
    · exact (careful_resolve _ _).bind fun _ => .pure _
  · exact .failArguments

/-- `sum` and its kin. -/
theorem careful_aggregate (kind : AggregateKind) : Careful (aggregate kind source arguments) := by
  refine (careful_requireSelect _).bind fun _ => ?_
  split
  · exact .pure _
  · exact (careful_rowValue _).bind fun _ => .pure _
  · exact .failArguments

/-! ### Joins -/

theorem careful_keyColumn (side : String) (e : Expr) : Careful (keyColumn side e) := by
  unfold keyColumn
  split
  · exact .pure _
  · exact .get fun _ => .fail

/-- The keys of a join are resolved each with its own row bound. -/
theorem careful_joinKeys (outer inner : Node) : Careful (joinKeys outer inner) := by
  refine .get fun _ => ?_
  refine (careful_resolveLambda careful_bindOuterParam _ _ _).bind fun _ => ?_
  refine (careful_keyColumn _ _).bind fun _ => ?_
  refine (careful_resolveLambda careful_bindTableParam _ _ _).bind fun _ => ?_
  exact (careful_keyColumn _ _).bind fun _ => .pure _

/-- The result of a join is resolved with both rows bound. -/
theorem careful_resultSelector (index : Int) (node : Node) : Careful (resultSelector index node) :=
  .get fun _ => careful_resolveLambda (careful_bindResultParams index) _ _ _

/-- A join adds a table and sets a shape. -/
theorem careful_addTable (index : Int) (shape : Option ResultShape) :
    Careful (addTable index shape) :=
  Careful.bind (.modify fun _ => .of_eq rfl rfl rfl rfl rfl) fun _ => careful_setShape _

/-- What a join does after its keys. -/
theorem careful_finishJoin (kind : JoinKind) (inner : Operation) (keys : JoinKeys) (selector : Expr)
    (index : Int) : Careful (finishJoin kind inner keys selector index source) :=
  (careful_addTable _ _).bind fun _ => .pure _

/-- A join, if its inner query is resolved with care. -/
theorem careful_join (kind : JoinKind) {inner : Resolve Operation} (h : Careful inner) :
    Careful (join kind source arguments inner) := by
  refine (careful_requireSelect _).bind fun _ => .get fun _ => ?_
  dsimp only
  split
  · split
    · exact h.bind fun _ => careful_finishJoin _ _ _ _ _ _
    · exact h.bind fun _ => (careful_resultSelector _ _).bind fun _ => careful_finishJoin _ _ _ _ _ _
    · exact .failArguments
  · split
    · exact h.bind fun _ => (careful_joinKeys _ _).bind fun _ => careful_finishJoin _ _ _ _ _ _
    · exact h.bind fun _ => (careful_joinKeys _ _).bind fun _ =>
        (careful_resultSelector _ _).bind fun _ => careful_finishJoin _ _ _ _ _ _
    · exact .failArguments

/-- A group join, if its inner query is resolved with care. -/
theorem careful_groupJoin {inner : Resolve Operation} (h : Careful inner) :
    Careful (groupJoin source arguments inner) := by
  refine (careful_requireSelect _).bind fun _ => ?_
  split
  · refine .get fun _ => h.bind fun _ => (careful_joinKeys _ _).bind fun _ => ?_
    refine (careful_resultSelector _ _).bind fun _ => ?_
    split
    · dsimp only
      split
      · exact .fail
      · exact (careful_addTable _ _).bind fun _ => .pure _
    · exact .fail
  · exact .failArguments

theorem careful_groupTable (path : List String) : Careful (groupTable path) := by
  refine .get fun _ => ?_
  split
  · exact .pure _
  · exact .pure _
  · exact .fail

/-- What `selectMany` does once its collection is known. -/
theorem careful_finishSelectMany (collection : Operation) (path : List String) (usesDefault : Bool)
    (index : Int) (selector? : Option Node) :
    Careful (finishSelectMany collection path usesDefault index selector? source) := by
  unfold finishSelectMany
  split
  · exact (careful_resultSelector _ _).bind fun _ => (careful_setShape _).bind fun _ => .pure _
  · exact Careful.bind (.pure _) fun _ => (careful_setShape _).bind fun _ => .pure _

/-- The collection of `selectMany` is a group of the row or a query of its own. -/
theorem careful_flatten (argument : Node) (selector? : Option Node) {query : Resolve Operation}
    (h : Careful query) : Careful (flatten argument selector? source query) := by
  unfold flatten
  split
  · exact .failUnplaced
  · dsimp only
    split
    · refine h.bind fun _ => .get fun _ => ?_
      refine Careful.bind (.modify fun _ => .of_eq rfl rfl rfl rfl rfl) fun _ => ?_
      split
      · exact careful_finishSelectMany _ _ _ _ _ _
      · exact careful_finishSelectMany _ _ _ _ _ _
    · exact (careful_groupTable _).bind fun _ => careful_finishSelectMany _ _ _ _ _ _

/-- `selectMany`, if a query in its collection is resolved with care. -/
theorem careful_selectMany {query : Resolve Operation} (h : Careful query) :
    Careful (selectMany source arguments query) := by
  refine (careful_requireSelect _).bind fun _ => ?_
  split
  · exact careful_flatten _ _ _ h
  · exact careful_flatten _ _ _ h
  · exact .failArguments

/-! ### Methods of statements that change rows -/

theorem careful_requireInsert : Careful (requireInsert source) := by
  unfold requireInsert
  split
  · exact .pure _
  · exact .failStatement

theorem careful_requireUpdate : Careful (requireUpdate source) := by
  unfold requireUpdate
  split
  · exact .pure _
  · exact .failStatement

theorem careful_requireDelete : Careful (requireDelete source) := by
  unfold requireDelete
  split
  · exact .pure _
  · exact .failStatement

/-- A value that is assigned may become a parameter. -/
theorem careful_assignedValue (column : String) (node : Node) :
    Careful (assignedValue column node) := by
  unfold assignedValue
  split
  · exact .pure _
  · exact careful_autoParam _ _ _
  · exact careful_resolve _ _

/-- Assignments are resolved one by one. -/
theorem careful_assignmentsFrom (properties : List Property) (done : Assignments) :
    Careful (assignmentsFrom done properties) := by
  induction properties generalizing done with
  | nil => exact .pure _
  | cons property rest ih =>
    cases property with
    | spread => exact .get fun _ => .fail
    | named column value =>
      unfold assignmentsFrom
      split
      · exact .get fun _ => Careful.bind .fail fun _ => (careful_assignedValue _ _).bind fun _ => ih _
      · exact (careful_assignedValue _ _).bind fun _ => ih _

theorem careful_assignments (node : Node) : Careful (assignments node) := by
  unfold assignments
  split
  · exact careful_assignmentsFrom _ _
  · exact .get fun _ => .fail

/-- Assignments are given as an object or as a lambda that makes one. -/
theorem careful_assignmentArgument {bindParams : List String → Resolve Unit}
    (binds : ∀ params, Careful (bindParams params)) (node : Node) :
    Careful (assignmentArgument bindParams node) := by
  unfold assignmentArgument
  split
  · refine .withBindings ((binds _).bind fun _ => ?_)
    split
    · exact careful_assignments _
    · exact .failUnplaced
  · exact careful_assignments _

theorem careful_values : Careful (values source arguments) := by
  refine (careful_requireInsert _).bind fun _ => ?_
  dsimp only
  split
  · refine .check .fail fun _ => ?_
    refine (careful_assignmentArgument careful_bindQueryParam _).bind fun _ => ?_
    exact .check .fail fun _ => .pure _
  · exact .failArguments

theorem careful_conflictTarget (columns : List Node) (done : List String) :
    Careful (conflictTarget done columns) := by
  induction columns generalizing done with
  | nil => exact .pure _
  | cons column rest ih =>
    refine (careful_resolveLambda careful_bindTableParam _ _ _).bind fun _ => ?_
    split
    · exact .check .fail fun _ => .check .fail fun _ => ih _
    · exact .fail

theorem careful_onConflict : Careful (onConflict source arguments) := by
  refine (careful_requireInsert _).bind fun _ => ?_
  refine .check .fail fun _ => .check .fail fun _ => .check .fail fun _ => ?_
  exact (careful_conflictTarget _ _).bind fun _ => .pure _

/-- An INSERT is asked for its conflict clause. -/
theorem careful_openConflict (s : InsertStatement) : Careful (openConflict s) := by
  unfold openConflict
  split
  · exact .get fun _ => .fail
  · split
    · exact .pure _
    · exact .fail

theorem careful_doNothing : Careful (doNothing source arguments) := by
  refine (careful_requireInsert _).bind fun _ => .check .failArguments fun _ => ?_
  exact (careful_openConflict _).bind fun _ => .pure _

theorem careful_doUpdateSet : Careful (doUpdateSet source arguments) := by
  refine (careful_requireInsert _).bind fun _ => ?_
  dsimp only
  split
  · refine (careful_openConflict _).bind fun _ => ?_
    refine (careful_assignmentArgument careful_bindConflictParams _).bind fun _ => ?_
    exact .check .fail fun _ => .pure _
  · exact .failArguments

theorem careful_returningSelector : Careful (returningSelector arguments) := by
  unfold returningSelector
  split
  · exact careful_resolveLambda careful_bindTableParam _ _ _
  · exact .failArguments

/-- `returning` of each of the three statements. -/
theorem careful_returning : Careful (returning source arguments) := by
  unfold returning
  split
  · exact .check .fail fun _ => (careful_returningSelector _).bind fun _ => .pure _
  · exact (careful_returningSelector _).bind fun _ => .pure _
  · exact .fail

theorem careful_setColumns : Careful (setColumns source arguments) := by
  refine (careful_requireUpdate _).bind fun _ => ?_
  dsimp only
  split
  · refine .check .fail fun _ => ?_
    refine (careful_assignmentArgument careful_bindUpdateParams _).bind fun _ => ?_
    exact .check .fail fun _ => .pure _
  · exact .failArguments

theorem careful_allowFullTableUpdate : Careful (allowFullTableUpdate source arguments) :=
  (careful_requireUpdate _).bind fun _ => .check .failArguments fun _ => .pure _

theorem careful_allowFullTableDelete : Careful (allowFullTableDelete source arguments) :=
  (careful_requireDelete _).bind fun _ => .check .failArguments fun _ => .pure _

/-! ### Calls -/

/-- Every method is careful if the queries in its arguments are. -/
theorem careful_apply {inner collection : Resolve Operation} (nests : Careful inner)
    (collects : Careful collection) (method : Method) :
    Careful (apply method source arguments inner collection) := by
  cases method with
  | filter => exact careful_filter _ _
  | select => exact careful_select _ _
  | groupBy => exact careful_groupBy _ _
  | sort kind descending => exact careful_sort _ _ _ _
  | page kind => exact careful_page _ _ _
  | distinct | reverse | defaultIfEmpty => exact careful_mark _ _ _
  | join kind => exact careful_join _ _ _ nests
  | groupJoin => exact careful_groupJoin _ _ nests
  | selectMany => exact careful_selectMany _ _ collects
  | terminal kind => exact careful_terminal _ _ _
  | contains => exact careful_contains _ _
  | aggregate kind => exact careful_aggregate _ _ _
  | values => exact careful_values _ _
  | onConflict => exact careful_onConflict _ _
  | doNothing => exact careful_doNothing _ _
  | doUpdateSet => exact careful_doUpdateSet _ _
  | returning => exact careful_returning _ _
  | set => exact careful_setColumns _ _
  | allowFullTableUpdate => exact careful_allowFullTableUpdate _ _
  | allowFullTableDelete => exact careful_allowFullTableDelete _ _

/-- A method by its name; an unknown one is refused. -/
theorem careful_call {inner collection : Resolve Operation} (nests : Careful inner)
    (collects : Careful collection) (name : String) :
    Careful (call name source arguments inner collection) := by
  refine Careful.bind (.modify fun _ => .of_eq rfl rfl rfl rfl rfl) fun _ => ?_
  split
  · exact careful_apply _ _ nests collects _
  · exact .fail

end

theorem careful_nameArgument (method : String) (node : Node) : Careful (nameArgument method node) := by
  unfold nameArgument
  split
  · exact .pure _
  · exact .fail

/-- The arguments of a statement's first call name its table. -/
theorem careful_tableArguments (method : String) (arguments : List Node) :
    Careful (tableArguments method arguments) := by
  unfold tableArguments
  split
  · refine (careful_nameArgument _ _).bind fun _ => (careful_nameArgument _ _).bind fun _ => ?_
    exact .check .fail fun _ => .pure _
  · exact (careful_nameArgument _ _).bind fun _ => .check .fail fun _ => .pure _
  · exact .fail

/-- A statement that begins notes its kind and its table. -/
theorem careful_startStatement (operation table : String) : Careful (startStatement operation table) :=
  .modify fun _ => .of_eq rfl rfl rfl rfl rfl

/-- The first call of a statement. -/
theorem careful_root {subquery : Resolve Operation} (nests : Careful subquery) (method : RootMethod)
    (arguments : List Node) : Careful (root method arguments subquery) := by
  have rest (isSubquery : Bool) : Careful
      (if isSubquery then do
        let op ← subquery
        startStatement "select" ""
        return [.fromSource "" "" op ""]
      else do
        let name ← tableArguments method.name arguments
        startStatement method.statement name.2
        return [method.step name.1 name.2]) := by
    split
    · exact nests.bind fun _ => (careful_startStatement _ _).bind fun _ => .pure _
    · refine (careful_tableArguments _ _).bind fun _ => ?_
      exact (careful_startStatement _ _).bind fun _ => .pure _
  refine Careful.bind (.modify fun _ => .of_eq rfl rfl rfl rfl rfl) fun _ => ?_
  dsimp only
  split
  · exact Careful.bind (.modify fun _ => .of_eq rfl rfl rfl rfl rfl) fun _ => rest _
  · exact rest _

/-! ### Nested queries -/

/-- Work whose only trace in the scope is the automatic parameters it added. -/
def Restores (work : Resolve α) : Prop :=
  ∀ s, Ensures work s (fun _ s' => s.Restored s') s.Restored

/-- Work that restores the scope is careful. -/
theorem Restores.careful {work : Resolve α} (h : Restores work) : Careful work :=
  fun s => (h s).mono (fun _ _ restored => restored.preserves) (fun _ restored => restored.preserves)

/-- A nested query takes back all that a careful chain may change: the statement and the bindings. -/
theorem Careful.restores_nested {work : Resolve α} (h : Careful work) : Restores (nested work) := by
  intro s
  have kept := h s
  unfold Ensures nested at *
  split at kept
  · rename_i ran
    simp only [ran]
    exact ⟨rfl, ⟨kept.adds.counter, kept.adds.added, kept.adds.others⟩⟩
  · rename_i ran
    simp only [ran]
    exact ⟨rfl, ⟨kept.adds.counter, kept.adds.added, kept.adds.others⟩⟩

/-- The chain of a nested query, which has to be a SELECT. -/
def selectOnly (chain : Resolve Operation) : Resolve Operation := do
  let op ← chain
  match op with
  | step :: _ => if step.isCrud then fail ChainFault.nestedStatement else return op
  | [] => return op

/-- A nested query has to be a SELECT. -/
theorem careful_selectOnly {chain : Resolve Operation} (h : Careful chain) :
    Careful (selectOnly chain) := by
  refine h.bind fun op => ?_
  split
  · split
    · exact .fail
    · exact .pure _
  · exact .pure _

/-- A query that is the source of another one. -/
theorem restores_subquery {chain : Resolve Operation} (h : Careful chain) :
    Restores (subquery chain) :=
  (careful_selectOnly h).restores_nested

/-- Does some work and takes back what it changed in the statement around it, whether it succeeds or
not: the shape and the name of its rows, its group key, its tables, and where its errors are noticed. -/
def withStatement (work : Resolve α) : Resolve α := fun s =>
  let restore (s' : Scope) : Scope :=
    { s' with
      bindings := { s'.bindings with shape := s.bindings.shape, joinResult := s.bindings.joinResult }
      groupByKey := s.groupByKey
      table := s.table
      tableCount := s.tableCount
      operation := s.operation
      method := s.method }
  match work s with
  | .ok a s' => .ok a (restore s')
  | .error e s' => .error e (restore s')

/-- Taking back the bindings and then the statement is taking back everything. -/
theorem Careful.nested_eq {work : Resolve α} (h : Careful work) :
    nested work = withStatement (Resolve.withBindings work) := by
  funext s
  have kept := h s
  have restored {s' : Scope} (keeps : s.Preserves s') :
      { s with
        autoParams := s'.autoParams
        autoParamCounter := s'.autoParamCounter
        autoParamInfos := s'.autoParamInfos } =
      { s' with
        bindings := s.bindings
        groupByKey := s.groupByKey
        table := s.table
        tableCount := s.tableCount
        operation := s.operation
        method := s.method } := by
    rw [← keeps.builder, ← keeps.helpers]
  unfold Ensures at kept
  unfold nested withStatement Resolve.withBindings
  split at kept
  · rename_i ran
    simp only [ran]
    exact congrArg _ (restored kept)
  · rename_i ran
    simp only [ran]
    exact congrArg _ (restored kept)

/-- A call on a name extends the operation at hand, or begins a chain. -/
theorem careful_onName {c : ChainCall} (nests : Careful c.inner) (collects : Careful c.collection)
    (name : String) (seed : Operation) : Careful (c.onName name seed) := by
  refine .get fun s => ?_
  dsimp only
  split
  · split
    · exact .fail
    · exact careful_call _ _ nests collects _
  · split
    · split
      · exact careful_root nests _ _
      · exact .fail
    · exact .fail

/-- A call of a chain, on the query before it. -/
theorem careful_chainCall {c : ChainCall} (earlier : Careful c.earlier) (nests : Careful c.inner)
    (collects : Careful c.collection) (mark : DefaultMark) (seed : Operation) :
    Careful (c.resolve mark seed) := by
  unfold ChainCall.resolve
  split
  · exact earlier
  split
  · exact .fail
  split
  · exact careful_onName nests collects _ _
  · exact earlier.bind fun _ => careful_call _ _ nests collects _

/-- A function that is called by its name alone begins a chain, or is refused. -/
theorem careful_functionCall {inner : Resolve Operation} (nests : Careful inner) (name : String)
    (arguments : List Node) : Careful (functionCall name arguments inner) := by
  unfold functionCall
  split
  · exact careful_root nests _ _
  · exact .fail

end Resolve

open Resolve

/-- The first of several nodes restores the scope as a query of its own, if its chain is careful. -/
theorem Node.restores_firstQuery {nodes : List Node} (mark : DefaultMark)
    (h : ∀ first ∈ nodes.head?, ∀ mark, Careful (first.chain mark [])) :
    Restores (Node.firstQuery mark nodes) := by
  cases nodes with
  | nil => exact fun s => ⟨rfl, .refl s⟩
  | cons first rest => exact restores_subquery (h first rfl mark)

/-- A chain never changes the names of the builder and the helpers, nor automatic parameters that are
there. -/
theorem Node.careful_chain (node : Node) (mark : DefaultMark) (seed : Operation) :
    Careful (node.chain mark seed) := by
  induction node, mark using Node.chain_induction generalizing seed with
  | refused node mark h =>
    intro s
    obtain ⟨e, fails⟩ := h seed s
    unfold Ensures
    rw [fails]
    exact .refl s
  | lambda names body value mark returned ih =>
    rw [Node.chain_arrow_of_ok returned]
    exact ih seed
  | function name arguments mark first =>
    have nested := Node.restores_firstQuery .step fun node mem mark => first node mem mark []
    exact careful_functionCall nested.careful name arguments
  | method receiver property computed arguments mark earlier first =>
    have nested (mark : DefaultMark) :=
      Node.restores_firstQuery mark fun node mem mark => first node mem mark []
    exact careful_chainCall (earlier seed) (nested .step).careful (nested .argument).careful mark seed

/-- Resolving a value, a predicate or a nested query restores the scope, whether it succeeds or not:
nothing but automatic parameters is added.  A nested query may do so by taking back the bindings and
then the rest of the statement. -/
theorem visits_restore_scope (node : Node) (s : Scope) :
    (∀ isPredicate,
      Ensures (node.resolve isPredicate) s (fun _ s' => s.Restored s') s.Restored) ∧
    Ensures (node.resolve true >>= predicate) s (fun _ s' => s.Restored s') s.Restored ∧
    ∀ mark,
      Ensures (subquery (node.chain mark [])) s (fun _ s' => s.Restored s') s.Restored ∧
      subquery (node.chain mark []) s =
        withStatement (withBindings (selectOnly (node.chain mark []))) s := by
  have body (isPredicate : Bool) := restores_of_tidy (node.tidy_resolve isPredicate)
  have asPredicate : Tidy .everything (closed .everything) (node.resolve true >>= predicate) :=
    fun t within => (node.tidy_resolve true t within).bind fun _ _ _ within' formed =>
      .predicate within' formed
  refine ⟨fun isPredicate => body isPredicate s, restores_of_tidy asPredicate s, fun mark => ?_⟩
  have chain := node.careful_chain mark []
  refine ⟨restores_subquery chain s, ?_⟩
  exact congrFun (careful_selectOnly chain).nested_eq s

end FluentQuery
