import FluentQuery.Proofs.Operation.Sound
import FluentQuery.Proofs.Resolve.ChainInduction
import FluentQuery.Proofs.Resolve.FormedBodies

/-!
# Chains build sound queries

Every method makes a sound query of a sound query, whatever its arguments are: conditions are made of
predicates, selectors and keys of values, and what is nested is a query of its own.  Main statement:
`Node.forms_chain`.
-/

namespace FluentQuery

set_option autoImplicit false

open FluentQuery.Expr (Filled Formed FormedTest FormedMembers formative_filled aggregating_filled)

namespace Resolve

open Operation (Sound Selects IsOpen)

variable {α β : Type} {p : Expr → Prop} {post : α → Prop}

namespace Forms

theorem failArguments {least most got : Nat} :
    Forms p post (failArguments least most got : Resolve α) :=
  .get fun _ _ => .fail

theorem failStatement {statement : String} : Forms p post (failStatement statement : Resolve α) :=
  .get fun _ _ => .fail

/-- A change of the scope, after which what it hands out has the property again. -/
theorem alter {change : Scope → Scope} (h : ∀ s : Scope, s.Hands p → (change s).Hands p) :
    Forms p (fun _ => True) (modify change : Resolve PUnit) := by
  rintro s a s' hands ⟨⟩
  exact ⟨h s hands, trivial⟩

/-- What is guaranteed without asking anything of the group key is guaranteed in every scope. -/
theorem yields {work : Resolve α} (h : Forms (fun _ => True) post work) : Yields post work :=
  fun s a s' run => (h s a s' ⟨fun _ _ => trivial, .inl Expr.aggregating_trivial⟩ run).2

/-- Nothing follows a failure. -/
theorem stop {failure : Resolve α} {next : α → Resolve β} {post : β → Prop}
    (failing : Forms p (fun _ => False) failure) : Forms p post (failure >>= next) :=
  failing.bind fun _ => False.elim

/-- A check that may fail before the work goes on. -/
theorem check {c : Prop} [Decidable c] {failure : Resolve PUnit} {next : PUnit → Resolve β}
    {post : β → Prop} (failing : Forms p (fun _ => False) failure) (h : Forms p post (next ⟨⟩)) :
    Forms p post (if c then failure >>= next else next ⟨⟩) := by
  split
  · exact failing.stop
  · exact h

end Forms

/-! ### Lambdas -/

/-- Lambdas over rows name the row, or a group, which makes aggregates. -/
theorem forms_bindRowParams (aggregating : Expr.Aggregating p) (params : List String) :
    Forms p (fun _ => True) (bindRowParams params) := by
  have row (name : String) : Forms p (fun _ => True) (bindRow name) :=
    .alter fun _ hands => ⟨hands.1, .inl aggregating⟩
  unfold bindRowParams
  split
  · exact .pure trivial
  · exact row _
  · exact (row _).bind fun _ _ => .rebind (Bindings.keepsRows_bindParam _)
  · exact .get fun _ _ => .fail

theorem forms_bindTableParam (params : List String) :
    Forms p (fun _ => True) (bindTableParam params) := by
  unfold bindTableParam
  split
  · exact .pure trivial
  · exact .rebind (Bindings.keepsRows_bindTable _)

theorem forms_bindOuter (name : String) : Forms p (fun _ => True) (bindOuter name) := by
  refine .rebind fun b rows => ?_
  split
  · exact Bindings.keepsRows_bindShape name _ b rows
  · exact Bindings.keepsRows_bindJoin name 0 b rows

theorem forms_bindOuterParam (params : List String) :
    Forms p (fun _ => True) (bindOuterParam params) := by
  unfold bindOuterParam
  split
  · exact .pure trivial
  · exact forms_bindOuter _

theorem forms_bindResultParams (index : Int) (params : List String) :
    Forms p (fun _ => True) (bindResultParams index params) := by
  unfold bindResultParams
  split
  · exact .pure trivial
  · exact forms_bindOuter _
  · exact (forms_bindOuter _).bind fun _ _ => .rebind (Bindings.keepsRows_bindJoin _ _)
  · exact .get fun _ _ => .fail

theorem forms_bindQueryParam (params : List String) :
    Forms p (fun _ => True) (bindQueryParam params) := by
  unfold bindQueryParam
  split
  · exact .pure trivial
  · exact .rebind (Bindings.keepsRows_bindParam _)

theorem forms_bindConflictParams (params : List String) :
    Forms p (fun _ => True) (bindConflictParams params) := by
  unfold bindConflictParams
  split
  · exact .pure trivial
  · exact .rebind (Bindings.keepsRows_bindTable _)
  · exact .rebind ((Bindings.keepsRows_bindTable _).comp (Bindings.keepsRows_bindExcluded _))

theorem forms_bindUpdateParams (params : List String) :
    Forms p (fun _ => True) (bindUpdateParams params) := by
  unfold bindUpdateParams
  split
  · exact .pure trivial
  · exact .rebind (Bindings.keepsRows_bindTable _)
  · exact .rebind ((Bindings.keepsRows_bindTable _).comp (Bindings.keepsRows_bindParam _))

/-- A lambda over rows returns an expression with all its operands. -/
theorem forms_rowValue (node : Node) : Forms Filled (Formed Filled) (rowValue node) :=
  .get fun _ _ => node.forms_resolveLambda formative_filled false _ _
    (forms_bindRowParams aggregating_filled)

/-- A condition over rows is a predicate. -/
theorem forms_rowPredicate (node : Node) : Forms Filled (FormedTest Filled) (rowPredicate node) := by
  refine .get fun _ _ => ?_
  refine (node.forms_resolveLambda formative_filled true _ _
    (forms_bindRowParams aggregating_filled)).bind ?_
  exact fun _ formed => forms_predicate formative_filled formed.2

theorem forms_setShape (shape : Option ResultShape) :
    Forms p (fun _ => True) (setShape shape) :=
  .rebind fun _ rows => rows

/-! ### Methods of a SELECT -/

section

variable {source : Operation} (sound : source.Sound) (arguments : List Node)

/-- Only a SELECT that can be extended goes on. -/
theorem forms_require (sound : source.Sound) {next : Unit → Resolve α}
    (h : source.Selects → source.IsOpen → Forms p post (next ())) :
    Forms p post (requireSelect source >>= next) := by
  intro s a s' key run
  obtain ⟨_, t, passed, -⟩ := bind_eq_ok.1 run
  have isOpen := yields_requireSelect sound.built.ne_nil s _ t passed
  rw [requireSelect_open isOpen] at run
  exact h (sound.selects isOpen) isOpen s a s' key run

/-- A condition that is added to another. -/
theorem complete_conj {e condition : Expr} (is : condition.IsCondition)
    (filled : condition.Every Filled) (h : e.FormedTest Filled) :
    (condition.conj e).IsCondition ∧ (condition.conj e).Every Filled :=
  (Expr.filled_conj is (.inr h.1) filled h.2).symm

include sound

/-- `where` adds a predicate to a query, or joins it to that of an UPDATE or a DELETE. -/
theorem forms_filter : Forms Filled Sound (filter source arguments) := by
  unfold filter
  split
  · rename_i argument
    split
    · rename_i st rest
      obtain ⟨condition, assigned, filled, returning⟩ :=
        Step.complete_update.1 (sound.complete (List.mem_cons_self ..))
      refine (forms_rowPredicate argument).bind fun e h => .pure ?_
      obtain ⟨condition', filled'⟩ := complete_conj condition filled h
      cases sound with
      | select selects => cases selects.noCrud _ (List.mem_cons_self ..)
      | change =>
        exact .change rfl (Step.complete_update.2 ⟨condition', assigned, filled', returning⟩)
    · rename_i st rest
      obtain ⟨condition, filled⟩ := Step.complete_delete.1 (sound.complete (List.mem_cons_self ..))
      refine (forms_rowPredicate argument).bind fun e h => .pure ?_
      cases sound with
      | select selects => cases selects.noCrud _ (List.mem_cons_self ..)
      | change => exact .change rfl (Step.complete_delete.2 (complete_conj condition filled h))
    · refine forms_require sound fun selects isOpen => ?_
      refine (forms_rowPredicate argument).bind fun e h => .pure ?_
      exact selects.push isOpen rfl rfl (Step.complete_of_slot h.1 rfl h.2) rfl rfl
  · exact .failArguments

/-- A selector has all its operands. -/
theorem forms_select : Forms Filled Sound (select source arguments) := by
  refine forms_require sound fun selects isOpen => ?_
  split
  · refine (forms_rowValue _).bind fun e h => ?_
    refine Forms.bind (.alter fun _ _ => (Scope.hands_iff aggregating_filled).2 Expr.every_absent)
      fun _ _ => ?_
    refine (forms_setShape _).bind fun _ _ => .pure ?_
    exact selects.push isOpen rfl rfl (Step.complete_of_slot h.1 rfl h.2) rfl rfl
  · exact .failArguments

/-- The key of the groups is handed out to later lambdas, so that it has to be formed. -/
theorem forms_groupBy : Forms Filled Sound (groupBy source arguments) := by
  refine forms_require sound fun selects isOpen => ?_
  split
  · refine .get fun s _ => ?_
    refine .check .fail ?_
    refine (forms_rowValue _).bind fun e h => ?_
    refine Forms.bind (.alter fun _ _ => (Scope.hands_iff aggregating_filled).2 h.2) fun _ _ =>
      .pure ?_
    exact selects.push isOpen rfl rfl (Step.complete_of_slot h.1 rfl h.2) rfl rfl
  · exact .failArguments

theorem forms_sort (kind : SortKind) (descending : Bool) :
    Forms Filled Sound (sort kind descending source arguments) := by
  refine forms_require sound fun selects isOpen => ?_
  split
  · rename_i argument
    have rest : Forms Filled Sound
        (rowValue argument >>= fun key => pure (.sort kind key descending :: source)) :=
      (forms_rowValue argument).bind fun e h => .pure <|
        selects.push isOpen rfl rfl (Step.complete_of_slot h.1 rfl h.2) rfl rfl
    dsimp only
    split
    · exact .get fun _ _ => .stop .fail
    · exact rest
  · exact .failArguments

theorem forms_page (kind : PageKind) : Forms Filled Sound (page kind source arguments) := by
  refine forms_require sound fun selects isOpen => ?_
  have pages {e : Expr} (h : e.Formed Filled) : Sound (.page kind e :: source) :=
    selects.push isOpen rfl rfl (Step.complete_of_slot h.1 rfl h.2) rfl rfl
  split
  · split
    · dsimp only
      split
      · exact .get fun _ _ => .stop .fail
      · exact (forms_autoParam formative_filled _ _ _).bind fun e h => .pure (pages h)
    · exact .get fun _ _ => .fail
  · exact (Node.forms_resolve formative_filled _ false).bind fun e h => .pure (pages h)
  · exact .failArguments

theorem forms_mark {step : Step} (isFrom : step.isFrom = false) (isCrud : step.isCrud = false)
    (complete : step.Complete) (nested : step.nested = []) (joins : step.joins = false) :
    Forms Filled Sound (mark step source arguments) := by
  refine forms_require sound fun selects isOpen => ?_
  split
  · exact .pure (selects.push isOpen isFrom isCrud complete nested joins)
  · exact .failArguments

/-- A condition of a terminal step is a predicate, or there is none. -/
theorem forms_terminal (kind : TerminalKind) :
    Forms Filled Sound (terminal kind source arguments) := by
  refine forms_require sound fun selects isOpen => ?_
  split
  · refine (forms_rowPredicate _).bind fun e h => .pure ?_
    refine selects.push isOpen rfl rfl (Step.complete_of_slot ?_ rfl h.2) rfl rfl
    exact ⟨.inr h.1, fun _ => h.formed.1⟩
  · rename_i several
    have without (need : kind ≠ .all) : Sound (.terminal kind .absent :: source) :=
      selects.push isOpen rfl rfl
        (Step.complete_of_slot ⟨.inl rfl, fun all => absurd all need⟩ rfl Expr.every_absent) rfl rfl
    dsimp only
    by_cases all : kind = .all
    · -- Asking for all needs an argument, and one argument is a predicate.
      rw [if_pos all]
      split
      · rename_i enough
        match arguments, several, enough with
        | [argument], several, _ => exact absurd rfl (several argument)
        | [], _, enough => cases enough
        | _ :: _ :: _, _, enough => simp at enough
      · exact .failArguments
    · rw [if_neg all]
      split
      · exact .pure (without all)
      · exact .failArguments

theorem forms_contains : Forms Filled Sound (contains source arguments) := by
  refine forms_require sound fun selects isOpen => ?_
  have holds {e : Expr} (h : e.Formed Filled) : Sound (.contains e :: source) :=
    selects.push isOpen rfl rfl (Step.complete_of_slot h.1 rfl h.2) rfl rfl
  split
  · dsimp only
    split
    · split
      · exact (forms_literal formative_filled _ _).bind fun e h => .pure (holds h)
      · exact (forms_autoParam formative_filled _ _ _).bind fun e h => .pure (holds h)
    · exact (Node.forms_resolve formative_filled _ false).bind fun e h => .pure (holds h)
  · exact .failArguments

/-- An aggregate has a selector, or none. -/
theorem forms_aggregate (kind : AggregateKind) :
    Forms Filled Sound (aggregate kind source arguments) := by
  refine forms_require sound fun selects isOpen => ?_
  have aggregates {e : Expr} (h : e.Every Filled) : Sound (.aggregate kind e :: source) :=
    selects.push isOpen rfl rfl (Step.complete_of_slot trivial rfl h) rfl rfl
  split
  · exact .pure (aggregates Expr.every_absent)
  · exact (forms_rowValue _).bind fun e h => .pure (aggregates h.2)
  · exact .failArguments

/-! ### Joins -/

omit sound in
theorem forms_keyColumn (side : String) (e : Expr) :
    Forms p (fun _ => True) (keyColumn side e) := by
  unfold keyColumn
  split
  · exact .pure trivial
  · exact .get fun _ _ => .fail

omit sound in
/-- Keys of joins are columns by name. -/
theorem forms_joinKeys (outer inner : Node) : Forms Filled (fun _ => True) (joinKeys outer inner) := by
  refine .get fun _ _ => ?_
  refine (outer.forms_resolveLambda formative_filled _ _ _ forms_bindOuterParam).bind fun _ _ => ?_
  refine (forms_keyColumn _ _).bind fun _ _ => ?_
  refine (inner.forms_resolveLambda formative_filled _ _ _ forms_bindTableParam).bind fun _ _ => ?_
  exact (forms_keyColumn _ _).bind fun _ _ => .pure trivial

omit sound in
theorem forms_resultSelector (index : Int) (node : Node) :
    Forms Filled (Formed Filled) (resultSelector index node) :=
  .get fun _ _ => node.forms_resolveLambda formative_filled _ _ _ (forms_bindResultParams index)

omit sound in
theorem forms_addTable (index : Int) (shape : Option ResultShape) :
    Forms p (fun _ => True) (addTable index shape) :=
  Forms.bind (.alter fun _ key => key) fun _ _ => forms_setShape _

omit sound in
/-- A join holds a query of its own, which is sound. -/
theorem forms_finishJoin (selects : source.Selects) (isOpen : source.IsOpen) (kind : JoinKind)
    {inner : Operation} (query : inner.Selects) (keys : JoinKeys) {selector : Expr}
    (h : selector.Every Filled) (index : Int) :
    Forms Filled Sound (finishJoin kind inner keys selector index source) := by
  refine (forms_addTable _ _).bind fun _ _ => .pure ?_
  exact selects.pushQuery isOpen rfl rfl (Step.complete_of_slot trivial rfl h) query

/-- A join is sound if the query in its argument is. -/
theorem forms_join (kind : JoinKind) {inner : Resolve Operation}
    (nests : arguments ≠ [] → Forms Filled Selects inner) :
    Forms Filled Sound (join kind source arguments inner) := by
  refine forms_require sound fun selects isOpen => .get fun _ _ => ?_
  dsimp only
  split
  · split
    · refine (nests (List.cons_ne_nil _ _)).bind fun op query => ?_
      exact forms_finishJoin selects isOpen _ query _ Expr.every_absent _
    · refine (nests (List.cons_ne_nil _ _)).bind fun op query => ?_
      refine (forms_resultSelector _ _).bind fun e h => ?_
      exact forms_finishJoin selects isOpen _ query _ h.2 _
    · exact .failArguments
  · split
    · refine (nests (List.cons_ne_nil _ _)).bind fun op query => ?_
      refine (forms_joinKeys _ _).bind fun keys _ => ?_
      exact forms_finishJoin selects isOpen _ query _ Expr.every_absent _
    · refine (nests (List.cons_ne_nil _ _)).bind fun op query => ?_
      refine (forms_joinKeys _ _).bind fun keys _ => (forms_resultSelector _ _).bind fun e h => ?_
      exact forms_finishJoin selects isOpen _ query _ h.2 _
    · exact .failArguments

/-- A group join is sound if the query in its argument is. -/
theorem forms_groupJoin {inner : Resolve Operation}
    (nests : arguments ≠ [] → Forms Filled Selects inner) :
    Forms Filled Sound (groupJoin source arguments inner) := by
  refine forms_require sound fun selects isOpen => ?_
  split
  · refine .get fun _ _ => (nests (List.cons_ne_nil _ _)).bind fun op query => ?_
    refine (forms_joinKeys _ _).bind fun keys _ => (forms_resultSelector _ _).bind fun e h => ?_
    split
    · dsimp only
      split
      · exact .fail
      · refine (forms_addTable _ _).bind fun _ _ => .pure ?_
        exact selects.pushQuery isOpen rfl rfl (Step.complete_of_slot rfl rfl h.2) query
    · exact .fail
  · exact .failArguments

omit sound in
theorem forms_groupTable (path : List String) : Forms p (fun _ => True) (groupTable path) := by
  refine .get fun _ _ => ?_
  split
  · exact .pure trivial
  · exact .pure trivial
  · exact .fail

omit sound in
theorem forms_finishSelectMany (selects : source.Selects) (isOpen : source.IsOpen)
    {collection : Operation} (query : collection ≠ [] → collection.Selects) (path : List String)
    (usesDefault : Bool) (index : Int) (selector? : Option Node) :
    Forms Filled Sound (finishSelectMany collection path usesDefault index selector? source) := by
  have flattens {e : Expr} (h : e.Every Filled) (shape : Option ResultShape) :
      Sound (.selectMany collection (Text.dotted path) e shape usesDefault :: source) := by
    refine .select (.extend selects isOpen.goesOn rfl rfl ?_ nofun query)
    exact Step.complete_of_slot trivial rfl h
  unfold finishSelectMany
  split
  · refine (forms_resultSelector _ _).bind fun e h => ?_
    exact (forms_setShape _).bind fun _ _ => .pure (flattens h.2 _)
  · refine Forms.bind (.pure Expr.every_absent) fun e (h : e.Every Filled) => ?_
    exact (forms_setShape _).bind fun _ _ => .pure (flattens h _)

omit sound in
/-- A collection is a query that is sound, or a group without a query. -/
theorem forms_flatten (selects : source.Selects) (isOpen : source.IsOpen) (argument : Node)
    (selector? : Option Node) {query : Resolve Operation} (nests : Forms Filled Selects query) :
    Forms Filled Sound (flatten argument selector? source query) := by
  unfold flatten
  split
  · exact .failUnplaced
  · dsimp only
    split
    · refine nests.bind fun op query => .get fun _ _ => ?_
      refine Forms.bind (.alter fun _ key => key) fun _ _ => ?_
      split
      · -- A mark for an empty collection comes after the query of the collection.
        cases query with
        | start isFrom => cases isFrom
        | extend below => exact forms_finishSelectMany selects isOpen (fun _ => below) _ _ _ _
      · exact forms_finishSelectMany selects isOpen (fun _ => query) _ _ _ _
    · refine (forms_groupTable _).bind fun _ _ => ?_
      exact forms_finishSelectMany selects isOpen (fun h => absurd rfl h) _ _ _ _

theorem forms_selectMany {query : Resolve Operation}
    (nests : arguments ≠ [] → Forms Filled Selects query) :
    Forms Filled Sound (selectMany source arguments query) := by
  refine forms_require sound fun selects isOpen => ?_
  split
  · exact forms_flatten selects isOpen _ _ (nests (List.cons_ne_nil _ _))
  · exact forms_flatten selects isOpen _ _ (nests (List.cons_ne_nil _ _))
  · exact .failArguments

/-! ### Methods of INSERT, UPDATE and DELETE -/

end

section

variable {source : Operation} (sound : source.Sound) (arguments : List Node)

include sound

/-- The statement of an INSERT is the only step, and is complete. -/
theorem forms_requireInsert {next : InsertStatement × Operation → Resolve α}
    (h : ∀ s : InsertStatement, (Step.insert s).Complete → Forms p post (next (s, []))) :
    Forms p post (requireInsert source >>= next) := by
  unfold requireInsert
  split
  · cases sound with
    | select selects => cases selects.noCrud _ (List.mem_cons_self ..)
    | change _ complete => exact h _ complete
  · exact Forms.failStatement.stop

theorem forms_requireUpdate {next : UpdateStatement × Operation → Resolve α}
    (h : ∀ s : UpdateStatement, (Step.update s).Complete → Forms p post (next (s, []))) :
    Forms p post (requireUpdate source >>= next) := by
  unfold requireUpdate
  split
  · cases sound with
    | select selects => cases selects.noCrud _ (List.mem_cons_self ..)
    | change _ complete => exact h _ complete
  · exact Forms.failStatement.stop

theorem forms_requireDelete {next : DeleteStatement × Operation → Resolve α}
    (h : ∀ s : DeleteStatement, (Step.delete s).Complete → Forms p post (next (s, []))) :
    Forms p post (requireDelete source >>= next) := by
  unfold requireDelete
  split
  · cases sound with
    | select selects => cases selects.noCrud _ (List.mem_cons_self ..)
    | change _ complete => exact h _ complete
  · exact Forms.failStatement.stop

omit sound

/-- A value that is assigned is there. -/
theorem forms_assignedValue (column : String) (node : Node) :
    Forms Filled (Formed Filled) (assignedValue column node) := by
  unfold assignedValue
  split
  · exact .pure ⟨nofun, (Expr.every_constant _).2 trivial⟩
  · exact forms_autoParam formative_filled _ _ _
  · exact Node.forms_resolve formative_filled _ _

/-- Assignments are formed one by one. -/
theorem forms_assignmentsFrom (properties : List Property) {done : Assignments}
    (h : FormedMembers Filled done) :
    Forms Filled (FormedMembers Filled) (assignmentsFrom done properties) := by
  induction properties generalizing done with
  | nil => exact .pure h
  | cons property rest ih =>
    cases property with
    | spread => exact .get fun _ _ => .fail
    | named column value shorthand =>
      unfold assignmentsFrom
      dsimp only
      split
      · exact .get fun _ _ => .stop .fail
      · refine (forms_assignedValue _ _).bind fun e assigned => ih ?_
        have last : FormedMembers Filled [(column, e)] :=
          Expr.formedMembers_single formative_filled assigned
        exact Expr.formedMembers_append formative_filled h last

theorem forms_assignments (node : Node) :
    Forms Filled (FormedMembers Filled) (assignments node) := by
  unfold assignments
  split
  · exact forms_assignmentsFrom _ (Expr.formedMembers_nil formative_filled)
  · exact .get fun _ _ => .fail

theorem forms_assignmentArgument {bindParams : List String → Resolve Unit}
    (binds : ∀ params, Forms Filled (fun _ => True) (bindParams params)) (node : Node) :
    Forms Filled (FormedMembers Filled) (assignmentArgument bindParams node) := by
  unfold assignmentArgument
  split
  · refine .withBindings ((binds _).bind fun _ _ => ?_)
    split
    · exact forms_assignments _
    · exact .failUnplaced
  · exact forms_assignments _

include sound

/-- `values` assigns formed values. -/
theorem forms_values : Forms Filled Sound (values source arguments) := by
  refine forms_requireInsert sound fun s complete => ?_
  obtain ⟨-, returning, conflict⟩ := Step.complete_insert.1 complete
  dsimp only
  split
  · refine .check .fail ?_
    refine (forms_assignmentArgument forms_bindQueryParam _).bind fun assigned h => ?_
    refine .check .fail (.pure (.change rfl (Step.complete_insert.2 ?_)))
    exact ⟨Step.filled_assigned h, returning, conflict⟩
  · exact .failArguments

omit sound in
theorem forms_conflictTarget (columns : List Node) (done : List String) :
    Forms Filled (fun _ => True) (conflictTarget done columns) := by
  induction columns generalizing done with
  | nil => exact .pure trivial
  | cons column rest ih =>
    refine (column.forms_resolveLambda formative_filled _ _ _ forms_bindTableParam).bind fun _ _ => ?_
    split
    · exact .check .fail (.check .fail (ih _))
    · exact .fail

theorem forms_onConflict : Forms Filled Sound (onConflict source arguments) := by
  refine forms_requireInsert sound fun s complete => ?_
  obtain ⟨values, returning, -⟩ := Step.complete_insert.1 complete
  refine .check .fail (.check .fail (.check .fail ?_))
  refine (forms_conflictTarget _ _).bind fun target _ => .pure ?_
  exact .change rfl (Step.complete_insert.2 ⟨values, returning, nofun⟩)

omit sound in
/-- A conflict clause without an action assigns what the statement has it assign. -/
theorem forms_openConflict {s : InsertStatement} (complete : (Step.insert s).Complete) :
    Forms Filled (fun conflict => ∀ e ∈ Step.conflictExprs (some conflict), e.Every Filled)
      (openConflict s) := by
  obtain ⟨-, -, h⟩ := Step.complete_insert.1 complete
  unfold openConflict
  split
  · exact .get fun _ _ => .fail
  · rename_i conflict is
    rw [is] at h
    split
    · exact .pure h
    · exact .fail

theorem forms_doNothing : Forms Filled Sound (doNothing source arguments) := by
  refine forms_requireInsert sound fun s complete => .check .failArguments ?_
  obtain ⟨values, returning, -⟩ := Step.complete_insert.1 complete
  refine (forms_openConflict complete).bind fun conflict h => .pure ?_
  exact .change rfl (Step.complete_insert.2 ⟨values, returning, h⟩)

/-- `doUpdateSet` assigns formed values. -/
theorem forms_doUpdateSet : Forms Filled Sound (doUpdateSet source arguments) := by
  refine forms_requireInsert sound fun s complete => ?_
  obtain ⟨values, returning, -⟩ := Step.complete_insert.1 complete
  dsimp only
  split
  · refine (forms_openConflict complete).bind fun conflict _ => ?_
    refine (forms_assignmentArgument forms_bindConflictParams _).bind fun assigned h => ?_
    refine .check .fail (.pure (.change rfl (Step.complete_insert.2 ?_)))
    exact ⟨values, returning, Step.filled_assigned h⟩
  · exact .failArguments

omit sound in
theorem forms_returningSelector : Forms Filled (Formed Filled) (returningSelector arguments) := by
  unfold returningSelector
  split
  · exact Node.forms_resolveLambda formative_filled _ _ _ _ forms_bindTableParam
  · exact .failArguments

/-- `returning` selects what is formed. -/
theorem forms_returning : Forms Filled Sound (returning source arguments) := by
  unfold returning
  split
  · obtain ⟨values, -, conflict⟩ :=
      Step.complete_insert.1 (sound.complete (List.mem_cons_self ..))
    refine .check .fail ((forms_returningSelector _).bind fun e h => .pure ?_)
    cases sound with
    | select selects => cases selects.noCrud _ (List.mem_cons_self ..)
    | change => exact .change rfl (Step.complete_insert.2 ⟨values, h.2, conflict⟩)
  · obtain ⟨condition, assigned, predicate, -⟩ :=
      Step.complete_update.1 (sound.complete (List.mem_cons_self ..))
    refine (forms_returningSelector _).bind fun e h => .pure ?_
    cases sound with
    | select selects => cases selects.noCrud _ (List.mem_cons_self ..)
    | change => exact .change rfl (Step.complete_update.2 ⟨condition, assigned, predicate, h.2⟩)
  · exact .fail

/-- `set` assigns formed values. -/
theorem forms_setColumns : Forms Filled Sound (setColumns source arguments) := by
  refine forms_requireUpdate sound fun s complete => ?_
  obtain ⟨condition, -, predicate, returning⟩ := Step.complete_update.1 complete
  dsimp only
  split
  · refine .check .fail ?_
    refine (forms_assignmentArgument forms_bindUpdateParams _).bind fun assigned h => ?_
    refine .check .fail (.pure (.change rfl (Step.complete_update.2 ?_)))
    exact ⟨condition, Step.filled_assigned h, predicate, returning⟩
  · exact .failArguments

theorem forms_allowFullTableUpdate :
    Forms Filled Sound (allowFullTableUpdate source arguments) :=
  forms_requireUpdate sound fun _ complete => .check .failArguments <|
    .pure (.change rfl ⟨complete.slots, complete.nodes⟩)

theorem forms_allowFullTableDelete :
    Forms Filled Sound (allowFullTableDelete source arguments) :=
  forms_requireDelete sound fun _ complete => .check .failArguments <|
    .pure (.change rfl ⟨complete.slots, complete.nodes⟩)

/-! ### Calls -/

/-- Every method keeps a query sound. -/
theorem forms_apply {inner collection : Resolve Operation}
    (nests : arguments ≠ [] → Forms Filled Selects inner)
    (collects : arguments ≠ [] → Forms Filled Selects collection) (method : Method) :
    Forms Filled Sound (apply method source arguments inner collection) := by
  cases method with
  | filter => exact forms_filter sound _
  | select => exact forms_select sound _
  | groupBy => exact forms_groupBy sound _
  | sort kind descending => exact forms_sort sound _ _ _
  | page kind => exact forms_page sound _ _
  | distinct | reverse | defaultIfEmpty =>
    exact forms_mark sound _ rfl rfl ⟨trivial, nofun⟩ rfl rfl
  | join kind => exact forms_join sound _ _ nests
  | groupJoin => exact forms_groupJoin sound _ nests
  | selectMany => exact forms_selectMany sound _ collects
  | terminal kind => exact forms_terminal sound _ _
  | contains => exact forms_contains sound _
  | aggregate kind => exact forms_aggregate sound _ _
  | values => exact forms_values sound _
  | onConflict => exact forms_onConflict sound _
  | doNothing => exact forms_doNothing sound _
  | doUpdateSet => exact forms_doUpdateSet sound _
  | returning => exact forms_returning sound _
  | set => exact forms_setColumns sound _
  | allowFullTableUpdate => exact forms_allowFullTableUpdate sound _
  | allowFullTableDelete => exact forms_allowFullTableDelete sound _

/-- A method by its name keeps a query sound; an unknown one is refused. -/
theorem forms_call {inner collection : Resolve Operation}
    (nests : arguments ≠ [] → Forms Filled Selects inner)
    (collects : arguments ≠ [] → Forms Filled Selects collection) (name : String) :
    Forms Filled Sound (call name source arguments inner collection) := by
  refine Forms.bind (.alter fun _ key => key) fun _ _ => ?_
  split
  · exact forms_apply sound _ nests collects _
  · exact .fail

end

/-! ### Chains -/

theorem forms_nameArgument (method : String) (node : Node) :
    Forms p (fun _ => True) (nameArgument method node) := by
  unfold nameArgument
  split
  · exact .pure trivial
  · exact .fail

theorem forms_tableArguments (method : String) (arguments : List Node) :
    Forms p (fun _ => True) (tableArguments method arguments) := by
  have named (schema table : String) : Forms p (fun _ => True)
      (if table.isEmpty then do
        fail (α := PUnit) (ChainFault.tableNameEmpty method)
        return (schema, table)
      else return (schema, table)) := by
    split
    · exact .stop .fail
    · exact .pure trivial
  unfold tableArguments
  split
  · refine (forms_nameArgument _ _).bind fun _ _ => (forms_nameArgument _ _).bind fun _ _ => ?_
    exact named _ _
  · exact (forms_nameArgument _ _).bind fun _ _ => named _ _
  · exact .stop .fail

theorem forms_startStatement (operation table : String) :
    Forms p (fun _ => True) (startStatement operation table) :=
  .alter fun _ hands => ⟨Expr.every_absent, hands.2⟩

/-- A new statement is sound. -/
theorem sound_start (method : RootMethod) (schema table : String) :
    Sound [method.step schema table] := by
  cases method with
  | «from» => exact .select (.start rfl fun h => absurd rfl h)
  | insertInto =>
    exact .change rfl (Step.complete_insert.2 ⟨nofun, Expr.every_absent, nofun⟩)
  | update =>
    exact .change rfl
      (Step.complete_update.2 ⟨.inl rfl, nofun, Expr.every_absent, Expr.every_absent⟩)
  | deleteFrom => exact .change rfl (Step.complete_delete.2 ⟨.inl rfl, Expr.every_absent⟩)

/-- A nested query is an argument. -/
theorem ne_nil_of_isSubquery (method : RootMethod) (arguments : List Node)
    (h : (match method, arguments with
      | .from, [argument] => !argument.isLiteral
      | _, _ => false) = true) : arguments ≠ [] := by
  rintro rfl
  cases method <;> cases h

/-- The first call makes a sound query, over a sound one if it is nested. -/
theorem forms_root {subquery : Resolve Operation} {arguments : List Node}
    (nests : arguments ≠ [] → Forms Filled Selects subquery) (method : RootMethod) :
    Forms Filled Sound (root method arguments subquery) := by
  have rest (isSubquery : Bool) (given : isSubquery = true → arguments ≠ []) : Forms Filled Sound
      (if isSubquery then do
        let op ← subquery
        startStatement "select" ""
        return [.fromSource "" "" op ""]
      else do
        let name ← tableArguments method.name arguments
        startStatement method.statement name.2
        return [method.step name.1 name.2]) := by
    split
    · rename_i h
      refine (nests (given h)).bind fun op query => (forms_startStatement _ _).bind fun _ _ => ?_
      exact .pure (.select (.start rfl fun _ => query))
    · refine (forms_tableArguments _ _).bind fun name _ => (forms_startStatement _ _).bind fun _ _ => ?_
      exact .pure (sound_start method name.1 name.2)
  refine Forms.bind (.alter fun _ key => key) fun _ _ => ?_
  dsimp only
  split
  · exact Forms.bind (.alter fun _ key => key) fun _ _ => rest _ (ne_nil_of_isSubquery method arguments)
  · exact rest _ (ne_nil_of_isSubquery method arguments)

/-- A nested query is a SELECT; the key that rows around it are grouped by stays. -/
theorem forms_subquery {chain : Resolve Operation} (h : Forms Filled Sound chain) :
    Forms Filled Selects (subquery chain) := by
  intro s op s' key run
  unfold subquery nested at run
  split at run
  · rename_i op t found
    cases run
    have selects : _ ∧ op.Selects := h.bind (fun op sound => ?_) s _ _ key found
    · exact ⟨key, selects.2⟩
    split
    · rename_i step rest
      split
      · exact .fail
      · rename_i notCrud
        cases sound with
        | select selects => exact .pure selects
        | change isCrud => exact absurd isCrud notCrud
    · exact absurd rfl sound.built.ne_nil
  · cases run

/-- A call on a name extends the query at hand, or makes one. -/
theorem forms_onName {c : ChainCall} (nests : c.arguments ≠ [] → Forms Filled Selects c.inner)
    (collects : c.arguments ≠ [] → Forms Filled Selects c.collection) (name : String)
    {seed : Operation} (onto : seed ≠ [] → seed.Sound) :
    Forms Filled Sound (c.onName name seed) := by
  refine .get fun s _ => ?_
  dsimp only
  split
  · split
    · exact .fail
    · rename_i there
      refine forms_call (onto ?_) _ nests collects _
      rintro rfl
      exact there rfl
  · split
    · split
      · exact forms_root nests _
      · exact .fail
    · exact .fail

/-- A call of a chain extends the sound query before it. -/
theorem forms_chainCall {c : ChainCall} (earlier : Forms Filled Sound c.earlier)
    (nests : c.arguments ≠ [] → Forms Filled Selects c.inner)
    (collects : c.arguments ≠ [] → Forms Filled Selects c.collection) (mark : DefaultMark)
    {seed : Operation} (onto : seed ≠ [] → seed.Sound) :
    Forms Filled Sound (c.resolve mark seed) := by
  unfold ChainCall.resolve
  split
  · exact earlier
  split
  · exact .fail
  split
  · exact forms_onName nests collects _ onto
  · exact earlier.bind fun op sound => forms_call sound _ nests collects _

theorem forms_functionCall {inner : Resolve Operation} {arguments : List Node}
    (nests : arguments ≠ [] → Forms Filled Selects inner) (name : String) :
    Forms Filled Sound (functionCall name arguments inner) := by
  unfold functionCall
  split
  · exact forms_root nests _
  · exact .fail

end Resolve

open Operation (Sound Selects)
open Resolve

/-- The first of several nodes is a sound query of its own, if its chain is sound. -/
theorem Node.forms_firstQuery {nodes : List Node} (mark : DefaultMark) (nonempty : nodes ≠ [])
    (h : ∀ first ∈ nodes.head?, ∀ mark, Forms Filled Sound (first.chain mark [])) :
    Forms Filled Selects (Node.firstQuery mark nodes) := by
  cases nodes with
  | nil => exact absurd rfl nonempty
  | cons first rest => exact forms_subquery (h first rfl mark)

/-- A chain makes a sound query, of nothing or of a sound query that it extends. -/
theorem Node.forms_chain (node : Node) (mark : DefaultMark) (seed : Operation)
    (onto : seed ≠ [] → seed.Sound) : Forms Filled Sound (node.chain mark seed) := by
  induction node, mark using Node.chain_induction generalizing seed with
  | refused node mark h => exact fun _ _ _ _ run => absurd run h.ne_ok
  | lambda names body value mark returned ih =>
    rw [Node.chain_arrow_of_ok returned]
    exact ih seed onto
  | function name arguments mark first =>
    have nested (nonempty : arguments ≠ []) := Node.forms_firstQuery .step nonempty
      fun node mem mark => first node mem mark [] fun h => absurd rfl h
    exact forms_functionCall nested name
  | method receiver property computed arguments mark earlier first =>
    have nested (mark : DefaultMark) (nonempty : arguments ≠ []) := Node.forms_firstQuery mark nonempty
      fun node mem mark => first node mem mark [] fun h => absurd rfl h
    exact forms_chainCall (earlier seed onto) (nested .step) (nested .argument) mark onto

end FluentQuery
