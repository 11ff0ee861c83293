import FluentQuery.Proofs.Resolve.Numbering
import FluentQuery.Proofs.Resolve.RowBodies

/-!
# Rows between calls

`RowState` says what the rows of a SELECT are between two calls: the object that the last result
selector or projection made, in terms of the tables of the statement.  `RowState.after` is what a method
makes of it, in the terms of the source language; `Resolve.leads_carries` says that the scope carries
the same along, as a shape.
-/

namespace FluentQuery

set_option autoImplicit false

/-! ### What a method makes of rows -/

/-- What the parameters of a selector stand for, the first for one value and the second for another.  A
later parameter hides an earlier one of the same name. -/
def RowValue.pair (outer inner : RowValue) (params : List String) (name : String) : RowValue :=
  if name = "" then .other
  else
    match params with
    | [first] => if name = first then outer else .other
    | [first, second] =>
      if name = second then inner else if name = first then outer else .other
    | _ => .other

/-- The rows of a collection, one by one. -/
def RowValue.element : RowValue → RowValue
  | .collection table => .row table
  | _ => .other

/-- The object that a selector makes of two values. -/
def Node.selected (outer inner : RowValue) : Node → RowValue
  | .arrow params body =>
    match body.lambdaBody with
    | .ok (.object properties) =>
      (Node.object properties).rowValue (RowValue.pair outer inner params)
    | _ => .other
  | _ => .other

/-- The rows of a SELECT between two calls. -/
structure RowState where
  /-- How many tables the statement has. -/
  tables : Int
  row : RowValue
  /-- Whether rows are grouped, so that lambdas see a group in place of a row. -/
  grouped : Bool

namespace RowState

/-- The rows of a table. -/
def start : RowState :=
  ⟨1, .row 0, false⟩

/-- What the parameter of a lambda stands for; of a group nothing is said. -/
def param (state : RowState) : RowValue :=
  if state.grouped then .other else state.row

/-- The rows after a join, which keeps of the joined table what the inner parameter stands for. -/
def joined (state : RowState) (inner : RowValue) (selector? : Option Node) : RowState :=
  let row := selector?.elim .other (·.selected state.param inner)
  { state with tables := state.tables + 1, row }

/-- The rows after a collection is flattened: that of a group join, or a query of its own, which adds a
table. -/
def flattened (state : RowState) (argument : Node) (selector? : Option Node) : RowState :=
  match argument.collection with
  | .error _ => state
  | .ok collection =>
    if collection.path.isEmpty then state.joined (.row state.tables) selector?
    else
      let inner := (state.param.follow collection.path).element
      { state with row := selector?.elim .other (·.selected state.param inner) }

/-- The rows after a call of a method. -/
def after (state : RowState) (method : Method) (arguments : List Node) : RowState :=
  match method, arguments with
  | .select, [selector] =>
    { state with row := selector.selected state.param .other, grouped := false }
  | .groupBy, _ => { state with grouped := true }
  | .join _, [_, selector] | .join _, [_, _, _, selector] =>
    state.joined (.row state.tables) (some selector)
  | .join _, _ => state.joined .other none
  | .groupJoin, [_, _, _, selector] => state.joined (.collection state.tables) (some selector)
  | .selectMany, [argument] => state.flattened argument none
  | .selectMany, [argument, selector] => state.flattened argument (some selector)
  | _, _ => state

/-- The rows after the call that added the last step.  A projection that computes a window leaves no
shape, so nothing is said of what it made. -/
def settled (state : RowState) : Operation → RowState
  | .select selector :: _ => if selector.hasWindow then { state with row := .other } else state
  | _ => state

theorem settled_of_windowless (state : RowState) {op : Operation}
    (windowless : Operation.selectsWindow op = false) : state.settled op = state := by
  unfold settled
  split
  · rw [Operation.selectsWindow, Bool.or_eq_false_iff] at windowless
    rw [windowless.1, if_neg Bool.false_ne_true]
  · rfl

end RowState

/-! ### Scopes that carry them along -/

/-- What the current shape says of rows: without a shape they are rows of the first table, or nothing is
known. -/
def Bindings.Describes (count : Int) (value : RowValue) (shape : Option ResultShape) : Prop :=
  match shape with
  | some shape => (Shape.object shape).Shows count value
  | none => value = .row 0 ∨ value = .other

/-- A scope between two calls carries along what rows are. -/
structure Scope.Carries (state : RowState) (s : Scope) : Prop where
  count : s.tableCount = state.tables
  positive : 0 < state.tables
  idle : s.bindings.Idle
  ungrouped : state.grouped = false → s.groupByKey.isAbsent = true
  described : Bindings.Describes state.tables state.row s.bindings.shape

variable {count : Int} {b : Bindings} {s s' : Scope} {name : String} {outer inner value : RowValue}
  {state : RowState}

namespace Bindings

theorem Describes.mono {count' : Int} (le : count ≤ count') {shape : Option ResultShape}
    (h : Describes count value shape) : Describes count' value shape := by
  cases shape with
  | some shape => exact Shape.Shows.mono le h
  | none => exact h

/-- The outer row of a join. -/
theorem stands_outer (positive : 0 < count) (proposed : b.excluded = "")
    (described : Describes count value b.shape) (named : name ≠ "") :
    Stands count
      (match b.shape with
        | some shape => b.bindShape name (some shape)
        | none => b.bindJoin name 0) name value := by
  cases hshape : b.shape with
  | some shape =>
    rw [hshape] at described
    exact .shaped (shapeRow_bindShape proposed named shape) (contains_erase_self _ _)
      (Assoc.find?_erase_self _ _) described
  | none =>
    rw [hshape] at described
    rcases described with rfl | rfl
    · exact .joined (tableRow_bindJoin proposed name 0) (contains_erase_self _ _)
        ⟨Int.le_refl 0, positive⟩
    · exact .unknown

/-- The row of a lambda. -/
theorem stands_bindElement (proposed : b.excluded = "")
    (described : Describes count value b.shape) (named : name ≠ "") :
    (b.bindElement name).Stands count name value := by
  unfold bindElement
  cases hshape : b.shape with
  | some shape =>
    rw [hshape] at described
    exact .shaped (shapeRow_bindShape proposed named shape) (contains_erase_self _ _)
      (Assoc.find?_erase_self _ _) described
  | none =>
    rw [hshape] at described
    rcases described with rfl | rfl
    · have found : (b.bindTable name).tables.contains name = true :=
        List.contains_iff_mem.2 ((NameSet.mem_insert _ _ _).2 (.inl rfl))
      exact .first ⟨proposed, contains_erase_self _ _, contains_erase_self _ _⟩ found
        (Assoc.find?_erase_self _ _) hshape
    · exact .unknown

/-- A row of the joined table, or the rows of it that are kept together. -/
theorem stands_bindJoin {table : Int} (known : Shape.InRange count table) (b : Bindings)
    (proposed : b.excluded = "") (name : String) :
    (b.bindJoin name table).Stands count name (.row table) :=
  .joined (tableRow_bindJoin proposed name table) (contains_erase_self _ _) known

theorem stands_bindGroup (table : Int) (b : Bindings) (proposed : b.excluded = "") (name : String) :
    (b.bindJoin name table).Stands count name (.collection table) :=
  .group (tableRow_bindJoin proposed name table) (contains_erase_self _ _)

end Bindings

namespace Scope.Carries

theorem alike (h : s.Carries state) (same : s.Alike s') : s'.Carries state := by
  obtain ⟨bindings, groupByKey, tableCount⟩ := same
  constructor
  · rw [tableCount, h.count]
  · exact h.positive
  · rw [bindings]
    exact h.idle
  · rw [groupByKey]
    exact h.ungrouped
  · rw [bindings]
    exact h.described

theorem forget (h : s.Carries state) : s.Carries { state with row := .other } := by
  have described : Bindings.Describes state.tables .other s.bindings.shape := by
    cases s.bindings.shape with
    | some shape => exact .other
    | none => exact .inr rfl
  exact ⟨h.count, h.positive, h.idle, h.ungrouped, described⟩

theorem settled (h : s.Carries state) (op : Operation) : s.Carries (state.settled op) := by
  unfold RowState.settled
  split
  · split
    · exact h.forget
    · exact h
  · exact h

/-- The parameter of a lambda stands for a row, unless rows are grouped. -/
theorem param (h : b.Stands count name state.row) : b.Stands count name state.param := by
  unfold RowState.param
  split
  · exact .unknown
  · exact h

end Scope.Carries

/-- The parameters of a lambda are bound to what a pair of values says. -/
def Resolve.BindsPair (count : Int) (outer inner : RowValue) (s : Scope)
    (bindParams : List String → Resolve Unit) : Prop :=
  ∀ params t, bindParams params s = .ok () t →
    ∀ name, t.bindings.Stands count name (RowValue.pair outer inner params name)

namespace Resolve

theorem stands_none (name : String) : b.Stands count name (RowValue.pair outer inner [] name) := by
  have unknown : RowValue.pair outer inner [] name = .other := by
    unfold RowValue.pair
    split <;> rfl
  exact unknown ▸ .unknown

theorem stands_single {first : String} (h : first ≠ "" → b.Stands count first outer)
    (name : String) : b.Stands count name (RowValue.pair outer inner [first] name) := by
  unfold RowValue.pair
  split
  · exact .unknown
  · dsimp only
    split
    · rename_i named same
      subst same
      exact h named
    · exact .unknown

theorem stands_pair {first second : String} (h : second ≠ "" → b.Stands count second inner)
    (h' : first ≠ "" → second ≠ first → b.Stands count first outer) (name : String) :
    b.Stands count name (RowValue.pair outer inner [first, second] name) := by
  unfold RowValue.pair
  split
  · exact .unknown
  · rename_i named
    dsimp only
    split
    · rename_i same
      subst same
      exact h named
    · split
      · rename_i later same
        subst same
        exact h' named (Ne.symm later)
      · exact .unknown

/-- The parameters of a result selector. -/
theorem bindsPair_bindResultParams (h : s.Carries state) (le : state.tables ≤ count) {index : Int}
    (joined : ∀ b : Bindings, b.excluded = "" → ∀ name,
      (b.bindJoin name index).Stands count name inner) :
    BindsPair count state.param inner s (bindResultParams index) := by
  have positive : 0 < count := Int.lt_of_lt_of_le h.positive le
  have outerRow {name : String} (named : name ≠ "") :=
    Bindings.stands_outer positive h.idle.2 (h.described.mono le) named
  intro params t run name
  match params with
  | [] => exact stands_none name
  | [first] =>
    cases run
    exact stands_single (fun named => Scope.Carries.param (outerRow named)) name
  | [first, second] =>
    cases run
    refine stands_pair (fun _ => joined _ ?_ _) (fun named ne => ?_) name
    · dsimp only
      cases s.bindings.shape <;> exact h.idle.2
    · exact (Scope.Carries.param (outerRow named)).leave (Bindings.leaves_bindJoin _ ne index)
  | _ :: _ :: _ :: _ => cases run

/-- The parameters of a row lambda: the row, then the parameters of the query. -/
theorem bindsPair_bindRowParams (h : s.Carries state) :
    BindsPair state.tables state.param .other s bindRowParams := by
  have row {name : String} {t : Scope} (run : bindRow name s = .ok () t) (named : name ≠ "") :
      t.bindings.Stands state.tables name state.param := by
    cases run
    cases grouped : state.grouped with
    | true =>
      have unknown : state.param = .other := if_pos grouped
      exact unknown ▸ .unknown
    | false =>
      dsimp only
      rw [if_pos (h.ungrouped grouped)]
      exact Scope.Carries.param (Bindings.stands_bindElement h.idle.2 h.described named)
  intro params t run name
  match params with
  | [] => exact stands_none name
  | [first] => exact stands_single (row run) name
  | [first, second] =>
    obtain ⟨_, t', bound, run⟩ := bind_eq_ok.1 run
    cases run
    refine stands_pair (fun _ => .unknown) (fun named ne => ?_) name
    exact (row bound named).leave (Bindings.leaves_bindParam _ ne)
  | _ :: _ :: _ :: _ => cases run

/-! ### Selectors -/

theorem selected_cases (outer inner : RowValue) (selector : Node) :
    selector.selected outer inner = .other ∨
      ∃ members spread, selector.selected outer inner = .object members spread := by
  unfold Node.selected
  split
  · split
    · rw [Node.rowValue]
      split
      · exact .inr ⟨_, _, rfl⟩
      · exact .inl rfl
    · exact .inl rfl
  · exact .inl rfl

/-- The shape of an object says what rows are. -/
theorem describes_resultShape {e : Expr} {selector : Node}
    (yields : e.Yields count (selector.selected outer inner)) :
    Bindings.Describes count (selector.selected outer inner) e.resultShape := by
  rcases selected_cases outer inner selector with unknown | ⟨members, spread, object⟩
  · rw [unknown]
    cases e.resultShape with
    | some shape => exact .other
    | none => exact .inr rfl
  · rw [object] at yields ⊢
    obtain ⟨properties, rfl, fields⟩ := yields.exists_object
    exact fields.shows spread

/-- Work that is tidy leaves the scope as it was, but for automatic parameters. -/
theorem leads_alike {work : Resolve Expr} (tidy : Tidy .everything (closed .everything) work) :
    Leads s (fun _ s' => s.Alike s') work :=
  (TidyAt.leads (tidy s s.within_everything)).mono (fun _ _ h => h.1) fun _ => id

theorem alike_lambda (node : Node) (isPredicate : Bool) (method : String)
    {bindParams : List String → Resolve Unit}
    (binds : ∀ params, Rebinds .everything (bindParams params)) :
    Leads s (fun _ s' => s.Alike s') (node.resolveLambda isPredicate method bindParams) :=
  leads_alike (node.tidy_resolveLambda isPredicate method bindParams fun params _ _ => binds params)

/-- The expression of a selector yields the object that the selector makes. -/
theorem leads_selected (positive : 0 < count) {bindParams : List String → Resolve Unit}
    (rebinds : ∀ params, Rebinds .everything (bindParams params))
    (binds : BindsPair count outer inner s bindParams) (selector : Node) (method : String) :
    Leads s (fun e s' => s.Alike s' ∧ e.Yields count (selector.selected outer inner))
      (selector.resolveLambda false method bindParams) := by
  refine .intro fun e s' run => ?_
  have alike := Ensures.of_ok (alike_lambda selector false method rebinds) run
  refine ⟨alike, ?_⟩
  cases selector with
  | arrow params body =>
    rw [Node.resolveLambda_arrow] at run
    unfold withParams withBindings at run
    split at run
    · rename_i e' t inside
      cases run
      obtain ⟨_, t', bound, inside⟩ := bind_eq_ok.1 inside
      rw [Node.selected]
      split
      · rename_i properties object
        rw [object] at inside
        exact Node.yields_resolve positive (.object properties) false (binds params t' bound) inside
      · exact e.yields_other
    · cases run
  | _ => exact e.yields_other

/-- The result selector of a join. -/
theorem leads_resultObject (h : s.Carries state) (le : state.tables ≤ count) {index : Int}
    (joined : ∀ b : Bindings, b.excluded = "" → ∀ name, (b.bindJoin name index).Stands count name inner)
    (selector : Node) :
    Leads s (fun e s' => s.Alike s' ∧ e.Yields count (selector.selected state.param inner))
      (resultSelector index selector) := by
  have positive : 0 < count := Int.lt_of_lt_of_le h.positive le
  have rebinds (params : List String) : Rebinds .everything (bindResultParams index params) :=
    rebinds_bindResultParams trivial trivial params
  exact .get (leads_selected positive rebinds (bindsPair_bindResultParams h le joined) selector _)

/-! ### Methods -/

/-- After a call the scope carries along what the method made of rows. -/
def carries (state : RowState) (op : Operation) (s : Scope) : Prop :=
  s.Carries (state.settled op)

variable {source : Operation}

/-- A step is added that leaves the rows as they are. -/
theorem leads_calm (h : s.Carries state) (make : Expr → Step) {work : Resolve Expr}
    (alike : Leads s (fun _ s' => s.Alike s') work) :
    Leads s (carries state) (work >>= fun e => pure (make e :: source)) := by
  refine .bind alike ?_
  intro e s' same
  exact .pure ((h.alike same).settled _)

theorem alike_rowValue (node : Node) : Leads s (fun _ s' => s.Alike s') (rowValue node) :=
  .get (alike_lambda node false _ (rebinds_bindRowParams fun _ => trivial))

theorem alike_rowPredicate (node : Node) : Leads s (fun _ s' => s.Alike s') (rowPredicate node) := by
  refine .get (.bind (alike_lambda node true _ (rebinds_bindRowParams fun _ => trivial)) ?_)
  intro e s' same
  unfold predicate
  cases e.toBoolean with
  | ok e' => exact .pure same
  | error => exact .fail

section

variable (h : s.Carries state) (isOpen : source.IsOpen) (arguments : List Node)

include h isOpen

theorem carries_filter : Leads s (carries state) (filter source arguments) := by
  unfold filter
  split
  · split
    · cases isOpen.1
    · cases isOpen.1
    · exact .require isOpen (leads_calm h .filter (alike_rowPredicate _))
  · exact .failArguments

theorem carries_sort (kind : SortKind) (descending : Bool) :
    Leads s (carries state) (sort kind descending source arguments) := by
  refine .require isOpen ?_
  split
  · dsimp only
    split
    · exact trivial
    · exact leads_calm h (.sort kind · descending) (alike_rowValue _)
  · exact .failArguments

theorem carries_page (kind : PageKind) : Leads s (carries state) (page kind source arguments) := by
  refine .require isOpen ?_
  split
  · split
    · dsimp only
      split
      · exact trivial
      · exact leads_calm h (.page kind) (leads_alike (tidy_autoParam _ _ _))
    · exact trivial
  · exact leads_calm h (.page kind) (leads_alike (Node.tidy_resolve _ false))
  · exact .failArguments

theorem carries_mark (step : Step) : Leads s (carries state) (mark step source arguments) := by
  refine .require isOpen ?_
  split
  · exact .pure (h.settled _)
  · exact .failArguments

theorem carries_terminal (kind : TerminalKind) :
    Leads s (carries state) (terminal kind source arguments) := by
  refine .require isOpen ?_
  split
  · exact leads_calm h (.terminal kind) (alike_rowPredicate _)
  · generalize (if kind = TerminalKind.all then 1 else 0) = least
    dsimp only
    split
    · exact .pure (h.settled _)
    · exact .failArguments

theorem carries_contains : Leads s (carries state) (contains source arguments) := by
  have found {work : Resolve Expr} (tidy : Tidy .everything (closed .everything) work) :
      Leads s (carries state) (work >>= fun e => pure (.contains e :: source)) :=
    leads_calm h .contains (leads_alike tidy)
  refine .require isOpen ?_
  split
  · dsimp only
    split
    · split
      · exact found (tidy_literal _ _)
      · exact found (tidy_autoParam _ _ _)
    · exact found (Node.tidy_resolve _ false)
  · exact .failArguments

theorem carries_aggregate (kind : AggregateKind) :
    Leads s (carries state) (aggregate kind source arguments) := by
  refine .require isOpen ?_
  split
  · exact .pure (h.settled _)
  · exact leads_calm h (.aggregate kind) (alike_rowValue _)
  · exact .failArguments

/-- Later lambdas see what a projection made, unless it computes a window. -/
theorem carries_select : Leads s (carries (state.after .select arguments))
    (select source arguments) := by
  refine .require isOpen ?_
  split
  · rename_i selector
    have rebinds (params : List String) : Rebinds .everything (bindRowParams params) :=
      rebinds_bindRowParams (fun _ => trivial) params
    refine .bind (.get (leads_selected h.positive rebinds (bindsPair_bindRowParams h) selector _)) ?_
    rintro e s' ⟨same, yields⟩
    refine .modify (.modify (.pure ?_))
    have h' := h.alike same
    unfold carries RowState.settled
    dsimp only
    cases windowed : e.hasWindow with
    | true => exact ⟨h'.count, h'.positive, h'.idle, fun _ => rfl, .inr rfl⟩
    | false => exact ⟨h'.count, h'.positive, h'.idle, fun _ => rfl, describes_resultShape yields⟩
  · exact .failArguments

theorem carries_groupBy :
    Leads s (carries (state.after .groupBy arguments)) (groupBy source arguments) := by
  refine .require isOpen ?_
  split
  · refine .get (.check (.bind (alike_rowValue _) ?_))
    intro key s' same
    have h' := h.alike same
    have grouped : Scope.Carries { state with grouped := true } { s' with groupByKey := key } :=
      ⟨h'.count, h'.positive, h'.idle, nofun, h'.described⟩
    exact .modify (.pure (grouped.settled _))
  · exact .failArguments

end

/-! ### Joins -/

theorem alike_joinKeys (outer inner : Node) :
    Leads s (fun _ s' => s.Alike s') (joinKeys outer inner) := by
  refine .get (.bind (alike_lambda outer false _ (rebinds_bindOuterParam trivial)) ?_)
  intro e s₁ same₁
  refine .bind (leads_pickKey "outer" e) ?_
  rintro ⟨outerColumn, table⟩ _ rfl
  refine .bind (alike_lambda inner false _ rebinds_bindTableParam) ?_
  intro e' s₂ same₂
  refine .bind (leads_pickKey "inner" e') ?_
  rintro ⟨innerColumn, _⟩ _ rfl
  exact .pure (same₁.trans same₂)

/-- One more table is joined, and rows have a new shape. -/
theorem carries_addTable (h : s.Carries state) {index : Int} (hindex : index = state.tables)
    {shape : Option ResultShape} {row : RowValue}
    (described : Bindings.Describes (state.tables + 1) row shape) :
    Scope.Carries { state with tables := state.tables + 1, row }
      { s with tableCount := index + 1, bindings := { s.bindings with shape } } := by
  have positive := h.positive
  refine ⟨?_, ?_, h.idle, h.ungrouped, described⟩
  · rw [hindex]
  · dsimp only
    omega

theorem carries_finishJoin (h : s.Carries state) {index : Int} (hindex : index = state.tables)
    {selector : Expr} {row : RowValue}
    (described : Bindings.Describes (state.tables + 1) row selector.resultShape) (kind : JoinKind)
    (inner : Operation) (keys : JoinKeys) :
    Leads s (carries { state with tables := state.tables + 1, row })
      (finishJoin kind inner keys selector index source) :=
  (carries_addTable h hindex described).settled _

section

variable (h : s.Carries state) (isOpen : source.IsOpen) (arguments : List Node)
  {query : Resolve Operation} (embeds : arguments ≠ [] → Embeds query)

include h isOpen embeds

theorem carries_join (kind : JoinKind) :
    Leads s (carries (state.after (.join kind) arguments)) (join kind source arguments query) := by
  have hindex := h.count
  -- Without a selector nothing is known of the rows, with one it is what the selector makes.
  have without {t : Scope} {op : Operation} {keys : JoinKeys} (same : s.Alike t) :
      Leads t (carries (state.joined .other none))
        (finishJoin kind op keys .absent s.tableCount source) := by
    have unknown : Bindings.Describes (state.tables + 1) .other none := .inr rfl
    exact carries_finishJoin (h.alike same) hindex unknown kind op keys
  have selected {t : Scope} {op : Operation} {keys : JoinKeys} (same : s.Alike t) (selector : Node) :
      Leads t (carries (state.joined (.row state.tables) (some selector))) (do
        let e ← resultSelector s.tableCount selector
        finishJoin kind op keys e s.tableCount source) := by
    have known : Shape.InRange (state.tables + 1) s.tableCount := by
      have := h.positive
      constructor <;> omega
    refine .bind (leads_resultObject (h.alike same) (by omega)
      (Bindings.stands_bindJoin known) selector) ?_
    rintro e t' ⟨same', yields⟩
    rw [hindex] at yields
    have described := describes_resultShape yields
    exact carries_finishJoin ((h.alike same).alike same') hindex described kind op keys
  refine .require isOpen (.get ?_)
  dsimp only
  split
  · split
    · refine .bind (embeds (by simp) s h.idle) ?_
      rintro op s₁ ⟨-, -, same⟩
      exact without same
    · refine .bind (embeds (by simp) s h.idle) ?_
      rintro op s₁ ⟨-, -, same⟩
      exact selected same _
    · exact .failArguments
  · split
    · refine .bind (embeds (by simp) s h.idle) ?_
      rintro op s₁ ⟨-, -, same⟩
      refine .bind (alike_joinKeys _ _) ?_
      intro keys s₂ same₂
      exact without (same.trans same₂)
    · refine .bind (embeds (by simp) s h.idle) ?_
      rintro op s₁ ⟨-, -, same⟩
      refine .bind (alike_joinKeys _ _) ?_
      intro keys s₂ same₂
      exact selected (same.trans same₂) _
    · exact .failArguments

end

/-! ### Group joins -/

/-- A whole row of a selector is a field of its shape. -/
theorem mem_shapeProperties_of_rowMembers {properties : List (String × Expr)} {key : String}
    {table : Int} (mem : (key, table) ∈ rowMembers properties) :
    (key, Shape.reference table) ∈ Expr.shapeProperties properties := by
  have later {m : String × Expr} {rest : List (String × Expr)}
      (mem : (key, Shape.reference table) ∈ Expr.shapeProperties rest) :
      (key, Shape.reference table) ∈ Expr.shapeProperties (m :: rest) := by
    obtain ⟨named, e, mem, shape⟩ := Expr.mem_shapeProperties.1 mem
    exact Expr.mem_shapeProperties.2 ⟨named, e, List.mem_cons_of_mem _ mem, shape⟩
  fun_induction rowMembers properties with
  | case1 => cases mem
  | case2 name source row rest index hindex empty ih => exact later (ih mem)
  | case3 name source row rest index hindex named ih =>
    rcases List.mem_cons.1 mem with same | mem
    · cases same
      refine Expr.mem_shapeProperties.2 ⟨?_, .reference source row, List.mem_cons_self .., ?_⟩
      · simpa using named
      · rw [Expr.shapeNode, hindex, Option.getD_some]
    · exact later (ih mem)
  | case4 name source row rest unindexed ih => exact later (ih mem)
  | case5 m rest other ih => exact later (ih mem)

theorem mem_extendShape {shape others : ResultShape} {field : String × Shape}
    (mem : field ∈ extendShape shape others) : field ∈ shape ∨ field ∈ others := by
  fun_induction extendShape shape others with
  | case1 => exact .inl mem
  | case2 shape key node rest _ found ih => exact (ih mem).imp_right (List.mem_cons_of_mem _)
  | case3 shape key node rest found ih =>
    rcases ih mem with mem | mem
    · rcases List.mem_append.1 mem with mem | mem
      · exact .inl mem
      · exact .inr (List.mem_singleton.1 mem ▸ List.mem_cons_self ..)
    · exact .inr (List.mem_cons_of_mem _ mem)

theorem keys_extendShape {shape others : ResultShape} {key : String}
    (mem : key ∈ Assoc.keys shape ∨ key ∈ Assoc.keys others) :
    key ∈ Assoc.keys (extendShape shape others) := by
  fun_induction extendShape shape others with
  | case1 => exact mem.resolve_right List.not_mem_nil
  | case2 shape name node rest field found ih =>
    refine ih (mem.elim .inl fun mem => ?_)
    rcases List.mem_cons.1 mem with rfl | mem
    · rw [Shape.lookup_eq_find?] at found
      exact .inl (Assoc.mem_keys_of_mem (Assoc.mem_of_find? found))
    · exact .inr mem
  | case3 shape name node rest found ih =>
    refine ih ?_
    rw [Assoc.keys, List.map_append, List.mem_append]
    rcases mem with mem | mem
    · exact .inl (.inl mem)
    · rcases List.mem_cons.1 mem with rfl | mem
      · exact .inl (.inr (List.mem_singleton_self _))
      · exact .inr mem

/-- The shape of a group join shows what the shape of its selector shows, with the rows of the joined
table kept together. -/
theorem fields_groupJoin {index : Int} (nonneg : 0 ≤ index) {properties : List (String × Expr)}
    {members : List (String × RowValue)}
    (h : Shape.Fields index (Expr.shapeProperties properties) members) :
    Shape.Fields (index + 1)
      (extendShape (groupShape index (rowMembers properties)) (Expr.shapeProperties properties))
      members := by
  have wider {node : Shape} {value : RowValue} (shows : node.Shows index value) :
      node.Shows (index + 1) value := shows.mono (by omega)
  have grouped {key : String} {node : Shape}
      (mem : (key, node) ∈ groupShape index (rowMembers properties)) :
      ∃ table, (key, Shape.reference table) ∈ Expr.shapeProperties properties ∧
        node = if table = index then .array (some (.reference index)) else .reference table := by
    obtain ⟨⟨_, table⟩, row, same⟩ := List.mem_map.1 mem
    cases same
    exact ⟨table, mem_shapeProperties_of_rowMembers row, rfl⟩
  refine ⟨fun key mem => ?_, fun key node value mem written => ?_, fun key value written missing => ?_⟩
  · obtain ⟨node, mem⟩ := Assoc.exists_mem_of_mem_keys mem
    rcases mem_extendShape mem with mem | mem
    · obtain ⟨table, field, -⟩ := grouped mem
      exact h.known key (Assoc.mem_keys_of_mem field)
    · exact h.known key (Assoc.mem_keys_of_mem mem)
  · rcases mem_extendShape mem with mem | mem
    · obtain ⟨table, field, rfl⟩ := grouped mem
      have shows := h.shown key _ value field written
      split
      · subst table
        -- No row that was there before is one of the joined table.
        cases shows with
        | row known => exact absurd known.2 (Int.lt_irrefl _)
        | @collection _ table reference group =>
          obtain rfl := reference _ rfl
          refine .collection nofun ?_
          rintro element ⟨⟩
          exact ⟨rfl, nonneg, by omega⟩
        | other => exact .other
      · exact wider shows
    · exact wider (h.shown key node value mem written)
  · exact h.hidden key value written fun field => missing (keys_extendShape (.inr field))

section

variable (h : s.Carries state) (isOpen : source.IsOpen) (arguments : List Node)
  {query : Resolve Operation} (embeds : arguments ≠ [] → Embeds query)

include h isOpen embeds

theorem carries_groupJoin :
    Leads s (carries (state.after .groupJoin arguments)) (groupJoin source arguments query) := by
  have hindex := h.count
  refine .require isOpen ?_
  split
  · rename_i selector
    refine .get (.bind (embeds (by simp) s h.idle) ?_)
    rintro op s₁ ⟨-, -, same⟩
    refine .bind (alike_joinKeys _ _) ?_
    intro keys s₂ same₂
    have h₂ := (h.alike same).alike same₂
    rw [hindex]
    refine .bind (leads_resultObject h₂ (Int.le_refl _) (Bindings.stands_bindGroup _) selector) ?_
    rintro e s₃ ⟨same₃, yields⟩
    split
    · rename_i properties
      dsimp only
      split
      · exact .fail
      · have described : Bindings.Describes (state.tables + 1)
            (selector.selected state.param (.collection state.tables))
            (some (extendShape (groupShape state.tables (rowMembers properties))
              (Expr.shapeProperties properties))) := by
          rcases selected_cases state.param (.collection state.tables) selector with
            unknown | ⟨members, spread, object⟩
          · exact unknown ▸ .other
          · rw [object] at yields ⊢
            obtain ⟨_, ⟨⟩, fields⟩ := yields.exists_object
            exact (fields_groupJoin h.positive.le fields).shows spread
        exact (carries_addTable (h₂.alike same₃) rfl described).settled _
    · exact .fail
  · exact .failArguments

end

/-! ### Collections -/

/-- What a path through a shape leads to shows what the path leads to in the value. -/
theorem shows_follow {node found : Shape} {path : List String} (shows : node.Shows count value)
    (leads : node.follow path = some found) : found.Shows count (value.follow path) := by
  induction path generalizing node value with
  | nil =>
    rw [Shape.follow] at leads
    cases leads
    exact shows
  | cons key path ih =>
    rw [RowValue.follow_cons]
    cases node with
    | object fields =>
      rw [Shape.follow] at leads
      obtain ⟨next, field, leads⟩ := Option.bind_eq_some_iff.1 leads
      rw [Shape.lookup_eq_find?] at field
      have mem := Assoc.mem_of_find? field
      cases shows with
      | object known shown hidden =>
        obtain ⟨value, written⟩ := known key (Assoc.mem_keys_of_mem mem)
        rw [RowValue.member, written, Option.getD_some]
        exact ih (shown key next value mem written) leads
      | collection | other => exact ih .other leads
    | _ => cases leads

/-- The table of a group, if the path leads to the rows of a table. -/
theorem leads_groupOf (h : s.Carries state) {path : List String} (nonempty : path ≠ []) :
    Leads s (fun index s' => s' = s ∧ ∀ table, state.row.follow path = .collection table →
      index = table ∧ Shape.InRange state.tables table) (groupTable path) := by
  have shows {node : Shape}
      (found : (s.bindings.shape.bind fun shape => ResultShape.resolve shape path) = some node) :
      node.Shows state.tables (state.row.follow path) := by
    obtain ⟨shape, hshape, resolved⟩ := Option.bind_eq_some_iff.1 found
    have described := h.described
    rw [hshape] at described
    cases path with
    | nil => exact absurd rfl nonempty
    | cons key rest =>
      refine shows_follow described ?_
      rw [ResultShape.resolve] at resolved
      rw [Shape.follow, resolved]
  refine .get ?_
  split
  · rename_i element found
    refine .pure ⟨rfl, fun table leads => ?_⟩
    have shows := shows found
    rw [leads] at shows
    cases shows with
    | collection reference group =>
      obtain ⟨same, known⟩ := group _ rfl
      cases same
      exact ⟨rfl, known⟩
  · rename_i found
    refine .pure ⟨rfl, fun table leads => ?_⟩
    have shows := shows found
    rw [leads] at shows
    cases shows with
    | collection reference group => cases (group _ rfl).1
  · exact .fail

theorem carries_finishSelectMany (h : s.Carries state) {index : Int}
    (joined : ∀ b : Bindings, b.excluded = "" → ∀ name,
      (b.bindJoin name index).Stands state.tables name inner)
    (collection : Operation) (path : List String) (usesDefault : Bool) (selector? : Option Node) :
    Leads s (carries { state with row := selector?.elim .other (·.selected state.param inner) })
      (finishSelectMany collection path usesDefault index selector? source) := by
  have reshaped {t : Scope} (same : s.Alike t) {shape : Option ResultShape} {row : RowValue}
      (described : Bindings.Describes state.tables row shape) :
      Scope.Carries { state with row } { t with bindings := { t.bindings with shape } } :=
    have h' := h.alike same
    ⟨h'.count, h'.positive, h'.idle, h'.ungrouped, described⟩
  unfold finishSelectMany
  split
  · rename_i selector
    refine .bind (leads_resultObject h (Int.le_refl _) joined selector) ?_
    rintro e s' ⟨same, yields⟩
    exact (reshaped same (describes_resultShape yields)).settled _
  · have unknown : Bindings.Describes state.tables .other none := .inr rfl
    exact (reshaped (.refl s) unknown).settled _

theorem carries_flatten (h : s.Carries state) {query : Resolve Operation} (embeds : Embeds query)
    (argument : Node) (selector? : Option Node) :
    Leads s (carries (state.flattened argument selector?))
      (flatten argument selector? source query) := by
  unfold flatten RowState.flattened
  cases argument.collection with
  | error => exact .failUnplaced
  | ok collection =>
    dsimp only
    by_cases independent : collection.path.isEmpty = true
    · rw [if_pos independent, if_pos independent]
      refine .bind (embeds s h.idle) ?_
      rintro op s₁ ⟨-, -, same⟩
      refine .get (.modify ?_)
      have h₁ := h.alike same
      have wider : Scope.Carries { state with tables := state.tables + 1 }
          { s₁ with tableCount := s₁.tableCount + 1 } :=
        carries_addTable h₁ h₁.count (h₁.described.mono (by omega))
      have known : Shape.InRange (state.tables + 1) state.tables := by
        have := h.positive
        constructor <;> omega
      rw [h₁.count] at wider ⊢
      have joined := Bindings.stands_bindJoin known
      split
      · exact carries_finishSelectMany wider joined _ [] true selector?
      · exact carries_finishSelectMany wider joined _ [] _ selector?
    · rw [if_neg independent, if_neg independent]
      have nonempty : collection.path ≠ [] := fun empty => independent (by rw [empty]; rfl)
      refine .bind (leads_groupOf h nonempty) ?_
      rintro index _ ⟨rfl, group⟩
      refine carries_finishSelectMany h (fun b proposed name => ?_) [] _ _ selector?
      cases leads : state.param.follow collection.path with
      | collection table =>
        have ungrouped : state.param = state.row := by
          unfold RowState.param at leads ⊢
          split
          · rw [if_pos ‹_›, RowValue.follow_other] at leads
            cases leads
          · rfl
        rw [ungrouped] at leads
        obtain ⟨rfl, known⟩ := group table leads
        exact Bindings.stands_bindJoin known b proposed name
      | _ => exact .unknown

theorem carries_selectMany (h : s.Carries state) (isOpen : source.IsOpen) (arguments : List Node)
    {query : Resolve Operation} (embeds : arguments ≠ [] → Embeds query) :
    Leads s (carries (state.after .selectMany arguments)) (selectMany source arguments query) := by
  refine .require isOpen ?_
  split
  · exact carries_flatten h (embeds (by simp)) _ none
  · exact carries_flatten h (embeds (by simp)) _ (some _)
  · exact .failArguments

/-! ### Calls -/

/-- The scope carries along what a method makes of rows. -/
theorem leads_carries (h : s.Carries state) (isOpen : source.IsOpen) (method : Method)
    (arguments : List Node) {inner collection : Resolve Operation}
    (embeds : arguments ≠ [] → Embeds inner) (embeds' : arguments ≠ [] → Embeds collection) :
    Leads s (carries (state.after method arguments))
      (apply method source arguments inner collection) := by
  cases method with
  | filter => exact carries_filter h isOpen arguments
  | select => exact carries_select h isOpen arguments
  | groupBy => exact carries_groupBy h isOpen arguments
  | sort kind descending => exact carries_sort h isOpen arguments kind descending
  | page kind => exact carries_page h isOpen arguments kind
  | distinct | reverse | defaultIfEmpty => exact carries_mark h isOpen arguments _
  | join kind => exact carries_join h isOpen arguments embeds kind
  | groupJoin => exact carries_groupJoin h isOpen arguments embeds
  | selectMany => exact carries_selectMany h isOpen arguments embeds'
  | terminal kind => exact carries_terminal h isOpen arguments kind
  | contains => exact carries_contains h isOpen arguments
  | aggregate kind => exact carries_aggregate h isOpen arguments kind
  | values => exact .refuse isOpen (yields_values arguments)
  | onConflict => exact .refuse isOpen (yields_onConflict arguments)
  | doNothing => exact .refuse isOpen (yields_doNothing arguments)
  | doUpdateSet => exact .refuse isOpen (yields_doUpdateSet arguments)
  | returning => exact .refuse isOpen (yields_returning arguments)
  | set => exact .refuse isOpen (yields_setColumns arguments)
  | allowFullTableUpdate => exact .refuse isOpen (yields_allowFullTableUpdate arguments)
  | allowFullTableDelete => exact .refuse isOpen (yields_allowFullTableDelete arguments)

end Resolve

end FluentQuery
