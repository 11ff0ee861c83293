import FluentQuery.Proofs.Operation.Tables
import FluentQuery.Proofs.Resolve.ChainInvariants
import FluentQuery.Proofs.Resolve.ClosedBodies

/-!
# Numbers of tables

While the calls of a chain are resolved, the scope counts the tables of the statement, and the rows
that lambdas see belong to tables counted so far: `Scope.Follows`.  Each method keeps that up, so every
number in the operation of a chain is that of a table the query has when the call is made.  Main
statement: `Node.leads_chain`.
-/

namespace FluentQuery

set_option autoImplicit false

/-! ### The tables below a count -/

/-- Any parameter, and the tables below a count. -/
def Vocabulary.upTo (count : Int) : Vocabulary :=
  ⟨fun _ => True, fun i => 0 ≤ i ∧ i < count⟩

theorem Vocabulary.upTo_zero {count : Int} (h : 0 < count) : (Vocabulary.upTo count).tables 0 :=
  ⟨Int.le_refl 0, h⟩

/-- An expression names tables below a count only. -/
def Expr.NamesBelow (count : Int) (e : Expr) : Prop :=
  ∀ i ∈ e.tableIndices, 0 ≤ i ∧ i < count

/-- Expressions are closed up to a number if the tables they name are below it. -/
theorem Expr.closed_upTo {count : Int} {s : Scope} {e : Expr} :
    e.Closed (.upTo count) s ↔ e.NamesBelow count := by
  constructor
  · intro h i hi
    obtain ⟨node, hnode, hindex⟩ := mem_tableIndices.1 hi
    have known := h node hnode
    cases node with
    | column | booleanColumn | reference => exact known i hindex
    | _ => cases hindex
  · intro h node hnode
    cases node with
    | param | booleanParam => exact .inl trivial
    | column | booleanColumn | reference =>
      exact fun i hindex => h i (mem_tableIndices.2 ⟨_, hnode, hindex⟩)
    | _ => trivial

/-- Between calls no row of a joined table has a name, and no proposed row. -/
def Bindings.Idle (b : Bindings) : Prop :=
  b.joins = [] ∧ b.excluded = ""

namespace Scope

/-- Minting a parameter counts no table. -/
theorem Mints.alike {s s' : Scope} (h : s.Mints s') : s.Alike s' := by
  refine ⟨h.bindings, h.groupByKey, ?_⟩
  induction h with
  | refl => rfl
  | mint _ _ _ _ ih => exact ih

/-- A scope of a statement with the given number of joins: it counts the tables, and the rows and keys
it knows belong to them. -/
structure Follows (joins : Nat) (s : Scope) : Prop where
  count : s.tableCount = joins + 1
  idle : s.bindings.Idle
  shape : ∀ shape, s.bindings.shape = some shape →
    Shape.OverAll (fun i => 0 ≤ i ∧ i < joins + 1) shape
  groupKey : s.groupByKey.NamesBelow (joins + 1)

namespace Follows

variable {joins : Nat} {s s' : Scope}

/-- Scopes that count the same tables follow the same joins. -/
theorem alike (h : s.Follows joins) (same : s.Alike s') : s'.Follows joins := by
  obtain ⟨bindings, groupByKey, tableCount⟩ := same
  constructor
  · rw [tableCount, h.count]
  · rw [bindings]
    exact h.idle
  · rw [bindings]
    exact h.shape
  · rw [groupByKey]
    exact h.groupKey

/-- What a scope binds is numbered below the next table. -/
theorem within (h : s.Follows joins) {count : Int} (le : joins + 1 ≤ count) :
    s.Within (.upTo count) := by
  have wider (i : Int) (hi : 0 ≤ i ∧ i < (joins + 1 : Int)) : 0 ≤ i ∧ i < count :=
    ⟨hi.1, by omega⟩
  refine ⟨⟨fun _ _ => trivial, fun name index found => ?_, fun shape hshape => ?_⟩, ?_⟩
  · rw [h.idle.1] at found
    cases found
  · exact Shape.OverAll.mono wider shape (h.shape shape hshape)
  · exact Expr.closed_upTo.2 fun i hi => wider i (h.groupKey i hi)

/-- One more table is joined, and rows have a new shape. -/
theorem addTable (h : s.Follows joins) {index : Int} (hindex : index = joins + 1)
    {shape : Option ResultShape}
    (known : ∀ fields, shape = some fields →
      Shape.OverAll (fun i => 0 ≤ i ∧ i < (joins + 1 : Nat) + (1 : Int)) fields) :
    Follows (joins + 1)
      { s with tableCount := index + 1, bindings := { s.bindings with shape } } := by
  refine ⟨?_, h.idle, known, fun i hi => ?_⟩
  · rw [hindex]
    rfl
  · have := h.groupKey i hi
    omega

/-- Rows have a new shape. -/
theorem setShape (h : s.Follows joins) {shape : Option ResultShape}
    (known : ∀ fields, shape = some fields →
      Shape.OverAll (fun i => 0 ≤ i ∧ i < joins + (1 : Int)) fields) :
    Follows joins { s with bindings := { s.bindings with shape } } :=
  ⟨h.count, h.idle, known, h.groupKey⟩

end Follows

end Scope

namespace Resolve

variable {α β : Type}

/-- Work that binds nothing for good counts no table. -/
theorem TidyAt.leads {v : Vocabulary} {s : Scope} {post : α → Scope → Prop} {work : Resolve α}
    (h : TidyAt v s post work) : Leads s (fun a s' => s.Alike s' ∧ post a s') work :=
  Ensures.mono h (fun _ _ ⟨minted, _, hpost⟩ => ⟨minted.alike, hpost⟩) fun _ _ => trivial

/-! ### Lambdas of a chain -/

section

variable {v : Vocabulary}

namespace Rebinds

theorem pure : Rebinds v (pure ()) :=
  fun s within => ⟨s.bindings, rfl, within.bindings⟩

theorem fail {fault : Fault} : Rebinds v (fail fault) :=
  fun s _ => ⟨s.bindings, rfl⟩

theorem get {next : Scope → Resolve Unit} (h : ∀ s, Rebinds v (next s)) :
    Rebinds v (get >>= next) :=
  fun s within => h s s within

theorem bind {change : Bindings → Bindings}
    (h : ∀ b : Bindings, b.Within v → (change b).Within v) : Rebinds v (bind change) :=
  fun _ within => ensures_bind (h _ within.bindings)

theorem seq {first second : Resolve Unit} (h : Rebinds v first) (h' : Rebinds v second) :
    Rebinds v (first >>= fun _ => second) := by
  intro s within
  refine Ensures.bind (h s within) ?_
  rintro _ _ ⟨b, rfl, known⟩
  exact h' { s with bindings := b } ⟨known, within.groupKey⟩

end Rebinds

theorem rebinds_bindRow (name : String) : Rebinds v (bindRow name) := by
  intro s within
  refine ⟨_, rfl, ?_⟩
  split
  · exact within.bindings.bindElement name
  · exact ⟨within.bindings.params, within.bindings.joins, within.bindings.shape⟩

theorem rebinds_bindTableParam (params : List String) : Rebinds v (bindTableParam params) := by
  unfold bindTableParam
  split
  · exact .pure
  · exact .bind fun b known => known.bindTable _

theorem rebinds_bindOuter (first : v.tables 0) (name : String) : Rebinds v (bindOuter name) := by
  refine .bind fun b known => ?_
  split
  · rename_i shape hshape
    exact known.bindShape name fun fields same => known.shape fields (hshape.trans same)
  · exact known.bindJoin name first

theorem rebinds_bindOuterParam (first : v.tables 0) (params : List String) :
    Rebinds v (bindOuterParam params) := by
  unfold bindOuterParam
  split
  · exact .pure
  · exact rebinds_bindOuter first _

theorem rebinds_bindResultParams (first : v.tables 0) {index : Int} (known : v.tables index)
    (params : List String) : Rebinds v (bindResultParams index params) := by
  unfold bindResultParams
  split
  · exact .pure
  · exact rebinds_bindOuter first _
  · exact (rebinds_bindOuter first _).seq (.bind fun b within => within.bindJoin _ known)
  · exact .get fun _ => .fail

theorem rebinds_bindRowParams (any : ∀ name, v.params name) (params : List String) :
    Rebinds v (bindRowParams params) := by
  unfold bindRowParams
  split
  · exact .pure
  · exact rebinds_bindRow _
  · exact (rebinds_bindRow _).seq (.bind fun b within => within.bindParam _ (any _))
  · exact .get fun _ => .fail

end

/-- The result is an expression that names tables below a count, and the scope is what it was. -/
def named (s : Scope) (count : Int) (e : Expr) (s' : Scope) : Prop :=
  s.Alike s' ∧ e.NamesBelow count

/-- The table of a key is one that its lambda names. -/
theorem leads_keyColumn {count : Int} {s : Scope} {e : Expr} (names : e.NamesBelow count)
    (first : 0 < count) (side : String) :
    Leads s (fun key s' => s.Alike s' ∧ 0 ≤ key.2 ∧ key.2 < count) (keyColumn side e) := by
  unfold keyColumn
  split
  · rename_i name table source
    have closed : (Expr.column name table source).Closed (.upTo count) s := Expr.closed_upTo.2 names
    have known := (Expr.every_column _ _ _).1 closed
    exact .pure ⟨.refl s, Vocabulary.Knows.getD known (Vocabulary.upTo_zero first)⟩
  · exact .get .fail

section

variable {joins : Nat} {s : Scope} (follows : s.Follows joins)

include follows

/-- What is made in a scope names the tables that the scope has counted. -/
theorem leads_of_tidy {count : Int} (le : joins + 1 ≤ count) {work : Resolve Expr}
    (tidy : Tidy (.upTo count) (closed (.upTo count)) work) : Leads s (named s count) work := by
  refine (TidyAt.leads (tidy s (follows.within le))).mono ?_ fun _ => id
  rintro e s' ⟨same, closed⟩
  exact ⟨same, Expr.closed_upTo.1 closed⟩

/-- A lambda names tables that its parameters stand for. -/
theorem leads_resolveLambda {count : Int} (le : joins + 1 ≤ count) (node : Node)
    (isPredicate : Bool) (method : String) {bindParams : List String → Resolve Unit}
    (binds : ∀ params, Rebinds (.upTo count) (bindParams params)) :
    Leads s (named s count) (node.resolveLambda isPredicate method bindParams) :=
  leads_of_tidy follows le
    (node.tidy_resolveLambda isPredicate method bindParams fun params _ _ => binds params)

theorem leads_rowValue (node : Node) : Leads s (named s (joins + 1)) (rowValue node) :=
  .get (leads_resolveLambda follows (Int.le_refl _) node false _
    (rebinds_bindRowParams fun _ => trivial))

theorem leads_rowPredicate (node : Node) : Leads s (named s (joins + 1)) (rowPredicate node) := by
  refine .get (.bind (leads_resolveLambda follows (Int.le_refl _) node true _
    (rebinds_bindRowParams fun _ => trivial)) ?_)
  rintro e s' ⟨same, names⟩
  have within := (follows.alike same).within (Int.le_refl _)
  refine (TidyAt.leads (.predicate within (Expr.closed_upTo.2 names))).mono ?_ fun _ => id
  rintro e' s'' ⟨same', closed⟩
  exact ⟨same.trans same', Expr.closed_upTo.1 closed⟩

/-- The outer key of a join belongs to a table before the join. -/
theorem leads_joinKeys (outer inner : Node) :
    Leads s (fun keys s' => s.Alike s' ∧
      ∀ i ∈ keys.outerSource, 0 ≤ i ∧ i < (joins + 1 : Int)) (joinKeys outer inner) := by
  have positive : 0 < (joins + 1 : Int) := by omega
  refine .get (.bind (leads_resolveLambda follows (Int.le_refl _) outer false _
    (rebinds_bindOuterParam (Vocabulary.upTo_zero positive))) ?_)
  rintro e s₁ ⟨same₁, names₁⟩
  refine .bind (leads_keyColumn names₁ positive "outer") ?_
  rintro ⟨outerKey, table⟩ s₂ ⟨same₂, known⟩
  have same := same₁.trans same₂
  refine .bind (leads_resolveLambda (follows.alike same) (Int.le_refl _) inner false _
    rebinds_bindTableParam) ?_
  rintro e' s₃ ⟨same₃, names₃⟩
  refine .bind (leads_keyColumn names₃ positive "inner") ?_
  rintro ⟨innerKey, _⟩ s₄ ⟨same₄, -⟩
  refine .pure ⟨(same.trans same₃).trans same₄, ?_⟩
  rintro i ⟨⟩
  exact known

/-- The result selector of a join names the tables so far and the one that is joined. -/
theorem leads_resultSelector {count index : Int} (le : joins + 1 ≤ count)
    (known : 0 ≤ index ∧ index < count) (node : Node) :
    Leads s (named s count) (resultSelector index node) :=
  .get (leads_resolveLambda follows le node false _
    (rebinds_bindResultParams (Vocabulary.upTo_zero (by omega)) known))

end

/-- The rows that a result selector yields are about the tables it names. -/
theorem overAll_of_names {count : Int} {e : Expr} (names : e.NamesBelow count)
    (first : 0 < count) (shape : ResultShape) (hshape : e.resultShape = some shape) :
    Shape.OverAll (fun i => 0 ≤ i ∧ i < count) shape := by
  have closed : e.Closed (.upTo count) {} := Expr.closed_upTo.2 names
  exact Expr.overAll_resultShape (Vocabulary.upTo_zero first) closed hshape

/-! ### What a call reaches -/

/-- The outcome of a chain: every number in the query is that of a table it has, and the scope follows
a query that can be extended. -/
structure Reached (op : Operation) (s : Scope) : Prop where
  numbered : op.Numbered
  follows : op.IsOpen → s.Follows op.joined.length

/-- A step of a statement that joins nothing and holds no query. -/
structure Plain (step : Step) : Prop where
  isFrom : step.isFrom = false
  joined : step.joined? = none
  nested : step.nested = []
  outer : step.outerTable? = none

/-- A query stays one when it is lowered. -/
theorem lowerJoins_ne_nil {op : Operation} (built : op.Built) : Operation.lowerJoins op ≠ [] := by
  have onTop (step : Step) (earlier : Operation) (mark : step = .defaultIfEmpty → earlier ≠ []) :
      Operation.lowerStep step earlier ≠ [] := by
    cases step with
    | defaultIfEmpty => exact mark rfl
    | selectMany collection path selector shape usesDefault =>
      rcases Operation.lowerSelectMany_cases collection path selector shape usesDefault earlier with
        ⟨-, h⟩ | ⟨-, _, _, _, _, _, _, _, -, h⟩ | ⟨-, h⟩ <;> simp [Operation.lowerStep, h]
    | _ => exact List.cons_ne_nil _ _
  induction built with
  | @start step root =>
    cases isFrom : step.isFrom with
    | true => simp [Operation.lowerJoins_from isFrom]
    | false =>
      rw [Operation.lowerJoins_step isFrom]
      refine onTop _ _ fun mark => ?_
      cases step with
      | defaultIfEmpty => rcases root with h | h <;> cases h
      | _ => cases mark
  | extend _ _ isFrom _ ih =>
    rw [Operation.lowerJoins_step isFrom]
    exact onTop _ _ fun _ => ih

section

variable {source : Operation} {s : Scope} (numbered : source.Numbered)

include numbered

/-- A plain step is added that names tables of the query. -/
theorem Reached.plain {step : Step} (plain : Plain step)
    (names : step.slot.NamesBelow (source.joined.length + 1))
    (follows : s.Follows source.joined.length) : Reached (step :: source) s := by
  have same : Operation.joined (step :: source) = source.joined := by
    rw [Operation.joined_step plain.isFrom, plain.joined]
    exact List.append_nil _
  have tables : Operation.NamesTables step source := by
    refine ⟨fun i hi => ?_, fun i hi => ?_, fun nonempty => absurd plain.nested nonempty⟩
    · rw [Step.tableIndices_eq] at hi
      rw [Operation.HasTable, same]
      exact names i hi
    · rw [plain.outer] at hi
      cases hi
  refine ⟨.step plain.isFrom tables ?_ numbered, fun _ => ?_⟩
  · rw [plain.nested]
    exact .nil
  · rw [same]
    exact follows

/-- A query is joined; the step may name its table, its outer key may not. -/
theorem Reached.joining (step : Step) (isFrom : step.isFrom = false)
    (joins : step.joined? = some step.nested) (built : step.nested.Built)
    (nested : step.nested.Numbered) (names : step.slot.NamesBelow (source.joined.length + 1 + 1))
    (outer : ∀ i ∈ step.outerTable?, 0 ≤ i ∧ i < (source.joined.length + 1 : Int))
    (follows : s.Follows (source.joined.length + 1)) : Reached (step :: source) s := by
  have count : (Operation.joined (step :: source)).length = source.joined.length + 1 := by
    rw [Operation.joined_step isFrom, joins, List.length_append]
    rfl
  refine ⟨.step isFrom ⟨fun i hi => ?_, outer, fun _ => lowerJoins_ne_nil built⟩ nested numbered,
    fun _ => ?_⟩
  · rw [Step.tableIndices_eq] at hi
    rw [Operation.HasTable, count]
    exact names i hi
  · rw [count]
    exact follows

end

/-! ### Methods of one SELECT -/

section

variable {source : Operation} {s : Scope} (numbered : source.Numbered)
  (follows : s.Follows source.joined.length)

include numbered follows

/-- A plain step with an expression is added. -/
theorem leads_add (make : Expr → Step) (plain : ∀ e, Plain (make e))
    (slot : ∀ e, (make e).slot = e) {work : Resolve Expr}
    (names : Leads s (named s (source.joined.length + 1)) work) :
    Leads s Reached (work >>= fun e => pure (make e :: source)) := by
  refine .bind names ?_
  rintro e s' ⟨same, known⟩
  exact .pure (.plain numbered (plain e) ((slot e).symm ▸ known) (follows.alike same))

variable (isOpen : source.IsOpen) (arguments : List Node)

include isOpen

/-- `where` names tables that are counted. -/
theorem leads_filter : Leads s Reached (filter source arguments) := by
  unfold filter
  split
  · split
    · cases isOpen.1
    · cases isOpen.1
    · exact .require isOpen (leads_add numbered follows .filter (fun _ => ⟨rfl, rfl, rfl, rfl⟩)
        (fun _ => rfl) (leads_rowPredicate follows _))
  · exact .failArguments

/-- `select` names tables that are counted. -/
theorem leads_select : Leads s Reached (select source arguments) := by
  refine .require isOpen ?_
  split
  · refine .bind (leads_rowValue follows _) ?_
    rintro selector s' ⟨same, names⟩
    refine .modify (.modify (.pure (.plain numbered ⟨rfl, rfl, rfl, rfl⟩ names ?_)))
    have follows' := follows.alike same
    refine ⟨follows'.count, follows'.idle, fun shape hshape => ?_, by rintro i ⟨⟩⟩
    dsimp only at hshape
    split at hshape
    · cases hshape
    · exact overAll_of_names names (by omega) shape hshape
  · exact .failArguments

/-- `groupBy` names tables that are counted. -/
theorem leads_groupBy : Leads s Reached (groupBy source arguments) := by
  refine .require isOpen ?_
  split
  · refine .get (.check (.bind (leads_rowValue follows _) ?_))
    rintro key s' ⟨same, names⟩
    have follows' := follows.alike same
    refine .modify (.pure (.plain numbered ⟨rfl, rfl, rfl, rfl⟩ names ?_))
    exact ⟨follows'.count, follows'.idle, follows'.shape, names⟩
  · exact .failArguments

/-- A sort names tables that are counted. -/
theorem leads_sort (kind : SortKind) (descending : Bool) :
    Leads s Reached (sort kind descending source arguments) := by
  refine .require isOpen ?_
  split
  · dsimp only
    split
    · exact trivial
    · exact leads_add numbered follows (.sort kind · descending) (fun _ => ⟨rfl, rfl, rfl, rfl⟩)
        (fun _ => rfl) (leads_rowValue follows _)
  · exact .failArguments

/-- A page names tables that are counted. -/
theorem leads_page (kind : PageKind) : Leads s Reached (page kind source arguments) := by
  have counted {work : Resolve Expr} (names : Leads s (named s (source.joined.length + 1)) work) :=
    leads_add numbered follows (.page kind) (fun _ => ⟨rfl, rfl, rfl, rfl⟩) (fun _ => rfl) names
  refine .require isOpen ?_
  split
  · split
    · dsimp only
      split
      · exact trivial
      · exact counted (leads_of_tidy follows (Int.le_refl _) (tidy_autoParam _ _ _))
    · exact trivial
  · exact counted (leads_of_tidy follows (Int.le_refl _) (Node.tidy_resolve _ false))
  · exact .failArguments

/-- A step without expressions names no table. -/
theorem leads_mark {step : Step} (plain : Plain step) (empty : step.slot = .absent) :
    Leads s Reached (mark step source arguments) := by
  refine .require isOpen ?_
  split
  · refine .pure (.plain numbered plain ?_ follows)
    rw [empty]
    rintro i ⟨⟩
  · exact .failArguments

/-- A terminal step names tables that are counted. -/
theorem leads_terminal (kind : TerminalKind) :
    Leads s Reached (terminal kind source arguments) := by
  refine .require isOpen ?_
  split
  · exact leads_add numbered follows (.terminal kind) (fun _ => ⟨rfl, rfl, rfl, rfl⟩)
      (fun _ => rfl) (leads_rowPredicate follows _)
  · generalize (if kind = TerminalKind.all then 1 else 0) = least
    dsimp only
    split
    · exact .pure (.plain numbered ⟨rfl, rfl, rfl, rfl⟩ (by rintro i ⟨⟩) follows)
    · exact .failArguments

theorem leads_contains : Leads s Reached (contains source arguments) := by
  have found {work : Resolve Expr}
      (tidy : Tidy (.upTo (source.joined.length + 1)) (closed (.upTo (source.joined.length + 1)))
        work) :=
    leads_add numbered follows .contains (fun _ => ⟨rfl, rfl, rfl, rfl⟩) (fun _ => rfl)
      (leads_of_tidy follows (Int.le_refl _) tidy)
  refine .require isOpen ?_
  split
  · dsimp only
    split
    · split
      · exact found (tidy_literal _ _)
      · exact found (tidy_autoParam _ _ _)
    · exact found (Node.tidy_resolve _ false)
  · exact .failArguments

theorem leads_aggregate (kind : AggregateKind) :
    Leads s Reached (aggregate kind source arguments) := by
  refine .require isOpen ?_
  split
  · exact .pure (.plain numbered ⟨rfl, rfl, rfl, rfl⟩ (by rintro i ⟨⟩) follows)
  · exact leads_add numbered follows (.aggregate kind) (fun _ => ⟨rfl, rfl, rfl, rfl⟩)
      (fun _ => rfl) (leads_rowValue follows _)
  · exact .failArguments

end

/-! ### Joins -/

/-- A nested query is numbered by itself, and leaves the scope as it was. -/
def Embeds (query : Resolve Operation) : Prop :=
  ∀ s : Scope, s.bindings.Idle →
    Leads s (fun op s' => op.Built ∧ op.Numbered ∧ s.Alike s') query

section

variable {source : Operation} {s : Scope} (numbered : source.Numbered)
  (follows : s.Follows source.joined.length)

include numbered follows

/-- A join is given the next number, and its keys name tables from before it. -/
theorem leads_finishJoin {inner : Operation} (built : inner.Built) (nested : inner.Numbered)
    {keys : JoinKeys} (outer : ∀ i ∈ keys.outerSource, 0 ≤ i ∧ i < (source.joined.length + 1 : Int))
    {selector : Expr} (names : selector.NamesBelow (source.joined.length + 1 + 1)) {index : Int}
    (hindex : index = source.joined.length + 1) (kind : JoinKind) :
    Leads s Reached (finishJoin kind inner keys selector index source) := by
  have shape := overAll_of_names names (by omega)
  exact Reached.joining numbered (.join kind inner keys selector selector.resultShape) rfl rfl built
    nested names outer (follows.addTable hindex shape)

variable (isOpen : source.IsOpen) (arguments : List Node) {inner : Resolve Operation}
  (embeds : arguments ≠ [] → Embeds inner)

include isOpen embeds

/-- A join is given the next number. -/
theorem leads_join (kind : JoinKind) : Leads s Reached (join kind source arguments inner) := by
  have hindex := follows.count
  have unkeyed : ∀ i ∈ ({} : JoinKeys).outerSource, 0 ≤ i ∧ i < (source.joined.length + 1 : Int) := by
    rintro i ⟨⟩
  have unselected : Expr.absent.NamesBelow (source.joined.length + 1 + 1) := by
    rintro i ⟨⟩
  have below : 0 ≤ s.tableCount ∧ s.tableCount < (source.joined.length + 1 + 1 : Int) := by
    omega
  refine .require isOpen (.get ?_)
  dsimp only
  split
  · split
    · refine .bind (embeds (by simp) s follows.idle) ?_
      rintro op s₁ ⟨built, nested, same⟩
      exact leads_finishJoin numbered (follows.alike same) built nested unkeyed unselected hindex kind
    · refine .bind (embeds (by simp) s follows.idle) ?_
      rintro op s₁ ⟨built, nested, same⟩
      have follows₁ := follows.alike same
      refine .bind (leads_resultSelector follows₁ (by omega) below _) ?_
      rintro e s₂ ⟨same₂, names⟩
      exact leads_finishJoin numbered (follows₁.alike same₂) built nested unkeyed names hindex kind
    · exact .failArguments
  · split
    · refine .bind (embeds (by simp) s follows.idle) ?_
      rintro op s₁ ⟨built, nested, same⟩
      have follows₁ := follows.alike same
      refine .bind (leads_joinKeys follows₁ _ _) ?_
      rintro keys s₂ ⟨same₂, outer⟩
      exact leads_finishJoin numbered (follows₁.alike same₂) built nested outer unselected hindex kind
    · refine .bind (embeds (by simp) s follows.idle) ?_
      rintro op s₁ ⟨built, nested, same⟩
      have follows₁ := follows.alike same
      refine .bind (leads_joinKeys follows₁ _ _) ?_
      rintro keys s₂ ⟨same₂, outer⟩
      have follows₂ := follows₁.alike same₂
      refine .bind (leads_resultSelector follows₂ (by omega) below _) ?_
      rintro e s₃ ⟨same₃, names⟩
      exact leads_finishJoin numbered (follows₂.alike same₃) built nested outer names hindex kind
    · exact .failArguments

end

/-! ### Group joins and collections -/

section

variable {p : Int → Prop}

theorem rowMembers_known {v : Vocabulary} {s : Scope} {properties : List (String × Expr)}
    (h : membersClosed v properties s) : ∀ row ∈ rowMembers properties, v.tables row.2 := by
  have later {m : String × Expr} {rest : List (String × Expr)} (h : membersClosed v (m :: rest) s) :
      membersClosed v rest s := fun other hother => h other (List.mem_cons_of_mem _ hother)
  fun_induction rowMembers properties with
  | case1 => rintro row ⟨⟩
  | case2 key source table rest index hindex empty ih => exact ih (later h)
  | case3 key source table rest index hindex named ih =>
    have known : v.Knows source := (Expr.every_reference _ _).1 (h _ (List.mem_cons_self ..))
    exact List.forall_mem_cons.2 ⟨known index hindex, ih (later h)⟩
  | case4 key source table rest unindexed ih => exact ih (later h)
  | case5 m rest other ih => exact ih (later h)

theorem overAll_groupShape {index : Int} (known : p index) {rows : List (String × Int)}
    (h : ∀ row ∈ rows, p row.2) : Shape.OverAll p (groupShape index rows) := by
  refine Shape.overAll_iff.2 fun m hm => ?_
  obtain ⟨⟨key, table⟩, hrow, rfl⟩ := List.mem_map.1 hm
  dsimp only
  split
  · exact known
  · exact h _ hrow

theorem overAll_extendShape {shape other : ResultShape} (h : Shape.OverAll p shape)
    (h' : Shape.OverAll p other) : Shape.OverAll p (extendShape shape other) := by
  fun_induction extendShape shape other with
  | case1 => exact h
  | case2 shape key node rest _ found ih => exact ih h h'.2
  | case3 shape key node rest found ih =>
    refine ih ?_ h'.2
    rw [Shape.overAll_iff] at h ⊢
    exact List.forall_mem_append.2 ⟨h, List.forall_mem_singleton.2 h'.1⟩

end

section

variable {source : Operation} {s : Scope} (numbered : source.Numbered)
  (follows : s.Follows source.joined.length) (isOpen : source.IsOpen) (arguments : List Node)
  {query : Resolve Operation} (embeds : arguments ≠ [] → Embeds query)

include numbered follows isOpen embeds

/-- A group join is given the next number, and its group goes by it. -/
theorem leads_groupJoin : Leads s Reached (groupJoin source arguments query) := by
  refine .require isOpen ?_
  split
  · refine .get (.bind (embeds (by simp) s follows.idle) ?_)
    rintro op s₁ ⟨built, nested, same⟩
    have follows₁ := follows.alike same
    refine .bind (leads_joinKeys follows₁ _ _) ?_
    rintro keys s₂ ⟨same₂, outer⟩
    have follows₂ := follows₁.alike same₂
    have below : 0 ≤ s.tableCount ∧ s.tableCount < (source.joined.length + 1 + 1 : Int) := by
      have := follows.count
      omega
    refine .bind (leads_resultSelector follows₂ (by omega) below _) ?_
    rintro e s₃ ⟨same₃, names⟩
    have follows₃ := follows₂.alike same₃
    split
    · rename_i properties
      dsimp only
      split
      · exact .fail
      · rename_i groupName _ _
        have closed : (Expr.object properties).Closed (.upTo (source.joined.length + 1 + 1)) s₃ :=
          Expr.closed_upTo.2 names
        have members : membersClosed (.upTo (source.joined.length + 1 + 1)) properties s₃ :=
          ((Expr.every_object _).1 closed).2
        have shape := overAll_extendShape (overAll_groupShape below (rowMembers_known members))
          (Expr.overAll_shapeProperties (Vocabulary.upTo_zero (by omega)) properties members)
        refine Reached.joining numbered (.groupJoin op keys (.object properties) _ _ groupName) rfl rfl
          built nested names outer (follows₃.addTable follows.count ?_)
        rintro fields ⟨⟩
        exact shape
    · exact .fail
  · exact .failArguments

end

/-- The rows of a group belong to a table of the statement. -/
theorem leads_groupTable {joins : Nat} {s : Scope} (follows : s.Follows joins) (path : List String) :
    Leads s (fun index s' => s' = s ∧ 0 ≤ index ∧ index < (joins + 1 : Int)) (groupTable path) := by
  refine .get ?_
  split
  · rename_i element found
    obtain ⟨shape, hshape, resolved⟩ := Option.bind_eq_some_iff.1 found
    have known : (Shape.array (some element)).Over (fun i => 0 ≤ i ∧ i < (joins + 1 : Int)) :=
      (follows.shape shape hshape).resolve resolved
    refine .pure ⟨rfl, ?_⟩
    cases element with
    | column | reference => exact known
    | object | array => exact ⟨Int.le_refl 0, by simp only [Shape.sourceTable]; omega⟩
  · refine .pure ⟨rfl, ?_⟩
    have := follows.count
    omega
  · exact .fail

/-- The lambda of the result names the tables up to that of the collection. -/
theorem leads_finishSelectMany {source collection : Operation} {joins : Nat} {s : Scope}
    (follows : s.Follows joins) {index : Int} (known : 0 ≤ index ∧ index < (joins + 1 : Int))
    (path : List String) (usesDefault : Bool) (selector? : Option Node)
    (reached : ∀ selector shape s', selector.NamesBelow (joins + 1) → s'.Follows joins →
      Reached (.selectMany collection (Text.dotted path) selector shape usesDefault :: source) s') :
    Leads s Reached (finishSelectMany collection path usesDefault index selector? source) := by
  have finish {s' : Scope} {selector : Expr} (names : selector.NamesBelow (joins + 1))
      (follows' : s'.Follows joins) : Leads s' Reached (do
        let shape := selector.resultShape
        setShape shape
        return .selectMany collection (Text.dotted path) selector shape usesDefault :: source) :=
    reached _ _ _ names (follows'.setShape (overAll_of_names names (by omega)))
  unfold finishSelectMany
  split
  · refine .bind (leads_resultSelector follows (Int.le_refl _) known _) ?_
    rintro selector s' ⟨same, names⟩
    exact finish names (follows.alike same)
  · exact finish (by rintro i ⟨⟩) follows

/-- A collection that is a query is given the next number, and a group keeps its own. -/
theorem leads_flatten {source : Operation} {s : Scope} (numbered : source.Numbered)
    (follows : s.Follows source.joined.length) {query : Resolve Operation} (embeds : Embeds query)
    (argument : Node) (selector? : Option Node) :
    Leads s Reached (flatten argument selector? source query) := by
  unfold flatten
  split
  · exact .failUnplaced
  · dsimp only
    split
    · refine .bind (embeds s follows.idle) ?_
      rintro op s₁ ⟨built, nested, same⟩
      have follows₁ := follows.alike same
      refine .get (.modify ?_)
      have wider : Scope.Follows (source.joined.length + 1)
          { s₁ with tableCount := s₁.tableCount + 1 } :=
        follows₁.addTable follows₁.count fun fields hfields =>
          Shape.OverAll.mono (fun i hi => by omega) fields (follows₁.shape fields hfields)
      have below : 0 ≤ s₁.tableCount ∧
          s₁.tableCount < ((source.joined.length + 1 : Nat) + 1 : Int) := by
        have := follows₁.count
        omega
      -- What is flattened is a query, so flattening it adds a table.
      have reached {collection : Operation} (built : collection.Built) (nested : collection.Numbered)
          (usesDefault : Bool) (selector : Expr) (shape : Option ResultShape) (s' : Scope)
          (names : selector.NamesBelow ((source.joined.length + 1 : Nat) + 1))
          (follows' : s'.Follows (source.joined.length + 1)) :
          Reached (.selectMany collection (Text.dotted []) selector shape usesDefault :: source)
            s' := by
        cases collection with
        | nil => exact absurd rfl built.ne_nil
        | cons first rest =>
          exact Reached.joining numbered (.selectMany (first :: rest) _ selector shape usesDefault)
            rfl rfl built nested names (by rintro i ⟨⟩) follows'
      split
      · cases built with
        | start root => rcases root with h | h <;> cases h
        | extend below' =>
          cases nested with
          | start isFrom => cases isFrom
          | step _ _ _ nestedBelow =>
            exact leads_finishSelectMany wider below [] true selector? (reached below' nestedBelow _)
      · exact leads_finishSelectMany wider below [] _ selector? (reached built nested _)
    · refine .bind (leads_groupTable follows _) ?_
      rintro index _ ⟨rfl, known⟩
      refine leads_finishSelectMany follows known _ _ selector? ?_
      intro selector shape s' names follows'
      exact .plain numbered ⟨rfl, rfl, rfl, rfl⟩ names follows'

/-- `selectMany` is resolved for a collection as it is for a group. -/
theorem leads_selectMany {source : Operation} {s : Scope} (numbered : source.Numbered)
    (follows : s.Follows source.joined.length) (isOpen : source.IsOpen) (arguments : List Node)
    {query : Resolve Operation} (embeds : arguments ≠ [] → Embeds query) :
    Leads s Reached (selectMany source arguments query) := by
  refine .require isOpen ?_
  split
  · exact leads_flatten numbered follows (embeds (by simp)) _ _
  · exact leads_flatten numbered follows (embeds (by simp)) _ _
  · exact .failArguments

/-! ### Chains -/

/-- A statement that changes rows is one step, which numbers no tables. -/
theorem Reached.change {step : Step} (isCrud : step.isCrud = true) (s : Scope) :
    Reached [step] s := by
  have names : Operation.NamesTables step [] := by
    cases step with
    | insert | update | delete => exact ⟨by rintro i ⟨⟩, by rintro i ⟨⟩, absurd rfl⟩
    | _ => cases isCrud
  refine ⟨?_, fun isOpen => ?_⟩
  · cases step with
    | insert | update | delete => exact .step rfl names .nil .nil
    | _ => cases isCrud
  · cases isCrud.symm.trans isOpen.1

/-- A method of a SELECT names tables that are counted. -/
theorem leads_extend {source : Operation} {s : Scope} (isOpen : source.IsOpen)
    (reached : Reached source s) (method : Method) (arguments : List Node)
    {inner collection : Resolve Operation} (embeds : arguments ≠ [] → Embeds inner)
    (embeds' : arguments ≠ [] → Embeds collection) :
    Leads s Reached (apply method source arguments inner collection) := by
  have numbered := reached.numbered
  have follows := reached.follows isOpen
  cases method with
  | filter => exact leads_filter numbered follows isOpen arguments
  | select => exact leads_select numbered follows isOpen arguments
  | groupBy => exact leads_groupBy numbered follows isOpen arguments
  | sort kind descending => exact leads_sort numbered follows isOpen arguments kind descending
  | page kind => exact leads_page numbered follows isOpen arguments kind
  | distinct | reverse | defaultIfEmpty =>
    exact leads_mark numbered follows isOpen arguments ⟨rfl, rfl, rfl, rfl⟩ rfl
  | join kind => exact leads_join numbered follows isOpen arguments embeds kind
  | groupJoin => exact leads_groupJoin numbered follows isOpen arguments embeds
  | selectMany => exact leads_selectMany numbered follows isOpen arguments embeds'
  | terminal kind => exact leads_terminal numbered follows isOpen arguments kind
  | contains => exact leads_contains numbered follows isOpen arguments
  | aggregate kind => exact leads_aggregate numbered follows isOpen arguments kind
  | values => exact .refuse isOpen (yields_values arguments)
  | onConflict => exact .refuse isOpen (yields_onConflict arguments)
  | doNothing => exact .refuse isOpen (yields_doNothing arguments)
  | doUpdateSet => exact .refuse isOpen (yields_doUpdateSet arguments)
  | returning => exact .refuse isOpen (yields_returning arguments)
  | set => exact .refuse isOpen (yields_setColumns arguments)
  | allowFullTableUpdate => exact .refuse isOpen (yields_allowFullTableUpdate arguments)
  | allowFullTableDelete => exact .refuse isOpen (yields_allowFullTableDelete arguments)

/-- A statement starts with one table and without a shape. -/
theorem leads_start {step : Step} (isFrom : step.isFrom = true) (nested : step.nested.Numbered)
    {s : Scope} (idle : s.bindings.Idle) (statement table : String) :
    Leads s Reached (startStatement statement table >>= fun _ => pure [step]) := by
  refine ⟨.start isFrom nested, fun _ => ⟨?_, idle, by rintro _ ⟨⟩, by rintro i ⟨⟩⟩⟩
  rw [Operation.joined_from isFrom]
  rfl

theorem Embedded.embeds {query : Resolve Operation} (nests : Embedded Bindings.Idle Reached query) :
    Embeds query := by
  refine fun s idle => (nests s idle).mono ?_ fun _ => id
  rintro op s' ⟨built, ⟨_, reached⟩, same⟩
  exact ⟨built, reached.numbered, same⟩

theorem upheld_reached : Upheld Bindings.Idle Reached where
  alike reached same := ⟨reached.numbered, fun isOpen => (reached.follows isOpen).alike same⟩
  change := Reached.change
  start isFrom idle nested := by
    refine leads_start isFrom ?_ idle
    rcases nested with empty | ⟨_, reached⟩
    · rw [empty]
      exact .nil
    · exact reached.numbered
  extend isOpen reached method arguments _ _ nests collects :=
    leads_extend isOpen reached method arguments (fun ne => (nests ne).embeds)
      fun ne => (collects ne).embeds

end Resolve

open Resolve

/-- Every number in the operation of a chain is that of a table the query has. -/
theorem Node.leads_chain (node : Node) (mark : DefaultMark) (s : Scope) (idle : s.bindings.Idle) :
    Leads s Reached (node.chain mark []) :=
  upheld_reached.chain node mark s idle

/-- A query in an argument is numbered by itself. -/
theorem Node.embeds_firstQuery (nodes : List Node) (mark : DefaultMark) (ne : nodes ≠ []) :
    Embeds (Node.firstQuery mark nodes) :=
  (upheld_reached.firstQuery nodes mark ne).embeds

end FluentQuery
