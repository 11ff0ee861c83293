import Mathlib.Tactic.Choose
import FluentQuery.Proofs.Effect
import FluentQuery.Proofs.Resolve.ChainInduction
import FluentQuery.Resolve.Chain

/-!
# How calls extend a query

A method of a chain adds one step to a SELECT, or changes the one step of a statement that changes
rows.  What it adds does not depend on the query it is added to, except that `thenBy` looks for an
`orderBy` before it (`Resolve.extends_apply`).  The operations that chains build are therefore lists
of steps on top of a root, with a terminal step only at the end (`Operation.Built`).
-/

namespace FluentQuery

set_option autoImplicit false

namespace Operation

/-- A SELECT to which calls can be added. -/
def IsOpen : Operation → Prop
  | [] => False
  | step :: _ => step.isCrud = false ∧ step.isTerminal = false

instance : (op : Operation) → Decidable op.IsOpen
  | [] => .isFalse id
  | step :: _ => inferInstanceAs (Decidable (step.isCrud = false ∧ step.isTerminal = false))

/-- The operations that chains of calls build. -/
inductive Built : Operation → Prop where
  | start {step : Step} (root : step.isFrom = true ∨ step.isCrud = true) : Built [step]
  | extend {step : Step} {source : Operation} (built : Built source) (isOpen : source.IsOpen)
      (isFrom : step.isFrom = false) (isCrud : step.isCrud = false) : Built (step :: source)

/-- There is a root below all steps. -/
theorem Built.ne_nil {op : Operation} (h : Built op) : op ≠ [] := by
  cases h <;> exact List.cons_ne_nil _ _

/-- Whether the rows of a statement are sorted. -/
def isSorted (op : Operation) : Bool :=
  (level op).any Step.isOrderBy

end Operation

/-- Whether a method refines the order that an earlier call gave. -/
def Method.refinesOrder : Method → Bool
  | .sort .thenBy _ => true
  | _ => false

/-! ### Results -/

/-- Every result of some work has a property, whatever scope it started from. -/
def Resolve.Yields {α : Type} (post : α → Prop) (work : Resolve α) : Prop :=
  ∀ s a s', work s = .ok a s' → post a

namespace Resolve

variable {α β : Type}

namespace Yields

variable {post : α → Prop} {work : Resolve α}

theorem pure {a : α} (h : post a) : Yields post (pure a) := by
  rintro s b s' run
  cases run
  exact h

theorem fail {fault : Fault} : Yields post (fail fault) := by
  rintro s a s' run
  cases run

theorem failUnplaced {fault : Fault} : Yields post (failUnplaced fault) := by
  rintro s a s' run
  cases run

/-- What is yielded by the first part is handed on to the rest. -/
theorem bind_of {next : α → Resolve β} {post : β → Prop} {mid : α → Prop} (h : Yields mid work)
    (rest : ∀ a, mid a → Yields post (next a)) : Yields post (work >>= next) := by
  intro s b s' run
  obtain ⟨a, t, first, second⟩ := bind_eq_ok.1 run
  exact rest a (h s a t first) t b s' second

theorem bind {next : α → Resolve β} {post : β → Prop} (rest : ∀ a, Yields post (next a)) :
    Yields post (work >>= next) := by
  intro s b s' run
  obtain ⟨a, t, -, second⟩ := bind_eq_ok.1 run
  exact rest a t b s' second

/-- A check that may fail before the work goes on. -/
theorem check {c : Prop} [Decidable c] {failure : Resolve PUnit} {next : PUnit → Resolve α}
    (rest : ∀ u, Yields post (next u)) : Yields post (if c then failure >>= next else next ⟨⟩) := by
  split
  · exact .bind rest
  · exact rest _

theorem failArguments {least most got : Nat} : Yields post (failArguments least most got) :=
  .bind fun _ => .fail

theorem failStatement {statement : String} : Yields post (failStatement statement) :=
  .bind fun _ => .fail

end Yields

/-! ### Work that succeeds -/

/-- Work that is started from a scope has the property `post` if it succeeds. -/
def Leads (s : Scope) (post : α → Scope → Prop) (work : Resolve α) : Prop :=
  Ensures work s post fun _ => True

namespace Leads

variable {s : Scope} {post : α → Scope → Prop} {work : Resolve α}

theorem pure {a : α} (h : post a s) : Leads s post (pure a) := h

theorem fail {fault : Fault} : Leads s post (fail fault) := trivial

theorem failUnplaced {fault : Fault} : Leads s post (failUnplaced fault) := trivial

theorem failArguments {least most got : Nat} : Leads s post (failArguments least most got) := trivial

/-- A node that is no chain does not succeed. -/
theorem refused {node : Node} {mark : DefaultMark} {seed : Operation}
    {post : Operation → Scope → Prop} (h : node.Refused mark) :
      Leads s post (node.chain mark seed) := by
  obtain ⟨e, fails⟩ := h seed s
  unfold Leads Ensures
  rw [fails]
  trivial

theorem bind {next : α → Resolve β} {mid : α → Scope → Prop} {post : β → Scope → Prop}
    (h : Leads s mid work) (rest : ∀ a s', mid a s' → Leads s' post (next a)) :
    Leads s post (work >>= next) :=
  Ensures.bind h rest

theorem get {next : Scope → Resolve α} (h : Leads s post (next s)) : Leads s post (get >>= next) := h

theorem modify {change : Scope → Scope} {next : PUnit → Resolve α}
    (h : Leads (change s) post (next ⟨⟩)) : Leads s post (modify change >>= next) := h

/-- What holds of every run that succeeds is led to. -/
theorem intro (h : ∀ a s', work s = .ok a s' → post a s') : Leads s post work :=
  Ensures.intro h fun _ _ _ => trivial

/-- A check that may fail before the work goes on. -/
theorem check {c : Prop} [Decidable c] {fault : Fault} {next : PUnit → Resolve α}
    (h : Leads s post (next ⟨⟩)) :
    Leads s post (if c then Resolve.fail fault >>= next else next ⟨⟩) := by
  split
  · exact trivial
  · exact h

end Leads

/-- Reading the name of a table leaves the scope as it is. -/
theorem leads_nameArgument {s : Scope} (method : String) (node : Node) :
    Leads s (fun _ s' => s' = s) (nameArgument method node) := by
  unfold nameArgument
  split
  · exact .pure rfl
  · exact .fail

/-- The arguments that name a table leave the scope alone. -/
theorem leads_tableArguments {s : Scope} (method : String) (arguments : List Node) :
    Leads s (fun _ s' => s' = s) (tableArguments method arguments) := by
  have named (name : String × String) : Leads s (fun _ s' => s' = s)
      (if name.2.isEmpty then do
        fail (ChainFault.tableNameEmpty method)
        return name
      else return name) := by
    split
    · exact trivial
    · exact .pure rfl
  unfold tableArguments
  split
  · refine .bind (leads_nameArgument method _) ?_
    rintro schema _ rfl
    refine .bind (leads_nameArgument method _) ?_
    rintro table _ rfl
    exact named (schema, table)
  · refine .bind (leads_nameArgument method _) ?_
    rintro name _ rfl
    exact named (Text.splitQualified name)
  · exact trivial

/-- Picking the column of a key leaves the scope as it is. -/
theorem leads_pickKey {s : Scope} (side : String) (e : Expr) :
    Leads s (fun _ s' => s' = s) (keyColumn side e) := by
  unfold keyColumn
  split
  · exact .pure rfl
  · exact .get .fail

/-- Looking for the rows of a group leaves the scope as it is. -/
theorem leads_steadyTable {s : Scope} (path : List String) :
    Leads s (fun _ s' => s' = s) (groupTable path) := by
  refine .get ?_
  split
  · exact .pure rfl
  · exact .pure rfl
  · exact .fail

/-! ### Extending a SELECT -/

/-- Only a SELECT that can be extended passes. -/
theorem yields_requireSelect {source : Operation} (ne : source ≠ []) :
    Yields (fun _ => source.IsOpen) (requireSelect source) := by
  refine .bind fun s => ?_
  cases source with
  | nil => exact absurd rfl ne
  | cons step rest =>
    dsimp only
    split
    · exact .fail
    split
    · exact .fail
    · exact .pure ⟨by simpa using ‹¬ step.isCrud = true›, by simpa using ‹¬ step.isTerminal = true›⟩

/-- A SELECT that has not ended is not refused. -/
theorem requireSelect_open {source : Operation} (h : source.IsOpen) :
    requireSelect source = pure () := by
  cases source with
  | nil => exact h.elim
  | cons step rest =>
    funext s
    simp only [requireSelect, h.1, h.2, Bool.false_eq_true, if_false]
    rfl

/-- On every query that can be extended and has the property `applies`, the work adds a step; neither
the step nor how it is resolved depends on the query. -/
def Extends (applies : Operation → Prop) (run : Operation → Resolve Operation) : Prop :=
  ∃ work : Resolve Step, Yields (fun step => step.isFrom = false ∧ step.isCrud = false) work ∧
    ∀ source, source.IsOpen → applies source → run source = (· :: source) <$> work

namespace Extends

variable {applies : Operation → Prop} {run : Operation → Resolve Operation}

theorem fail {fault : Fault} : Extends applies fun _ => fail fault :=
  ⟨Resolve.fail fault, .fail, fun _ _ _ => rfl⟩

theorem failUnplaced {fault : Fault} : Extends applies fun _ => failUnplaced fault :=
  ⟨Resolve.failUnplaced fault, .failUnplaced, fun _ _ _ => rfl⟩

theorem pure {step : Step} (isFrom : step.isFrom = false) (isCrud : step.isCrud = false) :
    Extends applies fun source => pure (step :: source) :=
  ⟨Pure.pure step, .pure ⟨isFrom, isCrud⟩, fun _ _ _ => rfl⟩

theorem bind {work : Resolve α} {next : α → Operation → Resolve Operation}
    (h : ∀ a, Extends applies (next a)) :
    Extends applies fun source => work >>= fun a => next a source := by
  choose rest yields same using h
  refine ⟨work >>= rest, .bind yields, fun source isOpen hsource => ?_⟩
  rw [map_bind]
  exact congrArg (work >>= ·) (funext fun a => same a source isOpen hsource)

/-- Work that does the same on open queries extends them in the same way. -/
theorem congr {other : Operation → Resolve Operation} (h : Extends applies run)
    (same : ∀ source, source.IsOpen → applies source → other source = run source) :
    Extends applies other := by
  obtain ⟨work, yields, hrun⟩ := h
  exact ⟨work, yields, fun source isOpen hsource =>
    (same source isOpen hsource).trans (hrun source isOpen hsource)⟩

/-- A check for a SELECT passes on open queries. -/
theorem require (h : Extends applies run) :
    Extends applies fun source => requireSelect source >>= fun _ => run source :=
  h.congr fun source isOpen _ => by rw [requireSelect_open isOpen, pure_bind]

theorem failArguments {least most got : Nat} :
    Extends applies fun _ => failArguments least most got :=
  .bind fun _ => .fail

end Extends

section

variable {applies : Operation → Prop} (arguments : List Node)

/-- `where` adds one filter, whatever the query is. -/
theorem extends_filter : Extends applies fun source => filter source arguments := by
  match arguments with
  | [argument] =>
    have onSelect : Extends applies fun source =>
        requireSelect source >>= fun _ => rowPredicate argument >>= fun predicate =>
          pure (.filter predicate :: source) :=
      .require (.bind fun _ => .pure rfl rfl)
    refine onSelect.congr fun source isOpen _ => ?_
    cases source with
    | nil => exact isOpen.elim
    | cons step rest =>
      cases step with
      | update | delete => cases isOpen.1
      | _ => rfl
  | [] => exact .failArguments
  | _ :: _ :: _ => exact .failArguments

/-- `select` adds one selector. -/
theorem extends_select : Extends applies fun source => select source arguments := by
  refine .require ?_
  match arguments with
  | [argument] => exact .bind fun _ => .bind fun _ => .bind fun _ => .pure rfl rfl
  | [] => exact .failArguments
  | _ :: _ :: _ => exact .failArguments

theorem extends_groupBy : Extends applies fun source => groupBy source arguments := by
  refine .require ?_
  match arguments with
  | [argument] =>
    refine .bind fun s => ?_
    dsimp only
    split
    · exact .bind fun _ => .bind fun _ => .bind fun _ => .pure rfl rfl
    · exact .bind fun _ => .bind fun _ => .pure rfl rfl
  | [] => exact .failArguments
  | _ :: _ :: _ => exact .failArguments

/-- A sort that refines an order looks whether there is one, and at nothing else. -/
theorem extends_sort (kind : SortKind) (descending sorted : Bool)
    (known : ∀ source, applies source → kind = .thenBy → source.isSorted = sorted) :
    Extends applies fun source => sort kind descending source arguments := by
  match arguments with
  | [argument] =>
    have decided : Extends applies fun source => requireSelect source >>= fun _ =>
        (if kind = .thenBy && !sorted then do fail (ChainFault.thenByFirst (← get).method)
          else Pure.pure PUnit.unit) >>= fun _ =>
        rowValue argument >>= fun key => Pure.pure (.sort kind key descending :: source) :=
      .require (.bind fun _ => .bind fun _ => .pure rfl rfl)
    refine decided.congr fun source _ hsource => ?_
    cases kind with
    | orderBy => rfl
    | thenBy =>
      rw [← known source hsource rfl]
      unfold sort Operation.isSorted
      refine congrArg (requireSelect source >>= ·) (funext fun _ => ?_)
      dsimp only
      split <;> rfl
  | [] => exact .require .failArguments
  | _ :: _ :: _ => exact .require .failArguments

/-- A page is added to any query, as often as asked for. -/
theorem extends_page (kind : PageKind) : Extends applies fun source => page kind source arguments := by
  refine .require ?_
  split
  · split
    · dsimp only
      split
      · exact .bind fun _ => .bind fun _ => .bind fun _ => .pure rfl rfl
      · exact .bind fun _ => .pure rfl rfl
    · exact .bind fun _ => .fail
  · exact .bind fun _ => .pure rfl rfl
  · exact .failArguments

/-- Methods without arguments add the step they are named for. -/
theorem extends_mark {step : Step} (isFrom : step.isFrom = false) (isCrud : step.isCrud = false) :
    Extends applies fun source => mark step source arguments := by
  refine .require ?_
  split
  · exact .pure isFrom isCrud
  · exact .failArguments

/-- A terminal step is added to any query that has not ended. -/
theorem extends_terminal (kind : TerminalKind) :
    Extends applies fun source => terminal kind source arguments := by
  refine .require ?_
  split
  · exact .bind fun _ => .pure rfl rfl
  · generalize (if kind = TerminalKind.all then 1 else 0) = least
    dsimp only
    split
    · exact .pure rfl rfl
    · exact .failArguments

theorem extends_contains : Extends applies fun source => contains source arguments := by
  refine .require ?_
  split
  · dsimp only
    split
    · split
      · exact .bind fun _ => .pure rfl rfl
      · exact .bind fun _ => .pure rfl rfl
    · exact .bind fun _ => .pure rfl rfl
  · exact .failArguments

theorem extends_aggregate (kind : AggregateKind) :
    Extends applies fun source => aggregate kind source arguments := by
  refine .require ?_
  split
  · exact .pure rfl rfl
  · exact .bind fun _ => .pure rfl rfl
  · exact .failArguments

/-! ### Joins -/

theorem extends_finishJoin (kind : JoinKind) (inner : Operation) (keys : JoinKeys) (selector : Expr)
    (index : Int) : Extends applies (finishJoin kind inner keys selector index) :=
  .bind fun _ => .pure rfl rfl

/-- A join looks at the tables that the scope has counted, and not at the query. -/
theorem extends_join (kind : JoinKind) (inner : Resolve Operation) :
    Extends applies fun source => join kind source arguments inner := by
  refine .require (.bind fun s => ?_)
  dsimp only
  split
  · split
    · exact .bind fun _ => extends_finishJoin ..
    · exact .bind fun _ => .bind fun _ => extends_finishJoin ..
    · exact .failArguments
  · split
    · exact .bind fun _ => .bind fun _ => extends_finishJoin ..
    · exact .bind fun _ => .bind fun _ => .bind fun _ => extends_finishJoin ..
    · exact .failArguments

theorem extends_groupJoin (inner : Resolve Operation) :
    Extends applies fun source => groupJoin source arguments inner := by
  refine .require ?_
  split
  · refine .bind fun s => .bind fun op => .bind fun keys => .bind fun e => ?_
    split
    · dsimp only
      split
      · exact .fail
      · exact .bind fun _ => .pure rfl rfl
    · exact .fail
  · exact .failArguments

theorem extends_finishSelectMany (collection : Operation) (path : List String) (usesDefault : Bool)
    (index : Int) (selector? : Option Node) :
    Extends applies (finishSelectMany collection path usesDefault index selector?) := by
  unfold finishSelectMany
  split
  · exact .bind fun _ => .bind fun _ => .pure rfl rfl
  · exact .bind fun _ => .bind fun _ => .pure rfl rfl

theorem extends_flatten (argument : Node) (selector? : Option Node) (query : Resolve Operation) :
    Extends applies fun source => flatten argument selector? source query := by
  unfold flatten
  split
  · exact .failUnplaced
  · dsimp only
    split
    · refine .bind fun op => .bind fun s => .bind fun _ => ?_
      split
      · exact extends_finishSelectMany ..
      · exact extends_finishSelectMany ..
    · exact .bind fun _ => extends_finishSelectMany ..

/-- Neither does `selectMany` look at the query. -/
theorem extends_selectMany (query : Resolve Operation) :
    Extends applies fun source => selectMany source arguments query := by
  refine .require ?_
  split
  · exact extends_flatten ..
  · exact extends_flatten ..
  · exact .failArguments

/-! ### Methods of other statements -/

/-- A method of another statement refuses a SELECT. -/
theorem Extends.refuse {α : Type} {require : Operation → Resolve α} {statement : String}
    (refuses : ∀ source : Operation, source.IsOpen → require source = Resolve.failStatement statement)
    (next : α → Resolve Operation) : Extends applies fun source => require source >>= next := by
  refine ⟨Resolve.failStatement statement, .failStatement, fun source isOpen _ => ?_⟩
  dsimp only
  rw [refuses source isOpen]
  rfl

/-- An open query is no INSERT, which is refused. -/
theorem requireInsert_open (source : Operation) (h : source.IsOpen) :
    requireInsert source = failStatement "INSERT" := by
  cases source with
  | nil => exact h.elim
  | cons step rest =>
    cases step with
    | insert => cases h.1
    | _ => rfl

theorem requireUpdate_open (source : Operation) (h : source.IsOpen) :
    requireUpdate source = failStatement "UPDATE" := by
  cases source with
  | nil => exact h.elim
  | cons step rest =>
    cases step with
    | update => cases h.1
    | _ => rfl

theorem requireDelete_open (source : Operation) (h : source.IsOpen) :
    requireDelete source = failStatement "DELETE" := by
  cases source with
  | nil => exact h.elim
  | cons step rest =>
    cases step with
    | delete => cases h.1
    | _ => rfl

/-- `returning` is refused on open queries, and so extends none. -/
theorem extends_returning : Extends applies fun source => returning source arguments := by
  have refused : Extends applies fun _ => fail ChainFault.returningNotSupported := .fail
  refine refused.congr fun source isOpen _ => ?_
  cases source with
  | nil => exact isOpen.elim
  | cons step rest =>
    cases step with
    | insert | update => cases isOpen.1
    | _ => rfl

/-- On a SELECT, a method adds a step that does not depend on the query; the one thing it may look at
is whether the query is sorted, if it is to refine the order. -/
theorem extends_apply (method : Method) (inner collection : Resolve Operation) (sorted : Bool)
    (known : ∀ source, applies source → method.refinesOrder = true → source.isSorted = sorted) :
    Extends applies fun source => apply method source arguments inner collection := by
  cases method with
  | filter => exact extends_filter arguments
  | select => exact extends_select arguments
  | groupBy => exact extends_groupBy arguments
  | sort kind descending =>
    refine extends_sort arguments kind descending sorted fun source hsource hkind => ?_
    exact known source hsource (by rw [hkind]; rfl)
  | page kind => exact extends_page arguments kind
  | distinct => exact extends_mark arguments rfl rfl
  | reverse => exact extends_mark arguments rfl rfl
  | join kind => exact extends_join arguments kind inner
  | groupJoin => exact extends_groupJoin arguments inner
  | selectMany => exact extends_selectMany arguments collection
  | defaultIfEmpty => exact extends_mark arguments rfl rfl
  | terminal kind => exact extends_terminal arguments kind
  | contains => exact extends_contains arguments
  | aggregate kind => exact extends_aggregate arguments kind
  | values | onConflict | doNothing | doUpdateSet => exact .refuse requireInsert_open _
  | returning => exact extends_returning arguments
  | set | allowFullTableUpdate => exact .refuse requireUpdate_open _
  | allowFullTableDelete => exact .refuse requireDelete_open _

end

/-! ### What a method accepts -/

/-- The step of a statement that changes rows is changed. -/
def Changes (source op : Operation) : Prop :=
  ∃ step step' rest, source = step :: rest ∧ op = step' :: rest ∧ step.isCrud = true ∧
    step'.isCrud = true

section

variable {source : Operation} (arguments : List Node)

/-- A method of INSERT is given the step of the statement and those before it. -/
theorem yields_requireInsert {next : InsertStatement × Operation → Resolve Operation}
    (rest : ∀ s earlier, source = .insert s :: earlier → Yields (Changes source) (next (s, earlier))) :
    Yields (Changes source) (requireInsert source >>= next) := by
  have found : Yields (fun p => source = .insert p.1 :: p.2) (requireInsert source) := by
    unfold requireInsert
    split
    · exact .pure rfl
    · exact .failStatement
  exact found.bind_of fun p hp => rest p.1 p.2 hp

theorem yields_requireUpdate {next : UpdateStatement × Operation → Resolve Operation}
    (rest : ∀ s earlier, source = .update s :: earlier → Yields (Changes source) (next (s, earlier))) :
    Yields (Changes source) (requireUpdate source >>= next) := by
  have found : Yields (fun p => source = .update p.1 :: p.2) (requireUpdate source) := by
    unfold requireUpdate
    split
    · exact .pure rfl
    · exact .failStatement
  exact found.bind_of fun p hp => rest p.1 p.2 hp

theorem yields_requireDelete {next : DeleteStatement × Operation → Resolve Operation}
    (rest : ∀ s earlier, source = .delete s :: earlier → Yields (Changes source) (next (s, earlier))) :
    Yields (Changes source) (requireDelete source >>= next) := by
  have found : Yields (fun p => source = .delete p.1 :: p.2) (requireDelete source) := by
    unfold requireDelete
    split
    · exact .pure rfl
    · exact .failStatement
  exact found.bind_of fun p hp => rest p.1 p.2 hp

/-- `values` changes the step that it finds. -/
theorem yields_values : Yields (Changes source) (values source arguments) := by
  refine yields_requireInsert fun s earlier hsource => ?_
  dsimp only
  split
  · refine .check fun _ => .bind fun assigned => .check fun _ => ?_
    exact .pure ⟨_, _, _, hsource, rfl, rfl, rfl⟩
  · exact .failArguments

theorem yields_onConflict : Yields (Changes source) (onConflict source arguments) := by
  refine yields_requireInsert fun s earlier hsource => ?_
  refine .check fun _ => .check fun _ => .check fun _ => .bind fun target => ?_
  exact .pure ⟨_, _, _, hsource, rfl, rfl, rfl⟩

theorem yields_doNothing : Yields (Changes source) (doNothing source arguments) := by
  refine yields_requireInsert fun s earlier hsource => ?_
  refine .check fun _ => .bind fun conflict => ?_
  exact .pure ⟨_, _, _, hsource, rfl, rfl, rfl⟩

theorem yields_doUpdateSet : Yields (Changes source) (doUpdateSet source arguments) := by
  refine yields_requireInsert fun s earlier hsource => ?_
  dsimp only
  split
  · refine .bind fun conflict => .bind fun assigned => .check fun _ => ?_
    exact .pure ⟨_, _, _, hsource, rfl, rfl, rfl⟩
  · exact .failArguments

/-- `returning` changes an INSERT or an UPDATE. -/
theorem yields_returning : Yields (Changes source) (returning source arguments) := by
  unfold returning
  split
  · refine .check fun _ => .bind fun selector => ?_
    exact .pure ⟨_, _, _, rfl, rfl, rfl, rfl⟩
  · exact .bind fun selector => .pure ⟨_, _, _, rfl, rfl, rfl, rfl⟩
  · exact .fail

theorem yields_setColumns : Yields (Changes source) (setColumns source arguments) := by
  refine yields_requireUpdate fun s earlier hsource => ?_
  dsimp only
  split
  · refine .check fun _ => .bind fun assigned => .check fun _ => ?_
    exact .pure ⟨_, _, _, hsource, rfl, rfl, rfl⟩
  · exact .failArguments

theorem yields_allowFullTableUpdate :
    Yields (Changes source) (allowFullTableUpdate source arguments) := by
  refine yields_requireUpdate fun s earlier hsource => .check fun _ => ?_
  exact .pure ⟨_, _, _, hsource, rfl, rfl, rfl⟩

theorem yields_allowFullTableDelete :
    Yields (Changes source) (allowFullTableDelete source arguments) := by
  refine yields_requireDelete fun s earlier hsource => .check fun _ => ?_
  exact .pure ⟨_, _, _, hsource, rfl, rfl, rfl⟩

/-- `where` narrows an open query, or changes an UPDATE or a DELETE. -/
theorem yields_filter (ne : source ≠ []) :
    Yields (fun op => source.IsOpen ∨ Changes source op) (filter source arguments) := by
  unfold filter
  split
  · split
    · exact .bind fun predicate => .pure (.inr ⟨_, _, _, rfl, rfl, rfl, rfl⟩)
    · exact .bind fun predicate => .pure (.inr ⟨_, _, _, rfl, rfl, rfl, rfl⟩)
    · exact (yields_requireSelect ne).bind_of fun _ isOpen _ _ _ _ => .inl isOpen
  · exact .failArguments

/-- A method extends a SELECT that can be extended, or changes another statement. -/
theorem yields_apply (method : Method) (inner collection : Resolve Operation) (ne : source ≠ []) :
    Yields (fun op => source.IsOpen ∨ Changes source op)
      (apply method source arguments inner collection) := by
  have onSelect (next : Unit → Resolve Operation) :
      Yields (fun op => source.IsOpen ∨ Changes source op) (requireSelect source >>= next) :=
    (yields_requireSelect ne).bind_of fun _ isOpen _ _ _ _ => .inl isOpen
  have onOther {run : Resolve Operation} (h : Yields (Changes source) run) :
      Yields (fun op => source.IsOpen ∨ Changes source op) run :=
    fun s op s' ran => .inr (h s op s' ran)
  cases method with
  | filter => exact yields_filter arguments ne
  | select | groupBy | sort | page | distinct | reverse | join | groupJoin | selectMany
  | defaultIfEmpty | terminal | contains | aggregate => exact onSelect _
  | values => exact onOther (yields_values arguments)
  | onConflict => exact onOther (yields_onConflict arguments)
  | doNothing => exact onOther (yields_doNothing arguments)
  | doUpdateSet => exact onOther (yields_doUpdateSet arguments)
  | returning => exact onOther (yields_returning arguments)
  | set => exact onOther (yields_setColumns arguments)
  | allowFullTableUpdate => exact onOther (yields_allowFullTableUpdate arguments)
  | allowFullTableDelete => exact onOther (yields_allowFullTableDelete arguments)

end

/-! ### Chains -/

/-- One call of a chain: what it is called on is a query that chains build, and so is its result. -/
theorem built_apply {source : Operation} (built : source.Built) (method : Method)
    (arguments : List Node) (inner collection : Resolve Operation) :
    Yields Operation.Built (apply method source arguments inner collection) := by
  intro s op s' run
  rcases yields_apply arguments method inner collection built.ne_nil s op s' run with
    isOpen | ⟨step, step', rest, rfl, rfl, isCrud, isCrud'⟩
  · have known (other : Operation) (same : other = source) (_ : method.refinesOrder = true) :
        other.isSorted = source.isSorted := by rw [same]
    obtain ⟨work, yields, same⟩ :=
      extends_apply arguments method inner collection source.isSorted known
    have extended : apply method source arguments inner collection = (· :: source) <$> work :=
      same source isOpen rfl
    rw [extended, map_eq_pure_bind] at run
    obtain ⟨step, t, hstep, hrun⟩ := bind_eq_ok.1 run
    cases hrun
    obtain ⟨isFrom, isCrud⟩ := yields s step s' hstep
    exact .extend built isOpen isFrom isCrud
  · cases built with
    | start => exact .start (.inr isCrud')
    | extend _ _ _ notCrud => cases notCrud.symm.trans isCrud

/-- A method keeps the form of an operation, or fails. -/
theorem built_call {source : Operation} (built : source.Built) (name : String)
    (arguments : List Node) (inner collection : Resolve Operation) :
    Yields Operation.Built (call name source arguments inner collection) := by
  refine .bind fun _ => ?_
  split
  · exact built_apply built _ _ _ _
  · exact .fail

/-- A root is an operation of one step. -/
theorem built_root (method : RootMethod) (arguments : List Node) (subquery : Resolve Operation) :
    Yields Operation.Built (root method arguments subquery) := by
  have rest (isSubquery : Bool) : Yields Operation.Built
      (if isSubquery then do
        let op ← subquery
        startStatement "select" ""
        return [.fromSource "" "" op ""]
      else do
        let name ← tableArguments method.name arguments
        startStatement method.statement name.2
        return [method.step name.1 name.2]) := by
    split
    · exact .bind fun _ => .bind fun _ => .pure (.start (.inl rfl))
    · refine .bind fun _ => .bind fun _ => .pure (.start ?_)
      cases method with
      | «from» => exact .inl rfl
      | insertInto | update | deleteFrom => exact .inr rfl
  refine .bind fun _ => ?_
  dsimp only
  split
  · exact .bind fun _ => rest _
  · exact rest _

end Resolve

open Resolve in
/-- The operation of a chain is a root with steps on top of it. -/
theorem Node.built_chain (seed : Operation) (hseed : seed = [] ∨ seed.Built) (node : Node)
    (mark : DefaultMark) : Yields Operation.Built (node.chain mark seed) := by
  induction node, mark using Node.chain_induction with
  | refused node mark h => exact fun _ _ _ run => absurd run h.ne_ok
  | lambda names body value mark returned ih =>
    rw [Node.chain_arrow_of_ok returned]
    exact ih
  | function name arguments mark _ =>
    unfold Node.chain functionCall
    split
    · exact built_root _ _ _
    · exact .fail
  | method receiver property computed arguments mark earlier _ =>
    unfold Node.chain ChainCall.resolve
    split
    · exact earlier
    split
    · exact .fail
    dsimp only
    split
    · refine .bind fun s => ?_
      dsimp only
      split
      · split
        · exact .fail
        · rename_i nonempty
          rcases hseed with rfl | built
          · exact absurd rfl nonempty
          · exact built_call built _ _ _ _
      · split
        · split
          · exact built_root _ _ _
          · exact .fail
        · exact .fail
    · exact earlier.bind_of fun op built => built_call built _ _ _ _

end FluentQuery
