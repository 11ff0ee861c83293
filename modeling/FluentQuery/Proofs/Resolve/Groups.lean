import FluentQuery.Proofs.Operation.Statements
import FluentQuery.Proofs.Resolve.RowStates
import FluentQuery.Proofs.Resolve.SoundChains
import FluentQuery.Query

/-!
# Groups

A `groupBy` turns the rows that later lambdas see into groups, until a projection makes rows of them
again.  Between two calls the scope knows the key of the groups exactly if the calls so far group
(`Resolve.Grouped`), so rows are not grouped while they are, and only a predicate over groups aggregates
anything: `Operation.GroupRule`.  Main statement: `Resolve.upheld_grouped`.
-/

namespace FluentQuery

set_option autoImplicit false

/-! ### Aggregates -/

namespace Expr

def isAggregate : Expr → Bool
  | aggregate _ _ => true
  | _ => false

/-- Whether an aggregate of a group occurs in an expression. -/
def hasAggregate (e : Expr) : Bool :=
  e.walk.any isAggregate

theorem hasAggregate_eq_false_iff {e : Expr} :
    e.hasAggregate = false ↔ e.Every fun node => node.isAggregate = false := by
  unfold hasAggregate Every
  rw [List.any_eq_false]
  simp only [Bool.not_eq_true]

/-- Bodies over rows make no aggregates. -/
theorem formative_plain : Formative fun node => node.isAggregate = false where
  name {e} is := by
    cases e <;> first | rfl | cases is
  null := rfl
  minusOne := rfl
  isNull _ := rfl
  comparison _ _ := rfl
  arithmetic _ _ := rfl
  concat _ _ := rfl
  logical _ _ := rfl
  negation _ := rfl
  stringMethod _ := rfl
  caseInsensitive _ _ := rfl
  membership _ _ := rfl
  textTest _ _ := rfl
  window _ _ _ := rfl
  oneCondition _ _ := rfl
  moreConditions _ _ _ := rfl
  oneAlternative _ := rfl
  moreAlternatives _ _ := rfl
  array _ := rfl
  noMember := rfl
  oneMember _ := rfl
  moreMembers _ _ := rfl

end Expr

/-! ### What calls may do -/

namespace Step

def isGroupBy : Step → Bool
  | groupBy _ => true
  | _ => false

/-- A step that leaves rows or groups what they are and tests nothing of them. -/
def isCalm : Step → Bool
  | fromSource _ _ _ _ | filter _ | select _ | groupBy _ | terminal _ _ | contains _ => false
  | _ => true

end Step

namespace Operation

/-- Whether rows are grouped after the last step: a `groupBy` groups them until a projection. -/
def grouped : Operation → Bool
  | [] => false
  | .groupBy _ :: _ => true
  | .select _ :: _ => false
  | step :: earlier => !step.isFrom && grouped earlier

/-- After a calm step rows are grouped if they were before it. -/
theorem grouped_calm {step : Step} (calm : step.isCalm = true) (earlier : Operation) :
    grouped (step :: earlier) = grouped earlier := by
  cases step <;> first | rfl | cases calm

/-- What a call may do where it stands. -/
structure GroupRule (step : Step) (earlier : Operation) : Prop where
  /-- Groups are not grouped again. -/
  once : step.isGroupBy = true → grouped earlier = false
  /-- A predicate over rows aggregates nothing. -/
  rows : grouped earlier = false → ∀ e ∈ step.predicate?, e.hasAggregate = false
  /-- The value that is searched for is not one of groups. -/
  sought : ∀ e, step = .contains e → e.hasAggregate = false

theorem GroupRule.groupBy {earlier : Operation} (ungrouped : grouped earlier = false) (key : Expr) :
    GroupRule (.groupBy key) earlier where
  once _ := ungrouped
  rows _ e mem := by cases mem
  sought e is := by cases is

/-- Calm steps obey the rule wherever they stand. -/
theorem GroupRule.of_calm {step : Step} (calm : step.isCalm = true) (earlier : Operation) :
    GroupRule step earlier := by
  constructor <;> intros <;> cases step <;> cases calm <;> contradiction

end Operation

/-! ### What scopes know -/

/-- Between calls no group has a name. -/
def Bindings.NamesRows (b : Bindings) : Prop :=
  b.groupings = []

/-- Two scopes that know the same groups. -/
structure Scope.SameGroups (s s' : Scope) : Prop where
  names : s'.bindings.groupings = s.bindings.groupings
  key : s'.groupByKey = s.groupByKey

variable {s s' s'' : Scope}

namespace Scope

theorem Alike.sameGroups (h : s.Alike s') : s.SameGroups s' :=
  ⟨by rw [h.bindings], h.groupByKey⟩

theorem SameGroups.trans (h : s.SameGroups s') (h' : s'.SameGroups s'') : s.SameGroups s'' :=
  ⟨h'.names.trans h.names, h'.key.trans h.key⟩

end Scope

/-- A scope between two calls knows whether rows are grouped, and a key that aggregates nothing. -/
structure Scope.KnowsGroups (grouped : Bool) (s : Scope) : Prop where
  names : s.bindings.NamesRows
  key : s.groupByKey = .absent ↔ grouped = false
  plain : s.groupByKey.hasAggregate = false

theorem Scope.KnowsGroups.same {grouped : Bool} (h : s.KnowsGroups grouped) (same : s.SameGroups s') :
    s'.KnowsGroups grouped := by
  obtain ⟨names, key⟩ := same
  exact ⟨names.trans h.names, key ▸ h.key, key ▸ h.plain⟩

namespace Resolve

/-- The outcome of a chain: every call was allowed, and the scope knows whether rows are grouped. -/
structure Grouped (op : Operation) (s : Scope) : Prop where
  rule : op.Everywhere Operation.GroupRule
  knows : op.IsOpen → s.KnowsGroups op.grouped

/-! ### Bodies over rows -/

/-- A lambda makes of its body what the scope hands out where its parameters are bound. -/
theorem formed_resolveLambda {p : Expr → Prop} (formative : Expr.Formative p) {node : Node}
    {isPredicate : Bool} {method : String} {bindParams : List String → Resolve Unit} {e : Expr}
    (hands : ∀ params t, bindParams params s = .ok () t → t.Hands p)
    (run : node.resolveLambda isPredicate method bindParams s = .ok e s') : e.Formed p := by
  cases node with
  | arrow params body =>
    rw [Node.resolveLambda_arrow] at run
    unfold withParams withBindings at run
    split at run
    · rename_i e' t inside
      cases run
      obtain ⟨_, t', bound, inside⟩ := bind_eq_ok.1 inside
      cases found : body.lambdaBody with
      | ok value =>
        rw [found] at inside
        exact (value.forms_resolve formative _ t' _ _ (hands params t' bound) inside).2
      | error =>
        rw [found] at inside
        cases inside
    · cases run
  | _ => cases run

section

variable (names : s.bindings.NamesRows)

include names

/-- While rows are not grouped, the parameters of a lambda name no group. -/
theorem hands_bindRowParams (ungrouped : s.groupByKey = .absent) (params : List String) (t : Scope)
    (run : bindRowParams params s = .ok () t) : t.Hands fun node => node.isAggregate = false := by
  have row {name : String} {t : Scope} (run : bindRow name s = .ok () t) :
      t.groupByKey = .absent ∧ t.bindings.groupings = [] := by
    cases run
    dsimp only
    rw [ungrouped]
    exact ⟨rfl, Bindings.keepsRows_bindElement name _ names⟩
  have bound : t.groupByKey = .absent ∧ t.bindings.groupings = [] := by
    match params with
    | [] =>
      cases run
      exact ⟨ungrouped, names⟩
    | [_] => exact row run
    | [_, _] =>
      obtain ⟨_, t', first, second⟩ := bind_eq_ok.1 run
      cases second
      obtain ⟨ungrouped', names'⟩ := row first
      exact ⟨ungrouped', names'⟩
    | _ :: _ :: _ :: _ => cases run
  exact ⟨bound.1 ▸ Expr.every_absent, .inr bound.2⟩

/-- A predicate over rows aggregates nothing. -/
theorem plain_rowPredicate (node : Node) :
    Leads s (fun e s' => s.Alike s' ∧ (s.groupByKey = .absent → e.hasAggregate = false))
      (rowPredicate node) := by
  refine .intro fun e s' run => ?_
  have same := Ensures.of_ok (alike_rowPredicate node) run
  refine ⟨same, fun ungrouped => ?_⟩
  obtain ⟨_, _, ⟨⟩, run⟩ := bind_eq_ok.1 run
  obtain ⟨value, t, first, second⟩ := bind_eq_ok.1 run
  have formed := formed_resolveLambda Expr.formative_plain (hands_bindRowParams names ungrouped) first
  unfold predicate at second
  cases found : value.toBoolean with
  | ok e' =>
    rw [found] at second
    cases second
    exact Expr.hasAggregate_eq_false_iff.2 (Expr.formed_toBoolean Expr.formative_plain formed.2 found).2
  | error =>
    rw [found] at second
    cases second

/-- A value made of rows aggregates nothing. -/
theorem plain_rowValue (node : Node) :
    Leads s (fun e s' => s.Alike s' ∧ (s.groupByKey = .absent → e.hasAggregate = false) ∧ e ≠ .absent)
      (rowValue node) := by
  refine .intro fun e s' run => ?_
  have same := Ensures.of_ok (alike_rowValue node) run
  have there : e ≠ .absent := by
    have forms : Forms (fun _ => True) (Expr.Formed fun _ => True) (rowValue node) :=
      .get fun _ _ => node.forms_resolveLambda Expr.formative_trivial _ _ _
        (forms_bindRowParams Expr.aggregating_trivial)
    exact (forms.yields s e s' run).1
  refine ⟨same, fun ungrouped => ?_, there⟩
  obtain ⟨_, _, ⟨⟩, run⟩ := bind_eq_ok.1 run
  exact Expr.hasAggregate_eq_false_iff.2
    (formed_resolveLambda Expr.formative_plain (hands_bindRowParams names ungrouped) run).2

/-- A value outside lambdas aggregates nothing. -/
theorem plain_value (plain : s.groupByKey.hasAggregate = false) {work : Resolve Expr}
    (tidy : Tidy .everything (closed .everything) work)
    (forms : Forms (fun node => node.isAggregate = false)
      (Expr.Formed fun node => node.isAggregate = false) work) :
    Leads s (fun e s' => s.Alike s' ∧ e.hasAggregate = false) work := by
  refine .intro fun e s' run => ?_
  have same := Ensures.of_ok (leads_alike tidy) run
  have hands : s.Hands fun node => node.isAggregate = false :=
    ⟨Expr.hasAggregate_eq_false_iff.1 plain, .inr names⟩
  exact ⟨same, Expr.hasAggregate_eq_false_iff.2 (forms s e s' hands run).2.2⟩

end

/-! ### Methods of a SELECT -/

/-- A calm step is added, and the same groups are known. -/
def Calms (source : Operation) (s : Scope) (op : Operation) (s' : Scope) : Prop :=
  ∃ step, op = step :: source ∧ step.isCalm = true ∧ step.nested.Everywhere Operation.GroupRule ∧
    s.SameGroups s'

section

variable {source : Operation} (h : Grouped source s)

include h

/-- A step that obeys the rule may be added. -/
theorem Grouped.add {step : Step} (isFrom : step.isFrom = false)
    (here : Operation.GroupRule step source) (nested : step.nested.Everywhere Operation.GroupRule)
    (knows : s'.KnowsGroups (Operation.grouped (step :: source))) : Grouped (step :: source) s' :=
  ⟨.step isFrom here nested h.rule, fun _ => knows⟩

variable (isOpen : source.IsOpen)

include isOpen

/-- A calm step leaves the groups as they are. -/
theorem Grouped.calm {op : Operation} (calms : Calms source s op s') : Grouped op s' := by
  obtain ⟨step, rfl, calm, nested, same⟩ := calms
  refine h.add ?_ (.of_calm calm source) nested ?_
  · cases step <;> first | rfl | cases calm
  · rw [Operation.grouped_calm calm]
    exact (h.knows isOpen).same same

theorem grouped_of_calms {work : Resolve Operation} (calms : Leads s (Calms source s) work) :
    Leads s Grouped work :=
  calms.mono (fun _ _ => h.calm isOpen) fun _ => id

/-- A step that tests the rows is added. -/
theorem Grouped.tests {step : Step} (isFrom : step.isFrom = false) (nested : step.nested = [])
    (same : s.SameGroups s') (here : Operation.GroupRule step source)
    (grouped : Operation.grouped (step :: source) = source.grouped) : Grouped (step :: source) s' := by
  refine h.add isFrom here ?_ (grouped ▸ (h.knows isOpen).same same)
  rw [nested]
  exact .nil

variable (arguments : List Node)

/-- `where` tests a group only if there is one. -/
theorem grouped_filter : Leads s Grouped (filter source arguments) := by
  unfold filter
  split
  · split
    · cases isOpen.1
    · cases isOpen.1
    · refine .require isOpen (.bind (plain_rowPredicate (h.knows isOpen).names _) ?_)
      rintro e s' ⟨same, rows⟩
      refine .pure (h.tests isOpen rfl rfl same.sameGroups ⟨nofun, fun ungrouped => ?_, nofun⟩ rfl)
      rintro _ ⟨⟩
      exact rows ((h.knows isOpen).key.2 ungrouped)
  · exact .failArguments

/-- A terminal step tests a group only if there is one. -/
theorem grouped_terminal (kind : TerminalKind) :
    Leads s Grouped (terminal kind source arguments) := by
  refine .require isOpen ?_
  split
  · refine .bind (plain_rowPredicate (h.knows isOpen).names _) ?_
    rintro e s' ⟨same, rows⟩
    refine .pure (h.tests isOpen rfl rfl same.sameGroups ⟨nofun, fun ungrouped e' is => ?_, nofun⟩ rfl)
    rw [Step.eq_of_mem_predicate?_terminal is]
    exact rows ((h.knows isOpen).key.2 ungrouped)
  · generalize (if kind = TerminalKind.all then 1 else 0) = least
    dsimp only
    split
    · exact .pure (h.tests isOpen rfl rfl ⟨rfl, rfl⟩ ⟨nofun, nofun, nofun⟩ rfl)
    · exact .failArguments

theorem grouped_contains : Leads s Grouped (contains source arguments) := by
  have knows := h.knows isOpen
  have found {work : Resolve Expr} (tidy : Tidy .everything (closed .everything) work)
      (forms : Forms (fun node => node.isAggregate = false)
        (Expr.Formed fun node => node.isAggregate = false) work) :
      Leads s Grouped (work >>= fun e => pure (.contains e :: source)) := by
    refine .bind (plain_value knows.names knows.plain tidy forms) ?_
    rintro e s' ⟨same, plain⟩
    refine .pure (h.tests isOpen rfl rfl same.sameGroups ⟨nofun, nofun, ?_⟩ rfl)
    rintro _ ⟨⟩
    exact plain
  refine .require isOpen ?_
  split
  · dsimp only
    split
    · split
      · exact found (tidy_literal _ _) (forms_literal Expr.formative_plain _ _)
      · exact found (tidy_autoParam _ _ _) (forms_autoParam Expr.formative_plain _ _ _)
    · exact found (Node.tidy_resolve _ false) (Node.forms_resolve Expr.formative_plain _ false)
  · exact .failArguments

/-- A projection makes rows of groups. -/
theorem grouped_select : Leads s Grouped (select source arguments) := by
  have knows := h.knows isOpen
  refine .require isOpen ?_
  split
  · refine .bind (plain_rowValue knows.names _) ?_
    rintro selector s' ⟨same, -, -⟩
    refine .modify (.modify (.pure (h.add rfl ⟨nofun, nofun, nofun⟩ .nil ?_)))
    exact ⟨same.sameGroups.names.trans knows.names, iff_of_true rfl rfl, rfl⟩
  · exact .failArguments

/-- Only rows are grouped, by what aggregates nothing. -/
theorem grouped_groupBy : Leads s Grouped (groupBy source arguments) := by
  have knows := h.knows isOpen
  refine .require isOpen ?_
  split
  · refine .get ?_
    dsimp only
    split
    · exact trivial
    · rename_i ungrouped
      have ungrouped : s.groupByKey = .absent := by
        cases key : s.groupByKey <;> simp [key, Expr.isAbsent] at ungrouped ⊢
      refine .bind (plain_rowValue knows.names _) ?_
      rintro key s' ⟨same, plain, there⟩
      refine .modify (.pure (h.add rfl (.groupBy (knows.key.1 ungrouped) key) .nil ?_))
      exact ⟨same.sameGroups.names.trans knows.names, iff_of_false there (ne_false_of_eq_true rfl),
        plain ungrouped⟩
  · exact .failArguments

/-! ### Methods that are calm -/

end

section

variable {source : Operation}

/-- A step with one expression, which is resolved before it is added, is calm. -/
theorem calms_add (make : Expr → Step) (calm : ∀ e, (make e).isCalm = true)
    (nested : ∀ e, (make e).nested = []) {work : Resolve Expr}
    (alike : Leads s (fun _ s' => s.Alike s') work) :
    Leads s (Calms source s) (work >>= fun e => pure (make e :: source)) := by
  refine .bind alike ?_
  intro e s' same
  exact .pure ⟨make e, rfl, calm e, nested e ▸ .nil, same.sameGroups⟩

variable (isOpen : source.IsOpen) (arguments : List Node)

include isOpen

theorem calms_sort (kind : SortKind) (descending : Bool) :
    Leads s (Calms source s) (sort kind descending source arguments) := by
  refine .require isOpen ?_
  split
  · dsimp only
    split
    · exact trivial
    · exact calms_add (.sort kind · descending) (fun _ => rfl) (fun _ => rfl) (alike_rowValue _)
  · exact .failArguments

theorem calms_page (kind : PageKind) : Leads s (Calms source s) (page kind source arguments) := by
  have pages {work : Resolve Expr} (alike : Leads s (fun _ s' => s.Alike s') work) :
      Leads s (Calms source s) (work >>= fun count => pure (.page kind count :: source)) :=
    calms_add (.page kind) (fun _ => rfl) (fun _ => rfl) alike
  refine .require isOpen ?_
  split
  · split
    · dsimp only
      split
      · exact trivial
      · exact pages (leads_alike (tidy_autoParam _ _ _))
    · exact trivial
  · exact pages (leads_alike (Node.tidy_resolve _ false))
  · exact .failArguments

theorem calms_mark {step : Step} (calm : step.isCalm = true) (nested : step.nested = []) :
    Leads s (Calms source s) (mark step source arguments) := by
  refine .require isOpen ?_
  split
  · exact .pure ⟨step, rfl, calm, nested ▸ .nil, ⟨rfl, rfl⟩⟩
  · exact .failArguments

theorem calms_aggregate (kind : AggregateKind) :
    Leads s (Calms source s) (aggregate kind source arguments) := by
  refine .require isOpen ?_
  split
  · exact .pure ⟨.aggregate kind .absent, rfl, rfl, .nil, ⟨rfl, rfl⟩⟩
  · exact calms_add (.aggregate kind) (fun _ => rfl) (fun _ => rfl) (alike_rowValue _)
  · exact .failArguments

end

/-! ### Joins and collections -/

theorem alike_resultSelector (index : Int) (node : Node) :
    Leads s (fun _ s' => s.Alike s') (resultSelector index node) :=
  .get (alike_lambda node false _ (rebinds_bindResultParams trivial trivial))

section

variable {source : Operation}

/-- A nested query follows the rules by itself, and leaves the scope as it was. -/
theorem Embedded.grouped {query : Resolve Operation}
    (nests : Embedded Bindings.NamesRows Grouped query) (names : s.bindings.NamesRows) :
    Leads s (fun op s' => op.Everywhere Operation.GroupRule ∧ s.Alike s') query := by
  refine (nests s names).mono ?_ fun _ => id
  rintro op s' ⟨-, ⟨_, grouped⟩, same⟩
  exact ⟨grouped.rule, same⟩

/-- A join is calm, and holds a query that obeys the rule. -/
theorem calms_finishJoin {t : Scope} (same : s.Alike t) {inner : Operation}
    (nested : inner.Everywhere Operation.GroupRule) (kind : JoinKind) (keys : JoinKeys)
    (selector : Expr) (index : Int) :
    Leads t (Calms source s) (finishJoin kind inner keys selector index source) :=
  ⟨.join kind inner keys selector selector.resultShape, rfl, rfl, nested,
    ⟨same.sameGroups.names, same.groupByKey⟩⟩

variable (isOpen : source.IsOpen) (names : s.bindings.NamesRows) (arguments : List Node)
  {query : Resolve Operation}
  (nests : arguments ≠ [] → Embedded Bindings.NamesRows Grouped query)

include isOpen names nests

theorem calms_join (kind : JoinKind) : Leads s (Calms source s) (join kind source arguments query) := by
  refine .require isOpen (.get ?_)
  dsimp only
  split
  · split
    · refine .bind ((nests (by simp)).grouped names) ?_
      rintro op s₁ ⟨nested, same⟩
      exact calms_finishJoin same nested kind _ _ _
    · refine .bind ((nests (by simp)).grouped names) ?_
      rintro op s₁ ⟨nested, same⟩
      refine .bind (alike_resultSelector _ _) ?_
      intro e s₂ same₂
      exact calms_finishJoin (same.trans same₂) nested kind _ _ _
    · exact .failArguments
  · split
    · refine .bind ((nests (by simp)).grouped names) ?_
      rintro op s₁ ⟨nested, same⟩
      refine .bind (alike_joinKeys _ _) ?_
      intro keys s₂ same₂
      exact calms_finishJoin (same.trans same₂) nested kind _ _ _
    · refine .bind ((nests (by simp)).grouped names) ?_
      rintro op s₁ ⟨nested, same⟩
      refine .bind (alike_joinKeys _ _) ?_
      intro keys s₂ same₂
      refine .bind (alike_resultSelector _ _) ?_
      intro e s₃ same₃
      exact calms_finishJoin ((same.trans same₂).trans same₃) nested kind _ _ _
    · exact .failArguments

theorem calms_groupJoin : Leads s (Calms source s) (groupJoin source arguments query) := by
  refine .require isOpen ?_
  split
  · refine .get (.bind ((nests (by simp)).grouped names) ?_)
    rintro op s₁ ⟨nested, same⟩
    refine .bind (alike_joinKeys _ _) ?_
    intro keys s₂ same₂
    refine .bind (alike_resultSelector _ _) ?_
    intro e s₃ same₃
    have same := ((same.trans same₂).trans same₃).sameGroups
    split
    · dsimp only
      split
      · exact .fail
      · exact ⟨.groupJoin op keys _ _ _ _, rfl, rfl, nested, ⟨same.names, same.key⟩⟩
    · exact .fail
  · exact .failArguments

omit isOpen nests names in
/-- A collection is calm, and holds a query that obeys the rule, or none. -/
theorem calms_finishSelectMany {t : Scope} (same : s.SameGroups t) {collection : Operation}
    (nested : collection.Everywhere Operation.GroupRule) (path : List String) (usesDefault : Bool)
    (index : Int) (selector? : Option Node) :
    Leads t (Calms source s)
      (finishSelectMany collection path usesDefault index selector? source) := by
  unfold finishSelectMany
  split
  · refine .bind (alike_resultSelector _ _) ?_
    intro e t' same'
    have same := same.trans same'.sameGroups
    exact ⟨.selectMany collection _ e _ _, rfl, rfl, nested, ⟨same.names, same.key⟩⟩
  · exact ⟨.selectMany collection _ .absent _ _, rfl, rfl, nested, ⟨same.names, same.key⟩⟩

omit isOpen nests in
theorem calms_flatten (nests : Embedded Bindings.NamesRows Grouped query) (argument : Node)
    (selector? : Option Node) : Leads s (Calms source s) (flatten argument selector? source query) := by
  unfold flatten
  split
  · exact .failUnplaced
  · dsimp only
    split
    · refine .bind (nests.grouped names) ?_
      rintro op s₁ ⟨nested, same⟩
      have same : s.SameGroups { s₁ with tableCount := s₁.tableCount + 1 } :=
        ⟨same.sameGroups.names, same.groupByKey⟩
      refine .get (.modify ?_)
      split
      · have below := ((Operation.everywhere_step rfl).1 nested).2.2
        exact calms_finishSelectMany same below [] true _ selector?
      · exact calms_finishSelectMany same nested [] _ _ selector?
    · refine .bind (leads_steadyTable _) ?_
      rintro index _ rfl
      exact calms_finishSelectMany ⟨rfl, rfl⟩ .nil _ _ _ selector?

theorem calms_selectMany : Leads s (Calms source s) (selectMany source arguments query) := by
  refine .require isOpen ?_
  split
  · exact calms_flatten names (nests (by simp)) _ _
  · exact calms_flatten names (nests (by simp)) _ _
  · exact .failArguments

end

/-! ### Chains -/

/-- A statement that changes rows groups none. -/
theorem Grouped.change {step : Step} (isCrud : step.isCrud = true) (s : Scope) :
    Grouped [step] s := by
  refine ⟨?_, fun isOpen => nomatch isCrud.symm.trans isOpen.1⟩
  cases step with
  | insert | update | delete => exact .step rfl ⟨nofun, nofun, nofun⟩ .nil .nil
  | _ => cases isCrud

/-- One call follows the rules. -/
theorem grouped_extend {source : Operation} (isOpen : source.IsOpen) (h : Grouped source s)
    (method : Method) (arguments : List Node) {inner collection : Resolve Operation}
    (nests : arguments ≠ [] → Embedded Bindings.NamesRows Grouped inner)
    (collects : arguments ≠ [] → Embedded Bindings.NamesRows Grouped collection) :
    Leads s Grouped (apply method source arguments inner collection) := by
  have names := (h.knows isOpen).names
  have calm {work : Resolve Operation} (calms : Leads s (Calms source s) work) :
      Leads s Grouped work := grouped_of_calms h isOpen calms
  cases method with
  | filter => exact grouped_filter h isOpen arguments
  | select => exact grouped_select h isOpen arguments
  | groupBy => exact grouped_groupBy h isOpen arguments
  | sort kind descending => exact calm (calms_sort isOpen arguments kind descending)
  | page kind => exact calm (calms_page isOpen arguments kind)
  | distinct | reverse | defaultIfEmpty => exact calm (calms_mark isOpen arguments rfl rfl)
  | join kind => exact calm (calms_join isOpen names arguments nests kind)
  | groupJoin => exact calm (calms_groupJoin isOpen names arguments nests)
  | selectMany => exact calm (calms_selectMany isOpen names arguments collects)
  | terminal kind => exact grouped_terminal h isOpen arguments kind
  | contains => exact grouped_contains h isOpen arguments
  | aggregate kind => exact calm (calms_aggregate isOpen arguments kind)
  | values => exact .refuse isOpen (yields_values arguments)
  | onConflict => exact .refuse isOpen (yields_onConflict arguments)
  | doNothing => exact .refuse isOpen (yields_doNothing arguments)
  | doUpdateSet => exact .refuse isOpen (yields_doUpdateSet arguments)
  | returning => exact .refuse isOpen (yields_returning arguments)
  | set => exact .refuse isOpen (yields_setColumns arguments)
  | allowFullTableUpdate => exact .refuse isOpen (yields_allowFullTableUpdate arguments)
  | allowFullTableDelete => exact .refuse isOpen (yields_allowFullTableDelete arguments)

/-- Every call of a chain follows the rules. -/
theorem upheld_grouped : Upheld Bindings.NamesRows Grouped where
  alike h same := ⟨h.rule, fun isOpen => (h.knows isOpen).same same.sameGroups⟩
  change := Grouped.change
  start {step s} isFrom names nested _ _ := by
    refine ⟨.start isFrom ?_, fun _ => ⟨names, iff_of_true rfl ?_, rfl⟩⟩
    · rcases nested with empty | ⟨_, grouped⟩
      · rw [empty]
        exact .nil
      · exact grouped.rule
    · cases step with
      | fromSource => rfl
      | _ => cases isFrom
  extend isOpen h method arguments _ _ nests collects :=
    grouped_extend isOpen h method arguments nests collects

end Resolve

/-- Before the first call no group has a name. -/
theorem Node.namesRows_rootScope {builder : Node} {start : Scope}
    (h : builder.rootScope = .ok start) : start.bindings.NamesRows := by
  unfold rootScope at h
  split at h
  · split at h <;> cases h <;> rfl
  · cases h
    rfl

end FluentQuery
