import FluentQuery.Proofs.Effect
import FluentQuery.Proofs.Expr.Filled
import FluentQuery.Proofs.Resolve.BodyInduction

/-!
# What lambda bodies are made of

Main statement: `Node.forms_resolve`.  Whatever node is resolved, the resulting expression is there and
all its nodes have any property that the ways of making nodes guarantee (`Expr.Formative`), if what the
scope hands out has it (`Scope.Hands`): the key that rows are grouped by is the only expression of a
scope, and lambdas make aggregates of groups only.
-/

namespace FluentQuery

set_option autoImplicit false

/-! ### Expressions made from others -/

namespace Expr

/-- An expression that is there and all of whose nodes have a property. -/
def Formed (p : Expr → Prop) (e : Expr) : Prop :=
  e ≠ absent ∧ e.Every p

/-- A predicate all of whose nodes have a property. -/
def FormedTest (p : Expr → Prop) (e : Expr) : Prop :=
  e.isBoolean = true ∧ e.Every p

/-- Members of an object all of whose nodes have a property. -/
def FormedMembers (p : Expr → Prop) (ms : List (String × Expr)) : Prop :=
  (object ms).Every p

variable {p : Expr → Prop} (formative : Formative p) {e e' l r : Expr}

/-- A condition is an expression too. -/
theorem FormedTest.formed (h : e.FormedTest p) : e.Formed p :=
  ⟨ne_absent_of_isBoolean h.1, h.2⟩

include formative

/-- Names are nodes without operands, and any property that is formative holds of them. -/
theorem Formative.ofName (h : e.isName = true) (there : e ≠ absent) (leaf : e.walk = [e]) :
    e.Formed p :=
  ⟨there, (every_leaf leaf).2 (formative.name h)⟩

theorem formedMembers_single {key : String} (h : e.Formed p) : FormedMembers p [(key, e)] :=
  (every_object _).2 ⟨formative.oneMember h.1, List.forall_mem_singleton.2 h.2⟩

/-- Members are collected property by property. -/
theorem formedMembers_append {ms ms' : List (String × Expr)} (h : FormedMembers p ms)
    (h' : FormedMembers p ms') : FormedMembers p (ms ++ ms') := by
  obtain ⟨here, below⟩ := (every_object _).1 h
  obtain ⟨here', below'⟩ := (every_object _).1 h'
  exact (every_object _).2 ⟨formative.moreMembers here here', List.forall_mem_append.2 ⟨below, below'⟩⟩

theorem formedMembers_cons {key : String} {ms : List (String × Expr)} (h : e.Formed p)
    (rest : FormedMembers p ms) : FormedMembers p ((key, e) :: ms) :=
  formedMembers_append formative (formedMembers_single formative h) rest

theorem formedMembers_nil : FormedMembers p [] :=
  (every_object _).2 ⟨formative.noMember, nofun⟩

/-- Read as a condition, a column or a parameter is replaced by a node of its own; all others stay. -/
theorem formed_toBoolean (h : e.Every p) (he : e.toBoolean = .ok e') : e'.FormedTest p := by
  unfold toBoolean at he
  split at he
  · cases he
    exact ⟨‹_›, h⟩
  · split at he <;> cases he
    · exact ⟨rfl, (every_booleanColumn _ _ _).2 (formative.name rfl)⟩
    · exact ⟨rfl, (every_booleanParam _ _).2 (formative.name rfl)⟩

/-- The test of a choice: a column is tested for being there, all else is read as a condition. -/
theorem formed_testOf (h : e.Every p) (he : e.testOf = .ok e') : e'.FormedTest p := by
  unfold testOf at he
  split at he
  · cases he
    exact ⟨rfl, (every_isNull _ _).2 ⟨formative.isNull nofun, h⟩⟩
  · exact formed_toBoolean formative h he

/-- The alternatives of an expression may be put into one COALESCE. -/
theorem formed_alternatives (h : e.Formed p) : (coalesce e.alternatives).Every p := by
  unfold alternatives
  split
  · exact h.2
  · exact (every_coalesce _).2 ⟨formative.oneAlternative h.1, List.forall_mem_singleton.2 h.2⟩

/-- Two alternatives make one COALESCE. -/
theorem formed_firstOf (hl : l.Formed p) (hr : r.Formed p) : (l.firstOf r).Formed p := by
  obtain ⟨here, left⟩ := (every_coalesce _).1 (formed_alternatives formative hl)
  obtain ⟨here', right⟩ := (every_coalesce _).1 (formed_alternatives formative hr)
  refine ⟨nofun, (every_coalesce _).2 ?_⟩
  exact ⟨formative.moreAlternatives here here', List.forall_mem_append.2 ⟨left, right⟩⟩

/-- A choice makes a case, or continues the case that is its last result. -/
theorem formed_conditional {test : Expr} (ht : test.FormedTest p) (hl : l.Formed p)
    (hr : r.Formed p) : (conditional test l r).Formed p := by
  unfold conditional
  split
  · obtain ⟨here, conditions, otherwise⟩ := (every_caseWhen _ _).1 hr.2
    refine ⟨nofun, (every_caseWhen _ _).2 ⟨formative.moreConditions ht.1 hl.1 here, ?_, otherwise⟩⟩
    exact List.forall_mem_cons.2 ⟨⟨ht.2, hl.2⟩, conditions⟩
  · refine ⟨nofun, (every_caseWhen _ _).2 ⟨formative.oneCondition ht.1 hl.1, ?_, hr.2⟩⟩
    exact List.forall_mem_singleton.2 ⟨ht.2, hl.2⟩

omit formative in
/-- A property of an object that is looked up is one of its members or missing. -/
theorem every_findProperty {properties : List (String × Expr)}
    (h : ∀ m ∈ properties, m.2.Every p) (key : String) : (findProperty properties key).Every p := by
  induction properties with
  | nil => exact every_absent
  | cons m rest ih =>
    rw [List.forall_mem_cons] at h
    unfold findProperty
    split
    · exact h.1
    · exact ih h.2

mutual

/-- A shape is turned back into columns, rows and objects of them. -/
theorem formed_ofShapeNode : ∀ (node : Shape) (e : Expr), ofShapeNode node = some e → e.Formed p
  | .column _ _, _, he => by
    cases he
    exact formative.ofName rfl nofun rfl
  | .reference _, _, he => by
    cases he
    exact formative.ofName rfl nofun rfl
  | .object properties, _, he => by
    cases he
    exact ⟨nofun, formed_ofShape properties⟩
  | .array _, _, he => by cases he

/-- The same for all members of a shape. -/
theorem formed_ofShape : ∀ (properties : List (String × Shape)), FormedMembers p (ofShape properties)
  | [] => formedMembers_nil formative
  | (key, node) :: rest => by
    unfold ofShape
    split
    · rename_i e he
      exact formedMembers_cons formative (formed_ofShapeNode node e he) (formed_ofShape rest)
    · exact formed_ofShape rest

end

end Expr

/-! ### What names stand for -/

namespace Bindings

/-- A change of bindings that gives no group a name. -/
def KeepsRows (change : Bindings → Bindings) : Prop :=
  ∀ b : Bindings, b.groupings = [] → (change b).groupings = []

variable {change : Bindings → Bindings} (name : String)

/-- Bindings are changed one after the other. -/
theorem KeepsRows.comp {next : Bindings → Bindings} (h : KeepsRows change) (h' : KeepsRows next) :
    KeepsRows fun b => next (change b) :=
  fun b rows => h' _ (h b rows)

/-- A name that is bound to a row stands for no group. -/
theorem keepsRows_bindTable : KeepsRows (·.bindTable name) := by
  intro b rows
  simp [bindTable, NameSet.erase, rows]

theorem keepsRows_bindJoin (index : Int) : KeepsRows (·.bindJoin name index) := by
  intro b rows
  simp [bindJoin, NameSet.erase, rows]

theorem keepsRows_bindShape (shape : Option ResultShape) : KeepsRows (·.bindShape name shape) := by
  intro b rows
  simp [bindShape, NameSet.erase, rows]

theorem keepsRows_bindParam : KeepsRows (·.bindParam name) :=
  fun _ rows => rows

theorem keepsRows_bindExcluded : KeepsRows (·.bindExcluded name) :=
  fun _ rows => rows

theorem keepsRows_bindElement : KeepsRows (·.bindElement name) := by
  intro b rows
  dsimp only [bindElement]
  split
  · exact keepsRows_bindShape name _ b rows
  · exact keepsRows_bindTable name b rows

end Bindings

namespace Scope

open FluentQuery.Expr

/-- What a scope hands out has a property: all nodes of the key that rows are grouped by, and
aggregates, unless no group has a name. -/
def Hands (p : Expr → Prop) (s : Scope) : Prop :=
  s.groupByKey.Every p ∧ (Aggregating p ∨ s.bindings.groupings = [])

/-- If aggregates have the property, a scope hands out what has it exactly if the key of its groups
does. -/
theorem hands_iff {p : Expr → Prop} (aggregating : Aggregating p) {s : Scope} :
    s.Hands p ↔ s.groupByKey.Every p :=
  ⟨And.left, fun key => ⟨key, .inl aggregating⟩⟩

/-- Where a call aggregates a group, a group has a name. -/
theorem Hands.aggregating {p : Expr → Prop} {s : Scope} (h : s.Hands p) {receiver : Node}
    {method : String} (grouping : s.callKind receiver method = .grouping) : Aggregating p := by
  refine h.2.resolve_right fun rows => ?_
  have named (method : String) : CallKind.ofMethod method ≠ .grouping := by
    unfold CallKind.ofMethod
    split
    · nofun
    · nofun
    · nofun
    · split <;> nofun
  unfold Scope.callKind at grouping
  split at grouping
  · rw [rows] at grouping
    split at grouping
    · cases grouping
    · exact named method grouping
  · split at grouping
    · cases grouping
    · exact named method grouping
  · exact named method grouping

variable {p : Expr → Prop} (formative : Formative p) {s : Scope}

include formative

/-- A name stands for null, for a row or for a parameter. -/
theorem formed_identifier {name : String} {e : Expr} (h : s.identifier name = .ok e) :
    e.Formed p := by
  unfold Scope.identifier at h
  dsimp only at h
  split at h
  · cases h
    exact ⟨nofun, (every_constant _).2 formative.null⟩
  split at h
  · cases h
    exact formative.ofName rfl nofun rfl
  split at h
  · cases h
    exact formative.ofName rfl nofun rfl
  split at h
  -- A row of a known shape stands for the object of its members.
  · split at h <;> cases h
    · exact ⟨nofun, formed_ofShape formative _⟩
    · exact formative.ofName rfl nofun rfl
  split at h
  · cases h
    exact formative.ofName rfl nofun rfl
  split at h <;> cases h

omit formative in
/-- An access to a group leads to its key or to a member of it. -/
theorem formed_groupingAccess (key : s.groupByKey.Every p) {root first : String}
    {rest : List String} {e : Expr} (h : s.groupingAccess root first rest = .ok e) :
    e.Formed p := by
  unfold Scope.groupingAccess at h
  split at h
  · cases h
  · rename_i grouped
    split at h
    · cases h
      refine ⟨fun gone => grouped ?_, key⟩
      rw [gone]
      simp [Expr.isAbsent]
    · rename_i same
      rw [same] at key
      split at h
      · cases h
      · rename_i there
        cases h
        exact ⟨there, every_findProperty ((every_object _).1 key).2 _⟩
    · cases h

/-- A path through a shape ends at a column, a row or an object of them. -/
theorem formed_shapePath {path : List String} {node : Option Shape} {walked rest : List String}
    {e : Expr} (h : shapePath path node walked rest = .ok e) : e.Formed p := by
  fun_induction shapePath path node walked rest with
  | case1 | case2 =>
    cases h
    exact formative.ofName rfl nofun rfl
  | case3 _ _ _ _ ih => exact ih h
  | case4 | case5 | case7 => cases h
  | case6 _ _ _ he =>
    cases h
    exact formed_ofShapeNode formative _ _ he

/-- A row that is spread stands for all its columns. -/
theorem formed_spreadRow? {node : Node} {e : Expr} (h : s.spreadRow? node = some e) :
    e.Formed p := by
  unfold Scope.spreadRow? at h
  split at h
  · split at h
    · cases h
      exact formative.ofName rfl nofun rfl
    · obtain ⟨index, -, rfl⟩ := Option.map_eq_some_iff.1 h
      exact formative.ofName rfl nofun rfl
  · cases h

/-- An access leads to the key of the groups, into a shape, or to a column or a parameter. -/
theorem formed_access (key : s.groupByKey.Every p) {root : String} {path : List String}
    {index : Option Int} {e : Expr} (h : s.access root path index = .ok (.expr e)) :
    e.Formed p := by
  unfold Scope.access at h
  dsimp only at h
  split at h
  · cases h
  split at h
  · cases h
  split at h
  · split at h <;> cases h
    exact formative.ofName rfl nofun rfl
  split at h
  · split at h <;> cases h
  split at h
  · obtain ⟨e', found, same⟩ := outcome_map_eq_ok.1 h
    cases same
    exact formed_groupingAccess key found
  split at h
  · cases h
    exact formative.ofName rfl nofun rfl
  split at h
  · obtain ⟨e', found, same⟩ := outcome_map_eq_ok.1 h
    cases same
    exact formed_shapePath formative found
  split at h
  · cases h
    exact formative.ofName rfl nofun rfl
  split at h
  · cases h
    exact formative.ofName rfl nofun rfl
  split at h <;> cases h

end Scope

/-! ### Work -/

namespace Resolve

open FluentQuery.Expr

variable {α β : Type} {p : Expr → Prop}

/-- Work that keeps a property of what the scope hands out, and whose results have another property. -/
def Forms (p : Expr → Prop) (post : α → Prop) (work : Resolve α) : Prop :=
  ∀ s a s', s.Hands p → work s = .ok a s' → s'.Hands p ∧ post a

namespace Forms

variable {post : α → Prop} {work : Resolve α}

/-- Work that makes something makes what was asked for. -/
theorem pure {a : α} (h : post a) : Forms p post (pure a) := by
  rintro s a s' key ⟨⟩
  exact ⟨key, h⟩

theorem fail {fault : Fault} : Forms p post (fail fault) := by
  rintro s a s' - ⟨⟩

theorem failUnplaced {fault : Fault} : Forms p post (failUnplaced fault) := by
  rintro s a s' - ⟨⟩

/-- Work is done step by step, and each step may rely on what the one before it has made. -/
theorem bind {next : α → Resolve β} {post' : β → Prop} (h : Forms p post work)
    (rest : ∀ a, post a → Forms p post' (next a)) : Forms p post' (work >>= next) := by
  intro s b s' key run
  obtain ⟨a, t, first, second⟩ := bind_eq_ok.1 run
  obtain ⟨key', ha⟩ := h s a t key first
  exact rest a ha t b s' key' second

/-- Work may look at the scope, which hands out formed nodes only. -/
theorem get {next : Scope → Resolve α}
    (h : ∀ s, s.Hands p → Forms p post (next s)) : Forms p post (get >>= next) := by
  intro s a s' key run
  exact h s key s a s' key run

/-- What work makes may be put to use. -/
theorem map {f : α → β} {post' : β → Prop} (h : Forms p post work)
    (hf : ∀ a, post a → post' (f a)) : Forms p post' (f <$> work) := by
  rw [map_eq_pure_bind]
  exact h.bind fun a ha => .pure (hf a ha)

/-- Work that does not need the scope. -/
theorem ofExcept {x : Except ExprFault α} (h : ∀ a, x = .ok a → post a) :
    Forms p post (ofExcept x) := by
  cases x with
  | ok a => exact .pure (h a rfl)
  | error => exact .fail

/-- Bindings may be changed as long as no group gets a name. -/
theorem rebind {change : Bindings → Bindings} (keeps : Bindings.KeepsRows change) :
    Forms p (fun _ => True) (Resolve.bind change) := by
  rintro s a s' hands ⟨⟩
  exact ⟨⟨hands.1, hands.2.imp_right (keeps _)⟩, trivial⟩

/-- Taking bindings back does not change what was made. -/
theorem withBindings (h : Forms p post work) : Forms p post (withBindings work) := by
  intro s a s' hands run
  unfold Resolve.withBindings at run
  split at run
  · rename_i found
    cases run
    obtain ⟨kept, formed⟩ := h s a _ hands found
    exact ⟨⟨kept.1, hands.2⟩, formed⟩
  · cases run

/-- Binding the parameters of a lambda does not change what its body is made of. -/
theorem withParams {bindParams : List String → Resolve Unit} {params : List String}
    (binds : Forms p (fun _ => True) (bindParams params)) (h : Forms p post work) :
    Forms p post (withParams bindParams params work) :=
  .withBindings (binds.bind fun _ _ => h)

end Forms

variable (formative : Formative p)

include formative

/-! ### Literals, names and operands -/

/-- A value that is put into a parameter leaves a node for the parameter. -/
theorem forms_autoParam (value : Json) (fieldName : String) (sourceTable : Option Int) :
    Forms p (Formed p) (autoParam value fieldName sourceTable) := by
  rintro s a s' key ⟨⟩
  exact ⟨key, formative.ofName rfl nofun rfl⟩

/-- Literals are parameters, apart from null. -/
theorem forms_literal (value : Json) (peer : Expr) :
    Forms p (Formed p) (literal value peer) := by
  unfold literal
  split
  · exact .pure ⟨Expr.noConfusion, (every_constant _).2 formative.null⟩
  · split
    · exact forms_autoParam formative _ _ _
    · exact forms_autoParam formative _ _ _

theorem forms_negativeLiteral (value : Json) : Forms p (Formed p) (negativeLiteral value) := by
  unfold negativeLiteral
  split
  · exact forms_autoParam formative _ _ _
  · exact forms_autoParam formative _ _ _
  · exact .fail

/-- A name is resolved to what it stands for, or refused. -/
theorem forms_identifier (name : String) : Forms p (Formed p) (identifier name) :=
  .get fun _ _ => .ofExcept fun _ found => Scope.formed_identifier formative found

/-- An access is resolved to one node, or refused. -/
theorem forms_member (node : Node) : Forms p (Formed p) (member node) := by
  unfold member
  refine Forms.bind (.ofExcept fun _ _ => trivial) fun found (_ : True) => ?_
  split
  · rename_i root path index
    refine .get fun s hands => ?_
    have target : Forms p (fun access => ∀ e, access = .expr e → e.Formed p)
        (ofExcept (s.access root path index)) := by
      refine .ofExcept ?_
      rintro _ found e rfl
      exact Scope.formed_access formative hands.1 found
    refine target.bind fun access formed => ?_
    split
    · exact .pure (formed _ rfl)
    · exact forms_autoParam formative _ _ _
  · exact .fail

/-- An operand is a literal beside its peer, or is resolved by itself. -/
theorem forms_operand {node : Node} {peer : Expr} {resolved : Resolve Expr}
    (h : Forms p (Formed p) resolved) : Forms p (Formed p) (operand node peer resolved) := by
  unfold operand
  split
  · exact forms_literal formative _ _
  · exact h

/-- Both operands are formed, whichever is resolved first. -/
theorem forms_operands {left right : Node} {leftValue rightValue : Resolve Expr}
    (hl : Forms p (Formed p) leftValue) (hr : Forms p (Formed p) rightValue) :
    Forms p (fun es : Expr × Expr => es.1.Formed p ∧ es.2.Formed p)
      (operands left right leftValue rightValue) := by
  unfold operands
  split
  · exact hr.bind fun _ r => (forms_operand formative hl).bind fun _ l => .pure ⟨l, r⟩
  · exact hl.bind fun _ l => (forms_operand formative hr).bind fun _ r => .pure ⟨l, r⟩

/-- A condition is wanted: a value is turned into one, or refused. -/
theorem forms_predicate {e : Expr} (h : e.Every p) : Forms p (FormedTest p) (predicate e) :=
  .ofExcept fun _ found => formed_toBoolean formative h found

/-! ### Operators -/

section

variable {leftValue rightValue : Resolve Expr} (hl : Forms p (Formed p) leftValue)
  (hr : Forms p (Formed p) rightValue)

include hl hr

/-- A comparison with null is a test of its own, all others compare two values. -/
theorem forms_comparison (op : ComparisonOp) (node left right : Node) :
    Forms p (Formed p) (comparison op node left right leftValue rightValue) := by
  have null {e : Expr} (h : e.Formed p) : (Expr.isNull e (op = .neq)).Formed p :=
    ⟨nofun, (every_isNull _ _).2 ⟨formative.isNull h.1, h.2⟩⟩
  unfold comparison
  split
  · exact .fail
  split
  · split
    · exact .fail
    · split
      · exact hr.bind fun _ h => .pure (null h)
      · exact hl.bind fun _ h => .pure (null h)
  · refine (forms_operands formative hl hr).bind ?_
    rintro ⟨l, r⟩ ⟨hl, hr⟩
    exact .pure ⟨nofun, (every_comparison _ _ _).2 ⟨formative.comparison hl.1 hr.1, hl.2, hr.2⟩⟩

/-- A sum of texts is a concatenation. -/
theorem forms_arithmetic (op : ArithmeticOp) (left right : Node) :
    Forms p (Formed p) (arithmetic op left right leftValue rightValue) := by
  unfold arithmetic
  refine (forms_operands formative hl hr).bind ?_
  rintro ⟨l, r⟩ ⟨hl, hr⟩
  refine .get fun _ _ => ?_
  dsimp only
  split
  · exact .pure ⟨nofun, (every_concat _ _).2 ⟨formative.concat hl.1 hr.1, hl.2, hr.2⟩⟩
  · exact .pure ⟨nofun, (every_arithmetic _ _ _).2 ⟨formative.arithmetic hl.1 hr.1, hl.2, hr.2⟩⟩

/-- An operator of two operands is a comparison, arithmetic, or refused. -/
theorem forms_binary (op : String) (left right : Node) :
    Forms p (Formed p) (binary op left right leftValue rightValue) := by
  unfold binary
  split
  · exact forms_comparison formative hl hr _ _ _ _
  · exact forms_arithmetic formative hl hr _ _ _
  · exact .fail

omit hl hr in
/-- Two conditions make a condition. -/
theorem formed_logical {l r : Expr} (op : LogicalOp) (hl : l.FormedTest p) (hr : r.FormedTest p) :
    (Expr.logical op l r).Formed p :=
  ⟨nofun, (every_logical _ _ _).2 ⟨formative.logical hl.1 hr.1, hl.2, hr.2⟩⟩

/-- Connectives ask their operands for conditions. -/
theorem forms_connective (op : LogicalOp) :
    Forms p (Formed p) (connective op leftValue rightValue) := by
  unfold connective
  refine hl.bind fun _ l => (forms_predicate formative l.2).bind fun _ l' => ?_
  refine hr.bind fun _ r => (forms_predicate formative r.2).bind fun _ r' => ?_
  exact .pure (formed_logical formative op l' r')

/-- A disjunction of values is a choice between two alternatives, or a condition. -/
theorem forms_eitherOf : Forms p (Formed p) (eitherOf leftValue rightValue) := by
  unfold eitherOf
  refine hl.bind fun l left => hr.bind fun r right => ?_
  split
  · refine .pure ⟨nofun, (every_coalesce _).2 ⟨?_, ?_⟩⟩
    · have first : p (coalesce [l]) := formative.oneAlternative left.1
      exact formative.moreAlternatives first (formative.oneAlternative right.1)
    · exact List.forall_mem_cons.2 ⟨left.2, List.forall_mem_singleton.2 right.2⟩
  · refine (forms_predicate formative right.2).bind fun _ right' => ?_
    refine (forms_predicate formative left.2).bind fun _ left' => ?_
    exact .pure (formed_logical formative .or left' right')

theorem forms_nullish : Forms p (Formed p) (nullish leftValue rightValue) :=
  hl.bind fun _ l => hr.bind fun _ r => .pure (formed_firstOf formative l r)

end

/-- Logical operators make conditions or choices, as they are asked for the one or the other. -/
theorem forms_logical {left right : Bool → Resolve Expr}
    (hl : ∀ asTest, Forms p (Formed p) (left asTest))
    (hr : ∀ asTest, Forms p (Formed p) (right asTest)) (isPredicate : Bool) (op : String) :
    Forms p (Formed p) (logical isPredicate op left right) := by
  unfold logical
  split
  · exact forms_nullish formative (hl false) (hr false)
  · exact forms_connective formative (hl true) (hr true) _
  · split
    · exact forms_connective formative (hl true) (hr true) _
    · exact forms_eitherOf formative (hl false) (hr false)
  · exact .fail

/-- A negation makes a condition, a minus sign a parameter or a product. -/
theorem forms_unary {resolved : Bool → Resolve Expr}
    (h : ∀ asTest, Forms p (Formed p) (resolved asTest)) (op : String) (argument : Node) :
    Forms p (Formed p) (unary op argument resolved) := by
  unfold unary
  split
  · exact (h true).bind fun _ e => (forms_predicate formative e.2).bind fun _ e' =>
      .pure ⟨nofun, (every_negation _).2 ⟨formative.negation e'.1, e'.2⟩⟩
  · unfold negative
    split
    · exact forms_negativeLiteral formative _
    · refine (h false).bind fun _ e => .pure ⟨nofun, (every_arithmetic _ _ _).2 ⟨?_, ?_, e.2⟩⟩
      · exact formative.arithmetic nofun e.1
      · exact (every_constant _).2 formative.minusOne
  · exact h false
  · exact .fail

/-- A choice makes a case. -/
theorem forms_conditional {test consequent alternate : Resolve Expr}
    (ht : Forms p (Formed p) test) (hc : Forms p (Formed p) consequent)
    (ha : Forms p (Formed p) alternate) :
    Forms p (Formed p) (conditional test consequent alternate) := by
  unfold conditional
  refine ht.bind fun t formed => ?_
  have tested : Forms p (FormedTest p) (ofExcept t.testOf) :=
    .ofExcept fun _ found => formed_testOf formative formed.2 found
  exact tested.bind fun _ test => hc.bind fun _ consequent => ha.bind fun _ alternate =>
    .pure (formed_conditional formative test consequent alternate)

/-- What is spread in an object gives it members. -/
theorem forms_spread {argument : Node} {value : Resolve Expr} (h : Forms p (Formed p) value) :
    Forms p (FormedMembers p) (spread argument value) := by
  unfold spread
  refine .get fun s _ => ?_
  split
  · rename_i found
    exact .pure (formedMembers_single formative (Scope.formed_spreadRow? formative found))
  · refine h.bind fun e formed => ?_
    unfold spreadValue
    split
    · exact .pure formed.2
    · split
      · exact .pure (formedMembers_single formative (formative.ofName rfl Expr.noConfusion rfl))
      · exact .pure (formedMembers_single formative (formative.ofName rfl Expr.noConfusion rfl))
    · exact .fail

/-! ### Calls -/

omit formative in
/-- The lambdas of a window name the row that it ranges over. -/
theorem forms_bindWindowRow (row : String) (params : List String) :
    Forms p (fun _ => True) (bindWindowRow row params) := by
  unfold bindWindowRow
  split
  · exact .pure trivial
  · refine .get fun s _ => ?_
    dsimp only
    split
    · exact .rebind (Bindings.keepsRows_bindTable _)
    split
    · exact .rebind (Bindings.keepsRows_bindJoin _ _)
    split
    · exact .rebind fun b rows => Bindings.keepsRows_bindShape _ b.shape b rows
    · exact .fail

omit formative in
/-- The lambda of an aggregate names a row of a group. -/
theorem forms_bindElement (params : List String) :
    Forms p (fun _ => True) (bindElement params) := by
  unfold bindElement
  split
  · exact .pure trivial
  · exact .rebind (Bindings.keepsRows_bindElement _)

/-- The work that resolves an argument yields expressions with the property. -/
structure FormsArgument (p : Expr → Prop) (a : Argument) : Prop where
  value : Forms p (Formed p) a.value
  lambda : ∀ method bindParams, (∀ params, Forms p (fun _ => True) (bindParams params)) →
    Forms p (Formed p) (a.lambda method bindParams)

/-- The keys of a window have the property. -/
structure FormedWindow (p : Expr → Prop) (w : WindowSpec) : Prop where
  partitionBy : ∀ e ∈ w.partitionBy, e.Formed p
  orderBy : ∀ o ∈ w.orderBy, o.1.Formed p

section

variable {arguments : List Argument} (args : ∀ a ∈ arguments, FormsArgument p a)

include args

omit formative in
/-- A method of a group makes an aggregate, so that aggregates have to have the property. -/
theorem forms_groupingCall (aggregating : Aggregating p) (method : String) :
    Forms p (Formed p) (groupingCall method arguments) := by
  unfold groupingCall
  split
  · split
    · exact .pure ⟨nofun, (every_aggregate _ _).2 ⟨aggregating.count, every_absent⟩⟩
    · exact .fail
  split
  · exact .fail
  · rename_i function selector _
    have arg := args selector (List.mem_cons_self ..)
    exact (arg.lambda method bindElement forms_bindElement).bind fun _ e =>
      .pure ⟨nofun, (every_aggregate _ _).2 ⟨aggregating.aggregate e.1, e.2⟩⟩
  · exact .fail

/-- A helper tests two texts without regard to case. -/
theorem forms_helperCall (method : String) :
    Forms p (Formed p) (helperCall method arguments) := by
  unfold helperCall
  split
  · exact .fail
  · rename_i test left right _
    refine (args left (by simp)).value.bind fun _ l => ?_
    refine (forms_operand formative (args right (by simp)).value).bind fun _ r => ?_
    exact .pure ⟨nofun, (every_caseInsensitive _ _ _).2 ⟨formative.caseInsensitive l.1 r.1, l.2, r.2⟩⟩
  · exact .fail

omit formative in
/-- The keys of a window are expressions of its lambdas. -/
theorem forms_keys (method row : String) :
    Forms p (fun es : List Expr => ∀ e ∈ es, e.Formed p)
      (arguments.mapM fun argument => argument.lambda method (bindWindowRow row)) := by
  induction arguments with
  | nil => exact .pure nofun
  | cons a rest ih =>
    rw [List.forall_mem_cons] at args
    rw [List.mapM_cons]
    refine (args.1.lambda method _ (forms_bindWindowRow row)).bind fun _ e => ?_
    exact (ih args.2).bind fun _ es => .pure (List.forall_mem_cons.2 ⟨e, es⟩)

omit formative in
/-- A call of a window opens it, or adds keys to what the calls before it have described. -/
theorem forms_windowStep {earlier : Resolve WindowSpec} (h : Forms p (FormedWindow p) earlier)
    (receiver : Node) (method : String) :
    Forms p (FormedWindow p) (windowStep receiver method earlier arguments) := by
  unfold windowStep
  refine .get fun s _ => ?_
  split
  · unfold openWindow
    split
    · exact .pure ⟨nofun, nofun⟩
    · exact .fail
  refine h.bind fun w formed => ?_
  split
  · unfold partitionWindow
    split
    · exact .fail
    · exact (forms_keys args method w.row).bind fun _ keys =>
        .pure ⟨List.forall_mem_append.2 ⟨formed.partitionBy, keys⟩, formed.orderBy⟩
  · unfold orderWindow
    split
    · exact .fail
    · rename_i call argument _
      split
      · exact .fail
      split
      · exact .fail
      have arg := args argument (List.mem_cons_self ..)
      refine (arg.lambda method _ (forms_bindWindowRow w.row)).bind fun _ last => ?_
      refine .pure ⟨formed.partitionBy, List.forall_mem_append.2 ⟨formed.orderBy, ?_⟩⟩
      exact List.forall_mem_singleton.2 last
    · exact .fail

end

/-- `includes` on a list or on a parameter tests membership; all else tests a text. -/
theorem forms_textTestCall {receiverValue : Resolve Expr} {argument : Argument}
    (h : Forms p (Formed p) receiverValue) (arg : FormsArgument p argument)
    (test : TextTest) (receiver : Node) :
    Forms p (Formed p) (textTestCall test receiver receiverValue argument) := by
  have member {value items : Expr} (hv : value.Formed p) (hi : items.Formed p) :
      (Expr.membership value items).Formed p :=
    ⟨nofun, (every_membership _ _).2 ⟨formative.membership hv.1 hi.1, hv.2, hi.2⟩⟩
  unfold textTestCall
  split
  · exact arg.value.bind fun _ value => h.bind fun _ items => .pure (member value items)
  · refine h.bind fun target items => ?_
    split
    · exact arg.value.bind fun _ value => .pure (member value items)
    · refine (forms_operand formative arg.value).bind fun e argument => ?_
      exact .pure ⟨nofun, (every_textTest _ _ _).2
        ⟨formative.textTest items.1 argument.1, items.2, List.forall_mem_singleton.2 argument.2⟩⟩

/-- A window is complete once its function is named. -/
theorem forms_windowCall {window : Resolve WindowSpec} (h : Forms p (FormedWindow p) window)
    (function : WindowFunction) : Forms p (Formed p) (windowCall function window) := by
  unfold windowCall
  refine h.bind fun w formed => ?_
  split
  · exact .fail
  · rename_i ordered
    refine .pure ⟨nofun, (every_window _ _ _).2 ⟨?_, ?_, ?_⟩⟩
    · exact formative.window (by simpa using ordered) (fun e he => (formed.partitionBy e he).1)
        fun o ho => (formed.orderBy o ho).1
    · exact fun e he => (formed.partitionBy e he).2
    · exact fun o ho => (formed.orderBy o ho).2

/-- A method call is an aggregate, a helper, a window, a function or test of a text, or is refused. -/
theorem forms_methodCall {receiverValue : Resolve Expr} {window : Resolve WindowSpec}
    {arguments : List Argument} (h : Forms p (Formed p) receiverValue)
    (hw : Forms p (FormedWindow p) window) (args : ∀ a ∈ arguments, FormsArgument p a)
    (receiver : Node) (method : String) :
    Forms p (Formed p) (methodCall receiver method receiverValue window arguments) := by
  unfold methodCall
  refine .get fun s hands => ?_
  split
  · exact .fail
  · rename_i grouping
    exact forms_groupingCall args (hands.aggregating grouping) method
  · exact forms_helperCall formative args method
  · exact forms_windowCall formative hw _
  · exact .fail
  · unfold textCall
    split
    · exact h.bind fun _ e =>
        .pure ⟨nofun, (every_stringMethod _ _).2 ⟨formative.stringMethod e.1, e.2⟩⟩
    · exact .fail
  · split
    · exact forms_textTestCall formative h (args _ (List.mem_cons_self ..)) _ _
    · exact .fail
  · exact .fail

end Resolve

/-! ### Nodes -/

section

open Resolve FluentQuery.Expr

variable {p : Expr → Prop}

/-- Whatever is made of a node keeps the property: its expression, that of the lambda that it is, and
the window that it describes. -/
structure Node.FormsAll (p : Expr → Prop) (node : Node) : Prop where
  value : ∀ isPredicate, Forms p (Formed p) (node.resolve isPredicate)
  lambda : ∀ isPredicate method (bindParams : List String → Resolve Unit),
    (∀ params, Forms p (fun _ => True) (bindParams params)) →
    Forms p (Formed p) (node.resolveLambda isPredicate method bindParams)
  window : ∀ whole, Forms p (FormedWindow p) (Node.resolveWindow whole node)

namespace Node

/-- What is neither a lambda nor a call of a method is an expression only. -/
theorem FormsAll.of_value {node : Node} (noLambda : ∀ params body, node ≠ .arrow params body)
    (noMethod : ∀ receiver property computed arguments,
      node ≠ .call (.member receiver property computed) arguments)
    (value : ∀ isPredicate, Forms p (Formed p) (node.resolve isPredicate)) : node.FormsAll p where
  value := value
  lambda isPredicate method bindParams _ := by
    rw [resolveLambda_of_ne_arrow noLambda]
    exact .fail
  window whole := by
    obtain ⟨fault, fails⟩ := resolveWindow_of_ne_method noMethod whole
    rw [fails]
    exact .get fun _ _ => .fail

/-- Items of a list are resolved one by one. -/
theorem forms_resolveList {nodes : List Node} (h : ∀ node ∈ nodes, node.FormsAll p) :
    Forms p (fun es : List Expr => ∀ e ∈ es, e.Formed p) (Node.resolveList nodes) := by
  induction nodes with
  | nil => exact .pure nofun
  | cons node rest ih =>
    rw [List.forall_mem_cons] at h
    unfold Node.resolveList
    exact (h.1.value false).bind fun _ e => (ih h.2).bind fun _ es =>
      .pure (List.forall_mem_cons.2 ⟨e, es⟩)

/-- Properties of an object are resolved one by one, and those that are spread give several
members. -/
theorem forms_properties (formative : Formative p) {properties : List Property}
    (spread : ∀ argument, .spread argument ∈ properties → argument.FormsAll p)
    (named : ∀ key value shorthand, .named key value shorthand ∈ properties → value.FormsAll p) :
    Forms p (FormedMembers p) (Property.resolveList properties) := by
  induction properties with
  | nil => exact .pure (formedMembers_nil formative)
  | cons first rest ih =>
    have others := ih (fun argument mem => spread argument (List.mem_cons_of_mem _ mem))
      fun key value shorthand mem => named key value shorthand (List.mem_cons_of_mem _ mem)
    unfold Property.resolveList
    cases first with
    | spread argument =>
      have here := (spread argument (List.mem_cons_self ..)).value false
      exact (forms_spread formative here).bind fun _ members => others.bind fun _ rest =>
        .pure (formedMembers_append formative members rest)
    | named key value shorthand =>
      have here := (named key value shorthand (List.mem_cons_self ..)).value false
      exact here.bind fun _ e => others.bind fun _ rest =>
        .pure (formedMembers_cons formative e rest)

/-- Arguments come with the work that resolves them, as values and as lambdas. -/
theorem forms_arguments {nodes : List Node} (h : ∀ node ∈ nodes, node.FormsAll p) :
    ∀ a ∈ Node.arguments nodes, FormsArgument p a := by
  induction nodes with
  | nil => exact nofun
  | cons node rest ih =>
    rw [List.forall_mem_cons] at h
    exact List.forall_mem_cons.2 ⟨⟨h.1.value false, h.1.lambda false⟩, ih h.2⟩

/-- By induction on nodes: values, conditions, lambdas and windows at once. -/
theorem formsAll (formative : Formative p) (node : Node) : node.FormsAll p := by
  induction node using Node.body_induction with
  | identifier name => exact .of_value nofun nofun fun _ => forms_identifier formative name
  | literal value => exact .of_value nofun nofun fun _ => forms_literal formative value .absent
  | member receiver property computed => exact .of_value nofun nofun fun _ => forms_member formative _
  | binary op left right hl hr =>
    exact .of_value nofun nofun fun _ =>
      forms_binary formative (hl.value false) (hr.value false) op left right
  | logical op left right hl hr =>
    exact .of_value nofun nofun fun isPredicate =>
      forms_logical formative hl.value hr.value isPredicate op
  | unary op argument h =>
    exact .of_value nofun nofun fun _ => forms_unary formative h.value op argument
  | conditional test consequent alternate ht hc ha =>
    exact .of_value nofun nofun fun _ =>
      forms_conditional formative (ht.value true) (hc.value false) (ha.value false)
  | object properties spread named =>
    exact .of_value nofun nofun fun _ =>
      .map (forms_properties formative spread named) fun _ h => ⟨nofun, h⟩
  | array elements h =>
    exact .of_value nofun nofun fun _ => .map (forms_resolveList h) fun _ h =>
      ⟨nofun, (every_array _).2 ⟨formative.array fun e he => (h e he).1, fun e he => (h e he).2⟩⟩
  | arrow params body returned =>
    refine ⟨fun _ => .fail, fun isPredicate method bindParams binds => ?_,
      fun _ => .get fun _ _ => .fail⟩
    rw [resolveLambda_arrow]
    refine .withParams (binds params) ?_
    split
    · rename_i value found
      exact (returned value found).value isPredicate
    · exact .failUnplaced
  | block | returnStatement => exact .of_value nofun nofun fun _ => .fail
  | method receiver property computed arguments hr ha =>
    refine ⟨fun _ => ?_, fun _ _ _ _ => .fail, fun whole => ?_⟩
    · exact forms_methodCall formative (hr.value false) (hr.window _) (forms_arguments ha) receiver
        property.keyName
    · exact forms_windowStep (forms_arguments ha) (hr.window whole) receiver property.keyName
  | call callee arguments noMethod =>
    refine .of_value nofun (fun _ _ _ _ is => ?_) fun isPredicate => ?_
    · cases is
      exact noMethod _ _ _ rfl
    · obtain ⟨fault, fails⟩ := resolve_call_of_ne_member noMethod arguments isPredicate
      rw [fails]
      exact .fail

/-- Resolving a node yields an expression, all of whose nodes have the property. -/
theorem forms_resolve (formative : Formative p) (node : Node) (isPredicate : Bool) :
    Forms p (Formed p) (node.resolve isPredicate) :=
  (node.formsAll formative).value isPredicate

/-- A lambda is resolved to the expression that it returns. -/
theorem forms_resolveLambda (formative : Formative p) (node : Node) (isPredicate : Bool)
    (method : String) (bindParams : List String → Resolve Unit)
    (binds : ∀ params, Forms p (fun _ => True) (bindParams params)) :
    Forms p (Formed p) (node.resolveLambda isPredicate method bindParams) :=
  (node.formsAll formative).lambda isPredicate method bindParams binds

end Node

end

end FluentQuery
