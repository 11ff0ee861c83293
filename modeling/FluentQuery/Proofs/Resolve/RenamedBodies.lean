import FluentQuery.Proofs.Resolve.Meanings
import FluentQuery.Proofs.Resolve.BodyInduction

/-!
# Bodies whose parameters are renamed

Two bodies may differ in what the parameters of the lambdas in them are called (`Node.Alpha`): a lambda
inside a body binds its first parameter, and the names that are bound in pairs correspond.  In scopes
in which corresponding names mean the same, such bodies both fail or resolve to one and the same
expression (`Node.renamed_resolve`).
-/

namespace FluentQuery

set_option autoImplicit false

mutual

/-- Two trees that differ only in the names of parameters: those that `pairs` lists, and the first
parameters of lambdas inside, as long as these are not taken.  What is accessed is not renamed, and
neither is a name in brackets where it is read as that of a method or of the helper functions.
Statements are no expressions, whatever is in them. -/
inductive Node.Alpha (taken : List String) : List (String × String) → Node → Node → Prop
  | identifier {pairs : List (String × String)} {name name' : String} (named : name ≠ "")
      (named' : name' ≠ "") (c : Corresponds pairs name name') :
      Node.Alpha taken pairs (.identifier name) (.identifier name')
  | literal {pairs : List (String × String)} (value : Json) :
      Node.Alpha taken pairs (.literal value) (.literal value)
  | member {pairs : List (String × String)} {object object' : Node} (property : Node)
      (h : Node.Alpha taken pairs object object') :
      Node.Alpha taken pairs (.member object property false) (.member object' property false)
  | computed {pairs : List (String × String)} {object object' property property' : Node}
      (functions : property.keyName = "functions" ↔ property'.keyName = "functions")
      (h : Node.Alpha taken pairs object object') (hp : Node.Alpha taken pairs property property') :
      Node.Alpha taken pairs (.member object property true) (.member object' property' true)
  | method {pairs : List (String × String)} {receiver receiver' property property' : Node}
      {arguments arguments' : List Node} (computed : Bool)
      (named : property.keyName = property'.keyName)
      (h : Node.Alpha taken pairs receiver receiver')
      (args : Node.AlphaList taken pairs arguments arguments') :
      Node.Alpha taken pairs (.call (.member receiver property computed) arguments)
        (.call (.member receiver' property' computed) arguments')
  | call {pairs : List (String × String)} {callee callee' : Node} {arguments arguments' : List Node}
      (noMethod : ∀ receiver property computed, callee ≠ .member receiver property computed)
      (h : Node.Alpha taken pairs callee callee')
      (args : Node.AlphaList taken pairs arguments arguments') :
      Node.Alpha taken pairs (.call callee arguments) (.call callee' arguments')
  | binary {pairs : List (String × String)} (op : String) {left left' right right' : Node}
      (hl : Node.Alpha taken pairs left left') (hr : Node.Alpha taken pairs right right') :
      Node.Alpha taken pairs (.binary op left right) (.binary op left' right')
  | logical {pairs : List (String × String)} (op : String) {left left' right right' : Node}
      (hl : Node.Alpha taken pairs left left') (hr : Node.Alpha taken pairs right right') :
      Node.Alpha taken pairs (.logical op left right) (.logical op left' right')
  | unary {pairs : List (String × String)} (op : String) {argument argument' : Node}
      (h : Node.Alpha taken pairs argument argument') :
      Node.Alpha taken pairs (.unary op argument) (.unary op argument')
  | conditional {pairs : List (String × String)}
      {test test' consequent consequent' alternate alternate' : Node}
      (ht : Node.Alpha taken pairs test test') (hc : Node.Alpha taken pairs consequent consequent')
      (ha : Node.Alpha taken pairs alternate alternate') :
      Node.Alpha taken pairs (.conditional test consequent alternate)
        (.conditional test' consequent' alternate')
  | object {pairs : List (String × String)} {properties properties' : List Property}
      (h : Property.AlphaList taken pairs properties properties') :
      Node.Alpha taken pairs (.object properties) (.object properties')
  | array {pairs : List (String × String)} {elements elements' : List Node}
      (h : Node.AlphaList taken pairs elements elements') :
      Node.Alpha taken pairs (.array elements) (.array elements')
  | thunk {pairs : List (String × String)} {body body' : Node}
      (h : Node.AlphaBody taken pairs body body') :
      Node.Alpha taken pairs (.arrow [] body) (.arrow [] body')
  | arrow {pairs : List (String × String)} {param param' : String} {others : List String}
      {body body' : Node} (pair : MayPair taken param param')
      (apart : ∀ other ∈ others, Corresponds ((param, param') :: pairs) other other)
      (h : Node.AlphaBody taken ((param, param') :: pairs) body body') :
      Node.Alpha taken pairs (.arrow (param :: others) body) (.arrow (param' :: others) body')
  | block {pairs : List (String × String)} (body body' : List Node) :
      Node.Alpha taken pairs (.block body) (.block body')
  | returnStatement {pairs : List (String × String)} (value value' : Option Node) :
      Node.Alpha taken pairs (.returnStatement value) (.returnStatement value')

/-- Bodies of lambdas that return values that differ only in the names of parameters, or none. -/
inductive Node.AlphaBody (taken : List String) : List (String × String) → Node → Node → Prop
  | value {pairs : List (String × String)} {body body' value value' : Node}
      (returned : body.lambdaBody = .ok value) (returned' : body'.lambdaBody = .ok value')
      (h : Node.Alpha taken pairs value value') : Node.AlphaBody taken pairs body body'
  | unreadable {pairs : List (String × String)} {body body' : Node} {fault fault' : LoadFault}
      (refused : body.lambdaBody = .error fault) (refused' : body'.lambdaBody = .error fault') :
      Node.AlphaBody taken pairs body body'

/-- Trees that differ, one by one, only in the names of parameters. -/
inductive Node.AlphaList (taken : List String) :
    List (String × String) → List Node → List Node → Prop
  | nil {pairs : List (String × String)} : Node.AlphaList taken pairs [] []
  | cons {pairs : List (String × String)} {node node' : Node} {nodes nodes' : List Node}
      (h : Node.Alpha taken pairs node node') (hs : Node.AlphaList taken pairs nodes nodes') :
      Node.AlphaList taken pairs (node :: nodes) (node' :: nodes')

/-- Members of object literals that differ, one by one, only in the names of parameters; what is written
short on one side need not be on the other. -/
inductive Property.AlphaList (taken : List String) :
    List (String × String) → List Property → List Property → Prop
  | nil {pairs : List (String × String)} : Property.AlphaList taken pairs [] []
  | spread {pairs : List (String × String)} {value value' : Node} {rest rest' : List Property}
      (h : Node.Alpha taken pairs value value') (hs : Property.AlphaList taken pairs rest rest') :
      Property.AlphaList taken pairs (.spread value :: rest) (.spread value' :: rest')
  | named {pairs : List (String × String)} {value value' : Node} {rest rest' : List Property}
      (key : String) (shorthand shorthand' : Bool) (h : Node.Alpha taken pairs value value')
      (hs : Property.AlphaList taken pairs rest rest') :
      Property.AlphaList taken pairs (.named key value shorthand :: rest)
        (.named key value' shorthand' :: rest')

end

variable {taken : List String} {key : Expr} {pairs : List (String × String)}

/-! ### What is seen of a node -/

namespace Node.Alpha

variable {node node' : Node}

/-- Literals are not renamed. -/
theorem isLiteral_eq (h : node.Alpha taken pairs node') : node.isLiteral = node'.isLiteral := by
  cases h <;> rfl

theorem isArray_eq (h : node.Alpha taken pairs node') : node.isArray = node'.isArray := by
  cases h <;> rfl

theorem isNullLiteral_eq {s s' : Scope} (hs : s.Renames taken key pairs s')
    (h : node.Alpha taken pairs node') : node.isNullLiteral = node'.isNullLiteral := by
  cases h with
  | identifier named named' c =>
    have same := hs.meaning_eq named named' c
    obtain ⟨bindings, -, -⟩ := hs
    exact decide_eq_decide.2 (NameMeaning.taken_iff same (bindings.reserved (by decide))).symm
  | _ => rfl

end Node.Alpha

/-- The path of member accesses is the same, and the names that it starts from correspond. -/
theorem Node.Alpha.memberPath : ∀ {node node' : Node}, node.Alpha taken pairs node' →
    ∀ (path : List String) (index : Option Int),
      Agree (fun found found' => found.2 = found'.2 ∧ found.1.Alpha taken pairs found'.1)
        (node.memberPath path index) (node'.memberPath path index)
  | _, _, .member _ h, _, _ => h.memberPath _ _
  | _, _, .computed _ h hp, path, index => by
    cases hp with
    | literal value =>
      unfold Node.memberPath
      split
      · exact h.memberPath _ _
      · split
        · exact h.memberPath _ _
        · exact .error
      · exact .error
      · exact .error
    | _ => exact .error
  | _, _, .identifier named named' c, _, _ => .ok ⟨rfl, .identifier named named' c⟩
  | _, _, .literal value, _, _ => .ok ⟨rfl, .literal value⟩
  | _, _, .method inBrackets named h args, _, _ => .ok ⟨rfl, .method inBrackets named h args⟩
  | _, _, .call noMethod h args, _, _ => .ok ⟨rfl, .call noMethod h args⟩
  | _, _, .binary op hl hr, _, _ => .ok ⟨rfl, .binary op hl hr⟩
  | _, _, .logical op hl hr, _, _ => .ok ⟨rfl, .logical op hl hr⟩
  | _, _, .unary op h, _, _ => .ok ⟨rfl, .unary op h⟩
  | _, _, .conditional ht hc ha, _, _ => .ok ⟨rfl, .conditional ht hc ha⟩
  | _, _, .object h, _, _ => .ok ⟨rfl, .object h⟩
  | _, _, .array h, _, _ => .ok ⟨rfl, .array h⟩
  | _, _, .thunk h, _, _ => .ok ⟨rfl, .thunk h⟩
  | _, _, .arrow pair apart h, _, _ => .ok ⟨rfl, .arrow pair apart h⟩
  | _, _, .block body body', _, _ => .ok ⟨rfl, .block body body'⟩
  | _, _, .returnStatement value value', _, _ => .ok ⟨rfl, .returnStatement value value'⟩

/-- A call is of the same kind, whatever its receiver is called. -/
theorem Scope.Renames.callKind_eq {s s' : Scope} (hs : s.Renames taken key pairs s')
    {receiver receiver' : Node} (h : receiver.Alpha taken pairs receiver') (method : String) :
    s'.callKind receiver' method = s.callKind receiver method := by
  cases h with
  | @identifier _ name name' named named' c =>
    have same := hs.meaning_eq named named' c
    obtain ⟨bindings, -, -⟩ := hs
    have isDate := NameMeaning.taken_iff same (bindings.reserved (by decide : "Date" ∈ reservedNames))
    have isMath := NameMeaning.taken_iff same (bindings.reserved (by decide : "Math" ∈ reservedNames))
    have isJson := NameMeaning.taken_iff same (bindings.reserved (by decide : "JSON" ∈ reservedNames))
    unfold Scope.callKind
    dsimp only
    rw [NameMeaning.groups_eq same]
    simp only [isDate, isMath, isJson]
    split
    · rename_i external
      simp only [Bool.or_eq_true, decide_eq_true_eq] at external
      rcases external with (is | is) | is
      · rw [is, isDate.2 is]
      · rw [is, isMath.2 is]
      · rw [is, isJson.2 is]
    · rfl
  | member property h =>
    cases h with
    | identifier named named' c =>
      have same := hs.meaning_eq named named' c
      obtain ⟨bindings, -, helpers⟩ := hs
      unfold Scope.callKind
      simp only [NameMeaning.taken_iff same helpers]
    | _ =>
      obtain ⟨-, -, -⟩ := hs
      rfl
  | computed functions h _ =>
    cases h with
    | identifier named named' c =>
      have same := hs.meaning_eq named named' c
      obtain ⟨bindings, -, helpers⟩ := hs
      unfold Scope.callKind
      simp only [NameMeaning.taken_iff same helpers, functions]
    | _ =>
      obtain ⟨-, -, -⟩ := hs
      rfl
  | _ =>
    obtain ⟨-, -, -⟩ := hs
    rfl

/-- An aggregate is called on the name of a group. -/
theorem Scope.groupings_ne_nil {s : Scope} {receiver : Node} {method : String}
    (h : s.callKind receiver method = .grouping) : s.bindings.groupings ≠ [] := by
  have byName : CallKind.ofMethod method ≠ .grouping := by
    unfold CallKind.ofMethod
    split
    · exact nofun
    · exact nofun
    · exact nofun
    · split <;> exact nofun
  unfold Scope.callKind at h
  split at h
  · split at h
    · cases h
    · split at h
      · exact List.ne_nil_of_mem (List.contains_iff_mem.1 ‹_›)
      · exact absurd h byName
  · split at h
    · cases h
    · exact absurd h byName
  · exact absurd h byName

/-- Windows over rows that correspond. -/
structure WindowSpec.Renames (pairs : List (String × String)) (window window' : WindowSpec) :
    Prop where
  named : window.row ≠ ""
  named' : window'.row ≠ ""
  row : Corresponds pairs window.row window'.row
  partitionBy : window.partitionBy = window'.partitionBy
  orderBy : window.orderBy = window'.orderBy

namespace Resolve

variable {α : Type}

/-- In scopes in which corresponding names mean the same, two pieces of work both fail or give the same
result. -/
abbrev Renamed (taken : List String) (key : Expr) (pairs : List (String × String))
    (work work' : Resolve α) : Prop :=
  Matches (Scope.Renames taken key pairs) work work'

/-- Work that fails is alike, whatever it says. -/
theorem renamed_fail (fault fault' : Fault) :
    Renamed taken key pairs (fail fault : Resolve α) (fail fault') :=
  fun _ _ _ => .error

theorem renamed_failUnplaced (fault fault' : Fault) :
    Renamed taken key pairs (failUnplaced fault : Resolve α) (failUnplaced fault') :=
  fun _ _ _ => .error

theorem renamed_ofExcept {x x' : Except ExprFault α} (h : Agree Eq x x') :
    Renamed taken key pairs (ofExcept x) (ofExcept x') := by
  cases h with
  | ok same =>
    subst same
    exact .pure _
  | error => exact renamed_fail _ _

theorem renamed_predicate (e : Expr) : Renamed taken key pairs (predicate e) (predicate e) :=
  renamed_ofExcept (.refl _)

/-- Both sides add the same parameter. -/
theorem renamed_autoParam (value : Json) (fieldName : String) (sourceTable : Option Int) :
    Renamed taken key pairs (autoParam value fieldName sourceTable)
      (autoParam value fieldName sourceTable) := by
  rintro s _ ⟨bindings, grouped, helpers⟩
  exact .ok ⟨bindings, grouped, helpers⟩

theorem renamed_literal (value : Json) (peer : Expr) :
    Renamed taken key pairs (literal value peer) (literal value peer) := by
  unfold literal
  split
  · exact .pure _
  · split
    · exact renamed_autoParam _ _ _
    · exact renamed_autoParam _ _ _

theorem renamed_negativeLiteral (value : Json) :
    Renamed taken key pairs (negativeLiteral value) (negativeLiteral value) := by
  unfold negativeLiteral
  split
  · exact renamed_autoParam _ _ _
  · exact renamed_autoParam _ _ _
  · exact renamed_fail _ _

/-- Corresponding names mean the same. -/
theorem renamed_identifier {name name' : String} (named : name ≠ "") (named' : name' ≠ "")
    (c : Corresponds pairs name name') :
    Renamed taken key pairs (identifier name) (identifier name') :=
  .get fun _ _ hs => renamed_ofExcept (hs.identifier_agree named named' c)

/-- An access starts at corresponding names and follows one path. -/
theorem renamed_member {node node' : Node} (h : node.Alpha taken pairs node') :
    Renamed taken key pairs (member node) (member node') := by
  have found := h.memberPath [] none
  unfold member
  generalize node.memberPath [] none = x at found ⊢
  generalize node'.memberPath [] none = x' at found ⊢
  cases found with
  | error => exact fun _ _ _ => .error
  | @ok found found' same =>
    obtain ⟨root, path, index⟩ := found
    obtain ⟨root', rest'⟩ := found'
    obtain ⟨hrest, hroot⟩ := same
    cases hrest
    rw [ofExcept_ok, ofExcept_ok, pure_bind, pure_bind]
    cases hroot with
    | identifier named named' c =>
      refine .get fun s s' hs => ?_
      refine (renamed_ofExcept (hs.access_agree named named' c path index)).bind fun access => ?_
      cases access with
      | expr => exact .pure _
      | number => exact renamed_autoParam _ _ _
    | _ => exact renamed_fail _ _

/-! ### Operators -/

section

variable {left left' right right' : Node} {leftValue leftValue' rightValue rightValue' : Resolve Expr}

/-- An operand is a literal on both sides, or is resolved on both. -/
theorem renamed_operand {node node' : Node} {resolved resolved' : Resolve Expr}
    (h : node.Alpha taken pairs node') (value : Renamed taken key pairs resolved resolved')
    (peer : Expr) :
    Renamed taken key pairs (operand node peer resolved) (operand node' peer resolved') := by
  cases h with
  | literal => exact renamed_literal _ peer
  | _ => exact value

variable (hl : left.Alpha taken pairs left') (hr : right.Alpha taken pairs right')
  (leftRenamed : Renamed taken key pairs leftValue leftValue')
  (rightRenamed : Renamed taken key pairs rightValue rightValue')

include hl hr leftRenamed rightRenamed

/-- Operands are resolved in the same order. -/
theorem renamed_operands :
    Renamed taken key pairs (operands left right leftValue rightValue)
      (operands left' right' leftValue' rightValue') := by
  unfold operands
  rw [hl.isLiteral_eq]
  refine .ite ?_ ?_
  · exact rightRenamed.bind fun r => (renamed_operand hl leftRenamed r).bind fun _ => .pure _
  · exact leftRenamed.bind fun l => (renamed_operand hr rightRenamed l).bind fun _ => .pure _

theorem renamed_comparison (op : ComparisonOp) (node node' : Node) :
    Renamed taken key pairs (comparison op node left right leftValue rightValue)
      (comparison op node' left' right' leftValue' rightValue') := by
  intro s s' hs
  refine (?_ : Renamed taken key pairs _ _) s s' hs
  unfold comparison
  rw [hl.isNullLiteral_eq hs, hr.isNullLiteral_eq hs]
  refine .ite (renamed_fail _ _) (.ite (.ite (renamed_fail _ _) ?_) ?_)
  · exact .ite (rightRenamed.bind fun _ => .pure _) (leftRenamed.bind fun _ => .pure _)
  · exact (renamed_operands hl hr leftRenamed rightRenamed).bind fun _ => .pure _

theorem renamed_arithmetic (op : ArithmeticOp) :
    Renamed taken key pairs (arithmetic op left right leftValue rightValue)
      (arithmetic op left' right' leftValue' rightValue') := by
  refine (renamed_operands hl hr leftRenamed rightRenamed).bind fun ⟨l, r⟩ => .get ?_
  rintro s _ ⟨-, -, -⟩
  exact .ite (.pure _) (.pure _)

/-- An operator of two operands looks at nothing but these. -/
theorem renamed_binary (op : String) :
    Renamed taken key pairs (binary op left right leftValue rightValue)
      (binary op left' right' leftValue' rightValue') := by
  unfold binary
  split
  · exact renamed_comparison hl hr leftRenamed rightRenamed _ _ _
  · exact renamed_arithmetic hl hr leftRenamed rightRenamed _
  · exact renamed_fail _ _

end

theorem renamed_connective {left left' right right' : Resolve Expr}
    (hl : Renamed taken key pairs left left') (hr : Renamed taken key pairs right right')
    (op : LogicalOp) :
    Renamed taken key pairs (connective op left right) (connective op left' right') :=
  hl.bind fun l => (renamed_predicate l).bind fun _ => hr.bind fun r =>
    (renamed_predicate r).bind fun _ => .pure _

theorem renamed_eitherOf {left left' right right' : Resolve Expr}
    (hl : Renamed taken key pairs left left') (hr : Renamed taken key pairs right right') :
    Renamed taken key pairs (eitherOf left right) (eitherOf left' right') := by
  refine hl.bind fun l => hr.bind fun r => .ite (.pure _) ?_
  exact (renamed_predicate r).bind fun _ => (renamed_predicate l).bind fun _ => .pure _

/-- Logical operators ask for conditions or for values, on both sides the same. -/
theorem renamed_logical {left left' right right' : Bool → Resolve Expr}
    (hl : ∀ p, Renamed taken key pairs (left p) (left' p))
    (hr : ∀ p, Renamed taken key pairs (right p) (right' p)) (isPredicate : Bool) (op : String) :
    Renamed taken key pairs (logical isPredicate op left right)
      (logical isPredicate op left' right') := by
  unfold logical
  split
  · exact (hl _).bind fun _ => (hr _).bind fun _ => .pure _
  · exact renamed_connective (hl _) (hr _) _
  · exact .ite (renamed_connective (hl _) (hr _) _) (renamed_eitherOf (hl _) (hr _))
  · exact renamed_fail _ _

theorem renamed_unary {argument argument' : Node} {resolved resolved' : Bool → Resolve Expr}
    (h : argument.Alpha taken pairs argument')
    (values : ∀ p, Renamed taken key pairs (resolved p) (resolved' p)) (op : String) :
    Renamed taken key pairs (unary op argument resolved) (unary op argument' resolved') := by
  unfold unary
  split
  · exact (values true).bind fun e => (renamed_predicate e).bind fun _ => .pure _
  · cases h with
    | literal value => exact renamed_negativeLiteral value
    | _ => exact (values false).bind fun _ => .pure _
  · exact values false
  · exact renamed_fail _ _

theorem renamed_conditional {test test' consequent consequent' alternate alternate' : Resolve Expr}
    (ht : Renamed taken key pairs test test') (hc : Renamed taken key pairs consequent consequent')
    (ha : Renamed taken key pairs alternate alternate') :
    Renamed taken key pairs (conditional test consequent alternate)
      (conditional test' consequent' alternate') :=
  ht.bind fun e => (renamed_ofExcept (.refl e.testOf)).bind fun _ => hc.bind fun _ =>
    ha.bind fun _ => .pure _

/-- A row that is spread is the same row. -/
theorem renamed_spread {argument argument' : Node} {value value' : Resolve Expr}
    (h : argument.Alpha taken pairs argument') (hv : Renamed taken key pairs value value') :
    Renamed taken key pairs (spread argument value) (spread argument' value') := by
  refine .get fun s s' hs => ?_
  have values : Renamed taken key pairs (value >>= spreadValue argument)
      (value' >>= spreadValue argument') := by
    refine hv.bind fun e => ?_
    unfold spreadValue
    split
    · exact .pure _
    · split
      · exact .pure _
      · exact .pure _
    · exact renamed_fail _ _
  cases h with
  | identifier named named' c =>
    rw [hs.spreadRow?_eq named named' c]
    split
    · exact .pure _
    · exact values
  | _ => exact values

/-! ### Lambdas -/

/-- On both sides a lambda can bind its parameter, and then corresponding names still mean the same. -/
structure Binds (taken : List String) (key : Expr) (pairs : List (String × String)) (s s' : Scope)
    (bindParams bindParams' : List String → Resolve Unit) : Prop where
  none : SameResult (Scope.Renames taken key pairs) (bindParams [] s) (bindParams' [] s')
  some : ∀ param param' others, MayPair taken param param' →
    SameResult (Scope.Renames taken key ((param, param') :: pairs)) (bindParams (param :: others) s)
      (bindParams' (param' :: others) s')

/-- The body is resolved under the names of its own lambda, and these are taken back. -/
theorem renamed_withParams {inner : List (String × String)} {s s' : Scope}
    {bindParams bindParams' : List String → Resolve Unit} {params params' : List String}
    {body body' : Resolve α} (hs : s.Renames taken key pairs s')
    (binds : SameResult (Scope.Renames taken key inner) (bindParams params s) (bindParams' params' s'))
    (h : Renamed taken key inner body body') :
    SameResult (Scope.Renames taken key pairs) (withParams bindParams params body s)
      (withParams bindParams' params' body' s') := by
  obtain ⟨bindings, -, -⟩ := hs
  unfold withParams withBindings
  dsimp only [Bind.bind, EStateM.bind]
  generalize bindParams params s = r at binds ⊢
  generalize bindParams' params' _ = r' at binds ⊢
  cases binds with
  | error => exact .error
  | @ok _ t t' ht =>
    have ends := h t t' ht
    dsimp only
    generalize body t = r at ends ⊢
    generalize body' t' = r' at ends ⊢
    cases ends with
    | error => exact .error
    | ok after =>
      obtain ⟨-, grouped, helpers⟩ := after
      exact .ok ⟨bindings, grouped, helpers⟩

/-- The row of a group is named after the first parameter on each side. -/
theorem binds_bindElement {s s' : Scope} (hs : s.Renames taken key pairs s')
    (groups : s.bindings.groupings ≠ []) (groups' : s'.bindings.groupings ≠ []) :
    Binds taken key pairs s s' bindElement bindElement := by
  refine ⟨.ok hs, fun param param' others pair => ?_⟩
  obtain ⟨bindings, grouped, helpers⟩ := hs
  exact .ok ⟨bindings.bindElement pair groups groups', grouped, helpers⟩

/-- The row of a window may be called differently. -/
theorem binds_bindWindowRow {s s' : Scope} (hs : s.Renames taken key pairs s') {row row' : String}
    (named : row ≠ "") (named' : row' ≠ "") (c : Corresponds pairs row row') :
    Binds taken key pairs s s' (bindWindowRow row) (bindWindowRow row') := by
  refine ⟨.ok hs, fun param param' others pair => ?_⟩
  have same := hs.meaning_eq named named' c
  obtain ⟨bindings, grouped, helpers⟩ := hs
  unfold bindWindowRow
  dsimp only [Bind.bind, EStateM.bind, get, getThe, MonadStateOf.get, EStateM.get]
  rw [NameMeaning.tables_eq same, NameMeaning.joins_eq same]
  by_cases isTable : s.bindings.tables.contains row = true
  · rw [if_pos isTable, if_pos isTable]
    obtain ⟨tables, tables'⟩ := NameMeaning.tables_ne_nil same isTable
    exact .ok ⟨bindings.bindTableRow pair tables tables', grouped, helpers⟩
  · rw [if_neg isTable, if_neg isTable]
    cases s.bindings.joins.find? row with
    | some index => exact .ok ⟨bindings.bindJoin pair index, grouped, helpers⟩
    | none =>
      dsimp only
      by_cases isShaped : row = s.bindings.joinResult
      · have isShaped' := (NameMeaning.shaped_iff same).2 isShaped
        rw [if_pos isShaped, if_pos isShaped']
        exact .ok ⟨bindings.bindShapeRow pair (isShaped ▸ named) (isShaped' ▸ named'), grouped, helpers⟩
      · rw [if_neg isShaped, if_neg (mt (NameMeaning.shaped_iff same).1 isShaped)]
        exact .error

/-! ### Calls -/

/-- Arguments that differ only in the names of parameters, with the work that resolves them. -/
structure RenamedArgument (taken : List String) (key : Expr) (pairs : List (String × String))
    (a a' : Argument) : Prop where
  node : a.node.Alpha taken pairs a'.node
  value : Renamed taken key pairs a.value a'.value
  lambda : ∀ method bindParams bindParams' s s', s.Renames taken key pairs s' →
    Binds taken key pairs s s' bindParams bindParams' →
    SameResult (Scope.Renames taken key pairs) (a.lambda method bindParams s)
      (a'.lambda method bindParams' s')

section

variable {arguments arguments' : List Argument}
  (args : List.Forall₂ (RenamedArgument taken key pairs) arguments arguments')

include args

theorem isEmpty_renamed : arguments.isEmpty = arguments'.isEmpty := by
  cases args <;> rfl

/-- The rows of a group are those of a group that the call is made on. -/
theorem renamed_groupingCall {s s' : Scope} (hs : s.Renames taken key pairs s')
    (groups : s.bindings.groupings ≠ []) (groups' : s'.bindings.groupings ≠ []) (method : String) :
    SameResult (Scope.Renames taken key pairs) (groupingCall method arguments s)
      (groupingCall method arguments' s') := by
  unfold groupingCall
  rw [isEmpty_renamed args]
  split
  · split
    · exact .ok hs
    · exact .error
  · cases AggregateFunction.ofMethod? method with
    | none => exact .error
    | some function =>
      cases args with
      | nil => exact .error
      | cons arg rest =>
        cases rest with
        | nil =>
          have selected := arg.lambda method _ _ s s' hs (binds_bindElement hs groups groups')
          dsimp only [Bind.bind, EStateM.bind]
          generalize Argument.lambda _ method bindElement s = r at selected ⊢
          generalize Argument.lambda _ method bindElement s' = r' at selected ⊢
          cases selected with
          | ok after => exact .ok after
          | error => exact .error
        | cons => exact .error

/-- Helpers are known by their method. -/
theorem renamed_helperCall (method : String) :
    Renamed taken key pairs (helperCall method arguments) (helperCall method arguments') := by
  unfold helperCall
  cases CaseInsensitiveTest.ofName? method with
  | none => exact renamed_fail _ _
  | some test =>
    match args with
    | .cons left (.cons right .nil) =>
      exact left.value.bind fun l => (renamed_operand right.node right.value l).bind fun _ => .pure _
    | .nil => exact renamed_fail _ _
    | .cons _ .nil => exact renamed_fail _ _
    | .cons _ (.cons _ (.cons _ _)) => exact renamed_fail _ _

theorem renamed_textCall {receiver receiver' : Resolve Expr}
    (h : Renamed taken key pairs receiver receiver') (function : StringMethod) :
    Renamed taken key pairs (textCall function receiver arguments)
      (textCall function receiver' arguments') := by
  unfold textCall
  rw [isEmpty_renamed args]
  exact .ite (h.bind fun _ => .pure _) (renamed_fail _ _)

end

/-- Two pieces of work both fail or describe windows over rows that correspond. -/
abbrev RenamedWindow (taken : List String) (key : Expr) (pairs : List (String × String))
    (work work' : Resolve WindowSpec) : Prop :=
  Relates (WindowSpec.Renames pairs) (Scope.Renames taken key pairs) work work'

theorem renamed_windowCall {window window' : Resolve WindowSpec}
    (h : RenamedWindow taken key pairs window window') (function : WindowFunction) :
    Renamed taken key pairs (windowCall function window) (windowCall function window') := by
  refine (h.bind fun w w' same => ?_).matches
  rw [same.partitionBy, same.orderBy]
  exact .ite (fun _ _ _ => .error) (.pure rfl)

theorem renamed_textTestCall {receiver receiver' : Node} {receiverValue receiverValue' : Resolve Expr}
    {argument argument' : Argument} (hreceiver : receiver.Alpha taken pairs receiver')
    (h : Renamed taken key pairs receiverValue receiverValue')
    (arg : RenamedArgument taken key pairs argument argument') (test : TextTest) :
    Renamed taken key pairs (textTestCall test receiver receiverValue argument)
      (textTestCall test receiver' receiverValue' argument') := by
  unfold textTestCall
  rw [hreceiver.isArray_eq]
  refine .ite (arg.value.bind fun _ => h.bind fun _ => .pure _) (h.bind fun target => ?_)
  refine .ite (arg.value.bind fun _ => .pure _) ?_
  exact (renamed_operand arg.node arg.value target).bind fun _ => .pure _

theorem renamed_methodCall {receiver receiver' : Node} {receiverValue receiverValue' : Resolve Expr}
    {window window' : Resolve WindowSpec} {arguments arguments' : List Argument}
    {method method' : String} (named : method = method')
    (hreceiver : receiver.Alpha taken pairs receiver')
    (h : Renamed taken key pairs receiverValue receiverValue')
    (hw : RenamedWindow taken key pairs window window')
    (args : List.Forall₂ (RenamedArgument taken key pairs) arguments arguments') :
    Renamed taken key pairs (methodCall receiver method receiverValue window arguments)
      (methodCall receiver' method' receiverValue' window' arguments') := by
  subst named
  intro s s' hs
  have kind := hs.callKind_eq hreceiver method
  unfold methodCall
  dsimp only [Bind.bind, EStateM.bind, get, getThe, MonadStateOf.get, EStateM.get]
  rw [kind]
  cases is : s.callKind receiver method with
  | external => exact .error
  | grouping =>
    exact renamed_groupingCall args hs (Scope.groupings_ne_nil is)
      (Scope.groupings_ne_nil (kind.trans is)) method
  | helper => exact renamed_helperCall args method s s' hs
  | window function => exact renamed_windowCall hw function s s' hs
  | dateArithmetic => exact .error
  | stringMethod function => exact renamed_textCall args h function s s' hs
  | textTest test =>
    match args with
    | .cons arg .nil => exact renamed_textTestCall hreceiver h arg test s s' hs
    | .nil => exact .error
    | .cons _ (.cons _ _) => exact .error
  | unsupported => exact .error

/-! ### Windows -/

section

variable {arguments arguments' : List Argument}
  (args : List.Forall₂ (RenamedArgument taken key pairs) arguments arguments')

include args

theorem renamed_keys (method : String) {row row' : String} (named : row ≠ "") (named' : row' ≠ "")
    (c : Corresponds pairs row row') :
    Renamed taken key pairs
      (arguments.mapM fun argument => argument.lambda method (bindWindowRow row))
      (arguments'.mapM fun argument => argument.lambda method (bindWindowRow row')) := by
  induction args with
  | nil => exact .pure _
  | cons arg _ ih =>
    rw [List.mapM_cons, List.mapM_cons]
    have first : Renamed taken key pairs _ _ := fun s s' hs =>
      arg.lambda method _ _ s s' hs (binds_bindWindowRow hs named named' c)
    exact first.bind fun _ => ih.bind fun _ => .pure _

theorem renamed_partitionWindow {window window' : WindowSpec} (same : window.Renames pairs window')
    (method : String) :
    RenamedWindow taken key pairs (partitionWindow window method arguments)
      (partitionWindow window' method arguments') := by
  unfold partitionWindow
  rw [isEmpty_renamed args]
  refine .ite (fun _ _ _ => .error) ?_
  refine (renamed_keys args method same.named same.named' same.row).relates.bind ?_
  rintro keys _ rfl
  exact .pure ⟨same.named, same.named', same.row, congrArg (· ++ keys) same.partitionBy, same.orderBy⟩

theorem renamed_orderWindow {window window' : WindowSpec} (same : window.Renames pairs window')
    (method : String) :
    RenamedWindow taken key pairs (orderWindow window method arguments)
      (orderWindow window' method arguments') := by
  unfold orderWindow
  rw [← same.orderBy]
  cases WindowOrderCall.ofName? method with
  | none => exact fun _ _ _ => .error
  | some call =>
    match args with
    | .cons arg .nil =>
      refine .ite (fun _ _ _ => .error) (.ite (fun _ _ _ => .error) ?_)
      have key : Renamed taken key pairs _ _ := fun s s' hs =>
        arg.lambda method _ _ s s' hs (binds_bindWindowRow hs same.named same.named' same.row)
      refine key.relates.bind ?_
      rintro e _ rfl
      exact .pure ⟨same.named, same.named', same.row, same.partitionBy, rfl⟩
    | .nil => exact fun _ _ _ => .error
    | .cons _ (.cons _ _) => exact fun _ _ _ => .error

theorem renamed_openWindow :
    RenamedWindow taken key pairs (openWindow arguments) (openWindow arguments') := by
  match args with
  | .cons (a := ⟨node, _, _⟩) (b := ⟨node', _, _⟩) arg .nil =>
    obtain ⟨hnode, -, -⟩ := arg
    cases hnode with
    | identifier named named' c => exact .pure ⟨named, named', c, rfl, rfl⟩
    | _ => exact fun _ _ _ => .error
  | .nil => exact fun _ _ _ => .error
  | .cons _ (.cons _ _) =>
    rw [openWindow_many, openWindow_many]
    exact fun _ _ _ => .error

omit args in
theorem renamed_windowStep {receiver receiver' : Node} {earlier earlier' : Resolve WindowSpec}
    {method method' : String} (named : method = method')
    (args : List.Forall₂ (RenamedArgument taken key pairs) arguments arguments')
    (hreceiver : receiver.Alpha taken pairs receiver')
    (h : RenamedWindow taken key pairs earlier earlier') :
    RenamedWindow taken key pairs (windowStep receiver method earlier arguments)
      (windowStep receiver' method' earlier' arguments') := by
  subst named
  refine .get fun s s' hs => ?_
  have same : opensWindow s'.helpers receiver' method = opensWindow s.helpers receiver method := by
    cases hreceiver with
    | identifier named named' c =>
      have same := hs.meaning_eq named named' c
      obtain ⟨bindings, -, helpers⟩ := hs
      simp only [opensWindow, NameMeaning.taken_iff same helpers]
    | _ => rfl
  rw [same]
  refine .ite (renamed_openWindow args) (h.bind fun window window' same => ?_)
  exact .ite (renamed_partitionWindow args same method) (renamed_orderWindow args same method)

end

end Resolve

/-! ### Nodes -/

open Resolve

/-- A call of anything but a method is no expression. -/
theorem Node.renamed_call {callee callee' : Node} (arguments arguments' : List Node)
    (noMethod : ∀ receiver property computed, callee ≠ .member receiver property computed)
    (h : callee.Alpha taken pairs callee') (isPredicate : Bool) :
    Renamed taken key pairs ((Node.call callee arguments).resolve isPredicate)
      ((Node.call callee' arguments').resolve isPredicate) := by
  cases h with
  | member | computed => exact absurd rfl (noMethod _ _ _)
  | _ => exact renamed_fail _ _

/-- A call of anything but a method describes no window. -/
theorem Node.renamed_window_call {callee callee' : Node} (whole whole' : Node)
    (arguments arguments' : List Node)
    (noMethod : ∀ receiver property computed, callee ≠ .member receiver property computed)
    (h : callee.Alpha taken pairs callee') :
    RenamedWindow taken key pairs (Node.resolveWindow whole (.call callee arguments))
      (Node.resolveWindow whole' (.call callee' arguments')) := by
  cases h with
  | member | computed => exact absurd rfl (noMethod _ _ _)
  | _ => exact fun _ _ _ => .error

mutual

/-- Bodies that differ only in the names of parameters resolve to the same expression, or both fail. -/
theorem Node.renamed_resolve : ∀ {node node' : Node} {pairs : List (String × String)},
    node.Alpha taken pairs node' → ∀ isPredicate : Bool,
      Renamed taken key pairs (node.resolve isPredicate) (node'.resolve isPredicate)
  | _, _, _, .identifier named named' c, _ => renamed_identifier named named' c
  | _, _, _, .literal value, _ => renamed_literal value .absent
  | _, _, _, .member property h, _ => renamed_member (.member property h)
  | _, _, _, .computed functions h hp, _ => renamed_member (.computed functions h hp)
  | _, _, _, .method _ named h args, _ =>
    renamed_methodCall named h (Node.renamed_resolve h false) (Node.renamed_resolveWindow h _ _)
      (Node.renamed_arguments args)
  | _, _, _, .call noMethod h _, isPredicate => Node.renamed_call _ _ noMethod h isPredicate
  | _, _, _, .binary op hl hr, _ =>
    renamed_binary hl hr (Node.renamed_resolve hl false) (Node.renamed_resolve hr false) op
  | _, _, _, .logical op hl hr, isPredicate =>
    renamed_logical (Node.renamed_resolve hl) (Node.renamed_resolve hr) isPredicate op
  | _, _, _, .unary op h, _ => renamed_unary h (Node.renamed_resolve h) op
  | _, _, _, .conditional ht hc ha, _ =>
    renamed_conditional (Node.renamed_resolve ht true) (Node.renamed_resolve hc false)
      (Node.renamed_resolve ha false)
  | _, _, _, .object h, _ => (Property.renamed_resolveList h).map _
  | _, _, _, .array h, _ => (Node.renamed_resolveList h).map _
  | _, _, _, .thunk _, _ => renamed_fail _ _
  | _, _, _, .arrow _ _ _, _ => renamed_fail _ _
  | _, _, _, .block _ _, _ => renamed_fail _ _
  | _, _, _, .returnStatement _ _, _ => renamed_fail _ _

theorem Node.renamed_resolveList : ∀ {nodes nodes' : List Node} {pairs : List (String × String)},
    Node.AlphaList taken pairs nodes nodes' →
      Renamed taken key pairs (Node.resolveList nodes) (Node.resolveList nodes')
  | _, _, _, .nil => .pure _
  | _, _, _, .cons h hs =>
    (Node.renamed_resolve h false).bind fun _ =>
      (Node.renamed_resolveList hs).bind fun _ => .pure _

theorem Property.renamed_resolveList : ∀ {properties properties' : List Property}
    {pairs : List (String × String)}, Property.AlphaList taken pairs properties properties' →
      Renamed taken key pairs (Property.resolveList properties) (Property.resolveList properties')
  | _, _, _, .nil => .pure _
  | _, _, _, .spread h hs =>
    (renamed_spread h (Node.renamed_resolve h false)).bind fun _ =>
      (Property.renamed_resolveList hs).bind fun _ => .pure _
  | _, _, _, .named _ _ _ h hs =>
    (Node.renamed_resolve h false).bind fun _ =>
      (Property.renamed_resolveList hs).bind fun _ => .pure _

/-- The values of lambdas with their parameters bound. -/
theorem Node.renamed_body : ∀ {body body' : Node} {inner : List (String × String)},
    body.AlphaBody taken inner body' → ∀ {outer : List (String × String)} (isPredicate : Bool)
      (method : String) (bindParams bindParams' : List String → Resolve Unit)
      (params params' : List String) (s s' : Scope), s.Renames taken key outer s' →
      SameResult (Scope.Renames taken key inner) (bindParams params s) (bindParams' params' s') →
      SameResult (Scope.Renames taken key outer)
        ((Node.arrow params body).resolveLambda isPredicate method bindParams s)
        ((Node.arrow params' body').resolveLambda isPredicate method bindParams' s')
  | _, _, _, .value returned returned' h, _, isPredicate, _, _, _, _, _, _, _, hs, binds => by
    rw [Node.resolveLambda_arrow, Node.resolveLambda_arrow, returned, returned']
    exact renamed_withParams hs binds (Node.renamed_resolve h isPredicate)
  | _, _, _, .unreadable refused refused', _, _, _, _, _, _, _, _, _, hs, binds => by
    rw [Node.resolveLambda_arrow, Node.resolveLambda_arrow, refused, refused']
    exact renamed_withParams hs binds (renamed_failUnplaced _ _)

theorem Node.renamed_resolveLambda : ∀ {node node' : Node} {pairs : List (String × String)},
    node.Alpha taken pairs node' → ∀ (method : String)
      (bindParams bindParams' : List String → Resolve Unit) (s s' : Scope),
      s.Renames taken key pairs s' → Binds taken key pairs s s' bindParams bindParams' →
      SameResult (Scope.Renames taken key pairs) (node.resolveLambda false method bindParams s)
        (node'.resolveLambda false method bindParams' s')
  | _, _, _, .thunk h, method, _, _, s, s', hs, binds =>
    Node.renamed_body h false method _ _ _ _ s s' hs binds.none
  | _, _, _, .arrow pair _ h, method, _, _, s, s', hs, binds =>
    Node.renamed_body h false method _ _ _ _ s s' hs (binds.some _ _ _ pair)
  | _, _, _, .identifier _ _ _, _, _, _, _, _, _, _ | _, _, _, .literal _, _, _, _, _, _, _, _
  | _, _, _, .member _ _, _, _, _, _, _, _, _ | _, _, _, .computed _ _ _, _, _, _, _, _, _, _
  | _, _, _, .method _ _ _ _, _, _, _, _, _, _, _ | _, _, _, .call _ _ _, _, _, _, _, _, _, _
  | _, _, _, .binary _ _ _, _, _, _, _, _, _, _ | _, _, _, .logical _ _ _, _, _, _, _, _, _, _
  | _, _, _, .unary _ _, _, _, _, _, _, _, _ | _, _, _, .conditional _ _ _, _, _, _, _, _, _, _
  | _, _, _, .object _, _, _, _, _, _, _, _ | _, _, _, .array _, _, _, _, _, _, _, _
  | _, _, _, .block _ _, _, _, _, _, _, _, _ | _, _, _, .returnStatement _ _, _, _, _, _, _, _, _ =>
    .error

theorem Node.renamed_arguments : ∀ {nodes nodes' : List Node} {pairs : List (String × String)},
    Node.AlphaList taken pairs nodes nodes' →
    List.Forall₂ (RenamedArgument taken key pairs) (Node.arguments nodes) (Node.arguments nodes')
  | _, _, _, .nil => .nil
  | _, _, _, .cons h hs =>
    .cons ⟨h, Node.renamed_resolve h false, Node.renamed_resolveLambda h⟩ (Node.renamed_arguments hs)

theorem Node.renamed_resolveWindow : ∀ {node node' : Node} {pairs : List (String × String)},
    node.Alpha taken pairs node' → ∀ whole whole' : Node,
      RenamedWindow taken key pairs (Node.resolveWindow whole node) (Node.resolveWindow whole' node')
  | _, _, _, .method _ named h args, _, _ =>
    renamed_windowStep named (Node.renamed_arguments args) h (Node.renamed_resolveWindow h _ _)
  | _, _, _, .call noMethod h _, whole, whole' =>
    Node.renamed_window_call whole whole' _ _ noMethod h
  | _, _, _, .identifier _ _ _, _, _ | _, _, _, .literal _, _, _ | _, _, _, .member _ _, _, _
  | _, _, _, .computed _ _ _, _, _ | _, _, _, .binary _ _ _, _, _ | _, _, _, .logical _ _ _, _, _
  | _, _, _, .unary _ _, _, _ | _, _, _, .conditional _ _ _, _, _ | _, _, _, .object _, _, _
  | _, _, _, .array _, _, _ | _, _, _, .thunk _, _, _ | _, _, _, .arrow _ _ _, _, _
  | _, _, _, .block _ _, _, _ | _, _, _, .returnStatement _ _, _, _ => fun _ _ _ => .error

end

end FluentQuery
