import Mathlib.Data.List.Forall2
import FluentQuery.Proofs.TwoRuns
import FluentQuery.Resolve.Chain

/-!
# Builders that differ in literals

Two builders may differ in the values of their literals, as long as corresponding literals are of one
kind; names of tables and the keys of computed accesses are not literals in this sense, and counts
given to `take` and `skip` have to be counts (`Node.Alike`).  Literals become parameters, so the
scopes of two such builders differ in the values of parameters (`Scope.Counterpart`).  The lemmas of
this module say that each operator gives the same expression for operands that do.
-/

namespace FluentQuery

set_option autoImplicit false

/-! ### Literals -/

/-- Two scalars of one kind, neither of them null. -/
inductive Json.SameKind : Json → Json → Prop
  | str (a b : String) : SameKind (.str a) (.str b)
  | bool (a b : Bool) : SameKind (.bool a) (.bool b)
  | int (a b : Int) : SameKind (.int a) (.int b)
  | double (a b : Double) : SameKind (.double a) (.double b)

/-- Where a node stands in a builder. -/
inductive Place where
  /-- In an expression. -/
  | value
  /-- Where a query is expected. -/
  | query
  /-- Where the name of a table is expected, or a query in place of a table. -/
  | table
  /-- Where a number of rows is expected. -/
  | count
deriving DecidableEq

namespace Place

/-- Where the parts of a node stand. -/
def inside : Place → Place
  | value | count => value
  | query | table => query

/-- Whether a literal at a place may have either of two values. -/
def Admits : Place → Json → Json → Prop
  | value, _, _ | query, _, _ => True
  | table, _, _ => False
  | count, v, v' => ∀ n, v = .int n ∨ v' = .int n → 0 ≤ n ∧ n < (Nat.pow 2 63 : Nat)

/-- Where the arguments of a method of a query stand: the first, and those after it. -/
def ofMethod : Method → Place × Place
  | .page _ => (count, value)
  | .join _ | .groupJoin | .selectMany => (query, value)
  | _ => (value, value)

/-- Where the arguments of the method with the given name stand. -/
def ofMethodName (name : String) : Place × Place :=
  match Method.ofName? name with
  | some method => ofMethod method
  | none => (value, value)

/-- Where the arguments of the root of a chain with the given name stand. -/
def ofRootName (name : String) : Place × Place :=
  match RootMethod.ofName? name with
  | some _ => (table, table)
  | none => (value, value)

/-- Where the arguments of a call stand that itself stands at the given place. -/
def ofCall (place : Place) (callee : Node) : Place × Place :=
  match place, callee with
  | query, .identifier name => ofRootName name
  | query, .member (.identifier _) property _ => ofRootName property.keyName
  | query, .member _ property _ => ofMethodName property.keyName
  | _, _ => (value, value)

end Place

mutual

/-- Two trees that differ only in literals, by values that `differ` relates. -/
inductive Node.Alike (differ : Json → Json → Prop) : Place → Node → Node → Prop
  | identifier {place : Place} (name : String) :
      Node.Alike differ place (.identifier name) (.identifier name)
  | literal {place : Place} {v v' : Json} (h : v = v' ∨ differ v v' ∧ place.Admits v v') :
      Node.Alike differ place (.literal v) (.literal v')
  | member {place : Place} {object object' : Node} (property : Node) (computed : Bool)
      (h : Node.Alike differ place.inside object object') :
      Node.Alike differ place (.member object property computed) (.member object' property computed)
  | call {place : Place} {callee callee' : Node} {arguments arguments' : List Node}
      (h : Node.Alike differ place.inside callee callee')
      (args : Node.AlikeList differ (place.inside.ofCall callee).1 (place.inside.ofCall callee).2
        arguments arguments') :
      Node.Alike differ place (.call callee arguments) (.call callee' arguments')
  | binary {place : Place} (op : String) {left left' right right' : Node}
      (hl : Node.Alike differ .value left left') (hr : Node.Alike differ .value right right') :
      Node.Alike differ place (.binary op left right) (.binary op left' right')
  | logical {place : Place} (op : String) {left left' right right' : Node}
      (hl : Node.Alike differ .value left left') (hr : Node.Alike differ .value right right') :
      Node.Alike differ place (.logical op left right) (.logical op left' right')
  | unary {place : Place} (op : String) {argument argument' : Node}
      (h : Node.Alike differ .value argument argument') :
      Node.Alike differ place (.unary op argument) (.unary op argument')
  | conditional {place : Place} {test test' consequent consequent' alternate alternate' : Node}
      (ht : Node.Alike differ .value test test')
      (hc : Node.Alike differ .value consequent consequent')
      (ha : Node.Alike differ .value alternate alternate') :
      Node.Alike differ place (.conditional test consequent alternate)
        (.conditional test' consequent' alternate')
  | object {place : Place} {properties properties' : List Property}
      (h : Property.AlikeList differ properties properties') :
      Node.Alike differ place (.object properties) (.object properties')
  | array {place : Place} {elements elements' : List Node}
      (h : Node.AlikeList differ .value .value elements elements') :
      Node.Alike differ place (.array elements) (.array elements')
  | arrow {place : Place} (params : List String) {body body' : Node}
      (h : Node.Alike differ place.inside body body') :
      Node.Alike differ place (.arrow params body) (.arrow params body')
  | block {place : Place} {body body' : List Node}
      (h : Node.AlikeList differ place.inside place.inside body body') :
      Node.Alike differ place (.block body) (.block body')
  | returnNothing {place : Place} :
      Node.Alike differ place (.returnStatement none) (.returnStatement none)
  | returnValue {place : Place} {value value' : Node}
      (h : Node.Alike differ place.inside value value') :
      Node.Alike differ place (.returnStatement (some value)) (.returnStatement (some value'))

/-- Nodes that are alike one by one; the first may stand at a place of its own. -/
inductive Node.AlikeList (differ : Json → Json → Prop) :
    Place → Place → List Node → List Node → Prop
  | nil {first rest : Place} : Node.AlikeList differ first rest [] []
  | cons {first rest : Place} {node node' : Node} {nodes nodes' : List Node}
      (h : Node.Alike differ first node node') (hs : Node.AlikeList differ rest rest nodes nodes') :
      Node.AlikeList differ first rest (node :: nodes) (node' :: nodes')

/-- Members of object literals that are alike one by one. -/
inductive Property.AlikeList (differ : Json → Json → Prop) : List Property → List Property → Prop
  | nil : Property.AlikeList differ [] []
  | spread {value value' : Node} {rest rest' : List Property}
      (h : Node.Alike differ .value value value') (hs : Property.AlikeList differ rest rest') :
      Property.AlikeList differ (.spread value :: rest) (.spread value' :: rest')
  | named {value value' : Node} {rest rest' : List Property} (key : String) (shorthand : Bool)
      (h : Node.Alike differ .value value value') (hs : Property.AlikeList differ rest rest') :
      Property.AlikeList differ (.named key value shorthand :: rest)
        (.named key value' shorthand :: rest')

end

/-! ### Parameters -/

/-- The negative of a number. -/
def Json.negative : Json → Json
  | .int n => .int (Json.wrapSigned 64 (-(Json.wrapSigned 64 n)))
  | .double x => .double x.negate
  | v => v

/-- The values of a parameter made from literals: those of the literals, or their negatives. -/
def Json.Counterpart (differ : Json → Json → Prop) (v v' : Json) : Prop :=
  v = v' ∨ differ v v' ∨ ∃ w w', differ w w' ∧ v = w.negative ∧ v' = w'.negative

/-- Where a parameter came from, up to its value. -/
structure AutoParamInfo.Alike (differ : Json → Json → Prop) (info info' : AutoParamInfo) : Prop where
  value : info.value.Counterpart differ info'.value
  origin : info' = { info with value := info'.value }

/-- Maps with the same keys, in the same order, and related values. -/
def Assoc.Alike {α : Type} (related : α → α → Prop) : Assoc α → Assoc α → Prop :=
  List.Forall₂ fun entry entry' => entry.1 = entry'.1 ∧ related entry.2 entry'.2

/-- Scopes that differ only in the values of automatic parameters. -/
inductive Scope.Counterpart (differ : Json → Json → Prop) (s : Scope) : Scope → Prop
  | intro {autoParams : Assoc Json} {autoParamInfos : Assoc AutoParamInfo}
      (params : Assoc.Alike (Json.Counterpart differ) s.autoParams autoParams)
      (infos : Assoc.Alike (AutoParamInfo.Alike differ) s.autoParamInfos autoParamInfos) :
      Scope.Counterpart differ s { s with autoParams, autoParamInfos }

namespace Assoc.Alike

variable {α : Type} {related : α → α → Prop} {m m' : Assoc α}

/-- Related values may be put under one key. -/
theorem insert (h : Assoc.Alike related m m') (key : String) {a a' : α} (ha : related a a') :
    Assoc.Alike related (m.insert key a) (m'.insert key a') := by
  induction h with
  | nil => exact .cons ⟨rfl, ha⟩ .nil
  | @cons entry entry' rest rest' hentry hrest ih =>
    obtain ⟨k, v⟩ := entry
    obtain ⟨k', v'⟩ := entry'
    obtain ⟨rfl, hv⟩ : k = k' ∧ related v v' := hentry
    unfold Assoc.insert
    split
    · exact .cons ⟨rfl, ha⟩ hrest
    split
    · exact .cons ⟨rfl, ha⟩ (.cons ⟨rfl, hv⟩ hrest)
    · exact .cons ⟨rfl, hv⟩ ih

/-- A key is found on both sides or on neither, and leads to related values. -/
theorem find? (h : Assoc.Alike related m m') (key : String) :
    Option.Rel related (Assoc.find? m key) (Assoc.find? m' key) := by
  induction h with
  | nil => exact .none
  | @cons entry entry' rest rest' hentry hrest ih =>
    obtain ⟨k, v⟩ := entry
    obtain ⟨k', v'⟩ := entry'
    obtain ⟨rfl, hv⟩ : k = k' ∧ related v v' := hentry
    unfold Assoc.find?
    split
    · exact .some hv
    · exact ih

end Assoc.Alike

/-- Values that may differ are of one kind. -/
def KeepsKinds (differ : Json → Json → Prop) : Prop :=
  ∀ v v', differ v v' → Json.SameKind v v'

variable {differ : Json → Json → Prop}

/-- The two values of a parameter are both texts, or neither is. -/
theorem Json.Counterpart.isString_eq (kinds : KeepsKinds differ) {v v' : Json}
    (h : v.Counterpart differ v') : v.isString = v'.isString := by
  rcases h with rfl | h | ⟨w, w', h, rfl, rfl⟩
  · rfl
  · cases kinds _ _ h <;> rfl
  · cases kinds _ _ h <;> rfl

mutual

/-- Whether an expression is taken for a text depends on the kinds of parameters only. -/
theorem Expr.isTextual_alike (kinds : KeepsKinds differ) {known known' : Assoc Json}
    (h : Assoc.Alike (Json.Counterpart differ) known known') :
    ∀ e : Expr, e.isTextual known = e.isTextual known'
  | .param p property index => by
    have found := h.find? p
    unfold Expr.isTextual
    generalize Assoc.find? known p = r at found ⊢
    generalize Assoc.find? known' p = r' at found ⊢
    cases found with
    | none => rfl
    | some hv => exact hv.isString_eq kinds
  | .coalesce expressions => Expr.anyTextual_alike kinds h expressions
  | .absent | .column _ _ _ | .excludedColumn _ | .constant _ | .arithmetic _ _ _ | .concat _ _
  | .stringMethod _ _ | .caseWhen _ _ | .aggregate _ _ | .window _ _ _ | .reference _ _ | .allColumns
  | .comparison _ _ _ | .logical _ _ _ | .negation _ | .booleanConstant _ | .booleanColumn _ _ _
  | .booleanParam _ _ | .textTest _ _ _ | .caseInsensitive _ _ _ | .membership _ _ | .isNull _ _
  | .object _ | .array _ => rfl

/-- Whether one of several operands is text does not depend on the values of parameters either. -/
theorem Expr.anyTextual_alike (kinds : KeepsKinds differ) {known known' : Assoc Json}
    (h : Assoc.Alike (Json.Counterpart differ) known known') :
    ∀ es : List Expr, Expr.anyTextual known es = Expr.anyTextual known' es
  | [] => rfl
  | e :: rest => by
    rw [Expr.anyTextual, Expr.anyTextual, Expr.isTextual_alike kinds h e,
      Expr.anyTextual_alike kinds h rest]

end

/-! ### Work in scopes that are alike -/

namespace Resolve

variable {α : Type}

/-- In scopes that are alike, two pieces of work both fail or give the same result. -/
abbrev Blind (differ : Json → Json → Prop) (work work' : Resolve α) : Prop :=
  Matches (Scope.Counterpart differ) work work'

/-- Work that fails is alike, whatever it says. -/
theorem blind_fail (fault fault' : Fault) :
    Blind differ (fail fault : Resolve α) (fail fault') :=
  .get fun _ _ _ => .throw _ _

theorem blind_failUnplaced (fault fault' : Fault) :
    Blind differ (failUnplaced fault : Resolve α) (failUnplaced fault') :=
  .throw _ _

theorem blind_ofExcept {x x' : Except ExprFault α} (h : Agree Eq x x') :
    Blind differ (ofExcept x) (ofExcept x') := by
  cases h with
  | ok same =>
    subst same
    exact .pure _
  | error => exact blind_fail _ _

/-- Bindings are put back on both sides. -/
theorem blind_withBindings {work work' : Resolve α} (h : Blind differ work work') :
    Blind differ (withBindings work) (withBindings work') := by
  rintro s _ ⟨params, infos⟩
  have inner := h s _ ⟨params, infos⟩
  unfold withBindings
  generalize work s = r at inner ⊢
  generalize work' _ = r' at inner ⊢
  cases inner with
  | ok hs =>
    obtain ⟨params', infos'⟩ := hs
    exact .ok ⟨params', infos'⟩
  | error => exact .error

/-- A nested query is worked on in a scope of its own, and leaves behind its parameters only. -/
theorem blind_nested {work work' : Resolve α} (h : Blind differ work work') :
    Blind differ (nested work) (nested work') := by
  rintro s _ ⟨params, infos⟩
  have inner := h s _ ⟨params, infos⟩
  unfold nested
  dsimp only
  generalize work s = r at inner ⊢
  generalize work' _ = r' at inner ⊢
  cases inner with
  | ok hs =>
    obtain ⟨params', infos'⟩ := hs
    exact .ok ⟨params', infos'⟩
  | error => exact .error

/-- The body of a lambda is worked on with its parameters bound. -/
theorem blind_withParams {bindParams : List String → Resolve Unit} {params : List String}
    {body body' : Resolve α} (binds : Blind differ (bindParams params) (bindParams params))
    (h : Blind differ body body') :
    Blind differ (withParams bindParams params body) (withParams bindParams params body') :=
  blind_withBindings (binds.bind fun _ => h)

theorem blind_bind (change : Bindings → Bindings) :
    Blind differ (Resolve.bind change) (Resolve.bind change) :=
  .modify fun _ _ ⟨params, infos⟩ => ⟨params, infos⟩

theorem blind_bindRow (name : String) : Blind differ (bindRow name) (bindRow name) :=
  .modify fun _ _ ⟨params, infos⟩ => ⟨params, infos⟩

theorem blind_failArguments (least most got got' : Nat) :
    Blind differ (failArguments least most got : Resolve α) (failArguments least most got') :=
  .get fun _ _ _ => blind_fail _ _

/-- A parameter has the same name on both sides, and takes values of one kind. -/
theorem blind_autoParam {v v' : Json} (h : v.Counterpart differ v') (fieldName : String)
    (sourceTable : Option Int) :
    Blind differ (autoParam v fieldName sourceTable) (autoParam v' fieldName sourceTable) := by
  rintro s _ ⟨params, infos⟩
  exact .ok ⟨params.insert _ h, infos.insert _ ⟨h, rfl⟩⟩

end Resolve

/-! ### What is seen of a node -/

namespace Node.Alike

variable {place : Place} {node node' : Node}

/-- A literal corresponds to a literal. -/
theorem isLiteral_eq (h : node.Alike differ place node') : node.isLiteral = node'.isLiteral := by
  cases h <;> rfl

theorem isArray_eq (h : node.Alike differ place node') : node.isArray = node'.isArray := by
  cases h <;> rfl

theorem isNullLiteral_eq (kinds : KeepsKinds differ) (h : node.Alike differ place node') :
    node.isNullLiteral = node'.isNullLiteral := by
  cases h with
  | literal h =>
    rcases h with rfl | ⟨h, -⟩
    · rfl
    · cases kinds _ _ h <;> rfl
  | _ => rfl

end Node.Alike

/-- The path of member accesses is the same, and so is the name that it starts from. -/
theorem Node.memberPath_alike : ∀ (node : Node) {node' : Node} {place : Place},
    node.Alike differ place node' → ∀ (path : List String) (index : Option Int),
      Agree (fun found found' => found.2 = found'.2 ∧ ∃ place, found.1.Alike differ place found'.1)
        (node.memberPath path index) (node'.memberPath path index)
  | .member receiver property true, _, _, .member _ _ h, path, index => by
    unfold Node.memberPath
    split
    · exact Node.memberPath_alike receiver h _ _
    · split
      · exact Node.memberPath_alike receiver h _ _
      · exact .error
    · exact .error
    · exact .error
  | .member receiver property false, _, _, .member _ _ h, path, index => by
    unfold Node.memberPath
    exact Node.memberPath_alike receiver h _ _
  | .identifier _, _, _, .identifier name, _, _ => .ok ⟨rfl, .value, .identifier name⟩
  | .literal _, _, place, .literal h, _, _ => .ok ⟨rfl, place, .literal h⟩
  | .call _ _, _, place, .call h args, _, _ => .ok ⟨rfl, place, .call h args⟩
  | .binary _ _ _, _, place, .binary op hl hr, _, _ => .ok ⟨rfl, place, .binary op hl hr⟩
  | .logical _ _ _, _, place, .logical op hl hr, _, _ => .ok ⟨rfl, place, .logical op hl hr⟩
  | .unary _ _, _, place, .unary op h, _, _ => .ok ⟨rfl, place, .unary op h⟩
  | .conditional _ _ _, _, place, .conditional ht hc ha, _, _ =>
    .ok ⟨rfl, place, .conditional ht hc ha⟩
  | .object _, _, place, .object h, _, _ => .ok ⟨rfl, place, .object h⟩
  | .array _, _, place, .array h, _, _ => .ok ⟨rfl, place, .array h⟩
  | .arrow _ _, _, place, .arrow params h, _, _ => .ok ⟨rfl, place, .arrow params h⟩
  | .block _, _, place, .block h, _, _ => .ok ⟨rfl, place, .block h⟩
  | .returnStatement none, _, place, .returnNothing, _, _ => .ok ⟨rfl, place, .returnNothing⟩
  | .returnStatement (some _), _, place, .returnValue h, _, _ => .ok ⟨rfl, place, .returnValue h⟩

namespace Resolve

variable {left left' right right' : Node} {place : Place}
  {leftValue leftValue' rightValue rightValue' : Resolve Expr}

/-- A name stands for the same on both sides. -/
theorem blind_identifier (name : String) : Blind differ (identifier name) (identifier name) :=
  .get fun s _ ⟨_, _⟩ => blind_ofExcept (.refl (s.identifier name))

section

variable (kinds : KeepsKinds differ)

include kinds

/-- A literal becomes a parameter of the next number, or is null on both sides. -/
theorem blind_literal {v v' : Json} (h : v = v' ∨ differ v v') (peer : Expr) :
    Blind differ (literal v peer) (literal v' peer) := by
  have counterpart : v.Counterpart differ v' := h.imp_right .inl
  have parameters (present : v ≠ .null) (present' : v' ≠ .null) :
      Blind differ (literal v peer) (literal v' peer) := by
    unfold literal
    split
    · exact absurd rfl present
    split
    · exact blind_autoParam counterpart _ _
    · exact blind_autoParam counterpart _ _
  rcases h with rfl | h
  · by_cases null : v = .null
    · subst null
      exact .pure _
    · exact parameters null null
  · cases kinds _ _ h <;> exact parameters (by rintro ⟨⟩) (by rintro ⟨⟩)

/-- An operand is a literal, which takes the column of its peer, or is resolved on both sides. -/
theorem blind_operand {node node' : Node} {resolved resolved' : Resolve Expr}
    (h : node.Alike differ place node') (value : Blind differ resolved resolved') (peer : Expr) :
    Blind differ (operand node peer resolved) (operand node' peer resolved') := by
  cases h with
  | literal h => exact blind_literal kinds (h.imp_right And.left) peer
  | _ => exact value

/-- The negation of a literal is a parameter too, and negation keeps the kind of a number. -/
theorem blind_negativeLiteral {v v' : Json} (h : v = v' ∨ differ v v') :
    Blind differ (negativeLiteral v) (negativeLiteral v') := by
  rcases h with rfl | h
  · cases v with
    | int => exact blind_autoParam (.inl rfl) _ _
    | double => exact blind_autoParam (.inl rfl) _ _
    | _ => exact blind_fail _ _
  · have counterpart : v.negative.Counterpart differ v'.negative := .inr (.inr ⟨v, v', h, rfl, rfl⟩)
    cases kinds _ _ h with
    | int => exact blind_autoParam counterpart _ _
    | double => exact blind_autoParam counterpart _ _
    | _ => exact blind_fail _ _

variable (hl : left.Alike differ place left') (hr : right.Alike differ place right')
  (blindLeft : Blind differ leftValue leftValue') (blindRight : Blind differ rightValue rightValue')

include hl hr blindLeft blindRight

/-- A literal on the left is resolved after its peer, and it is a literal on both sides. -/
theorem blind_operands :
    Blind differ (operands left right leftValue rightValue)
      (operands left' right' leftValue' rightValue') := by
  unfold operands
  rw [hl.isLiteral_eq]
  refine .ite ?_ ?_
  · exact blindRight.bind fun r => (blind_operand kinds hl blindLeft r).bind fun _ => .pure _
  · exact blindLeft.bind fun l => (blind_operand kinds hr blindRight l).bind fun _ => .pure _

/-- Comparisons, those with null among them. -/
theorem blind_comparison (op : ComparisonOp) (node node' : Node) :
    Blind differ (comparison op node left right leftValue rightValue)
      (comparison op node' left' right' leftValue' rightValue') := by
  unfold comparison
  rw [hl.isNullLiteral_eq kinds, hr.isNullLiteral_eq kinds]
  refine .ite (blind_fail _ _) (.ite (.ite (blind_fail _ _) ?_) ?_)
  · exact .ite (blindRight.bind fun _ => .pure _) (blindLeft.bind fun _ => .pure _)
  · exact (blind_operands kinds hl hr blindLeft blindRight).bind fun _ => .pure _

/-- A sum is a concatenation if one operand is text, which parameters are by their kind. -/
theorem blind_arithmetic (op : ArithmeticOp) :
    Blind differ (arithmetic op left right leftValue rightValue)
      (arithmetic op left' right' leftValue' rightValue') := by
  refine (blind_operands kinds hl hr blindLeft blindRight).bind fun ⟨l, r⟩ => .get ?_
  rintro s _ ⟨params, -⟩
  dsimp only
  rw [Expr.isTextual_alike kinds params l, Expr.isTextual_alike kinds params r]
  exact .ite (.pure _) (.pure _)

/-- An operator of two operands is a comparison or arithmetic. -/
theorem blind_binary (op : String) :
    Blind differ (binary op left right leftValue rightValue)
      (binary op left' right' leftValue' rightValue') := by
  unfold binary
  split
  · exact blind_comparison kinds hl hr blindLeft blindRight _ _ _
  · exact blind_arithmetic kinds hl hr blindLeft blindRight _
  · exact blind_fail _ _

end

/-- What an expression is as a condition depends on itself only. -/
theorem blind_predicate (e : Expr) : Blind differ (predicate e) (predicate e) :=
  blind_ofExcept (.refl _)

section

variable {left left' right right' : Resolve Expr}
  (blindLeft : Blind differ left left') (blindRight : Blind differ right right')

include blindLeft blindRight

/-- Connectives of two conditions. -/
theorem blind_connective (op : LogicalOp) :
    Blind differ (connective op left right) (connective op left' right') :=
  blindLeft.bind fun l => (blind_predicate l).bind fun _ => blindRight.bind fun r =>
    (blind_predicate r).bind fun _ => .pure _

/-- Between values a disjunction picks one, else it is a connective; literals do not decide between
the two. -/
theorem blind_eitherOf : Blind differ (eitherOf left right) (eitherOf left' right') := by
  refine blindLeft.bind fun l => blindRight.bind fun r => .ite (.pure _) ?_
  exact (blind_predicate r).bind fun _ => (blind_predicate l).bind fun _ => .pure _

/-- An operand or what replaces it if it is null. -/
theorem blind_nullish : Blind differ (nullish left right) (nullish left' right') :=
  blindLeft.bind fun _ => blindRight.bind fun _ => .pure _

end

/-- As conditions, logical operators are connectives; as values, they choose between their
operands. -/
theorem blind_logical {left left' right right' : Bool → Resolve Expr}
    (blindLeft : ∀ p, Blind differ (left p) (left' p))
    (blindRight : ∀ p, Blind differ (right p) (right' p)) (isPredicate : Bool) (op : String) :
    Blind differ (logical isPredicate op left right) (logical isPredicate op left' right') := by
  unfold logical
  split
  · exact blind_nullish (blindLeft _) (blindRight _)
  · exact blind_connective (blindLeft _) (blindRight _) _
  · exact .ite (blind_connective (blindLeft _) (blindRight _) _)
      (blind_eitherOf (blindLeft _) (blindRight _))
  · exact blind_fail _ _

/-- A minus sign belongs to a literal or is arithmetic. -/
theorem blind_negative (kinds : KeepsKinds differ) {argument argument' : Node}
    {value value' : Resolve Expr} (h : argument.Alike differ place argument')
    (blind : Blind differ value value') :
    Blind differ (negative argument value) (negative argument' value') := by
  cases h with
  | literal h => exact blind_negativeLiteral kinds (h.imp_right And.left)
  | _ => exact blind.bind fun _ => .pure _

/-- The operators of one operand. -/
theorem blind_unary (kinds : KeepsKinds differ) {argument argument' : Node}
    {resolved resolved' : Bool → Resolve Expr} (h : argument.Alike differ place argument')
    (blind : ∀ p, Blind differ (resolved p) (resolved' p)) (op : String) :
    Blind differ (unary op argument resolved) (unary op argument' resolved') := by
  unfold unary
  split
  · exact (blind true).bind fun e => (blind_predicate e).bind fun _ => .pure _
  · exact blind_negative kinds h (blind false)
  · exact blind false
  · exact blind_fail _ _

/-- A choice between two values by a condition. -/
theorem blind_conditional {test test' consequent consequent' alternate alternate' : Resolve Expr}
    (ht : Blind differ test test') (hc : Blind differ consequent consequent')
    (ha : Blind differ alternate alternate') :
    Blind differ (conditional test consequent alternate)
      (conditional test' consequent' alternate') :=
  ht.bind fun e => (blind_ofExcept (.refl e.testOf)).bind fun _ => hc.bind fun _ =>
    ha.bind fun _ => .pure _

/-- Spreading a row gives the same columns. -/
theorem blind_spread {argument argument' : Node} {value value' : Resolve Expr}
    (h : argument.Alike differ place argument') (blind : Blind differ value value') :
    Blind differ (spread argument value) (spread argument' value') := by
  refine .get ?_
  intro s s' counterpart
  have values : Blind differ (value >>= spreadValue argument) (value' >>= spreadValue argument') := by
    refine blind.bind fun e => ?_
    unfold spreadValue
    split
    · exact .pure _
    · split
      · exact .pure _
      · exact .pure _
    · exact blind_fail _ _
  cases h with
  | identifier name =>
    have same : s'.spreadRow? (.identifier name) = s.spreadRow? (.identifier name) := by
      cases counterpart
      rfl
    rw [same]
    split
    · exact .pure _
    · exact values
  | _ => exact values

/-- An access leads along the same path, since its keys are not literals in this sense. -/
theorem blind_member {node node' : Node} (h : node.Alike differ place node') :
    Blind differ (member node) (member node') := by
  have found := Node.memberPath_alike node h [] none
  unfold member
  generalize node.memberPath [] none = x at found ⊢
  generalize node'.memberPath [] none = x' at found ⊢
  cases found with
  | error => exact fun _ _ _ => .error
  | @ok found found' same =>
    obtain ⟨root, path, index⟩ := found
    obtain ⟨root', rest'⟩ := found'
    obtain ⟨hrest, place', hroot⟩ := same
    cases hrest
    rw [ofExcept_ok, ofExcept_ok, pure_bind, pure_bind]
    cases hroot with
    | identifier name =>
      refine .get ?_
      rintro s _ ⟨-, -⟩
      refine (blind_ofExcept (.refl (s.access name path index))).bind fun access => ?_
      cases access with
      | expr => exact .pure _
      | number => exact blind_autoParam (.inl rfl) _ _
    | _ => exact blind_fail _ _

end Resolve

end FluentQuery
