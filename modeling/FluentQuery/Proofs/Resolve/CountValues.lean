import FluentQuery.Proofs.Resolve.LambdaPlaces
import FluentQuery.Proofs.Resolve.RowStates

/-!
# What the counts of a query are bound to

The argument of `take` or `skip` is resolved between two calls, where nothing but the parameters of the
query has a name (`Scope.Between`).  A constant becomes an automatic parameter with its value, whatever
the operators and names it is written with; a parameter of the query stays one.  `Node.knownCount` says
which value an argument is bound to; main statement: `Node.known_resolve`.
-/

namespace FluentQuery

set_option autoImplicit false

variable {names : NameSet} {s s' : Scope}

/-- A number of rows: an integer that is not negative in 64 bits. -/
def Json.IsCount : Json → Prop
  | .int n => 0 ≤ Json.wrapSigned 64 n
  | _ => False

instance : DecidablePred Json.IsCount := fun value =>
  match value with
  | .int n => inferInstanceAs (Decidable (0 ≤ Json.wrapSigned 64 n))
  | .null | .bool _ | .double _ | .str _ | .arr _ | .obj _ => isFalse id

/-- The value that an automatic parameter has. -/
def Expr.bound? (autoParams : Assoc Json) : Expr → Option Json
  | param name property none => if property.isEmpty then autoParams.find? name else none
  | _ => none

/-- Only a parameter is bound to a value. -/
theorem Expr.bound?_eq_none {e : Expr} (h : e.isParam = false) (autoParams : Assoc Json) :
    e.bound? autoParams = none := by
  cases e with
  | param => cases h
  | _ => rfl

/-! ### Between two calls -/

/-- Between two calls the parameters of the query are all that has a name, and automatic parameters are
numbered. -/
structure Scope.Between (names : NameSet) (s : Scope) : Prop where
  bindings : s.bindings = { params := names, shape := s.bindings.shape }
  numbered : s.Enumerates

namespace Scope.Between

/-- Minting binds no name and takes no value away. -/
theorem mints (h : s.Between names) (minted : s.Mints s') : s'.Between names ∧ s.Retains s' := by
  obtain ⟨numbered, retains⟩ := h.numbered.mints minted
  refine ⟨⟨?_, numbered⟩, retains⟩
  rw [minted.bindings]
  exact h.bindings

/-- Only what is known about the statement changes. -/
theorem same (h : s.Between names) (same : s.SameAutoParams s')
    (bindings : s'.bindings = { s.bindings with shape := s'.bindings.shape }) :
    s'.Between names ∧ s.Retains s' := by
  refine ⟨⟨?_, h.numbered.congr same⟩, same.retains⟩
  rw [bindings, h.bindings]

end Scope.Between

/-! ### Values of arguments -/

namespace Node

/-- The negative of a number. -/
def negative? : Node → Option Json
  | literal (.int n) => some (.int (Json.wrapSigned 64 (-(Json.wrapSigned 64 n))))
  | literal (.double x) => some (.double x.negate)
  | _ => none

/-- The value that a path leads to: that of a constant, or of an automatic parameter. -/
def pathCount (names : NameSet) (autoParams : Assoc Json) :
    Except ExprFault (Node × List String × Option Int) → Option Json
  | .ok (identifier root, path, index) =>
    if root = "Number" && !names.contains root then
      match path with
      | [name] => Assoc.find? numberConstants name
      | _ => none
    else if names.contains root && (Text.dotted path).isEmpty && index.isNone then
      autoParams.find? root
    else none
  | _ => none

theorem pathCount_of_not_number {names : NameSet} {root : String}
    (h : (root = "Number" && !names.contains root) = false) (autoParams : Assoc Json)
    (path : List String) (index : Option Int) :
    pathCount names autoParams (.ok (identifier root, path, index)) =
      if names.contains root && (Text.dotted path).isEmpty && index.isNone then autoParams.find? root
      else none := by
  unfold pathCount
  simp only [h, Bool.false_eq_true, if_false]

/-- The value that the argument of `take` or `skip` is bound to, if any. -/
def knownCount (names : NameSet) (autoParams : Assoc Json) : Node → Option Json
  | literal value => if value.isNull then none else some value
  | identifier name => if name = "undefined" then none else autoParams.find? name
  | member receiver property computed =>
    pathCount names autoParams ((member receiver property computed).memberPath [] none)
  | unary op argument =>
    if op = "+" then argument.knownCount names autoParams
    else if op = "-" then argument.negative?
    else none
  | _ => none

/-- What an argument has become is bound to its value, now and later. -/
def Known (names : NameSet) (node : Node) (e : Expr) (s : Scope) : Prop :=
  ∀ t : Scope, s.Retains t → e.bound? t.autoParams = node.knownCount names t.autoParams

/-- What is known of an argument stays true while values are kept. -/
theorem Known.retains {node : Node} {e : Expr} (h : node.Known names e s) (later : s.Retains s') :
    node.Known names e s' :=
  fun t retains => h t (later.trans retains)

/-- Of what is no parameter nothing is claimed. -/
theorem known_of_not_param {node : Node} {e : Expr} (h : e.isParam = false)
    (unknown : ∀ autoParams, node.knownCount names autoParams = none) : node.Known names e s :=
  fun _ _ => (Expr.bound?_eq_none h _).trans (unknown _).symm

end Node

/-! ### Results that are no parameters -/

namespace Resolve

/-- Work that makes something else of what it is given than a parameter. -/
abbrev Computes (work : Resolve Expr) : Prop :=
  Yields (fun e => e.isParam = false) work

/-- A comparison is no parameter. -/
theorem computes_comparison (op : ComparisonOp) (node left right : Node) (l r : Resolve Expr) :
    Computes (comparison op node left right l r) := by
  unfold comparison
  split
  · exact .fail
  split
  · split
    · exact .fail
    dsimp only
    split
    · exact .bind fun _ => .pure rfl
    · exact .bind fun _ => .pure rfl
  · exact .bind fun _ => .pure rfl

theorem computes_arithmetic (op : ArithmeticOp) (left right : Node) (l r : Resolve Expr) :
    Computes (arithmetic op left right l r) := by
  unfold arithmetic
  refine .bind fun (l, r) => .bind fun scope => ?_
  dsimp only
  split
  · exact .pure rfl
  · exact .pure rfl

/-- Neither is what an operator of two operands makes. -/
theorem computes_binary (op : String) (left right : Node) (l r : Resolve Expr) :
    Computes (binary op left right l r) := by
  unfold binary
  split
  · exact computes_comparison _ _ _ _ _ _
  · exact computes_arithmetic _ _ _ _ _
  · exact .fail

theorem computes_connective (op : LogicalOp) (l r : Resolve Expr) : Computes (connective op l r) :=
  .bind fun _ => .bind fun _ => .bind fun _ => .bind fun _ => .pure rfl

theorem computes_eitherOf (l r : Resolve Expr) : Computes (eitherOf l r) := by
  refine .bind fun l => .bind fun r => ?_
  split
  · exact .pure rfl
  · exact .bind fun _ => .bind fun _ => .pure rfl

theorem computes_logical (isPredicate : Bool) (op : String) (l r : Bool → Resolve Expr) :
    Computes (logical isPredicate op l r) := by
  unfold logical
  split
  · exact .bind fun _ => .bind fun _ => .pure rfl
  · exact computes_connective _ _ _
  · split
    · exact computes_connective _ _ _
    · exact computes_eitherOf _ _
  · exact .fail

theorem computes_conditional (test consequent alternate : Resolve Expr) :
    Computes (conditional test consequent alternate) := by
  refine .bind fun _ => .bind fun _ => .bind fun _ => .bind fun e => .pure ?_
  unfold Expr.conditional
  split <;> rfl

theorem computes_groupingCall (method : String) (arguments : List Argument) :
    Computes (groupingCall method arguments) := by
  unfold groupingCall
  split
  · split
    · exact .pure rfl
    · exact .fail
  · split
    · exact .fail
    · exact .bind fun _ => .pure rfl
    · exact .fail

theorem computes_helperCall (method : String) (arguments : List Argument) :
    Computes (helperCall method arguments) := by
  unfold helperCall
  split
  · exact .fail
  · exact .bind fun _ => .bind fun _ => .pure rfl
  · exact .fail

theorem computes_windowCall (function : WindowFunction) (window : Resolve WindowSpec) :
    Computes (windowCall function window) := by
  refine .bind fun window => ?_
  split
  · exact .fail
  · exact .pure rfl

theorem computes_textCall (function : StringMethod) (receiver : Resolve Expr)
    (arguments : List Argument) : Computes (textCall function receiver arguments) := by
  unfold textCall
  split
  · exact .bind fun _ => .pure rfl
  · exact .fail

theorem computes_textTestCall (test : TextTest) (receiver : Node) (value : Resolve Expr)
    (argument : Argument) : Computes (textTestCall test receiver value argument) := by
  unfold textTestCall
  split
  · exact .bind fun _ => .bind fun _ => .pure rfl
  · refine .bind fun target => ?_
    split
    · exact .bind fun _ => .pure rfl
    · exact .bind fun _ => .pure rfl

/-- Neither is the result of a method. -/
theorem computes_methodCall (receiver : Node) (method : String) (value : Resolve Expr)
    (window : Resolve WindowSpec) (arguments : List Argument) :
    Computes (methodCall receiver method value window arguments) := by
  refine .bind fun scope => ?_
  split
  · exact .fail
  · exact computes_groupingCall _ _
  · exact computes_helperCall _ _
  · exact computes_windowCall _ _
  · exact .fail
  · exact computes_textCall _ _ _
  · split
    · exact computes_textTestCall _ _ _ _
    · exact .fail
  · exact .fail

/-! ### Constants -/

/-- An automatic parameter is bound to the value it is made for. -/
theorem known_autoParam {value : Json} {field : String} {table : Option Int} {e : Expr} {node : Node}
    (run : autoParam value field table s = .ok e s')
    (is : ∀ autoParams, node.knownCount names autoParams = some value) : node.Known names e s' := by
  cases run
  intro t retains
  rw [is]
  exact retains.values _ _ (Assoc.find?_insert_self _ _ _)

/-- A literal is bound to its value. -/
theorem known_literal {value : Json} {peer e : Expr}
    (run : literal value peer s = .ok e s') : (Node.literal value).Known names e s' := by
  unfold literal at run
  split at run
  · cases run
    exact Node.known_of_not_param rfl fun _ => rfl
  · rename_i notNull
    have is (autoParams : Assoc Json) : (Node.literal value).knownCount names autoParams = some
      value := by
      rw [Node.knownCount, if_neg]
      cases value with
      | null => exact absurd rfl notNull
      | _ => exact Bool.false_ne_true
    split at run <;> exact known_autoParam run is

/-- A literal behind a minus sign is bound to the negation of its value. -/
theorem known_negativeLiteral {value : Json} {e : Expr}
    (run : negativeLiteral value s = .ok e s') :
    (Node.unary "-" (.literal value)).Known names e s' := by
  unfold negativeLiteral at run
  split at run
  · exact known_autoParam run fun _ => rfl
  · exact known_autoParam run fun _ => rfl
  · cases run

/-! ### Names -/

section

variable (between : s.Between names)

include between

/-- A name is null or a parameter of the query. -/
theorem known_identifier {name : String} {e : Expr} (run : identifier name s = .ok e s') :
    (Node.identifier name).Known names e s' := by
  obtain ⟨found, rfl⟩ := ofExcept_eq_ok.1 (show ofExcept (s.identifier name) s = .ok e s' from run)
  unfold Scope.identifier at found
  rw [between.bindings] at found
  dsimp only at found
  split at found
  · rename_i undefined
    cases found
    exact Node.known_of_not_param rfl fun _ => if_pos undefined
  · rename_i defined
    split at found
    · rename_i declared
      cases declared
    split at found
    · rename_i joined
      cases joined
    split at found
    · rename_i row
      cases row
    split at found
    · cases found
      intro t _
      rw [Node.knownCount, if_neg defined]
      rfl
    · cases found

/-- Between two calls a path leads to a named constant, or it starts at a parameter of the query, or
it leads to no parameter. -/
theorem access_cases {root : String} {path : List String} {index : Option Int} {found : Access}
    (access : s.access root path index = .ok found) :
    (∃ name value, path = [name] ∧ (root = "Number" && !names.contains root) = true ∧
        Assoc.find? numberConstants name = some value ∧ found = .number name value) ∨
      (root = "Number" && !names.contains root) = false ∧
        (names.contains root = true ∧ found = .expr (.param root (Text.dotted path) index) ∨
          names.contains root = false ∧ ∃ e : Expr, e.isParam = false ∧ found = .expr e) := by
  unfold Scope.access at access
  rw [between.bindings] at access
  dsimp only at access
  split at access
  · cases access
  rename_i first rest
  split at access
  · cases access
  have only : ({ params := names, shape := s.bindings.shape } : Bindings).binds root =
      (names.contains root || decide (root = "")) := by
    simp [Bindings.binds]
  have number :
      (root = "Number" && !({ params := names, shape := s.bindings.shape } : Bindings).binds root) =
        (root = "Number" && !names.contains root) := by
    rw [only]
    by_cases h : root = "Number"
    · subst h
      simp
    · simp [h]
  rw [number] at access
  split at access
  · rename_i h
    cases h
  split at access
  · rename_i isNumber
    split at access
    · rename_i value heq
      cases access
      exact .inl ⟨first, value, rfl, isNumber, heq, rfl⟩
    · cases access
  rename_i notNumber
  refine .inr ⟨by simpa using notNumber, ?_⟩
  split at access
  · rename_i h
    cases h
  split at access
  · rename_i declared
    cases access
    exact .inl ⟨declared, rfl⟩
  · rename_i undeclared
    refine .inr ⟨by simpa using undeclared, ?_⟩
    split at access
    · rename_i h
      cases h
    split at access
    · rename_i h
      cases h
    split at access
    · cases access
      exact ⟨_, rfl, rfl⟩
    split at access <;> cases access

/-- An access is one to a parameter of the query, or a constant of numbers. -/
theorem known_member {receiver property : Node} {computed : Bool} {e : Expr}
    (run : member (.member receiver property computed) s = .ok e s') :
    (Node.member receiver property computed).Known names e s' := by
  unfold member at run
  obtain ⟨⟨node, path, index⟩, t, first, rest⟩ := bind_eq_ok.1 run
  obtain ⟨leads, rfl⟩ := ofExcept_eq_ok.1 first
  cases node with
  | identifier root =>
    obtain ⟨found, t, second, rest⟩ := bind_eq_ok.1
      (show (ofExcept (t.access root path index) >>= fun found => _) t = .ok e s' from rest)
    obtain ⟨access, rfl⟩ := ofExcept_eq_ok.1 second
    have is (autoParams : Assoc Json) :
        (Node.member receiver property computed).knownCount names autoParams =
          Node.pathCount names autoParams (.ok (.identifier root, path, index)) := by
      rw [Node.knownCount, leads]
    rcases access_cases between access with ⟨name, value, rfl, isNumber, constant, rfl⟩ |
      ⟨notNumber, ⟨declared, rfl⟩ | ⟨undeclared, e', notParam, rfl⟩⟩
    · refine known_autoParam rest fun autoParams => ?_
      rw [is, Node.pathCount, if_pos isNumber]
      exact constant
    · cases rest
      intro u _
      rw [is, Node.pathCount_of_not_number notNumber, declared]
      cases index with
      | none => simp [Expr.bound?]
      | some i => simp [Expr.bound?]
    · cases rest
      refine Node.known_of_not_param notParam fun autoParams => ?_
      rw [is, Node.pathCount_of_not_number notNumber, undeclared]
      rfl
  | _ => cases rest

end

end Resolve

/-- What the argument of `take` or `skip` becomes is bound to its value. -/
theorem Node.known_resolve (between : s.Between names) (node : Node) (e : Expr) (s' : Scope)
    (run : node.resolve false s = .ok e s') : node.Known names e s' := by
  cases node with
  | identifier =>
    rw [Node.resolve] at run
    exact Resolve.known_identifier between run
  | literal =>
    rw [Node.resolve] at run
    exact Resolve.known_literal run
  | member =>
    rw [Node.resolve] at run
    exact Resolve.known_member between run
  | unary op argument =>
    rw [Node.resolve] at run
    have argued := Node.known_resolve between argument e s'
    unfold Resolve.unary at run
    split at run
    · have negates : Resolve.Computes (Resolve.negation (argument.resolve true)) :=
        .bind fun _ => .bind fun _ => .pure rfl
      exact known_of_not_param (negates s e s' run) fun _ => rfl
    · unfold Resolve.negative at run
      split at run
      · exact Resolve.known_negativeLiteral run
      · rename_i notLiteral
        obtain ⟨value, t, -, rest⟩ := bind_eq_ok.1 run
        cases rest
        refine known_of_not_param rfl fun _ => ?_
        cases argument with
        | literal value => exact absurd rfl (notLiteral value)
        | _ => rfl
    · exact argued run
    · cases run
  | binary =>
    rw [Node.resolve] at run
    exact known_of_not_param (Resolve.computes_binary _ _ _ _ _ s e s' run) fun _ => rfl
  | logical =>
    rw [Node.resolve] at run
    exact known_of_not_param (Resolve.computes_logical _ _ _ _ s e s' run) fun _ => rfl
  | conditional =>
    rw [Node.resolve] at run
    exact known_of_not_param (Resolve.computes_conditional _ _ _ s e s' run) fun _ => rfl
  | object =>
    rw [Node.resolve] at run
    obtain ⟨members, -, rfl⟩ := map_eq_ok.1 run
    exact known_of_not_param rfl fun _ => rfl
  | array =>
    rw [Node.resolve] at run
    obtain ⟨es, -, rfl⟩ := map_eq_ok.1 run
    exact known_of_not_param rfl fun _ => rfl
  | call callee arguments =>
    cases callee with
    | member receiver property computed =>
      rw [Node.resolve] at run
      exact known_of_not_param (Resolve.computes_methodCall _ _ _ _ _ s e s' run) fun _ => rfl
    | _ =>
      rw [Node.resolve] at run
      · cases run
      all_goals simp
  | arrow | block | returnStatement =>
    rw [Node.resolve] at run
    cases run

end FluentQuery
