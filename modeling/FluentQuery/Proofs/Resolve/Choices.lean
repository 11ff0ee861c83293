import FluentQuery.Resolve.Expr

/-!
# Conditionals and null coalescing

A conditional whose alternative is a conditional becomes one list of conditions, and the operands of
`??` become one list of alternatives, however they are nested.  `Choice` is the tree of choices a
body makes before any of this happens, and is evaluated a node at a time; what the body resolves to
is evaluated by going through its list.  Main statement: `Node.resolve_choices`, that the two
agree under every interpretation of the expressions that are chosen between.
-/

namespace FluentQuery

set_option autoImplicit false

/-- A meaning of the expressions that choices are made of: which tests hold, and which values the
others have.  Null is `none`. -/
structure Choosing (V : Type) where
  holds : Expr → Bool
  value : Expr → Option V

/-! ### What is flattened -/

namespace Expr

/-- The conditions of a case, in their order. -/
def branches : Expr → List (Expr × Expr)
  | caseWhen conditions _ => conditions
  | _ => []

/-- What a case comes to when none of its conditions holds. -/
def otherwise : Expr → Expr
  | caseWhen _ elseResult => elseResult
  | e => e

theorem conditional_eq_caseWhen (test consequent alternate : Expr) :
    conditional test consequent alternate =
      caseWhen ((test, consequent) :: alternate.branches) alternate.otherwise := by
  cases alternate <;> rfl

end Expr

/-! ### The value of a flattened expression -/

section

variable {V : Type} (I : Choosing V)

mutual

/-- The value of an expression: that of the first condition that holds, or of the first alternative
that is not null, and what the interpretation says about everything else. -/
def Expr.yield : Expr → Option V
  | .absent => none
  | .caseWhen conditions elseResult =>
    (Expr.yieldWhen conditions).getD elseResult.yield
  | .coalesce alternatives => Expr.yieldFirst alternatives
  | e => I.value e

/-- The value for the first condition that holds, if one does. -/
def Expr.yieldWhen : List (Expr × Expr) → Option (Option V)
  | [] => none
  | (test, result) :: rest => if I.holds test then some result.yield else Expr.yieldWhen rest

/-- The first value that is not null. -/
def Expr.yieldFirst : List Expr → Option V
  | [] => none
  | e :: rest => e.yield <|> Expr.yieldFirst rest

end

namespace Expr

theorem yieldFirst_append (front back : List Expr) :
    yieldFirst I (front ++ back) = (yieldFirst I front <|> yieldFirst I back) := by
  induction front with
  | nil => simp [yieldFirst]
  | cons e rest ih =>
    show (e.yield I <|> yieldFirst I (rest ++ back)) = _
    rw [ih, yieldFirst]
    cases e.yield I <;> rfl

/-- The alternatives of an expression have its value between them. -/
theorem yieldFirst_alternatives (e : Expr) : yieldFirst I e.alternatives = e.yield I := by
  cases e with
  | coalesce alternatives => rfl
  | _ =>
    show (_ <|> none) = _
    simp

theorem yield_firstOf (left right : Expr) :
    (left.firstOf right).yield I = (left.yield I <|> right.yield I) := by
  show yieldFirst I (left.alternatives ++ right.alternatives) = _
  rw [yieldFirst_append, yieldFirst_alternatives, yieldFirst_alternatives]

/-- A case is read by its conditions and by what is left when none holds. -/
theorem yieldWhen_branches (e : Expr) :
    (yieldWhen I e.branches).getD (e.otherwise.yield I) = e.yield I := by
  cases e <;> rfl

theorem yield_conditional (test consequent alternate : Expr) :
    (conditional test consequent alternate).yield I =
      if I.holds test then consequent.yield I else alternate.yield I := by
  rw [conditional_eq_caseWhen, yield, yieldWhen, ← yieldWhen_branches I alternate]
  split <;> rfl

end Expr

end

/-! ### The value of the nested choices -/

/-- A tree of choices between expressions. -/
inductive Choice where
  /-- No choice. -/
  | of (e : Expr)
  | conditional (test : Expr) (consequent alternate : Choice)
  | nullish (left right : Choice)

namespace Choice

/-- The value that a tree of choices leads to. -/
def value {V : Type} (I : Choosing V) : Choice → Option V
  | of e => e.yield I
  | conditional test consequent alternate =>
    if I.holds test then consequent.value I else alternate.value I
  | nullish left right => left.value I <|> right.value I

/-- The expression that a tree of choices is flattened to. -/
def flatten : Choice → Expr
  | of e => e
  | conditional test consequent alternate =>
    Expr.conditional test consequent.flatten alternate.flatten
  | nullish left right => left.flatten.firstOf right.flatten

/-- Flattening keeps the value. -/
theorem yield_flatten {V : Type} (I : Choosing V) (c : Choice) :
    c.flatten.yield I = c.value I := by
  induction c with
  | of e => rfl
  | conditional test consequent alternate ihConsequent ihAlternate =>
    rw [flatten, Expr.yield_conditional, ihConsequent, ihAlternate, value]
  | nullish left right ihLeft ihRight =>
    rw [flatten, Expr.yield_firstOf, ihLeft, ihRight, value]

/-- The conditions of a conditional and of those in its alternative, in their order. -/
def branches : Choice → List (Expr × Expr)
  | of e => e.branches
  | conditional test consequent alternate => (test, consequent.flatten) :: alternate.branches
  | nullish _ _ => []

/-- What is left when none of the conditions holds. -/
def otherwise : Choice → Expr
  | of e => e.otherwise
  | conditional _ _ alternate => alternate.otherwise
  | nullish left right => left.flatten.firstOf right.flatten

theorem branches_flatten (c : Choice) : c.flatten.branches = c.branches := by
  induction c with
  | of e => rfl
  | conditional test consequent alternate _ ih =>
    rw [flatten, Expr.conditional_eq_caseWhen, branches, ← ih]
    rfl
  | nullish left right => rfl

theorem otherwise_flatten (c : Choice) : c.flatten.otherwise = c.otherwise := by
  induction c with
  | of e => rfl
  | conditional test consequent alternate _ ih =>
    rw [flatten, Expr.conditional_eq_caseWhen, otherwise, ← ih]
    rfl
  | nullish left right => rfl

/-- Conditionals that are nested in alternatives make one list of conditions. -/
theorem flatten_conditional (test : Expr) (consequent alternate : Choice) :
    (conditional test consequent alternate).flatten =
      .caseWhen ((test, consequent.flatten) :: alternate.branches) alternate.otherwise := by
  rw [flatten, Expr.conditional_eq_caseWhen, branches_flatten, otherwise_flatten]

/-- The alternatives between which nested `??` choose, from left to right. -/
def parts : Choice → List Expr
  | nullish left right => left.parts ++ right.parts
  | c => c.flatten.alternatives

theorem alternatives_flatten (c : Choice) : c.flatten.alternatives = c.parts := by
  induction c with
  | nullish left right ihLeft ihRight =>
    show left.flatten.alternatives ++ right.flatten.alternatives = _
    rw [ihLeft, ihRight, parts]
  | _ => rfl

/-- Nested `??` make one list of alternatives. -/
theorem flatten_nullish (left right : Choice) :
    (nullish left right).flatten = .coalesce (left.parts ++ right.parts) := by
  show Expr.coalesce (left.flatten.alternatives ++ right.flatten.alternatives) = _
  rw [alternatives_flatten, alternatives_flatten]

end Choice

/-! ### What bodies resolve to -/

/-- The choices that a node makes, its tests and what it chooses between resolved in the order in
which they are written. -/
def Node.choices (isPredicate : Bool) : Node → Resolve Choice
  | .conditional test consequent alternate => do
    let test ← Resolve.ofExcept (← test.resolve true).testOf
    let consequent ← consequent.choices false
    let alternate ← alternate.choices false
    return .conditional test consequent alternate
  | .logical op left right =>
    if op = "??" then do
      let l ← left.choices false
      let r ← right.choices false
      return .nullish l r
    else Choice.of <$> (Node.logical op left right).resolve isPredicate
  | node => Choice.of <$> node.resolve isPredicate

/-- A body resolves to its choices, flattened. -/
theorem Node.resolve_eq_flatten (isPredicate : Bool) (node : Node) :
    node.resolve isPredicate = Choice.flatten <$> node.choices isPredicate := by
  have leaf (work : Resolve Expr) : work = Choice.flatten <$> (Choice.of <$> work) := by
    rw [Functor.map_map]
    exact (id_map work).symm
  fun_induction Node.choices isPredicate node with
  | case1 isPredicate test consequent alternate ihConsequent ihAlternate =>
    rw [Node.resolve, ihConsequent, ihAlternate]
    simp [Resolve.conditional, Choice.flatten]
  | case2 isPredicate left right ihLeft ihRight =>
    rw [Node.resolve]
    show Resolve.nullish (left.resolve false) (right.resolve false) = _
    rw [ihLeft, ihRight]
    simp [Resolve.nullish, Choice.flatten]
  | case3 | case4 => exact leaf _

/-- Flattening preserves meaning: a body resolves to its choices, flattened, and whatever its tests
and the values it chooses between mean, it has the value that the choices lead to. -/
theorem Node.resolve_choices (isPredicate : Bool) (node : Node) :
    node.resolve isPredicate = Choice.flatten <$> node.choices isPredicate ∧
      ∀ (V : Type) (I : Choosing V),
        Expr.yield I <$> node.resolve isPredicate =
          Choice.value I <$> node.choices isPredicate := by
  constructor
  · exact node.resolve_eq_flatten isPredicate
  · intro V I
    rw [node.resolve_eq_flatten isPredicate, Functor.map_map]
    congr 1
    funext c
    exact c.yield_flatten I

end FluentQuery
