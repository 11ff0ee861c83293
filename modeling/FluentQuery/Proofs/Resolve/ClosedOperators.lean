import FluentQuery.Proofs.Resolve.ClosedNames

/-!
# Operators resolve to closed expressions

Each operator is given the work on its operands.  If that work is tidy and yields closed
expressions, so is the work of the operator; the order in which an operator resolves its operands
does not matter, because a closed expression stays closed while parameters are added.
-/

namespace FluentQuery

set_option autoImplicit false

namespace Resolve

open FluentQuery.Expr

variable {v : Vocabulary} {s : Scope}

/-! ### Literals and names -/

/-- A value is put into a new parameter, which is an automatic one from then on. -/
theorem tidy_autoParam (value : Json) (fieldName : String) (sourceTable : Option Int) :
    Tidy v (closed v) (autoParam value fieldName sourceTable) := by
  intro s within
  have minted : s.Mints (s.addAutoParam value fieldName sourceTable).2 :=
    (Scope.Mints.refl s).mint value fieldName sourceTable
  refine ⟨minted, within.mono minted, (every_param _ _ _).2 (.inr ⟨rfl, rfl, ?_⟩)⟩
  rw [← Assoc.find?_isSome_iff_mem_keys]
  simp

/-- A literal is null or a new parameter. -/
theorem tidy_literal (value : Json) (peer : Expr) :
    Tidy v (closed v) (literal value peer) := by
  intro s within
  unfold literal
  split
  · exact .pure within ((every_constant _).2 trivial)
  · split
    · exact tidy_autoParam _ _ _ s within
    · exact tidy_autoParam _ _ _ s within

theorem tidy_negativeLiteral (value : Json) :
    Tidy v (closed v) (negativeLiteral value) := by
  intro s within
  unfold negativeLiteral
  split
  · exact tidy_autoParam _ _ _ s within
  · exact tidy_autoParam _ _ _ s within
  · exact .fail

/-- What a name stands for is known to the vocabulary. -/
theorem tidy_identifier (name : String) :
    Tidy v (closed v) (identifier name) := by
  intro s within
  refine .get (.ofExcept within ?_)
  intro e he
  exact Scope.closed_identifier within he

/-- An access names what its root does, and a constant of numbers is a new parameter. -/
theorem tidy_member (node : Node) : Tidy v (closed v) (member node) := by
  intro s within
  unfold member
  have path : TidyAt v s (fun _ _ => True) (ofExcept (node.memberPath [] none)) :=
    .ofExcept within fun _ _ => trivial
  refine path.bind ?_
  intro found s₁ _ within₁ _
  split
  · rename_i root path index
    refine .get ?_
    have target : TidyAt v s₁ (fun access s' => ∀ e, access = .expr e → e.Closed v s')
        (ofExcept (s₁.access root path index)) := by
      refine .ofExcept within₁ ?_
      rintro access haccess e rfl
      exact Scope.closed_access within₁ haccess
    refine target.bind ?_
    intro access s₂ _ within₂ haccess
    split
    · exact .pure within₂ (haccess _ rfl)
    · exact tidy_autoParam _ _ _ s₂ within₂
  · exact .fail

/-! ### Operands -/

/-- An operand is a literal or is resolved by itself. -/
theorem tidy_operand {node : Node} {peer : Expr} {resolved : Resolve Expr}
    (h : Tidy v (closed v) resolved) :
    Tidy v (closed v) (operand node peer resolved) := by
  unfold operand
  split
  · exact tidy_literal _ _
  · exact h

/-- Two results that are both closed. -/
def bothClosed (v : Vocabulary) (es : Expr × Expr) (s : Scope) : Prop :=
  es.1.Closed v s ∧ es.2.Closed v s

/-- Tidy work on two operands, one after the other, gives two closed results. -/
theorem TidyAt.two {first second : Resolve Expr} {next : Expr → Expr → Resolve Expr}
    (within : s.Within v) (h : Tidy v (closed v) first)
    (h' : Tidy v (closed v) second)
    (rest : ∀ l r s', s'.Within v → l.Closed v s' → r.Closed v s' →
      TidyAt v s' (closed v) (next l r)) :
    TidyAt v s (closed v) (first >>= fun l => second >>= fun r => next l r) := by
  refine .bind (h s within) ?_
  intro l s₁ _ within₁ hl
  refine .bind (h' s₁ within₁) ?_
  intro r s₂ minted₂ within₂ hr
  exact rest l r s₂ within₂ (Expr.Closed.mono hl minted₂) hr

/-- The operand that is resolved first stays closed while the other one is resolved. -/
theorem tidy_operands {left right : Node} {leftValue rightValue : Resolve Expr}
    (hl : Tidy v (closed v) leftValue)
    (hr : Tidy v (closed v) rightValue) :
    Tidy v (bothClosed v) (operands left right leftValue rightValue) := by
  intro s within
  unfold operands
  split
  · refine .bind (hr s within) ?_
    intro r s₁ _ within₁ hr₁
    refine .bind (tidy_operand hl s₁ within₁) ?_
    intro l s₂ minted₂ within₂ hl₂
    exact .pure within₂ ⟨hl₂, Expr.Closed.mono hr₁ minted₂⟩
  · refine .bind (hl s within) ?_
    intro l s₁ _ within₁ hl₁
    refine .bind (tidy_operand hr s₁ within₁) ?_
    intro r s₂ minted₂ within₂ hr₂
    exact .pure within₂ ⟨Expr.Closed.mono hl₁ minted₂, hr₂⟩

/-- A condition names what the expression does. -/
theorem TidyAt.predicate {e : Expr} (within : s.Within v) (h : e.Closed v s) :
    TidyAt v s (closed v) (predicate e) :=
  .ofExcept within fun _ he => h.toBoolean he

/-! ### Operators -/

section

variable {leftValue rightValue : Resolve Expr} (hl : Tidy v (closed v) leftValue)
  (hr : Tidy v (closed v) rightValue)

include hl hr

/-- A comparison with null names what its other operand does. -/
theorem tidy_comparison (op : ComparisonOp) (node left right : Node) :
    Tidy v (closed v) (comparison op node left right leftValue rightValue) := by
  intro s within
  unfold comparison
  split
  · exact .fail
  split
  · split
    · exact .fail
    · split
      · refine .bind (hr s within) ?_
        intro e s₁ _ within₁ he
        exact .pure within₁ ((every_isNull _ _).2 ⟨trivial, he⟩)
      · refine .bind (hl s within) ?_
        intro e s₁ _ within₁ he
        exact .pure within₁ ((every_isNull _ _).2 ⟨trivial, he⟩)
  · refine .bind (tidy_operands hl hr s within) ?_
    rintro ⟨l, r⟩ s₁ _ within₁ both
    exact .pure within₁ ((every_comparison _ _ _).2 ⟨trivial, both⟩)

theorem tidy_arithmetic (op : ArithmeticOp) (left right : Node) :
    Tidy v (closed v) (arithmetic op left right leftValue rightValue) := by
  intro s within
  unfold arithmetic
  refine .bind (tidy_operands hl hr s within) ?_
  rintro ⟨l, r⟩ s₁ _ within₁ both
  refine .get ?_
  dsimp only
  split
  · exact .pure within₁ ((every_concat _ _).2 ⟨trivial, both⟩)
  · exact .pure within₁ ((every_arithmetic _ _ _).2 ⟨trivial, both⟩)

theorem tidy_binary (op : String) (left right : Node) :
    Tidy v (closed v) (binary op left right leftValue rightValue) := by
  unfold binary
  split
  · exact tidy_comparison hl hr _ _ _ _
  · exact tidy_arithmetic hl hr _ _ _
  · exact fun _ _ => .fail

theorem tidy_connective (op : LogicalOp) :
    Tidy v (closed v) (connective op leftValue rightValue) := by
  intro s within
  unfold connective
  refine .bind (hl s within) ?_
  intro l s₁ _ within₁ hl₁
  refine .bind (.predicate within₁ hl₁) ?_
  intro l' s₂ _ within₂ hl₂
  refine .bind (hr s₂ within₂) ?_
  intro r s₃ minted₃ within₃ hr₃
  refine .bind (.predicate within₃ hr₃) ?_
  intro r' s₄ minted₄ within₄ hr₄
  refine .pure within₄ ((every_logical _ _ _).2 ⟨trivial, ?_, hr₄⟩)
  exact Expr.Closed.mono (Expr.Closed.mono hl₂ minted₃) minted₄

/-- Both operands are resolved before it is known what becomes of them. -/
theorem tidy_eitherOf : Tidy v (closed v) (eitherOf leftValue rightValue) := by
  intro s within
  refine .two within hl hr ?_
  intro l r s₁ within₁ hl₁ hr₁
  split
  · refine .pure within₁ ((every_coalesce _).2 ⟨trivial, ?_⟩)
    intro e he
    rcases List.mem_cons.1 he with rfl | he
    · exact hl₁
    · rw [List.mem_singleton.1 he]
      exact hr₁
  · refine .bind (.predicate within₁ hr₁) ?_
    intro r' s₂ minted₂ within₂ hr₂
    refine .bind (.predicate within₂ (hl₁.mono minted₂)) ?_
    intro l' s₃ minted₃ within₃ hl₃
    exact .pure within₃ ((every_logical _ _ _).2 ⟨trivial, hl₃, Expr.Closed.mono hr₂ minted₃⟩)

theorem tidy_nullish : Tidy v (closed v) (nullish leftValue rightValue) := by
  intro s within
  refine .two within hl hr ?_
  intro l r s₁ within₁ hl₁ hr₁
  exact .pure within₁ (hl₁.firstOf hr₁)

end

/-- Operands are resolved as conditions or as values, as the operator wants them. -/
theorem tidy_logical {left right : Bool → Resolve Expr}
    (hl : ∀ p, Tidy v (closed v) (left p))
    (hr : ∀ p, Tidy v (closed v) (right p)) (isPredicate : Bool) (op : String) :
    Tidy v (closed v) (logical isPredicate op left right) := by
  unfold logical
  split
  · exact tidy_nullish (hl false) (hr false)
  · exact tidy_connective (hl true) (hr true) _
  · split
    · exact tidy_connective (hl true) (hr true) _
    · exact tidy_eitherOf (hl false) (hr false)
  · exact fun _ _ => .fail

theorem tidy_unary {resolved : Bool → Resolve Expr}
    (h : ∀ p, Tidy v (closed v) (resolved p)) (op : String) (argument : Node) :
    Tidy v (closed v) (unary op argument resolved) := by
  intro s within
  unfold unary
  split
  · refine .bind (h true s within) ?_
    intro e s₁ _ within₁ he
    refine .bind (.predicate within₁ he) ?_
    intro e' s₂ _ within₂ he'
    exact .pure within₂ ((every_negation _).2 ⟨trivial, he'⟩)
  · unfold negative
    split
    · exact tidy_negativeLiteral _ s within
    · refine .bind (h false s within) ?_
      intro e s₁ _ within₁ he
      refine .pure within₁ ((every_arithmetic _ _ _).2 ⟨trivial, ?_, he⟩)
      exact (every_constant _).2 trivial
  · exact h false s within
  · exact .fail

/-- The test and both results are resolved, one after the other. -/
theorem tidy_conditional {test consequent alternate : Resolve Expr}
    (ht : Tidy v (closed v) test) (hc : Tidy v (closed v) consequent)
    (ha : Tidy v (closed v) alternate) :
    Tidy v (closed v) (conditional test consequent alternate) := by
  intro s within
  unfold conditional
  refine .bind (ht s within) ?_
  intro t s₁ _ within₁ ht₁
  have tested : TidyAt v s₁ (closed v) (ofExcept t.testOf) :=
    .ofExcept within₁ fun _ he => Expr.Closed.testOf ht₁ he
  refine tested.bind ?_
  intro t' s₂ _ within₂ ht₂
  refine .bind (hc s₂ within₂) ?_
  intro c s₃ minted₃ within₃ hc₃
  refine .bind (ha s₃ within₃) ?_
  intro a s₄ minted₄ within₄ ha₄
  have ht₄ := Expr.Closed.mono (Expr.Closed.mono ht₂ minted₃) minted₄
  exact .pure within₄ (ht₄.conditional (Expr.Closed.mono hc₃ minted₄) ha₄)

/-! ### Projections -/

/-- What is spread names the row, or what the object did. -/
theorem tidy_spread {argument : Node} {value : Resolve Expr}
    (h : Tidy v (closed v) value) :
    Tidy v (membersClosed v) (spread argument value) := by
  intro s within
  unfold spread
  refine .get ?_
  split
  · rename_i e he
    refine .pure within ?_
    intro m hm
    rw [List.mem_singleton.1 hm]
    exact Scope.closed_spreadRow? within he
  · refine .bind (h s within) ?_
    intro e s₁ _ within₁ he
    unfold spreadValue
    split
    · exact .pure within₁ ((every_object _).1 he).2
    · split
      · rename_i source _ _ index hindex
        refine .pure within₁ ?_
        intro m hm
        rw [List.mem_singleton.1 hm]
        have known : v.Knows source := (every_reference _ _).1 he
        exact (every_reference _ _).2 (Vocabulary.knows_spread.2 (known index hindex))
      · refine .pure within₁ ?_
        intro m hm
        rw [List.mem_singleton.1 hm]
        exact every_allColumns.2 trivial
    · exact .fail

end Resolve

end FluentQuery
