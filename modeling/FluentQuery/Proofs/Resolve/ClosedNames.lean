import FluentQuery.Proofs.Resolve.Minting

/-!
# Names and operators resolve to closed expressions

What an identifier, a member path or an operator contributes to an expression is closed when its
operands are.  The work on the operands is given, as it is to the operators themselves, together
with the fact that it is tidy.
-/

namespace FluentQuery

set_option autoImplicit false

namespace Expr

variable {v : Vocabulary} {s : Scope} {e e' l r : Expr}

/-! ### Expressions made from others -/

/-- Read as a condition, an expression names what it did before. -/
theorem Closed.toBoolean (h : e.Closed v s) (he : e.toBoolean = .ok e') :
    e'.Closed v s := by
  unfold Expr.toBoolean at he
  split at he
  · cases he
    exact h
  · split at he <;> cases he
    · exact (every_booleanColumn _ _ _).2 ((every_column _ _ _).1 h)
    · simp only [Closed, every_param, every_booleanParam, Known] at h ⊢
      rcases h with hd | ⟨hp, -, ha⟩
      · exact .inl hd
      · exact .inr ⟨hp, ha⟩

/-- The test of a choice names what the expression does. -/
theorem Closed.testOf (h : e.Closed v s) (he : e.testOf = .ok e') :
    e'.Closed v s := by
  unfold Expr.testOf at he
  split at he
  · cases he
    exact (every_isNull _ _).2 ⟨trivial, h⟩
  · exact h.toBoolean he

/-- The alternatives of an expression are closed with it. -/
theorem Closed.alternatives (h : e.Closed v s) :
    ∀ a ∈ e.alternatives, a.Closed v s := by
  unfold Expr.alternatives
  split
  · exact ((every_coalesce _).1 h).2
  · simpa using h

theorem Closed.firstOf (hl : l.Closed v s) (hr : r.Closed v s) :
    (l.firstOf r).Closed v s := by
  refine (every_coalesce _).2 ⟨trivial, ?_⟩
  intro a ha
  rcases List.mem_append.1 ha with hm | hm
  · exact hl.alternatives a hm
  · exact hr.alternatives a hm

/-- A choice names what its test and both results do. -/
theorem Closed.conditional {test : Expr} (ht : test.Closed v s) (hl : l.Closed v s)
    (hr : r.Closed v s) : (conditional test l r).Closed v s := by
  unfold Expr.conditional
  split
  · obtain ⟨-, hconditions, helse⟩ := (every_caseWhen _ _).1 hr
    refine (every_caseWhen _ _).2 ⟨trivial, ?_, helse⟩
    intro c hc
    rcases List.mem_cons.1 hc with rfl | hmem
    · exact ⟨ht, hl⟩
    · exact hconditions c hmem
  · refine (every_caseWhen _ _).2 ⟨trivial, ?_, hr⟩
    intro c hc
    rw [List.mem_singleton.1 hc]
    exact ⟨ht, hl⟩

/-- The property that is looked up is closed, or missing. -/
theorem closed_findProperty {properties : List (String × Expr)}
    (h : ∀ m ∈ properties, m.2.Closed v s) (key : String) :
    (findProperty properties key).Closed v s := by
  induction properties with
  | nil => exact every_absent
  | cons m rest ih =>
    obtain ⟨name, value⟩ := m
    unfold findProperty
    split
    · exact h _ (List.mem_cons_self ..)
    · exact ih fun m hm => h m (List.mem_cons_of_mem _ hm)

end Expr

/-! ### What names stand for -/

namespace Scope

open FluentQuery.Expr (every_param every_object)

variable {v : Vocabulary} {s : Scope}

/-- A name stands for a known row, a known shape or a known parameter. -/
theorem closed_identifier (within : s.Within v) {name : String} {e : Expr}
    (h : s.identifier name = .ok e) : e.Closed v s := by
  unfold Scope.identifier at h
  simp only at h
  split at h
  · cases h
    simp [Expr.Closed, Expr.Known]
  split at h
  · cases h
    simp [Expr.Closed, Expr.Known]
  split at h
  · rename_i index hjoin
    cases h
    simpa [Expr.Closed, Expr.Known] using within.bindings.joins name index hjoin
  split at h
  -- A row of a known shape stands for the object of its members.
  · split at h
    · rename_i shape hshape
      cases h
      have known := within.bindings.shape shape hshape
      exact (every_object _).2 ⟨trivial, Expr.known_ofShape _ known⟩
    · cases h
      simp [Expr.Closed, Expr.Known]
  split at h
  · rename_i hparam
    cases h
    exact (every_param _ _ _).2 (.inl (within.bindings.params name (by simpa using hparam)))
  split at h <;> cases h

/-- An access to a group leads to the key that is closed, or into it. -/
theorem closed_groupingAccess (within : s.Within v) {root first : String}
    {rest : List String} {e : Expr} (h : s.groupingAccess root first rest = .ok e) :
    e.Closed v s := by
  unfold Scope.groupingAccess at h
  split at h
  · cases h
  · split at h
    · cases h
      exact within.groupKey
    · rename_i properties hkey
      have members : ∀ m ∈ properties, m.2.Closed v s := by
        have key := within.groupKey
        rw [hkey] at key
        exact ((every_object _).1 key).2
      split at h
      · cases h
      · cases h
        exact Expr.closed_findProperty members _
    · cases h

/-- A path leads through a known shape to columns of known tables. -/
theorem closed_shapePath {path : List String} {node : Option Shape} {walked rest : List String}
    {e : Expr} (known : ∀ shape, node = some shape → shape.Over v.tables)
    (h : shapePath path node walked rest = .ok e) : e.Closed v s := by
  fun_induction shapePath path node walked rest with
  | case1 => cases h; simp [Expr.Closed, Expr.Known]
  | case2 => cases h; simpa [Expr.Closed, Expr.Known, Shape.Over] using known _ rfl
  | case3 properties _ _ _ ih =>
    have fields : Shape.OverAll v.tables properties := known _ rfl
    exact ih (fun _ found => fields.lookup found) h
  | case4 => cases h
  | case5 => cases h
  | case6 _ _ _ he => cases h; exact Expr.known_ofShapeNode _ _ (known _ rfl) he
  | case7 => cases h

/-- What a spread row contributes. -/
theorem closed_spreadRow? (within : s.Within v) {node : Node} {e : Expr}
    (h : s.spreadRow? node = some e) : e.Closed v s := by
  unfold Scope.spreadRow? at h
  split at h
  · split at h
    · cases h
      exact Expr.every_allColumns.2 trivial
    · obtain ⟨index, hjoin, rfl⟩ := Option.map_eq_some_iff.1 h
      simpa [Expr.Closed, Expr.Known] using within.bindings.joins _ index hjoin
  · cases h

/-- What a member path leads to: an expression that is closed, or a named constant. -/
theorem closed_access (within : s.Within v) {root : String} {path : List String}
    {index : Option Int} {e : Expr} (h : s.access root path index = .ok (.expr e)) :
    e.Closed v s := by
  unfold Scope.access at h
  simp only at h
  split at h
  · cases h
  rename_i first rest
  split at h
  · cases h
  split at h
  · split at h <;> cases h
    simp [Expr.Closed, Expr.Known]
  split at h
  · split at h <;> cases h
  split at h
  · obtain ⟨e', he, hexpr⟩ := outcome_map_eq_ok.1 h
    cases hexpr
    exact closed_groupingAccess within he
  split at h
  · rename_i hparam
    cases h
    exact (every_param _ _ _).2 (.inl (within.bindings.params root (by simpa using hparam)))
  split at h
  · rename_i shape hshape
    obtain ⟨e', he, hexpr⟩ := outcome_map_eq_ok.1 h
    cases hexpr
    have known : Shape.OverAll v.tables shape := by
      split at hshape
      · exact within.bindings.shape shape hshape
      · cases hshape
    exact closed_shapePath (fun _ found => known.lookup found) he
  split at h
  · rename_i table hjoin
    cases h
    simpa [Expr.Closed, Expr.Known] using within.bindings.joins root table hjoin
  split at h
  · cases h
    simp [rowColumn, Expr.Closed, Expr.Known]
  split at h <;> cases h

end Scope

end FluentQuery
