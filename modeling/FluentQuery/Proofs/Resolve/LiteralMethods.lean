import FluentQuery.Proofs.Resolve.LiteralBodies

/-!
# Methods whose arguments differ in literals

On the same query and in scopes that are alike, a method whose arguments differ only in literals fails
on both sides or gives the same query.
-/

namespace FluentQuery

set_option autoImplicit false

variable {differ : Json → Json → Prop}

/-- Arguments correspond one by one, so that both calls pass or fail a check of their number. -/
theorem Node.AlikeList.length_eq : ∀ {nodes nodes' : List Node} {first rest : Place},
    Node.AlikeList differ first rest nodes nodes' → nodes.length = nodes'.length
  | _, _, _, _, .nil => rfl
  | _, _, _, _, .cons _ hs => congrArg (· + 1) hs.length_eq

/-- The value of a lambda's body, if it has one, is alike. -/
theorem Node.lambdaBody_alike {place : Place} {body body' : Node} (h : body.Alike differ place body') :
    Agree (fun value value' => ∃ place, value.Alike differ place value') body.lambdaBody
      body'.lambdaBody := by
  have whole := h
  cases h with
  | block hs =>
    cases hs with
    | nil => exact .error
    | cons h hs =>
      cases h with
      | returnValue h =>
        cases hs with
        | nil => exact .ok ⟨_, h⟩
        | cons => exact .error
      | _ => cases hs <;> exact .error
  | _ => exact .ok ⟨_, whole⟩

theorem Node.AlikeList.isEmpty_eq {nodes nodes' : List Node} {first rest : Place}
    (h : Node.AlikeList differ first rest nodes nodes') : nodes.isEmpty = nodes'.isEmpty := by
  cases h <;> rfl

namespace Resolve

variable {α : Type} {place first rest : Place}

/-! ### What methods share -/

theorem blind_requireSelect (source : Operation) :
    Blind differ (requireSelect source) (requireSelect source) := by
  refine .get ?_
  rintro s _ ⟨-, -⟩
  dsimp only
  split
  · exact .ite (blind_fail _ _) (.ite (blind_fail _ _) (.pure _))
  · exact .pure _

/-- A check that has failed, with whatever would have followed. -/
theorem blind_refusal {β : Type} (fault : Scope → Fault) (next next' : α → Resolve β) :
    Blind differ (get >>= fun s => fail (fault s) >>= next)
      (get >>= fun s => fail (fault s) >>= next') :=
  fun _ _ _ => .error

theorem blind_failStatement (statement : String) :
    Blind differ (failStatement statement : Resolve α) (failStatement statement) :=
  .get fun _ _ _ => blind_fail _ _

/-- The parameters of lambdas are the same on both sides, and are bound in the same way. -/
theorem blind_bindRowParams (params : List String) :
    Blind differ (bindRowParams params) (bindRowParams params) := by
  unfold bindRowParams
  split
  · exact .pure _
  · exact blind_bindRow _
  · exact (blind_bindRow _).bind fun _ => blind_bind _
  · exact .get fun _ _ _ => blind_fail _ _

theorem blind_bindTableParam (params : List String) :
    Blind differ (bindTableParam params) (bindTableParam params) := by
  unfold bindTableParam
  split
  · exact .pure _
  · exact blind_bind _

/-- Both sides set one shape. -/
theorem blind_setShape (shape : Option ResultShape) :
    Blind differ (setShape shape) (setShape shape) :=
  blind_bind _

section

variable (kinds : KeepsKinds differ) {node node' : Node} (h : node.Alike differ place node')

include kinds h

/-- What a lambda over rows returns is the same expression on both sides, since its literals are
placeholders there. -/
theorem blind_rowValue : Blind differ (rowValue node) (rowValue node') := by
  refine .get ?_
  rintro s _ ⟨-, -⟩
  exact Node.blind_resolveLambda kinds node h false s.method _ blind_bindRowParams

/-- The same for a lambda that is a condition. -/
theorem blind_rowPredicate : Blind differ (rowPredicate node) (rowPredicate node') := by
  refine .get ?_
  rintro s _ ⟨-, -⟩
  exact (Node.blind_resolveLambda kinds node h true s.method _ blind_bindRowParams).bind
    blind_predicate

end

/-! ### Methods of one SELECT -/

section

variable (kinds : KeepsKinds differ) {arguments arguments' : List Node}
  (args : Node.AlikeList differ first rest arguments arguments') (source : Operation)

include kinds args

/-- `where`: the conditions are the same expression. -/
theorem blind_filter : Blind differ (filter source arguments) (filter source arguments') := by
  match args with
  | .cons h .nil =>
    have condition := blind_rowPredicate kinds h
    unfold filter
    dsimp only
    split
    · exact condition.bind fun _ => .pure _
    · exact condition.bind fun _ => .pure _
    · exact (blind_requireSelect source).bind fun _ => condition.bind fun _ => .pure _
  | .nil => exact blind_failArguments _ _ _ _
  | .cons _ (.cons _ _) => exact blind_failArguments _ _ _ _

/-- `select`: the columns are the same, and so is the shape that they leave behind. -/
theorem blind_select : Blind differ (select source arguments) (select source arguments') := by
  refine (blind_requireSelect source).bind fun _ => ?_
  match args with
  | .cons h .nil =>
    refine (blind_rowValue kinds h).bind fun selector => .bind ?_ fun _ => ?_
    · exact .modify fun _ _ ⟨params, infos⟩ => ⟨params, infos⟩
    · exact (blind_setShape _).bind fun _ => .pure _
  | .nil => exact blind_failArguments _ _ _ _
  | .cons _ (.cons _ _) => exact blind_failArguments _ _ _ _

/-- `groupBy`: the key is the same, and the rows are grouped by it on both sides. -/
theorem blind_groupBy : Blind differ (groupBy source arguments) (groupBy source arguments') := by
  refine (blind_requireSelect source).bind fun _ => ?_
  match args with
  | .cons h .nil =>
    refine .get ?_
    rintro s _ ⟨-, -⟩
    refine .check (blind_fail _ _) fun _ => (blind_rowValue kinds h).bind fun key =>
      .bind ?_ fun _ => .pure _
    exact .modify fun _ _ ⟨params, infos⟩ => ⟨params, infos⟩
  | .nil => exact blind_failArguments _ _ _ _
  | .cons _ (.cons _ _) => exact blind_failArguments _ _ _ _

/-- The four methods that sort rows. -/
theorem blind_sort (kind : SortKind) (descending : Bool) :
    Blind differ (sort kind descending source arguments) (sort kind descending source arguments') := by
  refine (blind_requireSelect source).bind fun _ => ?_
  match args with
  | .cons h .nil =>
    dsimp only
    exact .ite (blind_refusal _ _ _) ((blind_rowValue kinds h).bind fun _ => .pure _)
  | .nil => exact blind_failArguments _ _ _ _
  | .cons _ (.cons _ _) => exact blind_failArguments _ _ _ _

/-- `first`, `any` and their kin, with a condition or without one. -/
theorem blind_terminal (kind : TerminalKind) :
    Blind differ (terminal kind source arguments) (terminal kind source arguments') := by
  refine (blind_requireSelect source).bind fun _ => ?_
  match args with
  | .cons h .nil => exact (blind_rowPredicate kinds h).bind fun _ => .pure _
  | .nil => exact .ite (.pure _) (blind_failArguments _ _ _ _)
  | .cons _ (.cons _ hs) =>
    dsimp only
    rw [List.length_cons, List.length_cons, List.length_cons, List.length_cons, hs.length_eq]
    exact .ite (.pure _) (blind_failArguments _ _ _ _)

/-- `sum` and its kin, with a selector or without one. -/
theorem blind_aggregate (kind : AggregateKind) :
    Blind differ (aggregate kind source arguments) (aggregate kind source arguments') := by
  refine (blind_requireSelect source).bind fun _ => ?_
  match args with
  | .cons h .nil => exact (blind_rowValue kinds h).bind fun _ => .pure _
  | .nil => exact .pure _
  | .cons _ (.cons _ _) => exact blind_failArguments _ _ _ _

/-- `contains`: a literal that is searched becomes a parameter, unless it is null. -/
theorem blind_contains : Blind differ (contains source arguments) (contains source arguments') := by
  refine (blind_requireSelect source).bind fun _ => ?_
  match args with
  | .cons h .nil =>
    have value := Node.blind_resolve kinds _ h false
    cases h with
    | @literal _ v v' h =>
      have same : v = v' ∨ differ v v' := h.imp_right And.left
      have null : v.isNull = v'.isNull := by
        rcases same with rfl | same
        · rfl
        · cases kinds _ _ same <;> rfl
      dsimp only
      rw [null]
      exact .ite ((blind_literal kinds same _).bind fun _ => .pure _)
        ((blind_autoParam (same.imp_right .inl) _ _).bind fun _ => .pure _)
    | _ => exact value.bind fun _ => .pure _
  | .nil => exact blind_failArguments _ _ _ _
  | .cons _ (.cons _ _) => exact blind_failArguments _ _ _ _

omit kinds in
/-- Methods without arguments do the same on both sides. -/
theorem blind_mark (step : Step) :
    Blind differ (mark step source arguments) (mark step source arguments') := by
  refine (blind_requireSelect source).bind fun _ => ?_
  match args with
  | .nil => exact .pure _
  | .cons _ _ => exact blind_failArguments _ _ _ _

end

/-- A number of rows that fits in 64 bits is not negative there. -/
theorem wrapSigned_nonneg {n : Int} (nonneg : 0 ≤ n) (below : n < (Nat.pow 2 63 : Nat)) :
    ¬ Json.wrapSigned 64 n < 0 := by
  have half : ((Nat.pow 2 64 : Nat) : Int) = 2 * (Nat.pow 2 63 : Nat) := rfl
  have unwrapped : Json.wrapSigned 64 n = n :=
    Int.bmod_eq_of_le_mul_two (by omega) (by omega)
  omega

/-- `take` and `skip` refuse negative counts, and that is why literals given to them have to be counts
on both sides. -/
theorem blind_page (kinds : KeepsKinds differ) {arguments arguments' : List Node}
    (args : Node.AlikeList differ .count rest arguments arguments') (kind : PageKind)
    (source : Operation) :
    Blind differ (page kind source arguments) (page kind source arguments') := by
  have refused : Blind differ
      (get >>= fun s => (fail (ChainFault.pagingCount s.method) : Resolve Operation))
      (get >>= fun s => fail (ChainFault.pagingCount s.method)) := .get fun _ _ _ => blind_fail _ _
  refine (blind_requireSelect source).bind fun _ => ?_
  match args with
  | .cons h .nil =>
    have value := Node.blind_resolve kinds _ h false
    cases h with
    | @literal _ v v' h =>
      rcases h with rfl | ⟨h, admits⟩
      · cases v with
        | int n =>
          dsimp only
          exact .ite (blind_refusal _ _ _) ((blind_autoParam (.inl rfl) _ _).bind fun _ => .pure _)
        | _ => exact refused
      · cases kinds _ _ h with
        | int n n' =>
          obtain ⟨nonneg, below⟩ := admits n (.inl rfl)
          obtain ⟨nonneg', below'⟩ := admits n' (.inr rfl)
          dsimp only
          rw [if_neg (wrapSigned_nonneg nonneg below), if_neg (wrapSigned_nonneg nonneg' below')]
          exact (blind_autoParam (.inr (.inl h)) _ _).bind fun _ => .pure _
        | _ => exact refused
    | _ => exact value.bind fun _ => .pure _
  | .nil => exact blind_failArguments _ _ _ _
  | .cons h (.cons _ _) => cases h <;> exact blind_failArguments _ _ _ _

/-! ### Assignments -/

theorem blind_requireInsert (source : Operation) :
    Blind differ (requireInsert source) (requireInsert source) := by
  unfold requireInsert
  split
  · exact .pure _
  · exact blind_failStatement _

theorem blind_requireUpdate (source : Operation) :
    Blind differ (requireUpdate source) (requireUpdate source) := by
  unfold requireUpdate
  split
  · exact .pure _
  · exact blind_failStatement _

theorem blind_requireDelete (source : Operation) :
    Blind differ (requireDelete source) (requireDelete source) := by
  unfold requireDelete
  split
  · exact .pure _
  · exact blind_failStatement _

theorem blind_bindQueryParam (params : List String) :
    Blind differ (bindQueryParam params) (bindQueryParam params) := by
  unfold bindQueryParam
  split
  · exact .pure _
  · exact blind_bind _

theorem blind_bindConflictParams (params : List String) :
    Blind differ (bindConflictParams params) (bindConflictParams params) := by
  unfold bindConflictParams
  split
  · exact .pure _
  · exact blind_bind _
  · exact blind_bind _

theorem blind_bindUpdateParams (params : List String) :
    Blind differ (bindUpdateParams params) (bindUpdateParams params) := by
  unfold bindUpdateParams
  split
  · exact .pure _
  · exact blind_bind _
  · exact blind_bind _

section

variable (kinds : KeepsKinds differ)

include kinds

/-- A literal that is assigned becomes a parameter of its own, unless it is null. -/
theorem blind_assignedValue (column : String) {node node' : Node}
    (h : node.Alike differ place node') :
    Blind differ (assignedValue column node) (assignedValue column node') := by
  have value := Node.blind_resolve kinds _ h false
  cases h with
  | @literal _ v v' h =>
    rcases h with rfl | ⟨h, -⟩
    · cases v with
      | null => exact .pure _
      | _ => exact blind_autoParam (.inl rfl) _ _
    · have counterpart : v.Counterpart differ v' := .inr (.inl h)
      cases kinds _ _ h <;> exact blind_autoParam counterpart _ _
  | _ => exact value

/-- Assignments name the same columns in the same order. -/
theorem blind_assignmentsFrom : ∀ {properties properties' : List Property},
    Property.AlikeList differ properties properties' → ∀ done : Assignments,
      Blind differ (assignmentsFrom done properties) (assignmentsFrom done properties')
  | _, _, .nil, _ => .pure _
  | _, _, .spread _ _, _ => .get fun _ _ _ => blind_fail _ _
  | _, _, .named column _ h hs, done => by
    unfold assignmentsFrom
    dsimp only
    refine .ite (blind_refusal _ _ _) ?_
    exact (blind_assignedValue kinds column h).bind fun e => blind_assignmentsFrom hs _

theorem blind_assignments {node node' : Node} (h : node.Alike differ place node') :
    Blind differ (assignments node) (assignments node') := by
  cases h with
  | object h => exact blind_assignmentsFrom kinds h []
  | _ => exact .get fun _ _ _ => blind_fail _ _

/-- The argument of `set` and `doUpdateSet`, an object or a lambda that makes one. -/
theorem blind_assignmentArgument {bindParams : List String → Resolve Unit}
    (binds : ∀ params, Blind differ (bindParams params) (bindParams params)) {node node' : Node}
    (h : node.Alike differ place node') :
    Blind differ (assignmentArgument bindParams node) (assignmentArgument bindParams node') := by
  have plain := blind_assignments kinds h
  cases h with
  | arrow params h =>
    refine blind_withBindings ((binds params).bind fun _ => ?_)
    have bodies := Node.lambdaBody_alike h
    generalize Node.lambdaBody _ = x at bodies ⊢
    generalize Node.lambdaBody _ = x' at bodies ⊢
    cases bodies with
    | ok same =>
      obtain ⟨_, h⟩ := same
      exact blind_assignments kinds h
    | error => exact blind_failUnplaced _ _
  | _ => exact plain

end

/-! ### Methods of INSERT, UPDATE and DELETE -/

/-- The columns of a conflict are read off lambdas over the row. -/
theorem blind_conflictTarget (kinds : KeepsKinds differ) : ∀ {arguments arguments' : List Node}
    {first rest : Place}, Node.AlikeList differ first rest arguments arguments' →
      ∀ done : List String,
        Blind differ (conflictTarget done arguments) (conflictTarget done arguments')
  | _, _, _, _, .nil, _ => .pure _
  | _, _, _, _, .cons h hs, done => by
    refine (Node.blind_resolveLambda kinds _ h false _ _ blind_bindTableParam).bind fun e => ?_
    split
    · refine .check (blind_fail _ _) fun _ => .check (blind_fail _ _) fun _ => ?_
      exact blind_conflictTarget kinds hs _
    · exact blind_fail _ _

/-- The clause that still lacks its action is found on both sides or on neither. -/
theorem blind_openConflict (s : InsertStatement) :
    Blind differ (openConflict s) (openConflict s) := by
  unfold openConflict
  split
  · exact .get fun _ _ _ => blind_fail _ _
  · split
    · exact .pure _
    · exact blind_fail _ _

section

variable (kinds : KeepsKinds differ) {arguments arguments' : List Node}
  (args : Node.AlikeList differ first rest arguments arguments') (source : Operation)

include kinds args

/-- `values` assigns the same parameters. -/
theorem blind_values : Blind differ (values source arguments) (values source arguments') := by
  refine (blind_requireInsert source).bind fun ⟨s, rest⟩ => ?_
  match args with
  | .cons h .nil =>
    refine .check (blind_fail _ _) fun _ => ?_
    refine (blind_assignmentArgument kinds blind_bindQueryParam h).bind fun _ => ?_
    exact .check (blind_fail _ _) fun _ => .pure _
  | .nil => exact blind_failArguments _ _ _ _
  | .cons _ (.cons _ _) => exact blind_failArguments _ _ _ _

/-- `onConflict` opens the same clause. -/
theorem blind_onConflict :
    Blind differ (onConflict source arguments) (onConflict source arguments') := by
  refine (blind_requireInsert source).bind fun ⟨s, rest⟩ => ?_
  dsimp only
  rw [args.isEmpty_eq]
  refine .check (blind_fail _ _) fun _ => .check (blind_fail _ _) fun _ => ?_
  refine .check (blind_fail _ _) fun _ => ?_
  exact (blind_conflictTarget kinds args []).bind fun _ => .pure _

/-- `doUpdateSet` assigns the same parameters. -/
theorem blind_doUpdateSet :
    Blind differ (doUpdateSet source arguments) (doUpdateSet source arguments') := by
  refine (blind_requireInsert source).bind fun ⟨s, rest⟩ => ?_
  match args with
  | .cons h .nil =>
    refine (blind_openConflict s).bind fun _ => ?_
    refine (blind_assignmentArgument kinds blind_bindConflictParams h).bind fun _ => ?_
    exact .check (blind_fail _ _) fun _ => .pure _
  | .nil => exact blind_failArguments _ _ _ _
  | .cons _ (.cons _ _) => exact blind_failArguments _ _ _ _

omit source in
/-- `returning` without an argument, or with a lambda over the row. -/
theorem blind_returningSelector :
    Blind differ (returningSelector arguments) (returningSelector arguments') := by
  match args with
  | .cons h .nil => exact Node.blind_resolveLambda kinds _ h false _ _ blind_bindTableParam
  | .nil => exact blind_failArguments _ _ _ _
  | .cons _ (.cons _ _) => exact blind_failArguments _ _ _ _

/-- `returning` of each of the three statements. -/
theorem blind_returning :
    Blind differ (returning source arguments) (returning source arguments') := by
  have selector := blind_returningSelector kinds args
  unfold returning
  split
  · exact .check (blind_fail _ _) fun _ => selector.bind fun _ => .pure _
  · exact selector.bind fun _ => .pure _
  · exact blind_fail _ _

/-- `set` of an UPDATE, as an object or as a lambda over the row. -/
theorem blind_setColumns :
    Blind differ (setColumns source arguments) (setColumns source arguments') := by
  refine (blind_requireUpdate source).bind fun ⟨s, rest⟩ => ?_
  match args with
  | .cons h .nil =>
    refine .check (blind_fail _ _) fun _ => ?_
    refine (blind_assignmentArgument kinds blind_bindUpdateParams h).bind fun _ => ?_
    exact .check (blind_fail _ _) fun _ => .pure _
  | .nil => exact blind_failArguments _ _ _ _
  | .cons _ (.cons _ _) => exact blind_failArguments _ _ _ _

end

section

variable {arguments arguments' : List Node}
  (args : Node.AlikeList differ first rest arguments arguments') (source : Operation)

include args

theorem blind_doNothing :
    Blind differ (doNothing source arguments) (doNothing source arguments') := by
  refine (blind_requireInsert source).bind fun ⟨s, rest⟩ => ?_
  match args with
  | .nil => exact (blind_openConflict s).bind fun _ => .pure _
  | .cons _ _ => exact fun _ _ _ => .error

theorem blind_allowFullTableUpdate :
    Blind differ (allowFullTableUpdate source arguments) (allowFullTableUpdate source arguments') := by
  refine (blind_requireUpdate source).bind fun ⟨s, rest⟩ => ?_
  match args with
  | .nil => exact .pure _
  | .cons _ _ => exact fun _ _ _ => .error

theorem blind_allowFullTableDelete :
    Blind differ (allowFullTableDelete source arguments) (allowFullTableDelete source arguments') := by
  refine (blind_requireDelete source).bind fun ⟨s, rest⟩ => ?_
  match args with
  | .nil => exact .pure _
  | .cons _ _ => exact fun _ _ _ => .error

end

end Resolve

end FluentQuery
