import FluentQuery.Proofs.Resolve.RenamedLambdas

/-!
# Methods whose lambdas rename their rows

Called on the same query, a method whose arguments differ only in what lambdas call their first
parameters fails on both sides, or gives the same query and leaves the same scope.
-/

namespace FluentQuery

set_option autoImplicit false

variable {taken params : List String} {grouped : Bool}

/-! ### Assignments -/

namespace Resolve

section

variable {key : Expr} {pairs : List (String × String)}

theorem renamed_assignedValue (column : String) {node node' : Node}
    (h : node.Alpha taken pairs node') :
    Renamed taken key pairs (assignedValue column node) (assignedValue column node') := by
  have resolved : Renamed taken key pairs _ _ := Node.renamed_resolve h false
  cases h with
  | literal value =>
    cases value with
    | null => exact .pure _
    | _ => exact renamed_autoParam _ _ _
  | _ => exact resolved

theorem renamed_assignmentsFrom {properties properties' : List Property}
    (h : Property.AlphaList taken pairs properties properties') (done : Assignments) :
    Renamed taken key pairs (assignmentsFrom done properties) (assignmentsFrom done properties') := by
  induction properties generalizing properties' done with
  | nil =>
    cases h
    exact .pure _
  | cons property rest ih =>
    cases h with
    | spread => exact fun _ _ _ => .error
    | named column _ _ h hs =>
      unfold assignmentsFrom
      refine .ite (fun _ _ _ => .error) ?_
      exact (renamed_assignedValue column h).bind fun e => ih hs _

theorem renamed_assignments {node node' : Node} (h : node.Alpha taken pairs node') :
    Renamed taken key pairs (assignments node) (assignments node') := by
  cases h with
  | object h => exact renamed_assignmentsFrom h []
  | _ => exact fun _ _ _ => .error

/-- The assignments that a lambda returns. -/
theorem renamed_returnedAssignments {body body' : Node} (h : body.AlphaBody taken pairs body') :
    Renamed taken key pairs
      (match body.lambdaBody with
        | .ok value => assignments value
        | .error fault => failUnplaced fault)
      (match body'.lambdaBody with
        | .ok value => assignments value
        | .error fault => failUnplaced fault) := by
  cases h with
  | value returned returned' h =>
    rw [returned, returned']
    exact renamed_assignments h
  | unreadable refused refused' =>
    rw [refused, refused']
    exact renamed_failUnplaced _ _

end

/-- Of assignments only automatic parameters remain. -/
theorem restores_assignmentArgument {bindParams : List String → Resolve Unit}
    (binds : ∀ names, Rebinds .everything (bindParams names)) (node : Node) (s : Scope) :
    Leads s (fun _ t => s.Restored t) (assignmentArgument bindParams node) := by
  have tidy (node : Node) : Tidy .everything (membersClosed .everything) (assignments node) :=
    (reads_assignments fun _ => id).tidy .everything
  have plain : Leads s (fun _ t => s.Restored t) (assignments node) :=
    (restores_of_tidy (tidy node) s).mono (fun _ _ => id) fun _ _ => trivial
  cases node with
  | arrow names body =>
    have returned : Tidy .everything (membersClosed .everything)
        (match body.lambdaBody with
          | .ok value => assignments value
          | .error fault => failUnplaced fault) := by
      split
      · exact tidy _
      · exact fun _ _ => .failUnplaced
    exact restores_withParams (binds names) returned s
  | _ => exact plain

/-- Assignments that differ in what a lambda calls its parameters are the same. -/
theorem together_assignments {method : Method} {bindParams : List String → Resolve Unit} {s : Scope}
    {node node' : Node} (reserved : reservedNames ⊆ taken) (hs : s.Outside taken params grouped s)
    (binds : BindsLambda taken params grouped method s bindParams)
    (h : node.AlphaArgument taken params grouped method node') :
    SameResult (Scope.Outside taken params grouped) (assignmentArgument bindParams node s)
      (assignmentArgument bindParams node' s) := by
  have restores := restores_assignmentArgument binds.rebinds
  have plain {node node' : Node} (h : node.Alpha taken [] node') :
      SameResult (Scope.Renames taken s.groupByKey []) (assignments node s) (assignments node' s) :=
    renamed_assignments h s s ⟨hs.renames reserved, rfl, hs.helpers⟩
  cases h with
  | same => exact together_of_restores (restores node) s s hs
  | value noLambda h =>
    refine together_of_renames hs (restores node s) (restores node' s) (?_ : SameResult
      (Scope.Renames taken s.groupByKey []) _ _)
    have values := plain h
    cases h with
    | arrow => exact absurd rfl (noLambda _ _)
    | thunk => exact absurd rfl (noLambda _ _)
    | _ => exact values
  | @lambda x x' others body body' may h =>
    have within : reservedNames ⊆ method.proposed others ++ taken :=
      fun _ mem => List.mem_append_right _ (reserved mem)
    exact together_of_renames hs (restores _ s) (restores _ s)
      (renamed_withParams ⟨hs.renames within, rfl, List.mem_append_right _ hs.helpers⟩
        (binds.pairs x x' others may) (renamed_returnedAssignments h))

/-! ### What methods share -/

theorem together_requireSelect (source : Operation) :
    Together taken params grouped (requireSelect source) (requireSelect source) := by
  refine together_of_same fun s => .get ?_
  dsimp only
  split
  · split
    · exact .fail
    split
    · exact .fail
    · exact .pure rfl
  · exact .pure rfl

theorem together_predicate (e : Expr) :
    Together taken params grouped (predicate e) (predicate e) := by
  refine together_of_same fun s => ?_
  unfold predicate
  cases e.toBoolean with
  | error => exact .fail
  | ok => exact .pure rfl

theorem together_autoParam (value : Json) (fieldName : String) (sourceTable : Option Int) :
    Together taken params grouped (autoParam value fieldName sourceTable)
      (autoParam value fieldName sourceTable) :=
  together_of_restores fun s => (restores_of_tidy (tidy_autoParam value fieldName sourceTable) s).mono
    (fun _ _ => id) fun _ _ => trivial

theorem together_literal (value : Json) (peer : Expr) :
    Together taken params grouped (literal value peer) (literal value peer) :=
  together_of_restores fun s => (restores_of_tidy (tidy_literal value peer) s).mono
    (fun _ _ => id) fun _ _ => trivial

section

variable {method : Method} (reserved : reservedNames ⊆ taken) {node node' : Node}
  (h : node.AlphaArgument taken params grouped method node')

include reserved h

/-- Lambdas over rows return the same expression. -/
theorem together_rowValue (row : method.takesRow = true) :
    Together taken params grouped (rowValue node) (rowValue node') := by
  rintro s s' hs
  obtain rfl := hs.same
  exact together_lambda reserved hs (bindsLambda_row reserved hs row) h false s.method

/-- Lambdas that are conditions return the same predicate. -/
theorem together_rowPredicate (row : method.takesRow = true) :
    Together taken params grouped (rowPredicate node) (rowPredicate node') := by
  rintro s s' hs
  obtain rfl := hs.same
  have value := together_lambda reserved hs (bindsLambda_row reserved hs row) h true s.method
  exact value.bind fun e => together_predicate e

end

/-! ### Methods of one SELECT -/

section

variable (reserved : reservedNames ⊆ taken) {arguments arguments' : List Node} (source : Operation)

include reserved

theorem together_filter
    (args : List.Forall₂ (Node.AlphaArgument taken params grouped .filter) arguments arguments') :
    Together taken params grouped (filter source arguments) (filter source arguments') := by
  match args with
  | .cons h .nil =>
    have condition := together_rowPredicate reserved h rfl
    unfold filter
    dsimp only
    split
    · exact condition.bind fun _ => .pure _
    · exact condition.bind fun _ => .pure _
    · exact (together_requireSelect source).bind fun _ => condition.bind fun _ => .pure _
  | .nil | .cons _ (.cons _ _) => exact fun _ _ _ => .error

/-- After a projection rows are not grouped. -/
theorem together_select
    (args : List.Forall₂ (Node.AlphaArgument taken params grouped .select) arguments arguments')
    (s s' : Scope) (hs : s.Outside taken params grouped s') :
    SameResult (Scope.Outside taken params false) (select source arguments s)
      (select source arguments' s') := by
  refine (together_requireSelect source s s' hs).bind fun _ t t' ht => ?_
  match args with
  | .cons h .nil =>
    refine (together_rowValue reserved h rfl t t' ht).bind fun selector u u' hu => ?_
    obtain rfl := hu.same
    exact .ok ⟨rfl, hu.reshape _, hu.helpers, fun _ => rfl⟩
  | .nil | .cons _ (.cons _ _) => exact .error

/-- After a grouping rows are grouped. -/
theorem together_groupBy
    (args : List.Forall₂ (Node.AlphaArgument taken params grouped .groupBy) arguments arguments')
    (s s' : Scope) (hs : s.Outside taken params grouped s') :
    SameResult (Scope.Outside taken params true) (groupBy source arguments s)
      (groupBy source arguments' s') := by
  refine (together_requireSelect source s s' hs).bind fun _ t t' ht => ?_
  match args with
  | .cons h .nil =>
    obtain rfl := ht.same
    refine .get ?_
    dsimp only
    by_cases present : (!t.groupByKey.isAbsent) = true
    · rw [if_pos present, if_pos present]
      exact .error
    · rw [if_neg present, if_neg present]
      refine (together_rowValue reserved h rfl t t ht).bind fun key u u' hu => ?_
      obtain rfl := hu.same
      exact .ok ⟨rfl, hu.bindings, hu.helpers, nofun⟩
  | .nil | .cons _ (.cons _ _) => exact .error

theorem together_sort (kind : SortKind) (descending : Bool)
    (args : List.Forall₂ (Node.AlphaArgument taken params grouped (.sort kind descending)) arguments
      arguments') :
    Together taken params grouped (sort kind descending source arguments)
      (sort kind descending source arguments') := by
  refine (together_requireSelect source).bind fun _ => ?_
  match args with
  | .cons h .nil =>
    exact .ite (fun _ _ _ => .error) ((together_rowValue reserved h rfl).bind fun _ => .pure _)
  | .nil | .cons _ (.cons _ _) => exact fun _ _ _ => .error

theorem together_terminal (kind : TerminalKind)
    (args : List.Forall₂ (Node.AlphaArgument taken params grouped (.terminal kind)) arguments
      arguments') :
    Together taken params grouped (terminal kind source arguments)
      (terminal kind source arguments') := by
  refine (together_requireSelect source).bind fun _ => ?_
  match args with
  | .cons h .nil => exact (together_rowPredicate reserved h rfl).bind fun _ => .pure _
  | .nil => exact .ite (.pure _) fun _ _ _ => .error
  | .cons _ (.cons _ hs) =>
    dsimp only
    simp only [List.length_cons, hs.length_eq]
    exact .ite (.pure _) fun _ _ _ => .error

theorem together_aggregate (kind : AggregateKind)
    (args : List.Forall₂ (Node.AlphaArgument taken params grouped (.aggregate kind)) arguments
      arguments') :
    Together taken params grouped (aggregate kind source arguments)
      (aggregate kind source arguments') := by
  refine (together_requireSelect source).bind fun _ => ?_
  match args with
  | .cons h .nil => exact (together_rowValue reserved h rfl).bind fun _ => .pure _
  | .nil => exact .pure _
  | .cons _ (.cons _ _) => exact fun _ _ _ => .error

omit reserved in
/-- A literal count is the same on both sides. -/
theorem together_pageLiteral (kind : PageKind) (value : Json) :
    Together taken params grouped (page kind source [.literal value])
      (page kind source [.literal value]) := by
  refine (together_requireSelect source).bind fun _ => ?_
  cases value with
  | int n => exact .ite (fun _ _ _ => .error) ((together_autoParam _ _ _).bind fun _ => .pure _)
  | _ => exact fun _ _ _ => .error

/-- A count is a literal or reads parameters of the query, which are not renamed. -/
theorem together_page (kind : PageKind)
    (args : List.Forall₂ (Node.AlphaArgument taken params grouped (.page kind)) arguments
      arguments') :
    Together taken params grouped (page kind source arguments) (page kind source arguments') := by
  match args with
  | .cons (a := node) h .nil =>
    have counted := (together_requireSelect source).bind fun _ =>
      (together_value reserved h).bind fun count => .pure (.page kind count :: source)
    cases h with
    | same =>
      cases node with
      | literal value => exact together_pageLiteral source kind value
      | _ => exact counted
    | value _ h =>
      cases h with
      | literal value => exact together_pageLiteral source kind value
      | _ => exact counted
    | lambda => exact counted
  | .nil => exact (together_requireSelect source).bind fun _ => fun _ _ _ => .error
  | .cons _ (.cons _ _) =>
    rw [page_many, page_many]
    exact (together_requireSelect source).bind fun _ => fun _ _ _ => .error

omit reserved in
theorem together_containsLiteral (value : Json) :
    Together taken params grouped (contains source [.literal value])
      (contains source [.literal value]) := by
  refine (together_requireSelect source).bind fun _ => ?_
  exact .ite ((together_literal _ _).bind fun _ => .pure _)
    ((together_autoParam _ _ _).bind fun _ => .pure _)

/-- A value that is searched reads nothing that is renamed. -/
theorem together_contains
    (args : List.Forall₂ (Node.AlphaArgument taken params grouped .contains) arguments arguments') :
    Together taken params grouped (contains source arguments) (contains source arguments') := by
  match args with
  | .cons (a := node) h .nil =>
    have found := (together_requireSelect source).bind fun _ =>
      (together_value reserved h).bind fun value => .pure (.contains value :: source)
    cases h with
    | same =>
      cases node with
      | literal value => exact together_containsLiteral source value
      | _ => exact found
    | value _ h =>
      cases h with
      | literal value => exact together_containsLiteral source value
      | _ => exact found
    | lambda => exact found
  | .nil | .cons _ (.cons _ _) =>
    exact (together_requireSelect source).bind fun _ => fun _ _ _ => .error

omit reserved in
theorem together_mark {related : Node → Node → Prop} (step : Step)
    (args : List.Forall₂ related arguments arguments') :
    Together taken params grouped (mark step source arguments) (mark step source arguments') := by
  refine (together_requireSelect source).bind fun _ => ?_
  match args with
  | .nil => exact .pure _
  | .cons _ _ => exact fun _ _ _ => .error

end

/-! ### Methods of INSERT, UPDATE and DELETE -/

theorem together_requireInsert (source : Operation) :
    Together taken params grouped (requireInsert source) (requireInsert source) := by
  unfold requireInsert
  split
  · exact .pure _
  · exact fun _ _ _ => .error

theorem together_requireUpdate (source : Operation) :
    Together taken params grouped (requireUpdate source) (requireUpdate source) := by
  unfold requireUpdate
  split
  · exact .pure _
  · exact fun _ _ _ => .error

theorem together_requireDelete (source : Operation) :
    Together taken params grouped (requireDelete source) (requireDelete source) := by
  unfold requireDelete
  split
  · exact .pure _
  · exact fun _ _ _ => .error

theorem together_openConflict (s : InsertStatement) :
    Together taken params grouped (openConflict s) (openConflict s) := by
  unfold openConflict
  split
  · exact fun _ _ _ => .error
  · split
    · exact .pure _
    · exact fun _ _ _ => .error

section

variable (reserved : reservedNames ⊆ taken)

include reserved

/-- A lambda that picks a column of the row. -/
theorem together_tableLambda {method : Method} {node node' : Node}
    (h : node.AlphaArgument taken params grouped method node') (name : String) :
    Together taken params grouped (node.resolveLambda false name bindTableParam)
      (node'.resolveLambda false name bindTableParam) := by
  rintro s s' hs
  obtain rfl := hs.same
  exact together_lambda reserved hs (bindsLambda_table reserved hs) h false name

/-- The columns of a conflict are read off the row, whatever it is called. -/
theorem together_conflictTarget {arguments arguments' : List Node} {method : Method}
    (args : List.Forall₂ (Node.AlphaArgument taken params grouped method) arguments arguments')
    (done : List String) :
    Together taken params grouped (conflictTarget done arguments)
      (conflictTarget done arguments') := by
  induction args generalizing done with
  | nil => exact .pure _
  | cons h _ ih =>
    refine (together_tableLambda reserved h "onConflict").bind fun e => ?_
    split
    · refine .check (fun _ _ _ => .error) fun _ => .check (fun _ _ _ => .error) fun _ => ?_
      exact ih _
    · exact fun _ _ _ => .error

variable {arguments arguments' : List Node} (source : Operation)

theorem together_values
    (args : List.Forall₂ (Node.AlphaArgument taken params grouped .values) arguments arguments') :
    Together taken params grouped (values source arguments) (values source arguments') := by
  refine (together_requireInsert source).bind fun ⟨st, rest⟩ => ?_
  match args with
  | .cons h .nil =>
    refine .check (fun _ _ _ => .error) fun _ => ?_
    refine Matches.bind (fun s s' hs => ?_) fun _ => .check (fun _ _ _ => .error) fun _ => .pure _
    obtain rfl := hs.same
    exact together_assignments reserved hs (bindsLambda_query reserved hs rfl) h
  | .nil | .cons _ (.cons _ _) => exact fun _ _ _ => .error

theorem together_onConflict
    (args : List.Forall₂ (Node.AlphaArgument taken params grouped .onConflict) arguments arguments') :
    Together taken params grouped (onConflict source arguments) (onConflict source arguments') := by
  have empty : arguments.isEmpty = arguments'.isEmpty := by cases args <;> rfl
  refine (together_requireInsert source).bind fun ⟨st, rest⟩ => ?_
  dsimp only
  rw [empty]
  refine .check (fun _ _ _ => .error) fun _ => .check (fun _ _ _ => .error) fun _ => ?_
  refine .check (fun _ _ _ => .error) fun _ => ?_
  exact (together_conflictTarget reserved args []).bind fun _ => .pure _

/-- Both rows of a conflict may be renamed. -/
theorem together_doUpdateSet
    (args : List.Forall₂ (Node.AlphaArgument taken params grouped .doUpdateSet) arguments
      arguments') :
    Together taken params grouped (doUpdateSet source arguments) (doUpdateSet source arguments') := by
  refine (together_requireInsert source).bind fun ⟨st, rest⟩ => ?_
  match args with
  | .cons h .nil =>
    refine (together_openConflict st).bind fun _ => ?_
    refine Matches.bind (fun s s' hs => ?_) fun _ => .check (fun _ _ _ => .error) fun _ => .pure _
    obtain rfl := hs.same
    exact together_assignments reserved hs (bindsLambda_conflict reserved hs) h
  | .nil | .cons _ (.cons _ _) => exact fun _ _ _ => .error

/-- The row of `returning` may be renamed. -/
theorem together_returning
    (args : List.Forall₂ (Node.AlphaArgument taken params grouped .returning) arguments arguments') :
    Together taken params grouped (returning source arguments) (returning source arguments') := by
  have selector : Together taken params grouped (returningSelector arguments)
      (returningSelector arguments') := by
    match args with
    | .cons h .nil => exact together_tableLambda reserved h "returning"
    | .nil | .cons _ (.cons _ _) => exact fun _ _ _ => .error
  unfold returning
  split
  · exact .check (fun _ _ _ => .error) fun _ => selector.bind fun _ => .pure _
  · exact selector.bind fun _ => .pure _
  · exact fun _ _ _ => .error

/-- The row of an update may be renamed. -/
theorem together_setColumns
    (args : List.Forall₂ (Node.AlphaArgument taken params grouped .set) arguments arguments') :
    Together taken params grouped (setColumns source arguments) (setColumns source arguments') := by
  refine (together_requireUpdate source).bind fun ⟨st, rest⟩ => ?_
  match args with
  | .cons h .nil =>
    refine .check (fun _ _ _ => .error) fun _ => ?_
    refine Matches.bind (fun s s' hs => ?_) fun _ => .check (fun _ _ _ => .error) fun _ => .pure _
    obtain rfl := hs.same
    exact together_assignments reserved hs (bindsLambda_update reserved hs) h
  | .nil | .cons _ (.cons _ _) => exact fun _ _ _ => .error

end

section

variable {related : Node → Node → Prop} {arguments arguments' : List Node}
  (args : List.Forall₂ related arguments arguments') (source : Operation)

include args

theorem together_doNothing :
    Together taken params grouped (doNothing source arguments) (doNothing source arguments') := by
  refine (together_requireInsert source).bind fun ⟨st, rest⟩ => ?_
  match args with
  | .nil => exact (together_openConflict st).bind fun _ => .pure _
  | .cons _ _ => exact fun _ _ _ => .error

theorem together_allowFullTableUpdate :
    Together taken params grouped (allowFullTableUpdate source arguments)
      (allowFullTableUpdate source arguments') := by
  refine (together_requireUpdate source).bind fun ⟨st, rest⟩ => ?_
  match args with
  | .nil => exact .pure _
  | .cons _ _ => exact fun _ _ _ => .error

theorem together_allowFullTableDelete :
    Together taken params grouped (allowFullTableDelete source arguments)
      (allowFullTableDelete source arguments') := by
  refine (together_requireDelete source).bind fun ⟨st, rest⟩ => ?_
  match args with
  | .nil => exact .pure _
  | .cons _ _ => exact fun _ _ _ => .error

end

end Resolve

end FluentQuery
