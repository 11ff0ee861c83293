import FluentQuery.Proofs.Effect
import FluentQuery.Sql.Statement

/-!
# The forms of a SELECT

A SELECT asks for a truth value, for an aggregate, or for rows, of which it may want one or two at most.
Which of these it is written as is found out by searching its chain (`Clause.form`); how each of them is
written says `Form.Writes`.  `SelectChain.writes_statement` puts the two together.
-/

namespace FluentQuery

set_option autoImplicit false

/-- What a statement asks for; of rows it may want a fixed number at most. -/
inductive Form where
  | truth
  | aggregate
  | rows (most : Option Nat)
deriving DecidableEq, Repr

/-- The form that the result of a statement is expected to have: one row where the first or the last one
is wanted, two where one has to be the only one. -/
def ResultKind.form : ResultKind → Form
  | boolean => .truth
  | scalar => .aggregate
  | firstRow | firstRowOrDefault | lastRow | lastRowOrDefault => .rows (some 1)
  | singleRow | singleRowOrDefault => .rows (some 2)
  | rows | affectedRows | returningRows => .rows none

namespace Clause

/-- Whether some step of a chain asks for a truth value. -/
def asksTruth (chain : List Step) : Bool :=
  (terminal? [.any, .all] chain).isSome || (contained? chain).isSome

/-- Whether some step of a chain asks for an aggregate. -/
def aggregates (chain : List Step) : Bool :=
  (terminal? [.count, .longCount] chain).isSome || (firstAggregate? chain).isSome

/-- A projection that aggregates. -/
def Projection.isAggregate : Projection → Bool
  | count | aggregate _ _ => true
  | selector _ | key _ | all => false

/-- An aggregate is projected if some step asks for one. -/
theorem isAggregate_projection (chain : List Step) :
    Returns (fun chosen => chosen.isAggregate = aggregates chain) (projection chain) := by
  unfold projection aggregates
  cases terminal? [.count, .longCount] chain with
  | some => exact .ok rfl
  | none =>
    cases firstAggregate? chain with
    | some found => exact (Returns.any _).map fun _ _ => rfl
    | none =>
      dsimp only
      split
      · exact .ok rfl
      · split
        · exact .error
        · split
          · split <;> exact .ok rfl
          · exact .ok rfl

/-- The fixed number of rows that a limit is about. -/
def Limit.most? : Limit → Option Nat
  | rows count => some count
  | _ => Option.none

/-- The form of a statement, as it is found by searching its chain. -/
def form (d : Dialect) (chain : List Step) : Form :=
  if asksTruth chain then .truth
  else if aggregates chain then .aggregate
  else .rows (limit d chain).most?

end Clause

/-! ### How forms are written -/

namespace Sql

/-- The words that the clauses between SELECT and LIMIT start with. -/
def clauseWords : List String :=
  ["FROM ", "INNER JOIN ", "LEFT OUTER JOIN ", "RIGHT OUTER JOIN ", "FULL OUTER JOIN ", "CROSS JOIN ",
    "WHERE ", "GROUP BY ", "ORDER BY "]

/-- A clause between SELECT and LIMIT. -/
def IsClause (f : Fragment) : Prop :=
  ∃ word ∈ clauseWords, ∃ more rest, f = .text (word ++ more) :: rest

/-- An aggregate of all rows. -/
def IsAggregate (f : Fragment) : Prop :=
  f = Fragment.text "COUNT(*)" ∨ ∃ kind operand,
    f = Fragment.text (aggregateKeyword kind ++ "(") ++ operand ++ Fragment.text ")"

/-- A list of what is wanted of each row. -/
def IsListed (f : Fragment) : Prop :=
  ∃ columns, f = Fragment.text "" ++ columns ∨ f = Fragment.text "DISTINCT " ++ columns

/-- A limit that is given with the query, or none. -/
def IsGivenLimit (limit : List Fragment) : Prop :=
  limit = [] ∨ limit = [Fragment.text "LIMIT -1"] ∨ ∃ count, limit = [Fragment.text "LIMIT " ++ count]

/-- The limit to a fixed number of rows, or one that is given. -/
def IsLimit (limit : List Fragment) : Option Nat → Prop
  | some count => limit = [Fragment.text ("LIMIT " ++ toString count)]
  | none => IsGivenLimit limit

/-- A SELECT with the given parts. -/
def selectText (projection : Fragment) (clauses limit offset : List Fragment) : Fragment :=
  Fragment.separated " " ((Fragment.text "SELECT " ++ projection) :: (clauses ++ (limit ++ offset)))

end Sql

open Sql in
/-- How a statement of a form is written. -/
inductive Form.Writes : Form → Fragment → Prop where
  | truth {test : String} (query : Fragment) (exist : test = "EXISTS" ∨ test = "NOT EXISTS") :
      Writes .truth (SelectChain.truthQuery test query)
  | aggregate {projection : Fragment} {clauses limit : List Fragment} (offset : List Fragment)
      (aggregates : IsAggregate projection) (between : ∀ f ∈ clauses, IsClause f)
      (given : IsGivenLimit limit) : Writes .aggregate (selectText projection clauses limit offset)
  | rows {projection : Fragment} {clauses limit : List Fragment} {most : Option Nat}
      (offset : List Fragment) (listed : IsListed projection) (between : ∀ f ∈ clauses, IsClause f)
      (limited : IsLimit limit most) : Writes (.rows most) (selectText projection clauses limit offset)

namespace Sql

variable {α : Type}

/-- A clause is known by the word that it begins with. -/
theorem isClause_of_text {word : String} (known : word ∈ clauseWords) (more : String)
    (rest : Fragment) : IsClause (Fragment.text (word ++ more) ++ rest) :=
  ⟨word, known, more, rest, rfl⟩

theorem isClause_of_word {word : String} (known : word ∈ clauseWords) (rest : Fragment) :
    IsClause (Fragment.text word ++ rest) := by
  have whole := isClause_of_text known "" rest
  rwa [String.append_empty] at whole

/-! ### Sources -/

theorem isClause_fromClause (hasJoins : Bool) (table schema : String) (subquery : Operation)
    (aliasHint : String) (nested : Except CompileError Fragment) :
    Returns (fun found => IsClause found.1)
      (fromClause hasJoins table schema subquery aliasHint nested) := by
  have known : "FROM " ∈ clauseWords := by decide
  unfold fromClause
  split
  · dsimp only
    split
    · refine .ok ?_
      simp only [String.append_assoc]
      exact isClause_of_text known _ []
    · exact .ok (isClause_of_text known _ [])
  · exact .bind (.any _) fun _ _ => .pure (isClause_of_word known _)

/-- A join begins with its kind. -/
theorem isClause_joinClause (scope : SqlScope) (join : JoinSource) (index : Nat) :
    Returns IsClause (joinClause scope join index) := by
  have known : joinKeyword join.kind ++ " " ∈ clauseWords := by
    cases join.kind <;> decide
  refine .bind (.any _) fun target _ => ?_
  dsimp only
  split
  · exact .pure (isClause_of_word known _)
  · refine .bind (.any _) fun outer _ => .pure ?_
    rw [List.append_assoc]
    exact isClause_of_word known _

theorem isClause_joinClauses (scope : SqlScope) (joins : List JoinSource) (index : Nat) :
    Returns (fun clauses => ∀ f ∈ clauses, IsClause f) (joinClauses scope joins index) := by
  induction joins generalizing index with
  | nil => exact .ok (List.forall_mem_nil _)
  | cons join rest ih =>
    unfold joinClauses
    exact .bind (isClause_joinClause scope join index) fun _ first => .bind (ih _) fun _ others =>
      .pure (List.forall_mem_cons.2 ⟨first, others⟩)

namespace SelectChain

variable (c : SelectChain) (scope : SqlScope)

/-- The tables of a SELECT are written as clauses. -/
theorem isClause_sources :
    Returns (fun found => ∀ f ∈ found.1, IsClause f) c.sources := by
  unfold sources
  dsimp only
  split
  · exact .bind (isClause_fromClause _ _ _ _ _ _) fun _ first =>
      .bind (isClause_joinClauses _ _ _) fun _ others =>
        .pure (List.forall_mem_cons.2 ⟨first, others⟩)
  · exact .error

/-! ### Clauses -/

/-- Conditions make one WHERE clause, or none. -/
theorem isClause_whereOf (conditions : List Fragment) : ∀ f ∈ whereOf conditions, IsClause f := by
  unfold whereOf
  split
  · exact List.forall_mem_nil _
  · exact List.forall_mem_singleton.2 (isClause_of_word (by decide) _)

theorem isClause_groupBy : Returns (fun clauses => ∀ f ∈ clauses, IsClause f) (c.groupBy scope) := by
  unfold groupBy
  split
  · exact .ok (List.forall_mem_nil _)
  · refine .bind (.any _) fun _ _ => .pure ?_
    exact List.forall_mem_singleton.2 (isClause_of_word (by decide) _)

theorem isClause_orderBy : Returns (fun clauses => ∀ f ∈ clauses, IsClause f) (c.orderBy scope) := by
  have known : "ORDER BY " ∈ clauseWords := by decide
  unfold orderBy
  split
  · exact .ok (List.forall_mem_nil _)
  · refine .ok (List.forall_mem_singleton.2 ?_)
    split
    · exact isClause_of_text known "1 DESC" []
    · exact isClause_of_text known "1 ASC" []
  · exact .bind (.any _) fun _ _ => .pure (List.forall_mem_singleton.2 (isClause_of_word known _))

/-- The aggregate is written if some step asks for one. -/
theorem returns_projection :
    Returns (fun f => if Clause.aggregates c.steps then IsAggregate f else IsListed f)
      (c.projection scope) := by
  have listed (columns : Fragment) : IsListed
      (Fragment.text (if c.steps.any Clause.isDistinct then "DISTINCT " else "") ++ columns) := by
    split
    · exact ⟨columns, .inr rfl⟩
    · exact ⟨columns, .inl rfl⟩
  refine .bind (Clause.isAggregate_projection c.steps).mapError fun chosen same => ?_
  rw [← same]
  cases chosen with
  | count => exact .pure (.inl rfl)
  | aggregate kind operand => exact .bind (.any _) fun f _ => .pure (.inr ⟨kind, f, rfl⟩)
  | selector | key => exact .bind (.any _) fun _ _ => .pure (listed _)
  | all => exact .pure (listed _)

/-- The limit is the one that is chosen for the chain. -/
theorem returns_paging :
    Returns (fun paging => ∃ limit offset, paging = limit ++ offset ∧
        IsLimit limit (Clause.limit c.dialect c.steps).most?) (c.paging scope) := by
  unfold paging
  dsimp only
  split
  case' h_1 => refine .bind (.any _) fun _ _ => ?_
  all_goals
    refine .bind (.any _) fun offset _ => ?_
    cases Clause.limit c.dialect c.steps with
    | none => exact .pure ⟨[], offset, rfl, .inl rfl⟩
    | rows => exact .pure ⟨_, offset, rfl, rfl⟩
    | given => exact .bind (.any _) fun count _ => .pure ⟨_, offset, rfl, .inr (.inr ⟨count, rfl⟩)⟩
    | unbounded => exact .pure ⟨_, offset, rfl, .inr (.inl rfl)⟩

/-! ### Statements -/

/-- A SELECT that lists rows or aggregates is a projection, clauses, and what limits it. -/
theorem writes_selectQuery
    (apart : Clause.aggregates c.steps = true → (Clause.limit c.dialect c.steps).most? = none) :
    Returns (Form.Writes (if Clause.aggregates c.steps then .aggregate
      else .rows (Clause.limit c.dialect c.steps).most?)) c.selectQuery := by
  refine .bind (.any _) fun _ _ => .check ?_
  refine .bind c.isClause_sources fun found sources => ?_
  refine .bind (c.returns_projection found.2) fun projection projects => ?_
  refine .bind (.any _) fun conditions _ => ?_
  refine .bind (c.isClause_groupBy found.2) fun groupBy grouped => ?_
  refine .bind (c.isClause_orderBy found.2) fun orderBy ordered => ?_
  refine .bind (c.returns_paging found.2) fun paging limited => .pure ?_
  obtain ⟨limit, offset, rfl, limited⟩ := limited
  have between : ∀ f ∈ found.1 ++ whereOf conditions ++ groupBy ++ orderBy, IsClause f := by
    simp only [List.forall_mem_append]
    exact ⟨⟨⟨sources, isClause_whereOf conditions⟩, grouped⟩, ordered⟩
  split at projects
  · rename_i aggregates
    rw [if_pos aggregates]
    rw [apart aggregates] at limited
    exact .aggregate offset projects between limited
  · rename_i plain
    rw [if_neg plain]
    exact .rows offset projects between limited

/-- A test of the rows asks for a truth value. -/
theorem writes_anyQuery (predicate : Expr) : Returns (Form.Writes .truth) (c.anyQuery predicate) := by
  refine .bind (.any _) fun _ _ => .bind (.any _) fun found _ => ?_
  exact .bind (.any _) fun _ _ => .pure (.truth _ (.inl rfl))

theorem writes_allQuery (predicate : Expr) : Returns (Form.Writes .truth) (c.allQuery predicate) := by
  refine .bind (.any _) fun _ _ => .bind (.any _) fun found _ => ?_
  refine .bind (.any _) fun _ _ => .check ?_
  exact .bind (.any _) fun _ _ => .pure (.truth _ (.inr rfl))

theorem writes_containsQuery (value : Expr) : Returns (Form.Writes .truth) (c.containsQuery value) := by
  refine .bind (.any _) fun _ _ => .check ?_
  refine .bind (.any _) fun _ _ => .bind (.any _) fun found _ => ?_
  refine .bind (.any _) fun _ _ => .bind (.any _) fun _ _ => ?_
  exact .bind (.any _) fun _ _ => .bind (.any _) fun _ _ => .pure (.truth _ (.inl rfl))

/-- A SELECT is written in the form that searching its chain finds, if an aggregate is not limited to a
fixed number of rows. -/
theorem writes_statement
    (apart : Clause.aggregates c.steps = true → (Clause.limit c.dialect c.steps).most? = none) :
    Returns (Form.Writes (Clause.form c.dialect c.steps)) c.statement := by
  have query := c.writes_selectQuery apart
  unfold statement Clause.form Clause.asksTruth
  cases Clause.terminal? [.any, .all] c.steps with
  | some found =>
    obtain ⟨kind, predicate⟩ := found
    cases kind with
    | all => exact c.writes_allQuery predicate
    | _ => exact c.writes_anyQuery predicate
  | none =>
    cases Clause.contained? c.steps with
    | some value => exact c.writes_containsQuery value
    | none => exact query

end SelectChain

end Sql

end FluentQuery
