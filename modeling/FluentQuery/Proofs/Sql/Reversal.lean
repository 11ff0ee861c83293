import FluentQuery.Proofs.Plan.Incremental
import FluentQuery.Proofs.Sql.Erasure
import FluentQuery.Proofs.Sql.Forms

/-!
# Reversals after paging

Rows that were cut off cannot be reversed by sorting the other way, so a reversal after a page is to be
refused.  Whether there is one is looked for only if the number of reversals is odd: an even number
cancels out wherever the reversals stand, and the statement is written as if there were none
(`reversed_pages_are_rejected`), although a page between two reversals is one of other rows.
-/

namespace FluentQuery

set_option autoImplicit false

open Operation (chain)

/-- Some reversal is asked for after rows were cut off. -/
def Operation.ReversesPage (op : Operation) : Prop :=
  ∃ before kind count between after,
    chain op = before ++ .page kind count :: between ++ .reverse :: after

/-- An error of the policy on what statements mean. -/
def CompileError.IsSemantic (e : CompileError) : Prop :=
  e.fault.kind = .semanticPolicy

namespace Sql.SelectChain

/-- A chain that reverses a page looks so from its first page on. -/
theorem any_isReverse_dropWhile {before between after : List Step} {kind : PageKind} {count : Expr} :
    ((before ++ .page kind count :: between ++ .reverse :: after).dropWhile
      (!Clause.isPage ·)).any Clause.isReverse = true := by
  induction before with
  | nil => simp [Clause.isPage, Clause.isReverse]
  | cons step before ih =>
    by_cases isPage : Clause.isPage step = true
    · simp [isPage, Clause.isReverse]
    · simpa [isPage] using ih

variable {c : SelectChain}

/-- A step that cannot be written is refused as a matter of what statements mean. -/
theorem rejectUnlowered_cases (c : SelectChain) :
    c.rejectUnlowered = .ok () ∨ ∃ e, c.rejectUnlowered = .error e ∧ e.IsSemantic := by
  unfold rejectUnlowered
  dsimp only
  split
  · rename_i fault method found
    obtain ⟨step, -, hstep⟩ := List.exists_of_findSome?_eq_some found
    refine .inr ⟨_, rfl, ?_⟩
    cases step with
    | groupJoin | selectMany =>
      cases hstep
      rfl
    | _ => cases hstep
  · exact .inl rfl

theorem selectQuery_of_reversesPage (reverses : Clause.reversesPage c.steps = true) :
    ∃ e, c.selectQuery = .error e ∧ e.IsSemantic := by
  unfold selectQuery
  rcases c.rejectUnlowered_cases with lowered | ⟨e, refused, isSemantic⟩
  · rw [lowered, reverses]
    exact ⟨_, rfl, rfl⟩
  · rw [refused]
    exact ⟨e, rfl, isSemantic⟩

theorem containsQuery_of_isPage (value : Expr) (pages : c.steps.any Clause.isPage = true) :
    ∃ e, c.containsQuery value = .error e ∧ e.IsSemantic := by
  unfold containsQuery
  rcases c.rejectUnlowered_cases with lowered | ⟨e, refused, isSemantic⟩
  · rw [lowered, pages]
    exact ⟨_, rfl, rfl⟩
  · rw [refused]
    exact ⟨e, rfl, isSemantic⟩

/-- The statement of a chain that asks for no truth value. -/
theorem statement_eq_selectQuery (plain : Clause.terminal? [.any, .all] c.steps = none)
    (searches : Clause.contained? c.steps = none) : c.statement = c.selectQuery := by
  unfold statement
  rw [plain, searches]

/-- A page that is reversed by an odd number of reversals, or in which a value is searched, is
rejected. -/
theorem statement_of_reversed (truth : Clause.terminal? [.any, .all] c.steps = none)
    (pages : c.steps.any Clause.isPage = true)
    (late : (c.steps.dropWhile (!Clause.isPage ·)).any Clause.isReverse = true)
    (matters : Clause.isReversed c.steps = true ∨ Clause.contained? c.steps ≠ none) :
    ∃ e, c.statement = .error e ∧ e.IsSemantic := by
  cases searches : Clause.contained? c.steps with
  | some value =>
    unfold statement
    rw [truth, searches]
    exact containsQuery_of_isPage value pages
  | none =>
    have odd := matters.resolve_right (not_not.2 searches)
    rw [statement_eq_selectQuery truth searches]
    exact selectQuery_of_reversesPage (Bool.and_eq_true_iff.2 ⟨odd, late⟩)

open Clause (isForward) in
/-- A query for a truth value reads no reversals, and a SELECT none that cancel out. -/
theorem statement_erase_isForward (ignored : Clause.terminal? [.any, .all] c.steps ≠ none ∨
    (Clause.isReversed c.steps = false ∧ Clause.contained? c.steps = none)) :
    (c.erase isForward).statement = c.statement := by
  cases truth : Clause.terminal? [.any, .all] c.steps with
  | some asked => exact c.truth_erase keepsRows_isForward.1 truth
  | none =>
    obtain ⟨even, searches⟩ := ignored.resolve_left (not_not.2 truth)
    rw [statement_eq_selectQuery truth searches, ← c.selectQuery_erase even]
    refine statement_eq_selectQuery ?_ ?_
    · rw [steps_erase, Clause.terminal?_filter fun _ _ => rfl, truth]
    · rw [steps_erase, Clause.contained?_filter fun _ => rfl, searches]

end Sql.SelectChain

open Clause (isForward) in
/-- A SELECT that reverses a page.  Unless it asks whether some or every row satisfies a predicate, it
is rejected if the number of its reversals is odd or it searches a value among the rows; otherwise it
is written as if it had no reversals. -/
theorem reversed_pages_are_rejected {op : Operation} (reads : op.OnlyReads)
    (reverses : op.ReversesPage) (d : Dialect) (params : Json) :
    (Clause.terminal? [.any, .all] (chain op) = none →
      Clause.isReversed (chain op) = true ∨ Clause.contained? (chain op) ≠ none →
        ∃ e, op.sql d params = .error e ∧ e.IsSemantic) ∧
    (Clause.terminal? [.any, .all] (chain op) ≠ none ∨
      (Clause.isReversed (chain op) = false ∧ Clause.contained? (chain op) = none) →
        op.sql d params = (op.keeping isForward).sql d params) := by
  obtain ⟨before, kind, count, between, after, reverses⟩ := reverses
  have page : .page kind count ∈ chain op := by simp [reverses]
  have pages : (chain op).any Clause.isPage = true := List.any_eq_true.2 ⟨_, page, rfl⟩
  have late : ((chain op).dropWhile (!Clause.isPage ·)).any Clause.isReverse = true := by
    rw [reverses]
    exact Sql.SelectChain.any_isReverse_dropWhile
  have forward : (op.keeping isForward).sql d params =
      ((op.selectChain d params).erase isForward).statement :=
    reads.sql_keeping d params Sql.keepsRows_isForward.isFrom ⟨_, page, rfl⟩
  rw [reads.sql_eq_statement d params (List.ne_nil_of_mem page), forward]
  rw [← op.steps_selectChain d params] at *
  constructor
  · exact fun truth => Sql.SelectChain.statement_of_reversed truth pages late
  · exact fun ignored => (Sql.SelectChain.statement_erase_isForward ignored).symm

/-- The users by id, with further calls. -/
def usersById (calls : List MethodCall) : Node :=
  (BuilderForm.lambda ["q"]).build (fromUsers.withCalls (.of "orderBy" (columnOfRow "id") :: calls))

/-- `.reverse()` -/
def reverseCall : MethodCall :=
  ⟨.identifier "reverse", false, []⟩

/-- The first five users cannot be asked for in reverse. -/
theorem reversed_pages_are_rejected_usersById :
    ∃ query e, (usersById [.of "take" (.literal (.int 5)), reverseCall]).parseQuery = .ok query ∧
      query.operation.OnlyReads ∧ query.operation.ReversesPage ∧
      query.operation.sql .postgres .null = .error e ∧ e.IsSemantic := by
  have parses : ∃ query, (usersById [.of "take" (.literal (.int 5)), reverseCall]).parseQuery =
        .ok query ∧ query.operation.OnlyReads ∧ query.operation.ReversesPage ∧
      Clause.terminal? [.any, .all] (chain query.operation) = none ∧
      Clause.isReversed (chain query.operation) = true :=
    ⟨_, rfl, by unfold Operation.OnlyReads; decide, ⟨[_, _], _, _, [], [], rfl⟩, rfl, rfl⟩
  obtain ⟨query, parsed, reads, reverses, plain, odd⟩ := parses
  obtain ⟨e, refused, isSemantic⟩ :=
    (reversed_pages_are_rejected reads reverses .postgres .null).1 plain (.inl odd)
  exact ⟨query, e, parsed, reads, reverses, refused, isSemantic⟩

/-- Of the users in descending order the first five, in reverse, are those with the highest ids; what is
written asks for those with the lowest. -/
theorem reversed_page_can_be_ignored : ∃ query text,
    (usersById [reverseCall, .of "take" (.literal (.int 5)), reverseCall]).parseQuery = .ok query ∧
      query.operation.OnlyReads ∧ query.operation.ReversesPage ∧
      Clause.asksTruth (chain query.operation) = false ∧
      query.operation.sql .postgres .null = .ok text ∧
      text.render .postgres = "SELECT * FROM \"users\" ORDER BY \"id\" ASC LIMIT $(__p1)" :=
  ⟨_, _, rfl, by unfold Operation.OnlyReads; decide, ⟨[_, _, _], _, _, [], [], rfl⟩, rfl, rfl,
    by decide +kernel⟩

end FluentQuery
