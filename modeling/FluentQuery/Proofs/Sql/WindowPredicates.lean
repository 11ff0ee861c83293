import FluentQuery.Proofs.Operation.Statements
import FluentQuery.Proofs.Plan.Incremental
import FluentQuery.Proofs.Sql.TableNumbers

/-!
# Predicates over window results

SQL computes windows after it has filtered the rows, so a predicate over window results has to be one of
an outer query.  The normal form puts filters there, whatever comes between; the predicates of terminal
steps stay where they are written.  So predicates are kept apart from the windows of their statement
exactly if no terminal step tests window results that no filter has come after
(`Node.predicates_apart_from_windows_iff`).
-/

namespace FluentQuery

set_option autoImplicit false

namespace Step

/-- A projection that computes a window. -/
def computesWindow : Step → Bool
  | select selector => selector.hasWindow
  | _ => false

def hasPredicate (step : Step) : Bool :=
  step.predicate?.isSome

variable {step : Step}

theorem isFilter_of_isLowerable (h : step.isLowerable = true) : step.isFilter = false := by
  cases step <;> first | rfl | cases h

theorem hasPredicate_of_isLowerable (h : step.isLowerable = true) : step.hasPredicate = false := by
  cases step <;> first | rfl | cases h

end Step

namespace Operation

variable {op : Operation} {kind : Step → Bool}

/-- No step of a kind comes after a window in its statement. -/
def ApartFromWindows (kind : Step → Bool) (op : Operation) : Prop :=
  ∀ holder part, Part none op holder part →
    (chain part).Pairwise fun before after => before.computesWindow = true → kind after = false

/-- A window is selected by one of the steps of a statement. -/
theorem selectsWindow_eq_true_iff :
    selectsWindow op = true ↔ ∃ step ∈ level op, step.computesWindow = true := by
  induction op with
  | nil => simp [selectsWindow, level]
  | cons step earlier ih =>
    cases isFrom : step.isFrom with
    | true =>
      rw [level_from isFrom]
      cases step with
      | fromSource => simp [selectsWindow, Step.computesWindow]
      | _ => cases isFrom
    | false =>
      rw [level_step isFrom]
      simp only [List.mem_cons, exists_eq_or_imp]
      rw [← ih]
      cases step with
      | fromSource => cases isFrom
      | select selector => simp [selectsWindow, Step.computesWindow]
      | _ => simp [selectsWindow, Step.computesWindow]

theorem apartFromWindows_iff : op.ApartFromWindows kind ↔
    op.Everywhere fun step earlier => selectsWindow earlier = true → kind step = false := by
  unfold ApartFromWindows
  simp only [everywhere_iff_along, ← along_iff_pairwise, selectsWindow_eq_true_iff, exists_imp, and_imp]

/-- In the normal form the steps of a kind are apart from windows if none of them, filters excepted, is
called on window results that no filter has come after. -/
theorem apartFromWindows_normalize_iff
    (plain : ∀ step, step.isLowerable = true → kind step = false) :
    (normalize op).ApartFromWindows kind ↔ op.Everywhere fun step earlier =>
      windowed earlier = true → step.isFilter = false → kind step = false := by
  rw [apartFromWindows_iff]
  refine everywhere_normalize_iff (fun step earlier lowerable => ?_) (fun e op window => ?_)
    fun step op _ filters => ?_
  · exact ⟨fun _ => plain step lowerable, fun _ _ => plain step lowerable⟩
  · exact iff_of_true nofun nofun
  · rw [selectsWindow_normalize]
    cases isFilter : step.isFilter with
    | true =>
      cases step with
      | filter e => simp [filters e rfl]
      | _ => cases isFilter
    | false => exact ⟨fun h window _ => h window, fun h window => h window rfl⟩

/-- A filter of window results is the whole statement around the derived table of them. -/
theorem normalize_filter {e : Expr} (window : windowed op = true) :
    normalize (.filter e :: op) = [.filter e, .fromSource "" "" (normalize op) ""] := by
  have isFrom : (Step.filter e).isFrom = false := rfl
  have grown := grows_normalize isFrom op
  generalize normalize (Step.filter e :: op) = normal at grown ⊢
  cases grown with
  | moved e' is =>
    cases is
    rfl
  | kept filters =>
    have none := filters e rfl
    rw [selectsWindow_normalize, window] at none
    cases none
  | dropped is | flattened _ _ _ _ _ _ _ _ _ _ _ _ is | crossed _ _ _ _ _ is => cases is

/-- No terminal step has a predicate over window results that no filter has come after. -/
def TestsNoWindow (op : Operation) : Prop :=
  op.Everywhere fun step earlier =>
    windowed earlier = true → step.isTerminal = true → step.hasPredicate = false

instance (op : Operation) : Decidable op.TestsNoWindow :=
  decidable_of_iff (passes (fun step earlier =>
      !windowed earlier || !step.isTerminal || !step.hasPredicate) op) <| by
    rw [passes_iff, TestsNoWindow]
    simp only [Bool.or_eq_true, Bool.not_eq_true', ← Bool.not_eq_true, Decidable.imp_iff_not_or,
      or_assoc]

end Operation

namespace Node

open Operation (windowed)

/-- In the statements of a parsed query no filter comes after a window, because filters of window
results are put around them; and no predicate does, exactly if no terminal step has a predicate over
window results that no filter has come after. -/
theorem predicates_apart_from_windows_iff {builder : Node} {q : ParsedQuery}
    (parsed : builder.parseQuery = .ok q) :
    ∃ op, builder.written? = some op ∧ q.operation = op.normalize ∧
      q.operation.ApartFromWindows Step.isFilter ∧
      (op.Everywhere fun step earlier => ∀ e, step = .filter e → windowed earlier = true →
        Operation.normalize (step :: earlier) =
          [.filter e, .fromSource "" "" earlier.normalize ""]) ∧
      (q.operation.ApartFromWindows Step.hasPredicate ↔ op.TestsNoWindow) := by
  obtain ⟨op, written, operation, -⟩ := written_of_parseQuery parsed
  refine ⟨op, written, operation, ?_, ?_, ?_⟩
  · rw [operation, Operation.apartFromWindows_normalize_iff fun _ => Step.isFilter_of_isLowerable]
    exact Operation.everywhere_of fun _ _ _ notFilter => notFilter
  · refine Operation.everywhere_of fun step earlier e is window => ?_
    rw [is]
    exact Operation.normalize_filter window
  · rw [operation, Operation.apartFromWindows_normalize_iff fun _ => Step.hasPredicate_of_isLowerable]
    -- Besides filters only terminal steps have predicates.
    refine Operation.everywhere_congr fun step earlier => ?_
    cases step <;> simp [Step.isFilter, Step.isTerminal, Step.hasPredicate, Step.predicate?]

/-- The users numbered by their ids, with a further call. -/
def numberedUsersWith (c : MethodCall) : Node :=
  (BuilderForm.lambda ["q", "p", "h"]).build (fromUsers.withCalls (numberedUsers ++ [c]))

/-- The users with the number `p.n`, and of these the first that is active. -/
theorem predicates_apart_from_windows_numberedUsers : ∃ q,
    (numberedUsersWith (.of "first" (columnOfRow "active"))).parseQuery = .ok q ∧
      q.operation.ApartFromWindows Step.isFilter ∧ q.operation.ApartFromWindows Step.hasPredicate := by
  have parses : (numberedUsersWith (.of "first" (columnOfRow "active"))).parseQuery.isOk = true := by
    decide +kernel
  obtain ⟨q, parsed⟩ := outcome_isOk_iff.1 parses
  have apart : (numberedUsersWith (.of "first" (columnOfRow "active"))).written?.any
      (fun op => op.TestsNoWindow) = true := by decide +kernel
  obtain ⟨op, written, -, filters, -, iff⟩ := predicates_apart_from_windows_iff parsed
  rw [written] at apart
  exact ⟨q, parsed, filters, iff.2 (of_decide_eq_true apart)⟩

/-- The users numbered by their ids, and of these the first with the number `p.n`. -/
def firstNumberedUser : Node :=
  (BuilderForm.lambda ["q", "p", "h"]).build <| fromUsers.withCalls <|
    numberedUsers.take 2 ++ [.of "first" (.arrow ["row"]
      (.binary "===" ((identifier "row").dot "number") ((identifier "p").dot "n")))]

def firstNumberedUserSql : String :=
  "SELECT \"id\" AS \"id\", ROW_NUMBER() OVER (ORDER BY \"id\" ASC) AS \"number\" " ++
    "FROM \"users\" WHERE \"number\" = $(n) ORDER BY \"name\" ASC LIMIT 1"

/-- The number of a user is tested where it is computed. -/
theorem window_tested_by_first : ∃ q text, firstNumberedUser.parseQuery = .ok q ∧
    ¬ q.operation.ApartFromWindows Step.hasPredicate ∧
    q.operation.sql .postgres .null = .ok text ∧ text.render .postgres = firstNumberedUserSql := by
  have together : firstNumberedUser.parseQuery.toOption.any (fun q =>
      ¬ (Operation.chain q.operation).Pairwise fun before after =>
        before.computesWindow = true → after.hasPredicate = false) = true := by decide +kernel
  have text : (firstNumberedUser.parseQuery >>= fun q =>
      (·.render .postgres) <$> q.operation.sql .postgres .null) = .ok firstNumberedUserSql := by
    decide +kernel
  obtain ⟨q, parsed, text⟩ := outcome_bind_eq_ok.1 text
  obtain ⟨fragment, written, rendered⟩ := outcome_map_eq_ok.1 text
  rw [parsed] at together
  exact ⟨q, fragment, parsed, fun apart => of_decide_eq_true together (apart none _ (.whole none _)),
    written, rendered⟩

end Node

end FluentQuery
