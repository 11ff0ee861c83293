import FluentQuery.Proofs.Expr.Evaluation
import FluentQuery.Proofs.Policy.Coverage
import FluentQuery.Proofs.Policy.UpdateCheck
import FluentQuery.Proofs.Sql.UpdateText

/-!
# Updated rows and their filter

Main statement: `update_keeps_rows_permitted_iff`.  An UPDATE checks its filter on the row as it is
and on the row as it will be.  The second check puts assigned values in the place of columns that are
read as values; a column that is itself a predicate, a flag, is left alone.  The check is therefore
about the row as it will be exactly if the flags of the filter keep their values.
-/

namespace FluentQuery

set_option autoImplicit false

open FluentQuery.Expr

/-- The flags of an expression are assigned nothing but themselves. -/
def KeepsFlags (values : Assoc Expr) (e : Expr) : Prop :=
  ∀ name, .booleanColumn name "" none ∈ e.walk → ∀ value, values.find? name = some value →
    value = .column name "" none ∨ value = .booleanColumn name "" none

variable {V : Type} {values : Assoc Expr} {e : Expr}

/-- A flag that is assigned itself has the same value afterwards. -/
theorem KeepsFlags.after (keeps : KeepsFlags values e) (E : Evaluation V) (row : String → V)
    {name : String} (flag : .booleanColumn name "" none ∈ e.walk) :
    E.after row values name = row name := by
  unfold Evaluation.after
  split
  · rename_i value hvalue
    rcases keeps name flag value hvalue with rfl | rfl
    · exact E.column row name
    · exact E.booleanColumn row name
  · rfl

namespace Filtering

/-- Putting assigned values in the place of columns is evaluating on the row after the assignments,
if flags keep their values. -/
theorem value_assigned (E : Evaluation V) (direct : e.Every IsDirect) (keeps : KeepsFlags values e)
    (row : String → V) :
    E.value row (replace (assigned values) e) = E.value (E.after row values) e := by
  refine E.value_replace (onLeaves_assigned values) e fun n hn => ?_
  obtain ⟨hwalk, leaf⟩ := mem_leaves.1 hn
  have hdirect := direct n hwalk
  cases n with
  | column name table source =>
    obtain ⟨rfl, rfl⟩ := hdirect
    rw [E.column, Evaluation.after]
    cases hvalue : values.find? name with
    | some value => simp [assigned, hvalue]
    | none => simp [assigned, hvalue, E.column]
  | booleanColumn name table source =>
    obtain ⟨rfl, rfl⟩ := hdirect
    rw [E.booleanColumn, keeps.after E row hwalk]
    exact E.booleanColumn row name
  | excludedColumn | reference | allColumns => exact hdirect.elim
  | _ => exact E.value_of_blind _ _ rfl leaf

/-- An expression that becomes a column when columns stand for themselves is that column. -/
theorem eq_column_of_replace {value : Expr} {name : String}
    (h : Evaluation.normal value = .column name "" none) :
    value = .column name "" none ∨ value = .booleanColumn name "" none := by
  have onLeaves := Evaluation.onLeaves_readRow Evaluation.openRow
  by_cases habs : value = absent
  · subst habs
    cases h
  by_cases leaf : value.children = []
  · rw [Evaluation.normal, replace_leaf _ habs leaf] at h
    cases value with
    | column other table source =>
      by_cases hdirect : table = "" ∧ source = none
      · rw [Evaluation.readRow, if_pos hdirect] at h
        obtain ⟨rfl, rfl⟩ := hdirect
        exact .inl h
      · rw [Evaluation.readRow, if_neg hdirect] at h
        exact .inl h
    | booleanColumn other table source =>
      by_cases hdirect : table = "" ∧ source = none
      · rw [Evaluation.readRow, if_pos hdirect] at h
        obtain ⟨rfl, rfl⟩ := hdirect
        cases h
        exact .inr rfl
      · rw [Evaluation.readRow, if_neg hdirect] at h
        cases h
    | _ => cases h
  · have below := congrArg children h
    rw [Evaluation.normal, replace_node onLeaves leaf, children_withChildren _ _ (by simp)] at below
    exact absurd (List.map_eq_nil_iff.1 below) leaf

/-- The check says what the filter will say, whatever expressions mean, only if flags keep their
values. -/
theorem value_assigned_iff (direct : e.Every IsDirect) :
    (∀ (V : Type) (E : Evaluation V) row,
      E.value row (replace (assigned values) e) = E.value (E.after row values) e) ↔
      KeepsFlags values e := by
  constructor
  · intro same name flag value hvalue
    -- Let expressions mean themselves, on the row whose columns are themselves.
    have syntactic := same Expr (Evaluation.syntactic fun _ => True) Evaluation.openRow
    have leaf := replace_replace_leaf (Evaluation.onLeaves_readRow _) (onLeaves_assigned values)
      (Evaluation.onLeaves_readRow _) syntactic (.booleanColumn name "" none)
      (mem_leaves.2 ⟨flag, rfl⟩)
    have later : (Evaluation.syntactic fun _ => True).after Evaluation.openRow values name =
        .column name "" none := leaf.symm
    rw [Evaluation.after, hvalue] at later
    exact eq_column_of_replace later
  · intro keeps V E row
    exact value_assigned E direct keeps row

/-- Columns that are assigned to are no predicates. -/
theorem keeps_assigned (values : Assoc Expr) (n x : Expr) (hn : n.isBoolean = true)
    (hx : assigned values n = some x) : x.isBoolean = true := by
  cases n with
  | column => cases hn
  | _ => cases hx

theorem isBoolean_checkOf {filter : RowFilter} (h : filter.predicate.isBoolean = true)
    (s : UpdateStatement) (params : Json) : (checkOf s params filter).isBoolean = true :=
  isBoolean_replace (onLeaves_assigned _) (keeps_assigned _) h

/-- Applying filters to an UPDATE of a table that has one adds that filter, twice. -/
theorem filtered_update {filters : RowFilters} {statement : UpdateStatement} {rest : Operation}
    {params context : Json} {memo : RowFilterMemo} {counter : Int} {result : BoundQuery}
    {s : FilterState} {key : String} {config : TableFilters} {predicate : Node}
    (sound : memo.Sound filters.tables)
    (hfind : filters.find? statement.schema statement.table = some (key, config))
    (hpredicate : config.onUpdate = some predicate)
    (run : filtered filters context ⟨.update statement :: rest, params⟩ { memo, counter } =
      .ok result s) :
    ∃ filter number, RowFilter.parse predicate key .update number = .ok filter ∧
      result.operation = .update { statement with
        predicate := conj (conj statement.predicate filter.predicate)
          (checkOf statement result.params filter) } :: rest := by
  obtain ⟨decision, s₁, hdecision, run⟩ := bind_eq_ok.1 run
  obtain ⟨sound₁, -, decides⟩ :=
    (ensures_filterFor (FilterState.sound_initial sound counter) _ _ _).of_ok hdecision
  obtain ⟨filter, number, rfl, hparse⟩ := decides.declared sound₁ hfind hpredicate
  obtain ⟨final, s₂, -, run⟩ := bind_eq_ok.1 run
  obtain ⟨changed, s₃, hchanged, run⟩ := bind_eq_ok.1 run
  cases run
  rw [restrictUpdate_eq_ok (ofExcept_eq_ok hchanged).1]
  exact ⟨filter, number, hparse, rfl⟩

end Filtering

/-- An UPDATE that is filtered and written touches permitted rows only.  If its filter accesses columns
of the row directly and the flags of the filter keep their values, then the rows it touches stay
permitted after the assignments that are emitted.  They do so exactly if its condition has every part
of the filter for the row as it will be; its check is that filter exactly if flags keep their
values. -/
theorem update_keeps_rows_permitted_iff {filters : RowFilters} {statement : UpdateStatement}
    {rest : Operation} {params context : Json} {counter : Int} {memo memo' : RowFilterMemo}
    {result : BoundQuery} {d : Dialect} {sql : Fragment} {key : String} {config : TableFilters}
    {predicate : Node} (bound : filters.context = some context)
    (remembered : Remembered filters.tables memo)
    (hfind : filters.find? statement.schema statement.table = some (key, config))
    (hpredicate : config.onUpdate = some predicate)
    (run : filters.apply ⟨.update statement :: rest, params⟩ counter memo = .ok result memo')
    (written : result.operation.sql d result.params = .ok sql) :
    ∃ filter number final, RowFilter.parse predicate key .update number = .ok filter ∧
      result.operation = .update final :: rest ∧ final.assignments = statement.assignments ∧
      Sql.EmitsUpdate ⟨d, result.params, [], false⟩ final sql ∧
      (∀ (V : Type) (E : Evaluation V) row, E.holds (E.value row final.predicate) →
        E.holds (E.value row filter.predicate)) ∧
      (filter.predicate.Every IsDirect →
        (KeepsFlags (Filtering.newValues statement result.params) filter.predicate →
          Guarantees (Filtering.newValues statement result.params) final.predicate
            filter.predicate) ∧
        (Guarantees (Filtering.newValues statement result.params) final.predicate
            filter.predicate ↔
          ∀ part ∈ (Evaluation.afterwards (Filtering.newValues statement result.params)
            filter.predicate).conjuncts, part ∈ (Evaluation.normal final.predicate).conjuncts) ∧
        ((∀ (V : Type) (E : Evaluation V) row,
            E.value row (Filtering.checkOf statement result.params filter) =
              E.value (E.after row (Filtering.newValues statement result.params))
                filter.predicate) ↔
          KeepsFlags (Filtering.newValues statement result.params) filter.predicate)) := by
  obtain ⟨s, hfiltered⟩ := RowFilters.apply_eq_ok rfl bound run
  obtain ⟨filter, number, hparse, hoperation⟩ :=
    Filtering.filtered_update remembered.sound hfind hpredicate hfiltered
  have isPredicate := RowFilter.isBoolean_of_parse hparse
  have filterPresent := ne_absent_of_isBoolean isPredicate
  have checkPresent := ne_absent_of_isBoolean
    (Filtering.isBoolean_checkOf isPredicate statement result.params)
  rw [hoperation] at written
  refine ⟨filter, number, _, hparse, hoperation, rfl, Sql.emitsUpdate written, ?_, ?_⟩
  · intro V E row h
    have both : conj statement.predicate filter.predicate ≠ absent :=
      conj_ne_absent_right filterPresent
    exact E.holds_of_conj_right filterPresent (E.holds_of_conj_left both h)
  · intro direct
    refine ⟨fun keeps V E row h => ?_, guarantees_iff direct, Filtering.value_assigned_iff direct⟩
    rw [← Filtering.value_assigned E direct keeps row]
    exact E.holds_of_conj_right checkPresent h

/-- `UPDATE users SET state = …` -/
def changeState : UpdateStatement where
  table := "users"
  schema := ""
  assignments := some [("state", .param "__p1" "" none)]

/-- Users whose state is changed stay users of the organisation that are not in state zero. -/
theorem update_keeps_rows_permitted_iff_changeState :
    ∃ result memo' sql filter number final,
      organisationFilters.apply ⟨[.update changeState], .obj [("__p1", .int 1)]⟩ 1 [] =
        .ok result memo' ∧
      result.operation.sql .postgres result.params = .ok sql ∧
      RowFilter.parse ownOrganisation "users" .update number = .ok filter ∧
      result.operation = [.update final] ∧
      Guarantees (Filtering.newValues changeState result.params) final.predicate
        filter.predicate := by
  have succeeds : ∃ result memo' sql,
      organisationFilters.apply ⟨[.update changeState], .obj [("__p1", .int 1)]⟩ 1 [] =
        .ok result memo' ∧ result.operation.sql .postgres result.params = .ok sql :=
    ⟨_, _, _, rfl, rfl⟩
  obtain ⟨result, memo', sql, run, written⟩ := succeeds
  have hfind : organisationFilters.find? changeState.schema changeState.table =
      some ("users", .uniform ownOrganisation) := rfl
  obtain ⟨filter, number, final, hparse, hfinal, -, -, -, checked⟩ :=
    update_keeps_rows_permitted_iff rfl .empty hfind rfl run written
  have predicate : filter.predicate = .logical .and
      (.comparison .eq (.column "org" "" none)
        (.param (RowFilter.contextParam "org") "" none))
      (.comparison .neq (.column "state" "" none)
        (.param (Scope.autoParamName (number + 1)) "" none)) := by
    cases hparse
    rfl
  have direct : filter.predicate.Every IsDirect := by
    simp [predicate, IsDirect]
  have noFlags : KeepsFlags (Filtering.newValues changeState result.params) filter.predicate := by
    intro name flag
    simp [predicate, walk] at flag
  exact ⟨result, memo', sql, filter, number, final, run, written, hparse, hfinal,
    (checked direct).1 noFlags⟩

/-- Active users: `row => row.active`. -/
def activeRows : Node :=
  .arrow ["row"] (.member (.identifier "row") (.identifier "active") false)

def activeFilters : RowFilters where
  tables := [("users", .uniform activeRows)]
  context := some (.obj [])
  memo := 0

/-- `UPDATE users SET active = …` -/
def deactivate : UpdateStatement where
  table := "users"
  schema := ""
  assignments := some [("active", .param "__p1" "" none)]

/-- The predicate of an UPDATE that sets a flag of its filter to false holds on a row that has the
flag, and afterwards the filter does not hold. -/
theorem update_moves_row_out_of_filter :
    ∃ final memo' sql filter,
      activeFilters.apply ⟨[.update deactivate], .obj [("__p1", .bool false)]⟩ 1 [] =
        .ok ⟨[.update final], .obj [("__p1", .bool false)]⟩ memo' ∧
      Operation.sql .postgres (.obj [("__p1", .bool false)]) [.update final] = .ok sql ∧
      RowFilter.parse activeRows "users" .update 1 = .ok filter ∧
      filter.predicate.Every IsDirect ∧
      ∃ (E : Evaluation Bool) (row : String → Bool), E.holds (E.value row final.predicate) ∧
        ¬ E.holds (E.value (E.after row
          (Filtering.newValues deactivate (.obj [("__p1", .bool false)]))) filter.predicate) := by
  let flag : Expr := .booleanColumn "active" "" none
  refine ⟨{ deactivate with predicate := .logical .and flag flag }, _, _, ⟨flag, [], [], 1⟩,
    rfl, rfl, rfl, ?_, Evaluation.boolean fun _ => false, fun _ => true, ?_, ?_⟩
  · simp [flag, IsDirect]
  · exact Bool.and_true true
  · exact Bool.false_ne_true

end FluentQuery
