import FluentQuery.Proofs.Resolve.Rows
import FluentQuery.Proofs.Sql.Aliases
import FluentQuery.Query

/-!
# Numbers and aliases

The number that a lambda parameter stands for is given out while a chain is resolved; the alias of a
table is given out when a statement is written, from the normal form of the chain.  The two agree as
long as joins stand together.  `Operation.writesNumbers` says what a statement then names by its
aliases, `Operation.avoids_sql` that no alias is missing, and `Node.table_numbers_of_parseQuery` puts
this together for parsed queries.
-/

namespace FluentQuery

set_option autoImplicit false

open Sql

namespace Operation

variable (d : Dialect) (params : Json)

/-! ### Joins -/

/-- The joins of a statement, as they are written. -/
def joinSources (op : Operation) : List JoinSource :=
  Sql.joinSources (op.selectChain d params).rendered

theorem joinSources_append (steps more : List RenderedStep) :
    Sql.joinSources (steps ++ more) = Sql.joinSources steps ++ Sql.joinSources more := by
  fun_induction Sql.joinSources steps with
  | case1 => rfl
  | case2 kind inner keys selector shape nested rest ih => exact congrArg _ ih
  | case3 step rest other ih =>
    rw [List.cons_append, Sql.joinSources, ih]
    exact other

variable {step : Step} (earlier : Operation)

theorem joinSources_from (isFrom : step.isFrom = true) :
    joinSources d params (step :: earlier) = [] := by
  cases step with
  | fromSource table schema subquery aliasHint =>
    unfold joinSources selectChain chain
    rw [level_from rfl]
    simp only [List.reverse_singleton, List.map_singleton, renderStep]
    rfl
  | _ => cases isFrom

theorem joinSources_step (isFrom : step.isFrom = false) :
    joinSources d params (step :: earlier) =
      joinSources d params earlier ++ Sql.joinSources [renderStep d params step] := by
  unfold joinSources selectChain chain
  rw [level_step isFrom, List.reverse_cons, List.map_append, joinSources_append]
  rfl

/-- A step with SQL of its own is a join, or adds none. -/
theorem joinSources_cases (lowered : SelectChain.IsLowered step) :
    (∃ kind inner keys selector shape, step = .join kind inner keys selector shape ∧
      Sql.joinSources [renderStep d params step] =
        [⟨kind, inner, keys, (renderStep d params step).nested⟩]) ∨
      step.joined? = none ∧ Sql.joinSources [renderStep d params step] = [] := by
  cases step with
  | join kind inner keys selector shape =>
    refine .inl ⟨kind, inner, keys, selector, shape, rfl, ?_⟩
    have same := step_renderStep d params (.join kind inner keys selector shape)
    generalize renderStep d params (.join kind inner keys selector shape) = rendered at same ⊢
    obtain ⟨step, nested⟩ := rendered
    cases same
    rfl
  | groupJoin | selectMany => exact lowered.elim
  | _ =>
    refine .inr ⟨rfl, ?_⟩
    simp only [renderStep]
    rfl

/-- The joins that are written for a statement, step by step. -/
inductive Joins : Operation → List JoinSource → Prop where
  | nil : Joins [] []
  | start {step : Step} (isFrom : step.isFrom = true) (earlier : Operation) :
      Joins (step :: earlier) []
  | join (kind : JoinKind) (inner : Operation) (keys : JoinKeys) (selector : Expr)
      (shape : Option ResultShape) {earlier : Operation} {joins : List JoinSource}
      (below : Joins earlier joins) :
      Joins (.join kind inner keys selector shape :: earlier) (joins ++
        [⟨kind, inner, keys, (renderStep d params (.join kind inner keys selector shape)).nested⟩])
  | other {step : Step} (isFrom : step.isFrom = false) (joinless : step.joined? = none)
      {earlier : Operation} {joins : List JoinSource}
      (below : Joins earlier joins) : Joins (step :: earlier) joins

theorem joins_joinSources {op : Operation}
    (lowered : ∀ step ∈ level op, SelectChain.IsLowered step) :
    Joins d params op (joinSources d params op) := by
  induction op with
  | nil => exact .nil
  | cons step earlier ih =>
    cases isFrom : step.isFrom with
    | true =>
      rw [joinSources_from d params earlier isFrom]
      exact .start isFrom earlier
    | false =>
      rw [forall_level_step isFrom] at lowered
      have below := ih lowered.2
      rw [joinSources_step d params earlier isFrom]
      rcases joinSources_cases d params lowered.1 with
        ⟨kind, inner, keys, selector, shape, rfl, written⟩ | ⟨joinless, written⟩
      · rw [written]
        exact .join kind inner keys selector shape below
      · rw [written, List.append_nil]
        exact .other isFrom joinless below

namespace Joins

variable {d params} {op : Operation} {joins : List JoinSource}

/-- What is written as joined is what the operation joins. -/
theorem inner (h : Joins d params op joins) : joins.map JoinSource.inner = joined op := by
  induction h with
  | nil => rfl
  | start isFrom earlier => rw [joined_from isFrom]; rfl
  | join kind inner keys selector shape below ih =>
    rw [List.map_append, ih, joined_step rfl]
    rfl
  | other isFrom joinless below ih =>
    rw [joined_step isFrom, joinless, ih]
    exact (List.append_nil _).symm

theorem length (h : Joins d params op joins) : joins.length = (joined op).length := by
  rw [← h.inner, List.length_map]

/-- The outer key of a join belongs to a table before it. -/
theorem outer (h : Joins d params op joins) (earlier : OuterKeysEarlier 0 op) :
    ∀ (k : Nat) (join : JoinSource), joins[k]? = some join →
      ∀ i ∈ join.keys.outerSource, 0 ≤ i ∧ i < (k + 1 : Int) := by
  induction h with
  | nil => exact fun _ _ found => nomatch found
  | start => exact fun _ _ found => nomatch found
  | other isFrom _ below ih => exact ih ((outerKeysEarlier_step isFrom _).1 earlier).2
  | join kind inner keys selector shape below ih =>
    obtain ⟨here, earlier⟩ := (outerKeysEarlier_step rfl _).1 earlier
    intro k join found i hi
    rw [List.getElem?_append] at found
    split at found
    · exact ih earlier k join found i hi
    · rw [List.getElem?_singleton] at found
      split at found
      · cases found
        have bound := here i hi
        have length := below.length
        omega
      · cases found

/-- Every join is that of a step. -/
theorem mem_level (h : Joins d params op joins) :
    ∀ join ∈ joins, ∃ selector shape,
      .join join.kind join.inner join.keys selector shape ∈ level op ∧ join.nested =
        (renderStep d params (.join join.kind join.inner join.keys selector shape)).nested := by
  induction h with
  | nil => exact fun _ found => nomatch found
  | start => exact fun _ found => nomatch found
  | other isFrom _ below ih =>
    intro join hjoin
    obtain ⟨selector, shape, hstep, same⟩ := ih join hjoin
    refine ⟨selector, shape, ?_, same⟩
    rw [level_step isFrom]
    exact List.mem_cons_of_mem _ hstep
  | join kind inner keys selector shape below ih =>
    rw [level_step rfl]
    intro join hjoin
    rcases List.mem_append.1 hjoin with hjoin | hjoin
    · obtain ⟨selector, shape, hstep, same⟩ := ih join hjoin
      exact ⟨selector, shape, List.mem_cons_of_mem _ hstep, same⟩
    · cases List.mem_singleton.1 hjoin
      exact ⟨selector, shape, List.mem_cons_self .., rfl⟩

end Joins

end Operation

/-! ### The clauses that introduce aliases -/

namespace Sql

theorem aliasFor_tableAliases (scope : SqlScope) {count : Nat}
    (aliases : scope.aliases = tableAliases count) {i : Int} (nonneg : 0 ≤ i) (lt : i < count) :
    scope.aliasFor i = .ok (tableAlias i.toNat) := by
  have inside : i.toNat < count := by omega
  unfold SqlScope.aliasFor
  rw [if_neg (by omega), aliases, tableAliases, List.getElem?_map, List.getElem?_range inside]
  rfl

/-- A JOIN clause; the outer key is qualified by the alias of the table with its number. -/
def joinText (join : JoinSource) (index : Nat) (target : Fragment) : Fragment :=
  let clause := Fragment.text (joinKeyword join.kind ++ " ") ++ target
  if join.kind = .cross then clause
  else clause ++ Fragment.text
    (" ON " ++ quoteIdentifier (tableAlias (join.keys.outerSource.getD 0).toNat) ++ "." ++
      quoteIdentifier join.keys.outer ++ " = " ++ quoteIdentifier (tableAlias index) ++ "." ++
      quoteIdentifier join.keys.inner)

/-- A join whose outer key belongs to a table before it fails only if what is joined fails. -/
theorem joinClause_eq (scope : SqlScope) {join : JoinSource} {index : Nat}
    (outer : ∀ i ∈ join.keys.outerSource, 0 ≤ i ∧ i < (index : Int)) :
    joinClause scope join index = joinText join index <$> joinTarget join (tableAlias index) := by
  have bound : 0 ≤ join.keys.outerSource.getD 0 ∧
      join.keys.outerSource.getD 0 < ((index + 1 : Nat) : Int) := by
    cases hsource : join.keys.outerSource with
    | none => exact ⟨Int.le_refl 0, Int.natCast_pos.2 index.succ_pos⟩
    | some i =>
      obtain ⟨nonneg, lt⟩ := outer i hsource
      exact ⟨nonneg, Int.lt_trans lt (Int.ofNat_lt.2 index.lt_succ_self)⟩
  unfold joinClause joinText
  cases joinTarget join (tableAlias index) with
  | error e => rfl
  | ok target =>
    have named := aliasFor_tableAliases { scope with aliases := tableAliases (index + 1) } rfl
      bound.1 bound.2
    simp only [named]
    by_cases cross : join.kind = .cross
    · simp only [cross, if_true]
      rfl
    · simp only [cross, if_false]
      rfl

variable {scope : SqlScope}

theorem joinClauses_getElem? {joins : List JoinSource} {first : Nat} {texts : List Fragment}
    (h : joinClauses scope joins first = .ok texts) {k : Nat} {join : JoinSource}
    (found : joins[k]? = some join) :
    ∃ text, joinClause scope join (first + k) = .ok text ∧ texts[k]? = some text := by
  induction joins generalizing first texts k with
  | nil => cases found
  | cons head rest ih =>
    unfold joinClauses at h
    obtain ⟨text, hhead, h⟩ := outcome_bind_eq_ok.1 h
    obtain ⟨others, hrest, h⟩ := outcome_bind_eq_ok.1 h
    cases h
    cases k with
    | zero =>
      cases found
      exact ⟨text, hhead, rfl⟩
    | succ k =>
      obtain ⟨other, hother, same⟩ := ih hrest found
      refine ⟨other, ?_, same⟩
      rwa [Nat.add_assoc, Nat.add_comm 1 k] at hother

namespace SelectChain

/-- What the FROM and JOIN clauses of a chain are, and what they introduce. -/
theorem sources_eq_ok {c : SelectChain} {clauses : List Fragment} {scope : SqlScope}
    (h : c.sources = .ok (clauses, scope)) :
    let joins := joinSources c.rendered
    ∃ table schema subquery aliasHint nested start aliases texts,
      ⟨.fromSource table schema subquery aliasHint, nested⟩ ∈ c.rendered ∧
      fromClause (!joins.isEmpty) table schema subquery aliasHint nested = .ok (start, aliases) ∧
      joinClauses ⟨c.dialect, c.params, [], !joins.isEmpty⟩ joins 1 = .ok texts ∧
      clauses = start :: texts ∧
      scope = ⟨c.dialect, c.params,
        if joins.isEmpty then aliases else tableAliases (joins.length + 1), !joins.isEmpty⟩ := by
  intro joins
  unfold sources at h
  dsimp only at h
  split at h
  · rename_i table schema subquery aliasHint nested found
    obtain ⟨⟨start, aliases⟩, hstart, h⟩ := outcome_bind_eq_ok.1 h
    obtain ⟨texts, htexts, h⟩ := outcome_bind_eq_ok.1 h
    cases h
    exact ⟨table, schema, subquery, aliasHint, nested, start, aliases, texts,
      List.mem_of_find?_eq_some found, hstart, htexts, rfl, rfl⟩
  · cases h

end SelectChain

end Sql

/-! ### Statements whose numbers are those of their tables -/

/-- A scope knows the tables of a statement by their numbers, if it knows them at all. -/
structure SqlScope.Fits (scope : SqlScope) (op : Operation) : Prop where
  hasJoins : scope.hasJoins = !op.joined.isEmpty
  aliases : op.joined ≠ [] → scope.aliases = tableAliases (op.joined.length + 1)

namespace Operation

/-- What a table of a statement is called: only a statement that joins names its tables. -/
def alias? (op : Operation) (i : Int) : Option String :=
  if op.joined.isEmpty then none else some (tableAlias i.toNat)

/-- A statement that joins anything has the tables that it names by number. -/
structure Aligned (op : Operation) : Prop where
  indices : op.joined ≠ [] → ∀ step ∈ level op, ∀ i ∈ step.tableIndices, op.HasTable i
  outer : op.joined ≠ [] → OuterKeysEarlier 0 op

theorem hasTable_zero (op : Operation) : op.HasTable 0 :=
  ⟨Int.le_refl 0, by omega⟩

end Operation

namespace SqlScope.Fits

variable {op : Operation} {scope : SqlScope} (fits : scope.Fits op)

include fits

theorem aliasFor {i : Int} (joins : op.joined ≠ []) (has : op.HasTable i) :
    scope.aliasFor i = .ok (tableAlias i.toNat) :=
  aliasFor_tableAliases scope (fits.aliases joins) has.1 (by have := has.2; omega)

theorem registers {i : Int} (has : op.joined ≠ [] → op.HasTable i) : scope.Registers i := by
  intro joins
  have nonempty : op.joined ≠ [] := by
    rw [fits.hasJoins] at joins
    simpa using joins
  exact ⟨_, fits.aliasFor nonempty (has nonempty)⟩

/-- A number is qualified by the alias of the table it is the number of. -/
theorem qualifier (table : String) {source : Option ColumnSource} {i : Int}
    (index : Expr.sourceIndex? source = some i) (has : op.joined ≠ [] → op.HasTable i) :
    scope.qualifier table source = .ok (op.alias? i) := by
  have indexed : (if scope.hasJoins then some <$> scope.aliasFor i else .ok none) =
      .ok (op.alias? i) := by
    rw [fits.hasJoins, Operation.alias?]
    by_cases joins : op.joined = []
    · simp [joins]
    · have nonempty : op.joined.isEmpty = false := by simpa using joins
      rw [fits.aliasFor joins (has joins), nonempty]
      rfl
  cases source with
  | none => cases index
  | some source =>
    cases source with
    | direct | table => cases index
    | joinParam | joinResult | spread =>
      cases index
      exact indexed

end SqlScope.Fits

namespace Operation

variable {d : Dialect} {params : Json} {op : Operation}

/-- The scope of a statement knows the tables of the statement. -/
theorem fits_sources (lowered : ∀ step ∈ level op, SelectChain.IsLowered step)
    {clauses : List Fragment} {scope : SqlScope}
    (h : (op.selectChain d params).sources = .ok (clauses, scope)) : scope.Fits op := by
  have joins := joins_joinSources d params lowered
  have same : (joinSources d params op).isEmpty = op.joined.isEmpty := by
    rw [← joins.inner, List.isEmpty_map]
  obtain ⟨_, _, _, _, _, _, aliases, _, -, -, -, -, rfl⟩ := SelectChain.sources_eq_ok h
  refine ⟨congrArg (!·) same, fun nonempty => ?_⟩
  have nonempty : (joinSources d params op).isEmpty = false := by
    rw [same]
    simpa using nonempty
  have named : (if (joinSources d params op).isEmpty then aliases
      else tableAliases ((joinSources d params op).length + 1)) =
        tableAliases (op.joined.length + 1) := by
    rw [nonempty, joins.length]
    rfl
  exact named

theorem avoids_joinClauses_of_aligned (aligned : op.Aligned)
    (nested : ∀ step ∈ level op,
      Avoids (CompileError.Has SqlFault.IsNoAlias) (renderStep d params step).nested)
    (lowered : ∀ step ∈ level op, SelectChain.IsLowered step) (scope : SqlScope) :
    Avoids (CompileError.Has SqlFault.IsNoAlias)
      (joinClauses scope (joinSources d params op) 1) := by
  have joins := joins_joinSources d params lowered
  refine avoids_joinClauses fun k join found => ?_
  have nonempty : op.joined ≠ [] := by
    rw [← joins.inner]
    exact List.ne_nil_of_mem (List.mem_map_of_mem (List.mem_of_getElem? found))
  rw [joinClause_eq scope fun i hi => ?_]
  · obtain ⟨selector, shape, hstep, same⟩ := joins.mem_level join (List.mem_of_getElem? found)
    refine (avoids_joinTarget _ ?_).map
    rw [same]
    exact nested _ hstep
  · obtain ⟨nonneg, lt⟩ := joins.outer (aligned.outer nonempty) k join found i hi
    exact ⟨nonneg, by omega⟩

theorem sourced_of_aligned (aligned : op.Aligned)
    (nested : ∀ step ∈ level op,
      Avoids (CompileError.Has SqlFault.IsNoAlias) (renderStep d params step).nested)
    (lowered : ∀ step ∈ level op, SelectChain.IsLowered step) :
    (op.selectChain d params).Sourced SqlFault.IsNoAlias := by
  refine ⟨SelectChain.avoids_sources SqlFault.within_isNoAlias ?_
    (avoids_joinClauses_of_aligned aligned nested lowered), ?_⟩
  · intro rendered hrendered
    obtain ⟨step, hstep, rfl⟩ := List.mem_map.1 hrendered
    exact nested step (List.mem_reverse.1 hstep)
  · intro clauses scope found step hstep
    rw [steps_selectChain] at hstep
    have mem : step ∈ level op := List.mem_reverse.1 hstep
    have fits := fits_sources lowered found
    refine step.legible_of_registered (fits.registers fun _ => op.hasTable_zero) fun i hi => ?_
    rw [← Step.tableIndices_eq] at hi
    exact fits.registers fun joins => aligned.indices joins step mem i hi

/-- An operation misses no alias if in each of its statements the numbers are those of its tables. -/
theorem avoids_sql (d : Dialect) (params : Json) (op : Operation)
    (aligned : ∀ holder part, Part none op holder part → part.Aligned) :
    Avoids CompileError.IsNoAlias (op.sql d params) := by
  refine avoids_sql_of_parts d params SqlFault.within_isNoAlias op fun holder part read nested => ?_
  refine avoids_sql_of_statement d params SqlFault.within_isNoAlias
    (fun step _ => step.legibleChange_of_plain rfl) ?_
  refine SelectChain.avoids_statement SqlFault.within_isNoAlias fun lowered => ?_
  rw [steps_selectChain] at lowered
  exact sourced_of_aligned (aligned holder part read) nested
    fun step hstep => lowered step (List.mem_reverse.2 hstep)

/-- If a statement joins all that its calls join, its numbers are those of its tables. -/
theorem aligned_normalize {written : Operation} (numbered : written.Numbered)
    (all : written.JoinsAll) : (normalize written).Aligned := by
  have visible (joins : joined (normalize written) ≠ []) : hidden written = 0 :=
    ((joinsAll_iff numbered).1 all).resolve_left joins
  constructor
  · intro joins step hstep i hi
    have has := hasTable_normalize numbered step hstep i hi
    have count := hidden_add_joined_normalize numbered
    rw [visible joins, Nat.zero_add] at count
    rwa [HasTable, count]
  · intro joins
    have earlier := outerKeysEarlier_normalize numbered
    rwa [visible joins] at earlier

end Operation

/-! ### What the SELECT of a chain names -/

/-- A name as it is written when something qualifies it, or nothing. -/
def Sql.qualified : Option String → String → String
  | some qualifier, name => quoteIdentifier qualifier ++ "." ++ name
  | none, name => name

/-- The SELECT that is written for the normal form of calls, given by its FROM and JOIN clauses and the
scope of its expressions, names the tables of the calls by the numbers they have there. -/
structure WritesNumbers (d : Dialect) (params : Json) (written : Operation)
    (clauses : List Fragment) (scope : SqlScope) : Prop where
  /-- A number in an expression is that of a table of the calls.  It is written as the alias with that
  number, or left out if there are no joins. -/
  columns : ∀ step ∈ Operation.level written.normalize, ∀ i ∈ step.tableIndices,
    written.HasTable i ∧ ∀ name table source, Expr.sourceIndex? source = some i →
      scope.column name table source =
        .ok (Fragment.text (qualified (written.normalize.alias? i) (quoteIdentifier name))) ∧
      scope.row table source = .ok (Fragment.text (qualified (written.normalize.alias? i) "*"))
  /-- Alias number zero is introduced by the FROM clause. -/
  start : written.normalize.joined ≠ [] → ∃ table schema subquery aliasHint text,
    .fromSource table schema subquery aliasHint ∈ Operation.level written.normalize ∧
    fromClause true table schema subquery aliasHint (Operation.sql d params subquery) =
      .ok (text, [tableAlias 0]) ∧
    clauses[0]? = some text
  /-- Alias number `k + 1` is introduced by the JOIN clause of what the calls join with that number;
  the outer key of the join is qualified by the alias of a table before it. -/
  joins : written.normalize.joined ≠ [] → ∀ (k : Nat) (inner : Operation),
    written.joined[k]? = some inner → ∃ join target, join.inner = inner.normalize ∧
      (∃ selector shape, .join join.kind join.inner join.keys selector shape ∈
        Operation.level written.normalize) ∧
      (∀ i ∈ join.keys.outerSource, 0 ≤ i ∧ i < (k + 1 : Int)) ∧
      joinTarget join (tableAlias (k + 1)) = .ok target ∧
      clauses[k + 1]? = some (joinText join (k + 1) target)

section

variable {scope : SqlScope} {table : String} {source : Option ColumnSource} {q : Option String}

theorem SqlScope.column_eq (h : scope.qualifier table source = .ok q) (name : String) :
    scope.column name table source = .ok (Fragment.text (qualified q (quoteIdentifier name))) := by
  unfold SqlScope.column
  rw [h]
  cases q <;> rfl

theorem SqlScope.row_eq (h : scope.qualifier table source = .ok q) :
    scope.row table source = .ok (Fragment.text (qualified q "*")) := by
  unfold SqlScope.row
  rw [h]
  cases q with
  | none => rfl
  | some q =>
    have star : quoteIdentifier q ++ ".*" = quoteIdentifier q ++ "." ++ "*" := by
      rw [String.append_assoc]
      rfl
    exact congrArg (fun text => Except.ok (Fragment.text text)) star

end

/-- A statement that joins gives its first table the first alias. -/
theorem Sql.fromClause_joins {table schema aliasHint : String} {subquery : Operation}
    {nested : Except CompileError Fragment} {text : Fragment} {aliases : List String}
    (h : fromClause true table schema subquery aliasHint nested = .ok (text, aliases)) :
    aliases = [tableAlias 0] := by
  unfold fromClause at h
  split at h
  · cases h
    rfl
  · obtain ⟨query, -, h⟩ := outcome_bind_eq_ok.1 h
    cases h
    rfl

namespace Operation

variable {d : Dialect} {params : Json} {op : Operation} {clauses : List Fragment} {scope : SqlScope}

/-- The FROM clause of a statement that joins. -/
theorem start_sources (lowered : ∀ step ∈ level op, SelectChain.IsLowered step)
    (found : (op.selectChain d params).sources = .ok (clauses, scope)) (joins : op.joined ≠ []) :
    ∃ table schema subquery aliasHint text,
      .fromSource table schema subquery aliasHint ∈ level op ∧
      fromClause true table schema subquery aliasHint (Operation.sql d params subquery) =
        .ok (text, [tableAlias 0]) ∧
      clauses[0]? = some text := by
  obtain ⟨table, schema, subquery, aliasHint, nested, text, aliases, texts, hroot, hstart, -, rfl,
    -⟩ := SelectChain.sources_eq_ok found
  obtain ⟨step, hstep, rendered⟩ := List.mem_map.1 hroot
  have same := step_renderStep d params step
  rw [rendered] at same
  subst same
  have written : nested = Operation.sql d params subquery := by
    simp only [renderStep] at rendered
    cases rendered
    rfl
  have nonempty : (!(Sql.joinSources (op.selectChain d params).rendered).isEmpty) = true := by
    rw [← (joins_joinSources d params lowered).inner, joinSources] at joins
    simpa using joins
  rw [nonempty, written] at hstart
  refine ⟨table, schema, subquery, aliasHint, text, List.mem_reverse.1 hstep, ?_, rfl⟩
  rw [hstart, fromClause_joins hstart]

/-- The JOIN clause of what is joined with a number. -/
theorem join_sources (lowered : ∀ step ∈ level op, SelectChain.IsLowered step)
    (found : (op.selectChain d params).sources = .ok (clauses, scope))
    (earlier : OuterKeysEarlier 0 op) {k : Nat} {inner : Operation}
    (number : op.joined[k]? = some inner) :
    ∃ join target, join.inner = inner ∧
      (∃ selector shape, .join join.kind join.inner join.keys selector shape ∈ level op) ∧
      (∀ i ∈ join.keys.outerSource, 0 ≤ i ∧ i < (k + 1 : Int)) ∧
      joinTarget join (tableAlias (k + 1)) = .ok target ∧
      clauses[k + 1]? = some (joinText join (k + 1) target) := by
  have joins := joins_joinSources d params lowered
  rw [← joins.inner, List.getElem?_map] at number
  obtain ⟨join, hjoin, rfl⟩ := Option.map_eq_some_iff.1 number
  have outer := joins.outer earlier k join hjoin
  obtain ⟨selector, shape, hstep, -⟩ := joins.mem_level join (List.mem_of_getElem? hjoin)
  obtain ⟨_, _, _, _, _, _, _, texts, -, -, htexts, rfl, -⟩ := SelectChain.sources_eq_ok found
  obtain ⟨text, hclause, htext⟩ := joinClauses_getElem? htexts hjoin
  rw [Nat.add_comm 1 k, joinClause_eq _ (by exact outer)] at hclause
  obtain ⟨target, htarget, rfl⟩ := outcome_map_eq_ok.1 hclause
  exact ⟨join, target, rfl, ⟨selector, shape, hstep⟩, outer, htarget, htext⟩

theorem writesNumbers {written : Operation} (numbered : written.Numbered) (all : written.JoinsAll)
    (lowered : (written.normalize.selectChain d params).rejectUnlowered = .ok ())
    (found : (written.normalize.selectChain d params).sources = .ok (clauses, scope)) :
    WritesNumbers d params written clauses scope := by
  have aligned := aligned_normalize numbered all
  have lowered (step : Step) (hstep : step ∈ level written.normalize) :
      SelectChain.IsLowered step := by
    refine SelectChain.isLowered_of_rejectUnlowered lowered step ?_
    rw [steps_selectChain]
    exact List.mem_reverse.2 hstep
  refine ⟨fun step hstep i hi => ?_, start_sources lowered found, fun joins k inner number => ?_⟩
  · refine ⟨hasTable_normalize numbered step hstep i hi, fun name table source index => ?_⟩
    have qualifier := (fits_sources lowered found).qualifier table index fun joins =>
      aligned.indices joins step hstep i hi
    exact ⟨SqlScope.column_eq qualifier name, SqlScope.row_eq qualifier⟩
  · refine join_sources lowered found (aligned.outer joins) ?_
    rw [all.resolve_left joins, List.getElem?_map, number]
    rfl

end Operation

/-! ### Parsed queries -/

theorem Node.idle_rootScope {builder : Node} {start : Scope}
    (h : builder.rootScope = .ok start) : start.bindings.Idle := by
  unfold rootScope at h
  split at h
  · split at h <;> cases h <;> exact ⟨rfl, rfl⟩
  · cases h
    exact ⟨rfl, rfl⟩

namespace ParsedQuery

/-- What the numbers in a parsed query are, if `op` is its operation as it was written. -/
structure Numbering (q : ParsedQuery) (op : Operation) : Prop where
  operation : q.operation = op.normalize
  /-- Every number is that of a table which the query had when the call was made. -/
  numbered : op.Numbered
  /-- The row of the next table that is joined has the number of its place, other rows have the
  numbers they had. -/
  rows : op.IsOpen → q.scope.Rows op.joined.length
  /-- Every statement is that of calls of the query.  It joins what these join, except for joins that
  are out of sight. -/
  statements : ∀ holder part, Operation.Part none q.operation holder part →
    ∃ written, op.States written ∧ part = written.normalize ∧
      part.joined = (written.joined.drop written.hidden).map Operation.normalize

theorem Numbering.of_reached {q : ParsedQuery} {op : Operation}
    (operation : q.operation = op.normalize) (reached : Resolve.Reached op q.scope) :
    q.Numbering op := by
  refine ⟨operation, reached.numbered, fun isOpen => (reached.follows isOpen).rows, ?_⟩
  intro holder part read
  rw [operation] at read
  obtain ⟨written, states, rfl⟩ := Operation.part_normalize read
  exact ⟨written, states, rfl, Operation.joined_normalize (reached.numbered.states states)⟩

end ParsedQuery

/-- The operation of a query-building function as it is written, before it is brought into normal
form. -/
def Node.written? (builder : Node) : Option Operation :=
  match builder.rootScope with
  | .ok start =>
    match builder.chain .step [] start with
    | .ok op _ => some op
    | .error _ _ => none
  | .error _ => none

/-- What chains keep up holds of the operation that was written and the scope that was reached. -/
theorem Node.written_of_upheld {idle : Bindings → Prop} {reached : Operation → Scope → Prop}
    (upheld : Resolve.Upheld idle reached) {builder : Node} {q : ParsedQuery}
    (root : ∀ start, builder.rootScope = .ok start → idle start.bindings)
    (parsed : builder.parseQuery = .ok q) :
    ∃ op, builder.written? = some op ∧ q.operation = op.normalize ∧ op.Built ∧ reached op q.scope := by
  unfold parseQuery at parsed
  obtain ⟨start, hstart, run⟩ := outcome_bind_eq_ok.1 parsed
  split at run
  · rename_i op scope hop
    cases run
    refine ⟨op, ?_, rfl, Node.built_chain [] (.inl rfl) builder .step _ _ _ hop, ?_⟩
    · simp only [written?, hstart, hop]
    · exact Ensures.of_ok (upheld.chain builder .step start (root start hstart)) hop
  · cases run

theorem Node.written_of_parseQuery {builder : Node} {q : ParsedQuery}
    (parsed : builder.parseQuery = .ok q) :
    ∃ op, builder.written? = some op ∧ q.operation = op.normalize ∧ Resolve.Reached op q.scope := by
  obtain ⟨op, written, operation, -, reached⟩ :=
    written_of_upheld Resolve.upheld_reached (fun _ => idle_rootScope) parsed
  exact ⟨op, written, operation, reached⟩

/-- The numbers in a parsed query are those of the tables that the parameters of its lambdas stand
for.  Every statement joins nothing, or all that its calls join, exactly if joins stand together; then
every number is written as the alias of the table it is the number of, and no alias is missing. -/
theorem Node.table_numbers_of_parseQuery {builder : Node} {q : ParsedQuery}
    (parsed : builder.parseQuery = .ok q) :
    ∃ op, builder.written? = some op ∧ q.Numbering op ∧
      (op.JoinsTogether ↔ ∀ written, op.States written → written.JoinsAll) ∧
      (op.JoinsTogether →
        (∀ d params e, q.operation.sql d params = .error e → ¬ e.IsNoAlias) ∧
        ∀ written, op.States written → ∀ d params clauses scope,
          (written.normalize.selectChain d params).rejectUnlowered = .ok () →
          (written.normalize.selectChain d params).sources = .ok (clauses, scope) →
          WritesNumbers d params written clauses scope) := by
  obtain ⟨op, hop, operation, reached⟩ := written_of_parseQuery parsed
  have iff := Operation.joinsTogether_iff reached.numbered
  have numbered {written : Operation} (states : op.States written) : written.Numbered :=
    reached.numbered.states states
  refine ⟨op, hop, .of_reached operation reached, iff, fun together => ⟨fun d params => ?_, ?_⟩⟩
  · refine Operation.avoids_sql d params _ fun holder part read => ?_
    rw [operation] at read
    obtain ⟨written, states, rfl⟩ := Operation.part_normalize read
    exact Operation.aligned_normalize (numbered states) (iff.1 together written states)
  · intro written states d params clauses scope lowered found
    exact Operation.writesNumbers (numbered states) (iff.1 together written states) lowered found

namespace Node

/-- `(params) => ({ first, second })` -/
def pair (params : List String) (first second : String × Node) : Node :=
  .arrow params (.object [.named first.1 first.2 false, .named second.1 second.2 false])

/-- `row.name` -/
def columnOf (row name : String) : Node :=
  (identifier row).dot name

/-- `q.from(table)` -/
def fromTable (table : String) : Node :=
  (identifier "q").invoke "from" [.literal (.str table)]

/-- `chain.join(q.from(table), (x) => x.key, (y) => y.aid, selector)` -/
def joinOn (chain : Node) (table key : String) (selector : Node) : Node :=
  chain.invoke "join"
    [fromTable table, .arrow ["x"] (columnOf "x" key), .arrow ["y"] (columnOf "y" "aid"), selector]

/-- `chain.select((r) => ({ x: r.x, w: r.w }))` -/
def selectPair (chain : Node) : Node :=
  chain.invoke "select" [pair ["r"] ("x", columnOf "r" "x") ("w", columnOf "r" "w")]

/-- The table `b` joined to `a`. -/
def firstJoin : Node :=
  joinOn (fromTable "a") "b" "id" (pair ["x", "y"] ("x", columnOf "x" "id") ("y", columnOf "y" "v"))

/-- Two tables joined to a first one, the second by a column of the first that was joined. -/
def joinedTwice : Node :=
  .arrow ["q"] <| selectPair <| joinOn firstJoin "c" "y"
    (pair ["x", "c"] ("x", columnOf "x" "x") ("w", columnOf "c" "w"))

def joinedTwiceSql : String :=
  "SELECT \"t0\".\"id\" AS \"x\", \"t2\".\"w\" AS \"w\" FROM \"a\" AS \"t0\" " ++
    "INNER JOIN \"b\" AS \"t1\" ON \"t0\".\"id\" = \"t1\".\"aid\" " ++
    "INNER JOIN \"c\" AS \"t2\" ON \"t1\".\"v\" = \"t2\".\"aid\""

/-- Both joined tables keep their numbers: the column of `c` is read from `t2`, the outer key of its
join from `t1`. -/
theorem table_numbers_joinedTwice :
    ∃ q op, joinedTwice.parseQuery = .ok q ∧ joinedTwice.written? = some op ∧ op.JoinsTogether ∧
      q.Numbering op ∧ (∀ d params e, q.operation.sql d params = .error e → ¬ e.IsNoAlias) ∧
      (∃ clauses scope, WritesNumbers .postgres (.obj []) op clauses scope) ∧
      (·.render .postgres) <$> q.operation.sql .postgres (.obj []) = .ok joinedTwiceSql := by
  have text : (joinedTwice.parseQuery >>= fun q =>
      (·.render .postgres) <$> q.operation.sql .postgres (.obj [])) = .ok joinedTwiceSql := by
    decide +kernel
  have together : joinedTwice.written?.any (fun op => op.JoinsTogether) = true := by decide +kernel
  have lowered : joinedTwice.written?.any (fun op =>
      (op.normalize.selectChain .postgres (.obj [])).rejectUnlowered = .ok ()) = true := by
    decide +kernel
  have sourced : joinedTwice.written?.any (fun op =>
      (op.normalize.selectChain .postgres (.obj [])).sources.isOk) = true := by decide +kernel
  obtain ⟨q, parsed, text⟩ := outcome_bind_eq_ok.1 text
  obtain ⟨op, written, numbering, -, right⟩ := table_numbers_of_parseQuery parsed
  rw [written] at together lowered sourced
  have together : op.JoinsTogether := of_decide_eq_true together
  refine ⟨q, op, parsed, written, together, numbering, (right together).1, ?_, text⟩
  cases found : (op.normalize.selectChain .postgres (.obj [])).sources with
  | error e =>
    rw [Option.any_some, found] at sourced
    cases sourced
  | ok named =>
    exact ⟨named.1, named.2, (right together).2 op (.inl rfl) _ _ _ _
      (of_decide_eq_true lowered) found⟩

/-- The rows of a join with rank one, and the table `c` joined to them. -/
def rankedThenJoined : Node :=
  let rank := (((identifier "h").invoke "window" [identifier "r"]).invoke "orderBy"
    [.arrow ["z"] (columnOf "z" "x")]).invoke "rowNumber" []
  let ranked := (firstJoin.invoke "select" [pair ["r"] ("id", columnOf "r" "x") ("rn", rank)]).invoke
    "where" [.arrow ["r"] (.binary "===" (columnOf "r" "rn") (.literal (.int 1)))]
  joinOn ranked "c" "id" (pair ["x", "c"] ("x", columnOf "x" "id") ("w", columnOf "c" "w"))

/-- The same with a table `d` joined after it. -/
def rankedThenJoinedTwice : Node :=
  joinOn rankedThenJoined "d" "x" (pair ["x", "d"] ("x", columnOf "x" "x") ("w", columnOf "x" "w"))

def rankedThenJoinedTwiceSql : String :=
  "SELECT \"t0\".\"id\" AS \"x\", \"t2\".\"w\" AS \"w\" FROM (SELECT \"t0\".\"id\" AS \"id\", " ++
    "ROW_NUMBER() OVER (ORDER BY \"t0\".\"id\" ASC) AS \"rn\" FROM \"a\" AS \"t0\" " ++
    "INNER JOIN \"b\" AS \"t1\" ON \"t0\".\"id\" = \"t1\".\"aid\") AS \"t0\" " ++
    "INNER JOIN \"c\" AS \"t1\" ON \"t0\".\"id\" = \"t1\".\"aid\" " ++
    "INNER JOIN \"d\" AS \"t2\" ON \"t0\".\"id\" = \"t2\".\"aid\" WHERE \"t0\".\"rn\" = $(__p1)"

/-- A join after a filter of window results keeps the number two, although it is the first join of its
statement: its columns have no alias, or, once there is a second join, that of the other table. -/
theorem join_after_window_filter_misnamed :
    ((arrow ["q", "p", "h"] rankedThenJoined.selectPair).parseQuery >>= fun q =>
        q.operation.sql .postgres (.obj q.scope.autoParams)) = .error ⟨SqlFault.noAlias 2, {}⟩ ∧
      ((arrow ["q", "p", "h"] rankedThenJoinedTwice.selectPair).parseQuery >>= fun q =>
        (·.render .postgres) <$> q.operation.sql .postgres (.obj q.scope.autoParams)) =
          .ok rankedThenJoinedTwiceSql := by
  constructor <;> decide +kernel

end Node

end FluentQuery
