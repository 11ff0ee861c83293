import FluentQuery.Proofs.Policy.Remembered

/-!
# Every table a SELECT reads is filtered

Main statement: `select_reads_permitted_rows`.  When the filters of a schema are applied to a SELECT,
every base table with a filter, however deep it stands in joins, group joins, collections and derived
tables, is read below its filter only.  A table that the schema does not declare cannot be read at
all.
-/

namespace FluentQuery

set_option autoImplicit false

open Operation

/-- The guard of a table: the predicate of the filter for the name it is declared under, if
selections from it are filtered. -/
def RowFilters.guard (filters : RowFilters) (permitted : String → RowFilter)
    (schema table : String) : Option Expr :=
  match filters.find? schema table with
  | some (key, config) => config.onSelect.map fun _ => (permitted key).predicate
  | none => none

/-- A query reads the permitted rows of its tables. -/
structure ReadsPermitted (filters : RowFilters) (permitted : String → RowFilter)
    (op out : Operation) : Prop where
  /-- Every table that was read is declared, and its filter is the declared predicate with the
  context bound. -/
  declared : ∀ schema table, op.Reads schema table → ∃ key config,
    filters.find? schema table = some (key, config) ∧ ∀ predicate,
      config.onSelect = some predicate →
        ∃ number, RowFilter.parse predicate key .select number = .ok (permitted key)
  /-- Nothing changed but the tables with a filter. -/
  unchanged : Restricts (filters.guard permitted) op out
  /-- A table with a filter is the source of that filter, and the two are a whole derived table. -/
  covered : ∀ holder part, Part none out holder part → ∀ step ∈ level part,
    ∀ schema table key config predicate, step.IsBase schema table →
      filters.find? schema table = some (key, config) → config.onSelect = some predicate →
        op.Reads schema table ∧ part = [.filter (permitted key).predicate, step] ∧
          ∃ aliasHint, holder = some (.fromSource "" "" part aliasHint)

namespace Filtering

variable {filters : RowFilters} {s : FilterState}

/-- The filter that was found for a name. -/
def permittedBy (s : FilterState) (key : String) : RowFilter :=
  (s.resolved.find? (cacheKey key .select)).join.getD default

theorem guard_permittedBy (sound : s.Sound filters.tables) {schema table : String}
    {found : Option RowFilter} (h : s.Decides filters .select schema table found) :
    filters.guard (permittedBy s) schema table = guardOf filters s schema table := by
  rw [guardOf_eq h]
  have ⟨key, config, hfind, hfound⟩ := h
  rw [RowFilters.guard, hfind]
  cases found with
  | none =>
    have unfiltered : config.onSelect = none := by
      rw [Option.eq_none_iff_forall_ne_some]
      intro predicate hpredicate
      obtain ⟨_, _, hsome, -⟩ := h.declared sound hfind hpredicate
      cases hsome
    simp [unfiltered]
  | some filter =>
    obtain ⟨predicate, _, hpredicate, -⟩ := h.predicate sound hfind
    have filtered : config.onSelect = some predicate := hpredicate
    simp [filtered, permittedBy, hfound]

theorem readsPermitted {op out : Operation} {s' : FilterState} (sound : s'.Sound filters.tables)
    (grows : s.Grows filters .select op.Reads s') (restricts : Restricts (guardOf filters s') op out) :
    ReadsPermitted filters (permittedBy s') op out := by
  have restricts' : Restricts (filters.guard (permittedBy s')) op out := by
    refine restricts.congr fun schema table read => ?_
    obtain ⟨found, decides⟩ := grows.decided schema table read
    exact guard_permittedBy sound decides
  refine ⟨?_, restricts', ?_⟩
  · intro schema table read
    obtain ⟨found, decides⟩ := grows.decided schema table read
    have ⟨key, config, hfind, hfound⟩ := decides
    refine ⟨key, config, hfind, fun predicate hpredicate => ?_⟩
    obtain ⟨filter, number, rfl, hparse⟩ := decides.declared sound hfind hpredicate
    refine ⟨number, ?_⟩
    rw [hparse, permittedBy, hfound, Option.join_some, Option.getD_some]
  · intro holder part hpart step read schema table key config predicate base hfind hpredicate
    refine restricts'.covers hpart read base ?_
    rw [RowFilters.guard, hfind]
    simp [hpredicate]

end Filtering

/-- A query that changes no rows and is filtered with a context reads only permitted rows of the
tables that have a filter; if it reads a table that is declared neither under its qualified nor under
its plain name, it is refused. -/
theorem select_reads_permitted_rows {filters : RowFilters} {query : BoundQuery} {context : Json}
    {counter : Int} {memo : RowFilterMemo}
    (select : query.operation.filterKind? = some .select) (bound : filters.context = some context)
    (remembered : Remembered filters.tables memo) :
    (∀ result memo', filters.apply query counter memo = .ok result memo' →
      ∃ permitted, ReadsPermitted filters permitted query.operation result.operation) ∧
    ∀ schema table, query.operation.Reads schema table →
      (schema ≠ "" → filters.tables.find? (schema ++ "." ++ table) = none) →
      filters.tables.find? table = none →
      ∃ e memo', filters.apply query counter memo = .error e memo' := by
  have initial := FilterState.sound_initial remembered.sound counter
  constructor
  · intro result memo' run
    obtain ⟨s, hfiltered⟩ := RowFilters.apply_eq_ok select bound run
    rw [Filtering.filtered_select select] at hfiltered
    obtain ⟨out, s₁, hwrap, rest⟩ := bind_eq_ok.1 hfiltered
    obtain ⟨params, s₂, -, final⟩ := bind_eq_ok.1 rest
    cases final
    obtain ⟨sound, grows, restricts⟩ := (Filtering.ensures_wrap _ initial).of_ok hwrap
    exact ⟨_, Filtering.readsPermitted sound grows restricts⟩
  · intro schema table read qualified plain
    have undeclared : filters.find? schema table = none := RowFilters.find?_eq_none qualified plain
    refine RowFilters.apply_eq_error select bound fun result s run => ?_
    rw [Filtering.filtered_select select] at run
    obtain ⟨out, s₁, hwrap, -⟩ := bind_eq_ok.1 run
    exact Filtering.wrap_undeclared _ read undeclared out s₁ initial hwrap

/-- The rows of one's own organisation: `(row, ctx) => row.org == ctx.org && row.state != 0`. -/
def ownOrganisation : Node :=
  .arrow ["row", "ctx"]
    (.logical "&&"
      (.binary "==" (.member (.identifier "row") (.identifier "org") false)
        (.member (.identifier "ctx") (.identifier "org") false))
      (.binary "!=" (.member (.identifier "row") (.identifier "state") false) (.literal (.int 0))))

/-- Orders and users are filtered by organisation; countries are declared but not filtered. -/
def organisationFilters : RowFilters where
  tables :=
    [("countries", .disabled), ("orders", .uniform ownOrganisation),
      ("users", .uniform ownOrganisation)]
  context := some (.obj [("org", .int 7)])
  memo := 0

/-- Users joined with a derived table of orders. -/
def usersWithOrders : Operation :=
  [.join .inner [.fromSource "" "" [.fromSource "orders" "" [] ""] "recent"]
      { outer := "id", inner := "userId" } .absent none,
    .fromSource "users" "public" [] "u"]

theorem select_reads_permitted_rows_usersWithOrders :
    (∃ result memo', organisationFilters.apply ⟨usersWithOrders, .obj []⟩ 0 [] = .ok result memo' ∧
      ∃ permitted, ReadsPermitted organisationFilters permitted usersWithOrders result.operation) ∧
    ∃ e memo', organisationFilters.apply ⟨[.fromSource "payments" "" [] ""], .obj []⟩ 0 [] =
      .error e memo' := by
  constructor
  · have succeeds : ∃ result memo',
        organisationFilters.apply ⟨usersWithOrders, .obj []⟩ 0 [] = .ok result memo' := ⟨_, _, rfl⟩
    obtain ⟨result, memo', run⟩ := succeeds
    exact ⟨result, memo', run, (select_reads_permitted_rows rfl rfl .empty).1 result memo' run⟩
  · have read : Reads [.fromSource "payments" "" [] ""] "" "payments" :=
      (reads_base _ _).2 ⟨by decide, rfl, rfl⟩
    exact (select_reads_permitted_rows rfl rfl .empty).2 "" "payments" read (by simp) rfl

end FluentQuery
