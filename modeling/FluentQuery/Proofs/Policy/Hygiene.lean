import FluentQuery.Proofs.Policy.Coverage
import FluentQuery.Proofs.Policy.FinalParams
import FluentQuery.Proofs.Policy.UpdateCheck

/-!
# Filters do not interfere with parameters

Main statement: `filter_parameters_are_hygienic`.  The filters of an operation bring parameters of
their own.  These are added under names that are free, nothing that the caller gave is rebound, and
no filter refers to a parameter that it does not bring.
-/

namespace FluentQuery

set_option autoImplicit false

open Operation

/-- The tables whose filters an operation is subject to. -/
def Operation.Touches : Operation → String → String → Prop
  | .update s :: _, schema, table => schema = s.schema ∧ table = s.table
  | .delete s :: _, schema, table => schema = s.schema ∧ table = s.table
  | op, schema, table => op.Reads schema table

/-- The filters of an operation: those declared for the tables it touches, all of them. -/
structure FiltersOf (filters : RowFilters) (kind : FilterKind) (op : Operation)
    (applied : RowFilter → Prop) : Prop where
  declared : ∀ filter, applied filter → ∃ schema table key config predicate number,
    op.Touches schema table ∧ filters.find? schema table = some (key, config) ∧
      config.predicateFor kind = some predicate ∧
      RowFilter.parse predicate key kind number = .ok filter
  all : ∀ schema table, op.Touches schema table → ∃ key config,
    filters.find? schema table = some (key, config) ∧ ∀ predicate,
      config.predicateFor kind = some predicate → ∃ filter number, applied filter ∧
        RowFilter.parse predicate key kind number = .ok filter

/-- A parameter that the filters bring is given already, or a value of the context is missing. -/
def Clashes (context params : Json) (applied : RowFilter → Prop) : Prop :=
  ∃ filter, applied filter ∧ ((∃ name ∈ filter.boundNames, params.contains name = true) ∨
    ∃ key ∈ filter.contextKeys, context.get? key = none)

/-- What filters do to the parameters of a query. -/
structure BringsOwnParams (context params final : Json) (applied : RowFilter → Prop) : Prop where
  /-- What was given keeps its value. -/
  kept : ∀ name value, params.get? name = some value → final.get? name = some value
  /-- Only the parameters of the filters are added. -/
  added : ∀ name, final.contains name = true ↔
    params.contains name = true ∨ ∃ filter, applied filter ∧ name ∈ filter.boundNames
  /-- They are added under free names. -/
  fresh : ∀ filter, applied filter → ∀ name ∈ filter.boundNames, params.contains name = false
  /-- Automatic parameters are bound to the literals of their filter. -/
  auto : ∀ filter, applied filter → ∀ name value, filter.autoParams.find? name = some value →
    final.get? name = some value
  /-- The parameter of a context key is bound to the value of that key. -/
  context : ∀ filter, applied filter → ∀ key ∈ filter.contextKeys, ∃ value,
    context.get? key = some value ∧ final.get? (RowFilter.contextParam key) = some value

/-- How filters get into an operation. -/
inductive Injects (applied : RowFilter → Prop) (params : Json) : Operation → Operation → Prop where
  /-- Tables that are read are replaced by their permitted rows. -/
  | select {op out : Operation} {guard : String → String → Option Expr}
      (restricts : Restricts guard op out)
      (own : ∀ schema table predicate, guard schema table = some predicate →
        ∃ filter, applied filter ∧ predicate = filter.predicate) :
      Injects applied params op out
  /-- Rows that are updated are permitted, and stay so. -/
  | update {s : UpdateStatement} {rest : Operation} {filter : RowFilter} (h : applied filter) :
      Injects applied params (.update s :: rest)
        (.update { s with
          predicate := Expr.conj (Expr.conj s.predicate filter.predicate)
            (Filtering.checkOf s params filter) } :: rest)
  /-- Rows that are deleted are permitted. -/
  | delete {s : DeleteStatement} {rest : Operation} {filter : RowFilter} (h : applied filter) :
      Injects applied params (.delete s :: rest)
        (.delete { s with predicate := Expr.conj s.predicate filter.predicate } :: rest)
  /-- Without filters nothing changes. -/
  | unfiltered {op : Operation} (h : ∀ filter, ¬ applied filter) : Injects applied params op op

/-- Every parameter in what a filter injects is one of its own; the check of an UPDATE also has those
of the values that are assigned. -/
structure RefersToOwn (params : Json) (applied : RowFilter → Prop) : Prop where
  predicate : ∀ filter, applied filter →
    filter.predicate.Every (Expr.Accounted [] filter.boundNames)
  check : ∀ filter, applied filter → ∀ s, ∀ node ∈ (Filtering.checkOf s params filter).walk,
    node.Accounted [] filter.boundNames ∨
      ∃ assignment ∈ s.assignments.getD [], node ∈ assignment.2.walk
  contextKeys : ∀ filter, applied filter → ∀ key,
    key ∈ filter.contextKeys ↔ filter.predicate.Mentions (RowFilter.contextParam key)

/-- What applying filters guarantees about the parameters of a query. -/
structure Hygienic (context : Json) (applied : RowFilter → Prop) (query result : BoundQuery) :
    Prop where
  params : BringsOwnParams context query.params result.params applied
  injects : Injects applied result.params query.operation result.operation
  refers : RefersToOwn result.params applied

namespace Filtering

open FilterState

variable {filters : RowFilters} {kind : FilterKind} {context params final : Json}
  {s s' : FilterState}

/-- The check of an UPDATE brings in nothing but the assigned values. -/
theorem accounted_checkOf {filter : RowFilter} (closed : filter.Closed) (s : UpdateStatement)
    (params : Json) (node : Expr) (h : node ∈ (checkOf s params filter).walk) :
    node.Accounted [] filter.boundNames ∨
      ∃ assignment ∈ s.assignments.getD [], node ∈ assignment.2.walk := by
  by_cases inner : node.children = []
  · have leaf : node ∈ (checkOf s params filter).leaves := Expr.mem_leaves.2 ⟨h, inner⟩
    rw [checkOf, Expr.leaves_replace (onLeaves_assigned _)] at leaf
    obtain ⟨old, hold, hnode⟩ := List.mem_flatMap.1 leaf
    obtain ⟨hwalk, holdLeaf⟩ := Expr.mem_leaves.1 hold
    cases hnew : assigned (newValues s params) old with
    | none =>
      rw [hnew, Option.getD_none] at hnode
      rw [Expr.eq_of_mem_leaves holdLeaf hnode]
      exact .inl (closed.params old hwalk)
    | some value =>
      rw [hnew, Option.getD_some] at hnode
      obtain ⟨column, hassigned⟩ := exists_of_assigned hnew
      exact .inr ⟨(column, value), hassigned, (Expr.mem_leaves.1 hnode).1⟩
  · exact .inl (RowFilter.accounted_node node inner)

theorem refersToOwn (sound : s.Sound filters.tables) (params : Json) : RefersToOwn params s.Found where
  predicate _ h := (sound.closed h).params
  check _ h statement node hnode := accounted_checkOf (sound.closed h) statement params node hnode
  contextKeys _ h := (sound.closed h).mem_contextKeys

/-- The filters found from the start on are those of the tables looked for. -/
theorem filtersOf_found {op : Operation} {memo : RowFilterMemo} {counter : Int}
    (sound : s.Sound filters.tables)
    (grows : Grows filters kind op.Touches { memo, counter } s) :
    FiltersOf filters kind op s.Found := by
  constructor
  · intro filter hfound
    rcases grows.only filter hfound with ⟨_, _, hnone⟩ | ⟨schema, table, touched, decides⟩
    · cases hnone
    have ⟨key, config, hfind, _⟩ := decides
    obtain ⟨predicate, number, hpredicate, hparse⟩ := decides.predicate sound hfind
    exact ⟨schema, table, key, config, predicate, number, touched, hfind, hpredicate, hparse⟩
  · intro schema table touched
    obtain ⟨found, decides⟩ := grows.decided schema table touched
    have ⟨key, config, hfind, hresolved⟩ := decides
    refine ⟨key, config, hfind, fun predicate hpredicate => ?_⟩
    obtain ⟨filter, number, rfl, hparse⟩ := decides.declared sound hfind hpredicate
    exact ⟨filter, number, ⟨key, kind, hresolved⟩, hparse⟩

/-- The names that filters bring are the automatic ones and those of the context keys. -/
theorem mem_boundNames_iff (sound : s.Sound filters.tables) (name : String) :
    (∃ filter, s.Found filter ∧ name ∈ filter.boundNames) ↔
      name ∈ Assoc.keys s.autoParams ∨ ∃ key ∈ s.contextKeys, name = RowFilter.contextParam key := by
  constructor
  · rintro ⟨filter, hfound, hname⟩
    rcases List.mem_append.1 hname with hauto | hcontext
    · obtain ⟨value, hvalue⟩ := Assoc.mem_keys_iff.1 hauto
      exact .inl (Assoc.mem_keys_iff.2 ⟨value,
        (sound.autoParams name value).2 ⟨filter, hfound, hvalue⟩⟩)
    · obtain ⟨key, hkey, rfl⟩ := List.mem_map.1 hcontext
      exact .inr ⟨key, (sound.contextKeys key).2 ⟨filter, hfound, hkey⟩, rfl⟩
  · rintro (hauto | ⟨key, hkey, rfl⟩)
    · obtain ⟨value, hvalue⟩ := Assoc.mem_keys_iff.1 hauto
      obtain ⟨filter, hfound, hfilter⟩ := (sound.autoParams name value).1 hvalue
      exact ⟨filter, hfound, List.mem_append_left _ (Assoc.mem_keys_iff.2 ⟨value, hfilter⟩)⟩
    · obtain ⟨filter, hfound, hfilter⟩ := (sound.contextKeys key).1 hkey
      exact ⟨filter, hfound, List.mem_append_right _ (List.mem_map_of_mem hfilter)⟩

theorem Extends.fresh (extended : Extends context params final s) (sound : s.Sound filters.tables)
    {filter : RowFilter} (hfound : s.Found filter) {name : String} (hname : name ∈ filter.boundNames) :
    params.contains name = false := by
  rcases (mem_boundNames_iff sound name).1 ⟨filter, hfound, hname⟩ with hauto | ⟨key, hkey, rfl⟩
  · exact extended.freshAuto name hauto
  · exact extended.freshContext key hkey

/-- The final parameters are the given ones and those that the filters bring. -/
theorem Extends.bringsOwnParams (extended : Extends context params final s)
    (sound : s.Sound filters.tables) : BringsOwnParams context params final s.Found := by
  constructor
  · intro name value given
    exact (extended.get? name value).2 (.inl given)
  · intro name
    rw [mem_boundNames_iff sound, Json.contains, Json.contains, Option.isSome_iff_exists,
      Option.isSome_iff_exists]
    constructor
    · rintro ⟨value, hvalue⟩
      rcases (extended.get? name value).1 hvalue with hgiven | hauto | ⟨key, hkey, hname, -⟩
      · exact .inl ⟨value, hgiven⟩
      · exact .inr (.inl (Assoc.mem_keys_iff.2 ⟨value, hauto⟩))
      · exact .inr (.inr ⟨key, hkey, hname⟩)
    · rintro (⟨value, hgiven⟩ | hauto | ⟨key, hkey, hname⟩)
      · exact ⟨value, (extended.get? name value).2 (.inl hgiven)⟩
      · obtain ⟨value, hvalue⟩ := Assoc.mem_keys_iff.1 hauto
        exact ⟨value, (extended.get? name value).2 (.inr (.inl hvalue))⟩
      · obtain ⟨value, hvalue⟩ := extended.present key hkey
        exact ⟨value, (extended.get? name value).2 (.inr (.inr ⟨key, hkey, hname, hvalue⟩))⟩
  · intro filter hfound name hname
    exact extended.fresh sound hfound hname
  · intro filter hfound name value hvalue
    have gathered := (sound.autoParams name value).2 ⟨filter, hfound, hvalue⟩
    exact (extended.get? name value).2 (.inr (.inl gathered))
  · intro filter hfound key hkey
    have used : key ∈ s.contextKeys := (sound.contextKeys key).2 ⟨filter, hfound, hkey⟩
    obtain ⟨value, hvalue⟩ := extended.present key used
    exact ⟨value, hvalue, (extended.get? _ value).2 (.inr (.inr ⟨key, used, rfl, hvalue⟩))⟩

/-- The parameters cannot be completed if there is a clash. -/
theorem finalParams_clash (sound : s.Sound filters.tables) (clash : Clashes context params s.Found)
    (place : ErrorContext) : finalParams context params place s ≠ .ok final s' := by
  intro run
  obtain ⟨rfl, extended⟩ := finalParams_eq_ok sound.ordered run
  obtain ⟨filter, hfound, ⟨name, hname, hgiven⟩ | ⟨key, hkey, hmissing⟩⟩ := clash
  · rw [extended.fresh sound hfound hname] at hgiven
    cases hgiven
  · obtain ⟨value, hvalue⟩ := extended.present key ((sound.contextKeys key).2 ⟨filter, hfound, hkey⟩)
    rw [hmissing] at hvalue
    cases hvalue

/-- Work on a query that completes its parameters first. -/
theorem hygienic_of_finalParams {op : Operation} {params : Json} {place : ErrorContext}
    {next : Json → Filtering BoundQuery} (sound : s.Sound filters.tables)
    (injects : ∀ final result s', next final s = .ok result s' →
      result.params = final ∧ Injects s.Found final op result.operation) :
    (Clashes context params s.Found → ∀ result s',
      (finalParams context params place >>= next) s ≠ .ok result s') ∧
    ∀ result s', (finalParams context params place >>= next) s = .ok result s' →
      Hygienic context s.Found ⟨op, params⟩ result := by
  constructor
  · intro clash result s' run
    obtain ⟨final, s₁, hfinal, -⟩ := bind_eq_ok.1 run
    exact finalParams_clash sound clash place hfinal
  · intro result s' run
    obtain ⟨final, s₁, hfinal, rest⟩ := bind_eq_ok.1 run
    obtain ⟨rfl, extended⟩ := finalParams_eq_ok sound.ordered hfinal
    obtain ⟨rfl, hinjects⟩ := injects final result s' rest
    exact ⟨extended.bringsOwnParams sound, hinjects, refersToOwn sound _⟩

/-- A query to which no filter applies is not touched. -/
theorem hygienic_unfiltered {query : BoundQuery} {applied : RowFilter → Prop}
    (none : ∀ filter, ¬ applied filter) : Hygienic context applied query query where
  params :=
    { kept := fun _ _ h => h
      added := fun _ => ⟨.inl, fun h => h.elim id fun ⟨filter, hf, _⟩ => absurd hf (none filter)⟩
      fresh := fun filter hf => absurd hf (none filter)
      auto := fun filter hf => absurd hf (none filter)
      context := fun filter hf => absurd hf (none filter) }
  injects := .unfiltered none
  refers :=
    { predicate := fun filter hf => absurd hf (none filter)
      check := fun filter hf => absurd hf (none filter)
      contextKeys := fun filter hf => absurd hf (none filter) }

/-- Filters are found before the parameters are looked at; `finish` is what depends on these. -/
theorem hygienic_of_resolution {β : Type} {op : Operation} {memo : RowFilterMemo} {counter : Int}
    {resolve : Filtering β} {finish : Json → β → Filtering BoundQuery}
    {found : β → FilterState → Prop} {failed : FilterState → Prop}
    (hkind : op.filterKind? = some kind) (bound : filters.context = some context)
    (split : ∀ params, filtered filters context ⟨op, params⟩ = resolve >>= finish params)
    (ensures : Ensures resolve { memo, counter } (fun b s => s.Sound filters.tables ∧
      Grows filters kind op.Touches { memo, counter } s ∧ found b s) failed)
    (finished : ∀ params b s, s.Sound filters.tables → found b s →
      (Clashes context params s.Found → ∀ result s', finish params b s ≠ .ok result s') ∧
      ∀ result s', finish params b s = .ok result s' →
        Hygienic context s.Found ⟨op, params⟩ result) :
    (∀ params, ∃ e memo', filters.apply ⟨op, params⟩ counter memo = .error e memo') ∨
    ∃ applied, FiltersOf filters kind op applied ∧ ∀ params,
      (Clashes context params applied →
        ∃ e memo', filters.apply ⟨op, params⟩ counter memo = .error e memo') ∧
      ∀ result memo', filters.apply ⟨op, params⟩ counter memo = .ok result memo' →
        Hygienic context applied ⟨op, params⟩ result := by
  cases hresolve : resolve { memo, counter } with
  | error e s₁ =>
    refine .inl fun params => RowFilters.apply_eq_error hkind bound fun result s' run => ?_
    rw [split] at run
    obtain ⟨b, t, hok, -⟩ := bind_eq_ok.1 run
    rw [hresolve] at hok
    cases hok
  | ok b s₁ =>
    obtain ⟨sound, grows, hfound⟩ := ensures.of_ok hresolve
    refine .inr ⟨s₁.Found, filtersOf_found sound grows, fun params => ?_⟩
    obtain ⟨refused, hygienic⟩ := finished params b s₁ sound hfound
    have after : ∀ result s', filtered filters context ⟨op, params⟩ { memo, counter } = .ok result s' →
        finish params b s₁ = .ok result s' := by
      intro result s' run
      rw [split] at run
      obtain ⟨b', t, hok, rest⟩ := bind_eq_ok.1 run
      rw [hresolve] at hok
      cases hok
      exact rest
    constructor
    · intro clash
      refine RowFilters.apply_eq_error hkind bound fun result s' run => ?_
      exact refused clash result s' (after result s' run)
    · intro result memo' run
      obtain ⟨s', hfiltered⟩ := RowFilters.apply_eq_ok hkind bound run
      exact hygienic result s' (after result s' hfiltered)

theorem found_of_guardOf (filters : RowFilters) (s : FilterState) (schema table : String)
    (predicate : Expr) (h : guardOf filters s schema table = some predicate) :
    ∃ filter, s.Found filter ∧ predicate = filter.predicate := by
  unfold guardOf at h
  split at h
  · rename_i key config hfind
    obtain ⟨filter, hfilter, rfl⟩ := Option.map_eq_some_iff.1 h
    exact ⟨filter, ⟨key, .select, Option.join_eq_some_iff.1 hfilter⟩, rfl⟩
  · cases h

/-- When one table is looked for, what is found for it is all that is found. -/
theorem found_iff {schema table : String} {memo : RowFilterMemo} {counter : Int}
    {decision : Option RowFilter}
    (grows : Grows filters kind (fun sc t => sc = schema ∧ t = table) { memo, counter } s)
    (decides : s.Decides filters kind schema table decision) (filter : RowFilter) :
    s.Found filter ↔ decision = some filter := by
  constructor
  · intro hfound
    rcases grows.only filter hfound with ⟨_, _, hnone⟩ | ⟨_, _, ⟨rfl, rfl⟩, hdecides⟩
    · cases hnone
    · exact decides.unique hdecides
  · rintro rfl
    obtain ⟨key, config, -, hresolved⟩ := decides
    exact ⟨key, kind, hresolved⟩

/-- A statement that changes the rows of one table. -/
theorem hygienic_of_decision {op : Operation} {memo : RowFilterMemo} {counter : Int}
    {schema table : String} {place : ErrorContext}
    {next : RowFilter → Json → Filtering BoundQuery}
    (hkind : op.filterKind? = some kind) (bound : filters.context = some context)
    (split : ∀ params, filtered filters context ⟨op, params⟩ =
      filterFor filters schema table kind >>= fun decision =>
        match decision with
        | none => pure ⟨op, params⟩
        | some filter => finalParams context params place >>= next filter)
    (touches : ∀ sc t, op.Touches sc t ↔ sc = schema ∧ t = table)
    (initial : Sound filters.tables { memo, counter })
    (injects : ∀ filter (s : FilterState) final result s', s.Found filter →
      next filter final s = .ok result s' →
      result.params = final ∧ Injects s.Found final op result.operation) :
    (∀ params, ∃ e memo', filters.apply ⟨op, params⟩ counter memo = .error e memo') ∨
    ∃ applied, FiltersOf filters kind op applied ∧ ∀ params,
      (Clashes context params applied →
        ∃ e memo', filters.apply ⟨op, params⟩ counter memo = .error e memo') ∧
      ∀ result memo', filters.apply ⟨op, params⟩ counter memo = .ok result memo' →
        Hygienic context applied ⟨op, params⟩ result := by
  have resolved : Ensures (filterFor filters schema table kind) { memo, counter }
      (fun decision s => s.Sound filters.tables ∧
        Grows filters kind op.Touches { memo, counter } s ∧
        ∀ filter, s.Found filter ↔ decision = some filter)
      (fun s => s.memo.Sound filters.tables) := by
    refine (ensures_filterFor initial schema table kind).mono ?_ fun _ => id
    rintro decision s ⟨sound, grows, decides⟩
    exact ⟨sound, grows.congr touches, found_iff grows decides⟩
  refine hygienic_of_resolution hkind bound split resolved ?_
  intro params decision s sound hfound
  cases decision with
  | none =>
    have none : ∀ filter, ¬ s.Found filter := fun filter h => by
      cases (hfound filter).1 h
    refine ⟨fun ⟨filter, h, _⟩ => absurd h (none filter), fun result s' run => ?_⟩
    cases run
    exact hygienic_unfiltered none
  | some filter =>
    exact hygienic_of_finalParams sound fun final result s' run =>
      injects filter s final result s' ((hfound filter).2 rfl) run

end Filtering

/-! ### The kinds of operation -/

theorem touches_select {op : Operation} (h : op.filterKind? = some .select)
    (schema table : String) : op.Touches schema table ↔ op.Reads schema table := by
  match op with
  | [] => rfl
  | step :: rest =>
    cases step with
    | insert | update | delete => cases h
    | _ => rfl

theorem exists_update {op : Operation} (h : op.filterKind? = some .update) :
    ∃ statement rest, op = .update statement :: rest := by
  match op with
  | [] => cases h
  | step :: rest =>
    cases step with
    | update statement => exact ⟨statement, rest, rfl⟩
    | _ => cases h

theorem exists_delete {op : Operation} (h : op.filterKind? = some .delete) :
    ∃ statement rest, op = .delete statement :: rest := by
  match op with
  | [] => cases h
  | step :: rest =>
    cases step with
    | delete statement => exact ⟨statement, rest, rfl⟩
    | _ => cases h

/-- Where filters are applied, they are declared ones and bring their own parameters. -/
theorem RowFilters.hygienic_of_apply {filters : RowFilters} {query result : BoundQuery} {counter : Int}
    {memo memo' : RowFilterMemo} (remembered : Remembered filters.tables memo)
    (run : filters.apply query counter memo = .ok result memo') :
    ∃ context applied, Hygienic context applied query result ∧ ∀ filter, applied filter →
      ∃ key kind number, filter.IsDeclared filters.tables key kind number := by
  have initial := FilterState.sound_initial remembered.sound counter
  obtain ⟨op, params⟩ := query
  cases hkind : op.filterKind? with
  | none =>
    rw [apply, hkind] at run
    cases run
    exact ⟨.null, fun _ => False, Filtering.hygienic_unfiltered fun _ => id, fun _ => False.elim⟩
  | some kind =>
    cases bound : filters.context with
    | none =>
      rw [apply, hkind, bound] at run
      cases run
    | some context =>
      obtain ⟨s, filtered⟩ := apply_eq_ok hkind bound run
      refine ⟨context, ?_⟩
      have decided {schema table : String} {found : Option RowFilter} {t : FilterState}
          (decision : Filtering.filterFor filters schema table kind { memo, counter } = .ok found t) :
          t.Sound filters.tables ∧ ∀ filter, t.Found filter ↔ found = some filter := by
        obtain ⟨sound, grows, decides⟩ :=
          (Filtering.ensures_filterFor initial schema table kind).of_ok decision
        exact ⟨sound, Filtering.found_iff grows decides⟩
      cases kind with
      | select =>
        rw [Filtering.filtered_select hkind] at filtered
        obtain ⟨out, t, wrapped, rest⟩ := bind_eq_ok.1 filtered
        obtain ⟨sound, -, restricts⟩ := (Filtering.ensures_wrap op initial).of_ok wrapped
        refine ⟨t.Found, (Filtering.hygienic_of_finalParams sound ?_).2 result s rest,
          fun _ => sound.declared⟩
        rintro final result s' ⟨⟩
        exact ⟨rfl, .select restricts (Filtering.found_of_guardOf filters t)⟩
      | update =>
        obtain ⟨statement, earlier, rfl⟩ := exists_update hkind
        obtain ⟨found, t, decision, rest⟩ := bind_eq_ok.1 filtered
        obtain ⟨sound, hfound⟩ := decided decision
        refine ⟨t.Found, ?_, fun _ => sound.declared⟩
        cases found with
        | none =>
          cases rest
          exact Filtering.hygienic_unfiltered fun filter h => nomatch (hfound filter).1 h
        | some filter =>
          refine (Filtering.hygienic_of_finalParams sound ?_).2 result s rest
          intro final result s' finish
          obtain ⟨changed, t', hchanged, final⟩ := bind_eq_ok.1 finish
          obtain ⟨hok, rfl⟩ := Filtering.ofExcept_eq_ok hchanged
          cases final
          rw [Filtering.restrictUpdate_eq_ok hok]
          exact ⟨rfl, .update ((hfound filter).2 rfl)⟩
      | delete =>
        obtain ⟨statement, earlier, rfl⟩ := exists_delete hkind
        obtain ⟨found, t, decision, rest⟩ := bind_eq_ok.1 filtered
        obtain ⟨sound, hfound⟩ := decided decision
        refine ⟨t.Found, ?_, fun _ => sound.declared⟩
        cases found with
        | none =>
          cases rest
          exact Filtering.hygienic_unfiltered fun filter h => nomatch (hfound filter).1 h
        | some filter =>
          refine (Filtering.hygienic_of_finalParams sound ?_).2 result s rest
          rintro final result s' ⟨⟩
          exact ⟨rfl, .delete ((hfound filter).2 rfl)⟩

/-- Applying filters to an operation fails whatever the parameters are, or there are filters that
the operation is subject to, and for all parameters: a clash makes it fail, and otherwise the filters
bring their own parameters. -/
theorem filter_parameters_are_hygienic {filters : RowFilters} {op : Operation} {kind : FilterKind}
    {context : Json} {counter : Int} {memo : RowFilterMemo} (hkind : op.filterKind? = some kind)
    (bound : filters.context = some context) (remembered : Remembered filters.tables memo) :
    (∀ params, ∃ e memo', filters.apply ⟨op, params⟩ counter memo = .error e memo') ∨
    ∃ applied, FiltersOf filters kind op applied ∧ ∀ params,
      (Clashes context params applied →
        ∃ e memo', filters.apply ⟨op, params⟩ counter memo = .error e memo') ∧
      ∀ result memo', filters.apply ⟨op, params⟩ counter memo = .ok result memo' →
        Hygienic context applied ⟨op, params⟩ result := by
  have initial := FilterState.sound_initial remembered.sound counter
  cases kind with
  | select =>
    have resolved : Ensures (Filtering.wrap filters op) { memo, counter } (fun out s =>
        s.Sound filters.tables ∧
          FilterState.Grows filters .select op.Touches { memo, counter } s ∧
          Restricts (Filtering.guardOf filters s) op out)
        (fun s => s.memo.Sound filters.tables) := by
      refine (Filtering.ensures_wrap op initial).mono ?_ fun _ => id
      rintro out s ⟨sound, grows, restricts⟩
      exact ⟨sound, grows.congr (touches_select hkind), restricts⟩
    refine Filtering.hygienic_of_resolution hkind bound
      (fun params => Filtering.filtered_select hkind) resolved ?_
    intro params out s sound restricts
    refine Filtering.hygienic_of_finalParams sound fun final result s' run => ?_
    cases run
    exact ⟨rfl, .select restricts (Filtering.found_of_guardOf filters s)⟩
  | update =>
    obtain ⟨statement, rest, rfl⟩ := exists_update hkind
    refine Filtering.hygienic_of_decision hkind bound (fun params => rfl) (fun _ _ => Iff.rfl)
      initial ?_
    intro filter s final result s' hfound run
    obtain ⟨changed, s₁, hchanged, final⟩ := bind_eq_ok.1 run
    obtain ⟨hok, rfl⟩ := Filtering.ofExcept_eq_ok hchanged
    cases final
    rw [Filtering.restrictUpdate_eq_ok hok]
    exact ⟨rfl, .update hfound⟩
  | delete =>
    obtain ⟨statement, rest, rfl⟩ := exists_delete hkind
    refine Filtering.hygienic_of_decision hkind bound (fun params => rfl) (fun _ _ => Iff.rfl)
      initial ?_
    intro filter s final result s' hfound run
    cases run
    exact ⟨rfl, .delete hfound⟩

/-- Two filters are found for users joined with orders.  They bring their parameters, unless the
caller already has a parameter with the name of the organisation's. -/
theorem filter_parameters_are_hygienic_usersWithOrders :
    ∃ applied, FiltersOf organisationFilters .select usersWithOrders applied ∧
      (∃ result memo', organisationFilters.apply ⟨usersWithOrders, .obj []⟩ 0 [] = .ok result memo' ∧
        Hygienic (.obj [("org", .int 7)]) applied ⟨usersWithOrders, .obj []⟩ result) ∧
      ∃ e memo', organisationFilters.apply
        ⟨usersWithOrders, .obj [(RowFilter.contextParam "org", .int 8)]⟩ 0 [] = .error e memo' := by
  have succeeds : ∃ result memo',
      organisationFilters.apply ⟨usersWithOrders, .obj []⟩ 0 [] = .ok result memo' ∧
        result.params.contains (RowFilter.contextParam "org") = true := ⟨_, _, rfl, rfl⟩
  obtain ⟨result, memo', run, hcontains⟩ := succeeds
  have hkind : usersWithOrders.filterKind? = some .select := rfl
  have bound : organisationFilters.context = some (.obj [("org", .int 7)]) := rfl
  rcases filter_parameters_are_hygienic hkind bound .empty with fails | ⟨applied, filtersOf, outcome⟩
  · obtain ⟨e, memo'', failed⟩ := fails (.obj [])
    rw [run] at failed
    cases failed
  · have hygienic := (outcome (.obj [])).2 result memo' run
    rcases (hygienic.params.added _).1 hcontains with given | ⟨filter, happlied, hname⟩
    · cases given
    · refine ⟨applied, filtersOf, ⟨result, memo', run, hygienic⟩, (outcome _).1 ?_⟩
      exact ⟨filter, happlied, .inl ⟨_, hname, rfl⟩⟩

/-- `UPDATE users SET org = …` -/
def changeOrganisation : UpdateStatement where
  table := "users"
  schema := ""
  assignments := some [("org", .param "__p1" "" none)]

/-- The check that an UPDATE gets is about the new values.  Without a predicate of its own, all that it
tests is injected; the parameter that it assigns is among that, though the caller has brought it. -/
theorem update_check_reads_callers_parameter :
    ∃ final params memo',
      organisationFilters.apply ⟨[.update changeOrganisation], .obj [("__p1", .int 8)]⟩ 1 [] =
        .ok ⟨[.update final], params⟩ memo' ∧
      changeOrganisation.predicate = .absent ∧
      .param "__p1" "" none ∈ final.predicate.walk ∧
      (Json.obj [("__p1", .int 8)]).contains "__p1" = true := by
  let organisation : Expr := .param (RowFilter.contextParam "org") "" none
  let state : Expr :=
    .comparison .neq (.column "state" "" none) (.param (Scope.autoParamName 2) "" none)
  let filter (value : Expr) : Expr := .logical .and (.comparison .eq value organisation) state
  let check := filter (.param "__p1" "" none)
  refine ⟨{ changeOrganisation with
    predicate := .logical .and (filter (.column "org" "" none)) check }, _, _, rfl, rfl, ?_, rfl⟩
  simp [check, filter, Expr.walk]

end FluentQuery
