import FluentQuery.Proofs.Policy.Memo

/-!
# Finding the filters of an operation

While an operation is filtered, the filters found so far are kept by table and kind together with
their parameters.  `FilterState.Sound` says that they are the declared ones and that the parameters
gathered are exactly theirs; `FilterState.Grows` says which tables were looked for in between.
-/

namespace FluentQuery

set_option autoImplicit false

/-! ### The filters found so far -/

/-- What was found for a table is what its declaration says. -/
def Decided (tables : Assoc TableFilters) (key : String) (kind : FilterKind) :
    Option RowFilter → Prop
  | none => ∃ config, tables.find? key = some config ∧ config.predicateFor kind = none
  | some filter => ∃ counter, filter.IsDeclared tables key kind counter

namespace FilterState

/-- A filter was found for a table. -/
def Found (s : FilterState) (filter : RowFilter) : Prop :=
  ∃ key kind, s.resolved.find? (cacheKey key kind) = some (some filter)

/-- The filters found are the declared ones, and the parameters gathered are theirs. -/
structure Sound (tables : Assoc TableFilters) (s : FilterState) : Prop where
  memo : s.memo.Sound tables
  decided : ∀ key kind found, s.resolved.find? (cacheKey key kind) = some found →
    Decided tables key kind found
  ordered : Assoc.Sorted s.autoParams
  autoParams : ∀ name value, s.autoParams.find? name = some value ↔
    ∃ filter, s.Found filter ∧ filter.autoParams.find? name = some value
  contextKeys : ∀ key, key ∈ s.contextKeys ↔ ∃ filter, s.Found filter ∧ key ∈ filter.contextKeys

variable {tables : Assoc TableFilters} {s : FilterState} {key : String} {kind : FilterKind}

theorem Sound.declared (sound : s.Sound tables) {filter : RowFilter} (h : s.Found filter) :
    ∃ key kind counter, filter.IsDeclared tables key kind counter := by
  obtain ⟨key, kind, hfound⟩ := h
  exact ⟨key, kind, sound.decided key kind _ hfound⟩

theorem Sound.closed (sound : s.Sound tables) {filter : RowFilter} (h : s.Found filter) :
    filter.Closed := by
  obtain ⟨key, kind, counter, declared⟩ := sound.declared h
  exact declared.closed

/-- At first nothing has been found. -/
theorem sound_initial {memo : RowFilterMemo} (sound : memo.Sound tables) (counter : Int) :
    Sound tables { memo, counter } where
  memo := sound
  decided _ _ _ h := by cases h
  ordered := List.Pairwise.nil
  autoParams name value := by simp [Found]
  contextKeys key := by simp [Found]

section

variable {s' : FilterState} {decision : Option RowFilter}
  (recorded : s'.resolved = s.resolved.insert (cacheKey key kind) decision)

include recorded

theorem found_record (fresh : s.resolved.find? (cacheKey key kind) = none) (filter : RowFilter) :
    s'.Found filter ↔ decision = some filter ∨ s.Found filter := by
  unfold Found
  rw [recorded]
  constructor
  · rintro ⟨key', kind', found⟩
    rw [Assoc.find?_insert] at found
    split at found
    · exact .inl (Option.some.inj found)
    · exact .inr ⟨key', kind', found⟩
  · rintro (rfl | ⟨key', kind', found⟩)
    · exact ⟨key, kind, Assoc.find?_insert_self ..⟩
    · refine ⟨key', kind', ?_⟩
      have other : cacheKey key kind ≠ cacheKey key' kind' := by
        intro same
        rw [same, found] at fresh
        cases fresh
      rw [Assoc.find?_insert, if_neg other]
      exact found

theorem Sound.decided_record (sound : s.Sound tables) (h : Decided tables key kind decision)
    (key' : String) (kind' : FilterKind) (found : Option RowFilter)
    (hf : s'.resolved.find? (cacheKey key' kind') = some found) :
    Decided tables key' kind' found := by
  rw [recorded, Assoc.find?_insert] at hf
  split at hf
  · rename_i same
    obtain ⟨rfl, rfl⟩ := cacheKey_inj same
    obtain rfl := Option.some.inj hf
    exact h
  · exact sound.decided _ _ _ hf

end

variable {s' : FilterState} (sound : s.Sound tables)
  (fresh : s.resolved.find? (cacheKey key kind) = none)

include sound fresh

/-- Recording that a table is not filtered. -/
theorem Sound.record_none (h : Decided tables key kind none)
    (change : s' = { s with resolved := s.resolved.insert (cacheKey key kind) none }) :
    Sound tables s' := by
  have recorded : s'.resolved = s.resolved.insert (cacheKey key kind) none := by rw [change]
  have found : ∀ filter, s'.Found filter ↔ s.Found filter := fun filter => by
    rw [found_record recorded fresh]
    simp
  constructor
  · rw [change]
    exact sound.memo
  · exact sound.decided_record recorded h
  · rw [change]
    exact sound.ordered
  · simp only [found]
    rw [change]
    exact sound.autoParams
  · simp only [found]
    rw [change]
    exact sound.contextKeys

/-- Recording the filter of a table and gathering its parameters. -/
theorem Sound.record_some {filter : RowFilter} (soundMemo : s'.memo.Sound tables)
    (h : Decided tables key kind (some filter))
    (distinct : ∀ name ∈ Assoc.keys filter.autoParams, name ∉ Assoc.keys s.autoParams)
    (recorded : s'.resolved = s.resolved.insert (cacheKey key kind) (some filter))
    (autoParams : s'.autoParams = Assoc.merge s.autoParams filter.autoParams)
    (contextKeys : s'.contextKeys = NameSet.union s.contextKeys filter.contextKeys) :
    Sound tables s' := by
  have found := found_record recorded fresh
  constructor
  · exact soundMemo
  · exact sound.decided_record recorded h
  · rw [autoParams]
    exact sound.ordered.merge _
  · intro name value
    obtain ⟨number, declared⟩ := h
    simp only [found, Option.some.injEq]
    rw [autoParams, Assoc.find?_merge_eq_some_iff declared.closed.ordered.nodup distinct,
      sound.autoParams]
    constructor
    · rintro (hnew | ⟨other, hother, hv⟩)
      · exact ⟨filter, .inl rfl, hnew⟩
      · exact ⟨other, .inr hother, hv⟩
    · rintro ⟨other, rfl | hother, hv⟩
      · exact .inl hv
      · exact .inr ⟨other, hother, hv⟩
  · intro k
    simp only [found, Option.some.injEq, contextKeys, NameSet.mem_union, sound.contextKeys]
    constructor
    · rintro (hk | ⟨other, hother, hk⟩)
      · exact ⟨filter, .inl rfl, hk⟩
      · exact ⟨other, .inr hother, hk⟩
    · rintro ⟨other, rfl | hother, hk⟩
      · exact .inl hk
      · exact .inr ⟨other, hother, hk⟩

end FilterState

/-! ### Looking for the filter of a table -/

/-- A table is declared under the name that is found for it. -/
theorem RowFilters.find?_tables {filters : RowFilters} {schema table key : String}
    {config : TableFilters} (h : filters.find? schema table = some (key, config)) :
    filters.tables.find? key = some config := by
  have entry : ∀ name, ((filters.tables.find? name).map fun config => (name, config)) =
      some (key, config) → filters.tables.find? key = some config := by
    intro name hname
    obtain ⟨config', hconfig, heq⟩ := Option.map_eq_some_iff.1 hname
    cases heq
    exact hconfig
  unfold find? at h
  split at h
  · exact entry _ h
  · rcases Option.or_eq_some_iff.1 h with hq | ⟨-, hu⟩
    · exact entry _ hq
    · exact entry _ hu

/-- A table without an entry under its qualified and its plain name is not declared. -/
theorem RowFilters.find?_eq_none {filters : RowFilters} {schema table : String}
    (qualified : schema ≠ "" → filters.tables.find? (schema ++ "." ++ table) = none)
    (plain : filters.tables.find? table = none) : filters.find? schema table = none := by
  unfold find?
  split
  · simp [plain]
  · rename_i nonempty
    have named : schema ≠ "" := fun empty => nonempty (String.isEmpty_iff.2 empty)
    simp [qualified named, plain]

namespace FilterState

/-- What was found for a table of the operation. -/
def Decides (filters : RowFilters) (kind : FilterKind) (s : FilterState) (schema table : String)
    (found : Option RowFilter) : Prop :=
  ∃ key config, filters.find? schema table = some (key, config) ∧
    s.resolved.find? (cacheKey key kind) = some found

/-- The filters of the given tables were found as well, and no others. -/
structure Grows (filters : RowFilters) (kind : FilterKind) (touched : String → String → Prop)
    (s s' : FilterState) : Prop where
  kept : ∀ key found, s.resolved.find? key = some found → s'.resolved.find? key = some found
  decided : ∀ schema table, touched schema table → ∃ found, s'.Decides filters kind schema table found
  only : ∀ filter, s'.Found filter → s.Found filter ∨
    ∃ schema table, touched schema table ∧ s'.Decides filters kind schema table (some filter)

variable {filters : RowFilters} {kind : FilterKind} {s s' s'' : FilterState}
  {touched touched' : String → String → Prop}

theorem Decides.mono {schema table : String} {found : Option RowFilter}
    (h : s.Decides filters kind schema table found) (grows : s.Grows filters kind touched s') :
    s'.Decides filters kind schema table found := by
  obtain ⟨key, config, hfind, hfound⟩ := h
  exact ⟨key, config, hfind, grows.kept _ _ hfound⟩

theorem Decides.unique {schema table : String} {found found' : Option RowFilter}
    (h : s.Decides filters kind schema table found)
    (h' : s.Decides filters kind schema table found') : found = found' := by
  obtain ⟨key, config, hfind, hfound⟩ := h
  obtain ⟨key', config', hfind', hfound'⟩ := h'
  cases hfind.symm.trans hfind'
  exact Option.some.inj (hfound.symm.trans hfound')

/-- A filter that was found is the one declared for its table. -/
theorem Decides.predicate {schema table key : String} {config : TableFilters} {filter : RowFilter}
    (h : s.Decides filters kind schema table (some filter)) (sound : s.Sound filters.tables)
    (hfind : filters.find? schema table = some (key, config)) :
    ∃ predicate number, config.predicateFor kind = some predicate ∧
      RowFilter.parse predicate key kind number = .ok filter := by
  obtain ⟨key', config', hfind', hfound⟩ := h
  cases hfind.symm.trans hfind'
  obtain ⟨number, config', predicate, hconfig', hpredicate, hparse⟩ :=
    sound.decided key kind _ hfound
  obtain rfl := Option.some.inj ((RowFilters.find?_tables hfind).symm.trans hconfig')
  exact ⟨predicate, number, hpredicate, hparse⟩

/-- For a table with a filter one was found. -/
theorem Decides.declared {schema table key : String} {config : TableFilters} {predicate : Node}
    {found : Option RowFilter} (h : s.Decides filters kind schema table found)
    (sound : s.Sound filters.tables) (hfind : filters.find? schema table = some (key, config))
    (hpredicate : config.predicateFor kind = some predicate) :
    ∃ filter number, found = some filter ∧
      RowFilter.parse predicate key kind number = .ok filter := by
  cases found with
  | some filter =>
    obtain ⟨predicate', number, hpredicate', hparse⟩ := h.predicate sound hfind
    obtain rfl := Option.some.inj (hpredicate.symm.trans hpredicate')
    exact ⟨filter, number, rfl, hparse⟩
  | none =>
    obtain ⟨key', config', hfind', hfound⟩ := h
    cases hfind.symm.trans hfind'
    obtain ⟨config', hconfig', hnone⟩ := sound.decided key kind _ hfound
    obtain rfl := Option.some.inj ((RowFilters.find?_tables hfind).symm.trans hconfig')
    rw [hpredicate] at hnone
    cases hnone

namespace Grows

/-- Nothing is looked for. -/
theorem refl (none : ∀ schema table, ¬ touched schema table) : s.Grows filters kind touched s where
  kept _ _ h := h
  decided schema table h := absurd h (none schema table)
  only _ h := .inl h

theorem trans (h : s.Grows filters kind touched s') (h' : s'.Grows filters kind touched' s'')
    {both : String → String → Prop}
    (split : ∀ schema table, both schema table ↔ touched schema table ∨ touched' schema table) :
    s.Grows filters kind both s'' where
  kept key found hf := h'.kept key found (h.kept key found hf)
  decided schema table ht := by
    rcases (split schema table).1 ht with h₁ | h₂
    · obtain ⟨found, hd⟩ := h.decided schema table h₁
      exact ⟨found, hd.mono h'⟩
    · exact h'.decided schema table h₂
  only filter hf := by
    rcases h'.only filter hf with hmid | ⟨schema, table, ht, hd⟩
    · rcases h.only filter hmid with hold | ⟨schema, table, ht, hd⟩
      · exact .inl hold
      · exact .inr ⟨schema, table, (split schema table).2 (.inl ht), hd.mono h'⟩
    · exact .inr ⟨schema, table, (split schema table).2 (.inr ht), hd⟩

theorem congr (h : s.Grows filters kind touched s')
    (same : ∀ schema table, touched' schema table ↔ touched schema table) :
    s.Grows filters kind touched' s' where
  kept := h.kept
  decided schema table ht := h.decided schema table ((same schema table).1 ht)
  only filter hf := (h.only filter hf).imp id fun ⟨schema, table, ht, hd⟩ =>
    ⟨schema, table, (same schema table).2 ht, hd⟩

/-- One table was looked for. -/
theorem record {schema table key : String} {config : TableFilters} {found : Option RowFilter}
    (hfind : filters.find? schema table = some (key, config))
    (fresh : s.resolved.find? (cacheKey key kind) = none)
    (recorded : s'.resolved = s.resolved.insert (cacheKey key kind) found) :
    s.Grows filters kind (fun sc t => sc = schema ∧ t = table) s' := by
  have here : s'.Decides filters kind schema table found := by
    refine ⟨key, config, hfind, ?_⟩
    rw [recorded]
    exact Assoc.find?_insert_self ..
  constructor
  · intro other found' hf
    have ne : cacheKey key kind ≠ other := by
      rintro rfl
      rw [fresh] at hf
      cases hf
    rw [recorded, Assoc.find?_insert, if_neg ne]
    exact hf
  · rintro _ _ ⟨rfl, rfl⟩
    exact ⟨found, here⟩
  · intro filter hf
    rcases (found_record recorded fresh filter).1 hf with rfl | hold
    · exact .inr ⟨schema, table, ⟨rfl, rfl⟩, here⟩
    · exact .inl hold

end Grows

end FilterState

namespace Filtering

open FilterState

variable {filters : RowFilters} {s : FilterState}

/-- Looking for the filter of a table finds what is declared for it, and remembers it. -/
theorem ensures_filterFor (sound : s.Sound filters.tables) (schema table : String)
    (kind : FilterKind) :
    Ensures (filterFor filters schema table kind) s
      (fun found s' => s'.Sound filters.tables ∧
        s.Grows filters kind (fun sc t => sc = schema ∧ t = table) s' ∧
        s'.Decides filters kind schema table found)
      (fun s' => s'.memo.Sound filters.tables) := by
  unfold filterFor
  split
  · exact .throw sound.memo
  rename_i key config hfind
  have hconfig := RowFilters.find?_tables hfind
  refine .get ?_
  split
  · rename_i found hit
    have here : s.Decides filters kind schema table found := ⟨key, config, hfind, hit⟩
    refine .pure ⟨sound, ⟨fun _ _ h => h, ?_, fun _ h => .inl h⟩, here⟩
    rintro _ _ ⟨rfl, rfl⟩
    exact ⟨found, here⟩
  rename_i hmiss
  have fresh : s.resolved.find? (cacheKey key kind) = none := hmiss
  split
  · rename_i hnone
    refine .modify (.pure ⟨sound.record_none fresh ⟨config, hconfig, hnone⟩ rfl, ?_, ?_⟩)
    · exact .record hfind fresh rfl
    · exact ⟨key, config, hfind, Assoc.find?_insert_self ..⟩
  rename_i declared hdeclared
  refine .bind (ensures_parsed sound.memo _ hconfig hdeclared) ?_
  rintro filter _ ⟨hparse, memo, soundMemo, rfl⟩
  refine .modify (.get ?_)
  dsimp only
  cases hmerge : mergeStrict .auto s.autoParams filter.autoParams with
  | error fault => exact soundMemo
  | ok merged =>
    obtain ⟨distinct, rfl⟩ := mergeStrict_eq_ok.1 hmerge
    have decided : Decided filters.tables key kind (some filter) :=
      ⟨s.counter, config, declared, hconfig, hdeclared, hparse⟩
    refine ⟨?_, .record hfind fresh rfl, ?_⟩
    · exact sound.record_some fresh soundMemo decided distinct rfl rfl rfl
    · exact ⟨key, config, hfind, Assoc.find?_insert_self ..⟩

end Filtering

end FluentQuery
