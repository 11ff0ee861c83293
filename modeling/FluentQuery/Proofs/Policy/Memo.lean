import FluentQuery.Policy.Apply
import FluentQuery.Proofs.Data.Joined
import FluentQuery.Proofs.Policy.ParsedFilter

/-!
# The memo of parsed filters

Parsed filters are remembered across operations by table, kind and the number of the first automatic
parameter.  These three determine the key, so what is found in the memo is what parsing would give
(`RowFilterMemo.Sound`).
-/

namespace FluentQuery

set_option autoImplicit false

/-! ### Keys -/

theorem FilterKind.name_inj {kind kind' : FilterKind} (h : kind.name = kind'.name) :
    kind = kind' := by
  cases kind <;> cases kind' <;> first | rfl | exact absurd h (by decide)

/-- Kinds have no bar in their names, so that the last bar in a key stands before the kind. -/
theorem FilterKind.bar_notMem_name (kind : FilterKind) : '|' ∉ kind.name.toList := by
  cases kind <;> decide

/-- The key under which the filter of a table is remembered within an operation. -/
def cacheKey (table : String) (kind : FilterKind) : String :=
  table ++ "|" ++ kind.name

/-- The key under which a parsed filter is remembered across operations. -/
def memoKey (table : String) (kind : FilterKind) (counter : Int) : String :=
  cacheKey table kind ++ "|" ++ toString counter

/-- A key tells the table and the kind, even if there are bars in the name of the table. -/
theorem cacheKey_inj {table table' : String} {kind kind' : FilterKind}
    (h : cacheKey table kind = cacheKey table' kind') : table = table' ∧ kind = kind' := by
  obtain ⟨htable, hname⟩ :=
    Text.joined_inj (c := '|') (by decide) kind.bar_notMem_name kind'.bar_notMem_name h
  exact ⟨htable, FilterKind.name_inj hname⟩

/-- A key of the memo tells the number of the first parameter as well. -/
theorem memoKey_inj {table table' : String} {kind kind' : FilterKind} {counter counter' : Int}
    (h : memoKey table kind counter = memoKey table' kind' counter') :
    table = table' ∧ kind = kind' ∧ counter = counter' := by
  obtain ⟨hkey, hnumeral⟩ := Text.joined_inj (c := '|') (by decide)
    (Text.notMem_numeral counter (by decide)) (Text.notMem_numeral counter' (by decide)) h
  obtain ⟨htable, hkind⟩ := cacheKey_inj hkey
  exact ⟨htable, hkind, Text.intNumeral_inj hnumeral⟩

/-! ### Merging parameters -/

/-- Parameters are merged exactly if no name is there already. -/
theorem mergeStrict_eq_ok {source : FilterParams} {base additions merged : Assoc Json} :
    mergeStrict source base additions = .ok merged ↔
      (∀ name ∈ Assoc.keys additions, name ∉ Assoc.keys base) ∧
        merged = Assoc.merge base additions := by
  unfold mergeStrict
  split
  · rename_i key found
    have hkey := List.find?_some found
    rw [Assoc.contains_eq_isSome, Assoc.find?_isSome_iff_mem_keys] at hkey
    simp only [reduceCtorEq, false_iff, not_and]
    intro fresh
    exact absurd hkey (fresh key (List.mem_of_find?_eq_some found))
  · rename_i none
    rw [Except.ok.injEq, eq_comm]
    simp only [List.find?_eq_none, Assoc.contains_eq_isSome, Assoc.find?_isSome_iff_mem_keys] at none
    exact ⟨fun h => ⟨none, h⟩, fun h => h.2⟩

/-! ### The memo -/

/-- A filter is what parsing the predicate declared for a table gives, automatic parameters being
numbered after `counter`. -/
def RowFilter.IsDeclared (tables : Assoc TableFilters) (key : String) (kind : FilterKind)
    (counter : Int) (filter : RowFilter) : Prop :=
  ∃ config declared, tables.find? key = some config ∧ config.predicateFor kind = some declared ∧
    RowFilter.parse declared key kind counter = .ok filter

/-- Filters that are declared name their own parameters only. -/
theorem RowFilter.IsDeclared.closed {tables : Assoc TableFilters} {key : String}
    {kind : FilterKind} {counter : Int} {filter : RowFilter}
    (h : filter.IsDeclared tables key kind counter) : filter.Closed := by
  obtain ⟨_, _, -, -, hparse⟩ := h
  exact closed_of_parse hparse

/-- What is remembered is what parsing would give. -/
def RowFilterMemo.Sound (tables : Assoc TableFilters) (memo : RowFilterMemo) : Prop :=
  ∀ key kind counter filter, memo.find? (memoKey key kind counter) = some filter →
    filter.IsDeclared tables key kind counter

namespace Filtering

variable {filters : RowFilters} {tables : Assoc TableFilters} {s s' : FilterState}

theorem soundMemo_empty : RowFilterMemo.Sound tables [] := by
  intro key kind counter filter h
  cases h

/-- A filter that was parsed may be remembered. -/
theorem soundMemo_insert {memo : RowFilterMemo} (sound : memo.Sound tables) {key : String}
    {kind : FilterKind} {counter : Int} {filter : RowFilter}
    (h : filter.IsDeclared tables key kind counter) :
    RowFilterMemo.Sound tables (memo.insert (memoKey key kind counter) filter) := by
  intro key' kind' counter' filter' found
  rw [Assoc.find?_insert] at found
  split at found
  · rename_i same
    obtain ⟨rfl, rfl, rfl⟩ := memoKey_inj same
    cases found
    exact h
  · exact sound _ _ _ _ found

/-- A filter is parsed, or the memo has what parsing gives. -/
theorem ensures_parsed (sound : s.memo.Sound tables) (remembers : Bool) {key : String}
    {kind : FilterKind} {config : TableFilters} {declared : Node}
    (hconfig : tables.find? key = some config)
    (hdeclared : config.predicateFor kind = some declared) :
    Ensures (parsed remembers declared key kind) s
      (fun filter s' => RowFilter.parse declared key kind s.counter = .ok filter ∧
        ∃ memo : RowFilterMemo, memo.Sound tables ∧ s' = { s with memo })
      (fun s' => s'.memo.Sound tables) := by
  unfold parsed
  refine .get ?_
  dsimp only
  split
  · rename_i filter hit
    have found : s.memo.find? (memoKey key kind s.counter) = some filter := by
      cases remembers with
      | true => exact hit
      | false => cases hit
    obtain ⟨config', declared', hconfig', hdeclared', hparse⟩ := sound key kind s.counter filter found
    obtain rfl := Option.some.inj (hconfig.symm.trans hconfig')
    obtain rfl := Option.some.inj (hdeclared.symm.trans hdeclared')
    exact .pure ⟨hparse, s.memo, sound, rfl⟩
  · split
    · exact .throw sound
    · rename_i filter hparse
      cases remembers with
      | true =>
        refine .modify (.pure ⟨hparse, _, ?_, rfl⟩)
        exact soundMemo_insert sound ⟨config, declared, hconfig, hdeclared, hparse⟩
      | false => exact .pure ⟨hparse, s.memo, sound, rfl⟩

end Filtering

end FluentQuery
