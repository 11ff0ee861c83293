import FluentQuery.Proofs.Policy.Remembered

/-!
# The parameters of a filtered query

The parameters of the filters found are added to those given, first the automatic ones and then those
that carry values of the context.  Main statement: `Filtering.finalParams_eq_ok`, which reads off what
every name is bound to and says that no name is ever rebound.
-/

namespace FluentQuery

set_option autoImplicit false

namespace Filtering

open FilterState

/-! ### Values of the context -/

variable {context : Json} {keys : NameSet}

/-- Each entry carries the value of one key, in order. -/
theorem contextEntries_eq_ok {entries : List (String × Json)}
    (h : keys.mapM (fun key => match context.get? key with
      | some value => Except.ok (RowFilter.contextParam key, value)
      | none => Except.error (PolicyFault.contextKeyMissing key)) = .ok entries) :
    (∀ key ∈ keys, ∃ value, (RowFilter.contextParam key, value) ∈ entries) ∧
      ∀ name value, (name, value) ∈ entries →
        ∃ key ∈ keys, name = RowFilter.contextParam key ∧ context.get? key = some value := by
  induction keys generalizing entries with
  | nil =>
    cases h
    simp
  | cons key rest ih =>
    rw [List.mapM_cons] at h
    obtain ⟨entry, hentry, h⟩ := outcome_bind_eq_ok.1 h
    obtain ⟨others, hothers, h⟩ := outcome_bind_eq_ok.1 h
    cases h
    obtain ⟨present, read⟩ := ih hothers
    split at hentry
    · rename_i value hvalue
      cases hentry
      constructor
      · intro key' hkey'
        rcases List.mem_cons.1 hkey' with rfl | hrest
        · exact ⟨value, List.mem_cons_self ..⟩
        · obtain ⟨value', hmem⟩ := present key' hrest
          exact ⟨value', List.mem_cons_of_mem _ hmem⟩
      · intro name value' hmem
        rcases List.mem_cons.1 hmem with heq | hrest
        · cases heq
          exact ⟨key, List.mem_cons_self .., rfl, hvalue⟩
        · obtain ⟨key', hkey', rest⟩ := read name value' hrest
          exact ⟨key', List.mem_cons_of_mem _ hkey', rest⟩
    · cases hentry

/-- The parameters of a context are bound to the values of their keys, all of which exist. -/
theorem contextParams_eq_ok {additions : Assoc Json}
    (h : contextParams context keys = .ok additions) :
    Assoc.Sorted additions ∧ ∀ name value, additions.find? name = some value ↔
      ∃ key ∈ keys, name = RowFilter.contextParam key ∧ context.get? key = some value := by
  unfold contextParams at h
  obtain ⟨entries, hentries, h⟩ := outcome_bind_eq_ok.1 h
  cases h
  obtain ⟨present, read⟩ := contextEntries_eq_ok hentries
  have found : ∀ name value, (Assoc.ofList entries).find? name = some value →
      ∃ key ∈ keys, name = RowFilter.contextParam key ∧ context.get? key = some value := by
    intro name value hv
    rcases Assoc.mem_or_find?_of_find?_merge hv with hmem | hnil
    · exact read name value hmem
    · cases hnil
  refine ⟨Assoc.sorted_ofList _, fun name value => ⟨found name value, ?_⟩⟩
  rintro ⟨key, hkey, rfl, hvalue⟩
  obtain ⟨value', hmem⟩ := present key hkey
  have bound : RowFilter.contextParam key ∈ Assoc.keys (Assoc.ofList entries) :=
    Assoc.mem_keys_merge.2 (.inl (List.mem_map.2 ⟨_, hmem, rfl⟩))
  obtain ⟨value'', hv⟩ := Assoc.mem_keys_iff.1 bound
  -- Of several entries for a name the last is found, but all of them carry the same value.
  obtain ⟨key', -, heq, hvalue''⟩ := found _ _ hv
  rw [RowFilter.contextParam_inj heq, hvalue''] at hvalue
  rw [hv, hvalue]

theorem contextParams_missing {key : String} (hkey : key ∈ keys)
    (missing : context.get? key = none) (additions : Assoc Json) :
    contextParams context keys ≠ .ok additions := by
  intro h
  unfold contextParams at h
  obtain ⟨entries, hentries, -⟩ := outcome_bind_eq_ok.1 h
  obtain ⟨present, read⟩ := contextEntries_eq_ok hentries
  obtain ⟨value, hmem⟩ := present key hkey
  obtain ⟨key', -, heq, hvalue⟩ := read _ _ hmem
  rw [← RowFilter.contextParam_inj heq, missing] at hvalue
  cases hvalue

/-! ### All parameters -/

variable {filters : RowFilters} {params final : Json} {place : ErrorContext} {s s' : FilterState}

/-- The parameters of a filtered query: what the filters and the context bind, and what was given. -/
structure Extends (context params final : Json) (s : FilterState) : Prop where
  get? : ∀ name value, final.get? name = some value ↔
    params.get? name = some value ∨ s.autoParams.find? name = some value ∨
      ∃ key ∈ s.contextKeys, name = RowFilter.contextParam key ∧ context.get? key = some value
  freshAuto : ∀ name ∈ Assoc.keys s.autoParams, params.contains name = false
  freshContext : ∀ key ∈ s.contextKeys, params.contains (RowFilter.contextParam key) = false
  present : ∀ key ∈ s.contextKeys, ∃ value, context.get? key = some value

/-- Work that succeeds with the final parameters has merged twice, and every name was free. -/
theorem finalParams_run (run : finalParams context params place s = .ok final s') :
    s' = s ∧ ∃ additions, contextParams context s.contextKeys = .ok additions ∧
      (∀ name ∈ Assoc.keys s.autoParams, name ∉ Assoc.keys params.members) ∧
      (∀ name ∈ Assoc.keys additions,
        name ∉ Assoc.keys (Assoc.merge params.members s.autoParams)) ∧
      final = .obj (Assoc.merge (Assoc.merge params.members s.autoParams) additions) := by
  unfold finalParams at run
  obtain ⟨_, _, hget, run⟩ := bind_eq_ok.1 run
  cases hget
  obtain ⟨outcome, rfl⟩ := ofExcept_eq_ok run
  obtain ⟨withAuto, hauto, outcome⟩ := outcome_bind_eq_ok.1 outcome
  obtain ⟨additions, hadditions, outcome⟩ := outcome_bind_eq_ok.1 outcome
  obtain ⟨merged, hmerged, outcome⟩ := outcome_bind_eq_ok.1 outcome
  cases outcome
  obtain ⟨freshAuto, rfl⟩ := mergeStrict_eq_ok.1 hauto
  obtain ⟨freshContext, rfl⟩ := mergeStrict_eq_ok.1 hmerged
  exact ⟨rfl, additions, hadditions, freshAuto, freshContext, rfl⟩

/-- Parameters are added only under names that are free. -/
theorem finalParams_eq_ok (ordered : Assoc.Sorted s.autoParams)
    (run : finalParams context params place s = .ok final s') :
    s' = s ∧ Extends context params final s := by
  obtain ⟨rfl, additions, hadditions, freshAuto, freshContext, rfl⟩ := finalParams_run run
  obtain ⟨sorted, bound⟩ := contextParams_eq_ok hadditions
  have present : ∀ key ∈ s'.contextKeys, ∃ value, context.get? key = some value := by
    intro key hkey
    cases hvalue : context.get? key with
    | some value => exact ⟨value, rfl⟩
    | none => exact absurd hadditions (contextParams_missing hkey hvalue additions)
  refine ⟨rfl, ?_, ?_, ?_, present⟩
  · intro name value
    show (Assoc.merge (Assoc.merge params.members s'.autoParams) additions).find? name = some value ↔ _
    rw [Assoc.find?_merge_eq_some_iff sorted.nodup freshContext,
      Assoc.find?_merge_eq_some_iff ordered.nodup freshAuto, bound, Json.find?_members]
    constructor
    · rintro (hcontext | hauto | hgiven)
      exacts [.inr (.inr hcontext), .inr (.inl hauto), .inl hgiven]
    · rintro (hgiven | hauto | hcontext)
      exacts [.inr (.inr hgiven), .inr (.inl hauto), .inl hcontext]
  · intro name hname
    rw [Bool.eq_false_iff, ne_eq, Json.contains_iff]
    exact freshAuto name hname
  · intro key hkey
    rw [Bool.eq_false_iff, ne_eq, Json.contains_iff]
    intro given
    obtain ⟨value, hvalue⟩ := present key hkey
    refine freshContext (RowFilter.contextParam key) ?_ (Assoc.mem_keys_merge.2 (.inr given))
    exact Assoc.mem_keys_iff.2 ⟨value, (bound _ value).2 ⟨key, hkey, rfl, hvalue⟩⟩

end Filtering

end FluentQuery
