import FluentQuery.Proofs.Data.Joined
import FluentQuery.Proofs.Resolve.Minting

/-!
# The numbers of automatic parameters

A scope that has been reached from an empty one has numbered its automatic parameters one after the
other: `Scope.Enumerates`.  Minting one more goes on counting, and changes nothing about those there
are (`Scope.Retains`).
-/

namespace FluentQuery

set_option autoImplicit false

namespace Assoc

variable {α β : Type}

theorem map_insert (f : α → β) (m : Assoc α) (key : String) (value : α) :
    (m.insert key value).map (fun entry => (entry.1, f entry.2)) =
      insert (m.map fun entry => (entry.1, f entry.2)) key (f value) := by
  induction m with
  | nil => rfl
  | cons entry rest ih =>
    obtain ⟨k, v⟩ := entry
    simp only [insert, List.map_cons]
    split
    · rfl
    · split
      · rfl
      · rw [List.map_cons, ih]

end Assoc

namespace Scope

/-- Different numbers give different names. -/
theorem autoParamName_inj {i j : Int} (h : autoParamName i = autoParamName j) : i = j := by
  have chars := congrArg String.toList h
  simp only [autoParamName, String.toList_append, List.append_cancel_left_eq] at chars
  exact Text.intNumeral_inj (String.toList_inj.1 chars)

/-- The automatic parameters are numbered from one to the counter; what is recorded about them has the
same names and the same values. -/
structure Enumerates (s : Scope) : Prop where
  sorted : Assoc.Sorted s.autoParams
  names : ∀ name, name ∈ Assoc.keys s.autoParams ↔
    ∃ number, 1 ≤ number ∧ number ≤ s.autoParamCounter ∧ name = autoParamName number
  values : s.autoParams = s.autoParamInfos.map fun entry => (entry.1, entry.2.value)
  counter : 0 ≤ s.autoParamCounter

/-- Every automatic parameter keeps its value and what is recorded about it. -/
structure Retains (s s' : Scope) : Prop where
  values : ∀ name value, s.autoParams.find? name = some value → s'.autoParams.find? name = some value
  infos : ∀ name info, s.autoParamInfos.find? name = some info →
    s'.autoParamInfos.find? name = some info

theorem Retains.refl (s : Scope) : s.Retains s :=
  ⟨fun _ _ => id, fun _ _ => id⟩

theorem Retains.trans {s s' s'' : Scope} (h : s.Retains s') (h' : s'.Retains s'') : s.Retains s'' := by
  constructor
  · intro name value found
    exact h'.values name value (h.values name value found)
  · intro name info found
    exact h'.infos name info (h.infos name info found)

theorem Retains.mem_keys {s s' : Scope} (h : s.Retains s') {name : String}
    (mem : name ∈ Assoc.keys s.autoParams) : name ∈ Assoc.keys s'.autoParams := by
  obtain ⟨value, found⟩ := Assoc.mem_keys_iff.1 mem
  exact Assoc.mem_keys_iff.2 ⟨value, h.values name value found⟩

/-- Two scopes with the same automatic parameters. -/
structure SameAutoParams (s s' : Scope) : Prop where
  values : s'.autoParams = s.autoParams
  counter : s'.autoParamCounter = s.autoParamCounter
  infos : s'.autoParamInfos = s.autoParamInfos

theorem SameAutoParams.retains {s s' : Scope} (same : s.SameAutoParams s') : s.Retains s' := by
  constructor
  · rw [same.values]
    exact fun _ _ => id
  · rw [same.infos]
    exact fun _ _ => id

namespace Enumerates

variable {s s' : Scope}

/-- Numbering looks at the parameters and their counter only. -/
theorem congr (h : s.Enumerates) (same : s.SameAutoParams s') : s'.Enumerates := by
  constructor
  · rw [same.values]
    exact h.sorted
  · rw [same.values, same.counter]
    exact h.names
  · rw [same.values, same.infos]
    exact h.values
  · rw [same.counter]
    exact h.counter

/-- There is no automatic parameter at first. -/
theorem start (h : s.autoParams = []) (infos : s.autoParamInfos = [])
    (counter : s.autoParamCounter = 0) : s.Enumerates := by
  refine ⟨?_, fun name => ?_, ?_, ?_⟩
  · rw [h]
    exact .nil
  · rw [h, counter]
    constructor
    · rintro ⟨⟩
    · rintro ⟨number, least, most, -⟩
      omega
  · rw [h, infos]
    rfl
  · rw [counter]

/-- The next name is free. -/
theorem fresh (h : s.Enumerates) :
    autoParamName (s.autoParamCounter + 1) ∉ Assoc.keys s.autoParams := by
  intro mem
  obtain ⟨number, -, most, same⟩ := (h.names _).1 mem
  have := autoParamName_inj same
  omega

/-- A parameter that is added gets the next number. -/
theorem mint (h : s.Enumerates) (value : Json) (fieldName : String) (sourceTable : Option Int) :
    (s.addAutoParam value fieldName sourceTable).2.Enumerates := by
  have counter := h.counter
  refine ⟨h.sorted.insert _ _, fun name => ?_, ?_, ?_⟩
  · -- A number up to the new counter is the new one or one up to the old.
    rw [← Assoc.find?_isSome_iff_mem_keys]
    simp only [addAutoParam, Assoc.find?_insert]
    split
    · rename_i same
      simp only [Option.isSome_some, true_iff]
      exact ⟨s.autoParamCounter + 1, by omega, by omega, same.symm⟩
    · rename_i other
      rw [Assoc.find?_isSome_iff_mem_keys, h.names]
      constructor
      · rintro ⟨number, least, most, rfl⟩
        exact ⟨number, least, by omega, rfl⟩
      · rintro ⟨number, least, most, rfl⟩
        have below : number ≠ s.autoParamCounter + 1 := by
          rintro rfl
          exact other rfl
        exact ⟨number, least, by omega, rfl⟩
  · simp only [addAutoParam]
    rw [Assoc.map_insert AutoParamInfo.value, ← h.values]
  · simp only [addAutoParam]
    omega

/-- A parameter that is added is a new one, so that no value is replaced. -/
theorem retains_mint (h : s.Enumerates) (value : Json) (fieldName : String)
    (sourceTable : Option Int) :
    s.Retains (s.addAutoParam value fieldName sourceTable).2 := by
  have fresh := h.fresh
  have keys : Assoc.keys s.autoParamInfos = Assoc.keys s.autoParams := by
    rw [h.values, Assoc.keys, Assoc.keys, List.map_map]
    rfl
  constructor
  · intro name found' found
    have ne : autoParamName (s.autoParamCounter + 1) ≠ name := by
      rintro rfl
      exact fresh (Assoc.mem_keys_iff.2 ⟨found', found⟩)
    simpa only [addAutoParam, Assoc.find?_insert_of_ne _ _ ne] using found
  · intro name info found
    have ne : autoParamName (s.autoParamCounter + 1) ≠ name := by
      rintro rfl
      exact fresh (keys ▸ Assoc.mem_keys_iff.2 ⟨info, found⟩)
    simpa only [addAutoParam, Assoc.find?_insert_of_ne _ _ ne] using found

theorem mints (h : s.Enumerates) (minted : s.Mints s') : s'.Enumerates ∧ s.Retains s' := by
  induction minted with
  | refl => exact ⟨h, .refl s⟩
  | mint before value fieldName sourceTable ih =>
    obtain ⟨numbered, retained⟩ := ih
    exact ⟨numbered.mint .., retained.trans (numbered.retains_mint ..)⟩

end Enumerates

end Scope

end FluentQuery
