import Mathlib.Data.List.Nodup
import Mathlib.Data.String.Basic
import FluentQuery.Json.Value

/-!
# Laws of finite maps

Look-ups in merged maps, and the order of keys that every map built by insertion has.  A merge is a
sequence of insertions, so of two additions under one key the later one is found; in an ordered map
there is only one.
-/

namespace FluentQuery

set_option autoImplicit false

namespace Assoc

variable {α : Type}

/-! ### Keys and membership -/

@[simp] theorem contains_eq_isSome (m : Assoc α) (key : String) :
    contains m key = (find? m key).isSome := rfl

theorem mem_of_find? {m : Assoc α} {key : String} {value : α} (h : find? m key = some value) :
    (key, value) ∈ m := by
  induction m with
  | nil => simp at h
  | cons entry rest ih =>
    obtain ⟨k, v⟩ := entry
    by_cases hk : k = key
    · subst hk
      simp only [find?, if_true, Option.some.injEq] at h
      simp [h]
    · rw [find?, if_neg hk] at h
      exact List.mem_cons_of_mem _ (ih h)

theorem find?_isSome_iff_mem_keys {m : Assoc α} {key : String} :
    (find? m key).isSome ↔ key ∈ keys m := by
  induction m with
  | nil => simp [keys]
  | cons entry rest ih =>
    obtain ⟨k, v⟩ := entry
    by_cases hk : k = key
    · simp [find?, keys, hk]
    · rw [find?, if_neg hk, ih]
      simp [keys, Ne.symm hk]

theorem find?_eq_none_iff {m : Assoc α} {key : String} : find? m key = none ↔ key ∉ keys m := by
  rw [← find?_isSome_iff_mem_keys]
  simp

theorem mem_keys_iff {m : Assoc α} {key : String} :
    key ∈ keys m ↔ ∃ value, find? m key = some value := by
  rw [← find?_isSome_iff_mem_keys, Option.isSome_iff_exists]

theorem mem_keys_of_mem {m : Assoc α} {key : String} {value : α} (h : (key, value) ∈ m) :
    key ∈ keys m :=
  List.mem_map_of_mem h

theorem exists_mem_of_mem_keys {m : Assoc α} {key : String} (h : key ∈ keys m) :
    ∃ value, (key, value) ∈ m := by
  obtain ⟨⟨_, value⟩, mem, rfl⟩ := List.mem_map.1 h
  exact ⟨value, mem⟩

theorem find?_append (m n : Assoc α) (key : String) :
    find? (m ++ n) key = (find? m key).or (find? n key) := by
  induction m with
  | nil => simp
  | cons entry rest ih =>
    obtain ⟨k, v⟩ := entry
    by_cases hk : k = key
    · simp [find?, hk]
    · simp [find?, hk, ih]

/-- With one entry for each key, an entry is what look-up finds. -/
theorem find?_of_mem {m : Assoc α} {key : String} {value : α} (distinct : (keys m).Nodup)
    (h : (key, value) ∈ m) : find? m key = some value := by
  induction m with
  | nil => simp at h
  | cons entry rest ih =>
    obtain ⟨k, v⟩ := entry
    simp only [keys, List.map_cons, List.nodup_cons] at distinct
    rcases List.mem_cons.1 h with he | hr
    · cases he
      simp [find?]
    · have hk : k ≠ key := by
        rintro rfl
        exact distinct.1 (List.mem_map.2 ⟨_, hr, rfl⟩)
      rw [find?, if_neg hk]
      exact ih distinct.2 hr

theorem find?_erase (m : Assoc α) (key other : String) :
    find? (erase m key) other = if key = other then none else find? m other := by
  by_cases h : key = other
  · subst h
    simp
  · rw [find?_erase_of_ne m h, if_neg h]

/-! ### Merging -/

/-- The last addition under a key is found, else what was there before. -/
theorem find?_merge (base additions : Assoc α) (key : String) :
    find? (merge base additions) key = (find? additions.reverse key).or (find? base key) := by
  induction additions generalizing base with
  | nil => simp [merge]
  | cons entry rest ih =>
    obtain ⟨k, v⟩ := entry
    have step : merge base ((k, v) :: rest) = merge (insert base k v) rest := rfl
    rw [step, ih, List.reverse_cons, find?_append, find?_insert, Option.or_assoc]
    by_cases hk : k = key <;> simp [find?, hk]

theorem find?_reverse {m : Assoc α} (distinct : (keys m).Nodup) (key : String) :
    find? m.reverse key = find? m key := by
  have distinct' : (keys m.reverse).Nodup := by
    rw [keys, List.map_reverse, List.nodup_reverse]
    exact distinct
  cases h : find? m key with
  | some value => exact find?_of_mem distinct' (List.mem_reverse.2 (mem_of_find? h))
  | none =>
    rw [find?_eq_none_iff] at h ⊢
    simpa [keys] using h

theorem find?_merge_of_nodup (base : Assoc α) {additions : Assoc α}
    (distinct : (keys additions).Nodup) (key : String) :
    find? (merge base additions) key = (find? additions key).or (find? base key) := by
  rw [find?_merge, find?_reverse distinct]

/-- A value found in a merged map was added or was there before. -/
theorem mem_or_find?_of_find?_merge {base additions : Assoc α} {key : String} {value : α}
    (h : find? (merge base additions) key = some value) :
    (key, value) ∈ additions ∨ find? base key = some value := by
  rw [find?_merge] at h
  rcases Option.or_eq_some_iff.1 h with hadd | ⟨-, hbase⟩
  · exact .inl (List.mem_reverse.1 (mem_of_find? hadd))
  · exact .inr hbase

/-- When no key is added that was there before, both maps are found in the merged one. -/
theorem find?_merge_eq_some_iff {base additions : Assoc α} (nodup : (keys additions).Nodup)
    (distinct : ∀ key ∈ keys additions, key ∉ keys base) {key : String} {value : α} :
    find? (merge base additions) key = some value ↔
      find? additions key = some value ∨ find? base key = some value := by
  rw [find?_merge_of_nodup base nodup, Option.or_eq_some_iff]
  constructor
  · rintro (hadd | ⟨-, hbase⟩)
    · exact .inl hadd
    · exact .inr hbase
  · rintro (hadd | hbase)
    · exact .inl hadd
    · refine .inr ⟨find?_eq_none_iff.2 fun hkey => distinct key hkey ?_, hbase⟩
      exact mem_keys_iff.2 ⟨value, hbase⟩

theorem mem_keys_merge {base additions : Assoc α} {key : String} :
    key ∈ keys (merge base additions) ↔ key ∈ keys additions ∨ key ∈ keys base := by
  rw [← find?_isSome_iff_mem_keys, find?_merge, Option.isSome_or, Bool.or_eq_true,
    find?_isSome_iff_mem_keys, find?_isSome_iff_mem_keys]
  simp [keys]

/-! ### Order -/

theorem keys_insert_subset (m : Assoc α) (key other : String) (value : α)
    (h : other ∈ keys (insert m key value)) : other = key ∨ other ∈ keys m := by
  rw [← find?_isSome_iff_mem_keys, find?_insert] at h
  by_cases hk : key = other
  · exact .inl hk.symm
  · rw [if_neg hk, find?_isSome_iff_mem_keys] at h
    exact .inr h

theorem Sorted.insert {m : Assoc α} (sorted : Sorted m) (key : String) (value : α) :
    Sorted (insert m key value) := by
  induction m with
  | nil => simp [Sorted, Assoc.insert, keys]
  | cons entry rest ih =>
    obtain ⟨k, v⟩ := entry
    simp only [Sorted, keys, List.map_cons, List.pairwise_cons] at sorted
    by_cases hk : k = key
    · subst hk
      simpa [Assoc.insert, Sorted, keys] using sorted
    by_cases hlt : key < k
    · simp only [Assoc.insert, hk, hlt, if_true, if_false, Sorted, keys, List.map_cons,
        List.pairwise_cons]
      refine ⟨?_, sorted⟩
      intro other hother
      rcases List.mem_cons.1 hother with rfl | hrest
      · exact hlt
      · exact lt_trans hlt (sorted.1 other hrest)
    · simp only [Assoc.insert, hk, hlt, if_false, Sorted, keys, List.map_cons, List.pairwise_cons]
      refine ⟨?_, ih sorted.2⟩
      intro other hother
      rcases keys_insert_subset rest key other value hother with rfl | hrest
      · exact lt_of_le_of_ne (not_lt.1 hlt) hk
      · exact sorted.1 other hrest

theorem Sorted.merge {base : Assoc α} (sorted : Sorted base) (additions : Assoc α) :
    Sorted (merge base additions) := by
  induction additions generalizing base with
  | nil => exact sorted
  | cons entry rest ih => exact ih (sorted.insert entry.1 entry.2)

theorem sorted_ofList (entries : List (String × α)) : Sorted (ofList entries) :=
  have empty : Sorted ([] : Assoc α) := List.Pairwise.nil
  empty.merge entries

theorem Sorted.nodup {m : Assoc α} (sorted : Sorted m) : (keys m).Nodup :=
  sorted.imp fun h => ne_of_lt h

end Assoc

/-! ### Members of objects -/

theorem Json.find?_members (j : Json) (key : String) : j.members.find? key = j.get? key := by
  cases j <;> rfl

theorem Json.contains_iff (j : Json) (key : String) :
    j.contains key = true ↔ key ∈ Assoc.keys j.members := by
  rw [← Assoc.find?_isSome_iff_mem_keys, Json.find?_members, Json.contains]

/-- Of several members written under one key the last is found. -/
theorem Json.get?_object (members : List (String × Json)) (key : String) :
    (Json.object members).get? key = Assoc.find? members.reverse key := by
  simp [Json.object, Json.get?, Assoc.ofList, Assoc.find?_merge]

theorem Json.getD_object {α : Type} {members : List (String × Json)} {key : String}
    {read : Json → Except TypeError α} {default : α} :
    (Json.object members).getD key read default =
      match Assoc.find? members.reverse key with
      | some v => read v
      | none => .ok default := by
  rw [← Json.get?_object]
  rfl

namespace NameSet

@[simp] theorem mem_union (s t : NameSet) (name : String) :
    name ∈ union s t ↔ name ∈ t ∨ name ∈ s := by
  induction t generalizing s with
  | nil => simp [union]
  | cons n rest ih =>
    have step : union s (n :: rest) = union (insert s n) rest := rfl
    rw [step, ih, mem_insert, List.mem_cons]
    tauto

theorem contains_insert_of_ne (s : NameSet) {name other : String} (ne : other ≠ name) :
    (insert s name).contains other = s.contains other := by
  simp [List.contains_eq_mem, ne]

theorem contains_insert_self (s : NameSet) (name : String) : (insert s name).contains name = true := by
  simp [List.contains_eq_mem]

theorem contains_erase_of_ne (s : NameSet) {name other : String} (ne : other ≠ name) :
    (erase s name).contains other = s.contains other := by
  simp [List.contains_eq_mem, ne]

theorem contains_erase_self (s : NameSet) (name : String) : (erase s name).contains name = false := by
  simp [List.contains_eq_mem]

end NameSet

end FluentQuery
