import Mathlib.Data.List.Nodup
import FluentQuery.Cache.Lru
import FluentQuery.Proofs.Data.Assoc

/-!
# The cache as a list of entries in the order of their use

A map and a list of keys are changed side by side.  `Cache.Consistent` says how they belong together,
and `LruList` is the one list they stand for: the entries, the one used last first.  Main statement:
`Cache.run_refines_lruList`, that after any calls the two are in step, and that every look-up had the
answer that the list gives.
-/

namespace FluentQuery

set_option autoImplicit false

variable {α : Type}

/-! ### The list -/

/-- A bounded list of entries, the one used last first. -/
structure LruList (α : Type) where
  config : CacheConfig
  items : List (String × α) := []

namespace LruList

/-- Entries with that under a key moved to the front, or put there. -/
def toFront (key : String) (value : α) (items : List (String × α)) : List (String × α) :=
  (key, value) :: Assoc.erase items key

def get (l : LruList α) (key : String) : Option α × LruList α :=
  if l.config.isActive then
    match Assoc.find? l.items key with
    | some value => (some value, { l with items := toFront key value l.items })
    | none => (none, l)
  else (none, l)

/-- Puts an entry in front; what exceeds the capacity falls off at the back. -/
def set (l : LruList α) (key : String) (value : α) : LruList α :=
  if l.config.isActive then
    { l with items := (toFront key value l.items).take l.config.capacity }
  else l

def clear (l : LruList α) : LruList α :=
  { l with items := [] }

def setConfig (l : LruList α) (config : CacheConfig) : LruList α :=
  { config, items := if config.isActive then l.items.take config.capacity else [] }

end LruList

/-! ### Calls -/

/-- A call that a cache takes. -/
inductive CacheCall (α : Type) where
  | get (key : String)
  | set (key : String) (value : α)
  | clear
  | resetStats
  | setConfig (config : CacheConfig)

/-- The answer to a call, which only a look-up has, and the cache after it. -/
def Cache.call (c : Cache α) : CacheCall α → Option α × Cache α
  | .get key => c.get key
  | .set key value => (none, c.set key value)
  | .clear => (none, c.clear)
  | .resetStats => (none, c.resetStats)
  | .setConfig config => (none, c.setConfig config)

/-- The answer to a call and the list after it. -/
def LruList.call (l : LruList α) : CacheCall α → Option α × LruList α
  | .get key => l.get key
  | .set key value => (none, l.set key value)
  | .clear => (none, l.clear)
  | .resetStats => (none, l)
  | .setConfig config => (none, l.setConfig config)

/-- The answers to calls made one after the other, and the state they end in. -/
def CacheCall.run {σ : Type} (perform : σ → CacheCall α → Option α × σ) (s : σ) :
    List (CacheCall α) → List (Option α) × σ
  | [] => ([], s)
  | call :: rest =>
    let (answer, s') := perform s call
    let (answers, last) := run perform s' rest
    (answer :: answers, last)

/-! ### Map and list in step -/

namespace Assoc

theorem mem_keys_insert {m : Assoc α} {key other : String} {value : α} :
    other ∈ keys (insert m key value) ↔ other = key ∨ other ∈ keys m := by
  rw [← find?_isSome_iff_mem_keys, ← find?_isSome_iff_mem_keys, find?_insert]
  by_cases h : key = other
  · simp [h]
  · simp [h, Ne.symm h]

theorem mem_keys_erase {m : Assoc α} {key other : String} :
    other ∈ keys (erase m key) ↔ other ≠ key ∧ other ∈ keys m := by
  rw [← find?_isSome_iff_mem_keys, ← find?_isSome_iff_mem_keys, find?_erase]
  by_cases h : key = other
  · simp [h]
  · simp [h, Ne.symm h]

theorem erase_sublist (m : Assoc α) (key : String) : (erase m key).Sublist m := by
  induction m with
  | nil => exact .slnil
  | cons entry rest ih =>
    obtain ⟨k, v⟩ := entry
    by_cases h : k = key
    · rw [erase, if_pos h]
      exact ih.cons _
    · rw [erase, if_neg h]
      exact ih.cons_cons _

theorem Sorted.erase {m : Assoc α} (sorted : Sorted m) (key : String) : Sorted (erase m key) :=
  List.Pairwise.sublist ((erase_sublist m key).map Prod.fst) sorted

end Assoc

namespace Cache

variable {c : Cache α} {key : String} {value : α}

/-- The entries that a list of keys stands for. -/
def listed (entries : Assoc α) (keys : List String) : List (String × α) :=
  keys.filterMap fun key => (entries.find? key).map fun value => (key, value)

/-- The list that a cache stands for. -/
def toLruList (c : Cache α) : LruList α :=
  ⟨c.config, listed c.entries c.recency⟩

/-- The keys of the map are those of the list, each of which occurs once. -/
structure InStep (entries : Assoc α) (recency : List String) : Prop where
  ordered : Assoc.Sorted entries
  distinct : recency.Nodup
  same : ∀ key, key ∈ Assoc.keys entries ↔ key ∈ recency

/-- What holds of a cache between calls. -/
structure Consistent (c : Cache α) : Prop where
  inStep : InStep c.entries c.recency
  bounded : c.config.isActive = true → c.size ≤ c.config.capacity
  idle : c.config.isActive = false → c.entries = [] ∧ c.recency = []
  counted : c.stats.size = c.size

namespace InStep

variable {entries : Assoc α} {recency : List String}

/-- The keys of the map and the list of keys differ in their order only. -/
theorem perm (h : InStep entries recency) : (Assoc.keys entries).Perm recency :=
  (List.perm_ext_iff_of_nodup h.ordered.nodup h.distinct).2 h.same

theorem length_eq (h : InStep entries recency) : entries.length = recency.length := by
  simpa [Assoc.keys] using h.perm.length_eq

theorem find?_isSome (h : InStep entries recency) (mem : key ∈ recency) :
    ∃ value, entries.find? key = some value :=
  Assoc.mem_keys_iff.1 ((h.same key).2 mem)

/-- Moving a key to the front and storing an entry under it. -/
theorem insert (h : InStep entries recency) (key : String) (value : α) :
    InStep (entries.insert key value) (touch key recency) := by
  constructor
  · exact h.ordered.insert key value
  · simp [touch, h.distinct.erase, h.distinct.mem_erase_iff]
  · intro other
    rw [Assoc.mem_keys_insert, h.same, touch, List.mem_cons, h.distinct.mem_erase_iff]
    by_cases other = key <;> simp_all

theorem touch (h : InStep entries recency) (mem : key ∈ recency) :
    InStep entries (touch key recency) := by
  constructor
  · exact h.ordered
  · simp [Cache.touch, h.distinct.erase, h.distinct.mem_erase_iff]
  · intro other
    rw [h.same, Cache.touch, List.mem_cons, h.distinct.mem_erase_iff]
    by_cases other = key <;> simp_all

theorem oldest_notMem {oldest : String} {newer : List String}
    (h : InStep entries (newer ++ [oldest])) : oldest ∉ newer := by
  intro mem
  exact (List.nodup_append.1 h.distinct).2.2 oldest mem oldest (List.mem_singleton_self _) rfl

/-- Dropping the oldest key with its entry. -/
theorem dropLast {oldest : String} {newer : List String} (h : InStep entries (newer ++ [oldest])) :
    InStep (entries.erase oldest) newer := by
  constructor
  · exact h.ordered.erase oldest
  · exact (List.nodup_append.1 h.distinct).1
  · intro other
    rw [Assoc.mem_keys_erase, h.same, List.mem_append, List.mem_singleton]
    constructor
    · rintro ⟨ne, mem | same⟩
      · exact mem
      · exact absurd same ne
    · intro mem
      refine ⟨?_, .inl mem⟩
      rintro rfl
      exact h.oldest_notMem mem

end InStep

/-! ### The entries in the order of their use -/

theorem listed_congr {entries entries' : Assoc α} {keys : List String}
    (h : ∀ key ∈ keys, entries.find? key = entries'.find? key) :
    listed entries keys = listed entries' keys := by
  apply List.filterMap_congr
  intro key mem
  rw [h key mem]

theorem erase_listed (entries : Assoc α) {keys : List String} (distinct : keys.Nodup)
    (key : String) : Assoc.erase (listed entries keys) key = listed entries (keys.erase key) := by
  induction keys with
  | nil => rfl
  | cons first rest ih =>
    rw [List.nodup_cons] at distinct
    have later := ih distinct.2
    unfold listed at later ⊢
    by_cases h : first = key
    · subst h
      rw [List.erase_cons_head]
      rw [List.erase_of_not_mem distinct.1] at later
      cases hfound : entries.find? first <;> simp [hfound, Assoc.erase, later]
    · rw [List.erase_cons_tail (by simpa using h)]
      cases hfound : entries.find? first <;> simp [hfound, Assoc.erase, h, later]

theorem find?_listed (entries : Assoc α) (keys : List String) (key : String) :
    Assoc.find? (listed entries keys) key = if key ∈ keys then entries.find? key else none := by
  induction keys with
  | nil => rfl
  | cons first rest ih =>
    unfold listed at ih ⊢
    by_cases h : first = key
    · subst h
      cases hfound : entries.find? first with
      | some value => simp [hfound, Assoc.find?]
      | none => simp [hfound, ih]
    · cases hfound : entries.find? first <;> simp [hfound, Assoc.find?, ih, h, Ne.symm h]

namespace InStep

variable {entries entries' : Assoc α} {recency : List String} (h : InStep entries recency)

include h

/-- A look-up in the map finds what stands in the list. -/
theorem find?_listed (key : String) :
    Assoc.find? (listed entries recency) key = entries.find? key := by
  rw [Cache.find?_listed]
  split
  · rfl
  · rename_i missing
    rw [← h.same] at missing
    exact (Assoc.find?_eq_none_iff.2 missing).symm

theorem length_listed : (listed entries recency).length = recency.length := by
  apply List.filterMap_length_eq_length.2
  intro key mem
  obtain ⟨value, found⟩ := h.find?_isSome mem
  simp [found]

/-- With the key of an entry the entry itself moves to the front. -/
theorem listed_touch (found : entries'.find? key = some value)
    (others : ∀ other, key ≠ other → entries.find? other = entries'.find? other) :
    listed entries' (Cache.touch key recency) =
      LruList.toFront key value (listed entries recency) := by
  have rest : listed entries (recency.erase key) = listed entries' (recency.erase key) := by
    apply listed_congr
    intro other mem
    exact others other (h.distinct.mem_erase_iff.1 mem).1.symm
  rw [LruList.toFront, erase_listed entries h.distinct, rest, Cache.touch]
  simp [listed, found]

end InStep

/-! ### Dropping what was used longest ago -/

/-- Dropping leaves as many of the latest entries as the capacity allows. -/
theorem inStep_dropOldest {keys : List String} (order : c.recency = keys.reverse)
    (inStep : InStep c.entries c.recency) :
    InStep (c.dropOldest keys).entries (c.dropOldest keys).recency ∧
      (c.dropOldest keys).size ≤ c.config.capacity ∧
      (c.dropOldest keys).toLruList =
        ⟨c.config, (listed c.entries c.recency).take c.config.capacity⟩ := by
  induction keys generalizing c with
  | nil =>
    have empty : c.recency = [] := order
    have size : c.size = 0 := by
      rw [size, inStep.length_eq, empty]
      rfl
    refine ⟨inStep, by rw [dropOldest]; omega, ?_⟩
    simp [dropOldest, toLruList, listed, empty]
  | cons oldest newer ih =>
    rw [List.reverse_cons] at order
    have length : c.size = newer.length + 1 := by
      rw [size, inStep.length_eq, order]
      simp
    unfold dropOldest
    split
    · rename_i exceeds
      rw [order] at inStep
      obtain ⟨inStep', bounded, view⟩ := ih (c := { c with
        entries := c.entries.erase oldest
        recency := newer.reverse
        stats := { c.stats with evictions := c.stats.evictions + 1 } }) rfl inStep.dropLast
      refine ⟨inStep', bounded, ?_⟩
      have kept : listed (c.entries.erase oldest) newer.reverse = listed c.entries newer.reverse := by
        apply listed_congr
        intro key mem
        apply Assoc.find?_erase_of_ne
        rintro rfl
        exact inStep.oldest_notMem mem
      have enough : c.config.capacity ≤ (listed c.entries newer.reverse).length := by
        rw [← kept, inStep.dropLast.length_listed, List.length_reverse]
        omega
      have split : listed c.entries c.recency =
          listed c.entries newer.reverse ++ listed c.entries [oldest] := by
        rw [order]
        exact List.filterMap_append
      rw [view, split, List.take_append_of_le_length enough, kept]
    · rename_i fits
      have all := inStep.length_listed
      rw [← inStep.length_eq] at all
      refine ⟨inStep, by omega, ?_⟩
      rw [toLruList, List.take_of_length_le]
      unfold size at *
      omega

/-- Dropping restores what holds between calls. -/
theorem evict_spec (inStep : InStep c.entries c.recency) (active : c.config.isActive = true) :
    c.evict.Consistent ∧
      c.evict.toLruList = ⟨c.config, (listed c.entries c.recency).take c.config.capacity⟩ := by
  obtain ⟨inStep', bounded, view⟩ := inStep_dropOldest (List.reverse_reverse _).symm inStep
  have config : c.evict.config = c.config := congrArg LruList.config view
  refine ⟨⟨inStep', ?_, ?_, rfl⟩, view⟩
  · intro _
    rw [config]
    exact bounded
  · intro idle
    rw [config, active] at idle
    cases idle

/-! ### One call -/

theorem consistent_empty (config : CacheConfig) : Consistent ({ config } : Cache α) := by
  constructor
  · constructor
    · exact List.Pairwise.nil
    · exact List.nodup_nil
    · intro key
      rfl
  · intro _
    exact Nat.zero_le _
  · intro _
    exact ⟨rfl, rfl⟩
  · rfl

/-- A cache that is switched on may hold entries. -/
theorem consistent_of_active (active : c.config.isActive = true)
    (inStep : InStep c.entries c.recency) (bounded : c.size ≤ c.config.capacity)
    (counted : c.stats.size = c.size) : c.Consistent := by
  refine ⟨inStep, fun _ => bounded, ?_, counted⟩
  intro idle
  rw [active] at idle
  cases idle

theorem get_spec (h : c.Consistent) (key : String) :
    (c.get key).2.Consistent ∧
      c.toLruList.get key = ((c.get key).1, (c.get key).2.toLruList) := by
  by_cases active : c.config.isActive = true
  · simp only [get, LruList.get, toLruList, active, if_true, h.inStep.find?_listed]
    cases found : c.entries.find? key with
    | some value =>
      have mem : key ∈ c.recency := (h.inStep.same key).1 (Assoc.mem_keys_iff.2 ⟨value, found⟩)
      refine ⟨consistent_of_active active (h.inStep.touch mem) (h.bounded active) h.counted, ?_⟩
      simp only [h.inStep.listed_touch found fun _ _ => rfl]
    | none => exact ⟨⟨h.inStep, h.bounded, h.idle, h.counted⟩, rfl⟩
  · simp only [get, LruList.get, toLruList, active, Bool.false_eq_true, if_false, and_true]
    exact h

/-- The list after an entry was stored, before any entry is dropped. -/
theorem Consistent.listed_insert (h : c.Consistent) (key : String) (value : α) :
    listed (c.entries.insert key value) (touch key c.recency) =
      LruList.toFront key value (listed c.entries c.recency) :=
  h.inStep.listed_touch (Assoc.find?_insert_self c.entries key value)
    fun _ ne => (Assoc.find?_insert_of_ne c.entries value ne).symm

/-- Storing under a key that is there replaces its entry, so that nothing has to be dropped. -/
theorem Consistent.length_insert_of_mem (h : c.Consistent) (mem : key ∈ c.recency) (value : α) :
    (c.entries.insert key value).length = c.size := by
  have positive := List.length_pos_of_mem mem
  rw [(h.inStep.insert key value).length_eq, size, h.inStep.length_eq, touch, List.length_cons,
    List.length_erase_of_mem mem]
  omega

theorem set_spec (h : c.Consistent) (key : String) (value : α) :
    (c.set key value).Consistent ∧ c.toLruList.set key value = (c.set key value).toLruList := by
  have inStep := h.inStep.insert key value
  have stored := h.listed_insert key value
  by_cases active : c.config.isActive = true
  · simp only [set, LruList.set, toLruList, active, if_true, ← stored]
    by_cases known : c.entries.contains key = true
    · have mem : key ∈ c.recency := (h.inStep.same key).1 (Assoc.find?_isSome_iff_mem_keys.1 known)
      have size := h.length_insert_of_mem mem value
      have bounded := h.bounded active
      simp only [known, if_true]
      refine ⟨consistent_of_active active inStep ?_ ?_, ?_⟩
      · exact size.trans_le bounded
      · exact h.counted.trans size.symm
      · rw [List.take_of_length_le]
        rw [inStep.length_listed, ← inStep.length_eq, size]
        exact bounded
    · have missing : key ∉ c.recency := by
        rw [← h.inStep.same, ← Assoc.find?_isSome_iff_mem_keys]
        exact known
      have front : touch key c.recency = key :: c.recency := by
        rw [touch, List.erase_of_not_mem missing]
      simp only [known, Bool.false_eq_true, if_false, front] at inStep ⊢
      obtain ⟨consistent, view⟩ := evict_spec (c := { c with
        entries := c.entries.insert key value
        recency := key :: c.recency
        stats := { c.stats with insertions := c.stats.insertions + 1 } }) inStep active
      exact ⟨consistent, view.symm⟩
  · simp only [set, LruList.set, toLruList, active, Bool.false_eq_true, if_false, and_true]
    exact h

/-- An empty cache is consistent whatever its configuration and counts are. -/
theorem clear_spec (c : Cache α) : c.clear.Consistent ∧ c.toLruList.clear = c.clear.toLruList := by
  have empty := consistent_empty c.config (α := α)
  exact ⟨⟨empty.inStep, empty.bounded, empty.idle, rfl⟩, rfl⟩

theorem setConfig_spec (h : c.Consistent) (config : CacheConfig) :
    (c.setConfig config).Consistent ∧
      c.toLruList.setConfig config = (c.setConfig config).toLruList := by
  by_cases active : config.isActive = true
  · obtain ⟨consistent, view⟩ := evict_spec (c := { c with config }) h.inStep active
    simp only [setConfig, LruList.setConfig, active, if_true]
    exact ⟨consistent, view.symm⟩
  · simp only [setConfig, LruList.setConfig, active, Bool.false_eq_true, if_false]
    exact clear_spec { c with config }

/-- A call keeps map and list in step and has the answer and the effect that it has on the list. -/
theorem call_spec (h : c.Consistent) (call : CacheCall α) :
    (c.call call).2.Consistent ∧
      c.toLruList.call call = ((c.call call).1, (c.call call).2.toLruList) := by
  cases call with
  | get key => exact get_spec h key
  | set key value =>
    obtain ⟨consistent, view⟩ := set_spec h key value
    exact ⟨consistent, congrArg _ view⟩
  | clear =>
    obtain ⟨consistent, view⟩ := clear_spec c
    exact ⟨consistent, congrArg _ view⟩
  | resetStats => exact ⟨⟨h.inStep, h.bounded, h.idle, rfl⟩, rfl⟩
  | setConfig config =>
    obtain ⟨consistent, view⟩ := setConfig_spec h config
    exact ⟨consistent, congrArg _ view⟩

/-- What was just stored is found. -/
theorem get_set (h : c.Consistent) (key : String) (value : α) :
    ((c.set key value).get key).1 = if c.config.isActive then some value else none := by
  obtain ⟨consistent, view⟩ := set_spec h key value
  have found := congrArg Prod.fst (get_spec consistent key).2
  rw [← view] at found
  rw [← found]
  by_cases active : c.config.isActive = true
  · have capacity : 0 < c.config.capacity := by
      unfold CacheConfig.isActive at active
      exact of_decide_eq_true (Bool.and_eq_true_iff.1 active).2
    obtain ⟨n, positive⟩ := Nat.exists_eq_succ_of_ne_zero capacity.ne'
    simp [LruList.set, LruList.get, LruList.toFront, toLruList, active, positive, Assoc.find?]
  · simp [LruList.set, LruList.get, toLruList, active]

/-! ### Any calls -/

/-- Any number of calls. -/
theorem run_spec (h : c.Consistent) (calls : List (CacheCall α)) :
    (CacheCall.run call c calls).2.Consistent ∧
      CacheCall.run LruList.call c.toLruList calls =
        ((CacheCall.run call c calls).1, (CacheCall.run call c calls).2.toLruList) := by
  induction calls generalizing c with
  | nil => exact ⟨h, rfl⟩
  | cons first rest ih =>
    obtain ⟨consistent, step⟩ := call_spec h first
    obtain ⟨consistent', later⟩ := ih consistent
    refine ⟨consistent', ?_⟩
    simp only [CacheCall.run, step, later]

/-- A cache refines a bounded list of entries in the order of their use: after any calls the keys of
its map are those of its list of keys, each once, no more than the capacity if it is switched on and
none otherwise, and the statistics count them; all calls had the answers that the list gives; and
what is stored next is found by the look-up after it, unless the cache is switched off. -/
theorem run_refines_lruList (config : CacheConfig) (calls : List (CacheCall α)) :
    let (answers, c) := CacheCall.run call ({ config } : Cache α) calls
    c.Consistent ∧ CacheCall.run LruList.call { config } calls = (answers, c.toLruList) ∧
      ∀ key value, ((c.set key value).get key).1 = if c.config.isActive then some value else none := by
  obtain ⟨consistent, refines⟩ := run_spec (consistent_empty config) calls
  exact ⟨consistent, refines, get_set consistent⟩

end Cache

end FluentQuery
