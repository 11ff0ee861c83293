/-!
# Finite maps and sets with string keys

A finite map is a list of entries in strictly increasing key order, and a set of names is a
strictly increasing list.  The order is part of the meaning: whoever walks a map meets the
entries by key, which is how objects are printed and how the first of several clashes is chosen.
`insert` keeps the order; the lemmas say what each operation does to look-ups.
-/

namespace FluentQuery

set_option autoImplicit false

/-- Entries of a finite map, in strictly increasing key order. -/
abbrev Assoc (α : Type) := List (String × α)

namespace Assoc

variable {α : Type}

/-- The value stored under a key. -/
def find? : Assoc α → String → Option α
  | [], _ => none
  | (k, v) :: rest, key => if k = key then some v else find? rest key

/-- The map with `key` bound to `value`; an earlier binding is replaced. -/
def insert : Assoc α → String → α → Assoc α
  | [], key, value => [(key, value)]
  | (k, v) :: rest, key, value =>
    if k = key then (key, value) :: rest
    else if key < k then (key, value) :: (k, v) :: rest
    else (k, v) :: insert rest key value

/-- The map without a binding for `key`. -/
def erase : Assoc α → String → Assoc α
  | [], _ => []
  | (k, v) :: rest, key => if k = key then erase rest key else (k, v) :: erase rest key

/-- Whether a key is bound. -/
def contains (m : Assoc α) (key : String) : Bool :=
  (find? m key).isSome

/-- The keys, in order. -/
def keys (m : Assoc α) : List String :=
  m.map Prod.fst

/-- The first map extended by the entries of the second, which win. -/
def merge (base additions : Assoc α) : Assoc α :=
  additions.foldl (fun m entry => insert m entry.1 entry.2) base

/-- The map that binds the listed keys; of two bindings of one key the later wins. -/
def ofList (entries : List (String × α)) : Assoc α :=
  merge [] entries

/-- Keys are strictly increasing. -/
def Sorted (m : Assoc α) : Prop :=
  (keys m).Pairwise (· < ·)

@[simp] theorem find?_nil (key : String) : find? ([] : Assoc α) key = none := rfl

@[simp] theorem find?_insert_self (m : Assoc α) (key : String) (value : α) :
    find? (insert m key value) key = some value := by
  induction m with
  | nil => simp [insert, find?]
  | cons entry rest ih =>
    obtain ⟨k, v⟩ := entry
    by_cases hk : k = key
    · simp [insert, find?, hk]
    · by_cases hlt : key < k <;> simp [insert, find?, hk, hlt, ih]

theorem find?_insert_of_ne (m : Assoc α) {key other : String} (value : α) (h : key ≠ other) :
    find? (insert m key value) other = find? m other := by
  induction m with
  | nil => simp [insert, find?, h]
  | cons entry rest ih =>
    obtain ⟨k, v⟩ := entry
    by_cases hk : k = key
    · subst hk; simp [insert, find?, h]
    · by_cases hlt : key < k
      · simp [insert, find?, hk, hlt, h]
      · rw [insert, if_neg hk, if_neg hlt, find?, find?, ih]

theorem find?_insert (m : Assoc α) (key other : String) (value : α) :
    find? (insert m key value) other = if key = other then some value else find? m other := by
  by_cases h : key = other
  · subst h; simp
  · simp [find?_insert_of_ne m value h, h]

@[simp] theorem find?_erase_self (m : Assoc α) (key : String) : find? (erase m key) key = none := by
  induction m with
  | nil => rfl
  | cons entry rest ih =>
    obtain ⟨k, v⟩ := entry
    by_cases hk : k = key <;> simp [erase, find?, hk, ih]

theorem find?_erase_of_ne (m : Assoc α) {key other : String} (h : key ≠ other) :
    find? (erase m key) other = find? m other := by
  induction m with
  | nil => rfl
  | cons entry rest ih =>
    obtain ⟨k, v⟩ := entry
    by_cases hk : k = key
    · subst hk; simp [erase, find?, h, ih]
    · rw [erase, if_neg hk, find?, find?, ih]

end Assoc

/-- A set of names, in strictly increasing order. -/
abbrev NameSet := List String

namespace NameSet

/-- The set with one name added. -/
def insert : NameSet → String → NameSet
  | [], name => [name]
  | n :: rest, name =>
    if n = name then n :: rest
    else if name < n then name :: n :: rest
    else n :: insert rest name

/-- The set without a name. -/
def erase (s : NameSet) (name : String) : NameSet :=
  s.filter (· ≠ name)

/-- Both sets together. -/
def union (s t : NameSet) : NameSet :=
  t.foldl insert s

/-- The set of the listed names. -/
def ofList (names : List String) : NameSet :=
  union [] names

@[simp] theorem mem_insert (s : NameSet) (name other : String) :
    other ∈ insert s name ↔ other = name ∨ other ∈ s := by
  induction s with
  | nil => simp [insert]
  | cons n rest ih =>
    by_cases hn : n = name
    · subst hn; simp [insert]
    · by_cases hlt : name < n
      · simp [insert, hn, hlt]
      · simp only [insert, hn, hlt, if_false, List.mem_cons, ih]
        constructor
        · rintro (h | h | h) <;> simp [h]
        · rintro (h | h | h) <;> simp [h]

@[simp] theorem mem_erase (s : NameSet) (name other : String) :
    other ∈ erase s name ↔ other ∈ s ∧ other ≠ name := by
  simp [erase]

end NameSet

end FluentQuery
