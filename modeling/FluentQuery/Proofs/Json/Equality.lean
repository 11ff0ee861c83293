import FluentQuery.Json.Value

/-!
# Equality of JSON values

`Json.equals` is the comparison of the container that holds descriptions.  It compares numbers by
value: 1 equals 1.0, and the two zeros are equal.  So equal values need not be the same; they are if the
numbers in them are (`Json.eq_of_equals`).
-/

namespace FluentQuery

set_option autoImplicit false

namespace Double

/-- The result of an operation that has none. -/
def isUndefined (x : Double) : Bool :=
  !x.isFinite && x.fractionField != 0

/-- Equality of floating point numbers: the zeros of both signs are equal, and what is undefined equals
nothing. -/
def equals (x y : Double) : Bool :=
  !x.isUndefined && !y.isUndefined && (x == y || (x.significand == 0 && y.significand == 0))

end Double

namespace Json

mutual

/-- Equality of values.  An integer is compared with a floating point number as one, and with another
integer at 64 bits. -/
def equals : Json → Json → Bool
  | null, null => true
  | bool b, bool b' => b == b'
  | int n, int n' => wrapSigned 64 n == wrapSigned 64 n'
  | int n, double x => (Double.ofInt n).equals x
  | double x, int n => x.equals (Double.ofInt n)
  | double x, double x' => x.equals x'
  | str s, str s' => s == s'
  | arr items, arr items' => equalItems items items'
  | obj members, obj members' => equalMembers members members'
  | _, _ => false

/-- Equality of the items of arrays, in order. -/
def equalItems : List Json → List Json → Bool
  | [], [] => true
  | j :: rest, j' :: rest' => j.equals j' && equalItems rest rest'
  | _, _ => false

/-- Equality of the members of objects, which are kept in the order of their keys. -/
def equalMembers : List (String × Json) → List (String × Json) → Bool
  | [], [] => true
  | (key, j) :: rest, (key', j') :: rest' =>
    key == key' && j.equals j' && equalMembers rest rest'
  | _, _ => false

end

mutual

/-- The numbers in a value, in order, each an integer or a floating point number. -/
def numbers : Json → List Json
  | int n => [int n]
  | double x => [double x]
  | arr items => numbersOfItems items
  | obj members => numbersOfMembers members
  | _ => []

/-- The numbers in the items of an array. -/
def numbersOfItems : List Json → List Json
  | [] => []
  | j :: rest => j.numbers ++ numbersOfItems rest

/-- The numbers in the members of an object. -/
def numbersOfMembers : List (String × Json) → List Json
  | [] => []
  | (_, j) :: rest => j.numbers ++ numbersOfMembers rest

end

/-! ### Equal values with the same numbers -/

mutual

/-- Equal values are the same if their numbers are, and these are read off any lists that begin with
them. -/
theorem eq_of_numbers_append {j j' : Json} {later later' : List Json} (equal : j.equals j' = true)
    (same : j.numbers ++ later = j'.numbers ++ later') : j = j' ∧ later = later' := by
  unfold equals at equal
  split at equal
  case h_1 => exact ⟨rfl, same⟩
  case h_2 => exact ⟨congrArg bool (beq_iff_eq.1 equal), same⟩
  case h_3 | h_6 => simpa [numbers] using same
  case h_4 | h_5 => simp [numbers] at same
  case h_7 => exact ⟨congrArg str (beq_iff_eq.1 equal), same⟩
  case h_8 items items' =>
    obtain ⟨rfl, after⟩ := items_eq_of_numbers_append equal same
    exact ⟨rfl, after⟩
  case h_9 members members' =>
    obtain ⟨rfl, after⟩ := members_eq_of_numbers_append equal same
    exact ⟨rfl, after⟩
  case h_10 => cases equal

theorem items_eq_of_numbers_append {items items' later later' : List Json}
    (equal : equalItems items items' = true)
    (same : numbersOfItems items ++ later = numbersOfItems items' ++ later') :
    items = items' ∧ later = later' := by
  unfold equalItems at equal
  split at equal
  case h_1 => exact ⟨rfl, same⟩
  case h_2 j rest j' rest' =>
    rw [Bool.and_eq_true] at equal
    rw [numbersOfItems, numbersOfItems, List.append_assoc, List.append_assoc] at same
    obtain ⟨rfl, below⟩ := eq_of_numbers_append equal.1 same
    obtain ⟨rfl, after⟩ := items_eq_of_numbers_append equal.2 below
    exact ⟨rfl, after⟩
  case h_3 => cases equal

theorem members_eq_of_numbers_append {members members' : List (String × Json)}
    {later later' : List Json} (equal : equalMembers members members' = true)
    (same : numbersOfMembers members ++ later = numbersOfMembers members' ++ later') :
    members = members' ∧ later = later' := by
  unfold equalMembers at equal
  split at equal
  case h_1 => exact ⟨rfl, same⟩
  case h_2 key j rest key' j' rest' =>
    rw [Bool.and_eq_true, Bool.and_eq_true, beq_iff_eq] at equal
    obtain ⟨⟨rfl, value⟩, others⟩ := equal
    rw [numbersOfMembers, numbersOfMembers, List.append_assoc, List.append_assoc] at same
    obtain ⟨rfl, below⟩ := eq_of_numbers_append value same
    obtain ⟨rfl, after⟩ := members_eq_of_numbers_append others below
    exact ⟨rfl, after⟩
  case h_3 => cases equal

end

/-- Equal values that hold the same numbers are the same. -/
theorem eq_of_equals {j j' : Json} (equal : j.equals j' = true) (same : j.numbers = j'.numbers) :
    j = j' :=
  (eq_of_numbers_append equal (congrArg (· ++ []) same)).1

/-- Equal values with other numbers in them, and a number that equals nothing. -/
example :
    equals (.arr [.int 1, .double (.ofInt 0)]) (.arr [.double (.ofInt 1), .int 0]) = true ∧
      equals (.double ((Double.ofInt 0).negate)) (.int 0) = true ∧
      equals (.double ⟨0x7FF8000000000000⟩) (.double ⟨0x7FF8000000000000⟩) = false :=
  ⟨rfl, rfl, rfl⟩

end Json

end FluentQuery
