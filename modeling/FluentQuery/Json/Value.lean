import FluentQuery.Data.Assoc
import FluentQuery.Number.Double

/-!
# JSON values

Documents, parameters, literals and every description the library gives of itself are JSON values.
Whole numbers and floating point numbers are different values, and the members of an object are
kept in increasing key order.  Reading a value at a type it does not have is the one error of
this module, `Json.TypeError`.
-/

namespace FluentQuery

set_option autoImplicit false

/-- A JSON value. -/
inductive Json where
  | null
  | bool (value : Bool)
  | int (value : Int)
  | double (value : Double)
  | str (value : String)
  | arr (items : List Json)
  | obj (members : List (String × Json))
deriving Repr, Inhabited

namespace Json

/-- A value was read at a type it does not have. -/
inductive TypeError where
  | mismatch
deriving DecidableEq, Repr

/-- The object with the listed members; of two members with one key the later wins. -/
def object (members : List (String × Json)) : Json :=
  obj (Assoc.ofList members)

/-- The array of the listed strings. -/
def strings (items : List String) : Json :=
  arr (items.map str)

/-- A string member, left out when it is empty. -/
def memberUnlessEmpty (key value : String) : List (String × Json) :=
  if value.isEmpty then [] else [(key, str value)]

/-- A member that is left out when it has no value. -/
def memberOfOption (key : String) (value : Option Json) : List (String × Json) :=
  match value with
  | some v => [(key, v)]
  | none => []

/-- The name of a value's type, as messages give it. -/
def typeName : Json → String
  | null => "null"
  | bool _ => "boolean"
  | int _ => "number"
  | double _ => "number"
  | str _ => "string"
  | arr _ => "array"
  | obj _ => "object"

/-- Looking up a key in anything but an object finds nothing. -/
def get? : Json → String → Option Json
  | obj members, key => Assoc.find? members key
  | _, _ => none

/-- Whether the value is an object with the given key. -/
def contains (j : Json) (key : String) : Bool :=
  (j.get? key).isSome

/-- The members of an object; anything else has none. -/
def members : Json → Assoc Json
  | obj ms => ms
  | _ => []

/-- What iteration visits: the items of an array, the values of an object in key order, nothing
for null, and any other value itself. -/
def elements : Json → List Json
  | null => []
  | arr items => items
  | obj ms => ms.map Prod.snd
  | j => [j]

/-- How many elements iteration visits. -/
def size (j : Json) : Nat :=
  j.elements.length

def isNull : Json → Bool
  | null => true
  | _ => false

def isObject : Json → Bool
  | obj _ => true
  | _ => false

def isArray : Json → Bool
  | arr _ => true
  | _ => false

def isString : Json → Bool
  | str _ => true
  | _ => false

/-! ### Reading at a type -/

/-- The residue of an integer in `[-2 ^ (n - 1), 2 ^ (n - 1))`. -/
def wrapSigned (n : Nat) (i : Int) : Int :=
  i.bmod (Nat.pow 2 n)

/-- The residue of an integer in `[0, 2 ^ n)`. -/
def wrapUnsigned (n : Nat) (i : Int) : Nat :=
  (i % (Nat.pow 2 n : Int)).toNat

def asString : Json → Except TypeError String
  | str s => .ok s
  | _ => .error .mismatch

def asBool : Json → Except TypeError Bool
  | bool b => .ok b
  | _ => .error .mismatch

/-- A number as an integer: a floating point number loses its fraction. -/
def asInteger : Json → Except TypeError Int
  | int n => .ok n
  | double x => .ok x.truncate
  | _ => .error .mismatch

/-- A number in signed 64 bits; integers wrap and fractions are cut. -/
def asInt64 (j : Json) : Except TypeError Int :=
  (wrapSigned 64 ·) <$> j.asInteger

/-- A number in unsigned 64 bits; integers wrap and fractions are cut. -/
def asNat64 (j : Json) : Except TypeError Nat :=
  (wrapUnsigned 64 ·) <$> j.asInteger

/-- A number in signed 32 bits; integers wrap, fractions are cut, and a boolean counts as 0 or 1. -/
def asInt32 : Json → Except TypeError Int
  | bool b => .ok (if b then 1 else 0)
  | j => (wrapSigned 32 ·) <$> j.asInteger

def asDouble : Json → Except TypeError Double
  | int n => .ok (.ofInt n)
  | double x => .ok x
  | _ => .error .mismatch

/-- The member under `key` read by `read`, or `default` if an object has no such member. -/
def getD {α : Type} (j : Json) (key : String) (read : Json → Except TypeError α) (default : α) :
    Except TypeError α :=
  match j with
  | obj members =>
    match Assoc.find? members key with
    | some v => read v
    | none => .ok default
  | _ => .error .mismatch

/-! ### Sizes, for recursion on values found by key -/

theorem sizeOf_add_lt_of_find? {members : Assoc Json} {key : String} {v : Json}
    (h : Assoc.find? members key = some v) : sizeOf v + 2 < sizeOf members := by
  induction members with
  | nil => simp at h
  | cons entry rest ih =>
    obtain ⟨k, w⟩ := entry
    by_cases hk : k = key
    · simp only [Assoc.find?, hk, if_true, Option.some.injEq] at h
      subst h
      have : 0 < sizeOf rest := by
        cases rest <;> simp only [List.nil.sizeOf_spec, List.cons.sizeOf_spec] <;> omega
      simp only [List.cons.sizeOf_spec, Prod.mk.sizeOf_spec]
      omega
    · simp only [Assoc.find?, hk, if_false] at h
      have := ih h
      simp only [List.cons.sizeOf_spec]
      omega

/-- A value found in an object is smaller than the object, with room for a list around it. -/
theorem sizeOf_add_lt_of_get? {j : Json} {key : String} {v : Json} (h : j.get? key = some v) :
    sizeOf v + 2 < sizeOf j := by
  cases j with
  | obj members =>
    have := sizeOf_add_lt_of_find? h
    simp only [obj.sizeOf_spec]
    omega
  | _ => simp [get?] at h

/-- The items of an array are smaller than the array. -/
theorem sizeOf_items_lt (items : List Json) : sizeOf items < sizeOf (arr items) := by
  simp only [arr.sizeOf_spec]
  omega

/-- The elements of a value make a list hardly larger than the value. -/
theorem sizeOf_elements_le (j : Json) : sizeOf j.elements ≤ sizeOf j + 2 := by
  cases j with
  | obj members =>
    simp only [elements, obj.sizeOf_spec]
    induction members with
    | nil => simp
    | cons entry rest ih =>
      obtain ⟨k, w⟩ := entry
      simp only [List.map_cons, List.cons.sizeOf_spec, Prod.mk.sizeOf_spec]
      omega
  | _ => simp [elements] <;> omega

end Json

end FluentQuery
