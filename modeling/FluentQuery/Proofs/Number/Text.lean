import Mathlib.Tactic.SplitIfs
import FluentQuery.Json.Printer

/-!
# The characters of numbers

Numbers are written with digits, a point, signs and the letter of an exponent; a floating point
number that is not finite is written as null.  Nothing else occurs in them, however long they are.
-/

namespace FluentQuery

set_option autoImplicit false

/-- A character that numbers are written with. -/
def isNumeral (c : Char) : Bool :=
  c.isDigit || ['.', '-', '+', 'e', 'n', 'u', 'l'].contains c

/-- A text of nothing but such characters. -/
def Numeral (s : String) : Prop :=
  ∀ c ∈ s.toList, isNumeral c = true

instance (s : String) : Decidable (Numeral s) :=
  List.decidableBAll (fun c => isNumeral c = true) s.toList

namespace Numeral

theorem append {s t : String} (h : Numeral s) (h' : Numeral t) : Numeral (s ++ t) := by
  intro c hc
  rw [String.toList_append, List.mem_append] at hc
  exact hc.elim (h c) (h' c)

theorem of_digits {cs : List Char} (h : ∀ c ∈ cs, c.isDigit = true) :
    Numeral (String.ofList cs) := by
  intro c hc
  rw [String.toList_ofList] at hc
  rw [isNumeral, h c hc, Bool.true_or]

theorem of_nat (n : Nat) : Numeral n.repr :=
  of_digits fun _ hc => Nat.isDigit_of_mem_toDigits (by decide) (by decide) hc

theorem of_int (n : Int) : Numeral (toString n) := by
  cases n with
  | ofNat n => exact of_nat n
  | negSucc n => exact append (by decide) (of_nat (n + 1))

end Numeral

namespace Double

/-- The decimals that are looked at are given by integers. -/
theorem Interval.nearest?_eq_some {i : Interval} {magnitude : Int} {count : Nat} {d : Decimal}
    (h : i.nearest? magnitude count = some d) : ∃ f e, d = .ofScaled f e := by
  unfold nearest? at h
  dsimp only at h
  split_ifs at h
  all_goals exact ⟨_, _, (Option.some.inj h).symm⟩

theorem isDigit_of_mem_shortest {x : Double} {c : Char} (h : c ∈ x.shortest.digits) :
    c.isDigit = true := by
  unfold shortest at h
  dsimp only at h
  cases found : (List.range 17).findSome? _ with
  | none =>
    rw [found, Option.getD_none, List.mem_singleton] at h
    subst h
    decide
  | some d =>
    obtain ⟨k, -, nearest⟩ := List.exists_of_findSome?_eq_some found
    obtain ⟨f, e, rfl⟩ := Interval.nearest?_eq_some nearest
    rw [found, Option.getD_some, Decimal.ofScaled, List.mem_reverse] at h
    have digit : c ∈ Nat.toDigits 10 f :=
      List.mem_reverse.1 ((List.dropWhile_sublist _).mem h)
    exact Nat.isDigit_of_mem_toDigits (by decide) (by decide) digit

end Double

namespace Numeral

theorem of_exponent (e : Int) : Numeral (Decimal.exponentText e) := by
  apply append
  · split <;> decide
  · split
    · exact append (by decide) (of_nat _)
    · exact of_nat _

theorem of_decimal {d : Decimal} (h : ∀ c ∈ d.digits, c.isDigit = true) : Numeral d.text := by
  have zeros (n : Nat) : Numeral (String.ofList (List.replicate n '0')) := by
    apply of_digits
    intro c hc
    rw [List.eq_of_mem_replicate hc]
    decide
  have digits := of_digits h
  have taken (n : Nat) : Numeral (String.ofList (d.digits.take n)) :=
    of_digits fun c hc => h c (List.mem_of_mem_take hc)
  have dropped (n : Nat) : Numeral (String.ofList (d.digits.drop n)) :=
    of_digits fun c hc => h c (List.mem_of_mem_drop hc)
  unfold Decimal.text
  dsimp only
  split
  · exact append (append digits (zeros _)) (by decide)
  split
  · exact append (append (taken _) (by decide)) (dropped _)
  split
  · exact append (append (by decide) (zeros _)) digits
  · apply append _ (of_exponent _)
    apply append (taken 1)
    split
    · decide
    · exact append (by decide) (dropped 1)

theorem of_double (x : Double) : Numeral x.text := by
  unfold Double.text
  split
  · decide
  · apply append
    · split <;> decide
    · split
      · decide
      · exact of_decimal fun _ hc => Double.isDigit_of_mem_shortest hc

end Numeral

end FluentQuery
