import Mathlib.Data.List.Basic
import FluentQuery.Data.Text

/-!
# Names made of parts

Several names are made by joining parts with a separator.  When the last part cannot contain the
separator, the joined text determines its parts: the last separator is the one that was written.
Numerals are such last parts.
-/

namespace FluentQuery

set_option autoImplicit false

namespace Text

/-- A list is determined around the last occurrence of an item. -/
theorem split_last_inj {α : Type} {c : α} {a b a' b' : List α} (hb : c ∉ b) (hb' : c ∉ b')
    (h : a ++ c :: b = a' ++ c :: b') : a = a' ∧ b = b' := by
  rcases List.append_eq_append_iff.1 h with ⟨m, ha, hm⟩ | ⟨m, ha, hm⟩
  · cases m with
    | nil => simp_all
    | cons d m =>
      simp only [List.cons_append, List.cons.injEq] at hm
      exact absurd (hm.2 ▸ List.mem_append_right _ (List.mem_cons_self ..)) hb
  · cases m with
    | nil => simp_all
    | cons d m =>
      simp only [List.cons_append, List.cons.injEq] at hm
      exact absurd (hm.2 ▸ List.mem_append_right _ (List.mem_cons_self ..)) hb'

/-- Two joined texts are equal only if their parts are, when the separator is not in the last
parts. -/
theorem joined_inj {separator a b a' b' : String} {c : Char} (hs : separator.toList = [c])
    (hb : c ∉ b.toList) (hb' : c ∉ b'.toList) (h : a ++ separator ++ b = a' ++ separator ++ b') :
    a = a' ∧ b = b' := by
  have chars := congrArg String.toList h
  simp only [String.toList_append, hs, List.append_assoc, List.singleton_append] at chars
  obtain ⟨ha, hb⟩ := split_last_inj hb hb' chars
  exact ⟨String.toList_inj.1 ha, String.toList_inj.1 hb⟩

/-! ### Numerals -/

/-- A natural number is written in digits. -/
theorem isDigit_of_mem_numeral {n : Nat} {c : Char} (h : c ∈ (toString n).toList) :
    c.isDigit := by
  rw [Nat.toString_eq_repr, Nat.toList_repr] at h
  exact Nat.isDigit_of_mem_toDigits (by decide) (by decide) h

theorem natNumeral_inj {m n : Nat} (h : toString m = toString n) : m = n := by
  have digits := congrArg String.toList h
  simp only [Nat.toString_eq_repr, Nat.toList_repr] at digits
  rw [← Nat.ofDigitChars_ten_toDigits (n := m), digits, Nat.ofDigitChars_ten_toDigits]

theorem toList_numeral_negSucc (n : Nat) :
    (toString (Int.negSucc n)).toList = '-' :: (toString (n + 1)).toList := by
  simp [Int.toString_eq_repr, Int.repr, Nat.toString_eq_repr]

/-- An integer is written in digits, perhaps after a minus sign. -/
theorem isDigit_or_minus_of_mem_numeral {i : Int} {c : Char} (h : c ∈ (toString i).toList) :
    c.isDigit ∨ c = '-' := by
  cases i with
  | ofNat n => exact .inl (isDigit_of_mem_numeral h)
  | negSucc n =>
    rw [toList_numeral_negSucc] at h
    rcases List.mem_cons.1 h with rfl | hd
    · exact .inr rfl
    · exact .inl (isDigit_of_mem_numeral hd)

/-- A character that is neither a digit nor a minus sign is in no numeral. -/
theorem notMem_numeral (i : Int) {c : Char} (other : c.isDigit = false ∧ c ≠ '-') :
    c ∉ (toString i).toList := by
  intro h
  rcases isDigit_or_minus_of_mem_numeral h with digit | minus
  · exact absurd digit (by rw [other.1]; exact Bool.false_ne_true)
  · exact other.2 minus

/-- The minus sign tells negative numerals from the others. -/
theorem numeral_ofNat_ne_negSucc (m n : Nat) :
    toString (Int.ofNat m) ≠ toString (Int.negSucc n) := by
  intro h
  have minus : '-' ∈ (toString (Int.ofNat m)).toList := by
    rw [h, toList_numeral_negSucc]
    exact List.mem_cons_self ..
  exact absurd (isDigit_of_mem_numeral (n := m) minus) (by decide)

theorem intNumeral_inj {i j : Int} (h : toString i = toString j) : i = j := by
  cases i with
  | ofNat m =>
    cases j with
    | ofNat n => rw [natNumeral_inj (m := m) (n := n) h]
    | negSucc n => exact absurd h (numeral_ofNat_ne_negSucc m n)
  | negSucc m =>
    cases j with
    | ofNat n => exact absurd h.symm (numeral_ofNat_ne_negSucc n m)
    | negSucc n =>
      have digits := congrArg String.toList h
      rw [toList_numeral_negSucc, toList_numeral_negSucc, List.cons.injEq, String.toList_inj] at digits
      have : m + 1 = n + 1 := natNumeral_inj digits.2
      rw [Nat.succ.inj this]

end Text

end FluentQuery
