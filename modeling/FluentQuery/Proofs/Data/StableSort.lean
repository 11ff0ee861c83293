import Mathlib.Data.List.Sort

/-!
# Laws of stable sorting

Insertion sort is stable, which is why it can be exchanged with a filter and why sorting by an order
makes an earlier sort by a coarser order superfluous.
-/

namespace FluentQuery

set_option autoImplicit false

variable {α : Type} (r : α → α → Prop) [DecidableRel r]

theorem orderedInsert_least {a : α} {l : List α} (h : ∀ b ∈ l, r a b) :
    l.orderedInsert r a = a :: l := by
  cases l with
  | nil => rfl
  | cons b l => exact List.orderedInsert_cons_of_le r l (h b (List.mem_cons_self ..))

theorem filter_orderedInsert [IsTrans α r] (keep : α → Bool) (a : α) {l : List α}
    (sorted : l.Pairwise r) :
    (l.orderedInsert r a).filter keep =
      if keep a then (l.filter keep).orderedInsert r a else l.filter keep := by
  induction l with
  | nil => cases h : keep a <;> simp [h]
  | cons b l ih =>
    obtain ⟨least, sorted⟩ := List.pairwise_cons.1 sorted
    by_cases hab : r a b
    · have below : ∀ c ∈ (b :: l).filter keep, r a c := by
        intro c hc
        rcases List.mem_cons.1 (List.mem_of_mem_filter hc) with rfl | hc
        · exact hab
        · exact IsTrans.trans a b c hab (least c hc)
      rw [List.orderedInsert_cons_of_le r l hab, orderedInsert_least r below, List.filter_cons]
    · rw [List.orderedInsert_of_not_le r l hab]
      cases hb : keep b with
      | true =>
        rw [List.filter_cons_of_pos hb, List.filter_cons_of_pos hb, ih sorted,
          List.orderedInsert_of_not_le r _ hab]
        split <;> rfl
      | false =>
        rw [List.filter_cons_of_neg (by simp [hb]), List.filter_cons_of_neg (by simp [hb]), ih sorted]

variable [IsTrans α r] [Std.Total r]

/-- Filtering a sorted list is sorting the filtered one. -/
theorem filter_insertionSort (keep : α → Bool) (l : List α) :
    (l.insertionSort r).filter keep = (l.filter keep).insertionSort r := by
  induction l with
  | nil => rfl
  | cons a l ih =>
    rw [List.insertionSort_cons, filter_orderedInsert r keep a (l.pairwise_insertionSort r), ih,
      List.filter_cons]
    split
    · rw [List.insertionSort_cons]
    · rfl

/-- Elements of which one has to stand before the other may be inserted in any sequence. -/
theorem orderedInsert_comm {a b : α} (strict : ¬ r a b) (l : List α) :
    (l.orderedInsert r a).orderedInsert r b = (l.orderedInsert r b).orderedInsert r a := by
  have hba : r b a := (Std.Total.total b a).resolve_right strict
  induction l with
  | nil => rw [List.orderedInsert_nil, List.orderedInsert_nil, List.orderedInsert_cons_of_le r _ hba,
      List.orderedInsert_of_not_le r _ strict, List.orderedInsert_nil]
  | cons c l ih =>
    by_cases hac : r a c
    · have hbc : r b c := IsTrans.trans b a c hba hac
      rw [List.orderedInsert_cons_of_le r l hac, List.orderedInsert_cons_of_le r _ hba,
        List.orderedInsert_cons_of_le r l hbc, List.orderedInsert_of_not_le r _ strict,
        List.orderedInsert_cons_of_le r l hac]
    · by_cases hbc : r b c
      · rw [List.orderedInsert_of_not_le r l hac, List.orderedInsert_cons_of_le r _ hbc,
          List.orderedInsert_cons_of_le r l hbc, List.orderedInsert_of_not_le r _ strict,
          List.orderedInsert_of_not_le r l hac]
      · rw [List.orderedInsert_of_not_le r l hac, List.orderedInsert_of_not_le r _ hbc, ih,
          List.orderedInsert_of_not_le r l hbc, List.orderedInsert_of_not_le r _ hac]

/-- Sorting by an order after sorting by a coarser one. -/
theorem insertionSort_of_finer (coarse : α → α → Prop) [DecidableRel coarse]
    (finer : ∀ a b, r a b → coarse a b) (l : List α) :
    (l.insertionSort coarse).insertionSort r = l.insertionSort r := by
  have inserted (a : α) (l : List α) :
      (l.orderedInsert coarse a).insertionSort r = (l.insertionSort r).orderedInsert r a := by
    induction l with
    | nil => rfl
    | cons b l ih =>
      by_cases hab : coarse a b
      · rw [List.orderedInsert_cons_of_le coarse l hab, List.insertionSort_cons]
      · rw [List.orderedInsert_of_not_le coarse l hab, List.insertionSort_cons, ih,
          List.insertionSort_cons, orderedInsert_comm r fun h => hab (finer a b h)]
  induction l with
  | nil => rfl
  | cons a l ih => rw [List.insertionSort_cons, inserted, ih, List.insertionSort_cons]

end FluentQuery
