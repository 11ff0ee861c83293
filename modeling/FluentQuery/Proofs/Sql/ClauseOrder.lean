import Mathlib.Data.List.Induction
import Mathlib.Tactic.Tauto
import FluentQuery.Proofs.Sql.Listing
import FluentQuery.Query

/-!
# The order of clauses and the order of calls

A listing has two readings: `Meaning.run` carries out its calls one after the other, and
`Meaning.select` evaluates the clauses of the SELECT that is written for it, which filters, then
sorts, then skips, then takes.  They agree on all tables exactly if the calls after the first one
that cuts rows off say nothing new (`Listing.sql_faithful_iff`).
-/

namespace FluentQuery

set_option autoImplicit false

/-! ### Readings of expressions -/

/-- What expressions mean on the rows of a table: whether a predicate holds, how rows compare by a
key, and how many rows a count asks for. -/
structure Meaning (ρ : Type) where
  holds : Expr → ρ → Bool
  le : Expr → ρ → ρ → Bool
  le_total : ∀ key a b, le key a b = true ∨ le key b a = true
  le_trans : ∀ key a b c, le key a b = true → le key b c = true → le key a c = true
  count : Expr → Nat

namespace Meaning

variable {ρ : Type} (m : Meaning ρ)

/-- Whether a row may stand before another by one key. -/
def before (key : Expr × Bool) (a b : ρ) : Bool :=
  if key.2 then m.le key.1 b a else m.le key.1 a b

/-- Whether a row may stand before another by several keys, of which the first that tells them apart
decides. -/
def precedes : List (Expr × Bool) → ρ → ρ → Bool
  | [], _, _ => true
  | key :: rest, a, b => m.before key a b && (!m.before key b a || precedes rest a b)

/-- The order by several keys. -/
def Precedes (keys : List (Expr × Bool)) (a b : ρ) : Prop :=
  m.precedes keys a b = true

instance (keys : List (Expr × Bool)) : DecidableRel (m.Precedes keys) :=
  fun a b => inferInstanceAs (Decidable (m.precedes keys a b = true))

/-- Rows sorted by several keys; rows that no key tells apart stay in order. -/
def sort (keys : List (Expr × Bool)) (rows : List ρ) : List ρ :=
  rows.insertionSort (m.Precedes keys)

/-- Rows of which some are cut off. -/
def cut (pages : List (PageKind × Expr)) (rows : List ρ) : List ρ :=
  pages.foldl
    (fun rows page =>
      match page.1 with
      | .take => rows.take (m.count page.2)
      | .skip => rows.drop (m.count page.2))
    rows

/-- The rows that a SELECT yields: it filters, sorts, skips and takes. -/
def select (s : Selection) (rows : List ρ) : List ρ :=
  let sorted := m.sort s.keys (rows.filter fun row => s.predicates.all (m.holds · row))
  let left := sorted.drop (s.offset.elim 0 m.count)
  match s.limit with
  | some count => left.take (m.count count)
  | none => left

end Meaning

/-- How far calls have been carried out: the rows, and the keys they are sorted by. -/
structure Progress (ρ : Type) where
  rows : List ρ
  keys : List (Expr × Bool) := []

namespace Meaning

variable {ρ : Type} (m : Meaning ρ)

/-- One call carried out. -/
def step (p : Progress ρ) : ListingCall → Progress ρ
  | .filter predicate => { p with rows := p.rows.filter (m.holds predicate) }
  | .sort key descending =>
    let keys := p.keys ++ [(key, descending)]
    ⟨m.sort keys p.rows, keys⟩
  | .page kind count => { p with rows := m.cut [(kind, count)] p.rows }

/-- The rows that calls leave, carried out one after the other. -/
def run (calls : List ListingCall) (rows : List ρ) : List ρ :=
  (calls.foldl m.step ⟨rows, []⟩).rows

/-! ### Sorting by keys -/

theorem before_total (key : Expr × Bool) (a b : ρ) :
    m.before key a b = true ∨ m.before key b a = true := by
  unfold before
  split
  · exact m.le_total key.1 b a
  · exact m.le_total key.1 a b

theorem before_trans {key : Expr × Bool} {a b c : ρ} (hab : m.before key a b = true)
    (hbc : m.before key b c = true) : m.before key a c = true := by
  unfold before at *
  split at hab <;> simp_all only [if_true, if_false, Bool.false_eq_true]
  · exact m.le_trans key.1 c b a hbc hab
  · exact m.le_trans key.1 a b c hab hbc

theorem precedes_cons (key : Expr × Bool) (rest : List (Expr × Bool)) (a b : ρ) :
    m.precedes (key :: rest) a b = true ↔
      m.before key a b = true ∧ (m.before key b a = true → m.precedes rest a b = true) := by
  simp only [precedes, Bool.and_eq_true, Bool.or_eq_true, Bool.not_eq_true']
  cases m.before key b a <;> simp

theorem precedes_total (keys : List (Expr × Bool)) (a b : ρ) :
    m.precedes keys a b = true ∨ m.precedes keys b a = true := by
  induction keys with
  | nil => exact .inl rfl
  | cons key rest ih =>
    rw [precedes_cons, precedes_cons]
    have total := m.before_total key a b
    tauto

theorem precedes_trans {keys : List (Expr × Bool)} {a b c : ρ} (hab : m.precedes keys a b = true)
    (hbc : m.precedes keys b c = true) : m.precedes keys a c = true := by
  induction keys with
  | nil => rfl
  | cons key rest ih =>
    rw [precedes_cons] at *
    refine ⟨m.before_trans hab.1 hbc.1, fun hca => ih (hab.2 ?_) (hbc.2 ?_)⟩
    · exact m.before_trans hbc.1 hca
    · exact m.before_trans hca hab.1

instance (keys : List (Expr × Bool)) : IsTrans ρ (m.Precedes keys) :=
  ⟨fun _ _ _ => m.precedes_trans⟩

instance (keys : List (Expr × Bool)) : Std.Total (m.Precedes keys) :=
  ⟨m.precedes_total keys⟩

/-- More keys make a finer order. -/
theorem precedes_of_append {keys more : List (Expr × Bool)} {a b : ρ}
    (h : m.precedes (keys ++ more) a b = true) : m.precedes keys a b = true := by
  induction keys with
  | nil => rfl
  | cons key rest ih =>
    rw [List.cons_append, precedes_cons] at h
    exact (m.precedes_cons key rest a b).2 ⟨h.1, fun hba => ih (h.2 hba)⟩

/-- A key adds nothing where rows are equal by it. -/
theorem precedes_concat_tie {keys : List (Expr × Bool)} {key : Expr × Bool} {a b : ρ}
    (tie : m.before key a b = true) : m.precedes (keys ++ [key]) a b = m.precedes keys a b := by
  induction keys with
  | nil => simp [precedes, tie]
  | cons first rest ih => simp only [List.cons_append, precedes, ih]

/-- Rows that a key does not tell apart, it does not tell apart in the other direction either. -/
theorem before_of_tie {first key : Expr × Bool} (same : key.1 = first.1) {a b : ρ}
    (hab : m.before first a b = true) (hba : m.before first b a = true) :
    m.before key a b = true := by
  unfold before at *
  rw [same]
  split at hab <;> split <;> simp_all

/-- A key that has been used before adds nothing, in whichever direction. -/
theorem precedes_concat_known {keys : List (Expr × Bool)} {key : Expr × Bool}
    (known : key.1 ∈ keys.map Prod.fst) (a b : ρ) :
    m.precedes (keys ++ [key]) a b = m.precedes keys a b := by
  induction keys with
  | nil => cases known
  | cons first rest ih =>
    simp only [List.cons_append, precedes]
    rcases List.mem_cons.1 known with same | later
    · cases hab : m.before first a b with
      | false => rfl
      | true =>
        cases hba : m.before first b a with
        | false => rfl
        | true => rw [m.precedes_concat_tie (m.before_of_tie same hab hba)]
    · rw [ih later]

theorem precedes_append_known {keys more : List (Expr × Bool)}
    (known : ∀ key ∈ more, key.1 ∈ keys.map Prod.fst) (a b : ρ) :
    m.precedes (keys ++ more) a b = m.precedes keys a b := by
  induction more using List.reverseRecOn with
  | nil => rw [List.append_nil]
  | append_singleton more key ih =>
    have still : key.1 ∈ (keys ++ more).map Prod.fst := by
      rw [List.map_append]
      exact List.mem_append_left _ (known key (by simp))
    rw [← List.append_assoc, m.precedes_concat_known still,
      ih fun key hkey => known key (List.mem_append_left _ hkey)]

theorem sort_eq_self {keys : List (Expr × Bool)} {rows : List ρ}
    (sorted : rows.Pairwise (m.Precedes keys)) : m.sort keys rows = rows :=
  sorted.insertionSort_eq

theorem sort_append_known {keys more : List (Expr × Bool)}
    (known : ∀ key ∈ more, key.1 ∈ keys.map Prod.fst) (rows : List ρ) :
    m.sort (keys ++ more) rows = m.sort keys rows := by
  have same : m.Precedes (keys ++ more) = m.Precedes keys := by
    funext a b
    exact congrArg (· = true) (m.precedes_append_known known a b)
  unfold sort
  congr 1

/-- Refining an order sorts the rows anew. -/
theorem sort_concat_sort (keys : List (Expr × Bool)) (key : Expr × Bool) (rows : List ρ) :
    m.sort (keys ++ [key]) (m.sort keys rows) = m.sort (keys ++ [key]) rows :=
  insertionSort_of_finer (m.Precedes (keys ++ [key])) (m.Precedes keys)
    (fun _ _ => m.precedes_of_append) rows

/-- The rows that satisfy all predicates of calls, sorted by all their keys. -/
def sifted (calls : List ListingCall) (rows : List ρ) : List ρ :=
  m.sort (ListingCall.keys calls)
    (rows.filter fun row => (ListingCall.predicates calls).all (m.holds · row))

theorem select_selection (calls : List ListingCall) (rows : List ρ) :
    m.select (ListingCall.selection calls) rows =
      match firstPage? .take (ListingCall.pages calls) with
      | some count =>
        ((m.sifted calls rows).drop ((firstPage? .skip (ListingCall.pages calls)).elim 0 m.count)).take
          (m.count count)
      | none =>
        (m.sifted calls rows).drop ((firstPage? .skip (ListingCall.pages calls)).elim 0 m.count) :=
  rfl

/-! ### Calls that cut nothing off -/

theorem cut_cons (page : PageKind × Expr) (pages : List (PageKind × Expr)) (rows : List ρ) :
    m.cut (page :: pages) rows = m.cut pages (m.cut [page] rows) :=
  rfl

theorem cut_sublist (pages : List (PageKind × Expr)) (rows : List ρ) :
    (m.cut pages rows).Sublist rows := by
  induction pages generalizing rows with
  | nil => exact List.Sublist.refl _
  | cons page pages ih =>
    refine (ih _).trans ?_
    obtain ⟨kind, count⟩ := page
    cases kind with
    | take => exact List.take_sublist ..
    | skip => exact List.drop_sublist ..

theorem cut_nil (pages : List (PageKind × Expr)) : m.cut pages ([] : List ρ) = [] :=
  List.sublist_nil.1 (m.cut_sublist pages [])

theorem mem_of_mem_foldl_step {calls : List ListingCall} {p : Progress ρ} {row : ρ}
    (h : row ∈ (calls.foldl m.step p).rows) : row ∈ p.rows := by
  induction calls generalizing p with
  | nil => exact h
  | cons call rest ih =>
    have left := ih h
    cases call with
    | filter predicate => exact List.mem_of_mem_filter left
    | sort key descending => exact (List.mem_insertionSort _).1 left
    | page kind count => exact (m.cut_sublist _ _).mem left

open ListingCall in
/-- Without paging, calls filter by all predicates and sort by all keys. -/
theorem foldl_step_unpaged {calls : List ListingCall} (unpaged : pages calls = []) (rows : List ρ) :
    calls.foldl m.step ⟨rows, []⟩ = ⟨m.sifted calls rows, keys calls⟩ := by
  unfold sifted
  induction calls using List.reverseRecOn with
  | nil =>
    have unsorted : rows.Pairwise (m.Precedes []) := List.pairwise_of_forall fun _ _ => rfl
    simp [keys, predicates, m.sort_eq_self unsorted]
  | append_singleton calls call ih =>
    rw [pages_append, List.append_eq_nil_iff] at unpaged
    rw [List.foldl_append, ih unpaged.1, keys_append, predicates_append]
    cases call with
    | filter predicate =>
      have more : keys [ListingCall.filter predicate] = [] := rfl
      have added : predicates [ListingCall.filter predicate] = [predicate] := rfl
      simp only [List.foldl_cons, List.foldl_nil, step, more, added, List.append_nil,
        List.all_append, List.all_cons, List.all_nil, Bool.and_true]
      rw [sort, filter_insertionSort, List.filter_filter]
      simp only [Bool.and_comm]
      rfl
    | sort key descending =>
      have more : keys [ListingCall.sort key descending] = [(key, descending)] := rfl
      have added : predicates [ListingCall.sort key descending] = [] := rfl
      simp only [List.foldl_cons, List.foldl_nil, step, more, added, List.append_nil]
      rw [m.sort_concat_sort]
    | page kind count => cases unpaged.2

open ListingCall in
/-- If all rows satisfy the predicates of calls and are in their order, the calls only cut rows
off. -/
theorem foldl_step_quiet {base : List ρ} {calls : List ListingCall} {p : Progress ρ}
    (part : p.rows.Sublist base)
    (satisfied : ∀ predicate, .filter predicate ∈ calls → ∀ row ∈ base, m.holds predicate row = true)
    (sorted : ∀ more, (∀ key ∈ more, ListingCall.sort key.1 key.2 ∈ calls) →
      base.Pairwise (m.Precedes (p.keys ++ more))) :
    (calls.foldl m.step p).rows = m.cut (pages calls) p.rows := by
  induction calls generalizing p with
  | nil => rfl
  | cons call rest ih =>
    have satisfied' : ∀ predicate, ListingCall.filter predicate ∈ rest →
        ∀ row ∈ base, m.holds predicate row = true :=
      fun predicate h => satisfied predicate (List.mem_cons_of_mem _ h)
    rw [List.foldl_cons]
    cases call with
    | filter predicate =>
      have all : m.step p (.filter predicate) = p := by
        rw [step, List.filter_eq_self.2 fun row hrow =>
          satisfied predicate (List.mem_cons_self ..) row (part.mem hrow)]
      rw [all]
      exact ih part satisfied' fun more h =>
        sorted more fun key hkey => List.mem_cons_of_mem _ (h key hkey)
    | sort key descending =>
      have inOrder : p.rows.Pairwise (m.Precedes (p.keys ++ [(key, descending)])) := by
        refine (sorted [(key, descending)] fun k hk => ?_).sublist part
        rw [List.mem_singleton.1 hk]
        exact List.mem_cons_self ..
      have same : m.step p (.sort key descending) = ⟨p.rows, p.keys ++ [(key, descending)]⟩ := by
        rw [step, m.sort_eq_self inOrder]
      rw [same]
      refine ih part satisfied' fun more h => ?_
      rw [List.append_assoc]
      refine sorted _ fun k hk => ?_
      rcases List.mem_cons.1 hk with rfl | hk
      · exact List.mem_cons_self ..
      · exact List.mem_cons_of_mem _ (h k hk)
    | page kind count =>
      refine ih (((m.cut_sublist _ _).trans part)) satisfied' fun more h => ?_
      exact sorted more fun key hkey => List.mem_cons_of_mem _ (h key hkey)

end Meaning

/-! ### Calls that page last -/

namespace ListingCall

def isPage (call : ListingCall) : Bool :=
  call.page?.isSome

/-- The calls before the first that cuts rows off. -/
def beforePages (calls : List ListingCall) : List ListingCall :=
  calls.takeWhile (!·.isPage)

/-- The calls from the first on that cuts rows off. -/
def fromPages (calls : List ListingCall) : List ListingCall :=
  calls.dropWhile (!·.isPage)

/-- Once rows are cut off, no call says anything new: it filters by a predicate and sorts by a key
that were used before, and rows are skipped at most once, before any are taken, and always as many
are taken. -/
structure PagesLast (calls : List ListingCall) : Prop where
  filters : ∀ predicate, filter predicate ∈ fromPages calls →
    filter predicate ∈ beforePages calls
  sorts : ∀ key descending, sort key descending ∈ fromPages calls →
    ∃ descending', sort key descending' ∈ beforePages calls
  pages : ∃ (skipped : Option Expr) (n : Nat) (taken : Expr),
    pages calls = skipped.toList.map (PageKind.skip, ·) ++ List.replicate n (PageKind.take, taken)

/-- The keys of later calls are known. -/
theorem PagesLast.known_keys {calls : List ListingCall} (h : PagesLast calls)
    {more : List (Expr × Bool)} (hmore : ∀ key ∈ more, sort key.1 key.2 ∈ fromPages calls) :
    ∀ key ∈ more, key.1 ∈ (keys (beforePages calls)).map Prod.fst := by
  intro key hkey
  obtain ⟨descending, hsort⟩ := h.sorts key.1 key.2 (hmore key hkey)
  exact List.mem_map.2 ⟨(key.1, descending), mem_keys.2 hsort, rfl⟩

theorem beforePages_append_fromPages (calls : List ListingCall) :
    beforePages calls ++ fromPages calls = calls :=
  List.takeWhile_append_dropWhile

theorem pages_beforePages (calls : List ListingCall) : ListingCall.pages (beforePages calls) = [] := by
  rw [ListingCall.pages, List.filterMap_eq_nil_iff]
  intro call hcall
  have notPage := List.all_eq_true.1 List.all_takeWhile call hcall
  simpa [isPage] using notPage

/-- If rows are cut off at all, there is a first call that does. -/
theorem fromPages_cases (calls : List ListingCall) :
    fromPages calls = [] ∨ ∃ kind count rest, fromPages calls = page kind count :: rest := by
  unfold fromPages
  cases h : calls.dropWhile (!·.isPage) with
  | nil => exact .inl rfl
  | cons call rest =>
    have first : (!call.isPage) = false := by
      simpa [h] using List.head_dropWhile_not (p := (!·.isPage)) (l := calls) (by simp [h])
    cases call with
    | page kind count => exact .inr ⟨kind, count, rest, rfl⟩
    | _ => cases first

end ListingCall

section

variable (kind : PageKind) (skipped : Option Expr) (n : Nat) (taken : Expr)

theorem firstPage?_skip :
    firstPage? .skip (skipped.toList.map (PageKind.skip, ·) ++ List.replicate n (.take, taken)) =
      skipped := by
  cases skipped with
  | none => simp [firstPage?]
  | some count => rfl

theorem firstPage?_take :
    firstPage? .take (skipped.toList.map (PageKind.skip, ·) ++ List.replicate n (.take, taken)) =
      if n = 0 then none else some taken := by
  have after : firstPage? .take (List.replicate n (.take, taken)) =
      if n = 0 then none else some taken := by
    simp only [firstPage?, List.find?_replicate]
    split <;> rfl
  cases skipped with
  | none => exact after
  | some count => exact after

end

namespace Meaning

open ListingCall

variable {ρ : Type} (m : Meaning ρ)

theorem cut_append (pages more : List (PageKind × Expr)) (rows : List ρ) :
    m.cut (pages ++ more) rows = m.cut more (m.cut pages rows) :=
  List.foldl_append

theorem cut_replicate_take (n : Nat) (taken : Expr) (rows : List ρ) :
    m.cut (List.replicate n (.take, taken)) rows =
      if n = 0 then rows else rows.take (m.count taken) := by
  induction n generalizing rows with
  | zero => rfl
  | succ n ih =>
    have first : m.cut [(.take, taken)] rows = rows.take (m.count taken) := rfl
    rw [List.replicate_succ, cut_cons, ih, first, if_neg (Nat.succ_ne_zero n), List.take_take,
      min_self, ite_self]

/-- Skipping and then taking, however often, is one offset and one limit. -/
theorem cut_skip_take (skipped : Option Expr) (n : Nat) (taken : Expr) (rows : List ρ) :
    m.cut (skipped.toList.map (PageKind.skip, ·) ++ List.replicate n (.take, taken)) rows =
      if n = 0 then rows.drop (skipped.elim 0 m.count)
      else (rows.drop (skipped.elim 0 m.count)).take (m.count taken) := by
  rw [cut_append, cut_replicate_take]
  cases skipped <;> rfl

section PagesLast

variable {calls : List ListingCall} (h : PagesLast calls)

include h

theorem sifted_beforePages (rows : List ρ) :
    m.sifted calls rows = m.sifted (beforePages calls) rows := by
  have allKeys : keys calls = keys (beforePages calls) ++ keys (fromPages calls) := by
    rw [← keys_append, beforePages_append_fromPages]
  have allPredicates :
      predicates calls = predicates (beforePages calls) ++ predicates (fromPages calls) := by
    rw [← predicates_append, beforePages_append_fromPages]
  unfold sifted
  rw [allKeys, m.sort_append_known (h.known_keys fun key hkey => mem_keys.1 hkey)]
  refine congrArg _ (List.filter_congr fun row _ => ?_)
  rw [allPredicates, List.all_append]
  cases satisfied : (predicates (beforePages calls)).all (m.holds · row) with
  | false => rfl
  | true =>
    refine List.all_eq_true.2 fun predicate hpredicate => ?_
    exact List.all_eq_true.1 satisfied predicate
      (mem_predicates.2 (h.filters predicate (mem_predicates.1 hpredicate)))

theorem run_beforePages (rows : List ρ) :
    m.run calls rows = m.cut (pages calls) (m.sifted (beforePages calls) rows) := by
  have allPages : pages calls = pages (fromPages calls) := by
    rw [← List.nil_append (pages (fromPages calls)), ← pages_beforePages calls, ← pages_append,
      beforePages_append_fromPages]
  have split : calls.foldl m.step ⟨rows, []⟩ = (fromPages calls).foldl m.step
      ⟨m.sifted (beforePages calls) rows, keys (beforePages calls)⟩ := by
    rw [← m.foldl_step_unpaged (pages_beforePages calls), ← List.foldl_append,
      beforePages_append_fromPages]
  rw [run, split, allPages]
  refine m.foldl_step_quiet (List.Sublist.refl _) ?_ ?_
  · intro predicate hpredicate row hrow
    have kept := (List.mem_filter.1 ((List.mem_insertionSort _).1 hrow)).2
    exact List.all_eq_true.1 kept predicate (mem_predicates.2 (h.filters predicate hpredicate))
  · intro more hmore
    refine (List.pairwise_insertionSort _ _).imp fun {a b} hab => ?_
    exact (m.precedes_append_known (h.known_keys hmore) a b).trans hab

/-- If rows are cut off last, the clauses do what the calls do. -/
theorem select_eq_run (rows : List ρ) : m.select (selection calls) rows = m.run calls rows := by
  obtain ⟨skipped, n, taken, hpages⟩ := h.pages
  rw [m.run_beforePages h, select_selection, m.sifted_beforePages h, hpages, cut_skip_take,
    firstPage?_skip, firstPage?_take]
  by_cases zero : n = 0
  · simp only [zero, if_true]
  · simp only [zero, if_false]

end PagesLast

/-! ### Telling calls and clauses apart -/

/-- A reading on two rows by which all keys leave them in order. -/
def probe (holds : Expr → Bool → Bool) (count : Expr → Nat) : Meaning Bool where
  holds
  le _ _ _ := true
  le_total _ _ _ := .inl rfl
  le_trans _ _ _ _ _ _ := rfl
  count

theorem before_probe {holds : Expr → Bool → Bool} {count : Expr → Nat} (key : Expr × Bool)
    (a b : Bool) : (probe holds count).before key a b = true := by
  unfold before
  split <;> rfl

theorem precedes_of_before {keys : List (Expr × Bool)} {a b : ρ}
    (h : ∀ key ∈ keys, m.before key a b = true) : m.precedes keys a b = true := by
  induction keys with
  | nil => rfl
  | cons key rest ih =>
    exact (m.precedes_cons key rest a b).2
      ⟨h key (List.mem_cons_self ..), fun _ => ih fun k hk => h k (List.mem_cons_of_mem _ hk)⟩

theorem sort_probe {holds : Expr → Bool → Bool} {count : Expr → Nat} (keys : List (Expr × Bool))
    (rows : List Bool) : rows.Pairwise ((probe holds count).Precedes keys) :=
  List.pairwise_of_forall fun a b => precedes_of_before _ fun key _ => before_probe key a b

theorem sifted_probe {holds : Expr → Bool → Bool} {count : Expr → Nat} (calls : List ListingCall)
    (rows : List Bool) : (probe holds count).sifted calls rows =
      rows.filter fun row => (predicates calls).all (holds · row) :=
  (probe holds count).sort_eq_self (sort_probe _ _)

/-- Calls whose predicates hold on the rows only cut rows off. -/
theorem foldl_step_probe {holds : Expr → Bool → Bool} {count : Expr → Nat}
    {calls : List ListingCall} {p : Progress Bool}
    (satisfied : ∀ predicate, .filter predicate ∈ calls → ∀ row ∈ p.rows, holds predicate row = true) :
    (calls.foldl (probe holds count).step p).rows = (probe holds count).cut (pages calls) p.rows :=
  (probe holds count).foldl_step_quiet (List.Sublist.refl _) satisfied fun _ _ => sort_probe _ _

open Classical in
/-- A reading on two rows by which one key turns them round, in its direction, and all other keys
leave them in order. -/
noncomputable def turning (key : Expr × Bool) : Meaning Bool where
  holds _ _ := true
  le e a b := e ≠ key.1 || if key.2 then !a || b else !b || a
  le_total e a b := by cases key.2 <;> cases a <;> cases b <;> simp
  le_trans e a b c := by cases key.2 <;> cases a <;> cases b <;> cases c <;> simp
  count _ := 1

theorem before_turning {key other : Expr × Bool} (distinct : other.1 ≠ key.1) (a b : Bool) :
    (turning key).before other a b = true := by
  simp [before, turning, distinct]

theorem sort_turning {key : Expr × Bool} {first rest : List (Expr × Bool)}
    (distinct : ∀ other ∈ first, other.1 ≠ key.1) :
    (turning key).sort (first ++ key :: rest) [false, true] = [true, false] := by
  have turned : (turning key).precedes (first ++ key :: rest) false true = false := by
    induction first with
    | nil =>
      have last : (turning key).before key false true = false := by
        simp only [before, turning]
        cases key.2 <;> simp
      simp [precedes, last]
    | cons other first ih =>
      have alike := before_turning (distinct other (List.mem_cons_self ..))
      simp only [List.cons_append, precedes, alike, Bool.not_true, Bool.true_and, Bool.false_or]
      exact ih fun o ho => distinct o (List.mem_cons_of_mem _ ho)
  have notBefore : ¬ (turning key).Precedes (first ++ key :: rest) false true := by
    rw [Precedes, turned]
    exact Bool.false_ne_true
  rw [sort, List.insertionSort_cons, List.insertionSort_cons, List.insertionSort_nil,
    List.orderedInsert_nil, List.orderedInsert_of_not_le _ _ notBefore, List.orderedInsert_nil]

/-- One row is left over exactly if none are skipped, when all counts are one. -/
theorem cut_singleton (one : ∀ e, m.count e = 1) (pages : List (PageKind × Expr)) (row : ρ) :
    m.cut pages [row] = if (firstPage? .skip pages).isSome then [] else [row] := by
  induction pages with
  | nil => rfl
  | cons page pages ih =>
    obtain ⟨kind, count⟩ := page
    cases kind with
    | take =>
      have kept : m.cut [(.take, count)] [row] = [row] := by simp [cut, one]
      rw [cut_cons, kept, ih]
      rfl
    | skip =>
      have dropped : m.cut [(.skip, count)] [row] = [] := by simp [cut, one]
      rw [cut_cons, dropped, cut_nil]
      rfl

theorem cut_take_zero {pages : List (PageKind × Expr)} {count : Expr} (zero : m.count count = 0)
    (h : (PageKind.take, count) ∈ pages) (rows : List ρ) : m.cut pages rows = [] := by
  induction pages generalizing rows with
  | nil => cases h
  | cons page pages ih =>
    rw [cut_cons]
    rcases List.mem_cons.1 h with rfl | h
    · have none : m.cut [(.take, count)] rows = [] := by simp [cut, zero]
      rw [none, cut_nil]
    · exact ih h _

end Meaning

/-- What is never skipped is only taken. -/
theorem eq_takes_of_no_skip {pages : List (PageKind × Expr)} (h : firstPage? .skip pages = none) :
    pages = (pages.map Prod.snd).map (PageKind.take, ·) := by
  induction pages with
  | nil => rfl
  | cons page pages ih =>
    obtain ⟨kind, count⟩ := page
    cases kind with
    | skip => cases h
    | take => exact congrArg _ (ih h)

namespace ListingCall

open Meaning

/-- The clauses of calls do what the calls do, whatever expressions mean and on every table. -/
def Faithful (calls : List ListingCall) : Prop :=
  ∀ (ρ : Type) (m : Meaning ρ) (rows : List ρ), m.select (selection calls) rows = m.run calls rows

section Faithful

variable {calls : List ListingCall} (faithful : Faithful calls)

include faithful

/-- With all predicates true and all keys equal, only paging matters. -/
theorem Faithful.pages_probe (count : Expr → Nat) :
    (probe (fun _ _ => true) count).cut (ListingCall.pages calls) [false, true] =
      match firstPage? .take (ListingCall.pages calls) with
      | some taken =>
        ([false, true].drop ((firstPage? .skip (ListingCall.pages calls)).elim 0 count)).take
          (count taken)
      | none => [false, true].drop ((firstPage? .skip (ListingCall.pages calls)).elim 0 count) := by
  have same := faithful Bool (probe (fun _ _ => true) count) [false, true]
  have all : ([false, true].filter fun _ => (predicates calls).all fun _ => true) =
      [false, true] := by simp
  rw [run, foldl_step_probe fun _ _ _ _ => rfl, select_selection, sifted_probe, all] at same
  exact same.symm

/-- Rows are skipped only first, and only once. -/
theorem Faithful.skips_first : ∃ (skipped : Option Expr) (takes : List Expr),
    ListingCall.pages calls = skipped.toList.map (PageKind.skip, ·) ++
      takes.map (PageKind.take, ·) := by
  have same := faithful.pages_probe fun _ => 1
  cases hpages : ListingCall.pages calls with
  | nil => exact ⟨none, [], rfl⟩
  | cons page rest =>
    obtain ⟨kind, count⟩ := page
    rw [hpages, cut_cons] at same
    cases kind with
    | skip =>
      -- The second row is left; skipping again would lose it.
      have later : firstPage? .skip rest = none := by
        have left : (probe (fun _ _ => true) fun _ => 1).cut rest [true] = [true] := by
          refine Eq.trans same ?_
          cases firstPage? .take ((PageKind.skip, count) :: rest) <;> rfl
        rw [cut_singleton _ fun _ => rfl] at left
        cases hskip : firstPage? .skip rest with
        | none => rfl
        | some _ =>
          rw [hskip] at left
          cases left
      exact ⟨some count, _, congrArg _ (eq_takes_of_no_skip later)⟩
    | take =>
      -- The first row is left; the clauses would yield the second one if rows were skipped.
      have later : firstPage? .skip rest = none := by
        have left : (probe (fun _ _ => true) fun _ => 1).cut rest [false] =
            ([false, true].drop ((firstPage? .skip rest).elim 0 fun _ => 1)).take 1 := same
        rw [cut_singleton _ fun _ => rfl] at left
        cases hskip : firstPage? .skip rest with
        | none => rfl
        | some _ =>
          rw [hskip] at left
          cases left
      exact ⟨none, count :: rest.map Prod.snd, congrArg ((PageKind.take, count) :: ·)
        (eq_takes_of_no_skip later)⟩

/-- As many rows are taken each time. -/
theorem Faithful.takes_alike {skipped : Option Expr} {first other : Expr} {takes : List Expr}
    (hpages : ListingCall.pages calls =
      skipped.toList.map (PageKind.skip, ·) ++ (first :: takes).map (PageKind.take, ·))
    (mem : other ∈ takes) : other = first := by
  classical
  by_contra distinct
  have same := faithful.pages_probe fun e => if e = other then 0 else 1
  have taken : (PageKind.take, other) ∈ ListingCall.pages calls := by
    rw [hpages]
    exact List.mem_append_right _ (List.mem_map_of_mem (List.mem_cons_of_mem _ mem))
  have limit : firstPage? .take (ListingCall.pages calls) = some first := by
    rw [hpages]
    cases skipped <;> rfl
  rw [cut_take_zero _ (if_pos rfl) taken, limit] at same
  simp only [if_neg (Ne.symm distinct)] at same
  have atMostOne : ((firstPage? .skip (ListingCall.pages calls)).elim 0
      fun e => if e = other then 0 else 1) ≤ 1 := by
    cases firstPage? .skip (ListingCall.pages calls) with
    | none => exact Nat.zero_le _
    | some e =>
      simp only [Option.elim_some]
      split <;> omega
  have none := congrArg List.length same
  simp only [List.length_nil, List.length_take, List.length_drop, List.length_cons] at none
  omega

theorem Faithful.pages : ∃ (skipped : Option Expr) (n : Nat) (taken : Expr),
    ListingCall.pages calls =
      skipped.toList.map (PageKind.skip, ·) ++ List.replicate n (PageKind.take, taken) := by
  obtain ⟨skipped, takes, hpages⟩ := faithful.skips_first
  cases takes with
  | nil => exact ⟨skipped, 0, .absent, hpages⟩
  | cons first takes =>
    refine ⟨skipped, takes.length + 1, first, ?_⟩
    rw [hpages, List.eq_replicate_of_mem fun other => faithful.takes_alike hpages]
    simp [List.replicate_succ]

/-- The first call that cuts rows off, and what the clauses make of it. -/
theorem Faithful.pages_fromPages {kind : PageKind} {count : Expr} {rest : List ListingCall}
    (later : fromPages calls = page kind count :: rest) :
    ListingCall.pages calls = (kind, count) :: ListingCall.pages rest ∧
      firstPage? .skip (ListingCall.pages rest) = none := by
  have split : ListingCall.pages calls = (kind, count) :: ListingCall.pages rest := by
    rw [← beforePages_append_fromPages calls, pages_append, pages_beforePages, later]
    rfl
  refine ⟨split, ?_⟩
  obtain ⟨skipped, n, taken, hpages⟩ := faithful.pages
  have takes : ListingCall.pages rest = List.replicate (n - 1) (.take, taken) ∨
      ListingCall.pages rest = List.replicate n (.take, taken) := by
    rw [split] at hpages
    cases skipped with
    | some skipped => exact .inr (List.cons.inj hpages).2
    | none =>
      cases n with
      | zero => cases hpages
      | succ n => exact .inl (List.cons.inj hpages).2
  rcases takes with takes | takes
  all_goals
    rw [takes]
    exact firstPage?_skip none _ taken

section FirstPage

variable {kind : PageKind} {count : Expr} {rest : List ListingCall} {ρ : Type} {m : Meaning ρ}

theorem Faithful.select_take (later : fromPages calls = page .take count :: rest)
    (one : ∀ e, m.count e = 1) (rows : List ρ) :
    m.run calls rows = (m.sifted calls rows).take 1 := by
  obtain ⟨hpages, noSkip⟩ := faithful.pages_fromPages later
  have limit : firstPage? .take (ListingCall.pages calls) = some count := by
    rw [hpages]
    rfl
  have offset : firstPage? .skip (ListingCall.pages calls) = none := by
    rw [hpages]
    exact noSkip
  rw [← faithful ρ m rows, select_selection, limit, offset]
  dsimp only [Option.elim_none]
  rw [one, List.drop_zero]

theorem Faithful.select_skip (later : fromPages calls = page .skip count :: rest)
    (one : ∀ e, m.count e = 1) (rows : List ρ) :
    m.run calls rows = (m.sifted calls rows).drop 1 ∨
      m.run calls rows = ((m.sifted calls rows).drop 1).take 1 := by
  have offset : firstPage? .skip (ListingCall.pages calls) = some count := by
    rw [(faithful.pages_fromPages later).1]
    rfl
  rw [← faithful ρ m rows, select_selection, offset, Option.elim_some, one]
  cases firstPage? .take (ListingCall.pages calls) with
  | none => exact .inl rfl
  | some taken => exact .inr (congrArg (List.take · _) (one taken))

omit faithful

/-- If the calls before the first that cuts rows off leave the rows as they are, the later calls see
what it leaves of them. -/
theorem run_fromPages (later : fromPages calls = page kind count :: rest) {rows : List ρ}
    (kept : ((beforePages calls).foldl m.step ⟨rows, []⟩).rows = rows) :
    ∃ keys, m.run calls rows = (rest.foldl m.step ⟨m.cut [(kind, count)] rows, keys⟩).rows := by
  refine ⟨((beforePages calls).foldl m.step ⟨rows, []⟩).keys, ?_⟩
  have split : calls.foldl m.step ⟨rows, []⟩ =
      (page kind count :: rest).foldl m.step ((beforePages calls).foldl m.step ⟨rows, []⟩) := by
    rw [← later, ← List.foldl_append, beforePages_append_fromPages]
  rw [run, split, List.foldl_cons, step, kept]

theorem mem_run_fromPages (later : fromPages calls = page kind count :: rest) {rows : List ρ}
    (kept : ((beforePages calls).foldl m.step ⟨rows, []⟩).rows = rows) {row : ρ}
    (mem : row ∈ m.run calls rows) : row ∈ m.cut [(kind, count)] rows := by
  obtain ⟨keys, hrun⟩ := run_fromPages later kept
  rw [hrun] at mem
  exact m.mem_of_mem_foldl_step mem

end FirstPage

/-- No predicate is new once rows are cut off. -/
theorem Faithful.filters {predicate : Expr} (mem : filter predicate ∈ fromPages calls) :
    filter predicate ∈ beforePages calls := by
  classical
  by_contra fresh
  -- The predicate holds on the second row only, every other one on both.
  let m := probe (fun e row => if e = predicate then row else true) fun _ => 1
  have kept : ((beforePages calls).foldl m.step ⟨[false, true], []⟩).rows = [false, true] := by
    rw [foldl_step_probe, pages_beforePages]
    · rfl
    · intro e he row _
      refine if_neg fun same => fresh ?_
      rwa [same] at he
  have known : predicate ∈ predicates calls := by
    rw [← beforePages_append_fromPages calls, predicates_append]
    exact List.mem_append_right _ (mem_predicates.2 mem)
  have sifted : m.sifted calls [false, true] = [true] := by
    have first : ((predicates calls).all fun e => if e = predicate then false else true) = false :=
      List.all_eq_false.2 ⟨predicate, known, by simp⟩
    rw [sifted_probe, List.filter_cons_of_neg (by simpa using first), List.filter_cons_of_pos (by simp)]
    rfl
  rcases fromPages_cases calls with none | ⟨kind, count, rest, later⟩
  · rw [none] at mem
    cases mem
  cases kind with
  | take =>
    have taken := faithful.select_take (m := m) later (fun _ => rfl) [false, true]
    rw [sifted] at taken
    have left : true ∈ [false] := mem_run_fromPages later kept (by simp [taken])
    cases List.mem_singleton.1 left
  | skip =>
    have skipped : m.run calls [false, true] = [] := by
      rcases faithful.select_skip (m := m) later (fun _ => rfl) [false, true] with h | h
      all_goals
        rw [h, sifted]
        rfl
    obtain ⟨keys, hrun⟩ := run_fromPages later kept
    have second : m.cut [(.skip, count)] [false, true] = [true] := rfl
    have left : m.run calls [false, true] = [true] := by
      rw [hrun, second, foldl_step_probe, cut_singleton, (faithful.pages_fromPages later).2]
      · rfl
      · exact fun _ => rfl
      · intro e _ row hrow
        rw [List.mem_singleton.1 hrow]
        exact ite_self _
    cases skipped.symm.trans left

/-- No key is new once rows are cut off. -/
theorem Faithful.sorts {key : Expr} {descending : Bool}
    (mem : sort key descending ∈ fromPages calls) :
    ∃ descending', sort key descending' ∈ beforePages calls := by
  classical
  by_contra fresh
  have known : (key, descending) ∈ keys calls := by
    rw [← beforePages_append_fromPages calls, keys_append]
    exact List.mem_append_right _ (mem_keys.2 mem)
  -- The first sort by this key decides on its direction.
  obtain ⟨turn, first, rest', same, hkeys, distinct⟩ : ∃ turn first rest, turn.1 = key ∧
      keys calls = first ++ turn :: rest ∧ ∀ other ∈ first, other.1 ≠ turn.1 := by
    have found : ((keys calls).find? (·.1 = key)).isSome = true := by
      rw [List.find?_isSome]
      exact ⟨_, known, decide_eq_true rfl⟩
    obtain ⟨turn, hturn⟩ := Option.isSome_iff_exists.1 found
    obtain ⟨same, first, rest, hkeys, distinct⟩ := List.find?_eq_some_iff_append.1 hturn
    have same : turn.1 = key := of_decide_eq_true same
    refine ⟨turn, first, rest, same, hkeys, fun other hother => ?_⟩
    rw [same]
    simpa using distinct other hother
  let m := turning turn
  have kept : ((beforePages calls).foldl m.step ⟨[false, true], []⟩).rows = [false, true] := by
    rw [m.foldl_step_quiet (List.Sublist.refl _) (fun _ _ _ _ => rfl), pages_beforePages]
    · rfl
    · intro more hmore
      refine List.pairwise_of_forall fun a b => m.precedes_of_before fun other hother => ?_
      refine before_turning (fun equal => fresh ⟨other.2, ?_⟩) a b
      rw [← same, ← equal]
      exact hmore other hother
  have sifted : m.sifted calls [false, true] = [true, false] := by
    have all : ([false, true].filter fun row => (predicates calls).all (m.holds · row)) =
        [false, true] := by simp [m, turning]
    rw [Meaning.sifted, all, hkeys, sort_turning distinct]
  rcases fromPages_cases calls with none | ⟨kind, count, rest, later⟩
  · rw [none] at mem
    cases mem
  cases kind with
  | take =>
    have taken := faithful.select_take (m := m) later (fun _ => rfl) [false, true]
    rw [sifted] at taken
    have left : true ∈ [false] := mem_run_fromPages later kept (by simp [taken])
    cases List.mem_singleton.1 left
  | skip =>
    have skipped : m.run calls [false, true] = [false] := by
      rcases faithful.select_skip (m := m) later (fun _ => rfl) [false, true] with h | h
      all_goals
        rw [h, sifted]
        rfl
    have left : false ∈ [true] := mem_run_fromPages later kept (by simp [skipped])
    cases List.mem_singleton.1 left

theorem Faithful.pagesLast : PagesLast calls where
  filters _ := faithful.filters
  sorts _ _ := faithful.sorts
  pages := faithful.pages

end Faithful

end ListingCall

namespace Listing

open Sql

/-- The SELECT of a listing has its predicates, keys, offset and limit as clauses; evaluating it gives
what the calls give one after the other, whatever expressions mean and on every table, exactly if
the calls from the first on that cuts rows off say nothing new. -/
theorem sql_faithful_iff (l : Listing) (d : Dialect) (params : Json) :
    l.operation.sql d params =
        (ListingCall.selection l.calls).sql ⟨d, params, [], false⟩ (quoteTable l.schema l.table) ∧
      ((∀ (ρ : Type) (m : Meaning ρ) (rows : List ρ),
          m.select (ListingCall.selection l.calls) rows = m.run l.calls rows) ↔
        ListingCall.PagesLast l.calls) :=
  ⟨l.sql_operation d params, fun faithful => ListingCall.Faithful.pagesLast faithful,
    fun h _ m rows => m.select_eq_run h rows⟩

/-- The first user, if active: `(q) => q.from("users").take(1).where((u) => u.active)` -/
def firstIfActive : Node :=
  .arrow ["q"] ((((Node.identifier "q").invoke "from" [.literal (.str "users")]).invoke "take"
    [.literal (.int 1)]).invoke "where" [.arrow ["u"] ((Node.identifier "u").dot "active")])

def firstIfActiveListing : Listing where
  table := "users"
  calls := [.page .take (.param "__p1" "" none), .filter (.booleanColumn "active" "" none)]

/-- The SELECT that is written for the first user, if active, yields the first active user: on an
inactive and an active user, the second instead of none. -/
theorem sql_filters_before_taking :
    ∃ q sql, firstIfActive.parseQuery = .ok q ∧ q.operation = firstIfActiveListing.operation ∧
      q.operation.sql .postgres (.obj q.scope.autoParams) = .ok sql ∧
      sql.render .postgres = "SELECT * FROM \"users\" WHERE \"active\" LIMIT $(__p1)" ∧
      ∃ m : Meaning Bool,
        m.run firstIfActiveListing.calls [false, true] = [] ∧
        m.select (ListingCall.selection firstIfActiveListing.calls) [false, true] = [true] := by
  exact ⟨_, _, rfl, rfl, rfl, by decide +kernel, .probe (fun _ active => active) fun _ => 1, rfl, rfl⟩

end Listing

end FluentQuery
