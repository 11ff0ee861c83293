import FluentQuery.Proofs.Policy.Coverage
import FluentQuery.Proofs.TwoRuns
import FluentQuery.Workspace

/-!
# Applying filters with and without a memo

Every call that applies filters may find some of them in the memo that earlier calls have left, under
whatever context, for whatever statement, and whether they succeeded or not.  Main statement:
`memo_transparent`, that no call can notice.  Two runs are compared, one of which has no memo; their
states differ in the memo only.
-/

namespace FluentQuery

set_option autoImplicit false

/-- The filters of a schema, parsed afresh for every operation. -/
def RowFilters.withoutMemo (filters : RowFilters) : RowFilters :=
  { filters with remembers := false }

/-- The schema that remembers no parsed filter. -/
def Schema.withoutMemo (schema : Schema) : Schema :=
  ⟨schema.rowFilters.map RowFilters.withoutMemo⟩

/-! ### One operation -/

/-- States that differ in what is remembered, which in the first is what parsing would give. -/
def FilterState.SameButMemo (tables : Assoc TableFilters) (s s' : FilterState) : Prop :=
  s.memo.Sound tables ∧ ∃ memo, s' = { s with memo }

namespace Filtering

open FilterState

variable {filters : RowFilters} {tables : Assoc TableFilters} {α : Type}

/-- A change of the state that has nothing to do with the memo. -/
theorem mirrors_modify {change : FilterState → FilterState}
    (memo : ∀ s, (change s).memo = s.memo)
    (others : ∀ s memo, change { s with memo } = { change s with memo }) :
    Mirrors (SameButMemo tables) (modify change : Filtering PUnit) (modify change) := by
  apply Mirrors.modify
  rintro s _ ⟨sound, memo', rfl⟩
  exact ⟨by rw [memo]; exact sound, memo', others s memo'⟩

theorem mirrors_ofExcept (place : ErrorContext) (x : Except PolicyFault α) :
    Mirrors (SameButMemo tables) (ofExcept place x) (ofExcept place x) := by
  cases x with
  | ok a => exact .pure a
  | error fault => exact .throw _

/-- What is found in the memo is what parsing gives. -/
theorem mirrors_parsed (remembers : Bool) {key : String} {kind : FilterKind} {config : TableFilters}
    {declared : Node} (hconfig : tables.find? key = some config)
    (hdeclared : config.predicateFor kind = some declared) :
    Mirrors (SameButMemo tables) (parsed remembers declared key kind)
      (parsed false declared key kind) := by
  unfold parsed
  apply Mirrors.get
  rintro s _ ⟨sound, memo', rfl⟩
  simp only [Bool.false_eq_true, if_false]
  split
  · rename_i filter hit
    have found : s.memo.find? (memoKey key kind s.counter) = some filter := by
      cases remembers with
      | true => exact hit
      | false => cases hit
    obtain ⟨config', declared', hconfig', hdeclared', hparse⟩ := sound key kind s.counter filter found
    obtain rfl := Option.some.inj (hconfig.symm.trans hconfig')
    obtain rfl := Option.some.inj (hdeclared.symm.trans hdeclared')
    rw [hparse]
    exact .pure filter
  · cases hparse : RowFilter.parse declared key kind s.counter with
    | error e => exact .throw e
    | ok filter =>
      cases remembers with
      | false => exact .pure filter
      | true =>
        -- Only the first run takes this step; what it adds is what parsing gave.
        rintro s' _ ⟨sound', memo'', rfl⟩
        have added := soundMemo_insert sound' ⟨config, declared, hconfig, hdeclared, hparse⟩
        exact .ok ⟨added, memo'', rfl⟩

/-- Looking for the filter of a table. -/
theorem mirrors_filterFor (schema table : String) (kind : FilterKind) :
    Mirrors (SameButMemo filters.tables) (filterFor filters schema table kind)
      (filterFor filters.withoutMemo schema table kind) := by
  have find : filters.withoutMemo.find? schema table = filters.find? schema table := rfl
  unfold filterFor
  rw [find]
  cases hfind : filters.find? schema table with
  | none => exact .throw _
  | some entry =>
    obtain ⟨key, config⟩ := entry
    apply Mirrors.get
    rintro s _ ⟨-, memo', rfl⟩
    dsimp only
    split
    · exact .pure _
    · split
      · refine Mirrors.bind (mirrors_modify ?_ ?_) fun _ => .pure _
        · intro s
          rfl
        · intro s memo
          rfl
      · rename_i declared hdeclared
        refine (mirrors_parsed _ (RowFilters.find?_tables hfind) hdeclared).bind fun filter => ?_
        refine Mirrors.bind (mirrors_modify ?_ ?_) fun _ => ?_
        · intro s
          rfl
        · intro s memo
          rfl
        apply Mirrors.get
        rintro s _ ⟨-, memo', rfl⟩
        refine (mirrors_ofExcept _ _).bind fun merged => ?_
        refine Mirrors.bind (mirrors_modify ?_ ?_) fun _ => .pure _
        · intro s
          rfl
        · intro s memo
          rfl

/-- The values of the context that the filters use. -/
theorem mirrors_finalParams (context params : Json) (place : ErrorContext) :
    Mirrors (SameButMemo tables) (finalParams context params place)
      (finalParams context params place) := by
  unfold finalParams
  apply Mirrors.get
  rintro s _ ⟨-, memo', rfl⟩
  exact mirrors_ofExcept _ _

/-- Replacing the tables that an operation reads. -/
theorem mirrors_wrap (op : Operation) :
    Mirrors (SameButMemo filters.tables) (wrap filters op) (wrap filters.withoutMemo op) := by
  induction op using Operation.reading_induction with
  | nil => exact .pure _
  | derived table schema subquery aliasHint earlier holds ih =>
    obtain ⟨first, rest, rfl⟩ := List.exists_cons_of_ne_nil holds
    exact ih.bind fun _ => .pure _
  | base table schema aliasHint earlier =>
    unfold wrap
    split
    · exact .pure _
    · refine (mirrors_filterFor schema table .select).bind fun found => ?_
      cases found with
      | none => exact .pure _
      | some filter => exact .pure _
  | step step earlier noFrom ihNested ihEarlier =>
    rw [wrap_step noFrom, wrap_step noFrom]
    exact ihNested.bind fun _ => ihEarlier.bind fun _ => .pure _

theorem mirrors_filtered (context : Json) (query : BoundQuery) :
    Mirrors (SameButMemo filters.tables) (filtered filters context query)
      (filtered filters.withoutMemo context query) := by
  unfold filtered
  split
  · refine (mirrors_filterFor _ _ .update).bind fun found => ?_
    cases found with
    | none => exact .pure _
    | some filter =>
      exact (mirrors_finalParams _ _ _).bind fun _ => (mirrors_ofExcept _ _).bind fun _ => .pure _
  · refine (mirrors_filterFor _ _ .delete).bind fun found => ?_
    cases found with
    | none => exact .pure _
    | some filter => exact (mirrors_finalParams _ _ _).bind fun _ => .pure _
  · exact (mirrors_wrap _).bind fun _ => (mirrors_finalParams _ _ _).bind fun _ => .pure _

end Filtering

/-- Applying filters has the same outcome without a memo, and leaves a memo that can be relied on. -/
theorem RowFilters.mirrors_apply (filters : RowFilters) (query : BoundQuery) (counter : Int) :
    Mirrors (fun memo _ => memo.Sound filters.tables) (filters.apply query counter)
      (filters.withoutMemo.apply query counter) := by
  have context : filters.withoutMemo.context = filters.context := rfl
  unfold apply
  rw [context]
  split
  · exact .pure _
  · split
    · exact .throw _
    · rename_i context _
      intro memo memo' sound
      have same := Filtering.mirrors_filtered context query { memo, counter }
        { memo := memo', counter } ⟨sound, memo', rfl⟩
      dsimp only
      generalize Filtering.filtered filters context query { memo, counter } = r at same ⊢
      generalize Filtering.filtered filters.withoutMemo context query
        { memo := memo', counter } = r' at same ⊢
      cases same with
      | ok alike => exact .ok alike.1
      | error alike => exact .error alike.1

/-! ### Any calls -/

/-- Schemas that binding contexts leads to. -/
inductive Schema.Rebinds (schema : Schema) : Schema → Prop where
  | same : Rebinds schema schema
  | withContext {bound next : Schema} {context : Json} (before : Rebinds schema bound)
      (binds : bound.withContext context = .ok next) : Rebinds schema next

/-- Contexts do not change what is declared, nor where it is remembered. -/
theorem Schema.Rebinds.rowFilters {schema bound : Schema} {filters : RowFilters}
    (h : schema.Rebinds bound) (declared : schema.rowFilters = some filters) :
    ∃ context, bound.rowFilters = some { filters with context } := by
  induction h with
  | same => exact ⟨filters.context, declared⟩
  | withContext _ binds ih =>
    obtain ⟨context, hbound⟩ := ih
    unfold Schema.withContext at binds
    rw [hbound] at binds
    dsimp only at binds
    split at binds
    · cases binds
      exact ⟨_, rfl⟩
    · cases binds

/-- A call that applies the filters of a schema to a query. -/
structure FilterCall where
  schema : Schema
  query : BoundQuery
  counter : Int

namespace FilterCall

/-- The same call on the schema that remembers nothing. -/
def withoutMemo (call : FilterCall) : FilterCall :=
  { call with schema := call.schema.withoutMemo }

def run (call : FilterCall) : Session BoundQuery :=
  Session.applyRowFilters call.schema call.query call.counter

/-- What a call yields in a workspace. -/
def outcome (call : FilterCall) (w : Workspace) : Except CompileError BoundQuery :=
  match call.run w with
  | .ok result _ => .ok result
  | .error e _ => .error e

/-- What calls made one after the other yield; what was remembered stays even if a call fails. -/
def outcomes (w : Workspace) : List FilterCall → List (Except CompileError BoundQuery)
  | [] => []
  | call :: rest =>
    match call.run w with
    | .ok result w' => .ok result :: outcomes w' rest
    | .error e w' => .error e :: outcomes w' rest

variable {filters : RowFilters} {w : Workspace}

/-- One memo can be replaced without an effect on what can be relied on. -/
theorem sound_set {tables : Assoc TableFilters} {memos : List RowFilterMemo} {n : Nat}
    {memo : RowFilterMemo} (sound : memo.Sound tables) :
    RowFilterMemo.Sound tables ((memos.set n memo).getD n []) := by
  by_cases h : n < memos.length
  · simp only [List.getD_eq_getElem?_getD, List.getElem?_set_self h, Option.getD_some]
    exact sound
  · have missing : (memos.set n memo)[n]? = none := by
      simp only [List.getElem?_eq_none_iff, List.length_set]
      omega
    rw [List.getD_eq_getElem?_getD, missing]
    exact Filtering.soundMemo_empty

/-- One call: it yields what it yields without a memo, and what it leaves can be relied on. -/
theorem run_spec {call : FilterCall} {context : Option Json}
    (declared : call.schema.rowFilters = some { filters with context })
    (sound : RowFilterMemo.Sound filters.tables (w.memos.getD filters.memo [])) (other : Workspace) :
    ∃ w', RowFilterMemo.Sound filters.tables (w'.memos.getD filters.memo []) ∧
      call.run w = match call.withoutMemo.outcome other with
        | .ok result => .ok result w'
        | .error e => .error e w' := by
  have same := RowFilters.mirrors_apply { filters with context } call.query call.counter
    (w.memos.getD filters.memo []) (other.memos.getD filters.memo []) sound
  have bare : call.withoutMemo.schema.rowFilters =
      some ({ filters with context } : RowFilters).withoutMemo := by
    simp [withoutMemo, Schema.withoutMemo, declared]
  unfold outcome run Session.applyRowFilters
  rw [declared, bare]
  unfold Session.withMemo
  dsimp only [withoutMemo, RowFilters.withoutMemo] at same ⊢
  generalize RowFilters.apply { filters with context } call.query call.counter _ = r at same ⊢
  generalize RowFilters.apply { filters with context, remembers := false } call.query
    call.counter _ = r' at same ⊢
  cases same with
  | ok sound' => exact ⟨_, sound_set sound', rfl⟩
  | error sound' => exact ⟨_, sound_set sound', rfl⟩

/-- Calls made one after the other, starting from a memo that can be relied on. -/
theorem outcomes_spec {schema : Schema} (declared : schema.rowFilters = some filters)
    {calls : List FilterCall} (rebinds : ∀ call ∈ calls, schema.Rebinds call.schema)
    (sound : RowFilterMemo.Sound filters.tables (w.memos.getD filters.memo [])) (other : Workspace) :
    outcomes w calls = calls.map fun call => call.withoutMemo.outcome other := by
  induction calls generalizing w with
  | nil => rfl
  | cons call rest ih =>
    rw [List.forall_mem_cons] at rebinds
    obtain ⟨context, bound⟩ := rebinds.1.rowFilters declared
    obtain ⟨w', sound', run⟩ := run_spec bound sound other
    have later := ih rebinds.2 sound'
    rw [outcomes, run, List.map_cons]
    cases call.withoutMemo.outcome other with
    | ok result => exact congrArg _ later
    | error e => exact congrArg _ later

end FilterCall

/-- The memo cannot be noticed: of any calls that apply the filters of a schema, each under a context
of its own, to whatever query and from whatever counter, every one has the outcome that it has
without a memo, in any workspace. -/
theorem memo_transparent {tables : Assoc TableFilters} {w₀ w : Workspace} {schema : Schema}
    (declared : Session.declareRowFilters tables w₀ = .ok schema w) {calls : List FilterCall}
    (rebinds : ∀ call ∈ calls, schema.Rebinds call.schema) (other : Workspace) :
    FilterCall.outcomes w calls = calls.map fun call => call.withoutMemo.outcome other := by
  obtain ⟨_, _, hget, rest⟩ := bind_eq_ok.1 declared
  cases hget
  obtain ⟨_, _, hschema, rest⟩ := bind_eq_ok.1 rest
  obtain ⟨_, _, hset, final⟩ := bind_eq_ok.1 rest
  cases hset
  cases final
  unfold Schema.withRowFilters at hschema
  split at hschema
  · cases hschema
  · cases hschema
    refine FilterCall.outcomes_spec rfl rebinds ?_ other
    have new : (w₀.memos ++ [[]]).getD w₀.memos.length [] = ([] : RowFilterMemo) := by simp
    rw [new]
    exact Filtering.soundMemo_empty

/-- Users are selected twice for one organisation and once for another, and an order is deleted in
between: the second and the third selection find the filter of the first in the memo. -/
theorem memo_transparent_usersAndOrders :
    let tables := organisationFilters.tables
    let schema : Schema := ⟨some { tables, memo := 0 }⟩
    let own (org : Int) : Schema :=
      ⟨some { tables, context := some (.obj [("org", .int org)]), memo := 0 }⟩
    let calls : List FilterCall :=
      [⟨own 7, ⟨usersWithOrders, .obj []⟩, 0⟩, ⟨own 7, ⟨usersWithOrders, .obj []⟩, 0⟩,
        ⟨own 7, ⟨[.delete { table := "orders", schema := "" }], .obj []⟩, 0⟩,
        ⟨own 8, ⟨usersWithOrders, .obj []⟩, 0⟩, ⟨schema, ⟨usersWithOrders, .obj []⟩, 0⟩]
    ∃ w, Session.declareRowFilters tables {} = .ok schema w ∧
      (∀ call ∈ calls, schema.Rebinds call.schema) ∧
      FilterCall.outcomes w calls = calls.map fun call => call.withoutMemo.outcome {} := by
  intro tables schema own calls
  have bound (org : Int) : schema.Rebinds (own org) := by
    have binds : schema.withContext (.obj [("org", .int org)]) = .ok (own org) := rfl
    exact .withContext .same binds
  have rebinds : ∀ call ∈ calls, schema.Rebinds call.schema := by
    simp only [calls, List.forall_mem_cons]
    exact ⟨bound 7, bound 7, bound 7, bound 8, .same, nofun⟩
  have declared : Session.declareRowFilters tables {} = .ok schema { memos := [[]] } := rfl
  exact ⟨_, declared, rebinds, memo_transparent declared rebinds {}⟩

end FluentQuery
