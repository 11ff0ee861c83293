import Mathlib.Data.List.Permutation
import FluentQuery.Proofs.Ast.RoundTrip
import FluentQuery.Proofs.Cache.Recency
import FluentQuery.Workspace

/-!
# Parsing through the cache

Builders are parsed one after the other, and what one of them left in the cache is found by the next
that has the same canonical text.  Main statement: `Session.cached_parsing_transparent_iff`, that a
set of builders cannot notice the cache exactly if no two of them share their text and differ in
what they denote.  The text of a tree does not tell all trees apart: the name of a member stands in
it as it is, so one name can read like several members.
-/

namespace FluentQuery

set_option autoImplicit false

/-! ### What a cache holds -/

namespace Cache

variable {α : Type} {c : Cache α} {key other : String} {value found : α}

/-- Looking an entry up changes the order of use and the counts, not the entries. -/
@[simp] theorem entries_get (c : Cache α) (key : String) : (c.get key).2.entries = c.entries := by
  unfold get
  split
  · split <;> rfl
  · rfl

theorem find?_of_get (h : (c.get key).1 = some value) : c.entries.find? key = some value := by
  unfold get at h
  split at h
  · split at h
    · cases h
      assumption
    · cases h
  · cases h

/-- What is found after entries were dropped was there before. -/
theorem find?_of_dropOldest {keys : List String}
    (h : (c.dropOldest keys).entries.find? key = some found) : c.entries.find? key = some found := by
  induction keys generalizing c with
  | nil => exact h
  | cons oldest newer ih =>
    unfold dropOldest at h
    split at h
    · have before := ih h
      rw [Assoc.find?_erase] at before
      split at before
      · cases before
      · exact before
    · exact h

/-- An entry that is there after storing one is that one, or was there before. -/
theorem find?_of_set (h : (c.set key value).entries.find? other = some found) :
    (key = other ∧ value = found) ∨ c.entries.find? other = some found := by
  have stored : (c.entries.insert key value).find? other = some found →
      (key = other ∧ value = found) ∨ c.entries.find? other = some found := by
    intro h
    rw [Assoc.find?_insert] at h
    split at h
    · cases h
      exact .inl ⟨‹_›, rfl⟩
    · exact .inr h
  unfold set at h
  split at h
  · split at h
    · exact stored h
    · exact stored (find?_of_dropOldest h)
  · exact .inr h

end Cache

/-! ### Runs -/

namespace Session

/-- The outcomes of parsing builders one after the other; what was cached stays even if a builder is
refused. -/
def outcomes (useCache : Bool) (w : Workspace) : List Node → List (Except CompileError ParsedQuery)
  | [] => []
  | builder :: rest =>
    match parse builder useCache "" w with
    | .ok query w' => .ok query :: outcomes useCache w' rest
    | .error e w' => .error e :: outcomes useCache w' rest

/-- Without the cache every builder is parsed for itself. -/
theorem outcomes_uncached (w : Workspace) (builders : List Node) :
    outcomes false w builders = builders.map Node.parseQuery := by
  induction builders with
  | nil => rfl
  | cons builder rest ih =>
    have run : parse builder false "" = ofExcept builder.parseQuery := rfl
    rw [outcomes, run, List.map_cons]
    cases builder.parseQuery with
    | ok query => exact congrArg _ ih
    | error e => exact congrArg _ ih

/-- What follows the look-up of a builder: it was found, or it is parsed and stored. -/
def answer (builder : Node) : Option ParsedQuery → Session ParsedQuery
  | some query => pure query
  | none => do
    let query ← ofExcept builder.parseQuery
    modify fun w => { w with cache := w.cache.set builder.toSource query }
    return query

/-- A builder is looked up under its text, and parsed and stored if it is not found. -/
theorem parse_cached (builder : Node) (w : Workspace) :
    parse builder true "" w =
      match w.cache.get builder.toSource with
      | (some query, cache) => .ok query { w with cache }
      | (none, cache) =>
        match builder.parseQuery with
        | .ok query => .ok query { w with cache := cache.set builder.toSource query }
        | .error e => .error e { w with cache } := by
  have lookedUp : parse builder true "" w = answer builder (w.cache.get builder.toSource).1
      { w with cache := (w.cache.get builder.toSource).2 } := rfl
  rw [lookedUp]
  rcases w.cache.get builder.toSource with ⟨_ | query, cache⟩
  · unfold answer
    cases builder.parseQuery <;> rfl
  · rfl

/-- Every entry of a cache is what a builder of the given set denotes, under the text of that
builder. -/
def Stores (builders : Set Node) (c : Cache ParsedQuery) : Prop :=
  ∀ key query, c.entries.find? key = some query →
    ∃ builder ∈ builders, builder.toSource = key ∧ builder.parseQuery = .ok query

variable {builders : Set Node}

theorem stores_empty (config : CacheConfig) : Stores builders { config } := by
  intro key query h
  cases h

theorem Stores.get {c : Cache ParsedQuery} (h : Stores builders c) (key : String) :
    Stores builders (c.get key).2 := by
  intro other query found
  rw [Cache.entries_get] at found
  exact h other query found

theorem Stores.set {c : Cache ParsedQuery} {builder : Node} {query : ParsedQuery}
    (h : Stores builders c) (mem : builder ∈ builders) (parsed : builder.parseQuery = .ok query) :
    Stores builders (c.set builder.toSource query) := by
  intro key stored found
  rcases Cache.find?_of_set found with ⟨rfl, rfl⟩ | before
  · exact ⟨builder, mem, rfl, parsed⟩
  · exact h key stored before

/-- Builders that share their text denote the same query, as far as they denote one. -/
def TextDecides (builders : Set Node) : Prop :=
  ∀ first ∈ builders, ∀ second ∈ builders, first.toSource = second.toSource →
    ∀ query, first.parseQuery = .ok query → second.parseQuery = .ok query

/-- One call of a run: it yields what parsing yields, and stores nothing else. -/
theorem parse_step {builder : Node} {w : Workspace} (decides : TextDecides builders)
    (mem : builder ∈ builders) (stores : Stores builders w.cache) :
    ∃ w', Stores builders w'.cache ∧ parse builder true "" w =
      match builder.parseQuery with
      | .ok query => .ok query w'
      | .error e => .error e w' := by
  have kept := stores.get builder.toSource
  rw [parse_cached]
  rcases hget : w.cache.get builder.toSource with ⟨_ | query, cache⟩ <;> rw [hget] at kept
  · cases parsed : builder.parseQuery with
    | ok query => exact ⟨{ w with cache := cache.set builder.toSource query },
        kept.set mem parsed, rfl⟩
    | error e => exact ⟨{ w with cache }, kept, rfl⟩
  · have found : w.cache.entries.find? builder.toSource = some query :=
      Cache.find?_of_get (by rw [hget])
    obtain ⟨first, firstMem, sameText, parsed⟩ := stores _ _ found
    rw [decides first firstMem builder mem sameText query parsed]
    exact ⟨{ w with cache }, kept, rfl⟩

/-- A whole run yields what parsing yields. -/
theorem outcomes_cached (decides : TextDecides builders) {w : Workspace}
    (stores : Stores builders w.cache) {run : List Node} (mem : ∀ builder ∈ run, builder ∈ builders) :
    outcomes true w run = run.map Node.parseQuery := by
  induction run generalizing w with
  | nil => rfl
  | cons builder rest ih =>
    obtain ⟨w', stores', step⟩ := parse_step decides (mem builder (List.mem_cons_self ..)) stores
    have later := ih stores' fun b hb => mem b (List.mem_cons_of_mem _ hb)
    rw [outcomes, step, List.map_cons]
    cases builder.parseQuery with
    | ok query => exact congrArg _ later
    | error e => exact congrArg _ later

/-- The entry that is stored first is found by the next call under the same text. -/
theorem parse_hit {config : CacheConfig} (active : config.isActive = true) {first second : Node}
    {memos : List RowFilterMemo} {query : ParsedQuery} (sameText : first.toSource = second.toSource)
    (parsed : first.parseQuery = .ok query) :
    outcomes true { cache := { config }, memos } [first, second] = [.ok query, .ok query] := by
  have consistent := Cache.consistent_empty (α := ParsedQuery) config
  have missed : Cache.get { config } second.toSource =
      ((none : Option ParsedQuery), { config, stats := { misses := 1 } }) := by
    simp [Cache.get, active]
  rw [outcomes, parse_cached, sameText, parsed, missed]
  have hit := Cache.get_set (missed ▸ (Cache.get_spec consistent second.toSource).1)
    second.toSource query
  simp only [active, if_true] at hit
  simp only [outcomes, parse_cached]
  rcases hget : Cache.get _ second.toSource with ⟨found, cache⟩
  rw [hget] at hit
  cases hit
  rfl

/-- Parsing builders through an empty cache, in whatever order and number, gives each the outcome it
has without the cache, exactly if builders that share their text denote the same query. -/
theorem cached_parsing_transparent_iff {config : CacheConfig} (active : config.isActive = true)
    (memos : List RowFilterMemo) (builders : Set Node) :
    (∀ run : List Node, (∀ builder ∈ run, builder ∈ builders) →
      outcomes true { cache := { config }, memos } run =
        outcomes false { cache := { config }, memos } run) ↔
      TextDecides builders := by
  constructor
  · intro transparent first firstMem second secondMem sameText query parsed
    have same := transparent [first, second] (by simp [firstMem, secondMem])
    rw [parse_hit active sameText parsed, outcomes_uncached] at same
    simp only [List.map_cons, List.cons.injEq] at same
    exact same.2.1.symm
  · intro decides run mem
    rw [outcomes_uncached]
    exact outcomes_cached decides (stores_empty config) mem

/-- `(q) => q.from(table)` -/
def readTable (table : String) : Node :=
  .arrow ["q"] ((Node.identifier "q").invoke "from" [.literal (.str table)])

/-- Two builders with different texts cannot notice the cache. -/
theorem cached_parsing_transparent_iff_tables :
    CacheConfig.isActive {} = true ∧
      ∀ run : List Node, (∀ builder ∈ run, builder ∈ [readTable "users", readTable "orders"]) →
        outcomes true {} run = outcomes false {} run := by
  refine ⟨rfl, (cached_parsing_transparent_iff rfl []
    {builder | builder ∈ [readTable "users", readTable "orders"]}).2 ?_⟩
  have distinct : (readTable "users").toSource ≠ (readTable "orders").toSource := by
    decide +kernel
  intro first firstMem second secondMem sameText query parsed
  simp only [List.mem_cons, List.not_mem_nil, or_false, Set.mem_ofPred_eq] at firstMem secondMem
  rcases firstMem with rfl | rfl <;> rcases secondMem with rfl | rfl
  · exact parsed
  · exact absurd sameText distinct
  · exact absurd sameText.symm distinct
  · exact parsed

/-- `(q) => q.from("users").select((u) => ({ … }))` -/
def project (members : List Property) : Node :=
  .arrow ["q"] (((Node.identifier "q").invoke "from" [.literal (.str "users")]).invoke "select"
    [.arrow ["u"] (.object members)])

/-- `u.column` -/
def columnOfUser (column : String) : Node :=
  .member (.identifier "u") (.identifier column) false

/-- A projection with the members `a` and `b`. -/
def projectTwo : Node :=
  project [.named "a" (columnOfUser "x") false, .named "b" (columnOfUser "y") false]

/-- A projection with one member, whose name reads like the member `a` and the name of another. -/
def projectOne : Node :=
  project [.named "a: u.x, b" (columnOfUser "y") false]

/-- The projection with one member is answered with the query of the projection with two that was
parsed before it. -/
theorem cached_parsing_returns_other_query :
    Node.ofJson projectTwo.toJson = .ok projectTwo ∧ Node.ofJson projectOne.toJson = .ok projectOne ∧
      ∃ first second, outcomes true {} [projectTwo, projectOne] = [.ok first, .ok first] ∧
        outcomes false {} [projectTwo, projectOne] = [.ok first, .ok second] ∧
        first.operation = [.select (.object [("a", .column "x" "" none), ("b", .column "y" "" none)]),
          .fromSource "users" "" [] ""] ∧
        second.operation = [.select (.object [("a: u.x, b", .column "y" "" none)]),
          .fromSource "users" "" [] ""] := by
  have sameText : projectTwo.toSource = projectOne.toSource := by decide +kernel
  obtain ⟨first, hfirst, parsedFirst⟩ : ∃ first, projectTwo.parseQuery = .ok first ∧
      first.operation = [.select (.object [("a", .column "x" "" none), ("b", .column "y" "" none)]),
        .fromSource "users" "" [] ""] := ⟨_, rfl, rfl⟩
  obtain ⟨second, hsecond, parsedSecond⟩ : ∃ second, projectOne.parseQuery = .ok second ∧
      second.operation = [.select (.object [("a: u.x, b", .column "y" "" none)]),
        .fromSource "users" "" [] ""] := ⟨_, rfl, rfl⟩
  refine ⟨projectTwo.ofJson_toJson, projectOne.ofJson_toJson, first, second,
    parse_hit rfl sameText hfirst, ?_, parsedFirst, parsedSecond⟩
  rw [outcomes_uncached, List.map_cons, List.map_cons, hfirst, hsecond, List.map_nil]

end Session

end FluentQuery
