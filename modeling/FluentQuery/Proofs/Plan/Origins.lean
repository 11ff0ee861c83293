import FluentQuery.Plan.Handle
import FluentQuery.Proofs.Cache.Transparency
import FluentQuery.Proofs.Plan.Conditions

/-!
# Where queries come from

A cache is filled by parsing only, so a query that is found in it was parsed from some query-building
function, whatever was parsed, configured or emptied before.  A handle is therefore that of a parsed
query even if it was found in the cache (`Handle.origin_of_define`).
-/

namespace FluentQuery

set_option autoImplicit false

/-- A workspace that queries were parsed in and whose cache was configured and emptied, in any order. -/
inductive Workspace.Arises : Workspace → Prop
  | new : Arises {}
  | parsed {w w' : Workspace} {builder : Node} {useCache : Bool} {sourceText : String}
      {query : ParsedQuery} (before : Arises w)
      (run : Session.parse builder useCache sourceText w = .ok query w') : Arises w'
  | refused {w w' : Workspace} {builder : Node} {useCache : Bool} {sourceText : String}
      {e : CompileError} (before : Arises w)
      (run : Session.parse builder useCache sourceText w = .error e w') : Arises w'
  | configured {w : Workspace} (config : CacheConfig) (before : Arises w) :
      Arises { w with cache := w.cache.setConfig config }
  | cleared {w : Workspace} (before : Arises w) : Arises { w with cache := w.cache.clear }
  | recounted {w : Workspace} (before : Arises w) : Arises { w with cache := w.cache.resetStats }
  | remembered {w : Workspace} (memos : List RowFilterMemo) (before : Arises w) :
      Arises { w with memos }

/-- Every query in a cache was parsed from a query-building function. -/
def Cache.HoldsParsed (c : Cache ParsedQuery) : Prop :=
  ∀ key query, c.entries.find? key = some query →
    ∃ builder : Node, builder.parseQuery = .ok query

namespace Cache.HoldsParsed

variable {c : Cache ParsedQuery}

theorem get (holds : c.HoldsParsed) (key : String) : (c.get key).2.HoldsParsed := by
  intro other query found
  rw [entries_get] at found
  exact holds other query found

theorem set (holds : c.HoldsParsed) {builder : Node} {query : ParsedQuery}
    (parsed : builder.parseQuery = .ok query) (key : String) : (c.set key query).HoldsParsed := by
  intro other found h
  obtain ⟨-, rfl⟩ | before := find?_of_set h
  · exact ⟨builder, parsed⟩
  · exact holds other found before

theorem setConfig (holds : c.HoldsParsed) (config : CacheConfig) :
    (c.setConfig config).HoldsParsed := by
  intro key query found
  unfold Cache.setConfig at found
  dsimp only at found
  split at found
  · have kept : (dropOldest { c with config } c.recency.reverse).entries.find? key = some query :=
      found
    have before := find?_of_dropOldest kept
    exact holds key query before
  · cases found

end Cache.HoldsParsed

namespace Session

variable {builder : Node} {useCache : Bool} {sourceText : String} {w w' : Workspace}

/-- A builder that succeeds or not. -/
theorem ensures_ofExcept {α : Type} {x : Except CompileError α} {post : α → Workspace → Prop}
    {failed : Workspace → Prop} (ok : ∀ a, x = .ok a → post a w) (error : failed w) :
    Ensures (ofExcept x) w post failed := by
  cases x with
  | ok a => exact ok a rfl
  | error e => exact error

/-- A query is parsed from a builder: without the cache, from the given one. -/
theorem ensures_parse (builder : Node) (useCache : Bool) (sourceText : String)
    (holds : w.cache.HoldsParsed) :
    Ensures (parse builder useCache sourceText) w
      (fun query w' => w'.cache.HoldsParsed ∧
        ∃ origin : Node, origin.parseQuery = .ok query ∧ (useCache = false → origin = builder))
      (fun w' => w'.cache.HoldsParsed) := by
  cases useCache with
  | false => exact ensures_ofExcept (fun query parsed => ⟨holds, builder, parsed, fun _ => rfl⟩) holds
  | true =>
    unfold parse
    rw [if_pos rfl]
    refine .get ?_
    generalize (if sourceText.isEmpty = true then builder.toSource else sourceText) = key
    have looked := holds.get key
    cases found : w.cache.get key with
    | mk answer cache =>
      rw [found] at looked
      cases answer with
      | some query =>
        obtain ⟨origin, parsed⟩ := holds key query (Cache.find?_of_get (by rw [found]))
        exact .set (.pure ⟨looked, origin, parsed, nofun⟩)
      | none =>
        have stored : Ensures (ofExcept builder.parseQuery) { w with cache }
            (fun query w' => w'.cache.HoldsParsed ∧ builder.parseQuery = .ok query)
            (fun w' => w'.cache.HoldsParsed) :=
          ensures_ofExcept (fun query parsed => ⟨looked, parsed⟩) looked
        refine .set (stored.bind ?_)
        rintro query w' ⟨looked, parsed⟩
        exact .modify (.pure ⟨looked.set parsed key, builder, parsed, nofun⟩)

end Session

theorem Workspace.Arises.holdsParsed {w : Workspace} (arises : w.Arises) :
    w.cache.HoldsParsed := by
  induction arises with
  | new => nofun
  | parsed _ run ih => exact ((Session.ensures_parse _ _ _ ih).of_ok run).1
  | refused _ run ih => exact (Session.ensures_parse _ _ _ ih).of_error run
  | configured config _ ih => exact ih.setConfig config
  | cleared => nofun
  | recounted _ ih => exact ih
  | remembered _ _ ih => exact ih

namespace Handle

/-- A handle is that of a parsed query: without the cache, of the one that the builder denotes. -/
theorem origin_of_define {w w' : Workspace} (arises : w.Arises) {definition : Definition}
    {schema : Schema} {builder : Node} {useCache : Bool} {sourceText : String} {h : Handle}
    (defined : define definition schema builder useCache sourceText w = .ok h w') :
    ∃ origin query, origin.parseQuery = .ok query ∧ (useCache = false → origin = builder) ∧
      ofQuery definition schema query = .ok h := by
  obtain ⟨query, w₁, found, finished⟩ := bind_eq_ok.1 defined
  obtain ⟨-, origin, parsed, same⟩ :=
    (Session.ensures_parse builder useCache sourceText arises.holdsParsed).of_ok found
  exact ⟨origin, query, parsed, same, (Session.ofExcept_eq_ok finished).1⟩

end Handle

end FluentQuery
