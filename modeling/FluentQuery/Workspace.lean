import FluentQuery.Cache.Lru
import FluentQuery.Policy.Apply
import FluentQuery.Query

/-!
# The workspace of a compiler

What outlives a single query: the cache of parsed queries and the memos of parsed row filters, one
for each declaration of filters.
-/

namespace FluentQuery

set_option autoImplicit false

structure Workspace where
  cache : Cache ParsedQuery := {}
  memos : List RowFilterMemo := []
deriving Inhabited

/-- Work in a workspace; what it cached or remembered stays, even if it fails. -/
abbrev Session := EStateM CompileError Workspace

namespace Session

variable {α : Type}

/-- An outcome in a session. -/
def ofExcept (x : Except CompileError α) : Session α :=
  match x with
  | .ok a => pure a
  | .error e => throw e

/-- The query of a query-building function.  With `useCache` it is remembered under its source
text; if none is given, under the canonical text of the function. -/
def parse (builder : Node) (useCache : Bool) (sourceText : String) : Session ParsedQuery := do
  if useCache then
    let key := if sourceText.isEmpty then builder.toSource else sourceText
    let w ← get
    let (found, cache) := w.cache.get key
    set { w with cache }
    match found with
    | some query => return query
    | none =>
      let query ← ofExcept builder.parseQuery
      modify fun w => { w with cache := w.cache.set key query }
      return query
  else ofExcept builder.parseQuery

/-- A schema that declares the given filters, with a new memo. -/
def declareRowFilters (tables : Assoc TableFilters) : Session Schema := do
  let w ← get
  let schema ← ofExcept (Schema.withRowFilters tables w.memos.length)
  set { w with memos := w.memos ++ [[]] }
  return schema

/-- Work on the memo with the given number. -/
def withMemo (memo : Nat) (work : EStateM CompileError RowFilterMemo α) : Session α := fun w =>
  let store (m : RowFilterMemo) : Workspace := { w with memos := w.memos.set memo m }
  match work (w.memos.getD memo []) with
  | .ok a m => .ok a (store m)
  | .error e m => .error e (store m)

/-- How many parsed filters the memo of a schema holds, if it has one. -/
def memoSize (schema : Schema) : Session (Option Nat) := do
  match schema.rowFilters with
  | some filters =>
    if filters.remembers then return some ((← get).memos.getD filters.memo []).length
    else return none
  | none => return none

/-- Applies the filters of a schema to a query. -/
def applyRowFilters (schema : Schema) (query : BoundQuery) (counter : Int) :
    Session BoundQuery :=
  match schema.rowFilters with
  | some filters => withMemo filters.memo (filters.apply query counter)
  | none => return query

end Session

end FluentQuery
