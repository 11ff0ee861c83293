import FluentQuery.Policy.RowFilter

/-!
# Applying row filters

Every base table a SELECT reads is replaced by a derived table of its permitted rows.  An UPDATE or
DELETE touches permitted rows only, and an UPDATE has to leave them permitted: its filter is also
checked with the assigned values in place of the columns.  Each filter is parsed once per operation,
so that all its uses share their parameters.
-/

namespace FluentQuery

set_option autoImplicit false

/-- The state of filtering one operation. -/
structure FilterState where
  memo : RowFilterMemo
  counter : Int
  /-- The filters found so far, by table and kind. -/
  resolved : Assoc (Option RowFilter) := []
  autoParams : Assoc Json := []
  contextKeys : NameSet := []
deriving Inhabited

/-- Work on the filters of one operation; parsed filters stay in the memo even if it fails. -/
abbrev Filtering := EStateM CompileError FilterState

/-- Adds parameters to others; a name that is already there is refused. -/
def mergeStrict (source : FilterParams) (base additions : Assoc Json) :
    Except PolicyFault (Assoc Json) :=
  match (Assoc.keys additions).find? (Assoc.contains base) with
  | some key => .error (.collision source key)
  | none => .ok (Assoc.merge base additions)

namespace Filtering

variable {α : Type}

/-- An outcome whose failure is reported at the given place. -/
def ofExcept (place : ErrorContext) (x : Except PolicyFault α) : Filtering α :=
  match x with
  | .ok a => pure a
  | .error fault => throw ⟨fault, place⟩

/-- The filter of a table parsed now, or taken from the memo if there is one. -/
def parsed (remembers : Bool) (declared : Node) (table : String) (kind : FilterKind) :
    Filtering RowFilter := do
  let s ← get
  let key := table ++ "|" ++ kind.name ++ "|" ++ toString s.counter
  match if remembers then s.memo.find? key else none with
  | some filter => return filter
  | none =>
    match RowFilter.parse declared table kind s.counter with
    | .error e => throw e
    | .ok filter =>
      if remembers then modify fun s => { s with memo := s.memo.insert key filter }
      return filter

/-- The filter of a table, if statements of this kind are filtered.  Every table has to be
declared. -/
def filterFor (filters : RowFilters) (schema table : String) (kind : FilterKind) :
    Filtering (Option RowFilter) := do
  match filters.find? schema table with
  | none =>
    let name := if schema.isEmpty then table else schema ++ "." ++ table
    throw ⟨PolicyFault.tableNotConfigured name, kind.place table⟩
  | some (key, config) =>
    let cacheKey := key ++ "|" ++ kind.name
    match (← get).resolved.find? cacheKey with
    | some found => return found
    | none =>
      match config.predicateFor kind with
      | none =>
        modify fun s => { s with resolved := s.resolved.insert cacheKey none }
        return none
      | some declared =>
        let filter ← parsed filters.remembers declared key kind
        modify fun s => { s with counter := filter.autoParamCounter }
        let autoParams ←
          ofExcept (kind.place key) (mergeStrict .auto (← get).autoParams filter.autoParams)
        modify fun s =>
          { s with
            autoParams
            contextKeys := NameSet.union s.contextKeys filter.contextKeys
            resolved := s.resolved.insert cacheKey (some filter) }
        return some filter

/-- The parameters that carry the used values of the context. -/
def contextParams (context : Json) (keys : NameSet) : Except PolicyFault (Assoc Json) := do
  let entries ← keys.mapM fun key =>
    match context.get? key with
    | some value => .ok (RowFilter.contextParam key, value)
    | none => .error (PolicyFault.contextKeyMissing key)
  return Assoc.ofList entries

/-- The given parameters with those of the filters added. -/
def finalParams (context params : Json) (place : ErrorContext) : Filtering Json := do
  let s ← get
  ofExcept place do
    let withAuto ← mergeStrict .auto params.members s.autoParams
    let additions ← contextParams context s.contextKeys
    return .obj (← mergeStrict .context withAuto additions)

/-- The permitted rows of a base table, as a derived table that keeps its name. -/
def permittedRows (table schema aliasHint : String) (filter : RowFilter) : Operation :=
  [.fromSource "" "" [.filter filter.predicate, .fromSource table schema [] ""]
    (if aliasHint.isEmpty then table else aliasHint)]

mutual

/-- Replaces the base tables an operation reads by their permitted rows. -/
def wrap (filters : RowFilters) : List Step → Filtering (List Step)
  | [] => return []
  | .fromSource table schema (step :: rest) aliasHint :: earlier => do
    let subquery ← wrap filters (step :: rest)
    return .fromSource table schema subquery aliasHint :: earlier
  | .fromSource table schema [] aliasHint :: earlier => do
    if table.isEmpty then return .fromSource table schema [] aliasHint :: earlier
    else
      match ← filterFor filters schema table .select with
      | none => return .fromSource table schema [] aliasHint :: earlier
      | some filter => return permittedRows table schema aliasHint filter
  | step :: earlier => do
    let step ← wrapNested filters step
    let earlier ← wrap filters earlier
    return step :: earlier

/-- Replaces the base tables of the operation nested in a step. -/
def wrapNested (filters : RowFilters) : Step → Filtering Step
  | .join kind inner keys selector shape => do
    let inner ← wrap filters inner
    return .join kind inner keys selector shape
  | .groupJoin inner keys selector shape outerName groupName => do
    let inner ← wrap filters inner
    return .groupJoin inner keys selector shape outerName groupName
  | .selectMany collection path selector shape usesDefault => do
    let collection ← wrap filters collection
    return .selectMany collection path selector shape usesDefault
  | step => return step

end

/-- The replacement of a column that is assigned to: its new value. -/
def substituteNode (assignments : Assoc Expr) : Expr → Except PolicyFault (Option Expr)
  | .column name table source =>
    if table.isEmpty && source.isNone then
      match assignments.find? name with
      | some value => if value.isValue then .ok (some value) else .error (.notSubstitutable name)
      | none => .ok none
    else .ok none
  | _ => .ok none

/-- A predicate about the row as it is after the assignments. -/
def substituteUpdated (assignments : Assoc Expr) (predicate : Expr) : Except PolicyFault Expr :=
  predicate.replaceM (substituteNode assignments)

/-- An UPDATE restricted to permitted rows that stay permitted. -/
def restrictUpdate (s : UpdateStatement) (params : Json) (filter : RowFilter) :
    Except PolicyFault UpdateStatement := do
  let check ←
    match s.assignments with
    | some assignments =>
      substituteUpdated (Assoc.ofList (Assignments.given params assignments)) filter.predicate
    | none => pure filter.predicate
  return { s with predicate := Expr.conj (Expr.conj s.predicate filter.predicate) check }

/-- A filtered operation. -/
def filtered (filters : RowFilters) (context : Json) (query : BoundQuery) :
    Filtering BoundQuery := do
  match query.operation with
  | .update s :: rest =>
    match ← filterFor filters s.schema s.table .update with
    | none => return query
    | some filter =>
      let place := FilterKind.update.place s.table
      let params ← finalParams context query.params place
      let s ← ofExcept place (restrictUpdate s params filter)
      return ⟨.update s :: rest, params⟩
  | .delete s :: rest =>
    match ← filterFor filters s.schema s.table .delete with
    | none => return query
    | some filter =>
      let params ← finalParams context query.params (FilterKind.delete.place s.table)
      return ⟨.delete { s with predicate := Expr.conj s.predicate filter.predicate } :: rest, params⟩
  | op =>
    let table := Operation.targetTable op
    let wrapped ← wrap filters op
    let params ← finalParams context query.params (FilterKind.select.place table)
    return ⟨wrapped, params⟩

end Filtering

/-- Which filters apply to an operation; an INSERT is not filtered. -/
def Operation.filterKind? : Operation → Option FilterKind
  | .insert _ :: _ => none
  | .update _ :: _ => some .update
  | .delete _ :: _ => some .delete
  | _ => some .select

/-- Applies the filters of a schema to a query.  The context has to be bound, and the state is the
memo of parsed filters. -/
def RowFilters.apply (filters : RowFilters) (query : BoundQuery) (counter : Int) :
    EStateM CompileError RowFilterMemo BoundQuery := do
  match query.operation.filterKind? with
  | none => return query
  | some kind =>
    match filters.context with
    | none =>
      throw ⟨PolicyFault.contextUnbound, kind.place (Operation.targetTable query.operation)⟩
    | some context => fun memo =>
      match Filtering.filtered filters context query { memo, counter } with
      | .ok result s => .ok result s.memo
      | .error e s => .error e s.memo

end FluentQuery
