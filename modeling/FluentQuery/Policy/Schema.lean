import FluentQuery.Ast.Node

/-!
# Row filter declarations

A schema may declare, for every table, which predicates its rows have to satisfy when they are
selected, updated or deleted.  The predicates may refer to a context that is bound later, such as the
organisation on whose behalf a query runs.
-/

namespace FluentQuery

set_option autoImplicit false

/-- The kinds of statement that rows are filtered for. -/
inductive FilterKind where
  | select
  | update
  | delete
deriving DecidableEq, Repr

namespace FilterKind

def name : FilterKind → String
  | select => "select"
  | update => "update"
  | delete => "delete"

/-- Where an error about the filter of a table is reported. -/
def place (kind : FilterKind) (table : String) : ErrorContext :=
  ⟨kind.name, table, "rowFilter"⟩

end FilterKind

/-- The filters of one table; a kind without a predicate is not filtered. -/
structure TableFilters where
  onSelect : Option Node := none
  onUpdate : Option Node := none
  onDelete : Option Node := none

namespace TableFilters

/-- One predicate for every kind of statement. -/
def uniform (predicate : Node) : TableFilters :=
  ⟨some predicate, some predicate, some predicate⟩

/-- No filtering at all. -/
def disabled : TableFilters :=
  {}

/-- The predicate for a kind of statement. -/
def predicateFor (filters : TableFilters) : FilterKind → Option Node
  | .select => filters.onSelect
  | .update => filters.onUpdate
  | .delete => filters.onDelete

end TableFilters

/-- The filters of a schema, the context bound to them, and the number of the memo in which their
parsed predicates are remembered, if they are. -/
structure RowFilters where
  tables : Assoc TableFilters
  context : Option Json := none
  memo : Nat
  remembers : Bool := true

namespace RowFilters

/-- The configuration of a table and the name it was declared under: the qualified name is looked
for first. -/
def find? (filters : RowFilters) (schema table : String) : Option (String × TableFilters) :=
  let entry (key : String) : Option (String × TableFilters) :=
    (filters.tables.find? key).map fun config => (key, config)
  if schema.isEmpty then entry table else (entry (schema ++ "." ++ table)).or (entry table)

end RowFilters

/-- What is known about the database. -/
structure Schema where
  rowFilters : Option RowFilters := none
deriving Inhabited

namespace Schema

def hasRowFilters (s : Schema) : Bool :=
  s.rowFilters.isSome

def hasContext (s : Schema) : Bool :=
  match s.rowFilters with
  | some filters => filters.context.isSome
  | none => false

/-- The first declared predicate that is no lambda: its table and kind. -/
def malformedFilter? (tables : Assoc TableFilters) : Option (String × FilterKind) :=
  tables.findSome? fun (table, config) =>
    [FilterKind.select, .update, .delete].findSome? fun kind =>
      match config.predicateFor kind with
      | none => none
      | some (.arrow _ _) => none
      | some _ => some (table, kind)

/-- A schema with the given filters and no context; parsed predicates go to the given memo. -/
def withRowFilters (tables : Assoc TableFilters) (memo : Nat) : Except CompileError Schema :=
  match malformedFilter? tables with
  | some (table, kind) =>
    .error ⟨PolicyFault.filterNotLambda table kind.name, ⟨kind.name, table, "withRowFilters"⟩⟩
  | none => .ok ⟨some { tables, memo }⟩

/-- The schema with a context bound to its filters. -/
def withContext (s : Schema) (context : Json) : Except CompileError Schema :=
  let place : ErrorContext := { method := "withContext" }
  match s.rowFilters with
  | none => .error ⟨PolicyFault.contextWithoutFilters, place⟩
  | some filters =>
    if context.isObject then .ok ⟨some { filters with context := some context }⟩
    else .error ⟨PolicyFault.contextNotObject, place⟩

end Schema

end FluentQuery
