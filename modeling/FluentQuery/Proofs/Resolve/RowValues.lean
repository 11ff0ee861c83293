import FluentQuery.Proofs.Data.Assoc
import FluentQuery.Proofs.Resolve.ClosedBodies
import FluentQuery.Proofs.Resolve.Rows

/-!
# Objects made of rows

A result selector such as `(u, o) => ({ user: u, total: o.total })` makes an object of rows and columns.
`Node.rowValue` is that object as the source language has it, as far as shapes keep it: a member that is
written out comes before a column of a row that is spread, but of a name that is written twice, and of
the columns of a joined row that is spread, nothing is said.  `Shape.Shows` says that a result shape
describes such an object, `Expr.Yields` that an expression does, and `Expr.yields_ofShapeNode` that a
shape may be turned back into the object it describes.
-/

namespace FluentQuery

set_option autoImplicit false

/-! ### Values -/

/-- What a name stands for, or an expression over such names yields, as far as it is made of columns. -/
inductive RowValue where
  | column (table : Int) (name : String)
  | row (table : Int)
  /-- The rows of a table that a group join keeps together. -/
  | collection (table : Int)
  /-- Named members, in the order they were written, and the tables of the rows that are spread. -/
  | object (members : List (String × RowValue)) (spread : List Int)
  /-- Anything else, and what nothing is said about. -/
  | other
deriving Inhabited

namespace RowValue

/-- The member that is written under a name.  Of a name that is written twice, and of the empty name,
which names no member of a shape, nothing is said. -/
def written : List (String × RowValue) → String → Option RowValue
  | [], _ => none
  | (name, value) :: rest, key =>
    if name = key then some (if key = "" || (written rest key).isSome then other else value)
    else written rest key

/-- A column of the row that is spread, if that is one row of the first table. -/
def spreadColumn (key : String) : List Int → RowValue
  | [0] => column 0 key
  | _ => other

/-- A member of a value: a member that is written comes before a column of a row that is spread. -/
def member : RowValue → String → RowValue
  | row table, key => column table key
  | object members spread, key => (written members key).getD (spreadColumn key spread)
  | _, _ => other

/-- What a path leads to. -/
def follow (value : RowValue) (path : List String) : RowValue :=
  path.foldl member value

/-- There is no column in a value that could be named. -/
def Blank : RowValue → Prop
  | collection _ | other => True
  | _ => False

@[simp] theorem follow_nil (value : RowValue) : value.follow [] = value := rfl

@[simp] theorem follow_cons (value : RowValue) (key : String) (path : List String) :
    value.follow (key :: path) = (value.member key).follow path := rfl

theorem follow_append (value : RowValue) (path rest : List String) :
    value.follow (path ++ rest) = (value.follow path).follow rest :=
  List.foldl_append

/-- Nothing is below a value without columns. -/
theorem Blank.member {value : RowValue} (blank : value.Blank) (key : String) :
    value.member key = other := by
  cases value with
  | collection | other => rfl
  | _ => exact blank.elim

theorem follow_other (path : List String) : other.follow path = other := by
  induction path with
  | nil => rfl
  | cons key path ih => exact ih

/-- Nothing is below a column. -/
theorem follow_column (table : Int) (name : String) {path : List String} (below : path ≠ []) :
    (column table name).follow path = other := by
  cases path with
  | nil => exact absurd rfl below
  | cons key path => exact follow_other path

/-- What is written in one of two lists of members is written; in both, nothing is said about it. -/
theorem written_append (members others : List (String × RowValue)) (key : String) :
    written (members ++ others) key =
      match written members key, written others key with
      | some _, some _ => some other
      | some value, none => some value
      | none, found => found := by
  induction members with
  | nil => cases h : written others key <;> simp [written, h]
  | cons m rest ih =>
    obtain ⟨name, value⟩ := m
    simp only [List.cons_append, written, ih]
    by_cases same : name = key
    · by_cases empty : key = "" <;> cases written rest key <;> cases written others key <;>
        simp [same, empty]
    · simp only [same, if_false]

theorem exists_written_append {members others : List (String × RowValue)} {key : String}
    (h : (∃ value, written members key = some value) ∨ ∃ value, written others key = some value) :
    ∃ value, written (members ++ others) key = some value := by
  rw [written_append]
  rcases h with ⟨value, found⟩ | ⟨value, found⟩
  · cases written others key <;> simp [found]
  · cases written members key <;> simp [found]

theorem written_append_cases {members others : List (String × RowValue)} {key : String}
    {value : RowValue} (h : written (members ++ others) key = some value) :
    value = other ∨ (written members key = some value ∧ written others key = none) ∨
      (written members key = none ∧ written others key = some value) := by
  rw [written_append] at h
  split at h
  · exact .inl (Option.some.inj h).symm
  · rename_i found missing
    exact .inr (.inl ⟨found.trans h, missing⟩)
  · exact .inr (.inr ⟨‹_›, h⟩)

/-- Of the empty name nothing is said. -/
theorem written_empty {members : List (String × RowValue)} {value : RowValue}
    (h : written members "" = some value) : value = other := by
  induction members with
  | nil => cases h
  | cons m rest ih =>
    obtain ⟨name, first⟩ := m
    unfold written at h
    split at h
    · exact (Option.some.inj h).symm
    · exact ih h

theorem written_singleton {key key' : String} {value found : RowValue}
    (h : written [(key, value)] key' = some found) : key' = key ∧ (found = value ∨ found = other) := by
  unfold written at h
  split at h
  · refine ⟨Eq.symm ‹_›, ?_⟩
    cases Option.some.inj h
    split
    · exact .inr rfl
    · exact .inl rfl
  · cases h

/-- A column of a row that is spread is one of the first table, or nothing is said about it. -/
theorem spreadColumn_cases (key : String) (spread : List Int) :
    spreadColumn key spread = column 0 key ∨ spreadColumn key spread = other := by
  unfold spreadColumn
  split
  · exact .inl rfl
  · exact .inr rfl

end RowValue

/-! ### Selectors -/

/-- The name in a member access, if it has one. -/
def Node.memberName? (property : Node) (computed : Bool) : Option String :=
  if computed then
    match property with
    | .literal (.str key) => some key
    | _ => none
  else some property.keyName

mutual

/-- What a node yields over names that stand for values. -/
def Node.rowValue (env : String → RowValue) : Node → RowValue
  | .identifier name => if name = "undefined" then .other else env name
  | .member receiver property computed =>
    match Node.memberName? property computed with
    | some key => (receiver.rowValue env).member key
    | none => .other
  | .object properties =>
    match Property.rowMembers env properties with
    | some (members, spread) => .object members spread
    | none => .other
  | _ => .other

/-- The members of an object and the tables of the rows that are spread into it; none if something else
is spread.  The members of an object that is spread are members of the whole. -/
def Property.rowMembers (env : String → RowValue) :
    List Property → Option (List (String × RowValue) × List Int)
  | [] => some ([], [])
  | .spread argument :: rest =>
    match argument.rowValue env, Property.rowMembers env rest with
    | .object members spread, some (others, tables) => some (members ++ others, spread ++ tables)
    | .row table, some (others, tables) => some (others, table :: tables)
    | _, _ => none
  | .named key value _ :: rest =>
    (Property.rowMembers env rest).map fun (others, tables) =>
      ((key, value.rowValue env) :: others, tables)

end

/-! ### Shapes of values -/

namespace Shape

/-- The tables of a statement with a number of tables. -/
def InRange (count table : Int) : Prop :=
  0 ≤ table ∧ table < count

/-- A node of a shape shows a value.  The fields of an object show members that are written; a member
without columns needs no field. -/
inductive Shows (count : Int) : Shape → RowValue → Prop where
  | column {table : Int} {name : String} (known : InRange count table) :
      Shows count (.column table name) (.column table name)
  | row {table : Int} (known : InRange count table) : Shows count (.reference table) (.row table)
  | collection {node : Shape} {table : Int}
      (reference : ∀ other, node = .reference other → other = table)
      (group : ∀ element, node = .array element →
        element = some (.reference table) ∧ InRange count table) :
      Shows count node (.collection table)
  | object {fields : ResultShape} {members : List (String × RowValue)} {spread : List Int}
      (known : ∀ key ∈ Assoc.keys fields, ∃ value, RowValue.written members key = some value)
      (shown : ∀ key node value, (key, node) ∈ fields → RowValue.written members key = some value →
        Shows count node value)
      (hidden : ∀ key value, RowValue.written members key = some value → key ∉ Assoc.keys fields →
        value.Blank) :
      Shows count (.object fields) (.object members spread)
  | other {node : Shape} : Shows count node .other

variable {count : Int} {node : Shape} {value : RowValue} {fields others : ResultShape}
  {members more : List (String × RowValue)} {spread : List Int}

/-- The fields of a shape show the members of an object. -/
structure Fields (count : Int) (fields : ResultShape) (members : List (String × RowValue)) : Prop where
  known : ∀ key ∈ Assoc.keys fields, ∃ value, RowValue.written members key = some value
  shown : ∀ key node value, (key, node) ∈ fields → RowValue.written members key = some value →
    node.Shows count value
  hidden : ∀ key value, RowValue.written members key = some value → key ∉ Assoc.keys fields →
    value.Blank

theorem Fields.shows (h : Fields count fields members) (spread : List Int) :
    (object fields).Shows count (.object members spread) :=
  .object h.known h.shown h.hidden

theorem Shows.toFields (h : (Shape.object fields).Shows count (.object members spread)) :
    Fields count fields members := by
  cases h with
  | object known shown hidden => exact ⟨known, shown, hidden⟩

/-- More tables do not change what a shape shows. -/
theorem Shows.mono {count' : Int} (le : count ≤ count') (h : node.Shows count value) :
    node.Shows count' value := by
  have wider {table : Int} (known : InRange count table) : InRange count' table :=
    ⟨known.1, Int.lt_of_lt_of_le known.2 le⟩
  induction h with
  | column known => exact .column (wider known)
  | row known => exact .row (wider known)
  | collection reference group =>
    exact .collection reference fun element same =>
      ⟨(group element same).1, wider (group element same).2⟩
  | object known shown hidden ih => exact .object known ih hidden
  | other => exact .other

theorem Fields.nil : Fields count [] [] :=
  ⟨nofun, nofun, nofun⟩

/-- Members may be put together: of a name that both have, nothing is said. -/
theorem Fields.append (h : Fields count fields members) (h' : Fields count others more) :
    Fields count (fields ++ others) (members ++ more) := by
  constructor
  · intro key mem
    rw [Assoc.keys, List.map_append, List.mem_append] at mem
    exact RowValue.exists_written_append (mem.imp (h.known key) (h'.known key))
  · intro key node value field written
    have absent {ms : List (String × RowValue)} {fs : ResultShape} (h : Fields count fs ms)
        (missing : RowValue.written ms key = none) : (key, node) ∉ fs := by
      intro field
      obtain ⟨value, found⟩ := h.known key (List.mem_map_of_mem field)
      cases found.symm.trans missing
    rcases RowValue.written_append_cases written with rfl | ⟨found, missing⟩ | ⟨missing, found⟩
    · exact .other
    · exact h.shown key node value ((List.mem_append.1 field).resolve_right (absent h' missing)) found
    · exact h'.shown key node value ((List.mem_append.1 field).resolve_left (absent h missing)) found
  · intro key value written missing
    rw [Assoc.keys, List.map_append, List.mem_append, not_or] at missing
    rcases RowValue.written_append_cases written with rfl | ⟨found, -⟩ | ⟨-, found⟩
    · trivial
    · exact h.hidden key value found missing.1
    · exact h'.hidden key value found missing.2

end Shape

/-! ### Expressions of values -/

namespace Expr

/-- A source is that of the columns of a table: it has the number of the table, or there is none, which
is as good as the number of the first table. -/
def Locates (source : Option ColumnSource) (table : Int) : Prop :=
  sourceIndex? source = some table ∨ (source = none ∧ table = 0)

theorem Locates.getD {source : Option ColumnSource} {table : Int} (h : Locates source table) :
    (sourceIndex? source).getD 0 = table := by
  rcases h with index | ⟨rfl, rfl⟩
  · rw [index, Option.getD_some]
  · rfl

/-- The shape of an expression shows a value; a column is that of its table, without a table name. -/
structure Yields (count : Int) (e : Expr) (value : RowValue) : Prop where
  shown : ∀ node, e.shapeNode = some node → node.Shows count value
  hidden : e.shapeNode = none → value.Blank
  named : ∀ table name, value = .column table name →
    ∃ source, e = .column name "" source ∧ Locates source table

theorem yields_other {count : Int} (e : Expr) : e.Yields count .other :=
  ⟨fun _ _ => .other, fun _ => trivial, nofun⟩

theorem yields_column {count table : Int} {source : Option ColumnSource} (name : String)
    (located : Locates source table) (known : Shape.InRange count table) :
    (column name "" source).Yields count (.column table name) := by
  refine ⟨?_, nofun, ?_⟩
  · rintro node ⟨⟩
    rw [located.getD]
    exact .column known
  · rintro _ _ ⟨⟩
    exact ⟨source, rfl, located⟩

theorem yields_row {count table : Int} {source : Option ColumnSource} {name : String}
    (index : (sourceIndex? source).getD 0 = table) (known : Shape.InRange count table) :
    (reference source name).Yields count (.row table) := by
  subst index
  refine ⟨?_, nofun, nofun⟩
  rintro node ⟨⟩
  exact .row known

theorem yields_collection {count table : Int} {e : Expr}
    (reference : ∀ source name, e = .reference source name → (sourceIndex? source).getD 0 = table) :
    e.Yields count (.collection table) := by
  refine ⟨fun node shape => ?_, fun _ => trivial, nofun⟩
  refine .collection (fun other same => ?_) fun element same => ?_
  · subst same
    cases e with
    | reference source name =>
      cases shape
      exact (reference source name rfl)
    | _ => cases shape
  · subst same
    cases e <;> cases shape

/-- An expression that yields a column of a table is that column. -/
theorem Yields.exists_column {count table : Int} {e : Expr} {name : String}
    (h : e.Yields count (.column table name)) :
    ∃ source, e = .column name "" source ∧ Locates source table ∧ Shape.InRange count table := by
  obtain ⟨source, rfl, located⟩ := h.named table name rfl
  have shown := h.shown _ rfl
  rw [located.getD] at shown
  cases shown with
  | column known => exact ⟨source, rfl, located, known⟩

/-- Only a whole row yields a row. -/
theorem Yields.exists_reference {count table : Int} {e : Expr} (h : e.Yields count (.row table)) :
    ∃ source name, e = .reference source name := by
  cases shape : e.shapeNode with
  | none => exact (h.hidden shape).elim
  | some node =>
    have shows := h.shown node shape
    cases shows with
    | row known =>
      cases e with
      | reference source name => exact ⟨source, name, rfl⟩
      | _ => cases shape

/-- Only an object yields an object. -/
theorem Yields.exists_object {count : Int} {e : Expr} {members : List (String × RowValue)}
    {spread : List Int} (h : e.Yields count (.object members spread)) :
    ∃ properties, e = .object properties ∧
      Shape.Fields count (shapeProperties properties) members := by
  cases shape : e.shapeNode with
  | none => exact (h.hidden shape).elim
  | some node =>
    have shows := h.shown node shape
    cases e with
    | object properties =>
      cases shape
      exact ⟨properties, rfl, shows.toFields⟩
    | column | reference =>
      cases shape
      cases shows
    | _ => cases shape

theorem yields_object {count : Int} {properties : List (String × Expr)}
    {members : List (String × RowValue)}
    (fields : Shape.Fields count (shapeProperties properties) members) (spread : List Int) :
    (object properties).Yields count (.object members spread) := by
  refine ⟨?_, nofun, nofun⟩
  rintro node ⟨⟩
  exact fields.shows spread

/-! ### Shapes turned back into expressions -/

theorem shapeProperties_eq (ms : List (String × Expr)) : shapeProperties ms =
    ms.filterMap fun m => if m.1 = "" then none else m.2.shapeNode.map fun node => (m.1, node) := by
  induction ms with
  | nil => rfl
  | cons m rest ih =>
    obtain ⟨key, e⟩ := m
    rw [shapeProperties, List.filterMap_cons, ih]
    by_cases empty : key = ""
    · cases e.shapeNode <;> simp [empty]
    · cases e.shapeNode <;> simp [empty]

theorem ofShape_eq (fields : ResultShape) : ofShape fields =
    fields.filterMap fun field => (ofShapeNode field.2).map fun e => (field.1, e) := by
  induction fields with
  | nil => rfl
  | cons field rest ih =>
    obtain ⟨key, node⟩ := field
    rw [ofShape, List.filterMap_cons, ih]
    cases ofShapeNode node <;> rfl

theorem mem_shapeProperties {ms : List (String × Expr)} {key : String} {node : Shape} :
    (key, node) ∈ shapeProperties ms ↔
      key ≠ "" ∧ ∃ e, (key, e) ∈ ms ∧ e.shapeNode = some node := by
  rw [shapeProperties_eq, List.mem_filterMap]
  constructor
  · rintro ⟨⟨key', e⟩, mem, found⟩
    split at found
    · cases found
    · obtain ⟨node', shape, same⟩ := Option.map_eq_some_iff.1 found
      cases same
      exact ⟨‹_›, e, mem, shape⟩
  · rintro ⟨named, e, mem, shape⟩
    refine ⟨(key, e), mem, ?_⟩
    rw [if_neg named, shape, Option.map_some]

theorem mem_ofShape {fields : ResultShape} {key : String} {e : Expr} :
    (key, e) ∈ ofShape fields ↔ ∃ node, (key, node) ∈ fields ∧ ofShapeNode node = some e := by
  rw [ofShape_eq, List.mem_filterMap]
  constructor
  · rintro ⟨⟨key', node⟩, mem, found⟩
    obtain ⟨e', back, same⟩ := Option.map_eq_some_iff.1 found
    cases same
    exact ⟨node, mem, back⟩
  · rintro ⟨node, mem, back⟩
    refine ⟨(key, node), mem, ?_⟩
    rw [back, Option.map_some]

theorem shapeProperties_append (ms others : List (String × Expr)) :
    shapeProperties (ms ++ others) = shapeProperties ms ++ shapeProperties others := by
  simp only [shapeProperties_eq, List.filterMap_append]

/-- A member that is written without a name leaves no field. -/
theorem shapeProperties_unnamed (e : Expr) : shapeProperties [("", e)] = [] := by
  rw [shapeProperties_eq]
  rfl

/-- One member of an object. -/
theorem Yields.fields {count : Int} {e : Expr} {value : RowValue} (h : e.Yields count value)
    (key : String) : Shape.Fields count (shapeProperties [(key, e)]) [(key, value)] := by
  have field {key' : String} {node : Shape} :
      (key', node) ∈ shapeProperties [(key, e)] ↔ key' ≠ "" ∧ key' = key ∧ e.shapeNode = some node := by
    rw [mem_shapeProperties]
    simp
  refine ⟨fun key' mem => ?_, fun key' node value' mem found => ?_, fun key' value' found missing => ?_⟩
  · obtain ⟨node, mem⟩ := Assoc.exists_mem_of_mem_keys mem
    obtain ⟨-, rfl, -⟩ := field.1 mem
    exact ⟨_, if_pos rfl⟩
  · obtain ⟨-, -, shape⟩ := field.1 mem
    rcases (RowValue.written_singleton found).2 with rfl | rfl
    · exact h.shown node shape
    · exact .other
  · obtain ⟨rfl, same⟩ := RowValue.written_singleton found
    rcases same with rfl | rfl
    · cases shape : e.shapeNode with
      | none => exact h.hidden shape
      | some node =>
        by_cases named : key' = ""
        · subst named
          exact RowValue.written_empty found ▸ trivial
        · exact absurd (Assoc.mem_keys_of_mem (field.2 ⟨named, rfl, shape⟩)) missing
    · trivial

/-- The expression that a node of a shape is turned into yields what the node shows. -/
theorem yields_ofShapeNode {count : Int} {node : Shape} {value : RowValue}
    (h : node.Shows count value) : ∀ e, ofShapeNode node = some e → e.Yields count value := by
  induction h with
  | column known =>
    rintro e ⟨⟩
    exact yields_column _ (.inl rfl) known
  | row known =>
    rintro e ⟨⟩
    exact yields_row rfl known
  | @collection node table reference group =>
    intro e back
    refine yields_collection fun source name same => ?_
    subst same
    cases node with
    | reference other =>
      cases back
      exact reference other rfl
    | _ => cases back
  | @object fields members spread known shown hidden ih =>
    rintro e ⟨⟩
    have back {key : String} {node : Shape} :
        (key, node) ∈ shapeProperties (ofShape fields) ↔ key ≠ "" ∧
          ∃ e, (∃ node', (key, node') ∈ fields ∧ ofShapeNode node' = some e) ∧
            e.shapeNode = some node := by
      simp only [mem_shapeProperties, mem_ofShape]
    refine yields_object ⟨fun key mem => ?_, ?_, ?_⟩ spread
    · obtain ⟨node, field⟩ := Assoc.exists_mem_of_mem_keys mem
      obtain ⟨-, e, ⟨node', field, -⟩, -⟩ := back.1 field
      exact known key (Assoc.mem_keys_of_mem field)
    · intro key node value field written
      obtain ⟨-, e, ⟨node', field', turned⟩, shape⟩ := back.1 field
      exact (ih key node' value field' written e turned).shown node shape
    · intro key value written missing
      by_cases field : key ∈ Assoc.keys fields
      · obtain ⟨node, field⟩ := Assoc.exists_mem_of_mem_keys field
        have shows := shown key node value field written
        -- A field that is lost on the way shows a collection, or nothing that is known.
        cases turned : ofShapeNode node with
        | none =>
          cases shows with
          | collection | other => trivial
          | column | row | object => cases turned
        | some e =>
          cases shape : e.shapeNode with
          | none => exact (ih key node value field written e turned).hidden shape
          | some node' =>
            by_cases named : key = ""
            · subst named
              exact RowValue.written_empty written ▸ trivial
            · have kept := back.2 ⟨named, e, ⟨node, field, turned⟩, shape⟩
              exact absurd (Assoc.mem_keys_of_mem kept) missing
      · exact hidden key value written field
  | other => exact fun e _ => yields_other e

end Expr

end FluentQuery
