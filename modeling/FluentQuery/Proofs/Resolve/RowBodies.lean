import FluentQuery.Proofs.Resolve.RowValues

/-!
# Bodies of selectors

What a name stands for is found again in the expressions that are resolved with it: a path from a row
leads to the column that it leads to in the row's value (`Scope.finds_access`), and the expression of a
body has a shape that shows what the body yields (`Node.yields_resolve`).
-/

namespace FluentQuery

set_option autoImplicit false

variable {count : Int} {b : Bindings} {s s' : Scope} {name other : String} {value : RowValue}

/-! ### Paths through shapes -/

/-- What is found is the expression of a value, and it is found if there is a column to be named. -/
structure Finds (count : Int) (found : Except ExprFault Expr) (value : RowValue) : Prop where
  yields : ∀ e, found = .ok e → e.Yields count value
  succeeds : ¬ value.Blank → ∃ e, found = .ok e

namespace Finds

theorem ok {e : Expr} (h : e.Yields count value) : Finds count (.ok e) value := by
  refine ⟨?_, fun _ => ⟨e, rfl⟩⟩
  rintro _ ⟨⟩
  exact h

theorem error {fault : ExprFault} (blank : value.Blank) : Finds count (.error fault) value :=
  ⟨nofun, fun filled => absurd blank filled⟩

/-- Of a path without a value nothing is said. -/
theorem beyond {found : Except ExprFault Expr} (path : List String) :
    Finds count found (RowValue.other.follow path) := by
  rw [RowValue.follow_other]
  exact ⟨fun e _ => e.yields_other, fun filled => absurd trivial filled⟩

/-- A value without columns may be taken for a column. -/
theorem blank {column table : String} {source : Option ColumnSource} (blank : value.Blank)
    (path : List String) : Finds count (.ok (.column column table source)) (value.follow path) := by
  cases path with
  | nil =>
    cases value with
    | collection => exact .ok (Expr.yields_collection nofun)
    | other => exact beyond []
    | column | row | object => exact blank.elim
  | cons key path =>
    rw [RowValue.follow_cons, blank.member]
    exact beyond path

end Finds

theorem Shape.lookup_eq_find? (fields : ResultShape) (key : String) :
    lookup fields key = Assoc.find? fields key := by
  induction fields with
  | nil => rfl
  | cons field rest ih => rw [lookup, Assoc.find?, ih]

namespace Scope

theorem getLastD_concat (before : List String) (key : String) :
    (before ++ [key]).getLastD "" = key := by
  simp

/-- The end of a path below a row is a column of it, and there is nothing below a column. -/
theorem finds_column {table : Int} {source : Option ColumnSource}
    (located : Expr.Locates source table) (known : Shape.InRange count table)
    (before : List String) (key : String) (rest : List String) :
    Finds count (.ok (.column ((before ++ key :: rest).getLastD "") "" source))
      ((RowValue.column table key).follow rest) := by
  cases rest with
  | nil =>
    rw [getLastD_concat, RowValue.follow_nil]
    exact .ok (Expr.yields_column key located known)
  | cons next rest =>
    rw [RowValue.follow_column table key (List.cons_ne_nil _ _)]
    exact .ok (Expr.yields_other _)

/-- A path through a shape leads to what it leads to in the value that the shape shows. -/
theorem finds_shapePath (positive : 0 < count) {node : Shape} (shows : node.Shows count value)
    (before walked rest : List String) :
    Finds count (shapePath (before ++ rest) (some node) walked rest) (value.follow rest) := by
  induction rest generalizing node value before walked with
  | nil =>
    rw [RowValue.follow_nil]
    cases written : Expr.ofShapeNode node with
    | some e =>
      have path : shapePath (before ++ []) (some node) walked [] = .ok e := by
        cases node <;> simp [shapePath, written]
      rw [path]
      exact .ok (Expr.yields_ofShapeNode shows _ written)
    | none =>
      have path : shapePath (before ++ []) (some node) walked [] =
          .error (.unflattenedCollection (Text.dotted (before ++ []))) := by
        cases node <;> simp [shapePath, written]
      rw [path]
      refine .error ?_
      cases shows with
      | collection | other => trivial
      | column | row | object => cases written
  | cons key rest ih =>
    rw [RowValue.follow_cons]
    cases shows with
    | row known => exact finds_column (.inl rfl) known before key rest
    | column | collection | other => exact .beyond rest
    | @object fields members spread known shown hidden =>
      have onPath : before ++ key :: rest = (before ++ [key]) ++ rest := by simp
      rw [RowValue.member]
      unfold shapePath
      rw [Shape.lookup_eq_find?]
      cases field : Assoc.find? fields key with
      | some node =>
        have mem := Assoc.mem_of_find? field
        obtain ⟨value, written⟩ := known key (Assoc.mem_keys_of_mem mem)
        rw [written, Option.getD_some, onPath]
        exact ih (shown key node value mem written) _ _
      | none =>
        -- What the shape does not know is a member without columns, or a column of the first table.
        have missing : key ∉ Assoc.keys fields := Assoc.find?_eq_none_iff.1 field
        rw [shapePath]
        cases written : RowValue.written members key with
        | some value => exact .blank (hidden key value written missing) rest
        | none =>
          rw [Option.getD_none]
          rcases RowValue.spreadColumn_cases key spread with column | other
          · rw [column]
            have known : Shape.InRange count 0 := ⟨Int.le_refl 0, positive⟩
            exact finds_column (.inr ⟨rfl, rfl⟩) known before key rest
          · rw [other]
            exact .beyond rest

end Scope

/-! ### Names -/

namespace Bindings

/-- A name stands for a row with a value, and it does so first: where it is looked up, nothing comes
before.  Of a name with the value `other` nothing is said. -/
inductive Stands (count : Int) (b : Bindings) (name : String) : RowValue → Prop where
  | joined {table : Int} (row : b.TableRow name table) (apart : b.tables.contains name = false)
      (known : Shape.InRange count table) : Stands count b name (.row table)
  /-- The rows of a joined table that are kept together. -/
  | group {table : Int} (row : b.TableRow name table) (apart : b.tables.contains name = false) :
      Stands count b name (.collection table)
  | shaped {shape : ResultShape} {value : RowValue} (row : b.ShapeRow name shape)
      (apart : b.tables.contains name = false) (unjoined : b.joins.find? name = none)
      (shows : (Shape.object shape).Shows count value) : Stands count b name value
  /-- The row of the FROM table. -/
  | first (row : b.Row name) (found : b.tables.contains name = true)
      (unjoined : b.joins.find? name = none) (unshaped : b.shape = none) : Stands count b name (.row 0)
  | unknown : Stands count b name .other

/-- What a name stands for is left as it was. -/
structure Leaves (name : String) (b b' : Bindings) : Prop where
  row : b.Row name → b'.Row name
  tables : b'.tables.contains name = b.tables.contains name
  joins : b'.joins.find? name = b.joins.find? name
  joinResult : b.joinResult = name → b'.joinResult = name
  unshaped : b'.joinResult = name → b.joinResult = name ∨ name = ""
  shape : b'.shape = b.shape

theorem leaves_bindJoin (b : Bindings) (ne : other ≠ name) (index : Int) :
    Leaves name b (b.bindJoin other index) := by
  constructor
  · exact fun row => ⟨row.proposed, contains_erase row.grouping _, contains_erase row.param _⟩
  · exact NameSet.contains_erase_of_ne _ ne.symm
  · exact Assoc.find?_insert_of_ne _ _ ne
  · intro same
    simp only [bindJoin, same]
    exact if_neg ne.symm
  · intro same
    simp only [bindJoin] at same
    split at same
    · exact .inr same.symm
    · exact .inl same
  · rfl

theorem leaves_bindParam (b : Bindings) (ne : other ≠ name) : Leaves name b (b.bindParam other) := by
  constructor
  · refine fun row => ⟨row.proposed, row.grouping, ?_⟩
    have missing := row.param
    rw [← Bool.not_eq_true, List.contains_iff_mem] at missing ⊢
    simpa [bindParam, ne.symm] using missing
  · exact NameSet.contains_erase_of_ne _ ne.symm
  · exact Assoc.find?_erase_of_ne _ ne
  · exact id
  · exact .inl
  · rfl

theorem Stands.leave {b' : Bindings} (leaves : Leaves name b b') (h : b.Stands count name value) :
    b'.Stands count name value := by
  have tableRow {table : Int} (row : b.TableRow name table) : b'.TableRow name table :=
    ⟨leaves.row row.toRow, leaves.joins.trans row.found, fun same =>
      (leaves.unshaped same).elim row.unshaped id⟩
  cases h with
  | joined row apart known => exact .joined (tableRow row) (leaves.tables.trans apart) known
  | group row apart => exact .group (tableRow row) (leaves.tables.trans apart)
  | shaped row apart unjoined shows =>
    have shapeRow : b'.ShapeRow name _ :=
      ⟨leaves.row row.toRow, row.named, leaves.joinResult row.joinResult,
        leaves.shape.trans row.shape⟩
    exact .shaped shapeRow (leaves.tables.trans apart) (leaves.joins.trans unjoined) shows
  | first row found unjoined unshaped =>
    exact .first (leaves.row row) (leaves.tables.trans found) (leaves.joins.trans unjoined)
      (leaves.shape.trans unshaped)
  | unknown => exact .unknown

end Bindings

namespace Scope

/-- A row of the FROM table: a column of it is not qualified. -/
theorem access_first (row : s.bindings.Row name) (found : s.bindings.tables.contains name = true)
    (unjoined : s.bindings.joins.find? name = none) (unshaped : s.bindings.shape = none)
    (first : String) (rest : List String) :
    s.access name (first :: rest) none = .ok (.expr (rowColumn (first :: rest))) := by
  have bound : s.bindings.binds name = true := by
    simp only [Bindings.binds, found, Bool.true_or]
  have noShape (c : Prop) [Decidable c] : (if c then s.bindings.shape else none) = none := by
    rw [unshaped, ite_self]
  unfold access
  simp only [row.notProposed, row.grouping, row.param, bound, noShape, unjoined, found,
    Option.isSome_none, Bool.false_and, Bool.not_true, Bool.and_false, Bool.false_eq_true, if_false,
    Bool.true_or, if_true]

/-- A path from a name leads to what it leads to in the value that the name stands for. -/
theorem finds_access (positive : 0 < count) (stands : s.bindings.Stands count name value)
    (first : String) (rest : List String) : ∃ found,
      (value ≠ .other → s.access name (first :: rest) none = .expr <$> found) ∧
      Finds count found (value.follow (first :: rest)) := by
  have joined {table : Int} (row : s.bindings.TableRow name table) :
      s.access name (first :: rest) none = .expr <$>
        .ok (.column ((first :: rest).getLastD "") "" (some (.joinParam table))) :=
    access_joined row first rest
  cases stands with
  | joined row apart known =>
    exact ⟨_, fun _ => joined row, finds_column (.inl rfl) known [] first rest⟩
  | group row => exact ⟨_, fun _ => joined row, .beyond rest⟩
  | shaped row apart unjoined shows =>
    exact ⟨_, fun _ => access_shaped row first rest,
      finds_shapePath positive shows [] [] (first :: rest)⟩
  | first row found unjoined unshaped =>
    refine ⟨.ok (rowColumn (first :: rest)), fun _ =>
      access_first row found unjoined unshaped first rest,
      ?_⟩
    have known : Shape.InRange count 0 := ⟨Int.le_refl 0, positive⟩
    cases rest with
    | nil => exact finds_column (.inr ⟨rfl, rfl⟩) known [] first []
    | cons next rest => exact .beyond rest
  | unknown => exact ⟨.ok .absent, absurd rfl, .beyond rest⟩

/-- An identifier is the expression of the value that its name stands for. -/
theorem yields_identifier (positive : 0 < count) (stands : s.bindings.Stands count name value)
    {e : Expr} (found : s.identifier name = .ok e) (defined : name ≠ "undefined") :
    e.Yields count value := by
  unfold identifier at found
  rw [if_neg defined] at found
  cases stands with
  | joined row apart known =>
    rw [apart, row.found] at found
    cases found
    exact Expr.yields_row rfl known
  | group row apart =>
    rw [apart, row.found] at found
    cases found
    refine Expr.yields_collection ?_
    rintro _ _ ⟨⟩
    rfl
  | shaped row apart unjoined shows =>
    have shaped :
        (!s.bindings.joinResult.isEmpty && decide (name = s.bindings.joinResult)) = true := by
      simp [row.joinResult, row.named]
    rw [apart, unjoined] at found
    simp only [shaped, row.shape] at found
    cases found
    exact Expr.yields_ofShapeNode shows _ rfl
  | first row inTables unjoined unshaped =>
    have known : Shape.InRange count 0 := ⟨Int.le_refl 0, positive⟩
    rw [inTables] at found
    cases found
    exact Expr.yields_row rfl known
  | unknown => exact e.yields_other

end Scope

/-! ### Bodies -/

/-- A chain of member accesses by names yields what its path leads to from the root.  An access by an
index, which comes last, yields nothing that is known. -/
structure Node.Follows (env : String → RowValue) (node : Node) (path : List String)
    (index : Option Int) (found : Node × List String × Option Int) : Prop where
  last : index ≠ none → found.2.2 = index
  named : found.2.2 = index → ∃ own, found.2.1 = own ++ path ∧
    node.rowValue env = (found.1.rowValue env).follow own
  indexed : found.2.2 ≠ index → node.rowValue env = .other

theorem Node.follows_memberPath (env : String → RowValue) {path : List String} {index : Option Int}
    {node : Node} {found : Node × List String × Option Int}
    (run : node.memberPath path index = .ok found) : node.Follows env path index found := by
  have byName {receiver property : Node} {computed : Bool} {key : String} {path : List String}
      {index : Option Int} (name : property.memberName? computed = some key)
      (ih : receiver.Follows env (key :: path) index found) :
      (Node.member receiver property computed).Follows env path index found := by
    refine ⟨ih.last, fun same => ?_, fun differs => ?_⟩
    · obtain ⟨own, onPath, yields⟩ := ih.named same
      refine ⟨own ++ [key], by rw [onPath, List.append_assoc]; rfl, ?_⟩
      rw [rowValue, name, RowValue.follow_append, ← yields]
      rfl
    · rw [rowValue, name, ih.indexed differs]
      rfl
  fun_induction memberPath path index node with
  | case1 path index receiver key ih => exact byName rfl (ih run)
  | case2 path index receiver n outermost ih =>
    have none : index = none := by
      simp only [Bool.and_eq_true, Option.isNone_iff_eq_none] at outermost
      exact outermost.1
    have last := (ih run).last (Option.some_ne_none _)
    subst none
    exact ⟨absurd rfl, fun same => (nomatch last.symm.trans same), fun _ => rfl⟩
  | case6 path index receiver property ih => exact byName rfl (ih run)
  | case7 =>
    cases run
    exact ⟨fun _ => rfl, fun _ => ⟨[], rfl, rfl⟩, absurd rfl⟩
  | _ => cases run

/-- What an identifier yields is what its name stands for, or is not known. -/
theorem Node.rowValue_identifier {env : String → RowValue}
    (known : (Node.identifier name).rowValue env ≠ .other) :
    (Node.identifier name).rowValue env = env name ∧ env name ≠ .other ∧ name ≠ "undefined" := by
  rw [rowValue] at known ⊢
  split
  · exact absurd (if_pos ‹_›) known
  · rw [if_neg ‹_›] at known
    exact ⟨rfl, known, ‹_›⟩

theorem Resolve.ofExcept_eq_ok {α : Type} {x : Except ExprFault α} {a : α} :
    Resolve.ofExcept x s = .ok a s' ↔ x = .ok a ∧ s' = s := by
  cases x with
  | ok a' =>
    constructor
    · rintro ⟨⟩
      exact ⟨rfl, rfl⟩
    · rintro ⟨⟨⟩, rfl⟩
      rfl
  | error fault => exact ⟨nofun, nofun⟩

section

variable {env : String → RowValue} (positive : 0 < count)
  (stands : ∀ name, s.bindings.Stands count name (env name))

include stands

/-- An object is not a row of a table, so its members are spread. -/
theorem Scope.spreadRow?_object {argument : Node} {members : List (String × RowValue)}
    {tables : List Int} (object : argument.rowValue env = .object members tables) :
    s.spreadRow? argument = none := by
  cases argument with
  | identifier name =>
    obtain ⟨named, -, -⟩ := Node.rowValue_identifier (by rw [object]; nofun)
    have stands := stands name
    rw [← named, object] at stands
    cases stands with
    | shaped row apart unjoined shows =>
      rw [spreadRow?, apart, unjoined]
      rfl
  | _ => rfl

/-- A row that is spread leaves no field, an object leaves the fields that show its members. -/
theorem Resolve.fields_spread {argument : Node} {work : Resolve Expr} {ms : List (String × Expr)}
    (yields : ∀ e t, work s = .ok e t → e.Yields count (argument.rowValue env))
    (run : Resolve.spread argument work s = .ok ms s') :
    (∀ table, argument.rowValue env = .row table → Expr.shapeProperties ms = []) ∧
      ∀ members tables, argument.rowValue env = .object members tables →
        Shape.Fields count (Expr.shapeProperties ms) members := by
  have unnamed := Expr.shapeProperties_unnamed
  obtain ⟨_, _, ⟨⟩, rest⟩ := bind_eq_ok.1 run
  cases row : s.spreadRow? argument with
  | some e =>
    rw [row] at rest
    cases rest
    refine ⟨fun _ _ => unnamed e, fun members tables object => ?_⟩
    cases row.symm.trans (Scope.spreadRow?_object stands object)
  | none =>
    rw [row] at rest
    obtain ⟨e, t, resolved, rest⟩ := bind_eq_ok.1 rest
    have yields := yields e t resolved
    constructor
    · intro table value
      rw [value] at yields
      obtain ⟨source, name, rfl⟩ := yields.exists_reference
      cases index : Expr.sourceIndex? source with
      | some table' =>
        simp only [spreadValue, index] at rest
        cases rest
        exact unnamed _
      | none =>
        simp only [spreadValue, index] at rest
        cases rest
        exact unnamed _
    · intro members tables value
      rw [value] at yields
      obtain ⟨properties, rfl, fields⟩ := yields.exists_object
      cases rest
      exact fields

include positive

theorem Resolve.yields_member {node : Node} {e : Expr} (run : Resolve.member node s = .ok e s') :
    e.Yields count (node.rowValue env) := by
  obtain ⟨⟨root, path, index⟩, t, found, rest⟩ := bind_eq_ok.1 run
  obtain ⟨onPath, rfl⟩ := ofExcept_eq_ok.1 found
  have follows := Node.follows_memberPath env onPath
  by_cases unindexed : index = none
  · obtain ⟨own, hown, yields⟩ := follows.named unindexed
    subst unindexed
    rw [yields]
    simp only [List.append_nil] at hown
    subst hown
    cases root with
    | identifier name =>
      obtain ⟨_, _, ⟨⟩, rest⟩ := bind_eq_ok.1 rest
      obtain ⟨access, t, leads, rest⟩ := bind_eq_ok.1 rest
      obtain ⟨leads, rfl⟩ := ofExcept_eq_ok.1 leads
      cases path with
      | nil => cases leads
      | cons first path =>
        by_cases known : (Node.identifier name).rowValue env = .other
        · rw [known]
          exact (Finds.beyond (first :: path)).yields e rfl
        · obtain ⟨named, known, -⟩ := Node.rowValue_identifier known
          obtain ⟨found, same, finds⟩ := Scope.finds_access positive (stands name) first path
          rw [same known, outcome_map_eq_ok] at leads
          obtain ⟨e', hit, rfl⟩ := leads
          cases rest
          rw [named]
          exact finds.yields e hit
    | _ => cases rest
  · rw [follows.indexed unindexed]
    exact e.yields_other

end

/-- A path of names from a row resolves to the column that it leads to. -/
theorem Node.resolve_path (positive : 0 < count) (stands : s.bindings.Stands count name value)
    {node : Node} {path : List String}
    (onPath : node.memberPath [] none = .ok (.identifier name, path, none))
    {table : Int} {column : String} (leads : value.follow path = .column table column)
    (isPredicate : Bool) :
    ∃ source, node.resolve isPredicate s = .ok (.column column "" source) s ∧
      Expr.Locates source table ∧ Shape.InRange count table := by
  cases path with
  | nil =>
    -- A name alone stands for a row, not for a column.
    rw [RowValue.follow_nil] at leads
    subst leads
    cases stands with
    | shaped _ _ _ shows => cases shows
  | cons first rest =>
    have known : value ≠ .other := by
      rintro rfl
      cases (RowValue.follow_other (first :: rest)).symm.trans leads
    obtain ⟨found, same, finds⟩ := Scope.finds_access positive stands first rest
    rw [leads] at finds
    obtain ⟨e, rfl⟩ := finds.succeeds id
    obtain ⟨source, rfl, located, known'⟩ := (finds.yields e rfl).exists_column
    refine ⟨source, ?_, located, known'⟩
    have access : s.access name (first :: rest) none = .ok (.expr (.column column "" source)) :=
      same known
    cases node with
    | member receiver property computed =>
      refine bind_eq_ok.2 ⟨(.identifier name, first :: rest, none), s, ?_, ?_⟩
      · exact Resolve.ofExcept_eq_ok.2 ⟨onPath, rfl⟩
      · have found : Resolve.ofExcept (s.access name (first :: rest) none) s =
            .ok (.expr (.column column "" source)) s := Resolve.ofExcept_eq_ok.2 ⟨access, rfl⟩
        exact bind_eq_ok.2 ⟨s, s, rfl, bind_eq_ok.2 ⟨_, s, found, rfl⟩⟩
    | _ => cases onPath

/-- Resolving a body takes back whatever it binds. -/
theorem Node.bindings_resolve {node : Node} {isPredicate : Bool} {e : Expr}
    (run : node.resolve isPredicate s = .ok e s') : s'.bindings = s.bindings := by
  have tidy : Resolve.Tidy .everything (Resolve.closed .everything) (node.resolve isPredicate) :=
    Node.tidy_resolve node isPredicate
  exact (tidy.mints run).bindings

theorem Resolve.bindings_spread {argument : Node} {ms : List (String × Expr)}
    (run : Resolve.spread argument (argument.resolve false) s = .ok ms s') :
    s'.bindings = s.bindings := by
  have tidy : Resolve.Tidy .everything (Resolve.membersClosed .everything)
      (Resolve.spread argument (argument.resolve false)) :=
    Resolve.tidy_spread (Node.tidy_resolve argument false)
  exact (tidy.mints run).bindings

mutual

/-- The expression of a body has a shape that shows what the body yields. -/
theorem Node.yields_resolve {env : String → RowValue} (positive : 0 < count) :
    ∀ (node : Node) (isPredicate : Bool) {s s' : Scope} {e : Expr},
      (∀ name, s.bindings.Stands count name (env name)) →
      node.resolve isPredicate s = .ok e s' → e.Yields count (node.rowValue env)
  | .identifier name, _, s, s', e, stands, run => by
    obtain ⟨_, _, ⟨⟩, found⟩ := bind_eq_ok.1 run
    obtain ⟨found, -⟩ := Resolve.ofExcept_eq_ok.1 found
    by_cases known : (Node.identifier name).rowValue env = .other
    · rw [known]
      exact e.yields_other
    · obtain ⟨named, -, defined⟩ := Node.rowValue_identifier known
      rw [named]
      exact Scope.yields_identifier positive (stands name) found defined
  | .member _ _ _, _, _, _, _, stands, run => Resolve.yields_member positive stands run
  | .object properties, _, s, s', e, stands, run => by
    rw [Node.rowValue]
    cases read : Property.rowMembers env properties with
    | none => exact e.yields_other
    | some found =>
      obtain ⟨members, tables⟩ := found
      obtain ⟨ms, resolved, rfl⟩ := map_eq_ok.1 run
      have fields := Property.fields_resolveList positive properties stands read resolved
      exact Expr.yields_object fields tables
  | .literal _, _, _, _, e, _, _ => e.yields_other
  | .binary _ _ _, _, _, _, e, _, _ => e.yields_other
  | .logical _ _ _, _, _, _, e, _, _ => e.yields_other
  | .unary _ _, _, _, _, e, _, _ => e.yields_other
  | .conditional _ _ _, _, _, _, e, _, _ => e.yields_other
  | .array _, _, _, _, e, _, _ => e.yields_other
  | .arrow _ _, _, _, _, e, _, _ => e.yields_other
  | .block _, _, _, _, e, _, _ => e.yields_other
  | .returnStatement _, _, _, _, e, _, _ => e.yields_other
  | .call _ _, _, _, _, e, _, _ => e.yields_other

theorem Property.fields_resolveList {env : String → RowValue} (positive : 0 < count) :
    ∀ (properties : List Property) {s s' : Scope} {ms : List (String × Expr)}
      {members : List (String × RowValue)} {tables : List Int},
      (∀ name, s.bindings.Stands count name (env name)) →
      Property.rowMembers env properties = some (members, tables) →
      Property.resolveList properties s = .ok ms s' →
      Shape.Fields count (Expr.shapeProperties ms) members
  | [], _, _, _, _, _, _, read, run => by
    cases read
    cases run
    exact .nil
  | .spread argument :: rest, s, s', ms, members, tables, stands, read, run => by
    obtain ⟨head, t, spread, run⟩ := bind_eq_ok.1 run
    obtain ⟨others, t', run, done⟩ := bind_eq_ok.1 run
    cases done
    have stands' : ∀ name, t.bindings.Stands count name (env name) :=
      Resolve.bindings_spread spread ▸ stands
    have yields (e : Expr) (t : Scope) (value : argument.resolve false s = .ok e t) :
        e.Yields count (argument.rowValue env) :=
      Node.yields_resolve positive argument false stands value
    have spreads := Resolve.fields_spread stands yields spread
    rw [Expr.shapeProperties_append]
    unfold Property.rowMembers at read
    split at read
    · rename_i more below members' tables' object later
      cases read
      have fields := Property.fields_resolveList positive rest stands' later run
      exact (spreads.2 _ _ object).append fields
    · rename_i table members' tables' row later
      cases read
      rw [spreads.1 table row]
      exact Property.fields_resolveList positive rest stands' later run
    · cases read
  | .named key node _ :: rest, s, s', ms, members, tables, stands, read, run => by
    obtain ⟨e, t, value, run⟩ := bind_eq_ok.1 run
    obtain ⟨others, t', run, done⟩ := bind_eq_ok.1 run
    cases done
    rw [Property.rowMembers] at read
    obtain ⟨⟨others', tables'⟩, later, read⟩ := Option.map_eq_some_iff.1 read
    cases read
    have stands' : ∀ name, t.bindings.Stands count name (env name) :=
      Node.bindings_resolve value ▸ stands
    have single := (Node.yields_resolve positive node false stands value).fields key
    have fields := Property.fields_resolveList positive rest stands' later run
    have parts : Expr.shapeProperties ((key, e) :: others) =
        Expr.shapeProperties [(key, e)] ++ Expr.shapeProperties others :=
      Expr.shapeProperties_append [(key, e)] others
    rw [parts]
    exact single.append fields

end

end FluentQuery
