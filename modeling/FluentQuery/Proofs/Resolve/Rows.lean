import FluentQuery.Ast.Builder
import FluentQuery.Proofs.Resolve.Numbering

/-!
# What lambda parameters stand for

In the result selector of a join the second parameter stands for a row of the joined table, the first
for a row of the statement so far: of the first table, or of the shape that an earlier selector gave
it.  `Scope.Follows.rows` says with which numbers their columns are resolved; that of the joined table
is the number of its place among the tables of the statement.
-/

namespace FluentQuery

set_option autoImplicit false

namespace Bindings

/-- A name stands for a row, and for nothing that is looked up before. -/
structure Row (b : Bindings) (name : String) : Prop where
  proposed : b.excluded = ""
  grouping : b.groupings.contains name = false
  param : b.params.contains name = false

/-- A name stands for a row of the table with a number. -/
structure TableRow (b : Bindings) (name : String) (table : Int) : Prop extends Row b name where
  found : b.joins.find? name = some table
  unshaped : b.joinResult = name → name = ""

/-- A name stands for a row of a shape. -/
structure ShapeRow (b : Bindings) (name : String) (shape : ResultShape) : Prop
    extends Row b name where
  named : name ≠ ""
  joinResult : b.joinResult = name
  shape : b.shape = some shape

variable {b : Bindings} {name other : String} {table : Int} {shape : ResultShape}

theorem Row.notProposed (h : b.Row name) :
    (!b.excluded.isEmpty && decide (name = b.excluded)) = false := by
  rw [h.proposed]
  rfl

theorem contains_erase_self (names : NameSet) (name : String) :
    (NameSet.erase names name).contains name = false := by
  simp [NameSet.erase]

theorem contains_erase {names : NameSet} (h : names.contains name = false) (other : String) :
    (NameSet.erase names other).contains name = false := by
  simp only [NameSet.erase, List.contains_eq_mem, decide_eq_false_iff_not, List.mem_filter] at h ⊢
  exact fun mem => h mem.1

theorem tableRow_bindJoin (proposed : b.excluded = "") (name : String) (table : Int) :
    (b.bindJoin name table).TableRow name table := by
  refine ⟨⟨proposed, contains_erase_self _ _, contains_erase_self _ _⟩,
    Assoc.find?_insert_self _ _ _, fun same => ?_⟩
  simp only [bindJoin] at same
  split at same
  · exact same.symm
  · exact absurd same ‹_›

theorem TableRow.bindJoin (h : b.TableRow name table) (ne : other ≠ name) (index : Int) :
    (b.bindJoin other index).TableRow name table := by
  refine ⟨⟨h.proposed, contains_erase h.grouping _, contains_erase h.param _⟩,
    (Assoc.find?_insert_of_ne _ _ ne).trans h.found, fun same => ?_⟩
  simp only [Bindings.bindJoin] at same
  split at same
  · exact same.symm
  · exact h.unshaped same

theorem shapeRow_bindShape (proposed : b.excluded = "") (named : name ≠ "") (shape : ResultShape) :
    (b.bindShape name (some shape)).ShapeRow name shape :=
  ⟨⟨proposed, contains_erase_self _ _, contains_erase_self _ _⟩, named, rfl, rfl⟩

theorem ShapeRow.bindJoin (h : b.ShapeRow name shape) (ne : other ≠ name) (index : Int) :
    (b.bindJoin other index).ShapeRow name shape := by
  refine ⟨⟨h.proposed, contains_erase h.grouping _, contains_erase h.param _⟩, h.named, ?_, h.shape⟩
  simp only [Bindings.bindJoin, h.joinResult]
  exact if_neg ne.symm

/-- The bindings of a result selector of the join that adds the table with the given number. -/
def bindResult (b : Bindings) (outer inner : String) (index : Int) : Bindings :=
  let outerBound : Bindings :=
    match b.shape with
    | some shape => b.bindShape outer (some shape)
    | none => b.bindJoin outer 0
  outerBound.bindJoin inner index

end Bindings

namespace Scope

variable {s : Scope} {name : String}

/-- A path from a row of a table leads to a column with the number of the table. -/
theorem access_joined {table : Int} (row : s.bindings.TableRow name table) (first : String)
    (rest : List String) : s.access name (first :: rest) none =
      .ok (.expr (.column ((first :: rest).getLastD "") "" (some (.joinParam table)))) := by
  have bound : s.bindings.binds name = true := by
    simp [Bindings.binds, Assoc.contains, row.found]
  have unshaped :
      (!s.bindings.joinResult.isEmpty && decide (name = s.bindings.joinResult)) = false := by
    by_cases same : s.bindings.joinResult = name
    · simp [same, row.unshaped same]
    · simp [Ne.symm same]
  unfold access
  simp only [row.notProposed, row.grouping, row.param, bound, unshaped, row.found,
    Option.isSome_none, Bool.false_and, Bool.not_true, Bool.and_false, Bool.false_eq_true, if_false]

/-- A path from a row of a shape is followed through the shape. -/
theorem access_shaped {shape : ResultShape} (row : s.bindings.ShapeRow name shape) (first : String)
    (rest : List String) : s.access name (first :: rest) none =
      .expr <$> shapePath (first :: rest) (some (.object shape)) [] (first :: rest) := by
  have bound : s.bindings.binds name = true := by
    simp [Bindings.binds, row.joinResult]
  have shaped :
      (!s.bindings.joinResult.isEmpty && decide (name = s.bindings.joinResult)) = true := by
    simp [row.joinResult, row.named]
  unfold access
  simp only [row.notProposed, row.grouping, row.param, bound, shaped, row.shape,
    Option.isSome_none, Bool.false_and, Bool.not_true, Bool.and_false, Bool.false_eq_true, if_false,
    if_true]
  rfl

/-- A column of a row of a table has the number of the table. -/
theorem access_tableRow {table : Int} (row : s.bindings.TableRow name table) (column : String) :
    s.access name [column] none =
      .ok (.expr (.column column "" (some (.joinParam table)))) :=
  access_joined row column []

/-- A column that the shape of a row knows has the number that it has in the shape. -/
theorem access_shapeRow {shape : ResultShape} (row : s.bindings.ShapeRow name shape)
    {key column : String} {table : Int}
    (known : Shape.lookup shape key = some (.column table column)) :
    s.access name [key] none =
      .ok (.expr (.column column "" (some (.joinResult table)))) := by
  rw [access_shaped row, shapePath, known]
  rfl

end Scope

namespace Resolve

/-- A column of a parameter of a result selector is what the bindings of the selector lead to. -/
theorem resultSelector_dot {s : Scope} {outer inner root column : String} {index : Int} {e : Expr}
    (leads : { s with bindings := s.bindings.bindResult outer inner index }.access
      root [column] none = .ok (.expr e)) :
    resultSelector index (.arrow [outer, inner] ((Node.identifier root).dot column)) s =
      .ok e s := by
  have resolved : Node.resolve false ((Node.identifier root).dot column)
      { s with bindings := s.bindings.bindResult outer inner index } =
        .ok e { s with bindings := s.bindings.bindResult outer inner index } := by
    refine bind_eq_ok.2 ⟨(.identifier root, [column], none), _, rfl, ?_⟩
    refine bind_eq_ok.2 ⟨_, _, rfl, bind_eq_ok.2 ⟨.expr e, _, ?_, rfl⟩⟩
    rw [leads]
    rfl
  have bound : bindResultParams index [outer, inner] s =
      .ok () { s with bindings := s.bindings.bindResult outer inner index } := rfl
  have body : (bindResultParams index [outer, inner] >>= fun _ =>
      Node.resolve false ((Node.identifier root).dot column)) s =
        .ok e { s with bindings := s.bindings.bindResult outer inner index } :=
    bind_eq_ok.2 ⟨(), _, bound, resolved⟩
  have whole : withParams (bindResultParams index) [outer, inner]
      (Node.resolve false ((Node.identifier root).dot column)) s = .ok e s := by
    unfold withParams withBindings
    rw [body]
  exact bind_eq_ok.2 ⟨s, s, rfl, whole⟩

end Resolve

namespace Scope

/-- What the parameters of the result selector of the next join stand for, in a scope of a statement
with the given number of joins. -/
structure Rows (joins : Nat) (s : Scope) : Prop where
  /-- The second parameter is a row of the table that is joined. -/
  inner : ∀ outer inner column,
    Resolve.resultSelector s.tableCount
      (.arrow [outer, inner] ((Node.identifier inner).dot column)) s =
        .ok (.column column "" (some (.joinParam (joins + 1)))) s
  /-- The first parameter is a row of the first table if rows have no shape. -/
  outer : s.bindings.shape = none → ∀ outer inner column, inner ≠ outer →
    Resolve.resultSelector s.tableCount
      (.arrow [outer, inner] ((Node.identifier outer).dot column)) s =
        .ok (.column column "" (some (.joinParam 0))) s
  /-- Otherwise its columns have the numbers that they have in the shape. -/
  shaped : ∀ shape, s.bindings.shape = some shape → ∀ outer inner key table column,
    outer ≠ "" → inner ≠ outer → Shape.lookup shape key = some (.column table column) →
    Resolve.resultSelector s.tableCount
      (.arrow [outer, inner] ((Node.identifier outer).dot key)) s =
        .ok (.column column "" (some (.joinResult table))) s

theorem Follows.rows {joins : Nat} {s : Scope} (follows : s.Follows joins) : s.Rows joins := by
  have proposed := follows.idle.2
  constructor
  · intro outer inner column
    refine Resolve.resultSelector_dot (access_tableRow ?_ column)
    rw [follows.count]
    refine Bindings.tableRow_bindJoin ?_ inner _
    cases s.bindings.shape <;> exact proposed
  · intro unshaped outer inner column ne
    refine Resolve.resultSelector_dot (access_tableRow ?_ column)
    unfold Bindings.bindResult
    rw [unshaped]
    exact (Bindings.tableRow_bindJoin proposed outer 0).bindJoin ne _
  · intro shape hshape outer inner key table column named ne known
    refine Resolve.resultSelector_dot (access_shapeRow ?_ known)
    unfold Bindings.bindResult
    rw [hshape]
    exact (Bindings.shapeRow_bindShape proposed named shape).bindJoin ne _

end Scope

end FluentQuery
