import FluentQuery.Proofs.Operation.Normalization
import FluentQuery.Proofs.Operation.Tables
import FluentQuery.Query

/-!
# Rows of flattened collections

Over the contents of all tables, an operation yields a list of joined rows, one entry for each table
that it joins.  A group join keeps the matching rows as a group; flattening pairs each row with the
rows of its group, or with those of an independent collection; a mark for empty collections stands
for one row of nulls.  Main statement: `Database.lowerJoins_keeps_rows_iff`, under which condition
the joins that these calls are lowered to yield the same list.

A group that is marked becomes a left join.  An independent collection becomes a cross join whether
it is marked or not, so the rows that are paired with a marked collection are lost when the collection
is empty.
-/

namespace FluentQuery

set_option autoImplicit false

/-! ### Joined rows -/

/-- A row of a table: the value of each of its columns. -/
abbrev Record (V : Type) := String → V

/-- What a joined row has for one table: a row of it, or the rows that matched, with the names that
the group of them goes by. -/
inductive JoinedEntry (V : Type) where
  | row (record : Record V)
  | group (names : List String) (records : List (Record V))

/-- One entry for each table, the last one first. -/
abbrev JoinedRow (V : Type) := List (JoinedEntry V)

/-- A row extended by each row of one more table. -/
def JoinedRow.extend {V : Type} (row : JoinedRow V) (records : List (Record V)) :
    List (JoinedRow V) :=
  records.map fun record => .row record :: row

/-- The contents of all tables, and what is done with values: how keys are compared, which row a
selector makes of a joined row, and what the steps do that join no table. -/
structure Database (V : Type) where
  null : V
  agree : V → V → Bool
  table (schema name : String) : List (Record V)
  project (selector : Expr) (row : JoinedRow V) : Record V
  apply (step : Step) (rows : List (JoinedRow V)) : List (JoinedRow V)

namespace Step

/-- The selector of a step that gives its rows a new form. -/
def projection? : Step → Option Expr
  | select e | join _ _ _ e _ | groupJoin _ _ e _ _ _ | selectMany _ _ e _ _ => some e
  | _ => none

/-- The names that the group of a group join goes by. -/
def groupNames (groupName : String) (shape : Option ResultShape) : List String :=
  groupName :: (shape.getD []).filterMap fun entry =>
    match entry with
    | (name, .array _) => some name
    | _ => none

@[simp] theorem projection?_withNested (step : Step) (op : Operation) :
    (step.withNested op).projection? = step.projection? := by
  cases step <;> rfl

end Step

namespace Operation

/-- The selector that gives the rows of an operation their form. -/
def selector : Operation → Expr
  | [] => .absent
  | step :: earlier => if step.isFrom then .absent else step.projection?.getD (selector earlier)

end Operation

namespace Database

open Operation

variable {V : Type} (db : Database V)

def nullRecord : Record V :=
  fun _ => db.null

/-- Nulls for each of a number of tables. -/
def nullRow (tables : Nat) : JoinedRow V :=
  List.replicate tables (.row db.nullRecord)

/-- A column of one of the tables of a row. -/
def column (row : JoinedRow V) (table : Int) (name : String) : V :=
  match row.reverse[table.toNat]? with
  | some (.row record) => record name
  | _ => db.null

/-- Whether a row is joined with a row of one more table. -/
def joins (keys : JoinKeys) (row : JoinedRow V) (record : Record V) : Bool :=
  db.agree (db.column row (keys.outerSource.getD 0) keys.outer) (record keys.inner)

/-- The rows of one more table that a row is joined with. -/
def matching (keys : JoinKeys) (inner : List (Record V)) (row : JoinedRow V) : List (Record V) :=
  inner.filter (db.joins keys row)

/-- A collection; if an empty one is marked, one row of nulls. -/
def padded (usesDefault : Bool) (records : List (Record V)) : List (Record V) :=
  if usesDefault && records.isEmpty then [db.nullRecord] else records

/-- A join as in SQL, of the rows of a number of tables with those of one more. -/
def join (kind : JoinKind) (keys : JoinKeys) (inner : List (Record V)) (tables : Nat)
    (outer : List (JoinedRow V)) : List (JoinedRow V) :=
  let left := outer.flatMap fun row => row.extend (db.padded true (db.matching keys inner row))
  let partners (record : Record V) := outer.filter fun row => db.joins keys row record
  match kind with
  | .inner => outer.flatMap fun row => row.extend (db.matching keys inner row)
  | .left => left
  | .right => inner.flatMap fun record =>
    (if (partners record).isEmpty then [db.nullRow tables] else partners record).map
      fun row => .row record :: row
  | .full => left ++ (inner.filter fun record => (partners record).isEmpty).map
      fun record => .row record :: db.nullRow tables
  | .cross => outer.flatMap fun row => row.extend inner

/-- A row with each row of one of its groups in the place of the group. -/
def flatten (path : String) (usesDefault : Bool) : JoinedRow V → List (JoinedRow V)
  | [] => []
  | .row record :: rest => (flatten path usesDefault rest).map fun row => .row record :: row
  | .group names records :: rest =>
    if path ∈ names then JoinedRow.extend rest (db.padded usesDefault records)
    else (flatten path usesDefault rest).map fun row => .group names records :: row

/-- What a step makes of the rows of a number of tables, given those of the operation nested in
it. -/
def effect (step : Step) (nested : List (Record V)) (tables : Nat)
    (outer : List (JoinedRow V)) : List (JoinedRow V) :=
  match step with
  | .fromSource table schema subquery _ =>
    (if subquery.isEmpty then db.table schema table else nested).map fun record => [.row record]
  | .join kind _ keys _ _ => db.join kind keys nested tables outer
  | .groupJoin _ keys _ shape _ groupName => outer.map fun row =>
    .group (Step.groupNames groupName shape) (db.matching keys nested row) :: row
  | .selectMany collection path _ _ usesDefault =>
    if collection.isEmpty then outer.flatMap (db.flatten path usesDefault)
    else outer.flatMap fun row => row.extend (db.padded usesDefault nested)
  | .defaultIfEmpty => if outer.isEmpty then [db.nullRow tables] else outer
  | step => db.apply step outer

mutual

/-- The joined rows that an operation yields. -/
def result (db : Database V) : List Step → List (JoinedRow V)
  | [] => []
  | step :: earlier =>
    db.effect step (nestedRecords db step) ((joined earlier).length + 1) (result db earlier)

/-- The rows of the operation nested in a step. -/
def nestedRecords (db : Database V) : Step → List (Record V)
  | .fromSource _ _ subquery _ => (result db subquery).map (db.project (selector subquery))
  | .join _ inner _ _ _ => (result db inner).map (db.project (selector inner))
  | .groupJoin inner _ _ _ _ _ => (result db inner).map (db.project (selector inner))
  | .selectMany collection _ _ _ _ => (result db collection).map (db.project (selector collection))
  | _ => []

end

/-- The rows of a derived table. -/
def records (op : Operation) : List (Record V) :=
  (db.result op).map (db.project (selector op))

@[simp] theorem result_nil : db.result [] = [] := by
  rw [result]

theorem result_cons (step : Step) (earlier : Operation) : db.result (step :: earlier) =
    db.effect step (db.records step.nested) ((joined earlier).length + 1) (db.result earlier) := by
  have nested : nestedRecords db step = db.records step.nested := by
    cases step <;> simp [nestedRecords, records, Step.nested]
  rw [result, nested]

/-! ### Operations with the same rows -/

/-- Two operations yield the same rows, of as many tables and in the same form. -/
structure SameRows (op' op : Operation) : Prop where
  result : db.result op' = db.result op
  selector : selector op' = selector op
  tables : (joined op').length = (joined op).length
  empty : op' = [] ↔ op = []

variable {db}

theorem SameRows.refl (op : Operation) : db.SameRows op op :=
  ⟨rfl, rfl, rfl, Iff.rfl⟩

theorem SameRows.trans {op op' op'' : Operation} (h : db.SameRows op'' op')
    (h' : db.SameRows op' op) : db.SameRows op'' op :=
  ⟨h.result.trans h'.result, h.selector.trans h'.selector, h.tables.trans h'.tables,
    h.empty.trans h'.empty⟩

theorem SameRows.records {op op' : Operation} (h : db.SameRows op' op) :
    db.records op' = db.records op := by
  rw [Database.records, Database.records, h.result, h.selector]

/-- Whether something is nested in a step is all that its effect depends on, besides its rows. -/
theorem effect_withNested (step : Step) {nested : Operation}
    (empty : nested = [] ↔ step.nested = []) (records : List (Record V)) (tables : Nat)
    (outer : List (JoinedRow V)) :
    db.effect (step.withNested nested) records tables outer =
      db.effect step records tables outer := by
  have same : nested.isEmpty = step.nested.isEmpty := by
    rw [Bool.eq_iff_iff, List.isEmpty_iff, List.isEmpty_iff, empty]
  cases step with
  | fromSource | selectMany =>
    simp only [Step.nested] at same
    simp only [Step.withNested, effect, same]
  | _ => rfl

/-- Whether something is nested in a step is all that the number of its tables depends on. -/
theorem joined_withNested (step : Step) {nested : Operation}
    (empty : nested = [] ↔ step.nested = []) :
    (step.withNested nested).joined?.toList.length = step.joined?.toList.length := by
  cases step with
  | selectMany collection =>
    cases collection with
    | nil =>
      cases empty.2 rfl
      rfl
    | cons first rest =>
      cases nested with
      | nil => cases empty.1 rfl
      | cons => rfl
  | _ => rfl

/-- A step on top of operations with the same rows, or with such operations nested in it. -/
theorem SameRows.cons {step : Step} {nested earlier' earlier : Operation}
    (below : db.SameRows nested step.nested) (before : db.SameRows earlier' earlier) :
    db.SameRows (step.withNested nested :: earlier') (step :: earlier) where
  result := by
    rw [result_cons, result_cons, step.nested_withNested below.empty.2,
      effect_withNested step below.empty, below.records, before.tables, before.result]
  selector := by
    simp only [Operation.selector, Step.isFrom_withNested, Step.projection?_withNested,
      before.selector]
  tables := by
    cases isFrom : step.isFrom with
    | true => rw [joined_from isFrom, joined_from (by rwa [Step.isFrom_withNested])]
    | false =>
      rw [joined_step isFrom, joined_step (by rwa [Step.isFrom_withNested]), List.length_append,
        List.length_append, before.tables, joined_withNested step below.empty]
  empty := by
    simp

/-! ### Lowering a step -/

/-- Nothing is lost when a mark for empty collections is dropped: what is marked is not empty, or
there is no row to pair it with.  The mark of a group is not dropped. -/
def MarkUnused (db : Database V) (step : Step) (earlier : Operation) : Prop :=
  match step with
  | .selectMany collection _ _ _ true =>
    collection ≠ [] → db.records collection = [] → db.result earlier = []
  | .defaultIfEmpty => db.result earlier ≠ []
  | _ => True

/-- A group has no mark that could be dropped. -/
theorem markUnused_group (path : String) (selector : Expr) (shape : Option ResultShape)
    (usesDefault : Bool) (earlier : Operation) :
    db.MarkUnused (.selectMany [] path selector shape usesDefault) earlier := by
  cases usesDefault with
  | false => trivial
  | true => exact fun nonempty => absurd rfl nonempty

theorem flatten_group {path : String} {names : List String} (named : path ∈ names)
    (usesDefault : Bool) (records : List (Record V)) (row : JoinedRow V) :
    db.flatten path usesDefault (.group names records :: row) =
      row.extend (db.padded usesDefault records) := by
  rw [flatten, if_pos named]

/-- Pairing rows with the rows of their group at once is joining them. -/
theorem join_eq_flatten {path : String} {names : List String} (named : path ∈ names)
    (usesDefault : Bool) (keys : JoinKeys) (inner : List (Record V)) (tables : Nat)
    (outer : List (JoinedRow V)) :
    db.join (if usesDefault then .left else .inner) keys inner tables outer =
      (outer.map fun row => .group names (db.matching keys inner row) :: row).flatMap
        (db.flatten path usesDefault) := by
  simp only [List.flatMap_map, flatten_group named]
  cases usesDefault with
  | true => rfl
  | false => simp [join, padded]

/-- Pairing rows with all rows of a collection is a cross join, unless nulls are needed. -/
theorem cross_eq_padded_iff {usesDefault : Bool} {inner : List (Record V)}
    {outer : List (JoinedRow V)} :
    (outer.flatMap fun row => row.extend inner) =
        (outer.flatMap fun row => row.extend (db.padded usesDefault inner)) ↔
      (usesDefault = true → inner = [] → outer = []) := by
  cases usesDefault with
  | false => simp [padded]
  | true =>
    cases inner with
    | cons => simp [padded]
    | nil =>
      have none : (outer.flatMap fun row => row.extend ([] : List (Record V))) = [] :=
        List.flatMap_eq_nil_iff.2 fun _ _ => rfl
      rw [none, eq_comm, List.flatMap_eq_nil_iff]
      simp [padded, JoinedRow.extend, List.eq_nil_iff_forall_not_mem]

/-- A step yields the rows that it yields when it is lowered iff no mark is needed. -/
theorem result_lowerStep_iff {step : Step} (isFrom : step.isFrom = false) (earlier : Operation) :
    db.result (lowerStep step earlier) = db.result (step :: earlier) ↔
      db.MarkUnused step earlier := by
  cases step with
  | defaultIfEmpty =>
    rw [result_cons]
    cases rows : db.result earlier with
    | nil => simp [lowerStep, effect, MarkUnused, rows]
    | cons => simp [lowerStep, effect, MarkUnused, rows]
  | selectMany collection path selector shape usesDefault =>
    cases collection with
    | cons first rest =>
      simp only [lowerStep, lowerSelectMany, result_cons, effect, Step.nested, List.isEmpty_cons,
        if_neg Bool.false_ne_true, Database.join, cross_eq_padded_iff]
      cases usesDefault with
      | false => simp [MarkUnused]
      | true => simp [MarkUnused]
    | nil =>
      refine iff_of_true ?_ (markUnused_group path selector shape usesDefault earlier)
      rcases lowerSelectMany_cases [] path selector shape usesDefault earlier with
        ⟨nonempty, -⟩ | ⟨-, kind, inner, keys, groupSelector, groupShape, outerName, rest, rfl, -⟩ |
          ⟨-, kept⟩
      · exact absurd rfl nonempty
      · have named : path ∈ Step.groupNames path groupShape := List.mem_cons_self
        simp only [lowerStep, lowerSelectMany, if_true, result_cons, effect, Step.nested,
          List.isEmpty_nil, join_eq_flatten named]
      · exact congrArg db.result kept
  | _ => exact iff_of_true rfl trivial

/-- What a step is lowered to has the form and the tables of the step. -/
theorem sameRows_lowerStep {step : Step} (isFrom : step.isFrom = false) {earlier : Operation}
    (unused : db.MarkUnused step earlier) :
    db.SameRows (lowerStep step earlier) (step :: earlier) := by
  have result := (result_lowerStep_iff isFrom earlier).2 unused
  cases step with
  | defaultIfEmpty =>
    refine ⟨result, rfl, ?_, iff_of_false (fun nil => unused ?_) (List.cons_ne_nil _ _)⟩
    · rw [joined_step isFrom]
      simp [lowerStep, Step.joined?]
    · rw [show earlier = [] from nil, result_nil]
  | selectMany collection path selector shape usesDefault =>
    simp only [lowerStep] at result ⊢
    rcases lowerSelectMany_cases collection path selector shape usesDefault earlier with
      ⟨nonempty, lowered⟩ |
        ⟨rfl, kind, inner, keys, groupSelector, groupShape, outerName, rest, rfl, lowered⟩ |
          ⟨-, kept⟩
    · rw [lowered] at result ⊢
      refine ⟨result, rfl, ?_, by simp⟩
      obtain ⟨first, rest, rfl⟩ := List.exists_cons_of_ne_nil nonempty
      rfl
    · rw [lowered] at result ⊢
      refine ⟨result, rfl, ?_, by simp⟩
      simp [joined, Step.isFrom, Step.joined?]
    · rw [kept]
      exact .refl _
  | _ => exact .refl _

/-! ### Lowering an operation -/

theorem MarkUnused.congr {step : Step} {nested earlier' earlier : Operation}
    (below : db.SameRows nested step.nested) (before : db.SameRows earlier' earlier) :
    db.MarkUnused (step.withNested nested) earlier' ↔ db.MarkUnused step earlier := by
  cases step with
  | defaultIfEmpty => simp only [Step.withNested, MarkUnused, before.result]
  | selectMany collection path selector shape usesDefault =>
    have records := below.records
    have empty := below.empty
    simp only [Step.nested] at records empty
    cases usesDefault with
    | false => rfl
    | true => simp only [Step.withNested, MarkUnused, before.result, records, ne_eq, empty]
  | _ => rfl

/-- If no mark is needed, an operation yields the rows that it yields when it is lowered. -/
theorem sameRows_lowerJoins {op : Operation} (unused : op.Everywhere db.MarkUnused) :
    db.SameRows (lowerJoins op) op := by
  induction unused with
  | nil => exact lowerJoins_nil ▸ .refl []
  | @start step earlier isFrom _ ih =>
    rw [lowerJoins_from isFrom]
    exact ih.cons (.refl earlier)
  | @step step earlier isFrom here _ _ ihNested ih =>
    rw [lowerJoins_step isFrom]
    have still := (MarkUnused.congr ihNested ih).2 here
    have lowered := sameRows_lowerStep (by rwa [Step.isFrom_withNested]) still
    exact lowered.trans (ihNested.cons ih)

/-- The rows of an operation stay the same when it is lowered, and those of everything that is
nested in it or precedes one of its steps: this is so iff no mark for empty collections is needed that
is dropped. -/
theorem lowerJoins_keeps_rows_iff (db : Database V) (op : Operation) :
    (db.result (lowerJoins op) = db.result op ∧ op.Everywhere fun step earlier =>
        db.result (lowerJoins (step :: earlier)) = db.result (step :: earlier)) ↔
      op.Everywhere db.MarkUnused := by
  constructor
  · rintro ⟨-, keeps⟩
    induction keeps with
    | nil => exact .nil
    | start isFrom _ ih => exact .start isFrom ih
    | @step step earlier isFrom here _ _ ihNested ih =>
      refine .step isFrom ?_ ihNested ih
      have below := sameRows_lowerJoins ihNested
      have before := sameRows_lowerJoins ih
      -- The lowered step yields the rows of the step as it is, on top of what is lowered below it.
      rw [lowerJoins_step isFrom, ← (below.cons before).result] at here
      have noFrom : (step.withNested (lowerJoins step.nested)).isFrom = false := by
        rwa [Step.isFrom_withNested]
      exact (MarkUnused.congr below before).1 ((result_lowerStep_iff noFrom _).1 here)
  · intro unused
    refine ⟨(sameRows_lowerJoins unused).result, ?_⟩
    induction unused with
    | nil => exact .nil
    | start isFrom _ ih => exact .start isFrom ih
    | @step step earlier isFrom here nested below ihNested ih =>
      exact .step isFrom (sameRows_lowerJoins (.step isFrom here nested below)).result ihNested ih

/-- One user called Ada, and no role. -/
def oneUser : Database (Option String) where
  null := none
  agree key key' := key.isSome && key == key'
  table _ name := if name = "users" then [fun _ => some "Ada"] else []
  project _ row := match row with
    | .row record :: _ => record
    | _ => fun _ => none
  apply _ rows := rows

/-- `q => q.from("users").selectMany(user => q.from("roles").defaultIfEmpty(),
(user, role) => ({user: user.name, role: role.name}))` -/
def usersWithRoles : Node :=
  .arrow ["q"] (((Node.identifier "q").invoke "from" [.literal (.str "users")]).invoke "selectMany"
    [.arrow ["user"]
        (((Node.identifier "q").invoke "from" [.literal (.str "roles")]).invoke "defaultIfEmpty" []),
      .arrow ["user", "role"] (.object
        [.named "user" ((Node.identifier "user").dot "name") false,
          .named "role" ((Node.identifier "role").dot "name") false])])

/-- The user is paired with nulls as there is no role, but the cross join yields no row. -/
theorem cross_join_loses_rows : ∃ op scope,
    usersWithRoles.chain .step [] { builder := "q" } = .ok op scope ∧
      usersWithRoles.parseQuery = .ok ⟨op.normalize, scope⟩ ∧
      oneUser.result op = [[.row fun _ => none, .row fun _ => some "Ada"]] ∧
      oneUser.result (lowerJoins op) = [] :=
  ⟨_, _, rfl, rfl, rfl, rfl⟩

end Database

end FluentQuery
