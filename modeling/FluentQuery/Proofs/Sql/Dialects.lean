import FluentQuery.Proofs.Sql.NestedQueries
import FluentQuery.Proofs.Sql.OffsetLimits
import FluentQuery.Proofs.Sql.Spelling

/-!
# One statement in two dialects

The statement written for SQLite is computed from the other one: every OFFSET without a LIMIT gets one
(`Fragment.limitOffsets`), and negated placeholders may lose their parentheses
(`Fragment.Respelled`).  `SamePart` relates what is written of a part of a statement in the two
dialects, `SameStatement` what is written of a statement; a statement in parentheses is a part of
the statement around it, and has its limits for itself.  Main statement: `dialects_agree`.
-/

namespace FluentQuery

set_option autoImplicit false

namespace Fragment

/-- A part of a statement in the two dialects: but for the limits that are added in it, the second text
is the first one respelled. -/
def SamePart (f g : Fragment) : Prop :=
  ∃ f', f.Becomes f' ∧ f'.Respelled g

/-- A statement in the two dialects. -/
def SameStatement (f g : Fragment) : Prop :=
  ∃ f', f.Completes f' ∧ f'.Respelled g

variable {f f' g g' : Fragment} {word opening closing : String}

namespace SamePart

/-- What is written for an expression is a part in which no clause begins. -/
theorem of_inert (inert : f.Inert) (same : f.Respelled g) : SamePart f g :=
  ⟨f, inert, same⟩

theorem nil : SamePart [] [] :=
  of_inert .nil (.refl [])

theorem text (plain : IsPlain word) : SamePart (text word) (text word) :=
  of_inert (.text plain) (.refl _)

/-- Parts may be put together. -/
theorem append (h : SamePart f g) (h' : SamePart f' g') : SamePart (f ++ f') (g ++ g') := by
  obtain ⟨left, becomes, same⟩ := h
  obtain ⟨right, becomes', same'⟩ := h'
  exact ⟨left ++ right, becomes.append becomes', same.append same'⟩

theorem after (h : SamePart f g) (plain : IsPlain word) :
    SamePart (Fragment.text word ++ f) (Fragment.text word ++ g) :=
  (text plain).append h

theorem before (h : SamePart f g) (plain : IsPlain word) :
    SamePart (f ++ Fragment.text word) (g ++ Fragment.text word) :=
  h.append (text plain)

theorem separated {separator : String} (plain : IsPlain separator) {fs gs : List Fragment}
    (h : List.Forall₂ SamePart fs gs) :
    SamePart (Fragment.separated separator fs) (Fragment.separated separator gs) :=
  forall₂_separated nil append (text plain) h

/-- A part is a statement without paging clauses of its own. -/
theorem statement (h : SamePart f g) : SameStatement f g := by
  obtain ⟨whole, becomes, same⟩ := h
  exact ⟨whole, becomes.completes, same⟩

end SamePart

namespace SameStatement

/-- A statement in parentheses is a part of the statement around it. -/
theorem enclosed (h : SameStatement f g) (opens : IsOpening opening) (closes : IsClosing closing) :
    SamePart (text opening ++ f ++ text closing) (text opening ++ g ++ text closing) := by
  obtain ⟨whole, completes, same⟩ := h
  exact ⟨_, completes.enclosed opens closes, (same.after _).before _⟩

/-- The columns and the values of an INSERT stand in parentheses of their own, with one word
between. -/
theorem turn (h : SameStatement f g) (h' : SameStatement f' g')
    (ordinary : (Piece.text word).isOrdinary = true) (closes : (Piece.text word).closes = true)
    (opens : (Piece.text word).opens = true) :
    SameStatement (f ++ text word ++ f') (g ++ text word ++ g') := by
  obtain ⟨left, completes, same⟩ := h
  obtain ⟨right, completes', same'⟩ := h'
  exact ⟨_, completes.turn completes' ordinary closes opens, (same.before _).append same'⟩

/-- A statement goes on behind its first part. -/
theorem behind (h : SamePart f g) (rest : SameStatement f' g') :
    SameStatement (f ++ f') (g ++ g') := by
  obtain ⟨left, becomes, same⟩ := h
  obtain ⟨right, ⟨after, completes⟩, same'⟩ := rest
  refine ⟨left ++ right, ⟨after, fun limited more => ?_⟩, same.append same'⟩
  rw [List.append_assoc, becomes, completes, List.append_assoc]

end SameStatement

/-! ### The clauses that page rows -/

/-- A LIMIT clause in the two dialects. -/
inductive SameLimit : Fragment → Fragment → Prop where
  | intro {word : String} {count count' : Fragment}
    (limit : (Piece.text word).beginsWith "LIMIT" = true) (same : SamePart count count') :
    SameLimit (text word ++ count) (text word ++ count')

/-- The LIMIT and OFFSET clauses: the same ones, or an OFFSET that follows no LIMIT, which SQLite is
given one for. -/
inductive SamePaging : List Fragment → List Fragment → Prop where
  | none : SamePaging [] []
  | limit {f g : Fragment} (h : SameLimit f g) : SamePaging [f] [g]
  | both {f g count count' : Fragment} (h : SameLimit f g) (same : SamePart count count') :
    SamePaging [f, text "OFFSET " ++ count] [g, text "OFFSET " ++ count']
  | unlimited {count count' : Fragment} (same : SamePart count count') :
    SamePaging [text "OFFSET " ++ count] [text "LIMIT -1", text "OFFSET " ++ count']

/-- Behind a LIMIT, the rest of the statement needs no other one. -/
theorem SameLimit.limits (h : SameLimit f g) : ∃ f', f'.Respelled g ∧ ∀ before limited rest,
    limitOffsets (before :: limited) (f ++ rest) = f' ++ limitOffsets (true :: limited) rest := by
  obtain ⟨limit, count, becomes, same⟩ := h
  refine ⟨_, same.after _, fun before limited rest => ?_⟩
  rw [List.append_assoc, limitOffsets_limit _ _ limit, becomes, List.append_assoc]

/-- Separators stand in front of all texts but the first. -/
theorem separated_eq_flatMap (separator : String) (f : Fragment) (rest : List Fragment) :
    separated separator (f :: rest) = f ++ rest.flatMap fun g => text separator ++ g := by
  induction rest generalizing f with
  | nil => rw [List.flatMap_nil, List.append_nil, separated]
  | cons g rest ih =>
    rw [separated, ih, List.flatMap_cons, List.append_assoc, List.append_assoc]
    exact List.cons_ne_nil _ _

/-- The clauses that page rows, with a blank in front of each. -/
theorem SamePaging.statement {paging paging' : List Fragment} (h : SamePaging paging paging') :
    SameStatement (paging.flatMap fun f => text " " ++ f)
      (paging'.flatMap fun g => text " " ++ g) := by
  have blank : SamePart (text " ") (text " ") := .text (by decide)
  cases h with
  | none => exact SamePart.nil.statement
  | @limit f g h =>
    obtain ⟨clause, same, limits⟩ := h.limits
    simp only [List.flatMap_singleton]
    refine .behind blank ⟨clause, ⟨true, fun limited rest => limits false limited rest⟩, same⟩
  | @both f g count count' h same =>
    obtain ⟨clause, same', limits⟩ := h.limits
    obtain ⟨rows, becomes, respelled⟩ := same
    simp only [List.flatMap_cons, List.flatMap_nil, List.append_nil]
    rw [List.append_assoc, List.append_assoc]
    refine .behind blank ⟨clause ++ (text " " ++ (text "OFFSET " ++ rows)), ⟨true, ?_⟩,
      same'.append ((respelled.after _).after _)⟩
    intro limited rest
    rw [List.append_assoc, limits, List.append_assoc, limitOffsets_text _ _ (by decide),
      List.append_assoc]
    show clause ++ (text " " ++ limitOffsets (true :: limited) _) = _
    rw [limitOffsets_offset, becomes]
    simp only [if_true, List.nil_append, List.append_assoc]
  | @unlimited count count' same =>
    obtain ⟨rows, becomes, respelled⟩ := same
    simp only [List.flatMap_cons, List.flatMap_nil, List.append_nil]
    rw [List.append_assoc]
    refine .behind blank ⟨text "LIMIT -1" ++ (text " " ++ (text "OFFSET " ++ rows)), ⟨false, ?_⟩,
      ((respelled.after _).after _).after _⟩
    intro limited rest
    rw [List.append_assoc, limitOffsets_offset, becomes]
    simp only [Bool.false_eq_true, if_false, List.append_assoc]

/-- Clauses, of which those that page rows are the last. -/
theorem SameStatement.paged {clauses clauses' paging paging' : List Fragment} (some : clauses ≠ [])
    (same : List.Forall₂ SamePart clauses clauses') (pages : SamePaging paging paging') :
    SameStatement (separated " " (clauses ++ paging)) (separated " " (clauses' ++ paging')) := by
  have blank : IsPlain " " := by decide
  have written := SamePart.separated blank same
  cases same with
  | nil => exact absurd rfl some
  | cons first others =>
    rw [separated_eq_flatMap, separated_eq_flatMap] at written
    rw [List.cons_append, List.cons_append, separated_eq_flatMap, separated_eq_flatMap,
      List.flatMap_append, List.flatMap_append, ← List.append_assoc, ← List.append_assoc]
    exact .behind written pages.statement

end Fragment

/-! ### Expressions in statements -/

namespace Sql

open Fragment

variable {scope : SqlScope}

theorem coincide_unplaced {α β : Type} {same : α → β → Prop} {x : Except SqlFault α}
    {y : Except SqlFault β} (h : Coincide same x y) : Coincide same (unplaced x) (unplaced y) :=
  h.mapError _

/-- An expression is a part of its statement. -/
theorem coincide_part (e : Expr) (position : Position) :
    Coincide SamePart (e.sql (scope.under .postgres) position)
      (e.sql (scope.under .sqlite) position) :=
  ((e.portable scope position).and_returns (e.inert _ position)).mono fun _ _ h =>
    .of_inert h.1 h.2.respelled

/-- Expressions of statements are parts, or fail with one fault. -/
theorem coincide_sql (e : Expr) (position : Position) :
    Coincide SamePart (unplaced (e.sql (scope.under .postgres) position))
      (unplaced (e.sql (scope.under .sqlite) position)) :=
  coincide_unplaced (coincide_part e position)

/-- Projections are parts as well. -/
theorem coincide_projectionSql (selector : Expr) : Coincide SamePart
    (unplaced (selector.projectionSql (scope.under .postgres)))
    (unplaced (selector.projectionSql (scope.under .sqlite))) := by
  unfold Expr.projectionSql
  split
  · exact .ok (.text (by decide))
  · exact coincide_sql selector _

/-- Expressions of a list are parts, one by one. -/
theorem coincide_parts (es : List Expr) (position : Position) :
    Coincide (List.Forall₂ SamePart)
      (unplaced (Expr.sqlList (scope.under .postgres) position es))
      (unplaced (Expr.sqlList (scope.under .sqlite) position es)) := by
  have inert := returns_forall_sqlList fun e (_ : e ∈ es) => e.inert (scope.under .postgres) position
  have portable := coincide_sqlList position fun e (_ : e ∈ es) => e.portable scope
  refine coincide_unplaced ((portable.and_returns inert).mono fun fs gs h => ?_)
  exact ((List.forall₂_and_left fs gs).2 h).imp fun _ _ part => .of_inert part.1 part.2.respelled

/-- Keys of an order are parts, one by one. -/
theorem coincide_orders (os : List (Expr × Bool)) :
    Coincide (List.Forall₂ SamePart) (unplaced (Expr.sqlOrders (scope.under .postgres) os))
      (unplaced (Expr.sqlOrders (scope.under .sqlite) os)) := by
  have inert := (inert_rules (scope.under .postgres)).orderTexts fun o (_ : o ∈ os) =>
    o.1.inert (scope.under .postgres)
  have portable := coincide_sqlOrders fun o (_ : o ∈ os) => o.1.portable scope
  refine coincide_unplaced ((portable.and_returns inert).mono fun fs gs h => ?_)
  exact ((List.forall₂_and_left fs gs).2 h).imp fun _ _ part => .of_inert part.1 part.2

/-! ### Statements that change rows -/

/-- The same column, assigned the same value. -/
def SameAssignment (assigned assigned' : String × Fragment) : Prop :=
  assigned.1 = assigned'.1 ∧ SamePart assigned.2 assigned'.2

/-- The same columns are assigned, and the values are parts. -/
theorem coincide_assignedColumns (assignments : Option Assignments) :
    Coincide (List.Forall₂ SameAssignment) (assignedColumns (scope.under .postgres) assignments)
      (assignedColumns (scope.under .sqlite) assignments) := by
  have rendered (given : Assignments) : Coincide (List.Forall₂ SameAssignment)
      (assignmentSql (scope.under .postgres) given) (assignmentSql (scope.under .sqlite) given) := by
    induction given with
    | nil => exact .ok .nil
    | cons entry rest ih =>
      unfold assignmentSql
      exact (coincide_part entry.2 _).bind fun _ _ value => ih.bind fun _ _ others =>
        .pure (.cons ⟨rfl, value⟩ others)
  exact coincide_unplaced (rendered _)

section Assigned

variable {assigned assigned' : List (String × Fragment)}
  (h : List.Forall₂ SameAssignment assigned assigned')

include h

theorem columns_eq : assigned.map Prod.fst = assigned'.map Prod.fst := by
  induction h with
  | nil => rfl
  | cons here _ ih => rw [List.map_cons, List.map_cons, here.1, ih]

theorem sameParts_values :
    List.Forall₂ SamePart (assigned.map Prod.snd) (assigned'.map Prod.snd) := by
  rw [List.forall₂_map_left_iff, List.forall₂_map_right_iff]
  exact h.imp fun _ _ same => same.2

/-- The assignments of an UPDATE are a part. -/
theorem samePart_setList : SamePart (setList assigned) (setList assigned') := by
  apply SamePart.separated (by decide)
  rw [List.forall₂_map_left_iff, List.forall₂_map_right_iff]
  refine h.imp ?_
  rintro ⟨column, value⟩ ⟨_, value'⟩ ⟨rfl, same⟩
  have equals : HasEnds ' ' ' ' " = " := by decide
  exact same.after (((hasEnds_identifier column).append equals).isPlain (by decide) (by decide))

theorem isEmpty_eq : assigned.isEmpty = assigned'.isEmpty := by
  cases h <;> rfl

end Assigned

theorem samePart_columnList (columns : List String) :
    SamePart (columnList columns) (columnList columns) := by
  apply SamePart.separated (by decide)
  rw [List.forall₂_map_left_iff, List.forall₂_map_right_iff, List.forall₂_same]
  exact fun column _ => .text ((hasEnds_identifier column).isPlain (by decide) (by decide))

/-- RETURNING is a part. -/
theorem coincide_returningClause (returning : Expr) :
    Coincide SamePart (returningClause (scope.under .postgres) returning)
      (returningClause (scope.under .sqlite) returning) := by
  unfold returningClause
  split
  · exact .ok .nil
  · exact (coincide_projectionSql returning).bind fun _ _ projection =>
      .pure (projection.after (by decide))

/-- WHERE is a part. -/
theorem coincide_whereClause (predicate : Expr) :
    Coincide SamePart (whereClause (scope.under .postgres) predicate)
      (whereClause (scope.under .sqlite) predicate) := by
  unfold whereClause
  split
  · exact .ok .nil
  · exact (coincide_sql predicate _).bind fun _ _ condition =>
      .pure (condition.after (by decide))

/-- A conflict clause is a part, its target in parentheses. -/
theorem coincide_conflictClause (table : String) (conflict : Option OnConflict) :
    Coincide SamePart (conflictClause (scope.under .postgres) table conflict)
      (conflictClause (scope.under .sqlite) table conflict) := by
  cases conflict with
  | none => exact .ok .nil
  | some conflict =>
    have target := (samePart_columnList conflict.target).statement
    have opening : IsOpening " ON CONFLICT (" := by decide
    have head := target.enclosed opening (by decide : IsClosing ")")
    unfold conflictClause
    refine .check ?_
    split
    · exact .error _
    · exact .pure (head.before (by decide))
    · refine (coincide_assignedColumns conflict.assignments).bind fun updates updates' same => ?_
      rw [isEmpty_eq same]
      exact .check (.pure ((head.before (by decide)).append (samePart_setList same)))

theorem isOpening_insertInto (s : InsertStatement) :
    IsOpening ("INSERT INTO " ++ quoteTable s.schema s.table ++ " (") := by
  have word : HasEnds 'I' ' ' "INSERT INTO " := by decide
  have bracket : HasEnds ' ' '(' " (" := by decide
  have ends := (word.append (hasEnds_table s.schema s.table)).append bracket
  exact ⟨ends.isOrdinary (by decide) (by decide), ends.closes, ends.opens⟩

/-- An INSERT is written alike, up to the spelling of its values. -/
theorem coincide_insert (scope : SqlScope) (s : InsertStatement) :
    Coincide SameStatement (insert (scope.under .postgres) s) (insert (scope.under .sqlite) s) := by
  refine (coincide_assignedColumns s.values).bind fun values values' same => ?_
  rw [isEmpty_eq same, columns_eq same]
  have columns := samePart_columnList (values'.map Prod.fst)
  have list : SamePart (separated ", " (values.map Prod.snd)) (separated ", " (values'.map Prod.snd)) :=
    .separated (by decide) (sameParts_values same)
  have turned : SameStatement
      (columnList (values'.map Prod.fst) ++ text ") VALUES (" ++ separated ", " (values.map Prod.snd))
      (columnList (values'.map Prod.fst) ++ text ") VALUES (" ++
        separated ", " (values'.map Prod.snd)) :=
    columns.statement.turn list.statement (by decide) (by decide) (by decide)
  have head := turned.enclosed (isOpening_insertInto s) (by decide : IsClosing ")")
  simp only [← List.append_assoc] at head
  exact .check <| (coincide_conflictClause s.table s.onConflict).bind fun _ _ conflict =>
    (coincide_returningClause s.returning).bind fun _ _ returning =>
      .pure ((head.append conflict).append returning).statement

/-- An UPDATE has no clauses that page rows. -/
theorem coincide_update (scope : SqlScope) (s : UpdateStatement) :
    Coincide SameStatement (update (scope.under .postgres) s) (update (scope.under .sqlite) s) := by
  have word : HasEnds 'U' ' ' "UPDATE " := by decide
  have set : HasEnds ' ' ' ' " SET " := by decide
  have head := (word.append (hasEnds_table s.schema s.table)).append set
  refine (coincide_assignedColumns s.assignments).bind fun values values' same => ?_
  rw [isEmpty_eq same]
  have changed := (samePart_setList same).after (head.isPlain (by decide) (by decide))
  exact .check <| .check <| (coincide_whereClause s.predicate).bind fun _ _ condition =>
    (coincide_returningClause s.returning).bind fun _ _ returning =>
      .pure ((changed.append condition).append returning).statement

/-- A DELETE has no clauses that page rows. -/
theorem coincide_delete (scope : SqlScope) (s : DeleteStatement) :
    Coincide SameStatement (delete (scope.under .postgres) s) (delete (scope.under .sqlite) s) := by
  have word : HasEnds 'D' ' ' "DELETE FROM " := by decide
  have head := (word.append (hasEnds_table s.schema s.table)).isPlain (by decide) (by decide)
  unfold delete
  exact .check ((coincide_whereClause s.predicate).bind fun _ _ condition =>
    .pure (condition.after head).statement)

/-! ### The tables of a SELECT -/

/-- A derived table has the limits of its query. -/
theorem samePart_derivedTable {query query' : Fragment} (h : SameStatement query query')
    (name : String) : SamePart (derivedTable query name) (derivedTable query' name) := by
  have word : HasEnds ')' ' ' ") AS " := by decide
  have ends := word.append (hasEnds_identifier name)
  exact h.enclosed (by decide) ⟨ends.isOrdinary (by decide) (by decide), ends.closes, ends.opens⟩

/-- A table under its alias begins and ends with a quote. -/
theorem isPlain_aliased (schema table name : String) :
    IsPlain (quoteTable schema table ++ " AS " ++ quoteIdentifier name) := by
  have word : HasEnds ' ' ' ' " AS " := by decide
  have ends := ((hasEnds_table schema table).append word).append (hasEnds_identifier name)
  exact ends.isPlain (by decide) (by decide)

/-- What is joined is a table, or a query in parentheses of its own. -/
theorem coincide_joinTarget {j j' : JoinSource} (h : j.Alike (Coincide SameStatement) j')
    (name : String) : Coincide SamePart (joinTarget j name) (joinTarget j' name) := by
  obtain ⟨-, inner, -, nested⟩ := h
  unfold joinTarget
  rw [← inner]
  split
  · exact .ok (.text (isPlain_aliased _ _ name))
  · exact nested.map fun _ _ query => samePart_derivedTable query name

theorem isPlain_joinKeyword (kind : JoinKind) : IsPlain (joinKeyword kind ++ " ") := by
  cases kind <;> decide

theorem isPlain_joinCondition (outer column inner name : String) :
    IsPlain (" ON " ++ quoteIdentifier outer ++ "." ++ quoteIdentifier column ++ " = " ++
      quoteIdentifier inner ++ "." ++ quoteIdentifier name) := by
  have word : HasEnds ' ' ' ' " ON " := by decide
  have point : HasEnds '.' '.' "." := by decide
  have equals : HasEnds ' ' ' ' " = " := by decide
  have row := (word.append (hasEnds_identifier outer)).append point
  have left := row.append (hasEnds_identifier column)
  have right := ((left.append equals).append (hasEnds_identifier inner)).append point
  exact (right.append (hasEnds_identifier name)).isPlain (by decide) (by decide)

/-- A join is written for one table or query, with a condition on names. -/
theorem coincide_joinClause (scope : SqlScope) {j j' : JoinSource}
    (h : j.Alike (Coincide SameStatement) j') (index : Nat) :
    Coincide SamePart (joinClause (scope.under .postgres) j index)
      (joinClause (scope.under .sqlite) j' index) := by
  have target := coincide_joinTarget h (tableAlias index)
  obtain ⟨kind, -, keys, -⟩ := h
  unfold joinClause
  rw [← kind, ← keys]
  refine target.bind fun _ _ target => ?_
  have clause := target.after (isPlain_joinKeyword j.kind)
  dsimp only
  split
  · exact .pure clause
  · exact .after _ fun outer => .pure (clause.before (isPlain_joinCondition _ _ _ _))

/-- The joins are parts, one by one. -/
theorem coincide_joinClauses (scope : SqlScope) {js js' : List JoinSource}
    (h : List.Forall₂ (JoinSource.Alike (Coincide SameStatement)) js js') (index : Nat) :
    Coincide (List.Forall₂ SamePart) (joinClauses (scope.under .postgres) js index)
      (joinClauses (scope.under .sqlite) js' index) := by
  induction h generalizing index with
  | nil => exact .ok .nil
  | cons here _ ih =>
    unfold joinClauses
    exact (coincide_joinClause scope here index).bind fun _ _ clause =>
      (ih (index + 1)).bind fun _ _ others => .pure (.cons clause others)

/-- FROM is written for a table, or for a query in parentheses of its own. -/
theorem coincide_fromClause (hasJoins : Bool) (table schema : String) (subquery : Operation)
    (aliasHint : String) {nested nested' : Except CompileError Fragment}
    (h : Coincide SameStatement nested nested') :
    Coincide (fun source source' => SamePart source.1 source'.1 ∧ source.2 = source'.2)
      (fromClause hasJoins table schema subquery aliasHint nested)
      (fromClause hasJoins table schema subquery aliasHint nested') := by
  have word : HasEnds 'F' ' ' "FROM " := by decide
  have start := word.append (hasEnds_table schema table)
  unfold fromClause
  split
  · split
    · have named : HasEnds ' ' ' ' " AS " := by decide
      have ends := (start.append named).append (hasEnds_identifier (tableAlias 0))
      exact .ok ⟨.text (ends.isPlain (by decide) (by decide)), rfl⟩
    · exact .ok ⟨.text (start.isPlain (by decide) (by decide)), rfl⟩
  · exact h.bind fun _ _ query =>
      .pure ⟨(samePart_derivedTable query _).after (by decide), rfl⟩

namespace SelectChain

/-- The same steps in the two dialects. -/
structure InBoth (c c' : SelectChain) : Prop where
  postgres : c.dialect = .postgres
  sqlite : c'.dialect = .sqlite
  params : c.params = c'.params
  rendered : List.Forall₂ (RenderedStep.Alike (Coincide SameStatement)) c.rendered c'.rendered

/-- The same clauses, and the same scope but for the dialect. -/
inductive InBothSources : List Fragment × SqlScope → List Fragment × SqlScope → Prop where
  | intro {clauses clauses' : List Fragment} (scope : SqlScope)
    (same : List.Forall₂ SamePart clauses clauses') :
    InBothSources (clauses, scope.under .postgres) (clauses', scope.under .sqlite)

variable {c c' : SelectChain} (h : c.InBoth c')

include h

theorem InBoth.steps : c.steps = c'.steps :=
  map_step_eq h.rendered

/-- The FROM and JOIN clauses, and the tables they introduce. -/
theorem coincide_sources : Coincide InBothSources c.sources c'.sources := by
  have joins := alike_joinSources h.rendered
  have found := alike_find? h.rendered
  unfold sources
  dsimp only
  rw [← isEmpty_joinSources_congr h.rendered, ← h.params, h.postgres, h.sqlite, ← joins.length_eq,
    ← place_congr h.steps]
  generalize c.rendered.find? (·.step.isFrom) = root,
    c'.rendered.find? (·.step.isFrom) = root' at found ⊢
  cases found with
  | none => exact .error _
  | @some r r' here =>
    obtain ⟨step, nested⟩ := r
    obtain ⟨_, nested'⟩ := r'
    obtain ⟨rfl, nested⟩ := here
    cases step with
    | fromSource table schema subquery aliasHint =>
      refine (coincide_fromClause _ _ _ _ _ nested).bind ?_
      rintro ⟨clause, aliases⟩ ⟨clause', _⟩ ⟨same, rfl⟩
      refine (coincide_joinClauses ⟨.postgres, c.params, [], _⟩ joins 1).bind ?_
      intro clauses clauses' others
      exact .pure (.intro ⟨.postgres, c.params, _, _⟩ (.cons same others))
    | _ => exact .error _

/-! ### The clauses of a SELECT -/

section

omit h

/-- The conditions are parts, one by one. -/
theorem coincide_conditions (predicates : List Expr) :
    Coincide (List.Forall₂ SamePart) (conditions (scope.under .postgres) predicates)
      (conditions (scope.under .sqlite) predicates) :=
  coincide_parts predicates .predicate

/-- One condition or several, WHERE is a part. -/
theorem sameParts_whereOf {conditions conditions' : List Fragment}
    (same : List.Forall₂ SamePart conditions conditions') :
    List.Forall₂ SamePart (whereOf conditions) (whereOf conditions') := by
  have list : SamePart (separated " AND " conditions) (separated " AND " conditions') :=
    .separated (by decide) same
  unfold whereOf
  cases same with
  | nil => exact .nil
  | cons => exact .cons (list.after (by decide)) .nil

end

/-- The SELECT clause is a part. -/
theorem coincide_projection :
    Coincide SamePart (c.projection (scope.under .postgres))
      (c'.projection (scope.under .sqlite)) := by
  have distinct : IsPlain (if c.steps.any Clause.isDistinct then "DISTINCT " else "") := by
    split <;> decide
  unfold projection
  rw [← h.steps]
  simp only [← place_congr h.steps]
  refine .after _ fun chosen => ?_
  cases chosen with
  | count => exact .pure (.text (by decide))
  | aggregate kind e =>
    have opening : IsOpening (aggregateKeyword kind ++ "(") := by cases kind <;> decide
    exact (coincide_sql e _).bind fun _ _ operand =>
      .pure (operand.statement.enclosed opening (by decide))
  | selector e =>
    exact (coincide_projectionSql e).bind fun _ _ selector => .pure (selector.after distinct)
  | key e => exact (coincide_sql e _).bind fun _ _ key => .pure (key.after distinct)
  | all =>
    have star : SamePart (text "*") (text "*") := .text (by decide)
    exact .pure (star.after distinct)

/-- GROUP BY is a part. -/
theorem coincide_groupBy :
    Coincide (List.Forall₂ SamePart) (c.groupBy (scope.under .postgres))
      (c'.groupBy (scope.under .sqlite)) := by
  unfold groupBy
  rw [← h.steps]
  split
  · exact .ok .nil
  · refine (coincide_parts _ _).bind fun parts parts' same => ?_
    have list : SamePart (separated ", " parts) (separated ", " parts') := .separated (by decide) same
    exact .pure (.cons (list.after (by decide)) .nil)

/-- ORDER BY is a part. -/
theorem coincide_orderBy :
    Coincide (List.Forall₂ SamePart) (c.orderBy (scope.under .postgres))
      (c'.orderBy (scope.under .sqlite)) := by
  unfold orderBy
  rw [← h.steps]
  split
  · exact .ok .nil
  · refine .ok (.cons (.text ?_) .nil)
    split <;> decide
  · refine (coincide_orders _).bind fun parts parts' same => ?_
    have list : SamePart (separated ", " parts) (separated ", " parts') := .separated (by decide) same
    exact .pure (.cons (list.after (by decide)) .nil)

omit h in
/-- The dialects differ in the limit of a chain that skips rows and has no limit of its own. -/
theorem limit_eq_or_unbounded (steps : List Step) :
    (Clause.limit .sqlite steps = Clause.limit .postgres steps ∧
        (Clause.limit .postgres steps = .none → Clause.page? .skip steps = none)) ∨
      Clause.limit .postgres steps = .none ∧ Clause.limit .sqlite steps = .unbounded ∧
        ∃ count, Clause.page? .skip steps = some count := by
  unfold Clause.limit
  split
  · exact .inl ⟨rfl, fun none => by cases none⟩
  split
  · exact .inl ⟨rfl, fun none => by cases none⟩
  split
  · exact .inl ⟨rfl, fun none => by cases none⟩
  cases skipped : Clause.page? .skip steps with
  | none => exact .inl ⟨rfl, fun _ => rfl⟩
  | some count => exact .inr ⟨rfl, rfl, count, rfl⟩

omit h in
/-- A limit that is fixed. -/
theorem sameLimit_word {word : String} (limit : (Piece.text word).beginsWith "LIMIT" = true) :
    SameLimit (text word) (text word) := by
  have bare := SameLimit.intro limit SamePart.nil
  rwa [List.append_nil] at bare

/-- An OFFSET stands last, and has a LIMIT before it in SQLite, be it one without effect. -/
theorem coincide_paging :
    Coincide SamePaging (c.paging (scope.under .postgres)) (c'.paging (scope.under .sqlite)) := by
  have given {count count' : Fragment} (same : SamePart count count') :
      SameLimit (text "LIMIT " ++ count) (text "LIMIT " ++ count') :=
    .intro (by decide) same
  unfold paging
  rw [h.postgres, h.sqlite, ← h.steps]
  obtain ⟨same, unpaged⟩ | ⟨postgres, sqlite, count, skipped⟩ := limit_eq_or_unbounded c.steps
  · rw [same]
    cases limited : Clause.limit .postgres c.steps with
    | none =>
      rw [unpaged limited]
      exact .pure .none
    | rows | unbounded =>
      dsimp only
      split
      · exact (coincide_sql _ _).bind fun _ _ skipped =>
          .pure (.both (sameLimit_word (by simp [Piece.beginsWith])) skipped)
      · exact .pure (.limit (sameLimit_word (by simp [Piece.beginsWith])))
    | given taken =>
      dsimp only
      split
      · exact (coincide_sql _ _).bind fun _ _ skipped => (coincide_sql taken _).bind fun _ _ taken =>
          .pure (.both (given taken) skipped)
      · exact (coincide_sql taken _).bind fun _ _ taken => .pure (.limit (given taken))
  · rw [postgres, sqlite, skipped]
    exact (coincide_sql count _).bind fun _ _ skipped => .pure (.unlimited skipped)

/-! ### The statement of a chain -/

omit h in
/-- A test asks whether there are rows of a statement in parentheses of its own. -/
theorem sameStatement_truthQuery {test : String}
    (opens : IsOpening ("SELECT CASE WHEN " ++ test ++ "("))
    {query query' : Fragment} (same : SameStatement query query') :
    SameStatement (truthQuery test query) (truthQuery test query') :=
  (same.enclosed opens (by decide)).statement

omit h in
/-- Without paging clauses a statement is its parts one after the other. -/
theorem sameStatement_clauses {clauses clauses' : List Fragment}
    (same : List.Forall₂ SamePart clauses clauses') :
    SameStatement (separated " " clauses) (separated " " clauses') :=
  (SamePart.separated (by decide) same).statement

/-- A SELECT is its parts, then the clauses that page rows. -/
theorem coincide_selectQuery : Coincide SameStatement c.selectQuery c'.selectQuery := by
  unfold selectQuery
  rw [rejectUnlowered_congr h.steps, h.steps, place_congr h.steps]
  refine .after _ fun _ => .check ((coincide_sources h).bind ?_)
  rintro _ _ ⟨scope, sources⟩
  refine (coincide_projection h).bind fun _ _ projection => ?_
  refine (coincide_conditions _).bind fun _ _ conditions => ?_
  refine (coincide_groupBy h).bind fun _ _ groupBy => ?_
  refine (coincide_orderBy h).bind fun _ _ orderBy => ?_
  refine (coincide_paging h).bind fun _ _ paging => .pure ?_
  have narrowed := List.rel_append sources (sameParts_whereOf conditions)
  have sorted := List.rel_append (List.rel_append narrowed groupBy) orderBy
  exact .paged (List.cons_ne_nil _ _) (.cons (projection.after (by decide)) sorted) paging

/-- A test whether there is a row has no paging clauses. -/
theorem coincide_anyQuery (predicate : Expr) :
    Coincide SameStatement (c.anyQuery predicate) (c'.anyQuery predicate) := by
  unfold anyQuery
  rw [rejectUnlowered_congr h.steps, h.steps]
  refine .after _ fun _ => (coincide_sources h).bind ?_
  rintro _ _ ⟨scope, sources⟩
  refine (coincide_conditions _).bind fun _ _ conditions => .pure ?_
  have narrowed := List.rel_append sources (sameParts_whereOf conditions)
  exact sameStatement_truthQuery (by decide)
    (sameStatement_clauses (.cons (.text (by decide)) narrowed))

/-- A test of all rows has its predicate in parentheses of its own. -/
theorem coincide_allQuery (predicate : Expr) :
    Coincide SameStatement (c.allQuery predicate) (c'.allQuery predicate) := by
  unfold allQuery
  rw [rejectUnlowered_congr h.steps, h.steps, place_congr h.steps]
  refine .after _ fun _ => (coincide_sources h).bind ?_
  rintro _ _ ⟨scope, sources⟩
  refine (coincide_conditions _).bind fun _ _ conditions => .check ?_
  refine (coincide_sql predicate _).bind fun _ _ condition => .pure ?_
  have opening : IsOpening "NOT (" := by decide
  have refuting := condition.statement.enclosed opening (by decide : IsClosing ")")
  have narrowed := List.rel_append sources
    (sameParts_whereOf (List.rel_append conditions (.cons refuting .nil)))
  exact sameStatement_truthQuery (by decide)
    (sameStatement_clauses (.cons (.text (by decide)) narrowed))

/-- A search has what it searches among in parentheses of its own. -/
theorem coincide_containsQuery (value : Expr) :
    Coincide SameStatement (c.containsQuery value) (c'.containsQuery value) := by
  unfold containsQuery
  rw [rejectUnlowered_congr h.steps, h.steps, place_congr h.steps, searchedSelector_congr h.steps]
  refine .after _ fun _ => .check <| .after _ fun selector => (coincide_sources h).bind ?_
  rintro _ _ ⟨scope, sources⟩
  refine (coincide_sql selector _).bind fun _ _ selected => ?_
  refine (coincide_conditions _).bind fun _ _ conditions => ?_
  refine (coincide_groupBy h).bind fun _ _ groupBy => ?_
  refine (coincide_sql value _).bind fun _ _ value => .pure ?_
  have narrowed := List.rel_append (List.rel_append sources (sameParts_whereOf conditions)) groupBy
  have word : IsPlain "SELECT " := by decide
  have head := (selected.after word).before (by decide : IsPlain " AS \"__sqlforge_value\"")
  have opening : IsOpening "SELECT 1 FROM (" := by decide
  have searched := (sameStatement_clauses (.cons head narrowed)).enclosed opening
    (by decide : IsClosing
      ") AS \"__sqlforge_contains\" WHERE \"__sqlforge_contains\".\"__sqlforge_value\" = ")
  exact sameStatement_truthQuery (by decide) (searched.append value).statement

/-- Both dialects choose the form of a SELECT by the same steps. -/
theorem coincide_statement : Coincide SameStatement c.statement c'.statement := by
  unfold statement
  rw [← h.steps]
  split
  · exact coincide_allQuery h _
  · exact coincide_anyQuery h _
  split
  · exact coincide_containsQuery h _
  · exact coincide_selectQuery h

end SelectChain

/-! ### Operations -/

/-- A statement is put together from steps whose nested statements agree. -/
theorem coincide_assemble (params : Json) {rendered rendered' : List RenderedStep}
    (h : List.Forall₂ (RenderedStep.Alike (Coincide SameStatement)) rendered rendered') :
    Coincide SameStatement (assemble .postgres params rendered)
      (assemble .sqlite params rendered') := by
  cases h with
  | nil => exact .error _
  | @cons r r' rest rest' here below =>
    have select : Coincide SameStatement
        (SelectChain.statement ⟨.postgres, params, (r :: rest).reverse⟩)
        (SelectChain.statement ⟨.sqlite, params, (r' :: rest').reverse⟩) :=
      SelectChain.coincide_statement ⟨rfl, rfl, rfl, List.rel_reverse (.cons here below)⟩
    obtain ⟨step, nested⟩ := r
    obtain ⟨_, nested'⟩ := r'
    obtain ⟨rfl, -⟩ := here
    cases step with
    | insert s => exact coincide_insert ⟨.postgres, params, [], false⟩ s
    | update s => exact coincide_update ⟨.postgres, params, [], false⟩ s
    | delete s => exact coincide_delete ⟨.postgres, params, [], false⟩ s
    | _ => exact select

/-- An operation, nested operations included, in the two dialects. -/
theorem coincide_operation (params : Json) (op : Operation) :
    Coincide SameStatement (op.sql .postgres params) (op.sql .sqlite params) := by
  refine coincide_assemble params (alike_renderLevel fun step hstep => ?_)
  rw [renderStep_eq, renderStep_eq]
  refine ⟨rfl, ?_⟩
  cases written : writtenQuery? step with
  | none => exact .ok SamePart.nil.statement
  | some nested =>
    have smaller := Nat.lt_trans (sizeOf_writtenQuery?_lt written) (List.sizeOf_lt_of_mem hstep)
    exact coincide_operation params nested
termination_by sizeOf op

end Sql

open Fragment in
/-- The two dialects agree on every query: both refuse it for the same reason, or both write it.
Then the statement for SQLite is the other one with a limit in front of every offset that has none,
respelled: it differs from that in the parentheses of negated placeholders and in how placeholders are
spelled.  The same placeholders are written in the same order. -/
theorem dialects_agree (query : BoundQuery) :
    (∃ e, Dialect.postgres.toSql query = .error e ∧ Dialect.sqlite.toSql query = .error e) ∨
      ∃ f g : Fragment,
        query.operation.sql .postgres query.params = .ok f ∧
        query.operation.sql .sqlite query.params = .ok g ∧
        Dialect.postgres.toSql query =
          .ok ⟨f.render .postgres, Sql.expandArrayParams query.params⟩ ∧
        Dialect.sqlite.toSql query =
          .ok ⟨g.render .sqlite, Sql.expandArrayParams query.params⟩ ∧
        Respelled (limitOffsets [false] f) g ∧ f.placeholders = g.placeholders := by
  have both := Sql.coincide_operation query.params query.operation
  unfold Dialect.toSql
  rcases both.error_or_ok with ⟨e, postgres, sqlite⟩ | ⟨f, g, postgres, sqlite, whole, completes, same⟩
  · rw [postgres, sqlite]
    exact .inl ⟨e, rfl, rfl⟩
  · rw [postgres, sqlite]
    rw [← completes.limitOffsets_eq] at same
    refine .inr ⟨f, g, rfl, rfl, rfl, rfl, same, ?_⟩
    rw [← same.placeholders, placeholders_limitOffsets]

/-- Every difference at once: `users.where(u => !p.hidden).skip(p.from)`. -/
example :
    let op : Operation :=
      [.page .skip (.param "p" "from" none), .filter (.negation (.booleanParam "p" "hidden")),
        .fromSource "users" "" [] ""]
    (op.sql .postgres (.obj [])).toOption.map (Fragment.render .postgres) =
        some "SELECT * FROM \"users\" WHERE NOT ($(hidden)) OFFSET $(from)" ∧
      (op.sql .sqlite (.obj [])).toOption.map (Fragment.render .sqlite) =
        some "SELECT * FROM \"users\" WHERE NOT @hidden LIMIT -1 OFFSET @from" :=
  ⟨rfl, rfl⟩

end FluentQuery
