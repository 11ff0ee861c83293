import FluentQuery.Proofs.Effect
import FluentQuery.Proofs.Expr.Children
import FluentQuery.Proofs.Number.Text
import FluentQuery.Proofs.Sql.TextRules
import Mathlib.Algebra.BigOperators.Group.List.Basic
import Mathlib.Algebra.GroupWithZero.Nat

/-!
# The columns that an expression names

An object is written as a list of columns, all but rows and spreads under a name, ` AS "name"`.
`Fragment.named` counts the names in a text.  A node writes each of its operands in some position
(`Expr.slots`); an object is refused in every position but an open one, where its columns are listed.
Main statement: `Expr.fills_sql`, that the text of an expression has the names of the objects that
stand in it, and that these stand in open positions.
-/

namespace FluentQuery

set_option autoImplicit false

/-! ### Names in a text -/

/-- How the name of a column begins. -/
def Piece.nameMark : List Char :=
  [' ', 'A', 'S', ' ', '"']

/-- Whether a piece gives a column its name. -/
def Piece.isName : Piece → Bool
  | text value => nameMark.isPrefixOf value.toList
  | placeholder _ => false

namespace Fragment

/-- How many columns are named in a fragment. -/
def named (f : Fragment) : Nat :=
  f.countP Piece.isName

variable {f g : Fragment}

@[simp] theorem named_nil : named [] = 0 := rfl

@[simp] theorem named_append : named (f ++ g) = f.named + g.named :=
  List.countP_append

theorem named_text (value : String) :
    (text value).named = if Piece.nameMark.isPrefixOf value.toList then 1 else 0 := by
  simp [named, text, Piece.isName]

/-- A text that begins with another character than a name does is none. -/
theorem named_text_of_head {value : String} (h : value.toList.head? ≠ some ' ') :
    (text value).named = 0 := by
  rw [named_text, if_neg]
  intro is
  obtain ⟨rest, same⟩ := List.isPrefixOf_iff_prefix.1 is
  exact h (by rw [← same]; rfl)

/-- A text that begins with a word is no name if no name begins like that. -/
theorem named_text_append {word : String} (more : String)
    (apart : Piece.nameMark.isPrefixOf word.toList = false ∧
      word.toList.isPrefixOf Piece.nameMark = false) : (text (word ++ more)).named = 0 := by
  rw [named_text, if_neg]
  intro is
  have whole : word.toList <+: (word ++ more).toList := by
    rw [String.toList_append]
    exact List.prefix_append _ _
  rcases List.prefix_or_prefix_of_prefix (List.isPrefixOf_iff_prefix.1 is) whole with h | h
  · exact Bool.false_ne_true (apart.1.symm.trans (List.isPrefixOf_iff_prefix.2 h))
  · exact Bool.false_ne_true (apart.2.symm.trans (List.isPrefixOf_iff_prefix.2 h))

/-- A text that begins with a quoted name is not the name of a column. -/
theorem named_quoteIdentifier_append (name more : String) :
    (text (quoteIdentifier name ++ more)).named = 0 := by
  refine named_text_of_head ?_
  rw [String.toList_append, quoteIdentifier, String.toList_ofList]
  exact nofun

theorem named_quoteIdentifier (name : String) : (text (quoteIdentifier name)).named = 0 := by
  simpa using named_quoteIdentifier_append name ""

theorem named_quoteTable_append (schema table more : String) :
    (text (quoteTable schema table ++ more)).named = 0 := by
  unfold quoteTable
  split
  · exact named_quoteIdentifier_append table more
  · rw [String.append_assoc, String.append_assoc]
    exact named_quoteIdentifier_append schema _

/-- The name of a column is one. -/
theorem named_columnName (name : String) : (text (" AS " ++ quoteIdentifier name)).named = 1 := by
  rw [named_text, if_pos]
  rw [String.toList_append, quoteIdentifier, String.toList_ofList]
  simp [Piece.nameMark, Quote.encode]

/-- Text between fragments that is no name adds none. -/
theorem named_separated {separator : String} (apart : (text separator).named = 0)
    (fs : List Fragment) : (separated separator fs).named = named fs.flatten := by
  fun_induction separated separator fs with
  | case1 => rfl
  | case2 f => simp
  | case3 f rest _ ih => simp [ih, apart]

theorem named_eq_zero_of_forall {fs : List Fragment} (h : ∀ f ∈ fs, f.named = 0) :
    named fs.flatten = 0 := by
  induction fs with
  | nil => rfl
  | cons f rest ih =>
    rw [List.forall_mem_cons] at h
    rw [List.flatten_cons, named_append, h.1, ih h.2]

/-- A text without a blank has no name in it. -/
theorem named_eq_zero_of_render {d : Dialect} (h : ' ' ∉ (f.render d).toList) : f.named = 0 := by
  induction f with
  | nil => rfl
  | cons piece rest ih =>
    rw [render, String.toList_append, List.mem_append, not_or] at h
    have first : Piece.isName piece = false := by
      cases piece with
      | placeholder => rfl
      | text value =>
        refine Bool.eq_false_iff.2 fun is => ?_
        obtain ⟨more, same⟩ := List.isPrefixOf_iff_prefix.1 is
        exact h.1 (by simp [Piece.render, ← same, Piece.nameMark])
    rw [named, List.countP_cons, first]
    exact ih h.2

end Fragment

/-! ### Constants -/

/-- A text without a blank. -/
def Blankless (s : String) : Prop :=
  ' ' ∉ s.toList

instance (s : String) : Decidable (Blankless s) :=
  inferInstanceAs (Decidable (' ' ∉ s.toList))

theorem Numeral.blankless {s : String} (h : Numeral s) : Blankless s := by
  intro blank
  have numeral : isNumeral ' ' = true := h ' ' blank
  exact absurd numeral (by decide)

/-- No constant is written like the name of a column. -/
theorem Fragment.named_constant (v : Json) : (text (Sql.constant v)).named = 0 := by
  have blankless {s : String} (h : Blankless s) : (text s).named = 0 :=
    named_text_of_head fun blank => h (List.mem_of_head? blank)
  cases v with
  | null => rfl
  | bool b => cases b <;> rfl
  | str s =>
    refine named_text_of_head ?_
    rw [Sql.constant, quoteString, String.toList_ofList]
    exact nofun
  | int n => exact blankless (Numeral.of_int n).blankless
  | double x => exact blankless (Numeral.of_double x).blankless
  | arr | obj =>
    refine named_text_of_head ?_
    simp [Sql.constant, Json.compress]

/-! ### What is written for a node -/

namespace Expr

open Sql

/-- Whether a member of an object is written under its name. -/
def namesMember (member : String × Expr) : Bool :=
  !(member.1.isEmpty || member.2.isReference || member.2.isAllColumns)

/-- How many columns a node itself names. -/
def ownNames : Expr → Nat
  | object members => members.countP namesMember
  | _ => 0

/-- The operands that are part of the text of a node, with the positions in which they are written.
The members of an object are values, and a test for membership of nothing is written without the value
that is tested. -/
def slots (params : Json) : Expr → List (Position × Expr)
  | arithmetic _ l r | concat l r | caseInsensitive _ l r => [(.value, l), (.value, r)]
  | stringMethod _ e | aggregate _ e | isNull e _ => [(.value, e)]
  | caseWhen conditions elseResult =>
    conditions.flatMap (fun c => [(.predicate, c.1), (.open, c.2)]) ++ [(.open, elseResult)]
  | coalesce es => es.map (.open, ·)
  | window _ partitionBy orderBy =>
    partitionBy.map (.value, ·) ++ orderBy.map fun order => (.value, order.1)
  | comparison _ l r => [(.open, l), (.open, r)]
  | logical _ l r => [(.predicate, l), (.predicate, r)]
  | negation e => [(.predicate, e)]
  | textTest _ e (argument :: _) => [(.value, e), (.value, argument)]
  | membership value (param p property _) =>
    match params.get? (placeholderName p property) with
    | some (.arr []) => []
    | _ => [(.value, value)]
  | membership value (array (e :: es)) => (.value, value) :: (e :: es).map (.open, ·)
  | object members => members.map fun member => (.value, member.2)
  | _ => []

variable {params : Json} {e : Expr} {slot : Position × Expr}

/-- What is written for a node stands below it; the items of a list are written for the test they are
in. -/
theorem below_of_mem_slots (h : slot ∈ e.slots params) :
    slot.2 ∈ e.children ∨ ∃ c ∈ e.children, slot.2 ∈ c.children := by
  cases e with
  | caseWhen conditions elseResult =>
    refine .inl ?_
    rcases List.mem_append.1 h with h | h
    · obtain ⟨c, mem, h⟩ := List.mem_flatMap.1 h
      obtain ⟨condition, result⟩ := mem_conditionChildren mem
      simp only [List.mem_cons, List.not_mem_nil, or_false] at h
      rcases h with rfl | rfl
      · exact List.mem_append_left _ condition
      · exact List.mem_append_left _ result
    · rw [List.mem_singleton.1 h]
      exact List.mem_append_right _ (List.mem_singleton_self _)
  | textTest test operand arguments =>
    cases arguments with
    | nil => cases h
    | cons argument rest =>
      simp only [slots, List.mem_cons, List.not_mem_nil, or_false] at h
      rcases h with rfl | rfl <;> simp [children]
  | membership value list =>
    cases list with
    | param p property index =>
      simp only [slots] at h
      split at h
      · cases h
      · rw [List.mem_singleton.1 h]
        exact .inl (List.mem_cons_self ..)
    | array es =>
      cases es with
      | nil => cases h
      | cons first rest =>
        rcases List.mem_cons.1 h with rfl | h
        · exact .inl (List.mem_cons_self ..)
        · obtain ⟨item, mem, rfl⟩ := List.mem_map.1 h
          exact .inr ⟨_, List.mem_cons_of_mem _ (List.mem_singleton_self _), mem⟩
    | _ => cases h
  | window function partitionBy orderBy =>
    rcases List.mem_append.1 h with h | h
    · obtain ⟨_, mem, rfl⟩ := List.mem_map.1 h
      exact .inl (List.mem_append_left _ mem)
    · obtain ⟨_, mem, rfl⟩ := List.mem_map.1 h
      exact .inl (List.mem_append_right _ (List.mem_map_of_mem mem))
  | coalesce es =>
    obtain ⟨_, mem, rfl⟩ := List.mem_map.1 h
    exact .inl mem
  | object members =>
    obtain ⟨_, mem, rfl⟩ := List.mem_map.1 h
    exact .inl (List.mem_map_of_mem mem)
  | stringMethod | aggregate | isNull | negation =>
    rw [List.mem_singleton.1 h]
    exact .inl (List.mem_singleton_self _)
  | arithmetic | concat | caseInsensitive | comparison | logical =>
    simp only [slots, List.mem_cons, List.not_mem_nil, or_false] at h
    rcases h with rfl | rfl <;> simp [children]
  | _ => cases h

theorem walk_length_lt_of_mem_slots (h : slot ∈ e.slots params) :
    slot.2.walk.length < e.walk.length := by
  rcases below_of_mem_slots h with child | ⟨c, mem, grandchild⟩
  · exact walk_length_lt_of_mem_children child
  · exact Nat.lt_trans (walk_length_lt_of_mem_children grandchild) (walk_length_lt_of_mem_children mem)

/-- The nodes that are part of the text of an expression. -/
def writtenNodes (params : Json) (e : Expr) : List Expr :=
  e :: (e.slots params).attach.flatMap fun slot => slot.1.2.writtenNodes params
termination_by e.walk.length
decreasing_by exact walk_length_lt_of_mem_slots slot.2

/-- The nodes that are part of the text of an expression without being the expression itself. -/
def inside (params : Json) (e : Expr) : List Expr :=
  (e.slots params).flatMap fun slot => slot.2.writtenNodes params

theorem writtenNodes_eq (params : Json) (e : Expr) : e.writtenNodes params = e :: e.inside params := by
  rw [writtenNodes, inside]
  simp only [List.flatMap_subtype, List.unattach_attach]

/-- How many columns are named in an expression. -/
def names (params : Json) (e : Expr) : Nat :=
  ((e.writtenNodes params).map ownNames).sum

theorem names_eq (params : Json) (e : Expr) :
    e.names params = e.ownNames + ((e.slots params).map fun slot => slot.2.names params).sum := by
  unfold names
  rw [writtenNodes_eq, inside, List.map_cons, List.sum_cons, List.map_flatMap, List.flatMap_def,
    List.sum_flatten, List.map_map]
  rfl

/-- An object stands in an open position. -/
def Admits (slot : Position × Expr) : Prop :=
  slot.2.isObject = true → slot.1 = .open

/-- An expression in a position admits the objects in its text: each of them stands in an open
position. -/
def AdmitsAll (params : Json) (slot : Position × Expr) : Prop :=
  Admits slot ∧ ∀ node ∈ slot.2.writtenNodes params, ∀ below ∈ node.slots params, Admits below

theorem admitsAll_iff :
    AdmitsAll params slot ↔ Admits slot ∧ ∀ below ∈ slot.2.slots params, AdmitsAll params below := by
  unfold AdmitsAll
  rw [writtenNodes_eq, inside, List.forall_mem_cons]
  simp only [List.mem_flatMap]
  constructor
  · rintro ⟨own, here, later⟩
    exact ⟨own, fun below mem => ⟨here below mem, fun node inside => later node ⟨below, mem, inside⟩⟩⟩
  · rintro ⟨own, later⟩
    refine ⟨own, fun below mem => (later below mem).1, ?_⟩
    rintro node ⟨below, mem, inside⟩
    exact (later below mem).2 node inside

end Expr

/-! ### Texts that are written for expressions -/

/-- A text names the columns of the expressions in the given positions, which admit all the objects in
them. -/
structure Fragment.Fills (params : Json) (f : Fragment) (slots : List (Sql.Position × Expr)) :
    Prop where
  named : f.named = (slots.map fun slot => slot.2.names params).sum
  admits : ∀ slot ∈ slots, Expr.AdmitsAll params slot

namespace Fragment.Fills

open FluentQuery.Expr Sql

variable {params : Json} {f g : Fragment} {slots more : List (Position × Expr)}
variable {slot slot' : Position × Expr}

theorem of_named (h : Fills params f slots) (same : g.named = f.named) : Fills params g slots :=
  ⟨same.trans h.named, h.admits⟩

theorem nil (blank : f.named = 0) : Fills params f [] :=
  ⟨blank, List.forall_mem_nil _⟩

theorem append (h : Fills params f slots) (h' : Fills params g more) :
    Fills params (f ++ g) (slots ++ more) where
  named := by rw [named_append, h.named, h'.named, List.map_append, List.sum_append]
  admits := List.forall_mem_append.2 ⟨h.admits, h'.admits⟩

theorem pair (h : Fills params f [slot]) (h' : Fills params g [slot']) :
    Fills params (f ++ g) [slot, slot'] :=
  h.append h'

theorem cons {fs : List Fragment} (h : Fills params f [slot]) (h' : Fills params fs.flatten more) :
    Fills params (f :: fs).flatten (slot :: more) :=
  h.append h'

theorem perm (h : Fills params f slots) (same : slots.Perm more) : Fills params f more where
  named := h.named.trans (same.map _).sum_nat
  admits slot mem := h.admits slot (same.mem_iff.2 mem)

/-- The text of a node is that of what is written for it, if the node is no object. -/
theorem node {position : Position} {e : Expr} (noObject : e.isObject = false)
    (h : Fills params f (e.slots params)) : Fills params f [(position, e)] where
  named := by
    have own : e.ownNames = 0 := by
      cases e with
      | object => cases noObject
      | _ => rfl
    rw [List.map_singleton, List.sum_singleton, names_eq, own, Nat.zero_add, h.named]
  admits := by
    refine List.forall_mem_singleton.2 (admitsAll_iff.2 ⟨fun is => ?_, h.admits⟩)
    exact absurd (noObject.symm.trans is) Bool.false_ne_true

/-- A value with a name is written like an object with this one member. -/
theorem listed {key : String} {value : Expr} (h : Fills params f [(.value, value)])
    (names : namesMember (key, value) = true) (same : g.named = f.named + 1) :
    Fills params g [(.open, .object [(key, value)])] where
  named := by
    have own : (object [(key, value)]).ownNames = 1 := List.countP_cons_of_pos names
    have whole : (object [(key, value)]).names params = 1 + value.names params := by
      rw [names_eq, own]
      rfl
    rw [same, h.named, List.map_singleton, List.map_singleton, List.sum_singleton, List.sum_singleton,
      whole, Nat.add_comm]
  admits := by
    refine List.forall_mem_singleton.2 (admitsAll_iff.2 ⟨fun _ => rfl, ?_⟩)
    exact List.forall_mem_singleton.2 (h.admits _ (List.mem_singleton_self _))

/-- Nothing is written for an expression that is not there. -/
theorem absent {e : Expr} (isAbsent : e.isAbsent = true) (position : Position) :
    Fills params [] [(position, e)] := by
  cases e with
  | absent => exact .node rfl (.nil rfl)
  | _ => cases isAbsent

end Fragment.Fills

/-! ### Expressions -/

namespace Sql

open FluentQuery.Expr Fragment

variable {scope : SqlScope}

/-- In whatever position it is written, the text of an expression names the columns in it. -/
def FillsOut (scope : SqlScope) (e : Expr) : Prop :=
  ∀ position, Returns (fun f => Fills scope.params f [(position, e)]) (e.sql scope position)

theorem named_column (name table : String) (source : Option ColumnSource) :
    Returns (fun f => f.named = 0) (scope.column name table source) := by
  refine returns_column table source (named_quoteIdentifier name) fun q => ?_
  rw [String.append_assoc]
  exact named_quoteIdentifier_append q _

theorem named_row (table : String) (source : Option ColumnSource) :
    Returns (fun f => f.named = 0) (scope.row table source) :=
  returns_row table source rfl fun q => named_quoteIdentifier_append q _

/-- A null that is left out of a comparison names no column. -/
theorem named_comparison (d : Dialect) (op : ComparisonOp) (f g : Fragment) :
    (comparison d op f g).named = f.named + g.named := by
  have operator : (text (" " ++ op.sql ++ " ")).named = 0 := by cases op <;> rfl
  have null {h : Fragment} (is : (h.render d == "NULL") = true) : h.named = 0 := by
    refine named_eq_zero_of_render (d := d) ?_
    rw [beq_iff_eq.1 is]
    decide
  have isNull (test : String) (blank : (text test).named = 0) :
      (if g.render d == "NULL" then f ++ text test
        else if f.render d == "NULL" then g ++ text test
        else f ++ text (" " ++ op.sql ++ " ") ++ g).named = f.named + g.named := by
    split
    · rename_i is
      simp [null is, blank]
    split
    · rename_i is
      simp [null is, blank]
    · simp [operator]
  cases op with
  | eq => exact isNull _ rfl
  | neq => exact isNull _ rfl
  | _ => simp [comparison, operator]

theorem named_negation (d : Dialect) (f : Fragment) : (negation d f).named = f.named := by
  have opening : (text "NOT ").named = 0 ∧ (text "NOT (").named = 0 ∧ (text ")").named = 0 := by decide
  unfold negation
  split <;> simp [opening]

/-- A test for membership of nothing is written without the value. -/
theorem named_memberOf (negated : Bool) (f : Fragment) (items : List Fragment) :
    (memberOf negated f items).named = if items.isEmpty then 0 else f.named + named items.flatten := by
  have comma : (text ", ").named = 0 := rfl
  have closing : (text ")").named = 0 := rfl
  unfold memberOf
  split
  · cases negated <;> rfl
  · cases negated with
    | true =>
      have opening : (text " NOT IN (").named = 0 := rfl
      simp [opening, closing, named_separated comma]
    | false =>
      have opening : (text " IN (").named = 0 := rfl
      simp [opening, closing, named_separated comma]

theorem named_window (function : WindowFunction) (partitions orders : List Fragment) :
    (window function partitions orders).named = named partitions.flatten + named orders.flatten := by
  have blank : (text " ").named = 0 := rfl
  have comma : (text ", ").named = 0 := rfl
  have opening : (text (function.sql ++ "() OVER (")).named = 0 := by cases function <;> rfl
  have words : (text "PARTITION BY ").named = 0 ∧ (text "ORDER BY ").named = 0 ∧
      (text ")").named = 0 := by decide
  unfold window
  cases partitions with
  | nil => simp [named_separated, blank, comma, opening, words]
  | cons => simp [named_separated, blank, comma, opening, words]

theorem named_textTest (test : TextTest) (f g : Fragment) :
    (test.sql f g).named = f.named + g.named := by
  have words : (text " LIKE ").named = 0 ∧ (text " || '%'").named = 0 ∧
      (text " LIKE '%' || ").named = 0 := by decide
  cases test <;> simp [TextTest.sql, words]

theorem named_caseInsensitive (test : CaseInsensitiveTest) (f g : Fragment) :
    (test.sql f g).named = f.named + g.named := by
  have words : (text " = ").named = 0 ∧ (text " LIKE ").named = 0 ∧ (text " || '%'").named = 0 ∧
      (text " LIKE '%' || ").named = 0 := by decide
  cases test <;> simp [CaseInsensitiveTest.sql, words]

/-- The items of a parameter are placeholders, and there are some if the parameter has some. -/
theorem named_arrayItems (params : Json) (name : String) :
    Returns (fun items => named items.flatten = 0 ∧
      (items.isEmpty = true ↔ params.get? name = some (.arr []))) (arrayItems params name) := by
  unfold arrayItems
  split
  · rename_i values found
    refine .ok ⟨named_eq_zero_of_forall fun f mem => ?_, ?_⟩
    · obtain ⟨i, -, rfl⟩ := List.mem_map.1 mem
      rfl
    · cases values <;> simp [found, List.range_succ]
  · exact .error
  · exact .error

theorem fills_sqlList {es : List Expr} (position : Position) (h : ∀ e ∈ es, FillsOut scope e) :
    Returns (fun fs => Fills scope.params fs.flatten (es.map (position, ·)))
      (Expr.sqlList scope position es) := by
  induction es with
  | nil => exact .ok (.nil rfl)
  | cons e rest ih =>
    rw [List.forall_mem_cons] at h
    unfold Expr.sqlList
    exact .bind (h.1 position) fun f hf => .bind (ih h.2) fun fs hfs => .pure (hf.cons hfs)

theorem isEmpty_sqlList (position : Position) (es : List Expr) :
    Returns (fun fs => fs.isEmpty = es.isEmpty) (Expr.sqlList scope position es) := by
  cases es with
  | nil => exact .ok rfl
  | cons e rest =>
    unfold Expr.sqlList
    exact .bind (.any _) fun _ _ => .bind (.any _) fun _ _ => .pure rfl

theorem fills_sqlConditions {cs : List (Expr × Expr)}
    (h : ∀ e ∈ conditionChildren cs, FillsOut scope e) :
    Returns (fun fs => Fills scope.params fs.flatten
        (cs.flatMap fun c => [(.predicate, c.1), (.open, c.2)])) (Expr.sqlConditions scope cs) := by
  have words : (text "WHEN ").named = 0 ∧ (text " THEN ").named = 0 := by decide
  induction cs with
  | nil => exact .ok (.nil rfl)
  | cons c rest ih =>
    rw [conditionChildren, List.forall_mem_cons, List.forall_mem_cons] at h
    obtain ⟨condition, result, below⟩ := h
    unfold Expr.sqlConditions
    refine .bind (result .open) fun r hr => .bind (condition .predicate) fun f hf =>
      .bind (ih below) fun fs hfs => .pure ?_
    have clause : Fills scope.params (text "WHEN " ++ f ++ text " THEN " ++ r)
        [(.predicate, c.1), (.open, c.2)] := (hf.pair hr).of_named (by simp [words])
    exact clause.append hfs

theorem fills_sqlOrders {os : List (Expr × Bool)} (h : ∀ e ∈ os.map Prod.fst, FillsOut scope e) :
    Returns (fun fs => Fills scope.params fs.flatten (os.map fun order => (.value, order.1)))
      (Expr.sqlOrders scope os) := by
  induction os with
  | nil => exact .ok (.nil rfl)
  | cons o rest ih =>
    rw [List.map_cons, List.forall_mem_cons] at h
    have direction : (text (if o.2 then " DESC" else " ASC")).named = 0 := by split <;> rfl
    unfold Expr.sqlOrders
    refine .bind (h.1 .value) fun key hkey => .bind (ih h.2) fun fs hfs => .pure (.cons ?_ hfs)
    exact hkey.of_named (by simp [direction])

/-- The members of an object are values, and all but rows and spreads get a name. -/
theorem fills_sqlProperties {members : List (String × Expr)}
    (h : ∀ e ∈ members.map Prod.snd, FillsOut scope e) :
    Returns (fun fs =>
        named fs.flatten = members.countP namesMember +
          (members.map fun member => member.2.names scope.params).sum ∧
        ∀ member ∈ members, AdmitsAll scope.params (.value, member.2))
      (Expr.sqlProperties scope members) := by
  induction members with
  | nil => exact .ok ⟨rfl, List.forall_mem_nil _⟩
  | cons member rest ih =>
    rw [List.map_cons, List.forall_mem_cons] at h
    obtain ⟨value, below⟩ := h
    -- The text of the member, with its name if it has one.
    have others {part : Fragment} (admits : AdmitsAll scope.params (.value, member.2))
        (named : part.named = (if namesMember member then 1 else 0) + member.2.names scope.params) :
        Returns (fun fs =>
            Fragment.named fs.flatten = (member :: rest).countP namesMember +
              ((member :: rest).map fun member => member.2.names scope.params).sum ∧
            ∀ m ∈ member :: rest, AdmitsAll scope.params (.value, m.2))
          (Expr.sqlProperties scope rest >>= fun parts => pure (part :: parts)) := by
      refine .bind (ih below) fun fs hfs => .pure ⟨?_, List.forall_mem_cons.2 ⟨admits, hfs.2⟩⟩
      rw [List.flatten_cons, named_append, named, hfs.1, List.countP_cons, List.map_cons, List.sum_cons]
      omega
    unfold Expr.sqlProperties
    dsimp only
    split
    · rename_i unnamed
      have noName : namesMember member = false := by rw [namesMember, unnamed]; rfl
      refine .bind (value .value) fun part hpart =>
        others (hpart.admits _ (List.mem_singleton_self _)) ?_
      rw [noName, hpart.named]
      simp
    · rename_i named
      have hasName : namesMember member = true := by
        rw [namesMember, Bool.not_eq_true']
        exact Bool.eq_false_iff.2 named
      split
      · exact .error
      · rename_i noObject
        refine .bind (value .open) fun column hcolumn => others ?_ ?_
        · have admits := admitsAll_iff.1 (hcolumn.admits _ (List.mem_singleton_self _))
          exact admitsAll_iff.2 ⟨fun is => absurd is noObject, admits.2⟩
        · have words : (text "CASE WHEN ").named = 0 ∧
              (text " THEN TRUE ELSE FALSE END").named = 0 := by decide
          have same := hcolumn.named
          rw [List.map_singleton, List.sum_singleton] at same
          rw [hasName, if_pos rfl, named_append, named_columnName, Nat.add_comm, ← same]
          split <;> simp [words]

/-- A test for membership in a parameter, which may be negated. -/
theorem fills_memberOf {value : Expr} (h : FillsOut scope value) (negated : Bool)
    (p property : String) (index : Option Int) :
    Returns (fun f => Fills scope.params f
        ((Expr.membership value (.param p property index)).slots scope.params))
      (do
        let value ← value.sql scope .value
        let items ← arrayItems scope.params (placeholderName p property)
        return memberOf negated value items) := by
  refine .bind (h .value) fun f hf => .bind (named_arrayItems _ _) fun items ⟨noName, empty⟩ => .pure ?_
  simp only [slots]
  split
  · rename_i none
    exact .nil (by rw [named_memberOf, if_pos (empty.2 none)])
  · rename_i some
    have there : items.isEmpty = false := Bool.eq_false_iff.2 fun is => some (empty.1 is)
    exact hf.of_named (by simp [named_memberOf, there, noName])

end Sql

namespace Expr

open Fragment Sql

variable {scope : SqlScope}

theorem fills_caseWhen {conditions : List (Expr × Expr)} {elseResult : Expr}
    (below : ∀ e ∈ conditionChildren conditions, FillsOut scope e) (last : FillsOut scope elseResult) :
    FillsOut scope (caseWhen conditions elseResult) := by
  have words : (text "CASE ").named = 0 ∧ (text " ").named = 0 ∧ (text " ELSE ").named = 0 ∧
      (text " END").named = 0 := by decide
  intro position
  unfold Expr.sql
  refine returns_inValue ?_
  split
  · exact .error
  · refine .bind (fills_sqlConditions below) fun clauses hclauses => ?_
    dsimp only
    split
    · rename_i isAbsent
      refine .pure (.node rfl ((hclauses.append (.absent isAbsent .open)).of_named ?_))
      simp [words, named_separated]
    · refine .bind (last _) fun _ h => .pure (.node rfl ((hclauses.append h).of_named ?_))
      simp [words, named_separated]

theorem fills_aggregate {operand : Expr} (h : FillsOut scope operand) (function : AggregateFunction) :
    FillsOut scope (aggregate function operand) := by
  have words : (text (function.sql ++ "(*)")).named = 0 ∧ (text (function.sql ++ "(")).named = 0 ∧
      (text ")").named = 0 := by cases function <;> decide
  intro position
  unfold Expr.sql
  refine returns_inValue ?_
  split
  · rename_i isAbsent
    exact .pure (.node rfl ((Fills.absent isAbsent .value).of_named words.1))
  · refine .bind (h _) fun _ text => .pure (.node rfl (text.of_named ?_))
    simp [words]

/-- A test for membership in a parameter is negated in its own text. -/
theorem fills_negation {operand : Expr} (h : FillsOut scope operand)
    (deeper : ∀ d ∈ operand.children, FillsOut scope d) : FillsOut scope (negation operand) := by
  intro position
  have negated : Returns (fun f => Fills scope.params f [(position, negation operand)])
      (operand.sql scope .predicate >>= fun text => .ok (Sql.negation scope.dialect text)) :=
    .bind (h _) fun f text => .ok (.node rfl (text.of_named (named_negation _ f)))
  cases operand with
  | membership value list =>
    cases list with
    | param p property index =>
      have value' := deeper value (List.mem_cons_self ..)
      exact fun f sql => .node rfl (.node rfl (fills_memberOf value' true p property index f sql))
    | _ => exact negated
  | _ => exact negated

/-- A list of values has no text of its own: its elements are operands of the test, and there is no
text of the value that is tested if there are none. -/
theorem fills_membership {value list : Expr} (h : FillsOut scope value)
    (elements : ∀ d ∈ list.children, FillsOut scope d) : FillsOut scope (membership value list) := by
  intro position
  cases list with
  | param p property index =>
    exact fun f sql => .node rfl (fills_memberOf h false p property index f sql)
  | array es =>
    have items : Returns (fun fs => Fills scope.params fs.flatten (es.map (.open, ·)) ∧
        fs.isEmpty = es.isEmpty) (Expr.sqlList scope .open es) := fun fs run =>
      ⟨fills_sqlList .open elements fs run, isEmpty_sqlList .open es fs run⟩
    refine .bind (h _) fun _ text => .bind items fun fs written => .pure (.node rfl ?_)
    cases es with
    | nil =>
      have none : fs.isEmpty = true := written.2
      exact .nil (by rw [named_memberOf, if_pos none])
    | cons first rest =>
      have there : fs.isEmpty = false := written.2
      exact (text.append written.1).of_named (by simp [named_memberOf, there])
  | _ => exact .bind (h _) fun _ _ => .error

/-- An object is written in an open position only, where it names its members. -/
theorem fills_object {members : List (String × Expr)}
    (below : ∀ e ∈ members.map Prod.snd, FillsOut scope e) : FillsOut scope (object members) := by
  have comma : (text ", ").named = 0 := rfl
  intro position
  cases position with
  | predicate | value => exact .error
  | «open» =>
    unfold Expr.sql
    dsimp only
    split
    · exact .error
    · refine .bind (fills_sqlProperties below) fun fs h => .pure ⟨?_, ?_⟩
      · rw [named_separated comma, h.1, List.map_singleton, List.sum_singleton, names_eq, slots,
          List.map_map]
        rfl
      · refine List.forall_mem_singleton.2 (admitsAll_iff.2 ⟨fun _ => rfl, fun slot mem => ?_⟩)
        obtain ⟨member, inside, rfl⟩ := List.mem_map.1 mem
        exact h.2 member inside

/-- The text of a node names the columns in it if that is so of what stands below it: of its operands,
and of those of a list of values, which has no text of its own. -/
theorem fillsOut_of_children {e : Expr} (below : ∀ c ∈ e.children, FillsOut scope c)
    (deeper : ∀ c ∈ e.children, ∀ d ∈ c.children, FillsOut scope d) : FillsOut scope e := by
  have closing : (text ")").named = 0 := rfl
  intro position
  cases e with
  | absent => exact .error
  | column name table source =>
    refine returns_inValue fun f sql => .node rfl (.nil ?_)
    exact named_column name table source f sql
  | booleanColumn name table source =>
    refine fun f sql => .node rfl (.nil ?_)
    exact named_column name table source f sql
  | reference source table =>
    refine returns_inValue fun f sql => .node rfl (.nil ?_)
    exact named_row table source f sql
  | excludedColumn name =>
    refine returns_inValue (.ok (.node rfl (.nil (named_text_append _ ?_))))
    decide
  | constant v => exact returns_inValue (.ok (.node rfl (.nil (named_constant v))))
  | param => exact returns_inValue (.ok (.node rfl (.nil rfl)))
  | allColumns => exact returns_inValue (.ok (.node rfl (.nil rfl)))
  | booleanConstant value => exact .ok (.node rfl (.nil (by cases value <;> rfl)))
  | booleanParam => exact .ok (.node rfl (.nil rfl))
  | arithmetic op left right =>
    obtain ⟨left, right⟩ := forall_mem_pair.1 below
    have words : (text "(").named = 0 ∧ (text (" " ++ op.name ++ " ")).named = 0 := by
      cases op <;> decide
    unfold Expr.sql
    refine returns_inValue (.bind (right _) fun _ hr => .bind (left _) fun _ hl => .pure (.node rfl ?_))
    exact (hl.pair hr).of_named (by simp [words, closing])
  | concat left right =>
    obtain ⟨left, right⟩ := forall_mem_pair.1 below
    have operator : (text " || ").named = 0 := rfl
    unfold Expr.sql
    refine returns_inValue (.bind (right _) fun _ hr => .bind (left _) fun _ hl => .pure (.node rfl ?_))
    exact (hl.pair hr).of_named (by simp [operator])
  | stringMethod method operand =>
    have opening : (text (method.sql ++ "(")).named = 0 := by cases method <;> rfl
    unfold Expr.sql
    refine returns_inValue (.bind (List.forall_mem_singleton.1 below _) fun _ h => .pure (.node rfl ?_))
    exact h.of_named (by simp [opening, closing])
  | caseWhen conditions elseResult =>
    rw [children, List.forall_mem_append] at below
    exact fills_caseWhen below.1 (List.forall_mem_singleton.1 below.2) position
  | coalesce es =>
    have words : (text "COALESCE(").named = 0 ∧ (text ", ").named = 0 := by decide
    unfold Expr.sql
    refine returns_inValue (.bind (fills_sqlList _ below) fun _ h => .pure (.node rfl (h.of_named ?_)))
    simp [words, closing, named_separated]
  | aggregate function operand =>
    exact fills_aggregate (List.forall_mem_singleton.1 below) function position
  | window function partitionBy orderBy =>
    rw [children, List.forall_mem_append] at below
    unfold Expr.sql
    refine returns_inValue (.bind (fills_sqlList _ below.1) fun _ hp =>
      .bind (fills_sqlOrders below.2) fun _ ho => .pure (.node rfl ((hp.append ho).of_named ?_)))
    rw [named_window, named_append]
  | comparison op left right =>
    obtain ⟨left, right⟩ := forall_mem_pair.1 below
    unfold Expr.sql
    refine .bind (left _) fun _ hl => .bind (right _) fun _ hr => .pure (.node rfl ?_)
    exact (hl.pair hr).of_named (by rw [named_comparison, named_append])
  | logical op left right =>
    obtain ⟨left, right⟩ := forall_mem_pair.1 below
    have words : (text "(").named = 0 ∧ (text op.sql).named = 0 := by cases op <;> decide
    unfold Expr.sql
    refine .bind (right _) fun _ hr => .bind (left _) fun _ hl => .pure (.node rfl ?_)
    exact (hl.pair hr).of_named (by simp [words, closing])
  | negation operand =>
    exact fills_negation (List.forall_mem_singleton.1 below)
      (deeper operand (List.mem_singleton_self _)) position
  | textTest method operand arguments =>
    cases arguments with
    | nil => exact .error
    | cons argument rest =>
      unfold Expr.sql
      refine .bind (below operand (by simp [children]) _) fun _ h =>
        .bind (below argument (by simp [children]) _) fun _ h' => .pure (.node rfl ?_)
      exact (h.pair h').of_named (by rw [named_textTest, named_append])
  | caseInsensitive function left right =>
    obtain ⟨left, right⟩ := forall_mem_pair.1 below
    have lower : (text "LOWER(").named = 0 := rfl
    unfold Expr.sql
    refine .bind (left _) fun _ hl => .bind (right _) fun _ hr => .pure (.node rfl ?_)
    exact (hl.pair hr).of_named (by simp [named_caseInsensitive, lower, closing])
  | membership value list =>
    exact fills_membership (forall_mem_pair.1 below).1 (deeper list (by simp [children])) position
  | isNull operand negated =>
    have test : (text (if negated then " IS NOT NULL" else " IS NULL")).named = 0 := by
      cases negated <;> rfl
    unfold Expr.sql
    refine .bind (List.forall_mem_singleton.1 below _) fun _ h => .pure (.node rfl ?_)
    exact h.of_named (by simp [test])
  | object members => exact fills_object below position
  | array => cases position <;> exact .error

/-- The text of an expression names the columns of the objects in it, which stand in open positions. -/
theorem fills_sql (e : Expr) : FillsOut scope e := by
  induction e using grandchildren_induction with
  | step e below deeper => exact fillsOut_of_children below deeper

end Expr

end FluentQuery
