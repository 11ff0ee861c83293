import FluentQuery.Proofs.Data.Assoc
import FluentQuery.Proofs.Expr.Every
import FluentQuery.Resolve.Expr

/-!
# What expressions may speak of

A `Vocabulary` says which parameters of a query and which tables of a statement are known.  A node of
an expression is known if what it names is; a shape, if the tables of its fields are; and bindings
stay within a vocabulary if no name leads out of it.  Turning expressions into shapes and back, and
binding names to known rows, stays within the vocabulary.
-/

namespace FluentQuery

set_option autoImplicit false

/-- What expressions may speak of: parameters by their root, tables by their index. -/
structure Vocabulary where
  params : String → Prop
  tables : Int → Prop

namespace Vocabulary

/-- Declared parameters, and any table. -/
def ofNames (declared : NameSet) : Vocabulary :=
  ⟨(· ∈ declared), fun _ => True⟩

/-- The table of a source is known, if it has an index. -/
def Knows (v : Vocabulary) (source : Option ColumnSource) : Prop :=
  ∀ index, Expr.sourceIndex? source = some index → v.tables index

variable {v : Vocabulary} {index : Int}

@[simp] theorem knows_none : v.Knows none := by
  rintro _ ⟨⟩

@[simp] theorem knows_joinParam : v.Knows (some (.joinParam index)) ↔ v.tables index :=
  ⟨fun h => h index rfl, fun h _ heq => by cases heq; exact h⟩

@[simp] theorem knows_joinResult : v.Knows (some (.joinResult index)) ↔ v.tables index :=
  ⟨fun h => h index rfl, fun h _ heq => by cases heq; exact h⟩

@[simp] theorem knows_spread : v.Knows (some (.spread index)) ↔ v.tables index :=
  ⟨fun h => h index rfl, fun h _ heq => by cases heq; exact h⟩

/-- Without an index a column belongs to the first table. -/
theorem Knows.getD {source : Option ColumnSource} (h : v.Knows source) (first : v.tables 0) :
    v.tables ((Expr.sourceIndex? source).getD 0) := by
  cases heq : Expr.sourceIndex? source with
  | none => exact first
  | some index => exact h index heq

end Vocabulary

/-- Any parameter and any table. -/
def Vocabulary.everything : Vocabulary :=
  ⟨fun _ => True, fun _ => True⟩

/-! ### Shapes -/

namespace Shape

mutual

/-- Every table of a node has a property. -/
def Over (p : Int → Prop) : Shape → Prop
  | column table _ => p table
  | reference table => p table
  | array none => True
  | array (some element) => element.Over p
  | object properties => OverAll p properties

/-- Every table of the fields of an object has a property. -/
def OverAll (p : Int → Prop) : List (String × Shape) → Prop
  | [] => True
  | (_, node) :: rest => node.Over p ∧ OverAll p rest

end

variable {p q : Int → Prop}

/-- A shape is over tables if each of its members is. -/
theorem overAll_iff {properties : ResultShape} :
    OverAll p properties ↔ ∀ m ∈ properties, m.2.Over p := by
  induction properties with
  | nil => simp [OverAll]
  | cons m rest ih => simp only [OverAll, ih, List.forall_mem_cons]

mutual

/-- A shape is over more tables as well. -/
theorem Over.mono (imp : ∀ i, p i → q i) : ∀ (node : Shape), node.Over p → node.Over q
  | .column _ _, h => imp _ h
  | .reference _, h => imp _ h
  | .array none, _ => trivial
  | .array (some element), h => Over.mono imp element h
  | .object properties, h => OverAll.mono imp properties h

theorem OverAll.mono (imp : ∀ i, p i → q i) : ∀ (properties : List (String × Shape)),
    OverAll p properties → OverAll q properties
  | [], _ => trivial
  | (_, node) :: rest, h => ⟨Over.mono imp node h.1, OverAll.mono imp rest h.2⟩

end

mutual

theorem over_true : ∀ node : Shape, node.Over fun _ => True
  | .column _ _ => trivial
  | .reference _ => trivial
  | .array none => trivial
  | .array (some element) => over_true element
  | .object properties => overAll_true properties

theorem overAll_true : ∀ properties : ResultShape, OverAll (fun _ => True) properties
  | [] => trivial
  | (_, node) :: rest => ⟨over_true node, overAll_true rest⟩

end

/-- What is found in a shape is over the same tables. -/
theorem OverAll.lookup {properties : ResultShape} (h : OverAll p properties) {key : String}
    {node : Shape} (found : lookup properties key = some node) : node.Over p := by
  induction properties with
  | nil => cases found
  | cons m rest ih =>
    unfold Shape.lookup at found
    split at found
    · cases found
      exact h.1
    · exact ih h.2 found

/-- What a path leads to is over the same tables. -/
theorem Over.follow {node found : Shape} {path : List String} (h : node.Over p)
    (leads : node.follow path = some found) : found.Over p := by
  fun_induction Shape.follow node path with
  | case1 => cases leads; exact h
  | case2 properties key path ih =>
    obtain ⟨next, hnext, hfollow⟩ := Option.bind_eq_some_iff.1 leads
    exact ih next (OverAll.lookup h hnext) hfollow
  | case3 => cases leads

theorem OverAll.resolve {shape : ResultShape} (h : OverAll p shape) {path : List String}
    {found : Shape} (leads : ResultShape.resolve shape path = some found) : found.Over p := by
  cases path with
  | nil => cases leads
  | cons key path =>
    obtain ⟨node, hnode, hfollow⟩ := Option.bind_eq_some_iff.1 leads
    exact (h.lookup hnode).follow hfollow

end Shape

/-! ### Expressions -/

namespace Expr

/-- What a node names is known: a parameter is rooted at a known name or is an automatic parameter as
a whole, and a column or a row belongs to a known table. -/
def Known (v : Vocabulary) (auto : List String) : Expr → Prop
  | param root property index => v.params root ∨ (property = "" ∧ index = none ∧ root ∈ auto)
  | booleanParam root property => v.params root ∨ (property = "" ∧ root ∈ auto)
  | column _ _ source => v.Knows source
  | booleanColumn _ _ source => v.Knows source
  | reference source _ => v.Knows source
  | _ => True

/-- A parameter is rooted at a declared name, or it is an automatic parameter as a whole. -/
def Accounted (declared : NameSet) (auto : List String) : Expr → Prop
  | param root property index => root ∈ declared ∨ (property = "" ∧ index = none ∧ root ∈ auto)
  | booleanParam root property => root ∈ declared ∨ (property = "" ∧ root ∈ auto)
  | _ => True

/-- Knowing declared names only is accounting for parameters. -/
theorem Known.accounted {declared : NameSet} {auto : List String} {node : Expr}
    (h : Known (.ofNames declared) auto node) : Accounted declared auto node := by
  cases node with
  | param | booleanParam => exact h
  | _ => trivial

variable {v : Vocabulary} {auto : List String}

mutual

/-- Expressions that are made from a shape name its tables. -/
theorem known_ofShapeNode : ∀ (node : Shape) (e : Expr), node.Over v.tables →
    ofShapeNode node = some e → Every (Known v auto) e
  | .column _ _, e, h, he => by
    cases he
    simpa [Known, Shape.Over] using h
  | .reference _, e, h, he => by
    cases he
    simpa [Known, Shape.Over] using h
  | .object properties, e, h, he => by
    cases he
    exact (every_object _).2 ⟨trivial, known_ofShape properties h⟩
  | .array _, e, _, he => by cases he

/-- The same for the members of a shape. -/
theorem known_ofShape : ∀ (properties : List (String × Shape)), Shape.OverAll v.tables properties →
    ∀ m ∈ ofShape properties, Every (Known v auto) m.2
  | [], _, m, hm => by cases hm
  | (key, node) :: rest, h, m, hm => by
    unfold ofShape at hm
    split at hm
    · rename_i e he
      rcases List.mem_cons.1 hm with rfl | hrest
      · exact known_ofShapeNode node e h.1 he
      · exact known_ofShape rest h.2 m hrest
    · exact known_ofShape rest h.2 m hm

end

mutual

/-- The shape of a projected member is about the tables of the member; a column without an index
counts for the first table. -/
theorem over_shapeNode (first : v.tables 0) : ∀ (e : Expr) (node : Shape), Every (Known v auto) e →
    shapeNode e = some node → node.Over v.tables
  | .column name table source, node, h, hn => by
    cases hn
    exact Vocabulary.Knows.getD ((every_column _ _ _).1 h) first
  | .reference source table, node, h, hn => by
    cases hn
    exact Vocabulary.Knows.getD ((every_reference _ _).1 h) first
  | .object properties, node, h, hn => by
    cases hn
    exact overAll_shapeProperties first properties ((every_object _).1 h).2
  | .absent, _, _, hn | .excludedColumn _, _, _, hn | .constant _, _, _, hn
  | .param _ _ _, _, _, hn | .arithmetic _ _ _, _, _, hn | .concat _ _, _, _, hn
  | .stringMethod _ _, _, _, hn | .caseWhen _ _, _, _, hn | .coalesce _, _, _, hn
  | .aggregate _ _, _, _, hn | .window _ _ _, _, _, hn | .allColumns, _, _, hn
  | .comparison _ _ _, _, _, hn | .logical _ _ _, _, _, hn | .negation _, _, _, hn
  | .booleanConstant _, _, _, hn | .booleanColumn _ _ _, _, _, hn | .booleanParam _ _, _, _, hn
  | .textTest _ _ _, _, _, hn | .caseInsensitive _ _ _, _, _, hn | .membership _ _, _, _, hn
  | .isNull _ _, _, _, hn | .array _, _, _, hn => by cases hn

theorem overAll_shapeProperties (first : v.tables 0) : ∀ (properties : List (String × Expr)),
    (∀ m ∈ properties, Every (Known v auto) m.2) →
    Shape.OverAll v.tables (shapeProperties properties)
  | [], _ => trivial
  | (key, value) :: rest, h => by
    have below := overAll_shapeProperties first rest fun m hm => h m (List.mem_cons_of_mem _ hm)
    unfold shapeProperties
    split
    · rename_i node hnode
      split
      · exact below
      · exact ⟨over_shapeNode first value node (h _ (List.mem_cons_self ..)) hnode, below⟩
    · exact below

end

/-- The shape of a result names the tables of its expression. -/
theorem overAll_resultShape (first : v.tables 0) {e : Expr} {shape : ResultShape}
    (h : Every (Known v auto) e) (hshape : e.resultShape = some shape) :
      Shape.OverAll v.tables shape := by
  unfold resultShape at hshape
  split at hshape
  · cases hshape
    exact overAll_shapeProperties first _ ((every_object _).1 h).2
  · cases hshape

end Expr

/-! ### Bindings -/

namespace Bindings

/-- No name leads out of a vocabulary. -/
structure Within (v : Vocabulary) (b : Bindings) : Prop where
  params : ∀ name ∈ b.params, v.params name
  joins : ∀ name index, b.joins.find? name = some index → v.tables index
  shape : ∀ shape, b.shape = some shape → Shape.OverAll v.tables shape

namespace Within

variable {v : Vocabulary} {b : Bindings} (h : b.Within v) (name : String)

include h

/-- Names that are taken away lead nowhere. -/
theorem params_erase : ∀ other ∈ NameSet.erase b.params name, v.params other :=
  fun other hother => h.params other ((NameSet.mem_erase _ _ _).1 hother).1

theorem joins_erase (other : String) (index : Int)
    (found : (b.joins.erase name).find? other = some index) : v.tables index := by
  by_cases same : name = other
  · rw [same, Assoc.find?_erase_self] at found
    cases found
  · rw [Assoc.find?_erase_of_ne _ same] at found
    exact h.joins other index found

/-- A name may be bound to a row of the first table. -/
theorem bindTable : (b.bindTable name).Within v :=
  ⟨h.params_erase name, h.joins_erase name, h.shape⟩

/-- A name may be bound to a row of a known table. -/
theorem bindJoin {index : Int} (known : v.tables index) : (b.bindJoin name index).Within v := by
  refine ⟨h.params_erase name, fun other table found => ?_, h.shape⟩
  simp only [Bindings.bindJoin, Assoc.find?_insert] at found
  split at found
  · cases found
    exact known
  · exact h.joins other table found

/-- A name may be bound to a row of a known shape. -/
theorem bindShape {shape : Option ResultShape}
    (known : ∀ fields, shape = some fields → Shape.OverAll v.tables fields) :
    (b.bindShape name shape).Within v :=
  ⟨h.params_erase name, h.joins_erase name, known⟩

theorem bindParam (known : v.params name) : (b.bindParam name).Within v := by
  refine ⟨fun other hother => ?_, h.joins_erase name, h.shape⟩
  rcases (NameSet.mem_insert _ _ _).1 hother with rfl | earlier
  · exact known
  · exact h.params other earlier

theorem bindElement : (b.bindElement name).Within v := by
  unfold Bindings.bindElement
  split
  · rename_i shape hshape
    exact h.bindShape name fun fields same => h.shape fields (hshape.trans same)
  · exact h.bindTable name

end Within

end Bindings

end FluentQuery
