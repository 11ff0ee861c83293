import FluentQuery.Proofs.Data.Assoc
import FluentQuery.Proofs.TwoRuns
import FluentQuery.Resolve.Chain

/-!
# What names mean

A name is looked up in several places, in an order that differs between identifiers, member paths and
calls.  Its meaning (`Bindings.meaning`) is what all of these look-ups see of it.  Two scopes in which
corresponding names mean the same (`Scope.Renames`) are the same for every look-up, and stay so when
a lambda binds its parameter on both sides.
-/

namespace FluentQuery

set_option autoImplicit false

/-! ### Meanings -/

/-- Names that are looked for as such, and the one that no parameter has. -/
def reservedNames : List String :=
  ["", "undefined", "Number", "Date", "Math", "JSON"]

/-- What the look-ups see of a name. -/
structure NameMeaning where
  isTable : Bool
  join : Option Int
  isShaped : Bool
  isGroup : Bool
  /-- The name itself if it stands for the parameters of the query, because it is written out. -/
  param : Option String
  /-- The name itself if it is one of those that are looked for as such. -/
  taken : Option String
deriving DecidableEq, Repr

/-- The meaning of a name, some names being taken. -/
def Bindings.meaning (taken : List String) (b : Bindings) (name : String) : NameMeaning where
  isTable := b.tables.contains name
  join := b.joins.find? name
  isShaped := name = b.joinResult
  isGroup := b.groupings.contains name
  param := if b.params.contains name then some name else none
  taken := if taken.contains name then some name else none

section

variable {taken : List String} {b b' : Bindings} {name name' : String}
  (same : b'.meaning taken name' = b.meaning taken name)

include same

theorem NameMeaning.tables_eq : b'.tables.contains name' = b.tables.contains name :=
  congrArg NameMeaning.isTable same

/-- If there is a name of a row of a table on one side, there is one on the other. -/
theorem NameMeaning.tables_ne_nil (is : b.tables.contains name = true) :
    b.tables ≠ [] ∧ b'.tables ≠ [] :=
  ⟨List.ne_nil_of_mem (List.contains_iff_mem.1 is),
    List.ne_nil_of_mem (List.contains_iff_mem.1 ((NameMeaning.tables_eq same).trans is))⟩

theorem NameMeaning.joins_eq : b'.joins.find? name' = b.joins.find? name :=
  congrArg NameMeaning.join same

theorem NameMeaning.shaped_iff : name' = b'.joinResult ↔ name = b.joinResult :=
  decide_eq_decide.1 (congrArg NameMeaning.isShaped same)

theorem NameMeaning.groups_eq : b'.groupings.contains name' = b.groupings.contains name :=
  congrArg NameMeaning.isGroup same

theorem NameMeaning.params_eq : b'.params.contains name' = b.params.contains name := by
  have params := congrArg NameMeaning.param same
  dsimp only [Bindings.meaning] at params
  rw [Bool.eq_iff_iff]
  constructor
  · intro there
    by_contra none
    rw [if_pos there, if_neg none] at params
    cases params
  · intro here
    by_contra none
    rw [if_pos here, if_neg none] at params
    cases params

theorem NameMeaning.eq_of_param (is : b.params.contains name = true) : name' = name := by
  have there := (NameMeaning.params_eq same).trans is
  have params := congrArg NameMeaning.param same
  simpa only [Bindings.meaning, is, there, if_true, Option.some.injEq] using params

/-- A taken name is the same on both sides. -/
theorem NameMeaning.taken_iff {other : String} (mem : other ∈ taken) :
    name' = other ↔ name = other := by
  have both := congrArg NameMeaning.taken same
  simp only [Bindings.meaning, List.contains_iff_mem] at both
  constructor
  · rintro rfl
    by_cases here : name ∈ taken
    · simpa [mem, here] using both.symm
    · simp [mem, here] at both
  · rintro rfl
    by_cases there : name' ∈ taken
    · simpa [mem, there] using both
    · simp [mem, there] at both

end

/-! ### Corresponding names -/

/-- Names that correspond in two scopes: those that lambda parameters bind in pairs, the innermost pair
first, and beyond these the same names. -/
def Corresponds : List (String × String) → String → String → Prop
  | [], a, a' => a = a'
  | (x, x') :: pairs, a, a' => (a = x ∧ a' = x') ∨ (a ≠ x ∧ a' ≠ x' ∧ Corresponds pairs a a')

namespace Corresponds

variable {pairs : List (String × String)} {a a' name name' : String}

/-- No name corresponds to two. -/
theorem eq_iff (h : Corresponds pairs a a') (h' : Corresponds pairs name name') :
    a' = name' ↔ a = name := by
  induction pairs with
  | nil => rw [(h : a = a'), (h' : name = name')]
  | cons pair pairs ih =>
    obtain ⟨x, x'⟩ := pair
    rcases h with ⟨rfl, rfl⟩ | ⟨ne, ne', outer⟩
    · rcases h' with ⟨rfl, rfl⟩ | ⟨other, other', -⟩
      · exact iff_of_true rfl rfl
      · exact iff_of_false other'.symm other.symm
    · rcases h' with ⟨rfl, rfl⟩ | ⟨-, -, outer'⟩
      · exact iff_of_false ne' ne
      · exact ih outer outer'

/-- A name that corresponds to itself may as well be bound on both sides. -/
theorem push (h : Corresponds pairs a a') (h' : Corresponds pairs name name) :
    Corresponds ((name, name) :: pairs) a a' := by
  by_cases same : a = name
  · exact .inl ⟨same, (h.eq_iff h').2 same⟩
  · exact .inr ⟨same, mt (h.eq_iff h').1 same, h⟩

end Corresponds

/-- Names that a lambda parameter may have in two scopes: one name, or two that are not taken. -/
def MayPair (taken : List String) (x x' : String) : Prop :=
  (x = x' ∧ x ≠ "") ∨ (x ∉ taken ∧ x' ∉ taken)

/-- Rows of a table and rows of a shape are not in scope together. -/
structure Bindings.Apart (b : Bindings) : Prop where
  shaped : b.joinResult ≠ "" → b.shape.isSome = true
  tables : b.tables ≠ [] → b.joinResult = ""
  grouped : b.tables ≠ [] → b.groupings ≠ [] → b.shape = none

/-- Bindings in which corresponding names mean the same. -/
structure Bindings.Renames (taken : List String) (pairs : List (String × String)) (b b' : Bindings) :
    Prop where
  reserved : reservedNames ⊆ taken
  shape : b'.shape = b.shape
  excluded : b'.excluded = b.excluded
  proposed : b.excluded ∈ taken
  meaning : ∀ a a', a ≠ "" → a' ≠ "" → Corresponds pairs a a' →
    b'.meaning taken a' = b.meaning taken a
  apart : b.Apart
  apart' : b'.Apart

/-- Scopes in which corresponding names mean the same; in all else they are equal, and rows are grouped
by the given key. -/
inductive Scope.Renames (taken : List String) (key : Expr) (pairs : List (String × String))
    (s : Scope) : Scope → Prop
  | intro {b' : Bindings} (bindings : s.bindings.Renames taken pairs b') (grouped : s.groupByKey = key)
      (helpers : s.helpers ∈ taken) : Scope.Renames taken key pairs s { s with bindings := b' }

/-! ### Binding -/

theorem NameSet.erase_ne_nil {names : NameSet} {name : String} (h : NameSet.erase names name ≠ []) :
    names ≠ [] := by
  rintro rfl
  exact h rfl

namespace Bindings

variable {taken : List String} {b b' : Bindings} {x x' name : String}

/-- A name that is not bound means what it meant. -/
theorem meaning_bindTable_of_ne (ne : name ≠ x) :
    (b.bindTable x).meaning taken name = b.meaning taken name := by
  simp only [meaning, bindTable, NameSet.contains_insert_of_ne _ ne, NameSet.contains_erase_of_ne _ ne,
    Assoc.find?_erase_of_ne _ (Ne.symm ne)]
  rfl

theorem meaning_bindTable_self (unshaped : b.joinResult = "") (named : x ≠ "") :
    (b.bindTable x).meaning taken x =
      ⟨true, none, false, false, none, if taken.contains x then some x else none⟩ := by
  simp only [meaning, bindTable, NameSet.contains_insert_self, NameSet.contains_erase_self,
    Assoc.find?_erase_self, unshaped, named, decide_false]
  rfl

theorem meaning_bindJoin_of_ne {index : Int} (ne : name ≠ x) (named : name ≠ "") :
    (b.bindJoin x index).meaning taken name = b.meaning taken name := by
  have shaped : decide (name = (b.bindJoin x index).joinResult) = decide (name = b.joinResult) := by
    rw [decide_eq_decide]
    unfold bindJoin
    dsimp only
    split
    · rename_i is
      rw [is]
      exact iff_of_false named ne
    · exact Iff.rfl
  unfold meaning
  rw [shaped]
  simp only [bindJoin, NameSet.contains_erase_of_ne _ ne, Assoc.find?_insert_of_ne _ _ (Ne.symm ne)]

theorem meaning_bindJoin_self {index : Int} (named : x ≠ "") :
    (b.bindJoin x index).meaning taken x =
      ⟨false, some index, false, false, none, if taken.contains x then some x else none⟩ := by
  have unshaped : ¬ (x = if b.joinResult = x then "" else b.joinResult) := by
    split
    · exact named
    · rename_i other
      exact fun same => other same.symm
  simp only [meaning, bindJoin, NameSet.contains_erase_self, Assoc.find?_insert_self, unshaped,
    decide_false]
  rfl

/-- There is one row of a shape at a time. -/
theorem meaning_bindShape_of_ne {shape : Option ResultShape} (ne : name ≠ x) :
    (b.bindShape x shape).meaning taken name = { b.meaning taken name with isShaped := false } := by
  simp only [meaning, bindShape, NameSet.contains_erase_of_ne _ ne,
    Assoc.find?_erase_of_ne _ (Ne.symm ne), ne, decide_false]

theorem meaning_bindShape_self {shape : Option ResultShape} :
    (b.bindShape x shape).meaning taken x =
      ⟨false, none, true, false, none, if taken.contains x then some x else none⟩ := by
  simp only [meaning, bindShape, NameSet.contains_erase_self, Assoc.find?_erase_self, decide_true]
  rfl

theorem meaning_bindParam_of_ne (ne : name ≠ x) :
    (b.bindParam x).meaning taken name = b.meaning taken name := by
  simp only [meaning, bindParam, NameSet.contains_insert_of_ne _ ne, NameSet.contains_erase_of_ne _ ne,
    Assoc.find?_erase_of_ne _ (Ne.symm ne)]
  rfl

theorem meaning_bindParam_self :
    (b.bindParam x).meaning taken x =
      { b.meaning taken x with isTable := false, join := none, param := some x } := by
  simp only [meaning, bindParam, NameSet.contains_insert_self, NameSet.contains_erase_self,
    Assoc.find?_erase_self, if_true]
  rfl

theorem meaning_bindGroup_of_ne (ne : name ≠ x) :
    { b with groupings := NameSet.insert b.groupings x : Bindings }.meaning taken name =
      b.meaning taken name := by
  simp only [meaning, NameSet.contains_insert_of_ne _ ne]

theorem meaning_bindGroup_self :
    { b with groupings := NameSet.insert b.groupings x : Bindings }.meaning taken x =
      { b.meaning taken x with isGroup := true } := by
  simp only [meaning, NameSet.contains_insert_self]

namespace Apart

theorem bindTable (h : b.Apart) (unshaped : b.joinResult = "")
    (grouped : b.groupings ≠ [] → b.shape = none) (x : String) : (b.bindTable x).Apart :=
  ⟨h.shaped, fun _ => unshaped, fun _ groups => grouped (NameSet.erase_ne_nil groups)⟩

theorem bindJoin (h : b.Apart) (x : String) (index : Int) : (b.bindJoin x index).Apart := by
  have kept (shaped : (b.bindJoin x index).joinResult ≠ "") : b.joinResult ≠ "" := by
    rintro empty
    simp only [Bindings.bindJoin, empty, ite_self, ne_eq, not_true] at shaped
  refine ⟨fun shaped => h.shaped (kept shaped), fun tables => ?_, fun tables groups => ?_⟩
  · by_contra shaped
    exact kept shaped (h.tables (NameSet.erase_ne_nil tables))
  · exact h.grouped (NameSet.erase_ne_nil tables) (NameSet.erase_ne_nil groups)

theorem bindParam (h : b.Apart) (x : String) : (b.bindParam x).Apart :=
  ⟨h.shaped, fun tables => h.tables (NameSet.erase_ne_nil tables),
    fun tables => h.grouped (NameSet.erase_ne_nil tables)⟩

theorem bindShape (none : b.tables = []) {shape : Option ResultShape} (there : shape.isSome = true)
    (x : String) : (b.bindShape x shape).Apart := by
  have empty : (b.bindShape x shape).tables = [] := by
    simp only [Bindings.bindShape, none]
    rfl
  exact ⟨fun _ => there, fun tables => absurd empty tables, fun tables => absurd empty tables⟩

end Apart

end Bindings

namespace MayPair

variable {taken : List String} {x x' : String}

theorem ne_empty (h : MayPair taken x x') (empty : "" ∈ taken) : x ≠ "" ∧ x' ≠ "" := by
  rcases h with ⟨rfl, named⟩ | ⟨free, free'⟩
  · exact ⟨named, named⟩
  · exact ⟨fun is => free (is ▸ empty), fun is => free' (is ▸ empty)⟩

/-- Either both names are taken, and one name, or none is. -/
theorem taken_eq (h : MayPair taken x x') : (if taken.contains x' then some x' else none) =
    if taken.contains x then some x else none := by
  rcases h with ⟨rfl, -⟩ | ⟨free, free'⟩
  · rfl
  · rw [if_neg (mt List.contains_iff_mem.1 free), if_neg (mt List.contains_iff_mem.1 free')]

end MayPair

namespace Bindings.Renames

variable {taken : List String} {pairs : List (String × String)} {b b' : Bindings} {x x' name : String}

theorem empty_taken (h : b.Renames taken pairs b') : "" ∈ taken :=
  h.reserved (List.mem_cons_self ..)

/-- A pair of names is bound: the new names mean the same, and so do all others. -/
theorem bound {c c' : Bindings} (h : b.Renames taken pairs b') (shape : c.shape = c'.shape)
    (excluded : c.excluded = b.excluded) (excluded' : c'.excluded = b'.excluded)
    (apart : c.Apart) (apart' : c'.Apart) (self : c'.meaning taken x' = c.meaning taken x)
    (other : ∀ a a', a ≠ "" → a' ≠ "" → a ≠ x → a' ≠ x' → b'.meaning taken a' = b.meaning taken a →
      c'.meaning taken a' = c.meaning taken a) : c.Renames taken ((x, x') :: pairs) c' := by
  refine ⟨h.reserved, shape.symm, ?_, ?_, ?_, apart, apart'⟩
  · rw [excluded, excluded', h.excluded]
  · rw [excluded]
    exact h.proposed
  · rintro a a' named named' (⟨rfl, rfl⟩ | ⟨ne, ne', outer⟩)
    · exact self
    · exact other a a' named named' ne ne' (h.meaning a a' named named' outer)

/-- Bindings mean the same as themselves. -/
theorem refl (reserved : reservedNames ⊆ taken) (proposed : b.excluded ∈ taken) (apart : b.Apart)
    (diagonal : ∀ a a', Corresponds pairs a a' → a = a') : b.Renames taken pairs b := by
  refine ⟨reserved, rfl, rfl, proposed, fun a a' _ _ c => ?_, apart, apart⟩
  rw [diagonal a a' c]

/-- Fewer names correspond. -/
theorem of_corresponds {fewer : List (String × String)} (h : b.Renames taken pairs b')
    (imp : ∀ a a', Corresponds fewer a a' → Corresponds pairs a a') : b.Renames taken fewer b' :=
  ⟨h.reserved, h.shape, h.excluded, h.proposed,
    fun a a' named named' c => h.meaning a a' named named' (imp a a' c), h.apart, h.apart'⟩

/-- The row an insertion proposed has the same name on both sides. -/
theorem bindExcluded (h : b.Renames taken pairs b') (mem : name ∈ taken) :
    (b.bindExcluded name).Renames taken pairs (b'.bindExcluded name) := by
  have same (c : Bindings) (a : String) :
      (c.bindExcluded name).meaning taken a = c.meaning taken a := rfl
  have apart {c : Bindings} (apart : c.Apart) : (c.bindExcluded name).Apart :=
    ⟨apart.shaped, apart.tables, apart.grouped⟩
  refine ⟨h.reserved, h.shape, rfl, mem, fun a a' named named' c => ?_, apart h.apart, apart h.apart'⟩
  rw [same, same]
  exact h.meaning a a' named named' c

/-- Query parameters have the same name on both sides. -/
theorem bindParam (h : b.Renames taken pairs b') (named : name ≠ "") (c : Corresponds pairs name name) :
    (b.bindParam name).Renames taken pairs (b'.bindParam name) := by
  refine ⟨h.reserved, h.shape, h.excluded, h.proposed, fun a a' ha ha' ca => ?_, h.apart.bindParam name,
    h.apart'.bindParam name⟩
  by_cases same : a = name
  · subst same
    obtain rfl := (ca.eq_iff c).2 rfl
    rw [meaning_bindParam_self, meaning_bindParam_self, h.meaning _ _ ha ha' ca]
  · rw [meaning_bindParam_of_ne same, meaning_bindParam_of_ne (mt (ca.eq_iff c).1 same)]
    exact h.meaning a a' ha ha' ca

variable (h : b.Renames taken pairs b') (pair : MayPair taken x x')

include h pair

theorem bindTable (unshaped : b.joinResult = "") (unshaped' : b'.joinResult = "")
    (grouped : b.groupings ≠ [] → b.shape = none) (grouped' : b'.groupings ≠ [] → b'.shape = none) :
    (b.bindTable x).Renames taken ((x, x') :: pairs) (b'.bindTable x') := by
  obtain ⟨named, named'⟩ := pair.ne_empty h.empty_taken
  refine h.bound h.shape.symm rfl rfl (h.apart.bindTable unshaped grouped x)
    (h.apart'.bindTable unshaped' grouped' x') ?_ ?_
  · rw [meaning_bindTable_self unshaped named, meaning_bindTable_self unshaped' named', pair.taken_eq]
  · intro a a' _ _ ne ne' same
    rw [meaning_bindTable_of_ne ne, meaning_bindTable_of_ne ne', same]

theorem bindJoin (index : Int) :
    (b.bindJoin x index).Renames taken ((x, x') :: pairs) (b'.bindJoin x' index) := by
  obtain ⟨named, named'⟩ := pair.ne_empty h.empty_taken
  refine h.bound h.shape.symm rfl rfl (h.apart.bindJoin x index) (h.apart'.bindJoin x' index) ?_ ?_
  · rw [meaning_bindJoin_self named, meaning_bindJoin_self named', pair.taken_eq]
  · intro a a' named named' ne ne' same
    rw [meaning_bindJoin_of_ne ne named, meaning_bindJoin_of_ne ne' named', same]

theorem bindShape (none : b.tables = []) (none' : b'.tables = []) {shape : Option ResultShape}
    (there : shape.isSome = true) :
    (b.bindShape x shape).Renames taken ((x, x') :: pairs) (b'.bindShape x' shape) := by
  refine h.bound rfl rfl rfl (.bindShape none there x) (.bindShape none' there x') ?_ ?_
  · rw [meaning_bindShape_self, meaning_bindShape_self, pair.taken_eq]
  · intro a a' _ _ ne ne' same
    rw [meaning_bindShape_of_ne ne, meaning_bindShape_of_ne ne', same]

omit pair in
/-- A group of rows, where a query parameter of the same name is the same one on both sides. -/
theorem bindGroup (none : b.tables = []) (none' : b'.tables = [])
    (same : b'.meaning taken x' = b.meaning taken x) :
    { b with groupings := NameSet.insert b.groupings x : Bindings }.Renames taken ((x, x') :: pairs)
      { b' with groupings := NameSet.insert b'.groupings x' } := by
  refine h.bound h.shape.symm rfl rfl ?_ ?_ ?_ ?_
  · exact ⟨h.apart.shaped, h.apart.tables, fun tables => absurd none tables⟩
  · exact ⟨h.apart'.shaped, h.apart'.tables, fun tables => absurd none' tables⟩
  · rw [meaning_bindGroup_self, meaning_bindGroup_self, same]
  · intro a a' _ _ ne ne' same
    rw [meaning_bindGroup_of_ne ne, meaning_bindGroup_of_ne ne', same]

/-- A window over rows of a table. -/
theorem bindTableRow (tables : b.tables ≠ []) (tables' : b'.tables ≠ []) :
    (b.bindTable x).Renames taken ((x, x') :: pairs) (b'.bindTable x') :=
  h.bindTable pair (h.apart.tables tables) (h.apart'.tables tables') (h.apart.grouped tables)
    (h.apart'.grouped tables')

/-- A window over rows of a shape. -/
theorem bindShapeRow (shaped : b.joinResult ≠ "") (shaped' : b'.joinResult ≠ "") :
    (b.bindShape x b.shape).Renames taken ((x, x') :: pairs) (b'.bindShape x' b'.shape) := by
  rw [h.shape]
  refine h.bindShape pair ?_ ?_ (h.apart.shaped shaped)
  · by_contra tables
    exact shaped (h.apart.tables tables)
  · by_contra tables
    exact shaped' (h.apart'.tables tables)

/-- A selector over the rows of a group. -/
theorem bindElement (groups : b.groupings ≠ []) (groups' : b'.groupings ≠ []) :
    (b.bindElement x).Renames taken ((x, x') :: pairs) (b'.bindElement x') := by
  unfold Bindings.bindElement
  rw [h.shape]
  cases shape : b.shape with
  | none =>
    have unshaped {c : Bindings} (apart : c.Apart) (same : c.shape = none) : c.joinResult = "" := by
      by_contra shaped
      have there := apart.shaped shaped
      rw [same] at there
      cases there
    exact h.bindTable pair (unshaped h.apart shape) (unshaped h.apart' (h.shape.trans shape))
      (fun _ => shape) fun _ => h.shape.trans shape
  | some found =>
    have none {c : Bindings} (apart : c.Apart) (same : c.shape = some found)
      (groups : c.groupings ≠ []) :
        c.tables = [] := by
      by_contra tables
      have gone := apart.grouped tables groups
      rw [same] at gone
      cases gone
    exact h.bindShape pair (none h.apart shape groups) (none h.apart' (h.shape.trans shape) groups') rfl

end Bindings.Renames

/-! ### Looking names up -/

/-- A nonempty name is that of a row of a shape only if there is one. -/
theorem shaped_eq {name joinResult : String} (named : name ≠ "") :
    (!joinResult.isEmpty && decide (name = joinResult)) = decide (name = joinResult) := by
  by_cases same : name = joinResult
  · subst same
    have there : name.isEmpty = false := by
      rw [← Bool.not_eq_true]
      exact fun empty => named (String.isEmpty_iff.1 empty)
    rw [there]
    rfl
  · rw [decide_eq_false same, Bool.and_false]

theorem NameMeaning.isShaped_eq {taken : List String} {b b' : Bindings} {name name' : String}
    (same : b'.meaning taken name' = b.meaning taken name) (named : name ≠ "") (named' : name' ≠ "") :
    (!b'.joinResult.isEmpty && decide (name' = b'.joinResult)) =
      (!b.joinResult.isEmpty && decide (name = b.joinResult)) := by
  rw [shaped_eq named, shaped_eq named', decide_eq_decide]
  exact NameMeaning.shaped_iff same

/-- What a group is called does not matter to what its members are. -/
theorem Scope.groupingAccess_agree {s s' : Scope} (grouped : s'.groupByKey = s.groupByKey)
    (name name' first : String) (rest : List String) :
    Agree Eq (s.groupingAccess name first rest) (s'.groupingAccess name' first rest) := by
  unfold groupingAccess
  rw [grouped]
  exact .ite .error (.refl _)

namespace Scope.Renames

variable {taken : List String} {key : Expr} {pairs : List (String × String)} {s s' : Scope}
  {name name' : String} (h : s.Renames taken key pairs s') (named : name ≠ "") (named' : name' ≠ "")
  (c : Corresponds pairs name name')

include h named named' c

theorem meaning_eq : s'.bindings.meaning taken name' = s.bindings.meaning taken name := by
  obtain ⟨bindings, -, -⟩ := h
  exact bindings.meaning name name' named named' c

theorem identifier_agree : Agree Eq (s.identifier name) (s'.identifier name') := by
  have same := h.meaning_eq named named' c
  obtain ⟨bindings, -, -⟩ := h
  have undefined : name' = "undefined" ↔ name = "undefined" :=
    NameMeaning.taken_iff same (bindings.reserved (by decide))
  unfold Scope.identifier
  dsimp only
  rw [NameMeaning.tables_eq same, NameMeaning.joins_eq same, NameMeaning.isShaped_eq same named named',
    NameMeaning.params_eq same, NameMeaning.groups_eq same, bindings.shape]
  simp only [undefined]
  refine .ite (.ok rfl) (.ite (.ok rfl) ?_)
  split
  · exact .ok rfl
  · refine .ite ?_ ?_
    · split <;> exact .ok rfl
    · split
      · rename_i is
        exact .ok (by rw [NameMeaning.eq_of_param same is])
      · exact .ite .error .error

theorem spreadRow?_eq : s'.spreadRow? (.identifier name') = s.spreadRow? (.identifier name) := by
  have same := h.meaning_eq named named' c
  obtain ⟨-, -, -⟩ := h
  simp only [spreadRow?, NameMeaning.tables_eq same, NameMeaning.joins_eq same]

theorem binds_eq : s'.bindings.binds name' = s.bindings.binds name := by
  have same := h.meaning_eq named named' c
  simp only [Bindings.binds, NameMeaning.tables_eq same, NameMeaning.params_eq same,
    NameMeaning.groups_eq same,
    Assoc.contains, NameMeaning.joins_eq same, NameMeaning.shaped_iff same]

theorem access_agree (path : List String) (index : Option Int) :
    Agree Eq (s.access name path index) (s'.access name' path index) := by
  have same := h.meaning_eq named named' c
  have binds := h.binds_eq named named' c
  obtain ⟨bindings, -, helpers⟩ := h
  have number : name' = "Number" ↔ name = "Number" :=
    NameMeaning.taken_iff same (bindings.reserved (by decide))
  have proposed := NameMeaning.taken_iff same bindings.proposed
  have helper := NameMeaning.taken_iff same helpers
  cases path with
  | nil => exact .error
  | cons first rest =>
    unfold Scope.access
    dsimp only at binds helper ⊢
    rw [NameMeaning.params_eq same, bindings.excluded, binds, NameMeaning.groups_eq same,
      NameMeaning.isShaped_eq same named named', bindings.shape, NameMeaning.joins_eq same,
      NameMeaning.tables_eq same]
    simp only [proposed, number, NameMeaning.shaped_iff same, helper]
    refine .ite .error (.ite (.refl _) (.ite ?_ (.ite ?_ ?_)))
    · split
      · exact .ok rfl
      · exact .error
    · exact (groupingAccess_agree rfl name name' first rest).map
    · split
      · rename_i is
        exact .ok (by rw [NameMeaning.eq_of_param same is])
      · split
        · exact .refl _
        · split
          · exact .ok rfl
          · exact .ite (.ok rfl) (.ite .error .error)

end Scope.Renames

end FluentQuery
