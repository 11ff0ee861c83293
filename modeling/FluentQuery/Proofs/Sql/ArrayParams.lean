import FluentQuery.Proofs.Data.Assoc
import FluentQuery.Proofs.Data.Joined
import FluentQuery.Proofs.Effect
import FluentQuery.Resolve.Scope
import FluentQuery.Sql.Statement

/-!
# Array parameters and the names of their items

Each item of an array parameter is bound to a name of its own, made of the array's name and the
position of the item.  Such a name determines the array and the position, and is never the name of an
automatic parameter; but it may be the name of another parameter, which is then bound to the item.
Main statement: `expandArrayParams_rebinds_iff`, which says exactly when.
-/

namespace FluentQuery

set_option autoImplicit false

namespace Sql

variable {params : Json}

/-- The name of an item of an array parameter. -/
def itemName (name : String) (position : Nat) : String :=
  name ++ "_" ++ toString position

theorem underscore_notMem_numeral (n : Nat) : '_' ∉ (toString n).toList :=
  Text.notMem_numeral n (by decide)

/-- The name of an item tells which one it is. -/
theorem itemName_inj {name name' : String} {i j : Nat} (h : itemName name i = itemName name' j) :
    name = name' ∧ i = j := by
  obtain ⟨hname, hnumeral⟩ := Text.joined_inj (c := '_') (by decide) (underscore_notMem_numeral i)
    (underscore_notMem_numeral j) h
  exact ⟨hname, Text.natNumeral_inj hnumeral⟩

/-- Automatic parameters have a letter after their last underscore. -/
theorem itemName_ne_autoParamName (name : String) (position : Nat) (number : Int) :
    itemName name position ≠ Scope.autoParamName number := by
  intro h
  have start : "_" ++ "_" ++ "p" = "__p" := by decide
  have joined : name ++ "_" ++ toString position = "_" ++ "_" ++ ("p" ++ toString number) := by
    rw [← String.append_assoc, start]
    exact h
  have letter : '_' ∉ ("p" ++ toString number).toList := by
    rw [String.toList_append, List.mem_append, not_or]
    exact ⟨by decide, Text.notMem_numeral number (by decide)⟩
  obtain ⟨-, numeral⟩ :=
    Text.joined_inj (c := '_') (by decide) (underscore_notMem_numeral position) letter joined
  have digit : 'p' ∈ (toString position).toList := by
    rw [numeral, String.toList_append]
    exact List.mem_append_left _ (by decide)
  exact absurd (Text.isDigit_of_mem_numeral digit) (by decide)

/-- A value is an item of an array parameter, and this is its name. -/
def IsItem (params : Json) (key : String) (value : Json) : Prop :=
  ∃ name items position, params.get? name = some (.arr items) ∧ items[position]? = some value ∧
    key = itemName name position

/-- With one value for each parameter there is one item for each name. -/
theorem IsItem.unique {key : String} {value value' : Json} (h : IsItem params key value)
    (h' : IsItem params key value') : value = value' := by
  obtain ⟨name, items, position, harray, hitem, rfl⟩ := h
  obtain ⟨name', items', position', harray', hitem', heq⟩ := h'
  obtain ⟨rfl, rfl⟩ := itemName_inj heq
  rw [harray] at harray'
  cases harray'
  exact Option.some.inj (hitem.symm.trans hitem')

/-- The entries that are added are the items, each under its name. -/
theorem mem_additions (distinct : (Assoc.keys params.members).Nodup) (key : String) (value : Json) :
    (key, value) ∈ (params.members.flatMap fun (name, value) =>
      match value with
      | .arr items => itemEntries name items
      | _ => []) ↔ IsItem params key value := by
  rw [List.mem_flatMap]
  constructor
  · rintro ⟨⟨name, array⟩, hentry, hmem⟩
    dsimp only at hmem
    split at hmem
    · rename_i items
      obtain ⟨position, hposition, heq⟩ := List.mem_mapIdx.1 hmem
      cases heq
      refine ⟨name, items, position, ?_, List.getElem?_eq_getElem hposition, rfl⟩
      rw [← Json.find?_members]
      exact Assoc.find?_of_mem distinct hentry
    · cases hmem
  · rintro ⟨name, items, position, harray, hitem, rfl⟩
    rw [← Json.find?_members] at harray
    refine ⟨(name, .arr items), Assoc.mem_of_find? harray, ?_⟩
    obtain ⟨hposition, hvalue⟩ := List.getElem?_eq_some_iff.1 hitem
    exact List.mem_mapIdx.2 ⟨position, hposition, by rw [hvalue, itemName]⟩

/-- What a name is bound to after expansion: an item with that name, else what it was bound to. -/
theorem get?_expandArrayParams (distinct : (Assoc.keys params.members).Nodup) (key : String)
    (value : Json) :
    (expandArrayParams params).get? key = some value ↔
      IsItem params key value ∨
        (params.get? key = some value ∧ ∀ item, ¬ IsItem params key item) := by
  have expanded : (expandArrayParams params).get? key = _ := Assoc.find?_merge params.members _ key
  rw [expanded, Json.find?_members]
  cases hfound : Assoc.find? (List.reverse _) key with
  | some item =>
    have hitem : IsItem params key item :=
      (mem_additions distinct key item).1 (List.mem_reverse.1 (Assoc.mem_of_find? hfound))
    rw [Option.some_or, Option.some.injEq]
    constructor
    · rintro rfl
      exact .inl hitem
    · rintro (hvalue | ⟨-, none⟩)
      · exact hitem.unique hvalue
      · exact absurd hitem (none item)
  | none =>
    have none : ∀ item, ¬ IsItem params key item := by
      intro item hitem
      rw [Assoc.find?_eq_none_iff] at hfound
      refine hfound (List.mem_map.2 ⟨(key, item), List.mem_reverse.2 ?_, rfl⟩)
      exact (mem_additions distinct key item).2 hitem
    rw [Option.none_or]
    constructor
    · intro hvalue
      exact .inr ⟨hvalue, none⟩
    · rintro (hitem | ⟨hvalue, -⟩)
      · exact absurd hitem (none value)
      · exact hvalue

theorem toSql_params {d : Dialect} {query : BoundQuery} {result : SqlResult}
    (h : d.toSql query = .ok result) : result.params = expandArrayParams query.params := by
  obtain ⟨sql, -, h⟩ := outcome_bind_eq_ok.1 h
  cases h
  rfl

/-- Items are bound to their names, and nothing else is added.  A parameter keeps its value exactly
if no item with another value has its name; automatic parameters always do.  The parameters of a
statement are expanded in this way. -/
theorem expandArrayParams_rebinds_iff {params : Json}
    (distinct : (Assoc.keys params.members).Nodup) :
    (∀ name items position item, params.get? name = some (.arr items) →
      items[position]? = some item →
      (expandArrayParams params).get? (itemName name position) = some item) ∧
    (∀ key value, params.get? key = some value →
      ((expandArrayParams params).get? key = some value ↔
        ∀ name items position item, params.get? name = some (.arr items) →
          items[position]? = some item → key = itemName name position → item = value)) ∧
    (∀ number value, params.get? (Scope.autoParamName number) = some value →
      (expandArrayParams params).get? (Scope.autoParamName number) = some value) ∧
    (∀ key value, (expandArrayParams params).get? key = some value →
      params.get? key = some value ∨ IsItem params key value) ∧
    ∀ (d : Dialect) op result, d.toSql ⟨op, params⟩ = .ok result →
      result.params = expandArrayParams params := by
  refine ⟨?_, ?_, ?_, ?_, fun d op result run => toSql_params run⟩
  · intro name items position item harray hitem
    exact (get?_expandArrayParams distinct _ _).2 (.inl ⟨name, items, position, harray, hitem, rfl⟩)
  · intro key value hvalue
    rw [get?_expandArrayParams distinct]
    constructor
    · rintro (hown | ⟨-, none⟩) name items position item harray hitem hname
      · exact IsItem.unique ⟨name, items, position, harray, hitem, hname⟩ hown
      · exact absurd ⟨name, items, position, harray, hitem, hname⟩ (none item)
    · intro same
      by_cases hitem : ∃ item, IsItem params key item
      · obtain ⟨item, name, items, position, harray, hposition, hname⟩ := hitem
        obtain rfl := same name items position item harray hposition hname
        exact .inl ⟨name, items, position, harray, hposition, hname⟩
      · exact .inr ⟨hvalue, fun item h => hitem ⟨item, h⟩⟩
  · intro number value hvalue
    refine (get?_expandArrayParams distinct _ _).2 (.inr ⟨hvalue, ?_⟩)
    rintro item ⟨name, items, position, -, -, hname⟩
    exact itemName_ne_autoParamName name position number hname.symm
  · intro key value hvalue
    rcases (get?_expandArrayParams distinct key value).1 hvalue with hitem | ⟨hold, -⟩
    · exact .inr hitem
    · exact .inl hold

/-- Of two parameters that end in a number only the one with the name of an item is rebound. -/
theorem expandArrayParams_rebinds_iff_ids :
    let params : Json := .obj [("ids", .arr [.int 7]), ("ids_0", .int 1), ("ids_1", .int 2)]
    (expandArrayParams params).get? "ids_0" = some (.int 7) ∧
      (expandArrayParams params).get? "ids_1" = some (.int 2) := by
  intro params
  obtain ⟨items, kept, -⟩ := @expandArrayParams_rebinds_iff params (by decide)
  refine ⟨items "ids" [.int 7] 0 (.int 7) rfl rfl, (kept "ids_1" (.int 2) rfl).2 ?_⟩
  intro name items position item harray hitem hname
  have written : "ids_1" = itemName "ids" 1 := by decide
  obtain ⟨rfl, rfl⟩ := itemName_inj (written.symm.trans hname)
  cases harray
  cases hitem

/-- Expansion does not keep every parameter. -/
theorem expandArrayParams_rebinds_parameter :
    ¬ ∀ params : Json, (Assoc.keys params.members).Nodup → ∀ key value,
      params.get? key = some value → (expandArrayParams params).get? key = some value := by
  intro keeps
  have kept : (expandArrayParams (.obj [("ids", .arr [.int 7]), ("ids_0", .int 1)])).get? "ids_0" =
      some (.int 1) := keeps _ (by decide) "ids_0" (.int 1) rfl
  have rebound : (expandArrayParams (.obj [("ids", .arr [.int 7]), ("ids_0", .int 1)])).get? "ids_0" =
      some (.int 7) := rfl
  rw [rebound] at kept
  cases kept

end Sql

end FluentQuery
