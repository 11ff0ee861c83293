import FluentQuery.Proofs.Sql.Accesses
import FluentQuery.Proofs.Sql.ArrayParams

/-!
# Integer literals

A whole number is written without a sign and is below 2^64.  Its negative is taken in signed 64 bits
and an index in signed 32 bits, and both wrap: the negative keeps its value up to 2^63
(`Json.wrapSigned_neg`), an index below 2^31 (`Json.wrapSigned_eq_iff`).  Whether an index is read
at all depends on the names before it alone (`Node.resolve_indexed_cases`).  Main statement:
`integer_literals_keep_value_iff`.
-/

namespace FluentQuery

set_option autoImplicit false

/-! ### Wrapped numbers -/

namespace Json

theorem wrapSigned_eq_iff (n : Nat) : wrapSigned 32 n = n ↔ n < Nat.pow 2 31 := by
  have size : Nat.pow 2 32 = 4294967296 := rfl
  have half : Nat.pow 2 31 = 2147483648 := rfl
  rw [wrapSigned, size, half]
  constructor
  · intro same
    have below : (n : Int).bmod 4294967296 < (4294967296 + 1) / 2 := Int.bmod_lt (by decide)
    omega
  · intro below
    exact Int.bmod_eq_of_le_mul_two (by omega) (by omega)

/-- The negative of a number up to the middle of the range is the negative that it stands for; that
of a larger one is positive. -/
theorem wrapSigned_neg {n : Nat} (fits : n < Nat.pow 2 64) :
    wrapSigned 64 (-(wrapSigned 64 n)) =
      if n ≤ Nat.pow 2 63 then -(n : Int) else (Nat.pow 2 64 : Nat) - (n : Int) := by
  have size : Nat.pow 2 64 = 18446744073709551616 := rfl
  have half : Nat.pow 2 63 = 9223372036854775808 := rfl
  rw [wrapSigned, wrapSigned, Int.bmod_neg_bmod]
  rw [size] at fits ⊢
  rw [half]
  split
  · exact Int.bmod_eq_of_le_mul_two (by omega) (by omega)
  · rw [← Int.sub_bmod_left]
    exact Int.bmod_eq_of_le_mul_two (by omega) (by omega)

end Json

/-! ### Negative literals -/

/-- A negated literal becomes a parameter of its own, bound to its wrapped negative. -/
theorem Node.resolve_negative (n : Nat) (isPredicate : Bool) (s : Scope) :
    (Node.unary "-" (.literal (.int n))).resolve isPredicate s =
      .ok (.param (Scope.autoParamName (s.autoParamCounter + 1)) "" none)
        (s.addAutoParam (.int (Json.wrapSigned 64 (-(Json.wrapSigned 64 n)))) "" none).2 := by
  rw [Node.resolve]
  rfl

theorem Scope.find?_addAutoParam (s : Scope) (value : Json) (fieldName : String)
    (sourceTable : Option Int) :
    (s.addAutoParam value fieldName sourceTable).2.autoParams.find?
      (Scope.autoParamName (s.autoParamCounter + 1)) = some value :=
  Assoc.find?_insert_self _ _ _

/-! ### Indices -/

/-- A name means something that is looked up before the parameter of that name. -/
def Bindings.Hides (b : Bindings) (root : String) : Prop :=
  b.excluded ≠ "" ∧ root = b.excluded ∨ b.groupings.contains root = true

namespace Scope

variable {s : Scope} {root : String}

/-- Only a parameter has indices. -/
theorem access_index_of_undeclared (undeclared : ¬ s.bindings.params.contains root = true)
    (first : String) (rest : List String) (i : Int) :
    s.access root (first :: rest) (some i) = .error .indexOffParameter := by
  have unlisted : root ∉ s.bindings.params := fun mem => undeclared (List.contains_iff_mem.2 mem)
  simp [Scope.access, unlisted]

theorem access_index_of_declared (declared : s.bindings.params.contains root = true)
    (first : String) (rest : List String) (i : Int) :
    s.access root (first :: rest) (some i) =
      if !s.bindings.excluded.isEmpty && root = s.bindings.excluded then
        if rest.isEmpty then .ok (.expr (.excludedColumn first)) else .error .excludedPath
      else if s.bindings.groupings.contains root then .expr <$> s.groupingAccess root first rest
      else .ok (.expr (.param root (Text.dotted (first :: rest)) (some i))) := by
  have bound : s.bindings.binds root = true := by
    rw [Bindings.binds, declared, Bool.or_true, Bool.true_or, Bool.true_or, Bool.true_or]
  simp [Scope.access, List.contains_iff_mem.1 declared, bound]

theorem access_index_of_not_hides (declared : s.bindings.params.contains root = true)
    (plain : ¬ s.bindings.Hides root) (first : String) (rest : List String) (i : Int) :
    s.access root (first :: rest) (some i) =
      .ok (.expr (.param root (Text.dotted (first :: rest)) (some i))) := by
  obtain ⟨included, ungrouped⟩ := not_or.1 plain
  rw [access_index_of_declared declared, if_neg (by simpa using included), if_neg ungrouped]

/-- Where the name of a parameter is hidden, its index is not looked at. -/
theorem access_index_of_hides (declared : s.bindings.params.contains root = true)
    (hidden : s.bindings.Hides root) (first : String) (rest : List String) :
    ∃ found : Except ExprFault Expr, ∀ i,
      s.access root (first :: rest) (some i) = .expr <$> found := by
  simp only [access_index_of_declared declared]
  by_cases proposed : (!s.bindings.excluded.isEmpty && root = s.bindings.excluded) = true
  · simp only [if_pos proposed]
    cases rest with
    | nil => exact ⟨.ok (.excludedColumn first), fun _ => rfl⟩
    | cons => exact ⟨.error .excludedPath, fun _ => rfl⟩
  · have grouped : s.bindings.groupings.contains root = true :=
      hidden.resolve_left fun h => proposed (by simpa using h)
    simp only [if_neg proposed, if_pos grouped]
    exact ⟨s.groupingAccess root first rest, fun _ => rfl⟩

end Scope

namespace Node

/-- The index that is collected does not matter to the names before it. -/
theorem memberPath_index : ∀ (node : Node) (path : List String) (i j : Int),
    node.memberPath path (some i) =
      (node.memberPath path (some j)).map fun found => (found.1, found.2.1, some i)
  | .member receiver property false, path, i, j =>
    memberPath_index receiver (property.keyName :: path) i j
  | .member receiver property true, path, i, j => by
    cases property with
    | literal key =>
      cases key with
      | str name => exact memberPath_index receiver (name :: path) i j
      | _ => rfl
    | _ => rfl
  | .identifier _, _, _, _ | .literal _, _, _, _ | .binary _ _ _, _, _, _
  | .logical _ _ _, _, _, _ | .unary _ _, _, _, _ | .conditional _ _ _, _, _, _
  | .object _, _, _, _ | .array _, _, _, _ | .arrow _ _, _, _, _ | .block _, _, _, _
  | .returnStatement _, _, _, _ | .call _ _, _, _, _ => rfl

/-- An access with a whole number in brackets after it. -/
def indexed (receiver : Node) (n : Nat) : Node :=
  .member receiver (.literal (.int n)) true

variable {receiver : Node} {n : Nat} (isPredicate : Bool) {s : Scope}

theorem resolve_indexed_of_error {fault : ExprFault}
    (h : receiver.memberPath [] (some (Json.wrapSigned 32 n)) = .error fault) :
    ∃ e s', (receiver.indexed n).resolve isPredicate s = .error e s' := by
  have path : (receiver.indexed n).memberPath [] none = .error fault := h
  rw [indexed, Node.resolve, Resolve.member, ← indexed, path]
  exact ⟨_, _, rfl⟩

theorem resolve_indexed {root : String} {names : List String} {index : Option Int}
    (h : receiver.memberPath [] (some (Json.wrapSigned 32 n)) =
      .ok (.identifier root, names, index))
    (found : Except ExprFault Expr) (access : s.access root names index = .expr <$> found) :
    (receiver.indexed n).resolve isPredicate s = Resolve.ofExcept found s := by
  have path : (receiver.indexed n).memberPath [] none = .ok (.identifier root, names, index) := h
  rw [indexed, Node.resolve, Resolve.member, ← indexed, path]
  show (Resolve.ofExcept (s.access root names index) >>= fun x => _) s = _
  rw [access]
  cases found <;> rfl

theorem resolve_indexed_of_root {root : Node} {names : List String} {index : Option Int}
    (h : receiver.memberPath [] (some (Json.wrapSigned 32 n)) = .ok (root, names, index))
    (other : ∀ name, root ≠ .identifier name) :
    ∃ e s', (receiver.indexed n).resolve isPredicate s = .error e s' := by
  have path : (receiver.indexed n).memberPath [] none = .ok (root, names, index) := h
  rw [indexed, Node.resolve, Resolve.member, ← indexed, path]
  cases root with
  | identifier name => exact absurd rfl (other name)
  | _ => exact ⟨_, _, rfl⟩

/-- What an index does depends on the receiver alone: it is never accepted, it becomes that of a
parameter, wrapped, or it is not looked at. -/
theorem resolve_indexed_cases (receiver : Node) (isPredicate : Bool) (s : Scope) :
    (∀ n, ∃ e s', (receiver.indexed n).resolve isPredicate s = .error e s') ∨
    (∃ root names, s.bindings.params.contains root = true ∧ ¬ s.bindings.Hides root ∧
      ∀ n : Nat, (receiver.indexed n).resolve isPredicate s =
        .ok (.param root (Text.dotted names) (some (Json.wrapSigned 32 n))) s) ∨
    ∃ root e, s.bindings.params.contains root = true ∧ s.bindings.Hides root ∧
      ∀ n, (receiver.indexed n).resolve isPredicate s = .ok e s := by
  cases path : receiver.memberPath [] (some 0) with
  | error fault =>
    exact .inl fun n => resolve_indexed_of_error _ (by rw [memberPath_index _ _ _ 0, path]; rfl)
  | ok found =>
    obtain ⟨target, names, index⟩ := found
    have paths (i : Int) : receiver.memberPath [] (some i) = .ok (target, names, some i) := by
      rw [memberPath_index _ _ i 0, path]
      rfl
    cases target with
    | identifier root =>
      cases names with
      | nil => exact .inl fun n => ⟨_, _, resolve_indexed _ (paths _) (.error _) rfl⟩
      | cons first rest =>
        by_cases declared : s.bindings.params.contains root = true
        · by_cases hidden : s.bindings.Hides root
          · obtain ⟨found, access⟩ := Scope.access_index_of_hides declared hidden first rest
            have runs (n : Nat) :
                (receiver.indexed n).resolve isPredicate s = Resolve.ofExcept found s :=
              resolve_indexed isPredicate (paths _) found (access _)
            cases found with
            | ok e => exact .inr (.inr ⟨root, e, declared, hidden, runs⟩)
            | error fault => exact .inl fun n => ⟨_, _, runs n⟩
          · exact .inr (.inl ⟨root, first :: rest, declared, hidden, fun n =>
              resolve_indexed _ (paths _) (.ok _)
                (Scope.access_index_of_not_hides declared hidden first rest _)⟩)
        · exact .inl fun n => ⟨_, _, resolve_indexed _ (paths _) (.error _)
            (Scope.access_index_of_undeclared declared first rest _)⟩
    | _ =>
      exact .inl fun n => resolve_indexed_of_root _ (paths _) fun _ same => by cases same

end Node

/-! ### Numbered placeholders -/

namespace Sql

/-- The name of a parameter ends in its index. -/
theorem parameterName_ends_iff (root property : String) (i j : Int) :
    (∃ front, parameterName root property (some i) = front ++ "_" ++ toString j) ↔ i = j := by
  constructor
  · rintro ⟨front, same⟩
    exact Text.intNumeral_inj (Text.joined_inj (c := '_') (by decide)
      (Text.notMem_numeral i (by decide)) (Text.notMem_numeral j (by decide)) same).2
  · rintro rfl
    exact ⟨Expr.placeholderName root property, rfl⟩

end Sql

/-! ### Literals in lambdas -/

/-- A negated literal is bound to its negative exactly up to 2^63, a larger one to a positive
number.  An index is refused, or is that of a parameter, or stands after a hidden name and is not
looked at; the placeholder of a parameter ends in the literal exactly below 2^31.  Every path from a
parameter whose name is not hidden takes an index, which is left out where a truth is wanted. -/
theorem integer_literals_keep_value_iff (n : Nat) (fits : n < Nat.pow 2 64) (isPredicate : Bool)
    (s : Scope) :
    (∃ v : Int,
      let name := Scope.autoParamName (s.autoParamCounter + 1)
      let s' := (s.addAutoParam (.int v) "" none).2
      (Node.unary "-" (.literal (.int n))).resolve isPredicate s = .ok (.param name "" none) s' ∧
        s'.autoParams.find? name = some (.int v) ∧
        v = (if n ≤ Nat.pow 2 63 then -(n : Int) else (Nat.pow 2 64 : Nat) - (n : Int)) ∧
        (v = -(n : Int) ↔ n ≤ Nat.pow 2 63)) ∧
    (∀ receiver : Node,
      (∀ m, ∃ e s', (receiver.indexed m).resolve isPredicate s = .error e s') ∨
      (∃ root names, s.bindings.params.contains root = true ∧ ¬ s.bindings.Hides root ∧
        ∀ m : Nat, (receiver.indexed m).resolve isPredicate s =
          .ok (.param root (Text.dotted names) (some (Json.wrapSigned 32 m))) s) ∨
      ∃ root e, s.bindings.params.contains root = true ∧ s.bindings.Hides root ∧
        ∀ m, (receiver.indexed m).resolve isPredicate s = .ok e s) ∧
    (∀ root property scope position, position ≠ .predicate →
      ∃ name,
        (Expr.param root property (some (Json.wrapSigned 32 n))).sql scope position =
            .ok (Fragment.placeholder name) ∧
          ((∃ front, name = front ++ "_" ++ toString n) ↔ n < Nat.pow 2 31)) ∧
    ∀ root names, s.bindings.params.contains root = true → ¬ s.bindings.Hides root → names ≠ [] →
      let access := (Node.membersOf (.identifier root) names).indexed n
      access.resolve isPredicate s =
          .ok (.param root (Text.dotted names) (some (Json.wrapSigned 32 n))) s ∧
        (access.resolve isPredicate >>= Resolve.predicate) s =
          .ok (.booleanParam root (Text.dotted names)) s := by
  have value := Json.wrapSigned_neg fits
  refine ⟨⟨_, Node.resolve_negative n isPredicate s, s.find?_addAutoParam _ "" none, value, ?_⟩,
    fun receiver => receiver.resolve_indexed_cases isPredicate s, ?_, ?_⟩
  · rw [value]
    split
    · simpa
    · rename_i large
      simp only [large, iff_false]
      have size : Nat.pow 2 64 = 18446744073709551616 := rfl
      omega
  · intro root property scope position place
    refine ⟨Sql.parameterName root property (some (Json.wrapSigned 32 n)), ?_, ?_⟩
    · cases position with
      | predicate => exact absurd rfl place
      | value | «open» => rfl
    · exact (Sql.parameterName_ends_iff root property _ n).trans (Json.wrapSigned_eq_iff n)
  · intro root names declared plain named access
    obtain ⟨included, ungrouped⟩ := not_or.1 plain
    have reads : s.Reads access ⟨root, Text.dotted names, some (Json.wrapSigned 32 n)⟩ :=
      Scope.reads_writtenAccess declared (Bool.eq_false_iff.2 ungrouped)
        (by rwa [not_and_or, not_not] at included) named (some (n : Int))
    exact ⟨reads.resolve isPredicate, AccessPlace.predicate_of_reads reads isPredicate⟩

/-- The scope of a lambda in which `p` stands for the parameters of the query. -/
def parameterScope : Scope :=
  { bindings := ({} : Bindings).bindParam "p" }

/-- `p.a[n]` -/
def itemOfA (n : Nat) : Node :=
  (Node.membersOf (.identifier "p") ["a"]).indexed n

/-- The largest literal that keeps its value as an index is 2147483647. -/
theorem largest_index_keeps_value :
    2147483647 < Nat.pow 2 64 ∧ Sql.Position.value ≠ .predicate ∧
      parameterScope.bindings.params.contains "p" = true ∧ ¬ parameterScope.bindings.Hides "p" ∧
      ∃ i : Int, (itemOfA 2147483647).resolve false parameterScope =
          .ok (.param "p" "a" (some i)) parameterScope ∧
        ∀ scope : SqlScope, ∃ name front,
          (Expr.param "p" "a" (some i)).sql scope .value = .ok (Fragment.placeholder name) ∧
            name = front ++ "_" ++ toString 2147483647 := by
  have fits : 2147483647 < Nat.pow 2 64 := by decide
  have plain : ¬ parameterScope.bindings.Hides "p" := by
    rintro (⟨proposed, -⟩ | grouped)
    · exact proposed rfl
    · cases grouped
  obtain ⟨-, -, placeholders, accesses⟩ :=
    integer_literals_keep_value_iff 2147483647 fits false parameterScope
  refine ⟨fits, nofun, by decide, plain, _,
    (accesses "p" ["a"] (by decide) plain (by decide)).1, fun scope => ?_⟩
  obtain ⟨name, written, ends⟩ := placeholders "p" "a" scope .value nofun
  obtain ⟨front, same⟩ := ends.2 (by decide)
  exact ⟨name, front, written, same⟩

/-- `-18446744073709551615` is bound to 1, the placeholder of `p.a[4294967297]` is `a_1`, and that
of `p.a[2147483648]` has a negative index. -/
theorem large_literals_are_wrapped :
    (∃ s', (Node.unary "-" (.literal (.int 18446744073709551615))).resolve false {} =
        .ok (.param "__p1" "" none) s' ∧ s'.autoParams.find? "__p1" = some (.int 1)) ∧
      (itemOfA 4294967297).resolve false parameterScope =
        .ok (.param "p" "a" (some 1)) parameterScope ∧
      Sql.parameterName "p" "a" (some 1) = "a_1" ∧
      (¬ ∃ front, "a_1" = front ++ "_" ++ toString (4294967297 : Int)) ∧
      (itemOfA 2147483648).resolve false parameterScope =
        .ok (.param "p" "a" (some (-2147483648))) parameterScope ∧
      Sql.parameterName "p" "a" (some (-2147483648)) = "a_-2147483648" := by
  have negative : Json.wrapSigned 64 (-(Json.wrapSigned 64 (18446744073709551615 : Nat))) = 1 := by
    decide
  have first : Json.wrapSigned 32 4294967297 = 1 := by decide
  have below : Json.wrapSigned 32 2147483648 = -2147483648 := by decide
  have shown : Sql.parameterName "p" "a" (some 1) = "a_1" := by decide
  refine ⟨⟨_, Node.resolve_negative 18446744073709551615 false {}, ?_⟩, ?_, shown, ?_, ?_,
    by decide⟩
  · rw [negative]
    exact Scope.find?_addAutoParam {} (.int 1) "" none
  · rw [← first]
    exact Node.resolve_indexed false rfl (.ok _) rfl
  · rw [← shown, Sql.parameterName_ends_iff]
    decide
  · rw [← below]
    exact Node.resolve_indexed false rfl (.ok _) rfl

end FluentQuery
