import FluentQuery.Proofs.Plan.ClosedPlans
import FluentQuery.Proofs.Resolve.RenamedChains
import FluentQuery.Proofs.Resolve.Renaming

/-!
# Rows are lexically scoped

What the lambdas of a builder call their rows does not matter: builders that differ only in that denote
the same query, or both none (`row_parameters_are_lexical`).  There is one exception.  A group of rows
does not hide the parameters of the query, so a group that is called like them is taken for them
(`renamed_group_is_query_parameter`).
-/

namespace FluentQuery

set_option autoImplicit false

/-! ### Builders -/

mutual

/-- A chain differs from itself in no name. -/
theorem Node.AlphaChain.refl {taken params : List String} :
    ∀ node : Node, node.AlphaChain taken params node
  | .arrow names body => .arrow names (.refl body)
  | .call callee arguments => by
    cases callee with
    | identifier name => exact .function name (.refl false name arguments)
    | member receiver property computed =>
      exact .call property computed (.refl receiver) (.refl _ _ arguments)
    | _ => exact .leaf rfl
  | .block nodes => by
    cases nodes with
    | nil => exact .leaf rfl
    | cons node rest =>
      cases node with
      | returnStatement value =>
        cases value with
        | none => exact .leaf rfl
        | some value =>
          cases rest with
          | nil => exact .block (.refl value)
          | cons _ _ => exact .leaf rfl
      | _ => exact .leaf rfl
  | .identifier _ | .literal _ | .member _ _ _ | .binary _ _ _ | .logical _ _ _ | .unary _ _
  | .conditional _ _ _ | .object _ | .array _ | .returnStatement _ => .leaf rfl

theorem Node.AlphaArguments.refl {taken params : List String} (grouped : Bool) (name : String) :
    ∀ nodes : List Node, Node.AlphaArguments taken params grouped name nodes nodes
  | [] => .nil
  | first :: rest => by
    by_cases isSource : name = RootMethod.from.name
    · subst isSource
      exact .source rest (.refl first)
    cases named : Method.ofName? name with
    | none => exact .unknown named isSource _
    | some method =>
      have same (nodes : List Node) :
          List.Forall₂ (Node.AlphaArgument taken params grouped method) nodes nodes :=
        List.forall₂_same.2 fun node _ => .same node
      cases takes : method.takesQuery with
      | true => exact .query named takes (.refl first) (same rest)
      | false => exact .lambdas named takes (same _)

end

/-- The name of the helpers, the third parameter of a builder. -/
def Node.helpersParam : Node → String
  | .arrow [_, _, helpers] _ => helpers
  | _ => ""

/-- Names that are read in one way wherever they stand in a builder. -/
def Node.takenNames (builder : Node) : List String :=
  builder.helpersParam :: reservedNames

/-- A builder starts outside of lambdas. -/
theorem Node.rootScope_outside {builder : Node} {s : Scope} (root : builder.rootScope = .ok s) :
    s.Outside builder.takenNames builder.queryParams false s := by
  have helpersless : ("" : String) ∈ builder.takenNames := List.mem_cons_of_mem _ (by decide)
  cases builder with
  | arrow params =>
    match params with
    | [] | [_] | [_, _] =>
      obtain rfl := Except.ok.inj root
      exact ⟨rfl, rfl, helpersless, fun _ => rfl⟩
    | [_, _, _] =>
      obtain rfl := Except.ok.inj root
      exact ⟨rfl, rfl, List.mem_cons_self .., fun _ => rfl⟩
    | _ :: _ :: _ :: _ :: _ => cases root
  | _ =>
    obtain rfl := Except.ok.inj root
    exact ⟨rfl, rfl, helpersless, fun _ => rfl⟩

/-- Whatever the lambdas of a builder call their rows, it denotes the same query, or none. -/
theorem row_parameters_are_lexical {builder builder' : Node}
    (h : builder.AlphaChain builder.takenNames builder.queryParams builder') :
    Agree Eq builder.parseQuery builder'.parseQuery := by
  have sameRoot : builder'.rootScope = builder.rootScope := by cases h <;> rfl
  unfold Node.parseQuery
  rw [sameRoot]
  cases root : builder.rootScope with
  | error fault => exact .error
  | ok s =>
    have runs := Node.together_chain (List.subset_cons_self _ _) h .step false s s
      (Node.rootScope_outside root)
    dsimp only [bind, Except.bind]
    generalize builder.chain .step [] s = r at runs ⊢
    generalize builder'.chain .step [] s = r' at runs ⊢
    cases runs with
    | error => exact .error
    | ok left =>
      obtain rfl := left.same
      exact .ok rfl

/-- `(q, p) => q.from("users").where(row => row.age > 18).groupBy(row => row.city)` followed by
`.select(group => ({ oldest: group.max(element => element.age) }))` -/
def oldestByCity (row group element : String) : Node :=
  (BuilderForm.lambda ["q", "p"]).build (fromUsers.withCalls
    [.of "where" (.arrow [row]
      (.binary ">" ((Node.identifier row).dot "age") (.literal (.int 18)))),
     .of "groupBy" (.arrow [row] ((Node.identifier row).dot "city")),
     .of "select" (.arrow [group] (.object [.named "oldest" ((Node.identifier group).invoke "max"
      [.arrow [element] ((Node.identifier element).dot "age")]) false]))])

/-- Rows, and the elements of a group, may be called like the parameters of the query. -/
theorem row_parameters_are_lexical_oldestByCity :
    ∃ query, (oldestByCity "u" "g" "u").parseQuery = .ok query ∧
      (oldestByCity "p" "g" "p").parseQuery = .ok query := by
  have free : MayPair (oldestByCity "u" "g" "u").takenNames "u" "p" := .inr (by decide)
  have row {method : Method} (noUpdate : method.proposed [] = []) (noValues : method ≠ .values) :
      method.MayRename (oldestByCity "u" "g" "u").takenNames ["p"] false "u" "p" [] :=
    ⟨by rwa [noUpdate], nofun, fun is => absurd is noValues, nofun⟩
  have group : Method.select.MayRename (oldestByCity "u" "g" "u").takenNames ["p"] true "g" "g" [] :=
    ⟨.inl ⟨rfl, by decide⟩, nofun, fun _ => rfl, fun _ _ => .inl rfl⟩
  have renamed : (oldestByCity "u" "g" "u").AlphaChain (oldestByCity "u" "g" "u").takenNames
      (oldestByCity "u" "g" "u").queryParams (oldestByCity "p" "g" "p") := by
    refine .arrow _ (.call _ _ (.call _ _ (.call _ _ (.refl _) ?filtered) ?grouped) ?selected)
    case filtered =>
      exact .lambdas rfl rfl (.cons (.rename (row rfl nofun) (by decide) (by decide)) .nil)
    case grouped =>
      exact .lambdas rfl rfl (.cons (.rename (row rfl nofun) (by decide) (by decide)) .nil)
    case selected =>
      have same (name : String) : Corresponds [("g", "g")] name name := .push rfl rfl
      have element : (Node.arrow ["u"] ((Node.identifier "u").dot "age")).Alpha
          (oldestByCity "u" "g" "u").takenNames [("g", "g")]
          (.arrow ["p"] ((Node.identifier "p").dot "age")) :=
        .arrow_rename free (by decide) same nofun (by decide)
      have grouping : (Node.identifier "g").Alpha (oldestByCity "u" "g" "u").takenNames [("g", "g")]
          (.identifier "g") := .identifier (by decide) (by decide) (same "g")
      exact .lambdas rfl rfl (.cons (.lambda group (.value rfl rfl (.object (.named "oldest" false false
        (.method false rfl grouping (.cons element .nil)) .nil)))) .nil)
  have parses : (oldestByCity "u" "g" "u").parseQuery.isOk = true := by decide +kernel
  obtain ⟨e, -, failed, -⟩ | found := (row_parameters_are_lexical renamed).eq_or_error
  · rw [failed] at parses
    cases parses
  · exact found

/-- A group may not: called like the parameters of the query, it is taken for them, and a query that is
refused otherwise is accepted. -/
theorem renamed_group_is_query_parameter :
    (Node.identifier "g").admits "p" (renameOne "g" "p") = true ∧
      (Node.identifier "g").rename (renameOne "g" "p") = .identifier "p" ∧
      "p" ∉ (selectGroup "g").takenNames ∧
      (selectGroup "g").parseQuery =
        .error ⟨ExprFault.bareGrouping "g", ⟨"select", "orders", "select"⟩⟩ ∧
      ∃ query, (selectGroup "p").parseQuery = .ok query :=
  ⟨by decide, rfl, by decide, rfl, _, rfl⟩

end FluentQuery
