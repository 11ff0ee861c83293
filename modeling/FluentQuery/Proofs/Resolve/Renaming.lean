import FluentQuery.Proofs.Resolve.RenamedLambdas

/-!
# Renaming the parameter of a lambda

`Node.rename` renames the names that are free in a body.  If the new name does not occur in it
(`Node.admits`), the body and the renamed one differ only in the names of parameters
(`Node.alpha_rename`), so a lambda may call its parameter by the new name (`AlphaArgument.rename`).
-/

namespace FluentQuery

set_option autoImplicit false

/-! ### Renaming -/

/-- The renaming of one name. -/
def renameOne (name name' : String) : String → String :=
  fun other => if other = name then name' else other

/-- A renaming inside a lambda, which leaves its first parameter alone. -/
def renamingUnder (params : List String) (ρ : String → String) : String → String :=
  match params with
  | [] => ρ
  | param :: _ => fun name => if name = param then param else ρ name

mutual

/-- A tree with the names that are free in it renamed.  Names of members are not, unless they are
computed. -/
def Node.rename (ρ : String → String) : Node → Node
  | .identifier name => .identifier (ρ name)
  | .literal value => .literal value
  | .member object property false => .member (object.rename ρ) property false
  | .member object property true => .member (object.rename ρ) (property.rename ρ) true
  | .call callee arguments => .call (callee.rename ρ) (Node.renameList ρ arguments)
  | .binary op left right => .binary op (left.rename ρ) (right.rename ρ)
  | .logical op left right => .logical op (left.rename ρ) (right.rename ρ)
  | .unary op argument => .unary op (argument.rename ρ)
  | .conditional test consequent alternate =>
    .conditional (test.rename ρ) (consequent.rename ρ) (alternate.rename ρ)
  | .object properties => .object (Property.renameList ρ properties)
  | .array elements => .array (Node.renameList ρ elements)
  | .arrow params body => .arrow params (body.rename (renamingUnder params ρ))
  | .block body => .block (Node.renameList ρ body)
  | .returnStatement none => .returnStatement none
  | .returnStatement (some value) => .returnStatement (some (value.rename ρ))

def Node.renameList (ρ : String → String) : List Node → List Node
  | [] => []
  | node :: rest => node.rename ρ :: Node.renameList ρ rest

/-- Members of an object literal with the names that are free in them renamed; what is written short and
renamed is written out. -/
def Property.renameList (ρ : String → String) : List Property → List Property
  | [] => []
  | .spread value :: rest => .spread (value.rename ρ) :: Property.renameList ρ rest
  | .named key value shorthand :: rest =>
    .named key (value.rename ρ) (shorthand && ρ key = key) :: Property.renameList ρ rest

end

mutual

/-- Whether names can be renamed in a tree.  A fresh name does not occur in it; the names of further
parameters of lambdas are not renamed, nor is a name in brackets read as that of a member. -/
def Node.admits (fresh : String) (ρ : String → String) : Node → Bool
  | .identifier name => name ≠ "" && name ≠ fresh
  | .literal _ => true
  | .member object _ false => object.admits fresh ρ
  | .member object property true =>
    object.admits fresh ρ && property.admits fresh ρ && (property.rename ρ).keyName = property.keyName
  | .call callee arguments => callee.admits fresh ρ && Node.admitsList fresh ρ arguments
  | .binary _ left right => left.admits fresh ρ && right.admits fresh ρ
  | .logical _ left right => left.admits fresh ρ && right.admits fresh ρ
  | .unary _ argument => argument.admits fresh ρ
  | .conditional test consequent alternate =>
    test.admits fresh ρ && consequent.admits fresh ρ && alternate.admits fresh ρ
  | .object properties => Property.admitsList fresh ρ properties
  | .array elements => Node.admitsList fresh ρ elements
  | .arrow params body =>
    params.all (fun param => param ≠ "" && param ≠ fresh) &&
      (params.drop 1).all (fun param => ρ param = param) &&
      body.admits fresh (renamingUnder params ρ)
  | .block body => Node.admitsList fresh ρ body
  | .returnStatement none => true
  | .returnStatement (some value) => value.admits fresh ρ

def Node.admitsList (fresh : String) (ρ : String → String) : List Node → Bool
  | [] => true
  | node :: rest => node.admits fresh ρ && Node.admitsList fresh ρ rest

def Property.admitsList (fresh : String) (ρ : String → String) : List Property → Bool
  | [] => true
  | .spread value :: rest => value.admits fresh ρ && Property.admitsList fresh ρ rest
  | .named _ value _ :: rest => value.admits fresh ρ && Property.admitsList fresh ρ rest

end

/-! ### What a renaming leaves -/

/-- A renaming to a fresh name, where names correspond to what they are renamed to. -/
structure RenamesTo (fresh : String) (pairs : List (String × String)) (ρ : String → String) : Prop where
  named : fresh ≠ ""
  range : ∀ name, ρ name = name ∨ ρ name = fresh
  corresponds : ∀ name, name ≠ fresh → Corresponds pairs name (ρ name)

namespace RenamesTo

variable {fresh : String} {pairs : List (String × String)} {ρ : String → String}

/-- The parameter of a lambda is renamed to a fresh name. -/
theorem param (x : String) (named : fresh ≠ "") (same : ∀ name, Corresponds pairs name name) :
    RenamesTo fresh ((x, fresh) :: pairs) (renameOne x fresh) := by
  unfold renameOne
  refine ⟨named, fun name => ?_, fun name other => ?_⟩
  · split
    · exact .inr rfl
    · exact .inl rfl
  · split
    · exact .inl ⟨‹_›, rfl⟩
    · exact .inr ⟨‹_›, other, same name⟩

theorem ne_empty (h : RenamesTo fresh pairs ρ) {name : String} (named : name ≠ "") : ρ name ≠ "" := by
  rcases h.range name with same | new
  · rwa [same]
  · rw [new]
    exact h.named

/-- A lambda binds its parameter on both sides. -/
theorem under (h : RenamesTo fresh pairs ρ) {param : String} (other : param ≠ fresh)
    (others : List String) :
    RenamesTo fresh ((param, param) :: pairs) (renamingUnder (param :: others) ρ) := by
  unfold renamingUnder
  refine ⟨h.named, fun name => ?_, fun name notFresh => ?_⟩
  · dsimp only
    split
    · exact .inl (‹name = param›).symm
    · exact h.range name
  · dsimp only
    split
    · exact .inl ⟨‹_›, rfl⟩
    · rename_i ne
      refine .inr ⟨ne, fun is => ?_, h.corresponds name notFresh⟩
      rcases h.range name with same | new
      · exact ne (same.symm.trans is)
      · exact other (is.symm.trans new)

end RenamesTo

variable {taken : List String} {fresh : String}

/-- The parameters after the first of a lambda inside keep their names. -/
theorem RenamesTo.others {pairs : List (String × String)} {ρ : String → String}
    (h : RenamesTo fresh pairs ρ) {param other : String} (new : other ≠ fresh)
    (kept : ρ other = other) :
    Corresponds ((param, param) :: pairs) other other := by
  by_cases first : other = param
  · exact .inl ⟨first, first⟩
  · have same := h.corresponds other new
    rw [kept] at same
    exact .inr ⟨first, first, same⟩

/-- A call is renamed with what it calls: a method keeps its name. -/
theorem Node.Alpha.call_rename {pairs : List (String × String)} {ρ : String → String} {callee : Node}
    {arguments : List Node} (h : callee.Alpha taken pairs (callee.rename ρ))
    (admitted : callee.admits fresh ρ = true)
    (args : Node.AlphaList taken pairs arguments (Node.renameList ρ arguments)) :
    (Node.call callee arguments).Alpha taken pairs ((Node.call callee arguments).rename ρ) := by
  cases callee with
  | member receiver property computed =>
    cases computed with
    | false =>
      cases h with
      | member _ h => exact .method false rfl h args
    | true =>
      simp only [Node.admits, Bool.and_eq_true, decide_eq_true_eq] at admitted
      cases h with
      | computed _ h _ => exact .method true admitted.2.symm h args
  | _ => exact .call (fun _ _ _ => Node.noConfusion) h args

mutual

/-- A body and the renamed one differ only in the names of parameters, and so do the values that they
return as bodies of lambdas. -/
theorem Node.alpha_rename : ∀ (node : Node) {pairs : List (String × String)} {ρ : String → String},
    RenamesTo fresh pairs ρ → node.admits fresh ρ = true →
      node.Alpha taken pairs (node.rename ρ) ∧ node.AlphaBody taken pairs (node.rename ρ)
  | .identifier name, _, _, hρ, admitted => by
    simp only [Node.admits, Bool.and_eq_true, decide_eq_true_eq] at admitted
    have h : (Node.identifier name).Alpha taken _ _ :=
      .identifier admitted.1 (hρ.ne_empty admitted.1) (hρ.corresponds name admitted.2)
    exact ⟨h, .value rfl rfl h⟩
  | .literal value, _, _, _, _ => ⟨.literal value, .value rfl rfl (.literal value)⟩
  | .member object property false, _, _, hρ, admitted =>
    have h := Node.Alpha.member property (Node.alpha_rename object hρ admitted).1
    ⟨h, .value rfl rfl h⟩
  | .member object property true, _, _, hρ, admitted => by
    simp only [Node.admits, Bool.and_eq_true, decide_eq_true_eq] at admitted
    obtain ⟨⟨ofObject, ofProperty⟩, named⟩ := admitted
    have h := Node.Alpha.computed (by rw [named]) (Node.alpha_rename object hρ ofObject).1
      (Node.alpha_rename property hρ ofProperty).1
    exact ⟨h, .value rfl rfl h⟩
  | .call callee arguments, _, _, hρ, admitted => by
    rw [Node.admits, Bool.and_eq_true] at admitted
    have h := (Node.alpha_rename callee hρ admitted.1).1.call_rename admitted.1
      (Node.alpha_renameList arguments hρ admitted.2)
    exact ⟨h, .value rfl rfl h⟩
  | .binary op left right, _, _, hρ, admitted => by
    simp only [Node.admits, Bool.and_eq_true] at admitted
    have h := Node.Alpha.binary op (Node.alpha_rename left hρ admitted.1).1
      (Node.alpha_rename right hρ admitted.2).1
    exact ⟨h, .value rfl rfl h⟩
  | .logical op left right, _, _, hρ, admitted => by
    simp only [Node.admits, Bool.and_eq_true] at admitted
    have h := Node.Alpha.logical op (Node.alpha_rename left hρ admitted.1).1
      (Node.alpha_rename right hρ admitted.2).1
    exact ⟨h, .value rfl rfl h⟩
  | .unary op argument, _, _, hρ, admitted =>
    have h := Node.Alpha.unary op (Node.alpha_rename argument hρ admitted).1
    ⟨h, .value rfl rfl h⟩
  | .conditional test consequent alternate, _, _, hρ, admitted => by
    simp only [Node.admits, Bool.and_eq_true] at admitted
    have h := Node.Alpha.conditional (Node.alpha_rename test hρ admitted.1.1).1
      (Node.alpha_rename consequent hρ admitted.1.2).1 (Node.alpha_rename alternate hρ admitted.2).1
    exact ⟨h, .value rfl rfl h⟩
  | .object properties, _, _, hρ, admitted =>
    have h := Node.Alpha.object (Property.alpha_renameList properties hρ admitted)
    ⟨h, .value rfl rfl h⟩
  | .array elements, _, _, hρ, admitted =>
    have h := Node.Alpha.array (Node.alpha_renameList elements hρ admitted)
    ⟨h, .value rfl rfl h⟩
  | .arrow [] body, _, _, hρ, admitted => by
    have h := Node.Alpha.thunk (Node.alpha_rename body hρ admitted).2
    exact ⟨h, .value rfl rfl h⟩
  | .arrow (param :: others) body, _, _, hρ, admitted => by
    simp only [Node.admits, List.drop_one, List.tail_cons, List.all_cons, Bool.and_eq_true,
      List.all_eq_true, decide_eq_true_eq] at admitted
    obtain ⟨⟨⟨⟨named, new⟩, further⟩, kept⟩, ofBody⟩ := admitted
    have apart (other : String) (mem : other ∈ others) :
      Corresponds ((param, param) :: _) other other :=
      hρ.others (further other mem).2 (kept other mem)
    have h := Node.Alpha.arrow (.inl ⟨rfl, named⟩) apart
      (Node.alpha_rename body (hρ.under new others) ofBody).2
    exact ⟨h, .value rfl rfl h⟩
  | .block nodes, _, _, hρ, admitted => by
    refine ⟨.block _ _, ?_⟩
    -- only a block that is one `return` of a value has a body to rename
    cases nodes with
    | nil => exact .unreadable rfl rfl
    | cons node rest =>
      cases node with
      | returnStatement value =>
        cases value with
        | none => cases rest <;> exact .unreadable rfl rfl
        | some value =>
          cases rest with
          | nil =>
            simp only [Node.admits, Node.admitsList, Bool.and_true] at admitted
            exact .value rfl rfl (Node.alpha_rename value hρ admitted).1
          | cons _ _ => exact .unreadable rfl rfl
      | member _ _ computed => cases computed <;> exact .unreadable rfl rfl
      | _ => exact .unreadable rfl rfl
  | .returnStatement none, _, _, _, _ =>
    have h := Node.Alpha.returnStatement none none
    ⟨h, .value rfl rfl h⟩
  | .returnStatement (some value), _, _, _, _ =>
    have h := Node.Alpha.returnStatement _ _
    ⟨h, .value rfl rfl h⟩

/-- A list of trees and the renamed one differ only in the names of parameters. -/
theorem Node.alpha_renameList : ∀ (nodes : List Node) {pairs : List (String × String)}
    {ρ : String → String}, RenamesTo fresh pairs ρ → Node.admitsList fresh ρ nodes = true →
      Node.AlphaList taken pairs nodes (Node.renameList ρ nodes)
  | [], _, _, _, _ => .nil
  | node :: rest, _, _, hρ, admitted => by
    simp only [Node.admitsList, Bool.and_eq_true] at admitted
    exact .cons (Node.alpha_rename node hρ admitted.1).1 (Node.alpha_renameList rest hρ admitted.2)

/-- The members of an object literal and the renamed ones differ only in the names of parameters. -/
theorem Property.alpha_renameList : ∀ (properties : List Property) {pairs : List (String × String)}
    {ρ : String → String}, RenamesTo fresh pairs ρ → Property.admitsList fresh ρ properties = true →
      Property.AlphaList taken pairs properties (Property.renameList ρ properties)
  | [], _, _, _, _ => .nil
  | .spread value :: rest, _, _, hρ, admitted => by
    simp only [Property.admitsList, Bool.and_eq_true] at admitted
    exact .spread (Node.alpha_rename value hρ admitted.1).1
      (Property.alpha_renameList rest hρ admitted.2)
  | .named key value shorthand :: rest, _, _, hρ, admitted => by
    simp only [Property.admitsList, Bool.and_eq_true] at admitted
    exact .named key shorthand _ (Node.alpha_rename value hρ admitted.1).1
      (Property.alpha_renameList rest hρ admitted.2)

end

/-! ### Parameters of lambdas -/

variable {params : List String} {grouped : Bool} {method : Method} {x x' : String}
    {others : List String}
  {body : Node}

/-- A lambda in a body may call its first parameter by a name that does not occur in it. -/
theorem Node.Alpha.arrow_rename {pairs : List (String × String)} (pair : MayPair taken x x')
    (named : x' ≠ "") (same : ∀ name, Corresponds pairs name name)
    (apart : ∀ other ∈ others, other ≠ x ∧ other ≠ x')
    (admitted : body.admits x' (renameOne x x') = true) :
    (Node.arrow (x :: others) body).Alpha taken pairs
      (.arrow (x' :: others) (body.rename (renameOne x x'))) :=
  .arrow pair (fun other mem => .inr ⟨(apart other mem).1, (apart other mem).2, same other⟩)
    (body.alpha_rename (.param x named same) admitted).2

/-- The lambda of a method may call its first parameter by a name that does not occur in it. -/
theorem Node.AlphaArgument.rename (may : method.MayRename taken params grouped x x' others)
    (named : x' ≠ "") (admitted : body.admits x' (renameOne x x') = true) :
    (Node.arrow (x :: others) body).AlphaArgument taken params grouped method
      (.arrow (x' :: others) (body.rename (renameOne x x'))) :=
  have same (name : String) : Corresponds [] name name := rfl
  .lambda may (body.alpha_rename (.param x named same) admitted).2

end FluentQuery
