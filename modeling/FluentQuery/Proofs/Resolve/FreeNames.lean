import FluentQuery.Proofs.Resolve.BodyInduction
import FluentQuery.Proofs.Resolve.ClosedBodies
import FluentQuery.Proofs.Resolve.Extension
import FluentQuery.Proofs.TwoRuns

/-!
# Names that a body reads

`Node.free` lists the names that a body reads and does not bind itself; a lambda inside a body binds
its first parameter only.  A query parameter that is not read makes no difference to the body: with
its binding taken away (`Scope.keep`) the body resolves to the same expression
(`Node.ignores_resolve`).  So the parameters in an expression are among those that its body reads
(`Resolve.Reads.leads`).
-/

namespace FluentQuery

set_option autoImplicit false

/-! ### Free names -/

mutual

/-- The names that a node reads and does not bind. -/
def Node.free : Node → List String
  | .identifier name => [name]
  | .literal _ => []
  | .member object _ _ => object.free
  | .call callee arguments => callee.free ++ Node.freeList arguments
  | .binary _ left right => left.free ++ right.free
  | .logical _ left right => left.free ++ right.free
  | .unary _ argument => argument.free
  | .conditional test consequent alternate => test.free ++ (consequent.free ++ alternate.free)
  | .object properties => Property.freeList properties
  | .array elements => Node.freeList elements
  | .arrow params body => body.free.filter fun name => !(params.take 1).contains name
  | .block body => Node.freeList body
  | .returnStatement none => []
  | .returnStatement (some value) => value.free

/-- The names that one of several nodes reads. -/
def Node.freeList : List Node → List String
  | [] => []
  | node :: rest => node.free ++ Node.freeList rest

/-- The names that the values of properties read. -/
def Property.freeList : List Property → List String
  | [] => []
  | .spread value :: rest => value.free ++ Property.freeList rest
  | .named _ value _ :: rest => value.free ++ Property.freeList rest

end

/-! ### Parameters that are kept -/

namespace Bindings

/-- The bindings without those of query parameters that are not listed. -/
def keep (names : NameSet) (b : Bindings) : Bindings :=
  { b with params := b.params.filter names.contains }

variable {names : NameSet} {b : Bindings} {name : String}

theorem keep_erase : (NameSet.erase b.params name).filter names.contains =
    NameSet.erase (b.params.filter names.contains) name :=
  List.filter_comm ..

/-- Binding a name and keeping names may be done in either order. -/
theorem keep_bindTable : (b.bindTable name).keep names = (b.keep names).bindTable name := by
  simp only [keep, bindTable, keep_erase]

theorem keep_bindJoin {index : Int} :
    (b.bindJoin name index).keep names = (b.keep names).bindJoin name index := by
  simp only [keep, bindJoin, keep_erase]
  rfl

theorem keep_bindShape {shape : Option ResultShape} :
    (b.bindShape name shape).keep names = (b.keep names).bindShape name shape := by
  simp only [keep, bindShape, keep_erase]

theorem keep_bindElement : (b.bindElement name).keep names = (b.keep names).bindElement name := by
  unfold bindElement
  have same : (b.keep names).shape = b.shape := rfl
  rw [same]
  split
  · exact keep_bindShape
  · exact keep_bindTable

end Bindings

namespace Scope

/-- The scope without the query parameters that are not listed. -/
def keep (names : NameSet) (s : Scope) : Scope :=
  { s with bindings := s.bindings.keep names }

/-- The second scope is the first without the query parameters that are not listed, and of the names
that are read none is taken away. -/
structure Keeps (names : NameSet) (read : List String) (s s' : Scope) : Prop where
  eq : s' = s.keep names
  kept : ∀ name ∈ read, name ∈ s.bindings.params → name ∈ names

namespace Keeps

variable {names : NameSet} {read : List String} {s s' : Scope} {name : String}

/-- A name that is read is a query parameter in both scopes or in none. -/
theorem contains_eq (h : s.Keeps names read s') (mem : name ∈ read) :
    s'.bindings.params.contains name = s.bindings.params.contains name := by
  rw [h.eq, Bool.eq_iff_iff]
  simp only [keep, Bindings.keep, List.contains_eq_mem, decide_eq_true_eq, List.mem_filter]
  exact ⟨And.left, fun bound => ⟨bound, h.kept name mem bound⟩⟩

/-- A name that is read stands for the same. -/
theorem identifier_eq (h : s.Keeps names read s') (mem : name ∈ read) :
    s'.identifier name = s.identifier name := by
  have same := h.contains_eq mem
  obtain ⟨rfl, -⟩ := h
  unfold Scope.identifier
  dsimp only
  rw [same]
  rfl

/-- An access from a name that is read leads to the same. -/
theorem access_eq (h : s.Keeps names read s') (mem : name ∈ read) (path : List String)
    (index : Option Int) : s'.access name path index = s.access name path index := by
  have same := h.contains_eq mem
  obtain ⟨rfl, -⟩ := h
  unfold Scope.access Bindings.binds
  dsimp only
  rw [same]
  rfl

end Keeps

end Scope

namespace Resolve

variable {α β : Type} {names : NameSet} {read : List String} {work : Resolve α}

/-- Work that reads the listed names only: taking away other query parameters makes no difference. -/
def Ignores (names : NameSet) (read : List String) (work : Resolve α) : Prop :=
  Matches (Scope.Keeps names read) work work

namespace Ignores

theorem pure (a : α) : Ignores names read (pure a) :=
  Matches.pure a

theorem bind {next : α → Resolve β} (h : Ignores names read work)
    (rest : ∀ a, Ignores names read (next a)) : Ignores names read (work >>= next) :=
  Matches.bind h rest

theorem fail (fault : Fault) : Ignores names read (fail fault : Resolve α) :=
  fun _ _ _ => .error

theorem failUnplaced (fault : Fault) : Ignores names read (failUnplaced fault : Resolve α) :=
  fun _ _ _ => .error

theorem ite {c : Prop} [Decidable c] {other : Resolve α} (h : Ignores names read work)
    (h' : Ignores names read other) : Ignores names read (if c then work else other) :=
  Matches.ite h h'

theorem map (f : α → β) (h : Ignores names read work) : Ignores names read (f <$> work) :=
  Matches.map f h

/-- What follows reads nothing off the scope that depends on its query parameters. -/
theorem get {next : Scope → Resolve α} (same : ∀ s, next (s.keep names) = next s)
    (rest : ∀ s, Ignores names read (next s)) : Ignores names read (get >>= next) := by
  refine Matches.get fun s s' hs => ?_
  rw [hs.eq, same]
  exact rest s

theorem ofExcept (x : Except ExprFault α) : Ignores names read (ofExcept x) := by
  cases x with
  | ok a => exact pure a
  | error e => exact fail e

theorem predicate (e : Expr) : Ignores names read (predicate e) :=
  ofExcept _

/-- Adding a parameter binds no name. -/
theorem autoParam (value : Json) (fieldName : String) (table : Option Int) :
    Ignores names read (autoParam value fieldName table) := by
  rintro s _ ⟨rfl, kept⟩
  exact .ok ⟨rfl, kept⟩

theorem literal (value : Json) (peer : Expr) : Ignores names read (literal value peer) := by
  unfold Resolve.literal
  split
  · exact pure _
  · split
    · exact autoParam _ _ _
    · exact autoParam _ _ _

theorem operand {node : Node} {resolved : Resolve Expr} (h : Ignores names read resolved)
    (peer : Expr) : Ignores names read (operand node peer resolved) := by
  unfold Resolve.operand
  split
  · exact literal _ _
  · exact h

/-- Operands are resolved without the names. -/
theorem operands {left right : Node} {l r : Resolve Expr} (hl : Ignores names read l)
    (hr : Ignores names read r) : Ignores names read (operands left right l r) :=
  ite (hr.bind fun _ => (hl.operand _).bind fun _ => pure _)
    (hl.bind fun _ => (hr.operand _).bind fun _ => pure _)

end Ignores

/-! ### Operators -/

section

variable {l r : Resolve Expr} (hl : Ignores names read l) (hr : Ignores names read r)

include hl hr

theorem ignores_comparison (op : ComparisonOp) (node left right : Node) :
    Ignores names read (comparison op node left right l r) := by
  refine .ite (.fail _) (.ite (.ite (.fail _) ?_) ?_)
  · exact .ite (hr.bind fun _ => .pure _) (hl.bind fun _ => .pure _)
  · exact (hl.operands hr).bind fun _ => .pure _

theorem ignores_arithmetic (op : ArithmeticOp) (left right : Node) :
    Ignores names read (arithmetic op left right l r) :=
  (hl.operands hr).bind fun ⟨_, _⟩ => .get (fun _ => rfl) fun _ => .ite (.pure _) (.pure _)

/-- An operator of two operands reads what these read. -/
theorem ignores_binary (op : String) (left right : Node) :
    Ignores names read (binary op left right l r) := by
  unfold binary
  split
  · exact ignores_comparison hl hr _ _ _ _
  · exact ignores_arithmetic hl hr _ _ _
  · exact .fail _

end

/-- Logical operators read what their operands read. -/
theorem ignores_logical {l r : Bool → Resolve Expr} (hl : ∀ p, Ignores names read (l p))
    (hr : ∀ p, Ignores names read (r p)) (isPredicate : Bool) (op : String) :
    Ignores names read (logical isPredicate op l r) := by
  have connective (op : LogicalOp) : Ignores names read (connective op (l true) (r true)) :=
    (hl true).bind fun _ => (Ignores.predicate _).bind fun _ =>
      (hr true).bind fun _ => (Ignores.predicate _).bind fun _ => .pure _
  unfold logical
  split
  · exact (hl false).bind fun _ => (hr false).bind fun _ => .pure _
  · exact connective _
  · refine .ite (connective _) ((hl false).bind fun _ => (hr false).bind fun _ => ?_)
    exact .ite (.pure _) ((Ignores.predicate _).bind fun _ =>
      (Ignores.predicate _).bind fun _ => .pure _)
  · exact .fail _

theorem ignores_unary {value : Bool → Resolve Expr} (h : ∀ p, Ignores names read (value p))
    (op : String) (argument : Node) : Ignores names read (unary op argument value) := by
  unfold unary
  split
  · exact (h true).bind fun _ => (Ignores.predicate _).bind fun _ => .pure _
  · unfold negative
    split
    · unfold negativeLiteral
      split
      · exact .autoParam _ _ _
      · exact .autoParam _ _ _
      · exact .fail _
    · exact (h false).bind fun _ => .pure _
  · exact h false
  · exact .fail _

theorem ignores_conditional {test consequent alternate : Resolve Expr}
    (ht : Ignores names read test) (hc : Ignores names read consequent)
    (ha : Ignores names read alternate) : Ignores names read (conditional test consequent alternate) :=
  ht.bind fun _ => (Ignores.ofExcept _).bind fun _ => hc.bind fun _ => ha.bind fun _ => .pure _

theorem ignores_spread {value : Resolve Expr} (h : Ignores names read value) (argument : Node) :
    Ignores names read (spread argument value) := by
  refine .get (fun _ => ?_) fun s => ?_
  · cases argument <;> rfl
  split
  · exact .pure _
  · refine h.bind fun e => ?_
    unfold spreadValue
    split
    · exact .pure _
    · split
      · exact .pure _
      · exact .pure _
    · exact .fail _

/-! ### Names -/

/-- A member path starts at what the node reads. -/
theorem free_memberPath : ∀ (node : Node) {root : Node} {path path' : List String}
    {index index' : Option Int}, node.memberPath path index = .ok (root, path', index') →
    root.free = node.free
  | .member receiver property true, _, path, _, index, _, h => by
    unfold Node.memberPath at h
    split at h
    · exact free_memberPath receiver h
    · split at h
      · exact free_memberPath receiver h
      · cases h
    · cases h
    · cases h
  | .member receiver property false, _, _, _, _, _, h => free_memberPath receiver h
  | .identifier _, _, _, _, _, _, h | .literal _, _, _, _, _, _, h | .call _ _, _, _, _, _, _, h
  | .binary _ _ _, _, _, _, _, _, h | .logical _ _ _, _, _, _, _, _, h
  | .unary _ _, _, _, _, _, _, h | .conditional _ _ _, _, _, _, _, _, h
  | .object _, _, _, _, _, _, h | .array _, _, _, _, _, _, h | .arrow _ _, _, _, _, _, _, h
  | .block _, _, _, _, _, _, h | .returnStatement _, _, _, _, _, _, h => by
    cases h
    rfl

/-- A name reads itself. -/
theorem ignores_identifier {name : String} (mem : name ∈ read) :
    Ignores names read (identifier name) := by
  rintro s s' hs
  have known : Ignores names read (ofExcept (s.identifier name)) := .ofExcept _
  have same : identifier name s' = ofExcept (s.identifier name) s' := by
    rw [← hs.identifier_eq mem]
    rfl
  rw [same]
  exact known s s' hs

/-- An access reads its root. -/
theorem ignores_member {node : Node} (reads : node.free ⊆ read) :
    Ignores names read (member node) := by
  unfold member
  cases found : node.memberPath [] none with
  | error e => exact .fail _
  | ok leads =>
    obtain ⟨root, path, index⟩ := leads
    have same := free_memberPath node found
    rw [ofExcept_ok, pure_bind]
    cases root with
    | identifier name =>
      have mem : name ∈ read := reads (same ▸ List.mem_singleton.2 rfl)
      refine Matches.get fun s s' hs => ?_
      rw [hs.access_eq mem]
      refine (Ignores.ofExcept (s.access name path index)).bind fun access => ?_
      cases access with
      | expr => exact .pure _
      | number => exact .autoParam _ _ _
    | _ => exact .fail _

/-! ### Lambdas inside a body -/

/-- Work that binds the parameters of a lambda inside a body: its first name stands for a query
parameter no longer. -/
def Hides (names : NameSet) (params : List String) (work : Resolve Unit) : Prop :=
  ∀ read s s', Scope.Keeps names read s s' →
    SameResult (Scope.Keeps names (params.take 1 ++ read)) (work s) (work s')

theorem hides_nil : Hides names [] (pure ()) :=
  fun _ _ _ hs => .ok hs

theorem hides_fail {params : List String} (fault : Fault) : Hides names params (fail fault) :=
  fun _ _ _ _ => .error

/-- A binding hides the parameter of its name, so that the body need not read that. -/
theorem hides_bind {name : String} {rest : List String} {change : Bindings → Bindings}
    (keeps : ∀ b, (change b).keep names = change (b.keep names))
    (erases : ∀ b, ∀ other ∈ (change b).params, other ∈ b.params ∧ other ≠ name) :
    Hides names (name :: rest) (bind change) := by
  rintro read s _ ⟨rfl, kept⟩
  refine .ok ⟨?_, fun other mem bound => ?_⟩
  · exact congrArg (fun b => { s with bindings := b }) (keeps s.bindings).symm
  · obtain ⟨before, ne⟩ := erases s.bindings other bound
    rcases List.mem_cons.1 mem with rfl | mem
    · exact absurd rfl ne
    · exact kept other mem before

theorem hides_bindTable (name : String) (rest : List String) :
    Hides names (name :: rest) (bind (·.bindTable name)) :=
  hides_bind (fun _ => Bindings.keep_bindTable) fun _ _ => (NameSet.mem_erase _ _ _).1

theorem hides_bindJoin (name : String) (rest : List String) (index : Int) :
    Hides names (name :: rest) (bind (·.bindJoin name index)) :=
  hides_bind (fun _ => Bindings.keep_bindJoin) fun _ _ => (NameSet.mem_erase _ _ _).1

theorem hides_bindShape (name : String) (rest : List String) (shape : Option ResultShape) :
    Hides names (name :: rest) (bind (·.bindShape name shape)) :=
  hides_bind (fun _ => Bindings.keep_bindShape) fun _ _ => (NameSet.mem_erase _ _ _).1

theorem hides_bindElement (params : List String) : Hides names params (bindElement params) := by
  unfold bindElement
  split
  · exact hides_nil
  · refine hides_bind (fun _ => Bindings.keep_bindElement) fun b other bound => ?_
    unfold Bindings.bindElement at bound
    split at bound
    · exact (NameSet.mem_erase _ _ _).1 bound
    · exact (NameSet.mem_erase _ _ _).1 bound

theorem hides_get {params : List String} {next : Scope → Resolve Unit}
    (same : ∀ s, next (s.keep names) = next s) (rest : ∀ s, Hides names params (next s)) :
    Hides names params (get >>= next) := by
  intro read s s' hs
  have chosen : next s' = next s := by rw [hs.eq, same]
  change SameResult _ (next s s) (next s' s')
  rw [chosen]
  exact rest s read s s' hs

/-- The lambda of a window hides its first parameter. -/
theorem hides_bindWindowRow (row : String) (params : List String) :
    Hides names params (bindWindowRow row params) := by
  unfold bindWindowRow
  split
  · exact hides_nil
  rename_i name rest
  refine hides_get (fun _ => rfl) fun s => ?_
  dsimp only
  split
  · exact hides_bindTable name rest
  split
  · exact hides_bindJoin name rest _
  split
  · exact hides_bindShape name rest _
  · exact hides_fail _

/-- A body may read the first parameter of its lambda, besides what the lambda reads. -/
theorem ignores_withParams {bindParams : List String → Resolve Unit} {params : List String}
    (hides : Hides names params (bindParams params))
    (h : Ignores names (params.take 1 ++ read) work) :
    Ignores names read (withParams bindParams params work) := by
  intro s s' hs
  have ran : SameResult (Scope.Keeps names (params.take 1 ++ read))
      ((bindParams params >>= fun _ => work) s) ((bindParams params >>= fun _ => work) s') := by
    have first := hides read s s' hs
    simp only [Bind.bind, EStateM.bind]
    generalize bindParams params s = r at first ⊢
    generalize bindParams params s' = r' at first ⊢
    cases first with
    | ok hs => exact h _ _ hs
    | error => exact .error
  unfold withParams withBindings
  generalize (bindParams params >>= fun _ => work) s = r at ran ⊢
  generalize (bindParams params >>= fun _ => work) s' = r' at ran ⊢
  cases ran with
  | ok inner =>
    obtain ⟨rfl, kept⟩ := hs
    obtain ⟨rfl, -⟩ := inner
    exact .ok ⟨rfl, kept⟩
  | error => exact .error

/-! ### Calls -/

/-- The work that resolves an argument ignores what is not read. -/
structure IgnoringArgument (names : NameSet) (read : List String) (a : Argument) : Prop where
  value : Ignores names read a.value
  lambda : ∀ method bindParams, (∀ params, Hides names params (bindParams params)) →
    Ignores names read (a.lambda method bindParams)

section

variable {arguments : List Argument} (args : ∀ a ∈ arguments, IgnoringArgument names read a)

include args

theorem ignores_groupingCall (method : String) :
    Ignores names read (groupingCall method arguments) := by
  unfold groupingCall
  refine .ite (.ite (.pure _) (.fail _)) ?_
  split
  · exact .fail _
  · rename_i selector _
    exact ((args selector (List.mem_cons_self ..)).lambda method _ hides_bindElement).bind fun _ =>
      .pure _
  · exact .fail _

theorem ignores_helperCall (method : String) : Ignores names read (helperCall method arguments) := by
  unfold helperCall
  split
  · exact .fail _
  · rename_i test left right _
    exact (args left (by simp)).value.bind fun l =>
      ((args right (by simp)).value.operand l).bind fun _ => .pure _
  · exact .fail _

theorem ignores_keys (method row : String) : Ignores names read
    (arguments.mapM fun argument => argument.lambda method (bindWindowRow row)) := by
  induction arguments with
  | nil => exact .pure _
  | cons a rest ih =>
    rw [List.mapM_cons]
    refine ((args a (List.mem_cons_self ..)).lambda method _ (hides_bindWindowRow row)).bind fun _ => ?_
    exact (ih fun a ha => args a (List.mem_cons_of_mem _ ha)).bind fun _ => .pure _

/-- A call of a window reads what its parts read. -/
theorem ignores_windowStep {earlier : Resolve WindowSpec} (h : Ignores names read earlier)
    (receiver : Node) (method : String) :
    Ignores names read (windowStep receiver method earlier arguments) := by
  refine .get (fun _ => rfl) fun s => .ite ?_ (h.bind fun w => .ite ?_ ?_)
  · unfold openWindow
    split
    · exact .pure _
    · exact .fail _
  · exact .ite (.fail _) ((ignores_keys args method w.row).bind fun _ => .pure _)
  · unfold orderWindow
    split
    · exact .fail _
    · rename_i argument _
      refine .ite (.fail _) (.ite (.fail _) ?_)
      exact ((args argument (List.mem_cons_self ..)).lambda method _
        (hides_bindWindowRow w.row)).bind fun _ => .pure _
    · exact .fail _

/-- A call reads what its parts read. -/
theorem ignores_methodCall {receiverValue : Resolve Expr} {window : Resolve WindowSpec}
    (h : Ignores names read receiverValue) (hw : Ignores names read window) (receiver : Node)
    (method : String) :
    Ignores names read (methodCall receiver method receiverValue window arguments) := by
  refine .get (fun s => ?_) fun s => ?_
  · have same : (s.keep names).callKind receiver method = s.callKind receiver method := by
      cases receiver with
      | member object property computed => cases object <;> rfl
      | _ => rfl
    rw [same]
  split
  · exact .fail _
  · exact ignores_groupingCall args method
  · exact ignores_helperCall args method
  · exact hw.bind fun _ => .ite (.fail _) (.pure _)
  · exact .fail _
  · exact .ite (h.bind fun _ => .pure _) (.fail _)
  · split
    · rename_i argument
      have arg := (args argument (List.mem_cons_self ..)).value
      refine .ite (arg.bind fun _ => h.bind fun _ => .pure _) (h.bind fun target => ?_)
      exact .ite (arg.bind fun _ => .pure _) ((arg.operand target).bind fun _ => .pure _)
    · exact .fail _
  · exact .fail _

end

end Resolve

/-! ### Bodies -/

section

open Resolve

variable {names : NameSet}

/-- The names a lambda's body reads are its first parameter or read outside. -/
theorem Node.free_body {params : List String} {body : Node} {read : List String}
    (reads : (Node.arrow params body).free ⊆ read) : body.free ⊆ params.take 1 ++ read := by
  intro name mem
  by_cases bound : name ∈ params.take 1
  · exact List.mem_append_left _ bound
  · refine List.mem_append_right _ (reads (List.mem_filter.2 ⟨mem, ?_⟩))
    simpa using bound

/-- The value that a lambda's body returns reads what the body reads. -/
theorem Node.free_lambdaBody {body value : Node} (returned : body.lambdaBody = .ok value) :
    value.free = body.free := by
  unfold lambdaBody at returned
  split at returned <;> cases returned
  · simp [Node.free, Node.freeList]
  · rfl

/-- Taking away query parameters that a node does not read makes no difference to any work on it. -/
structure Node.IgnoresAll (names : NameSet) (node : Node) : Prop where
  value : ∀ {read : List String}, node.free ⊆ read → ∀ isPredicate,
    Ignores names read (node.resolve isPredicate)
  lambda : ∀ {read : List String}, node.free ⊆ read →
    ∀ isPredicate method (bindParams : List String → Resolve Unit),
      (∀ params, Hides names params (bindParams params)) →
      Ignores names read (node.resolveLambda isPredicate method bindParams)
  window : ∀ {read : List String}, node.free ⊆ read → ∀ whole,
    Ignores names read (Node.resolveWindow whole node)

namespace Node

/-- What is neither a lambda nor a call of a method is an expression only. -/
theorem IgnoresAll.of_value {node : Node} (noLambda : ∀ params body, node ≠ .arrow params body)
    (noMethod : ∀ receiver property computed arguments,
      node ≠ .call (.member receiver property computed) arguments)
    (value : ∀ {read : List String}, node.free ⊆ read → ∀ isPredicate,
      Ignores names read (node.resolve isPredicate)) : node.IgnoresAll names where
  value := value
  lambda _ isPredicate method bindParams _ := by
    rw [resolveLambda_of_ne_arrow noLambda]
    exact .fail _
  window _ whole := by
    obtain ⟨fault, fails⟩ := resolveWindow_of_ne_method noMethod whole
    rw [fails]
    exact fun _ _ _ => .error

theorem ignores_resolveList {nodes : List Node} (h : ∀ node ∈ nodes, node.IgnoresAll names)
    {read : List String} (reads : Node.freeList nodes ⊆ read) :
    Ignores names read (Node.resolveList nodes) := by
  induction nodes with
  | nil => exact .pure _
  | cons node rest ih =>
    rw [List.forall_mem_cons] at h
    obtain ⟨hn, hr⟩ := List.append_subset.1 reads
    exact (h.1.value hn false).bind fun _ => (ih h.2 hr).bind fun _ => .pure _

theorem ignores_properties {properties : List Property}
    (spread : ∀ argument, .spread argument ∈ properties → argument.IgnoresAll names)
    (named : ∀ key value shorthand, .named key value shorthand ∈ properties → value.IgnoresAll names)
    {read : List String} (reads : Property.freeList properties ⊆ read) :
    Ignores names read (Property.resolveList properties) := by
  induction properties with
  | nil => exact .pure _
  | cons first rest ih =>
    have later := ih (fun argument mem => spread argument (List.mem_cons_of_mem _ mem))
      fun key value shorthand mem => named key value shorthand (List.mem_cons_of_mem _ mem)
    cases first with
    | spread argument =>
      obtain ⟨ha, hr⟩ := List.append_subset.1 reads
      have here := (spread argument (List.mem_cons_self ..)).value ha false
      exact (ignores_spread here argument).bind fun _ => (later hr).bind fun _ => .pure _
    | named key value shorthand =>
      obtain ⟨hv, hr⟩ := List.append_subset.1 reads
      have here := (named key value shorthand (List.mem_cons_self ..)).value hv false
      exact here.bind fun _ => (later hr).bind fun _ => .pure _

/-- Arguments read what their nodes read, as values and as lambdas. -/
theorem ignores_arguments {nodes : List Node} (h : ∀ node ∈ nodes, node.IgnoresAll names)
    {read : List String} (reads : Node.freeList nodes ⊆ read) :
    ∀ a ∈ Node.arguments nodes, IgnoringArgument names read a := by
  induction nodes with
  | nil => exact nofun
  | cons node rest ih =>
    rw [List.forall_mem_cons] at h
    obtain ⟨hn, hr⟩ := List.append_subset.1 reads
    exact List.forall_mem_cons.2 ⟨⟨h.1.value hn false, h.1.lambda hn false⟩, ih h.2 hr⟩

/-- By induction on nodes. -/
theorem ignoresAll (node : Node) : node.IgnoresAll names := by
  induction node using Node.body_induction with
  | identifier name =>
    exact .of_value nofun nofun fun reads _ => ignores_identifier (reads (List.mem_singleton.2 rfl))
  | literal value => exact .of_value nofun nofun fun _ _ => .literal _ _
  | member receiver property computed => exact .of_value nofun nofun fun reads _ => ignores_member reads
  | binary op left right hl hr =>
    refine .of_value nofun nofun fun reads _ => ?_
    obtain ⟨readsLeft, readsRight⟩ := List.append_subset.1 reads
    exact ignores_binary (hl.value readsLeft false) (hr.value readsRight false) op left right
  | logical op left right hl hr =>
    refine .of_value nofun nofun fun reads isPredicate => ?_
    obtain ⟨readsLeft, readsRight⟩ := List.append_subset.1 reads
    exact ignores_logical (hl.value readsLeft) (hr.value readsRight) isPredicate op
  | unary op argument h =>
    exact .of_value nofun nofun fun reads _ => ignores_unary (h.value reads) op argument
  | conditional test consequent alternate ht hc ha =>
    refine .of_value nofun nofun fun reads _ => ?_
    obtain ⟨readsTest, rest⟩ := List.append_subset.1 reads
    obtain ⟨readsConsequent, readsAlternate⟩ := List.append_subset.1 rest
    exact ignores_conditional (ht.value readsTest true) (hc.value readsConsequent false)
      (ha.value readsAlternate false)
  | object properties spread named =>
    exact .of_value nofun nofun fun reads _ => .map _ (ignores_properties spread named reads)
  | array elements h =>
    exact .of_value nofun nofun fun reads _ => .map _ (ignores_resolveList h reads)
  | arrow params body returned =>
    refine ⟨fun _ _ => .fail _, fun reads isPredicate method bindParams hides => ?_,
      fun _ _ _ _ _ => .error⟩
    rw [resolveLambda_arrow]
    refine ignores_withParams (hides params) ?_
    have inner := Node.free_body reads
    split
    · rename_i value found
      exact (returned value found).value (Node.free_lambdaBody found ▸ inner) isPredicate
    · exact .failUnplaced _
  | block | returnStatement => exact .of_value nofun nofun fun _ _ => .fail _
  | method receiver property computed arguments hr ha =>
    refine ⟨fun reads _ => ?_, fun _ _ _ _ _ => .fail _, fun reads whole => ?_⟩
    · obtain ⟨readsReceiver, readsArguments⟩ := List.append_subset.1 reads
      exact ignores_methodCall (ignores_arguments ha readsArguments) (hr.value readsReceiver false)
        (hr.window readsReceiver _) receiver property.keyName
    · obtain ⟨readsReceiver, readsArguments⟩ := List.append_subset.1 reads
      exact ignores_windowStep (ignores_arguments ha readsArguments) (hr.window readsReceiver whole)
        receiver property.keyName
  | call callee arguments noMethod =>
    refine .of_value nofun (fun _ _ _ _ is => ?_) fun _ isPredicate => ?_
    · cases is
      exact noMethod _ _ _ rfl
    · obtain ⟨fault, fails⟩ := resolve_call_of_ne_member noMethod arguments isPredicate
      rw [fails]
      exact .fail _

/-- Taking away query parameters that a node does not read makes no difference to it. -/
theorem ignores_resolve {read : List String} (node : Node) (isPredicate : Bool)
    (reads : node.free ⊆ read) : Ignores names read (node.resolve isPredicate) :=
  node.ignoresAll.value reads isPredicate

end Node

end

/-! ### What a body yields -/

/-- Only query parameters can lead out of a vocabulary with all tables. -/
theorem Bindings.within_ofNames {names : NameSet} {b : Bindings}
    (known : ∀ name ∈ b.params, name ∈ names) : b.Within (.ofNames names) :=
  ⟨known, fun _ _ _ => trivial, fun shape _ => Shape.overAll_true shape⟩

namespace Resolve

variable {α : Type} {read : List String} {work : Resolve α} {s : Scope} {names : NameSet}

/-- Work on a body that reads the listed names: it only mints automatic parameters, and what it yields
is closed. -/
structure Reads (read : List String) (post : Vocabulary → α → Scope → Prop) (work : Resolve α) :
    Prop where
  ignores : ∀ names, Ignores names read work
  tidy : ∀ v, Tidy v (post v) work

/-- The query parameters that a body yields are among those that it reads. -/
theorem Reads.leads {post : Vocabulary → α → Scope → Prop} (h : Reads read post work)
    (reads : ∀ name ∈ read, name ∈ s.bindings.params → name ∈ names)
    (groupKey : s.groupByKey.Closed (.ofNames names) s)
    (same : ∀ a t, post (.ofNames names) a (t.keep names) → post (.ofNames names) a t) :
    Leads s (fun a s' => s.Mints s' ∧ post (.ofNames names) a s') work := by
  refine .intro fun a s' run => ?_
  have minted := (h.tidy .everything).mints run
  have within : (s.keep names).Within (.ofNames names) := by
    refine ⟨Bindings.within_ofNames fun name mem => ?_, groupKey⟩
    simpa using (List.mem_filter.1 mem).2
  -- The body runs as well without the other query parameters, and then it cannot yield them.
  have alone := h.ignores names s (s.keep names) ⟨rfl, reads⟩
  rw [run] at alone
  generalize ran : work (s.keep names) = r at alone
  cases alone with
  | ok kept =>
    obtain ⟨rfl, -⟩ := kept
    obtain ⟨-, -, known⟩ := Ensures.of_ok (h.tidy _ _ within) ran
    exact ⟨minted, same a s' known⟩

end Resolve

end FluentQuery
