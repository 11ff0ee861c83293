import FluentQuery.Proofs.Resolve.BodyInduction
import FluentQuery.Resolve.Chain

/-!
# Induction over chains

A chain is the call of a function by its name, the call of a method on a chain, or a lambda that returns
a chain; the first argument of a call may be a chain of its own.  Every other node is refused, whatever
the scope is.  What holds of refused nodes and is kept up by the three forms holds of every node
(`Node.chain_induction`).
-/

namespace FluentQuery

set_option autoImplicit false

namespace Node

/-- The chain in a lambda is that of what it returns. -/
theorem chain_arrow (names : List String) (body : Node) (mark : DefaultMark) (seed : Operation) :
    (arrow names body).chain mark seed =
      match body.lambdaBody with
      | .ok value => value.chain mark.inside seed
      | .error fault => Resolve.failUnplaced fault := by
  cases body with
  | block nodes =>
    match nodes with
    | [] => rfl
    | [node] | node :: _ :: _ =>
      cases node with
      | returnStatement value => cases value <;> rfl
      | _ => rfl
  | _ => rfl

theorem chain_arrow_of_ok {body value : Node} (returned : body.lambdaBody = .ok value)
    (names : List String) (mark : DefaultMark) (seed : Operation) :
    (arrow names body).chain mark seed = value.chain mark.inside seed := by
  rw [chain_arrow, returned]

/-- A node that is no chain: it is refused in every scope, and leaves the scope as it is. -/
def Refused (node : Node) (mark : DefaultMark) : Prop :=
  ∀ seed s, ∃ e, node.chain mark seed s = .error e s

theorem Refused.ne_ok {node : Node} {mark : DefaultMark} (h : node.Refused mark) {seed op : Operation}
    {s s' : Scope} : node.chain mark seed s ≠ .ok op s' := by
  obtain ⟨e, fails⟩ := h seed s
  rw [fails]
  exact nofun

theorem refused_arrow {body : Node} {fault : LoadFault} (missing : body.lambdaBody = .error fault)
    (names : List String) (mark : DefaultMark) : (arrow names body).Refused mark := by
  intro seed s
  rw [chain_arrow, missing]
  exact ⟨_, rfl⟩

/-- Induction over the forms of a chain and over the chains among the arguments of its calls. -/
theorem chain_induction {motive : Node → DefaultMark → Prop}
    (refused : ∀ node mark, node.Refused mark → motive node mark)
    (lambda : ∀ names body value mark, body.lambdaBody = .ok value → motive value mark.inside →
      motive (arrow names body) mark)
    (function : ∀ name arguments mark, (∀ first ∈ arguments.head?, ∀ mark, motive first mark) →
      motive (call (identifier name) arguments) mark)
    (method : ∀ receiver property computed arguments mark, motive receiver .step →
      (∀ first ∈ arguments.head?, ∀ mark, motive first mark) →
      motive (call (member receiver property computed) arguments) mark)
    (node : Node) (mark : DefaultMark) : motive node mark := by
  induction size : sizeOf node using Nat.strongRecOn generalizing node mark with
  | ind _ ih =>
    subst size
    have first {callee : Node} {arguments : List Node} (ih : ∀ n < sizeOf (call callee arguments),
        ∀ node mark, sizeOf node = n → motive node mark) :
        ∀ first ∈ arguments.head?, ∀ mark, motive first mark := by
      intro first mem mark
      have smaller := List.sizeOf_lt_of_mem (List.mem_of_mem_head? mem)
      refine ih (sizeOf first) ?_ first mark rfl
      rw [call.sizeOf_spec]
      omega
    cases node with
    | arrow names body =>
      cases returned : body.lambdaBody with
      | error fault => exact refused _ _ (refused_arrow returned names mark)
      | ok value =>
        have smaller := sizeOf_lambdaBody_le returned
        refine lambda names body value mark returned (ih (sizeOf value) ?_ value mark.inside rfl)
        rw [arrow.sizeOf_spec]
        omega
    | call callee arguments =>
      cases callee with
      | identifier name => exact function name arguments mark (first ih)
      | member receiver property computed =>
        refine method receiver property computed arguments mark ?_ (first ih)
        refine ih (sizeOf receiver) ?_ receiver .step rfl
        rw [call.sizeOf_spec, member.sizeOf_spec]
        omega
      | _ => exact refused _ _ fun _ _ => ⟨_, rfl⟩
    | _ => exact refused _ _ fun _ _ => ⟨_, rfl⟩

end Node

/-- The only call that marks a collection is `defaultIfEmpty()`. -/
theorem ChainCall.method_of_marksDefault {c : ChainCall} {mark : DefaultMark}
    (marks : c.marksDefault mark = true) : c.method = "defaultIfEmpty" := by
  simp only [marksDefault, Bool.and_eq_true] at marks
  exact of_decide_eq_true marks.1.2

end FluentQuery
