import FluentQuery.Proofs.Effect
import FluentQuery.Proofs.Resolve.Vocabulary

/-!
# What resolving does to a scope

Resolving a lambda body leaves a scope as it was, except that literals become automatic parameters:
`Scope.Mints` is that change, a sequence of `addAutoParam`.  The expression that results is closed:
every name in it is known to the vocabulary or is one of the automatic parameters.  `Tidy` puts the
two together, as a property of work that survives sequencing.
-/

namespace FluentQuery

set_option autoImplicit false

namespace Scope

/-- The second scope is the first with automatic parameters added, one after the other. -/
inductive Mints : Scope → Scope → Prop where
  | refl (s : Scope) : Mints s s
  | mint {s s' : Scope} (before : Mints s s') (value : Json) (fieldName : String)
      (sourceTable : Option Int) : Mints s (s'.addAutoParam value fieldName sourceTable).2

namespace Mints

variable {s s' s'' : Scope}

/-- Parameters that are minted in two steps are minted. -/
theorem trans (h : Mints s s') (h' : Mints s' s'') : Mints s s'' := by
  induction h' with
  | refl => exact h
  | mint _ value fieldName sourceTable ih => exact ih.mint value fieldName sourceTable

/-- Minting binds no names. -/
theorem bindings (h : Mints s s') : s'.bindings = s.bindings := by
  induction h with
  | refl => rfl
  | mint _ _ _ _ ih => exact ih

/-- Minting leaves groups alone. -/
theorem groupByKey (h : Mints s s') : s'.groupByKey = s.groupByKey := by
  induction h with
  | refl => rfl
  | mint _ _ _ _ ih => exact ih

/-- What names are bound to does not matter to automatic parameters. -/
theorem rebind (h : Mints s s') (b : Bindings) :
    Mints { s with bindings := b } { s' with bindings := b } := by
  induction h with
  | refl => exact .refl _
  | mint _ value fieldName sourceTable ih => exact ih.mint value fieldName sourceTable

/-- No parameter is lost. -/
theorem mem_keys (h : Mints s s') {name : String} (hn : name ∈ Assoc.keys s.autoParams) :
    name ∈ Assoc.keys s'.autoParams := by
  induction h with
  | refl => exact hn
  | mint _ value _ _ ih =>
    rw [← Assoc.find?_isSome_iff_mem_keys] at ih ⊢
    simp only [addAutoParam, Assoc.find?_insert]
    split
    · rfl
    · exact ih

/-- The names that are added are numbered. -/
theorem numbered (h : Mints s s') {name : String} (hn : name ∈ Assoc.keys s'.autoParams) :
    name ∈ Assoc.keys s.autoParams ∨ ∃ number, name = autoParamName number := by
  induction h with
  | refl => exact .inl hn
  | mint _ value _ _ ih =>
    rcases Assoc.keys_insert_subset _ _ _ _ hn with rfl | hrest
    · exact .inr ⟨_, rfl⟩
    · exact ih hrest

/-- Parameters stay in the order of their names. -/
theorem sorted (h : Mints s s') (hs : Assoc.Sorted s.autoParams) : Assoc.Sorted s'.autoParams := by
  induction h with
  | refl => exact hs
  | mint _ _ _ _ ih => exact ih.insert _ _

end Mints

end Scope

/-! ### Closed expressions -/

namespace Expr

/-- Every node of an expression is known. -/
def Closed (v : Vocabulary) (s : Scope) (e : Expr) : Prop :=
  Every (Known v (Assoc.keys s.autoParams)) e

variable {v : Vocabulary} {s s' : Scope} {e : Expr}

/-- A known node remains known as long as the automatic parameters are there. -/
theorem Known.of_keys {auto auto' : List String} {node : Expr} (h : Known v auto node)
    (kept : ∀ name ∈ auto, name ∈ auto') : Known v auto' node := by
  cases node with
  | param =>
    rcases h with hd | ⟨hp, hi, ha⟩
    · exact .inl hd
    · exact .inr ⟨hp, hi, kept _ ha⟩
  | booleanParam =>
    rcases h with hd | ⟨hp, ha⟩
    · exact .inl hd
    · exact .inr ⟨hp, kept _ ha⟩
  | _ => exact h

/-- An expression stays closed as long as no automatic parameter is lost. -/
theorem Closed.of_keys (h : Closed v s e)
    (kept : ∀ name ∈ Assoc.keys s.autoParams, name ∈ Assoc.keys s'.autoParams) : Closed v s' e :=
  Every.mono h fun _ known => known.of_keys kept

/-- An expression stays closed while parameters are minted. -/
theorem Closed.mono (h : Closed v s e) (minted : s.Mints s') : Closed v s' e :=
  h.of_keys fun _ => minted.mem_keys

end Expr

namespace Scope

/-- What a scope can reach is known: by the names it binds, and in its group key. -/
structure Within (v : Vocabulary) (s : Scope) : Prop where
  bindings : s.bindings.Within v
  groupKey : s.groupByKey.Closed v s

/-- A scope stays within the vocabulary while parameters are minted. -/
theorem Within.mono {v : Vocabulary} {s s' : Scope} (h : s.Within v)
    (minted : s.Mints s') : s'.Within v := by
  constructor
  · rw [minted.bindings]
    exact h.bindings
  · rw [minted.groupByKey]
    exact h.groupKey.mono minted

/-- If every name is known, all scopes are within the vocabulary. -/
theorem within_everything (s : Scope) : s.Within .everything := by
  refine ⟨⟨fun _ _ => trivial, fun _ _ _ => trivial, fun shape _ => Shape.overAll_true shape⟩, ?_⟩
  intro node _
  cases node with
  | param | booleanParam => exact .inl trivial
  | column | booleanColumn | reference => exact fun _ _ => trivial
  | _ => trivial

end Scope

/-! ### Tidy work -/

namespace Resolve

variable {α β : Type} {v : Vocabulary} {s : Scope}

/-- From the scope `s`, work only mints automatic parameters, whether it succeeds or not, and a
result has the property `post`. -/
def TidyAt (v : Vocabulary) (s : Scope) (post : α → Scope → Prop) (work : Resolve α) : Prop :=
  Ensures work s (fun a s' => s.Mints s' ∧ s'.Within v ∧ post a s') s.Mints

/-- Work that is tidy from every scope within the vocabulary. -/
def Tidy (v : Vocabulary) (post : α → Scope → Prop) (work : Resolve α) : Prop :=
  ∀ s, s.Within v → TidyAt v s post work

/-- Work that is tidy does nothing to the scope but mint. -/
theorem Tidy.mints {post : α → Scope → Prop} {work : Resolve α} {a : α} {s' : Scope}
    (tidy : Tidy .everything post work) (run : work s = .ok a s') : s.Mints s' :=
  (Ensures.of_ok (tidy s s.within_everything) run).1

/-- The result is a closed expression. -/
def closed (v : Vocabulary) (e : Expr) (s : Scope) : Prop :=
  e.Closed v s

/-- Every expression of a list is closed. -/
def allClosed (v : Vocabulary) (es : List Expr) (s : Scope) : Prop :=
  ∀ e ∈ es, e.Closed v s

/-- Every member of a projection is closed. -/
def membersClosed (v : Vocabulary) (ms : List (String × Expr)) (s : Scope) : Prop :=
  ∀ m ∈ ms, m.2.Closed v s

namespace TidyAt

variable {post mid : α → Scope → Prop} {work : Resolve α}

theorem pure {a : α} (within : s.Within v) (h : post a s) :
    TidyAt v s post (pure a) :=
  ⟨.refl s, within, h⟩

theorem fail {fault : Fault} : TidyAt v s post (fail fault) :=
  .refl s

theorem failUnplaced {fault : Fault} : TidyAt v s post (failUnplaced fault) :=
  .refl s

theorem get {next : Scope → Resolve α} (h : TidyAt v s post (next s)) :
    TidyAt v s post (get >>= next) :=
  h

/-- Work that looks at no scope leaves it alone. -/
theorem ofExcept {x : Except ExprFault α} (within : s.Within v)
    (h : ∀ a, x = .ok a → post a s) : TidyAt v s post (ofExcept x) := by
  cases x with
  | ok a => exact ⟨.refl s, within, h a rfl⟩
  | error fault => exact .refl s

/-- After tidy work the scope has minted and is still within the vocabulary, and tidy work may go on
from there. -/
theorem bind {next : α → Resolve β} {post : β → Scope → Prop} (h : TidyAt v s mid work)
    (rest : ∀ a s', s.Mints s' → s'.Within v → mid a s' →
      TidyAt v s' post (next a)) :
    TidyAt v s post (work >>= next) := by
  refine Ensures.bind h ?_
  rintro a s' ⟨minted, within, ha⟩
  refine (rest a s' minted within ha).mono ?_ ?_
  · rintro b s'' ⟨minted', within', hb⟩
    exact ⟨minted.trans minted', within', hb⟩
  · intro s'' minted'
    exact minted.trans minted'

/-- The result may be put to use. -/
theorem map {f : α → β} {post : β → Scope → Prop} (h : TidyAt v s mid work)
    (hf : ∀ a s', mid a s' → post (f a) s') : TidyAt v s post (f <$> work) := by
  rw [map_eq_pure_bind]
  exact h.bind fun a s' _ within ha => .pure within (hf a s' ha)

end TidyAt

end Resolve

end FluentQuery
