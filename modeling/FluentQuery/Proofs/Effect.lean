/-!
# Reasoning about work with a state

`Ensures work s post failed` says what a piece of work that is started in the state `s` guarantees:
`post` of its result and of the state it ends in if it succeeds, `failed` of the state it has
reached if it fails.  Both outcomes matter here, because states survive failures.
-/

namespace FluentQuery

set_option autoImplicit false

variable {ε σ α β : Type}

/-- What work guarantees when it is started in a state. -/
def Ensures (work : EStateM ε σ α) (s : σ) (post : α → σ → Prop) (failed : σ → Prop) : Prop :=
  match work s with
  | .ok a s' => post a s'
  | .error _ s' => failed s'

namespace Ensures

variable {work : EStateM ε σ α} {s s' : σ} {post mid : α → σ → Prop} {failed : σ → Prop}

/-- What is guaranteed of success holds of any run that succeeds. -/
theorem of_ok {a : α} (h : Ensures work s post failed) (run : work s = .ok a s') : post a s' := by
  simpa only [Ensures, run] using h

/-- What is guaranteed of failure holds of any run that fails. -/
theorem of_error {e : ε} (h : Ensures work s post failed) (run : work s = .error e s') :
    failed s' := by
  simpa only [Ensures, run] using h

/-- The guarantees are about the one run there is. -/
theorem intro (ok : ∀ a s', work s = .ok a s' → post a s')
    (error : ∀ e s', work s = .error e s' → failed s') : Ensures work s post failed := by
  unfold Ensures
  split
  · exact ok _ _ ‹_›
  · exact error _ _ ‹_›

/-- Weaker guarantees follow. -/
theorem mono {failed' : σ → Prop} (h : Ensures work s mid failed)
    (ok : ∀ a s', mid a s' → post a s') (error : ∀ s', failed s' → failed' s') :
    Ensures work s post failed' :=
  intro (fun a s' run => ok a s' (h.of_ok run)) (fun _ s' run => error s' (h.of_error run))

/-- The second piece of work starts where the first has ended, and may fail after it. -/
theorem bind {next : α → EStateM ε σ β} {post : β → σ → Prop} (h : Ensures work s mid failed)
    (rest : ∀ a s', mid a s' → Ensures (next a) s' post failed) :
    Ensures (work >>= next) s post failed := by
  unfold Ensures at h ⊢
  simp only [Bind.bind, EStateM.bind]
  split at h
  · simpa only [Ensures, ‹work s = _›] using rest _ _ h
  · simpa only [‹work s = _›] using h

theorem pure {a : α} (h : post a s) : Ensures (pure a : EStateM ε σ α) s post failed := h

theorem throw {e : ε} (h : failed s) : Ensures (throw e : EStateM ε σ α) s post failed := h

/-- Looking at the state hands it on. -/
theorem get {next : σ → EStateM ε σ α} (h : Ensures (next s) s post failed) :
    Ensures (get >>= next) s post failed := h

theorem set {next : PUnit → EStateM ε σ α} (h : Ensures (next ⟨⟩) s' post failed) :
    Ensures (set s' >>= next) s post failed := h

theorem modify {change : σ → σ} {next : PUnit → EStateM ε σ α}
    (h : Ensures (next ⟨⟩) (change s) post failed) :
    Ensures (modify change >>= next) s post failed := h

end Ensures

/-! ### Runs that succeed -/

/-- Work in sequence succeeds exactly if each part does. -/
theorem bind_eq_ok {work : EStateM ε σ α} {next : α → EStateM ε σ β} {s s' : σ} {b : β} :
    (work >>= next) s = .ok b s' ↔ ∃ a t, work s = .ok a t ∧ next a t = .ok b s' := by
  simp only [Bind.bind, EStateM.bind]
  constructor
  · intro h
    split at h
    · exact ⟨_, _, ‹_›, h⟩
    · cases h
  · rintro ⟨a, t, run, rest⟩
    rw [run]
    exact rest

/-- A result that is put to use comes from a run that succeeds. -/
theorem map_eq_ok {work : EStateM ε σ α} {f : α → β} {s s' : σ} {b : β} :
    (f <$> work) s = .ok b s' ↔ ∃ a, work s = .ok a s' ∧ f a = b := by
  rw [map_eq_pure_bind, bind_eq_ok]
  constructor
  · rintro ⟨a, t, run, rest⟩
    cases rest
    exact ⟨a, run, rfl⟩
  · rintro ⟨a, run, rfl⟩
    exact ⟨a, s', run, rfl⟩

/-! ### Outcomes without a state -/

/-- A sequence succeeds if both of its parts do. -/
theorem outcome_bind_eq_ok {x : Except ε α} {next : α → Except ε β} {b : β} :
    (x >>= next) = .ok b ↔ ∃ a, x = .ok a ∧ next a = .ok b := by
  cases x <;> simp [Bind.bind, Except.bind]

/-- A result that is put to use comes from an outcome that is one. -/
theorem outcome_map_eq_ok {x : Except ε α} {f : α → β} {b : β} :
    (f <$> x) = .ok b ↔ ∃ a, x = .ok a ∧ f a = b := by
  cases x <;> simp [Functor.map, Except.map]

theorem outcome_toOption_eq_some {x : Except ε α} {a : α} : x.toOption = some a ↔ x = .ok a := by
  cases x <;> simp [Except.toOption]

theorem outcome_isOk_iff {x : Except ε α} : x.isOk = true ↔ ∃ a, x = .ok a := by
  cases x <;> simp [Except.isOk, Except.toBool]

/-- Work that does not fail in the given way. -/
def Avoids (bad : ε → Prop) (x : Except ε α) : Prop :=
  ∀ e, x = .error e → ¬ bad e

namespace Avoids

variable {bad : ε → Prop} {x : Except ε α}

theorem ok {a : α} : Avoids bad (.ok a : Except ε α) :=
  nofun

theorem pure {a : α} : Avoids bad (pure a : Except ε α) :=
  nofun

/-- Harmless errors may be raised. -/
theorem error {e : ε} (h : ¬ bad e) : Avoids bad (.error e : Except ε α) := by
  rintro _ ⟨⟩
  exact h

/-- The rest runs only after success, and may rely on it. -/
theorem bind {next : α → Except ε β} (h : Avoids bad x)
    (rest : ∀ a, x = .ok a → Avoids bad (next a)) : Avoids bad (x >>= next) := by
  cases hx : x with
  | error e =>
    rintro _ ⟨⟩
    exact h e hx
  | ok a => exact rest a hx

/-- A check that may fail before the work goes on. -/
theorem check {c : Prop} [Decidable c] {e : ε} {next : Unit → Except ε α} (harmless : ¬ bad e)
    (h : Avoids bad (next ())) :
    Avoids bad (if c then (throw e : Except ε Unit) >>= next else next ()) := by
  split
  · exact error harmless
  · exact h

theorem map {f : α → β} (h : Avoids bad x) : Avoids bad (f <$> x) := by
  cases hx : x with
  | error e =>
    rintro _ ⟨⟩
    exact h e hx
  | ok a => exact ok

/-- An error may be reported as another one, if that is bad only where the error was. -/
theorem mapError {δ : Type} {f : ε → δ} {worse : δ → Prop} (h : Avoids bad x)
    (imp : ∀ e, worse (f e) → bad e) : Avoids worse (x.mapError f) := by
  cases hx : x with
  | error e =>
    rintro _ ⟨⟩
    exact fun hbad => h e hx (imp e hbad)
  | ok a => exact ok

end Avoids

/-- Whatever result there is has a property. -/
def Returns (post : α → Prop) (x : Except ε α) : Prop :=
  ∀ a, x = .ok a → post a

namespace Returns

variable {post : α → Prop} {x : Except ε α}

theorem ok {a : α} (h : post a) : Returns post (.ok a : Except ε α) := by
  rintro _ ⟨⟩
  exact h

/-- Failing promises nothing. -/
theorem error {e : ε} : Returns post (.error e : Except ε α) :=
  nofun

/-- The rest may rely on what has been promised of the result. -/
theorem bind {next : α → Except ε β} {post' : β → Prop} (h : Returns post x)
    (rest : ∀ a, post a → Returns post' (next a)) : Returns post' (x >>= next) := by
  cases hx : x with
  | error e => exact error
  | ok a => exact rest a (h a hx)

theorem pure {a : α} (h : post a) : Returns post (pure a : Except ε α) :=
  ok h

theorem any (x : Except ε α) : Returns (fun _ => True) x :=
  fun _ _ => trivial

/-- A check that may fail before the work goes on. -/
theorem check {c : Prop} [Decidable c] {e : ε} {next : Unit → Except ε α}
    (h : Returns post (next ())) :
    Returns post (if c then (throw e : Except ε Unit) >>= next else next ()) := by
  split
  · exact error
  · exact h

theorem map {f : α → β} {post' : β → Prop} (h : Returns post x) (imp : ∀ a, post a → post' (f a)) :
    Returns post' (f <$> x) := by
  cases hx : x with
  | error e => exact error
  | ok a => exact ok (imp a (h a hx))

/-- How an error is reported does not matter. -/
theorem mapError {δ : Type} {f : ε → δ} (h : Returns post x) : Returns post (x.mapError f) := by
  cases hx : x with
  | error e => exact error
  | ok a => exact ok (h a hx)

end Returns

end FluentQuery
