import FluentQuery.Proofs.Effect

/-!
# Two runs side by side

What one run may not depend on is said by two runs that differ in it.  `Agree` compares two outcomes
and `Matches` two pieces of work with a state: either both fail, with whatever errors, or both
succeed and what they give is related.  `Coincide` and `Mirrors` say the same and that the errors are
equal.  The rules follow the sequencing of work.
-/

namespace FluentQuery

set_option autoImplicit false

variable {ε σ α β γ ζ : Type}

/-! ### Outcomes -/

/-- Both outcomes are failures, or both are results that are related. -/
inductive Agree (same : α → β → Prop) : Except ε α → Except ε β → Prop where
  | ok {a : α} {b : β} (h : same a b) : Agree same (.ok a) (.ok b)
  | error {e e' : ε} : Agree same (.error e) (.error e')

namespace Agree

variable {same : α → β → Prop} {x : Except ε α} {y : Except ε β}

/-- An outcome agrees with itself. -/
theorem refl (x : Except ε α) : Agree Eq x x := by
  cases x with
  | ok a => exact .ok rfl
  | error e => exact .error

theorem pure {a : α} {b : β} (h : same a b) :
    Agree same (pure a : Except ε α) (pure b : Except ε β) :=
  .ok h

/-- Sequences agree if their parts do, whatever results are handed on. -/
theorem bind {f : α → Except ε γ} {g : β → Except ε ζ} {post : γ → ζ → Prop} (h : Agree same x y)
    (rest : ∀ a b, same a b → Agree post (f a) (g b)) : Agree post (x >>= f) (y >>= g) := by
  cases h with
  | ok h => exact rest _ _ h
  | error => exact .error

/-- What gives one result on both sides is followed by work on that result. -/
theorem bind_eq {x y : Except ε α} {f : α → Except ε γ} {g : α → Except ε ζ} {post : γ → ζ → Prop}
    (h : Agree Eq x y) (rest : ∀ a, Agree post (f a) (g a)) : Agree post (x >>= f) (y >>= g) := by
  refine h.bind ?_
  rintro a _ rfl
  exact rest a

theorem map {x y : Except ε α} {f : α → γ} (h : Agree Eq x y) : Agree Eq (f <$> x) (f <$> y) := by
  cases h with
  | ok h => exact .ok (congrArg f h)
  | error => exact .error

/-- How errors are reported does not matter. -/
theorem mapError {δ : Type} {f g : ε → δ} (h : Agree same x y) :
    Agree same (x.mapError f) (y.mapError g) := by
  cases h with
  | ok h => exact .ok h
  | error => exact .error

/-- The same check on both sides, before the work goes on. -/
theorem check {c : Prop} [Decidable c] {e e' : ε} {f : Unit → Except ε α} {g : Unit → Except ε β}
    (h : Agree same (f ()) (g ())) :
    Agree same (if c then (throw e : Except ε Unit) >>= f else f ())
      (if c then (throw e' : Except ε Unit) >>= g else g ()) := by
  split
  · exact .error
  · exact h

/-- Both runs take the same branch. -/
theorem ite {c : Prop} [Decidable c] {x' : Except ε α} {y' : Except ε β} (h : Agree same x y)
    (h' : Agree same x' y') : Agree same (if c then x else x') (if c then y else y') := by
  split
  · exact h
  · exact h'

/-- Outcomes that agree on the result itself both fail or are one success. -/
theorem eq_or_error {x y : Except ε α} (h : Agree Eq x y) :
    (∃ e e', x = .error e ∧ y = .error e') ∨ ∃ a, x = .ok a ∧ y = .ok a := by
  cases h with
  | @ok a b same => exact .inr ⟨a, rfl, by rw [same]⟩
  | @error e e' => exact .inl ⟨e, e', rfl, rfl⟩

end Agree

/-! ### Outcomes that fail alike -/

/-- Both outcomes are one failure, or both are results that are related. -/
inductive Coincide (same : α → β → Prop) : Except ε α → Except ε β → Prop where
  | ok {a : α} {b : β} (h : same a b) : Coincide same (.ok a) (.ok b)
  | error (e : ε) : Coincide same (.error e) (.error e)

namespace Coincide

variable {same : α → β → Prop} {x : Except ε α} {y : Except ε β}

theorem refl (x : Except ε α) : Coincide Eq x x := by
  cases x with
  | ok a => exact .ok rfl
  | error e => exact .error e

theorem pure {a : α} {b : β} (h : same a b) :
    Coincide same (pure a : Except ε α) (pure b : Except ε β) :=
  .ok h

/-- Sequences coincide if their parts do. -/
theorem bind {f : α → Except ε γ} {g : β → Except ε ζ} {post : γ → ζ → Prop}
    (h : Coincide same x y) (rest : ∀ a b, same a b → Coincide post (f a) (g b)) :
    Coincide post (x >>= f) (y >>= g) := by
  cases h with
  | ok h => exact rest _ _ h
  | error e => exact .error e

/-- The same work first on both sides. -/
theorem after (x : Except ε α) {f : α → Except ε γ} {g : α → Except ε ζ} {post : γ → ζ → Prop}
    (rest : ∀ a, Coincide post (f a) (g a)) : Coincide post (x >>= f) (x >>= g) := by
  refine (refl x).bind ?_
  rintro a _ rfl
  exact rest a

/-- Related results may be put to use. -/
theorem map {f : α → γ} {g : β → ζ} {post : γ → ζ → Prop} (h : Coincide same x y)
    (rest : ∀ a b, same a b → post (f a) (g b)) : Coincide post (f <$> x) (g <$> y) := by
  cases h with
  | ok h => exact .ok (rest _ _ h)
  | error e => exact .error e

/-- A weaker relation holds as well. -/
theorem mono {other : α → β → Prop} (h : Coincide same x y) (imp : ∀ a b, same a b → other a b) :
    Coincide other x y := by
  cases h with
  | ok h => exact .ok (imp _ _ h)
  | error e => exact .error e

/-- Errors that are equal are reported alike. -/
theorem mapError {δ : Type} (f : ε → δ) (h : Coincide same x y) :
    Coincide same (x.mapError f) (y.mapError f) := by
  cases h with
  | ok h => exact .ok h
  | error e => exact .error (f e)

/-- The same check on both sides, before the work goes on. -/
theorem check {c : Prop} [Decidable c] {e : ε} {f : Unit → Except ε α} {g : Unit → Except ε β}
    (h : Coincide same (f ()) (g ())) :
    Coincide same (if c then (throw e : Except ε Unit) >>= f else f ())
      (if c then (throw e : Except ε Unit) >>= g else g ()) := by
  split
  · exact .error e
  · exact h

/-- What is promised of the first outcome may be kept in mind. -/
theorem and_returns {post : α → Prop} (h : Coincide same x y) (h' : Returns post x) :
    Coincide (fun a b => post a ∧ same a b) x y := by
  cases h with
  | ok h => exact .ok ⟨h' _ rfl, h⟩
  | error e => exact .error e

/-- Two outcomes that coincide fail with one error or give results that are related. -/
theorem error_or_ok (h : Coincide same x y) :
    (∃ e, x = .error e ∧ y = .error e) ∨ ∃ a b, x = .ok a ∧ y = .ok b ∧ same a b := by
  cases h with
  | @ok a b same => exact .inr ⟨a, b, rfl, rfl, same⟩
  | error e => exact .inl ⟨e, rfl, rfl⟩

end Coincide

/-! ### Work with a state -/

/-- Both runs fail, or both give the same result and end in states that are alike. -/
inductive SameResult (alike : σ → σ → Prop) :
    EStateM.Result ε σ α → EStateM.Result ε σ α → Prop where
  | ok {a : α} {s s' : σ} (h : alike s s') : SameResult alike (.ok a s) (.ok a s')
  | error {e e' : ε} {s s' : σ} : SameResult alike (.error e s) (.error e' s')

namespace SameResult

variable {mid post : σ → σ → Prop} {s s' : σ}

/-- Work that goes on may end in states that are alike in another way. -/
theorem bind {work work' : EStateM ε σ α} {next next' : α → EStateM ε σ β}
    (h : SameResult mid (work s) (work' s'))
    (rest : ∀ a t t', mid t t' → SameResult post (next a t) (next' a t')) :
    SameResult post ((work >>= next) s) ((work' >>= next') s') := by
  simp only [Bind.bind, EStateM.bind]
  generalize work s = r at h ⊢
  generalize work' s' = r' at h ⊢
  cases h with
  | ok hs => exact rest _ _ _ hs
  | error => exact .error

/-- Both runs look at states of their own. -/
theorem get {next next' : σ → EStateM ε σ α} (h : SameResult post (next s s) (next' s' s')) :
    SameResult post ((get >>= next) s) ((get >>= next') s') :=
  h

/-- The states in the end may be related more weakly. -/
theorem mono {r r' : EStateM.Result ε σ α} (h : SameResult mid r r')
    (imp : ∀ t t', mid t t' → post t t') : SameResult post r r' := by
  cases h with
  | ok hs => exact .ok (imp _ _ hs)
  | error => exact .error

end SameResult

/-- From states that are alike, two pieces of work both fail or give the same result. -/
def Matches (alike : σ → σ → Prop) (work work' : EStateM ε σ α) : Prop :=
  ∀ s s', alike s s' → SameResult alike (work s) (work' s')

namespace Matches

variable {alike : σ → σ → Prop} {work work' : EStateM ε σ α}

theorem pure (a : α) : Matches alike (pure a : EStateM ε σ α) (pure a) :=
  fun _ _ h => .ok h

theorem throw (e e' : ε) : Matches alike (throw e : EStateM ε σ α) (throw e') :=
  fun _ _ _ => .error

/-- Work is done side by side; the results are the same, so that both sides go on with one value. -/
theorem bind {next next' : α → EStateM ε σ β} (h : Matches alike work work')
    (rest : ∀ a, Matches alike (next a) (next' a)) :
    Matches alike (work >>= next) (work' >>= next') :=
  fun s s' hs => (h s s' hs).bind rest

theorem get {next next' : σ → EStateM ε σ α}
    (rest : ∀ s s', alike s s' → Matches alike (next s) (next' s')) :
    Matches alike (get >>= next) (get >>= next') :=
  fun s s' hs => rest s s' hs s s' hs

/-- Changes of the state have to keep the states related. -/
theorem modify {change change' : σ → σ} (h : ∀ s s', alike s s' → alike (change s) (change' s')) :
    Matches alike (modify change : EStateM ε σ PUnit) (modify change') :=
  fun s s' hs => .ok (h s s' hs)

/-- The same check on both sides, before the work goes on. -/
theorem check {c : Prop} [Decidable c] {failure failure' : EStateM ε σ PUnit}
    {next next' : PUnit → EStateM ε σ α} (h : Matches alike failure failure')
    (rest : ∀ u, Matches alike (next u) (next' u)) :
    Matches alike (if c then failure >>= next else next ⟨⟩)
      (if c then failure' >>= next' else next' ⟨⟩) := by
  split
  · exact h.bind rest
  · exact rest _

theorem ite {c : Prop} [Decidable c] {other other' : EStateM ε σ α} (h : Matches alike work work')
    (h' : Matches alike other other') :
    Matches alike (if c then work else other) (if c then work' else other') := by
  split
  · exact h
  · exact h'

theorem map (f : α → β) (h : Matches alike work work') : Matches alike (f <$> work) (f <$> work') := by
  simp only [map_eq_pure_bind]
  exact h.bind fun a => .pure (f a)

end Matches

/-! ### Work with a state and results that are related -/

/-- Both runs fail, or both succeed with results that are related and in states that are alike. -/
inductive RelatedResult (same : α → β → Prop) (alike : σ → σ → Prop) :
    EStateM.Result ε σ α → EStateM.Result ε σ β → Prop where
  | ok {a : α} {b : β} {s s' : σ} (h : same a b) (hs : alike s s') :
      RelatedResult same alike (.ok a s) (.ok b s')
  | error {e e' : ε} {s s' : σ} : RelatedResult same alike (.error e s) (.error e' s')

/-- From states that are alike, two pieces of work both fail or give related results. -/
def Relates (same : α → β → Prop) (alike : σ → σ → Prop) (work : EStateM ε σ α)
    (work' : EStateM ε σ β) : Prop :=
  ∀ s s', alike s s' → RelatedResult same alike (work s) (work' s')

namespace Relates

variable {same : α → β → Prop} {alike : σ → σ → Prop} {work : EStateM ε σ α}
  {work' : EStateM ε σ β}

theorem pure {a : α} {b : β} (h : same a b) :
    Relates same alike (pure a : EStateM ε σ α) (pure b : EStateM ε σ β) :=
  fun _ _ hs => .ok h hs

/-- The results may differ, and the rest has to be related for any two that do as they should. -/
theorem bind {next : α → EStateM ε σ γ} {next' : β → EStateM ε σ ζ} {post : γ → ζ → Prop}
    (h : Relates same alike work work')
    (rest : ∀ a b, same a b → Relates post alike (next a) (next' b)) :
    Relates post alike (work >>= next) (work' >>= next') := by
  intro s s' hs
  have first := h s s' hs
  simp only [Bind.bind, EStateM.bind]
  generalize work s = r at first ⊢
  generalize work' s' = r' at first ⊢
  cases first with
  | ok h hs => exact rest _ _ h _ _ hs
  | error => exact .error

theorem get {next : σ → EStateM ε σ α} {next' : σ → EStateM ε σ β}
    (rest : ∀ s s', alike s s' → Relates same alike (next s) (next' s')) :
    Relates same alike (get >>= next) (get >>= next') :=
  fun s s' hs => rest s s' hs s s' hs

theorem ite {c : Prop} [Decidable c] {other : EStateM ε σ α} {other' : EStateM ε σ β}
    (h : Relates same alike work work') (h' : Relates same alike other other') :
    Relates same alike (if c then work else other) (if c then work' else other') := by
  split
  · exact h
  · exact h'

end Relates

/-- The same results are related results. -/
theorem Matches.relates {alike : σ → σ → Prop} {work work' : EStateM ε σ α}
    (h : Matches alike work work') : Relates Eq alike work work' := by
  intro s s' hs
  have ends := h s s' hs
  generalize work s = r at ends ⊢
  generalize work' s' = r' at ends ⊢
  cases ends with
  | ok hs => exact .ok rfl hs
  | error => exact .error

/-- Results that are related by equality are the same. -/
theorem Relates.matches {alike : σ → σ → Prop} {work work' : EStateM ε σ α}
    (h : Relates Eq alike work work') : Matches alike work work' := by
  intro s s' hs
  have ends := h s s' hs
  generalize work s = r at ends ⊢
  generalize work' s' = r' at ends ⊢
  cases ends with
  | ok same hs =>
    subst same
    exact .ok hs
  | error => exact .error

/-! ### Work with a state that fails alike -/

/-- Both runs fail with one error or give one result, and end in states that are alike. -/
inductive SameOutcome (alike : σ → σ → Prop) :
    EStateM.Result ε σ α → EStateM.Result ε σ α → Prop where
  | ok {a : α} {s s' : σ} (h : alike s s') : SameOutcome alike (.ok a s) (.ok a s')
  | error {e : ε} {s s' : σ} (h : alike s s') : SameOutcome alike (.error e s) (.error e s')

/-- From states that are alike, two pieces of work have the same outcome. -/
def Mirrors (alike : σ → σ → Prop) (work work' : EStateM ε σ α) : Prop :=
  ∀ s s', alike s s' → SameOutcome alike (work s) (work' s')

namespace Mirrors

variable {alike : σ → σ → Prop} {work work' : EStateM ε σ α}

theorem pure (a : α) : Mirrors alike (pure a : EStateM ε σ α) (pure a) :=
  fun _ _ h => .ok h

theorem throw (e : ε) : Mirrors alike (throw e : EStateM ε σ α) (throw e) :=
  fun _ _ h => .error h

/-- Work is done side by side, and fails alike. -/
theorem bind {next next' : α → EStateM ε σ β} (h : Mirrors alike work work')
    (rest : ∀ a, Mirrors alike (next a) (next' a)) :
    Mirrors alike (work >>= next) (work' >>= next') := by
  intro s s' hs
  have first := h s s' hs
  simp only [Bind.bind, EStateM.bind]
  generalize work s = r at first ⊢
  generalize work' s' = r' at first ⊢
  cases first with
  | ok hs => exact rest _ _ _ hs
  | error hs => exact .error hs

theorem get {next next' : σ → EStateM ε σ α}
    (rest : ∀ s s', alike s s' → Mirrors alike (next s) (next' s')) :
    Mirrors alike (get >>= next) (get >>= next') :=
  fun s s' hs => rest s s' hs s s' hs

/-- Changes of the state have to keep the states related. -/
theorem modify {change change' : σ → σ} (h : ∀ s s', alike s s' → alike (change s) (change' s')) :
    Mirrors alike (modify change : EStateM ε σ PUnit) (modify change') :=
  fun s s' hs => .ok (h s s' hs)

end Mirrors

end FluentQuery
