import Mathlib.Tactic.Simproc.ExistsAndEq
import PathQuery.Error

/-!
Steps that read and change a state and may fail: what a successful run of them is made of, and what
two runs from related states have in common.
-/

namespace PathQuery.Steps

variable {σ α β : Type}

@[simp]
theorem bind_ok_iff {x : StateT σ (Except Error) α} {f : α → StateT σ (Except Error) β} {s : σ}
    {r : β × σ} : (x >>= f) s = .ok r ↔ ∃ a s', x s = .ok (a, s') ∧ f a s' = .ok r := by
  simp only [bind, StateT.bind, Except.bind]
  cases x s with
  | error e => simp
  | ok p =>
    obtain ⟨a, s'⟩ := p
    constructor
    · intro h
      exact ⟨a, s', rfl, h⟩
    · rintro ⟨_, _, hp, h⟩
      cases hp
      exact h

theorem bind_error_iff {x : StateT σ (Except Error) α} {f : α → StateT σ (Except Error) β} {s : σ}
    {e : Error} :
    (x >>= f) s = .error e ↔ x s = .error e ∨ ∃ a s', x s = .ok (a, s') ∧ f a s' = .error e := by
  simp only [bind, StateT.bind, Except.bind]
  cases x s with
  | error e' => simp
  | ok p =>
    obtain ⟨a, s'⟩ := p
    constructor
    · intro h
      exact .inr ⟨a, s', rfl, h⟩
    · rintro (h | ⟨_, _, hp, h⟩)
      · cases h
      · cases hp
        exact h

@[simp]
theorem pure_ok_iff {a b : α} {s s' : σ} :
    (pure a : StateT σ (Except Error) α) s = .ok (b, s') ↔ b = a ∧ s' = s := by
  change Except.ok (a, s) = .ok (b, s') ↔ _
  simp only [Except.ok.injEq, Prod.mk.injEq, eq_comm]

@[simp]
theorem map_ok_iff {f : α → β} {x : StateT σ (Except Error) α} {s s' : σ} {b : β} :
    (f <$> x) s = .ok (b, s') ↔ ∃ a, x s = .ok (a, s') ∧ b = f a := by
  rw [map_eq_pure_bind, bind_ok_iff]
  constructor
  · rintro ⟨a, _, hx, h⟩
    obtain ⟨rfl, rfl⟩ := pure_ok_iff.mp h
    exact ⟨a, hx, rfl⟩
  · rintro ⟨a, hx, rfl⟩
    exact ⟨a, s', hx, rfl⟩

@[simp]
theorem get_ok_iff {s t s' : σ} :
    (get : StateT σ (Except Error) σ) s = .ok (t, s') ↔ t = s ∧ s' = s := by
  change Except.ok (s, s) = .ok (t, s') ↔ _
  simp only [Except.ok.injEq, Prod.mk.injEq, eq_comm]

@[simp]
theorem modify_ok_iff {f : σ → σ} {s s' : σ} {u : PUnit} :
    (modify f : StateT σ (Except Error) PUnit) s = .ok (u, s') ↔ s' = f s := by
  change Except.ok (PUnit.unit, f s) = .ok (u, s') ↔ _
  simp only [Except.ok.injEq, Prod.mk.injEq, true_and, eq_comm]

@[simp]
theorem toOption_eq_some_iff {x : Except Error α} {a : α} : x.toOption = some a ↔ x = .ok a := by
  cases x <;> simp [Except.toOption]

/-- Both fail in the same way, or both succeed with related results. -/
inductive Agree (R : α → β → Prop) : Except Error α → Except Error β → Prop
  | ok {a : α} {b : β} (h : R a b) : Agree R (.ok a) (.ok b)
  | error (e : Error) : Agree R (.error e) (.error e)

theorem Agree.refl (x : Except Error α) : Agree Eq x x := by
  cases x with
  | error e => exact .error e
  | ok a => exact .ok rfl

variable {S : σ → σ → Prop} {R : α → α → Prop} {Q : β → β → Prop}

/-- From states that are related by `S`, the steps agree up to `R` and end in states that are
related again. -/
def Tied (S : σ → σ → Prop) (R : α → α → Prop) (x y : StateT σ (Except Error) α) : Prop :=
  ∀ s t, S s t → Agree (fun p q => R p.1 q.1 ∧ S p.2 q.2) (x s) (y t)

theorem Tied.pure {a b : α} (h : R a b) : Tied S R (pure a) (pure b) := by
  intro s t hst
  exact .ok ⟨h, hst⟩

theorem Tied.bind {x y : StateT σ (Except Error) α} {f f' : α → StateT σ (Except Error) β}
    (hx : Tied S R x y) (hf : ∀ a b, R a b → Tied S Q (f a) (f' b)) :
    Tied S Q (x >>= f) (y >>= f') := by
  intro s t hst
  have h := hx s t hst
  simp only [Bind.bind, StateT.bind, Except.bind]
  generalize x s = p at h
  generalize y t = q at h
  cases h with
  | ok h => exact hf _ _ h.1 _ _ h.2
  | error e => exact .error e

theorem Tied.get : Tied S S (MonadState.get : StateT σ (Except Error) σ) MonadState.get := by
  intro s t hst
  exact .ok ⟨hst, hst⟩

theorem Tied.modify {f f' : σ → σ} (h : ∀ s t, S s t → S (f s) (f' t)) :
    Tied S Eq (modify f : StateT σ (Except Error) PUnit) (modify f') := by
  intro s t hst
  exact .ok ⟨rfl, h s t hst⟩

/-! ### Failures -/

/-- Every failure is of the kind `P`. -/
def Raises (P : Error → Prop) (x : Except Error α) : Prop :=
  ∀ e, x = .error e → P e

variable {P P' : Error → Prop}

theorem Raises.ok (a : α) : Raises P (.ok a) := by
  intro e h
  cases h

theorem Raises.error {e : Error} (h : P e) : Raises P (.error e : Except Error α) := by
  intro e' he
  cases he
  exact h

theorem Raises.mono {x : Except Error α} (h : Raises P x) (hP : ∀ e, P e → P' e) : Raises P' x :=
  fun e he => hP e (h e he)

/-- From every state, every failure of the steps is of the kind `P`. -/
def StepsRaise (P : Error → Prop) (x : StateT σ (Except Error) α) : Prop :=
  ∀ s, Raises P (x s)

theorem StepsRaise.pure (a : α) : StepsRaise P (pure a : StateT σ (Except Error) α) :=
  fun s => .ok (a, s)

theorem StepsRaise.bind {x : StateT σ (Except Error) α} {f : α → StateT σ (Except Error) β}
    (hx : StepsRaise P x) (hf : ∀ a, StepsRaise P (f a)) : StepsRaise P (x >>= f) := by
  intro s e h
  rcases bind_error_iff.mp h with h | ⟨a, s', -, h⟩
  · exact hx s e h
  · exact hf a s' e h

theorem StepsRaise.get : StepsRaise P (MonadState.get : StateT σ (Except Error) σ) :=
  fun s => .ok (s, s)

theorem StepsRaise.modify (f : σ → σ) :
    StepsRaise P (modify f : StateT σ (Except Error) PUnit) :=
  fun s => .ok (PUnit.unit, f s)

end PathQuery.Steps
