import Mathlib.Tactic.Common

/-!
Successful runs of computations with state and faults.  A run of a sequence succeeds exactly when
its parts succeed one after the other, so a hypothesis about a whole run is taken apart by `simp`.
-/

namespace X64Backend.Success

variable {ε σ α β : Type}

@[simp]
theorem bind_ok {first : EStateM ε σ α} {next : α → EStateM ε σ β} {s s' : σ} {b : β} :
    (first >>= next) s = .ok b s' ↔ ∃ a s₁, first s = .ok a s₁ ∧ next a s₁ = .ok b s' := by
  simp only [bind, EStateM.bind]
  cases first s with
  | ok a s₁ => simp
  | error e s₁ => simp

/-- A sequence fails in its first part, or where it goes on from there. -/
theorem bind_error {first : EStateM ε σ α} {next : α → EStateM ε σ β} {s s' : σ} {e : ε} :
    (first >>= next) s = .error e s' ↔
      first s = .error e s' ∨ ∃ a s₁, first s = .ok a s₁ ∧ next a s₁ = .error e s' := by
  simp only [bind, EStateM.bind]
  cases first s with
  | ok a s₁ => simp
  | error e s₁ => simp

/-- A sequence goes on from where its first part succeeds. -/
theorem bind_of_ok {first : EStateM ε σ α} {next : α → EStateM ε σ β} {s s₁ : σ} {a : α}
    (run : first s = .ok a s₁) : (first >>= next) s = next a s₁ := by
  simp only [bind, EStateM.bind, run]

/-- A sequence fails where its first part fails. -/
theorem bind_of_error {first : EStateM ε σ α} {next : α → EStateM ε σ β} {s s₁ : σ} {e : ε}
    (run : first s = .error e s₁) : (first >>= next) s = .error e s₁ := by
  simp only [bind, EStateM.bind, run]

/-- Whether a run succeeds. -/
def succeeds : EStateM.Result ε σ α → Bool
  | .ok _ _ => true
  | .error _ _ => false

theorem exists_of_succeeds {action : EStateM ε σ α} {s : σ} (ran : succeeds (action s) = true) :
    ∃ a s', action s = .ok a s' := by
  cases run : action s with
  | ok a s' => exact ⟨a, s', rfl⟩
  | error e s' =>
      rw [run] at ran
      contradiction

@[simp]
theorem pure_ok {a b : α} {s s' : σ} :
    (pure a : EStateM ε σ α) s = .ok b s' ↔ a = b ∧ s = s' := by
  simp [pure, EStateM.pure]

@[simp]
theorem map_ok {f : α → β} {action : EStateM ε σ α} {s s' : σ} {b : β} :
    (f <$> action) s = .ok b s' ↔ ∃ a, action s = .ok a s' ∧ f a = b := by
  simp only [Functor.map, EStateM.map]
  cases action s with
  | ok a s₁ => simp; tauto
  | error e s₁ => simp

@[simp]
theorem discard_ok {action : EStateM ε σ α} {s s' : σ} {u : PUnit} :
    (discard action) s = .ok u s' ↔ ∃ a, action s = .ok a s' := by
  simp only [discard, Functor.mapConst, EStateM.map, Function.comp]
  cases action s with
  | ok a s₁ => simp
  | error e s₁ => simp

@[simp]
theorem throw_ok {e : ε} {s s' : σ} {a : α} :
    (throw e : EStateM ε σ α) s = .ok a s' ↔ False := by
  change EStateM.Result.error e s = .ok a s' ↔ False
  simp

@[simp]
theorem get_ok {s s' a : σ} : (get : EStateM ε σ σ) s = .ok a s' ↔ s = a ∧ s = s' := by
  change EStateM.Result.ok s s = .ok a s' ↔ s = a ∧ s = s'
  simp

@[simp]
theorem set_ok {s s' new : σ} {u : PUnit} :
    (set new : EStateM ε σ PUnit) s = .ok u s' ↔ new = s' := by
  change EStateM.Result.ok ⟨⟩ new = .ok u s' ↔ new = s'
  simp

theorem modify_eq {change : σ → σ} {s : σ} :
    (modify change : EStateM ε σ PUnit) s = .ok ⟨⟩ (change s) :=
  rfl

@[simp]
theorem modify_ok {change : σ → σ} {s s' : σ} {u : PUnit} :
    (modify change : EStateM ε σ PUnit) s = .ok u s' ↔ change s = s' := by
  simp [modify_eq]

@[simp]
theorem ite_apply {c : Prop} [Decidable c] {first second : EStateM ε σ α} {s : σ} :
    (if c then first else second) s = if c then first s else second s := by
  split <;> rfl

section Extra

variable {ρ : Type} {r r' : ρ} {s s' : σ}

/-- A run with a state of its own on top is a run of two states. -/
@[simp]
theorem stateT_bind_ok {first : StateT ρ (EStateM ε σ) α} {next : α → StateT ρ (EStateM ε σ) β}
    {b : β × ρ} : (first >>= next) r s = .ok b s' ↔
      ∃ a r₁ s₁, first r s = .ok (a, r₁) s₁ ∧ next a r₁ s₁ = .ok b s' := by
  change (first r >>= fun pair => next pair.1 pair.2) s = .ok b s' ↔ _
  simp

@[simp]
theorem stateT_pure_ok {a : α} {b : α × ρ} :
    (pure a : StateT ρ (EStateM ε σ) α) r s = .ok b s' ↔ (a, r) = b ∧ s = s' :=
  pure_ok

@[simp]
theorem stateT_get_ok {b : ρ × ρ} :
    (get : StateT ρ (EStateM ε σ) ρ) r s = .ok b s' ↔ (r, r) = b ∧ s = s' :=
  pure_ok

@[simp]
theorem stateT_set_ok {new : ρ} {b : PUnit × ρ} :
    (set new : StateT ρ (EStateM ε σ) PUnit) r s = .ok b s' ↔ (⟨⟩, new) = b ∧ s = s' :=
  pure_ok

@[simp]
theorem stateT_modify_ok {change : ρ → ρ} {b : PUnit × ρ} :
    (modify change : StateT ρ (EStateM ε σ) PUnit) r s = .ok b s' ↔
      (⟨⟩, change r) = b ∧ s = s' :=
  pure_ok

@[simp]
theorem lift_ok {action : EStateM ε σ α} {b : α × ρ} :
    (liftM action : StateT ρ (EStateM ε σ) α) r s = .ok b s' ↔ action s = .ok b.1 s' ∧ r = b.2 := by
  obtain ⟨a, r'⟩ := b
  change (action >>= fun a => pure (a, r)) s = .ok (a, r') s' ↔ _
  simp only [bind_ok, pure_ok, Prod.mk.injEq]
  constructor
  · rintro ⟨_, _, ran, ⟨rfl, rfl⟩, rfl⟩
    exact ⟨ran, rfl⟩
  · rintro ⟨ran, rfl⟩
    exact ⟨a, s', ran, ⟨rfl, rfl⟩, rfl⟩

@[simp]
theorem stateT_map_ok {f : α → β} {action : StateT ρ (EStateM ε σ) α} {b : β × ρ} :
    (f <$> action) r s = .ok b s' ↔ ∃ a, action r s = .ok (a, b.2) s' ∧ f a = b.1 := by
  obtain ⟨b, r'⟩ := b
  change (action r >>= fun pair => pure (f pair.1, pair.2)) s = .ok (b, r') s' ↔ _
  simp only [bind_ok, pure_ok, Prod.mk.injEq]
  constructor
  · rintro ⟨⟨a, _⟩, _, ran, ⟨rfl, rfl⟩, rfl⟩
    exact ⟨a, ran, rfl⟩
  · rintro ⟨a, ran, rfl⟩
    exact ⟨(a, r'), s', ran, ⟨rfl, rfl⟩, rfl⟩

@[simp]
theorem stateT_ite_apply {c : Prop} [Decidable c] {first second : StateT ρ (EStateM ε σ) α} :
    (if c then first else second) r = if c then first r else second r := by
  split <;> rfl

/-- A loop over computations that do not see the upper state is a loop below it. -/
theorem forM_of_lifted {items : List α} {action : α → EStateM ε σ PUnit} {u : PUnit}
    (run : (items.forM fun item => (liftM (action item) : StateT ρ (EStateM ε σ) PUnit)) r s =
      .ok (u, r') s') : items.forM action s = .ok u s' ∧ r = r' := by
  induction items generalizing s with
  | nil =>
      obtain ⟨same, rfl⟩ := stateT_pure_ok.mp run
      cases same
      exact ⟨rfl, rfl⟩
  | cons item rest inductionHypothesis =>
      obtain ⟨_, _, s₁, ran, run⟩ := stateT_bind_ok.mp run
      obtain ⟨ran, rfl⟩ := lift_ok.mp ran
      obtain ⟨later, rfl⟩ := inductionHypothesis run
      exact ⟨bind_ok.mpr ⟨_, s₁, ran, later⟩, rfl⟩

end Extra

end X64Backend.Success
