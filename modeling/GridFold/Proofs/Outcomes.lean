import GridFold.Failure
import Mathlib

/-!
# GridFold.Proofs.Outcomes

When a computation made of steps succeeds: exactly if its steps do, one after the other. The lemmas on
`Except` are about checks, those on `EStateM` about steps that also pass a state on.
-/

namespace GridFold

theorem bind_eq_ok {ε β γ : Type} {x : Except ε β} {f : β → Except ε γ} {c : γ} :
    (x >>= f) = .ok c ↔ ∃ b, x = .ok b ∧ f b = .ok c := by
  cases x <;> simp [bind, Except.bind]

theorem pure_eq_ok {ε β : Type} {a b : β} : (pure a : Except ε β) = .ok b ↔ a = b := by
  simp [pure, Except.pure]

theorem mapError_eq_ok {ε δ β : Type} {f : ε → δ} {x : Except ε β} {b : β} :
    x.mapError f = .ok b ↔ x = .ok b := by
  cases x <;> simp [Except.mapError]

theorem mapM_eq_map {m : Type → Type} [Monad m] [LawfulMonad m] {β γ : Type} {f : β → m γ} {g : β → γ}
    {xs : List β} (h : ∀ x ∈ xs, f x = pure (g x)) : xs.mapM f = pure (xs.map g) := by
  induction xs with
  | nil => rfl
  | cons x xs ih =>
    rw [List.mapM_cons, h x (by simp), ih fun y hy => h y (by simp [hy]), pure_bind, pure_bind,
      List.map_cons]

theorem forM_flatMap {m : Type → Type} [Monad m] [LawfulMonad m] {β γ : Type} (xs : List β)
    (g : β → List γ) (f : γ → m Unit) :
    (xs.flatMap g).forM f = xs.forM fun x => (g x).forM f := by
  have happend : ∀ ys zs : List γ, (ys ++ zs).forM f = (do ys.forM f; zs.forM f) := fun _ _ =>
    List.forM_append
  induction xs with
  | nil => rfl
  | cons x xs ih =>
    rw [List.flatMap_cons, happend, ih]
    rfl

theorem throw_ne_ok {ε β : Type} {cause : ε} {b : β} : (throw cause : Except ε β) ≠ .ok b :=
  fun h => nomatch h

@[simp]
theorem run_bind_eq_ok {ε σ β γ : Type} {x : EStateM ε σ β} {f : β → EStateM ε σ γ} {c : γ}
    {s s'' : σ} :
    (x >>= f) s = .ok c s'' ↔ ∃ b s', x s = .ok b s' ∧ f b s' = .ok c s'' := by
  change EStateM.bind x f s = _ ↔ _
  unfold EStateM.bind
  cases x s with
  | ok b s' =>
    constructor
    · intro h
      exact ⟨b, s', rfl, h⟩
    · rintro ⟨_, _, hx, h⟩
      cases hx
      exact h
  | error cause s' => simp

@[simp]
theorem run_pure_eq_ok {ε σ β : Type} {a b : β} {s s' : σ} :
    (pure a : EStateM ε σ β) s = .ok b s' ↔ a = b ∧ s = s' := by
  change EStateM.Result.ok a s = .ok b s' ↔ _
  simp

@[simp]
theorem run_throw_eq_ok {ε σ β : Type} {cause : ε} {b : β} {s s' : σ} :
    (throw cause : EStateM ε σ β) s = .ok b s' ↔ False := by
  change EStateM.Result.error cause s = .ok b s' ↔ _
  simp

theorem exists_unit {p : Unit → Prop} : (∃ u, p u) ↔ p () :=
  ⟨fun ⟨(), h⟩ => h, fun h => ⟨(), h⟩⟩

/-- The run succeeds, and what it returns and leaves passes the test. -/
def succeeds {ε σ β : Type} (result : EStateM.Result ε σ β) (test : β → σ → Bool) : Bool :=
  match result with
  | .ok b s => test b s
  | .error _ _ => false

theorem exists_of_succeeds {ε σ β : Type} (result : EStateM.Result ε σ β) (test : β → σ → Bool)
    (h : succeeds result test = true) : ∃ b s, result = .ok b s ∧ test b s = true := by
  cases result with
  | ok b s => exact ⟨b, s, rfl, h⟩
  | error cause s => cases h

end GridFold
