import FileSync.Lib.Fallible

/-!
# Forgetting a part of the state

`Erases π f s m m'` says that from the state `s` the computation `m'` does to the part `π` of the state what `m` does, and
fails as `m` does; its value is what `f` makes of the value of `m` and the state after it. What `m` does to the rest of the
state goes unseen (`Erases.silent`). There is one rule for each way to make a computation.
-/

namespace FileSync.Lib

open Fallible

variable {σ τ ε α β γ δ : Type}

/-- An outcome without the rest of the state. -/
def eraseOutcome (π : σ → τ) (f : α → σ → β) : Except ε α × σ → Except ε β × τ
  | (.ok a, s) => (.ok (f a s), π s)
  | (.error e, s) => (.error e, π s)

/-- From `s`, `m'` is `m` without the rest of the state. -/
def Erases (π : σ → τ) (f : α → σ → β) (s : σ) (m : Fallible σ ε α) (m' : Fallible τ ε β) : Prop :=
  m' (π s) = eraseOutcome π f (m s)

namespace Erases

variable {π : σ → τ} {f : α → σ → β} {g : γ → σ → δ} {s s' : σ} {m : Fallible σ ε α} {m' : Fallible τ ε β}
  {k : α → Fallible σ ε γ} {k' : β → Fallible τ ε δ} {a : α} {b : β} {e : ε}

theorem ok (h : Erases π f s m m') (hm : m s = (.ok a, s')) : m' (π s) = (.ok (f a s'), π s') := by
  rw [h, hm]
  rfl

theorem error (h : Erases π f s m m') (hm : m s = (.error e, s')) : m' (π s) = (.error e, π s') := by
  rw [h, hm]
  rfl

/-- The two outcomes, one by one. -/
theorem intro (hok : ∀ a s', m s = (.ok a, s') → m' (π s) = (.ok (f a s'), π s'))
    (herror : ∀ e s', m s = (.error e, s') → m' (π s) = (.error e, π s')) : Erases π f s m m' := by
  rcases hm : m s with ⟨r, s'⟩
  rw [Erases, hm]
  cases r with
  | ok a => exact hok a s' hm
  | error e => exact herror e s' hm

theorem pure (h : b = f a s) : Erases π f s (Pure.pure a : Fallible σ ε α) (Pure.pure b) := by
  subst h
  rfl

theorem bind (hm : Erases π f s m m') (hk : ∀ a s', m s = (.ok a, s') → Erases π g s' (k a) (k' (f a s'))) :
    Erases π g s (m >>= k) (m' >>= k') := by
  rcases hr : m s with ⟨r, s'⟩
  cases r with
  | ok a =>
    rw [Erases, bind_of_ok (hm.ok hr), bind_of_ok hr]
    exact hk a s' hr
  | error e =>
    rw [Erases, bind_of_error (hm.error hr), bind_of_error hr]
    rfl

/-- The outcome is looked at, a failure too. -/
theorem attempt {k : Except ε α → Fallible σ ε γ} {k' : Except ε β → Fallible τ ε δ} (hm : Erases π f s m m')
    (hok : ∀ a s', m s = (.ok a, s') → Erases π g s' (k (.ok a)) (k' (.ok (f a s'))))
    (herror : ∀ e s', m s = (.error e, s') → Erases π g s' (k (.error e)) (k' (.error e))) :
    Erases π g s (m.attempt >>= k) (m'.attempt >>= k') := by
  rcases hr : m s with ⟨r, s'⟩
  have ha : m.attempt s = (.ok r, s') := by rw [attempt_apply, hr]
  cases r with
  | ok a =>
    have ha' : m'.attempt (π s) = (.ok (.ok (f a s')), π s') := by rw [attempt_apply, hm.ok hr]
    rw [Erases, bind_of_ok ha', bind_of_ok ha]
    exact hok a s' hr
  | error e =>
    have ha' : m'.attempt (π s) = (.ok (.error e), π s') := by rw [attempt_apply, hm.error hr]
    rw [Erases, bind_of_ok ha', bind_of_ok ha]
    exact herror e s' hr

/-- The part of the state is looked at. -/
theorem get {k' : τ → Fallible τ ε β} (h : Erases π f s m (k' (π s))) : Erases π f s m (Fallible.get >>= k') := h

/-- Nothing is seen of a computation first. -/
theorem silent {k' : Fallible τ ε δ} (hm : m s = (.ok a, s')) (hπ : π s' = π s) (hk : Erases π g s' (k a) k') :
    Erases π g s (m >>= k) k' := by
  rw [Erases, bind_of_ok hm, ← hπ]
  exact hk

/-- Nothing is seen of what follows. -/
theorem andThen {g : γ → σ → β} (hm : Erases π f s m m')
    (hk : ∀ a s', m s = (.ok a, s') → ∃ c s'', k a s' = (.ok c, s'') ∧ π s'' = π s' ∧ g c s'' = f a s') :
    Erases π g s (m >>= k) m' := by
  rcases hr : m s with ⟨r, s'⟩
  cases r with
  | ok a =>
    obtain ⟨c, s'', hc, hπ, hg⟩ := hk a s' hr
    rw [Erases, hm.ok hr, bind_of_ok hr, hc, ← hg, ← hπ]
    rfl
  | error e =>
    rw [Erases, hm.error hr, bind_of_error hr]
    rfl

theorem ite {c c' : Prop} [Decidable c] [Decidable c'] {m₁ m₂ : Fallible σ ε α} {m₁' m₂' : Fallible τ ε β} (hc : c' ↔ c)
    (hpos : c → Erases π f s m₁ m₁') (hneg : ¬ c → Erases π f s m₂ m₂') :
    Erases π f s (if c then m₁ else m₂) (if c' then m₁' else m₂') := by
  by_cases h : c
  · rw [if_pos h, if_pos (hc.mpr h)]
    exact hpos h
  · rw [if_neg h, if_neg (mt hc.mp h)]
    exact hneg h

end Erases

end FileSync.Lib
