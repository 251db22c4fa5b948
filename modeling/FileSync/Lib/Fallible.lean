import Mathlib.Init

/-!
# Computations that fail

`Fallible σ ε α` is a computation over a state `σ` that gives a value or fails with
an error; what it has done to the state stays done if it fails, as in C. A part of
the state can be computed on alone (`Fallible.zoom`).

`Yields F m s Q` says that from the state `s` the computation gives a value and a
state with `Q`, or fails with an error that `F` admits. `Decides` says exactly from which
states it fails, and is composed along `>>=` by `decides_bind`. `Always R m` says that the
states before and after are related whatever the outcome, and for a transitive `R` is
composed by `always_bind`, with no regard to the values.
-/

namespace FileSync.Lib

variable {σ τ ε α β : Type}

/-- A computation over a state that may fail. -/
def Fallible (σ ε α : Type) : Type := σ → Except ε α × σ

namespace Fallible

instance : Monad (Fallible σ ε) where
  pure a := fun s => (.ok a, s)
  bind m f := fun s =>
    match m s with
    | (.ok a, s) => f a s
    | (.error e, s) => (.error e, s)

/-- Fail. -/
def fail (e : ε) : Fallible σ ε α := fun s => (.error e, s)

/-- The state. -/
def get : Fallible σ ε σ := fun s => (.ok s, s)

/-- Change the state. -/
def modify (f : σ → σ) : Fallible σ ε Unit := fun s => (.ok (), f s)

/-- Run a computation and give its outcome, a failure too. -/
def attempt (m : Fallible σ ε α) : Fallible σ ε (Except ε α) := fun s =>
  match m s with
  | (r, s) => (.ok r, s)

/-- Compute on a part of the state. -/
def zoom (get : τ → σ) (set : τ → σ → τ) (m : Fallible σ ε α) : Fallible τ ε α := fun t =>
  match m (get t) with
  | (r, s) => (r, set t s)

theorem attempt_apply (m : Fallible σ ε α) (s : σ) : attempt m s = (.ok (m s).1, (m s).2) := rfl

theorem zoom_apply (get : τ → σ) (set : τ → σ → τ) (m : Fallible σ ε α) (t : τ) :
    zoom get set m t = ((m (get t)).1, set t (m (get t)).2) := rfl

theorem bind_of_ok {m : Fallible σ ε α} {f : α → Fallible σ ε β} {s s' : σ} {a : α} (h : m s = (.ok a, s')) :
    (m >>= f) s = f a s' := by
  show (match m s with
    | (.ok a, s) => f a s
    | (.error e, s) => (.error e, s)) = f a s'
  rw [h]

theorem bind_of_error {m : Fallible σ ε α} {f : α → Fallible σ ε β} {s s' : σ} {e : ε} (h : m s = (.error e, s')) :
    (m >>= f) s = (.error e, s') := by
  show (match m s with
    | (.ok a, s) => f a s
    | (.error e, s) => (.error e, s)) = (.error e, s')
  rw [h]

theorem modify_bind (g : σ → σ) (f : Unit → Fallible σ ε β) (s : σ) : (modify g >>= f) s = f () (g s) := rfl

theorem get_bind (f : σ → Fallible σ ε β) (s : σ) : (get >>= f) s = f s s := rfl

end Fallible

open Fallible

/-- From the state `s` the computation gives a value and a state with `Q`, or it fails with
an error that `F` admits. -/
def Yields (F : ε → Prop) (m : Fallible σ ε α) (s : σ) (Q : α → σ → Prop) : Prop :=
  (∃ a s', m s = (.ok a, s') ∧ Q a s') ∨ ∃ e s', m s = (.error e, s') ∧ F e

/-- **The state decides**: from the states in `S` the computation gives `a` and goes on in
`f s`, and from all others it fails with `e`. -/
def Decides (S : σ → Prop) (m : Fallible σ ε α) (f : σ → σ) (a : α) (e : ε) : Prop :=
  ∀ s, (S s → m s = (.ok a, f s)) ∧ (¬ S s → ∃ s', m s = (.error e, s'))

section Rules

variable {S T : σ → Prop} {m : Fallible σ ε α} {k : α → Fallible σ ε β} {f g : σ → σ} {a a' : α} {b : β} {e : ε}
  {s s' : σ}

/-- One computation after another. -/
theorem decides_bind (hm : Decides S m f a e) (hk : Decides T (k a) g b e) :
    Decides (fun s => S s ∧ T (f s)) (m >>= k) (fun s => g (f s)) b e := by
  intro s
  by_cases hs : S s
  · rw [bind_of_ok ((hm s).1 hs)]
    exact ⟨fun h => (hk (f s)).1 h.2, fun h => (hk (f s)).2 fun ht => h ⟨hs, ht⟩⟩
  · obtain ⟨s', h⟩ := (hm s).2 hs
    exact ⟨fun h => absurd h.1 hs, fun _ => ⟨s', bind_of_error h⟩⟩

/-- There is only one value it can give. -/
theorem Decides.eq_of_ok (h : Decides S m f a e) (hok : m s = (.ok a', s')) : a' = a := by
  by_cases hs : S s
  · rw [(h s).1 hs] at hok
    exact (Except.ok.inj (congrArg Prod.fst hok)).symm
  · obtain ⟨s'', herr⟩ := (h s).2 hs
    rw [herr] at hok
    cases hok

end Rules

/-- A sequence of two gives a value: so did both of them. -/
theorem Fallible.bind_eq_ok {m : Fallible σ ε α} {f : α → Fallible σ ε β} {s s' : σ} {b : β} :
    (m >>= f) s = (.ok b, s') ↔ ∃ a s₁, m s = (.ok a, s₁) ∧ f a s₁ = (.ok b, s') := by
  constructor
  · intro h
    rcases hm : m s with ⟨r, s₁⟩
    cases r with
    | ok a =>
      rw [bind_of_ok hm] at h
      exact ⟨a, s₁, rfl, h⟩
    | error e =>
      rw [bind_of_error hm] at h
      cases h
  · rintro ⟨a, s₁, hm, hf⟩
    rw [bind_of_ok hm, hf]

/-! ### Whatever happens -/

/-- Whatever the outcome, the states before and after are related. -/
def Always (R : σ → σ → Prop) (m : Fallible σ ε α) : Prop := ∀ s, R s (m s).2

section Always

variable {R : σ → σ → Prop} {m : Fallible σ ε α} {f : α → Fallible σ ε β}

theorem always_bind (htrans : ∀ {s t u}, R s t → R t u → R s u) (hm : Always R m) (hf : ∀ a, Always R (f a)) :
    Always R (m >>= f) := by
  intro s
  have hs := hm s
  rcases hr : m s with ⟨r, s'⟩
  rw [hr] at hs
  cases r with
  | ok a =>
    rw [bind_of_ok hr]
    exact htrans hs (hf a s')
  | error e =>
    rw [bind_of_error hr]
    exact hs

theorem always_pure (hrefl : ∀ s, R s s) (a : α) : Always R (pure a : Fallible σ ε α) := hrefl

theorem always_fail (hrefl : ∀ s, R s s) (e : ε) : Always R (fail e : Fallible σ ε α) := hrefl

theorem always_get (hrefl : ∀ s, R s s) : Always R (get : Fallible σ ε σ) := hrefl

theorem always_modify {g : σ → σ} (h : ∀ s, R s (g s)) : Always R (modify g : Fallible σ ε Unit) := h

theorem Always.of_eq {s s' : σ} {r : Except ε α} (h : Always R m) (e : m s = (r, s')) : R s s' := by
  have hs := h s
  rwa [e] at hs

end Always

end FileSync.Lib
