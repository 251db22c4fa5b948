import FileSync.Lib.Fallible

/-!
# Pre- and postconditions

`Triple P m Q E` says of a computation that may fail: from a state with `P` it gives a value
and a state with `Q`, or it fails in a state with `E`. There is one rule for each way to make a
computation.
-/

namespace FileSync.Lib

open Fallible

variable {σ τ ε α β : Type} {P P' : σ → Prop} {E E' : σ → Prop}

/-- From a state with `P`, a value and a state with `Q`, or a failure and a state with `E`. -/
def Triple (P : σ → Prop) (m : Fallible σ ε α) (Q : α → σ → Prop) (E : σ → Prop) : Prop :=
  ∀ s, P s → match m s with
    | (.ok a, s') => Q a s'
    | (.error _, s') => E s'

namespace Triple

variable {m : Fallible σ ε α} {f : α → Fallible σ ε β} {Q Q' : α → σ → Prop} {R : β → σ → Prop}

theorem ok (h : Triple P m Q E) {s s' : σ} {a : α} (hs : P s) (e : m s = (.ok a, s')) : Q a s' := by
  have := h s hs
  rwa [e] at this

theorem error (h : Triple P m Q E) {s s' : σ} {e : ε} (hs : P s) (he : m s = (.error e, s')) : E s' := by
  have := h s hs
  rwa [he] at this

theorem pure {a : α} (h : ∀ s, P s → Q a s) : Triple P (Pure.pure a : Fallible σ ε α) Q E := h

theorem fail {e : ε} (h : ∀ s, P s → E s) : Triple P (Fallible.fail e : Fallible σ ε α) Q E := h

theorem modify {g : σ → σ} {Q : Unit → σ → Prop} (h : ∀ s, P s → Q () (g s)) :
    Triple P (Fallible.modify g : Fallible σ ε Unit) Q E := h

theorem bind (hm : Triple P m Q E) (hf : ∀ a, Triple (Q a) (f a) R E) : Triple P (m >>= f) R E := by
  intro s hs
  have hs' := hm s hs
  rcases hr : m s with ⟨r, s'⟩
  rw [hr] at hs'
  cases r with
  | ok a =>
    rw [bind_of_ok hr]
    exact hf a s' hs'
  | error e =>
    rw [bind_of_error hr]
    exact hs'

/-- The state is looked at. -/
theorem get {f : σ → Fallible σ ε β} (h : ∀ s, P s → Triple (· = s) (f s) R E) : Triple P (Fallible.get >>= f) R E := by
  intro s hs
  exact h s hs s rfl

theorem ite {c : Prop} [Decidable c] {m m' : Fallible σ ε α} (hpos : c → Triple P m Q E) (hneg : ¬ c → Triple P m' Q E) :
    Triple P (if c then m else m') Q E := by
  split
  · next h => exact hpos h
  · next h => exact hneg h

/-- The outcome is looked at, a failure too. -/
theorem attempt {f : Except ε α → Fallible σ ε β} (hm : Triple P m Q E) (hok : ∀ a, Triple (Q a) (f (.ok a)) R E')
    (herror : ∀ e, Triple E (f (.error e)) R E') : Triple P (m.attempt >>= f) R E' := by
  intro s hs
  have hs' := hm s hs
  rcases hr : m s with ⟨r, s'⟩
  have ha : m.attempt s = (.ok r, s') := by rw [attempt_apply, hr]
  rw [hr] at hs'
  rw [bind_of_ok ha]
  cases r with
  | ok a => exact hok a s' hs'
  | error e => exact herror e s' hs'

theorem conseq (h : Triple P m Q E) (hpre : ∀ s, P' s → P s) (hpost : ∀ a s, Q a s → Q' a s) (herror : ∀ s, E s → E' s) :
    Triple P' m Q' E' := by
  intro s hs
  have hs' := h s (hpre s hs)
  rcases hr : m s with ⟨r, s'⟩
  rw [hr] at hs'
  cases r with
  | ok a => exact hpost a s' hs'
  | error e => exact herror s' hs'

theorem pre (h : Triple P m Q E) (hpre : ∀ s, P' s → P s) : Triple P' m Q E :=
  h.conseq hpre (fun _ _ => id) fun _ => id

/-- A fact about values only. -/
theorem lift {C : Prop} (h : C → Triple P m Q E) : Triple (fun s => C ∧ P s) m Q E := fun s hs => h hs.1 s hs.2

/-- A computation on a part of the state that nothing depends on. -/
theorem zoom {get : τ → σ} {set : τ → σ → τ} {m : Fallible σ ε α} {I : τ → Prop} (h : ∀ t s, I t → I (set t s)) :
    Triple I (m.zoom get set) (fun _ => I) I := by
  intro t ht
  rw [zoom_apply]
  cases (m (get t)).1 with
  | ok a => exact h t _ ht
  | error e => exact h t _ ht

end Triple

end FileSync.Lib
