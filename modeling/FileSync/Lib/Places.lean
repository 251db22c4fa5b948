import Mathlib.Data.List.Nodup
import Mathlib.Logic.Function.Basic

/-!
# Things in places

`Placed owned places` says that the things that are owned are in places, each in exactly
one of them and there once. A place can be given other things (`Placed.set`), and things
can move between two places (`Placed.move`).
-/

namespace FileSync.Lib

variable {α π : Type*} [DecidableEq π] {owned owned' : α → Prop} {places : π → List α} {p q : π} {l l' : List α}

/-- Each thing that is owned is in exactly one place. -/
structure Placed (owned : α → Prop) (places : π → List α) : Prop where
  nodup : ∀ p, (places p).Nodup
  unique : ∀ p q x, x ∈ places p → x ∈ places q → p = q
  mem : ∀ x, owned x ↔ ∃ p, x ∈ places p

omit [DecidableEq π] in
theorem Placed.congr (h : Placed owned places) (ho : ∀ x, owned' x ↔ owned x) : Placed owned' places :=
  ⟨h.nodup, h.unique, fun x => (ho x).trans (h.mem x)⟩

omit [DecidableEq π] in
theorem Placed.owned_of_mem (h : Placed owned places) {x : α} (hx : x ∈ places p) : owned x := (h.mem x).mpr ⟨p, hx⟩

/-- The things of one place change: what is new there was in no place before. -/
theorem Placed.set (h : Placed owned places) (hnd : l.Nodup) (hnew : ∀ x ∈ l, owned x → x ∈ places p)
    (ho : ∀ x, owned' x ↔ x ∈ l ∨ owned x ∧ x ∉ places p) : Placed owned' (Function.update places p l) := by
  refine ⟨fun r => ?_, fun r s x hr hs => ?_, fun x => ?_⟩
  · by_cases hrp : r = p
    · rw [hrp, Function.update_self]
      exact hnd
    · rw [Function.update_of_ne hrp]
      exact h.nodup r
  · by_cases hrp : r = p <;> by_cases hsp : s = p
    · rw [hrp, hsp]
    · rw [hrp, Function.update_self] at hr
      rw [Function.update_of_ne hsp] at hs
      exact hrp.trans (h.unique p s x (hnew x hr (h.owned_of_mem hs)) hs)
    · rw [hsp, Function.update_self] at hs
      rw [Function.update_of_ne hrp] at hr
      exact (h.unique r p x hr (hnew x hs (h.owned_of_mem hr))).trans hsp.symm
    · rw [Function.update_of_ne hrp] at hr
      rw [Function.update_of_ne hsp] at hs
      exact h.unique r s x hr hs
  · rw [ho x]
    constructor
    · rintro (hx | ⟨hx, hxp⟩)
      · exact ⟨p, by rwa [Function.update_self]⟩
      · obtain ⟨r, hr⟩ := (h.mem x).mp hx
        have hrp : r ≠ p := fun e => hxp (e ▸ hr)
        exact ⟨r, by rwa [Function.update_of_ne hrp]⟩
    · rintro ⟨r, hr⟩
      by_cases hrp : r = p
      · rw [hrp, Function.update_self] at hr
        exact .inl hr
      · rw [Function.update_of_ne hrp] at hr
        exact .inr ⟨h.owned_of_mem hr, fun hx => hrp (h.unique r p x hr hx)⟩

/-- Things move between two places. -/
theorem Placed.move (h : Placed owned places) (hpq : p ≠ q) (hperm : (l ++ l').Perm (places p ++ places q)) :
    Placed owned (Function.update (Function.update places p l) q l') := by
  have hmem : ∀ x, x ∈ l ∨ x ∈ l' ↔ x ∈ places p ∨ x ∈ places q := by
    intro x
    rw [← List.mem_append, ← List.mem_append, hperm.mem_iff]
  have hboth : (places p ++ places q).Nodup := by
    refine List.nodup_append.mpr ⟨h.nodup p, h.nodup q, fun x hx y hy e => ?_⟩
    exact hpq (h.unique p q x hx (e ▸ hy))
  obtain ⟨hl, hl', hdisj⟩ := List.nodup_append.mp (hperm.nodup_iff.mpr hboth)
  -- one place is emptied, the other filled, and then the first
  have h₁ : Placed (fun x => owned x ∧ x ∉ places q) (Function.update places q []) :=
    h.set List.nodup_nil (by simp) (by simp)
  have hp : Function.update places q [] p = places p := Function.update_of_ne hpq ..
  have h₂ : Placed (fun x => x ∈ l ∨ (owned x ∧ x ∉ places q) ∧ x ∉ places p)
      (Function.update (Function.update places q []) p l) := by
    refine h₁.set hl (fun x hx ⟨_, hxq⟩ => ?_) fun x => by rw [hp]
    rw [hp]
    exact ((hmem x).mp (.inl hx)).resolve_right hxq
  have hq : Function.update (Function.update places q []) p l q = [] := by
    rw [Function.update_of_ne hpq.symm, Function.update_self]
  have h₃ : Placed owned (Function.update (Function.update (Function.update places q []) p l) q l') := by
    refine h₂.set hl' (fun x hx ho => ?_) fun x => ?_
    · rcases ho with ho | ⟨⟨-, hxq⟩, hxp⟩
      · exact absurd rfl (hdisj x ho x hx)
      · exact absurd ((hmem x).mp (.inr hx)) (not_or.mpr ⟨hxp, hxq⟩)
    · rw [hq]
      have hx := hmem x
      have hxp : x ∈ places p → owned x := h.owned_of_mem
      have hxq : x ∈ places q → owned x := h.owned_of_mem
      simp only [List.not_mem_nil, not_false_eq_true, and_true]
      tauto
  rwa [Function.update_comm hpq, Function.update_idem, Function.update_comm hpq.symm] at h₃

end FileSync.Lib
