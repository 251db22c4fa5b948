import Mathlib.Data.UInt
import Mathlib.Tactic.Common

/-!
# Words with fields

A machine word that keeps a second field in the bits of a mask: a pointer whose
low bits are free carries a tag there. Reading one field back after writing
either of them is what the lemmas say, for any mask; and when it can be added in place
of being put there (`add_and_not_mask_iff`). And powers of two, which are the words
with one bit.
-/

namespace FileSync.Lib

/-- A word is its bits. -/
theorem word_ext {x y : UInt64} (h : ∀ i, i < 64 → x.toBitVec.getLsbD i = y.toBitVec.getLsbD i) :
    x = y :=
  UInt64.eq_of_toBitVec_eq (BitVec.eq_of_getLsbD_eq h)

/-- A word with nothing under the mask has no bit in common with it. -/
theorem bit_of_and_eq_zero {p m : UInt64} (h : p &&& m = 0) (i : ℕ) :
    (p.toBitVec.getLsbD i && m.toBitVec.getLsbD i) = false := by
  have := congrArg (fun w : UInt64 => w.toBitVec.getLsbD i) h
  simpa using this

variable {p w b m : UInt64}

/-- A word with nothing under the mask, and a field put there: the word. -/
theorem or_and_not_mask (h : p &&& m = 0) (hb : b &&& m = b) : (p ||| b) &&& ~~~m = p := by
  refine word_ext fun i hi => ?_
  have hp := bit_of_and_eq_zero h i
  rw [← hb]
  simp only [UInt64.toBitVec_and, UInt64.toBitVec_or, UInt64.toBitVec_not, BitVec.getLsbD_and,
    BitVec.getLsbD_or, BitVec.getLsbD_not, hi]
  grind

/-- A word with nothing under the mask, and a field put there: the field. -/
theorem or_and_mask (h : p &&& m = 0) (hb : b &&& m = b) : (p ||| b) &&& m = b := by
  refine word_ext fun i _ => ?_
  have hp := bit_of_and_eq_zero h i
  rw [← hb]
  simp only [UInt64.toBitVec_and, UInt64.toBitVec_or, BitVec.getLsbD_and, BitVec.getLsbD_or]
  grind

/-- What is left of a word outside the mask has nothing under it. -/
theorem and_not_and_mask (w m : UInt64) : w &&& ~~~m &&& m = 0 := by
  refine word_ext fun i hi => ?_
  simp only [UInt64.toBitVec_and, UInt64.toBitVec_not, BitVec.getLsbD_and, BitVec.getLsbD_not, hi,
    UInt64.toBitVec_zero, BitVec.getLsbD_zero]
  grind

/-- A field taken from under the mask is a field. -/
theorem and_mask_and_mask (w m : UInt64) : w &&& m &&& m = w &&& m := by
  rw [UInt64.and_assoc, UInt64.and_self]

/-- A word is what it has outside a mask and what it has under it. -/
theorem and_not_add_and (w m : UInt64) : (w &&& ~~~m) + (w &&& m) = w := by
  have hdisjoint : (w &&& ~~~m).toBitVec &&& (w &&& m).toBitVec = 0 := by
    refine BitVec.eq_of_getLsbD_eq fun i hi => ?_
    simp only [UInt64.toBitVec_and, UInt64.toBitVec_not, BitVec.getLsbD_and, BitVec.getLsbD_not, BitVec.ofNat_eq_ofNat,
      BitVec.getLsbD_zero, hi]
    grind
  refine UInt64.eq_of_toBitVec_eq ?_
  rw [UInt64.toBitVec_add, BitVec.add_eq_or_of_and_eq_zero _ _ hdisjoint]
  refine BitVec.eq_of_getLsbD_eq fun i hi => ?_
  simp only [UInt64.toBitVec_and, UInt64.toBitVec_not, BitVec.getLsbD_and, BitVec.getLsbD_or, BitVec.getLsbD_not, hi]
  grind

/-- **What is added to a word with nothing under the mask** is cleared by it if, and only if, it is
under the mask. -/
theorem add_and_not_mask_iff (h : p &&& m = 0) : (p + w) &&& ~~~m = p ↔ w &&& m = w := by
  constructor
  · intro hclear
    have hsplit := and_not_add_and (p + w) m
    rw [hclear] at hsplit
    have hw : (p + w) &&& m = w := UInt64.add_right_inj p |>.mp hsplit
    rw [← hw]
    exact and_mask_and_mask ..
  · intro hw
    have hor : p + w = p ||| w := by
      have hdisjoint : p.toBitVec &&& w.toBitVec = 0 := by
        refine BitVec.eq_of_getLsbD_eq fun i _ => ?_
        have hbit := bit_of_and_eq_zero h i
        rw [← hw, UInt64.toBitVec_and, BitVec.getLsbD_and, BitVec.getLsbD_and, BitVec.ofNat_eq_ofNat,
          BitVec.getLsbD_zero]
        grind
      refine UInt64.eq_of_toBitVec_eq ?_
      rw [UInt64.toBitVec_add, UInt64.toBitVec_or, BitVec.add_eq_or_of_and_eq_zero _ _ hdisjoint]
    rw [hor]
    exact or_and_not_mask h hw

/-! ### Powers of two -/

theorem toNat_pred {a : UInt64} (h : a ≠ 0) : (a - 1).toNat = a.toNat - 1 := by
  have hpos : a.toNat ≠ 0 := fun e => h (UInt64.toNat_inj.mp e)
  have hlt := a.toNat_lt
  have h1 : (1 : UInt64).toNat = 1 := rfl
  rw [UInt64.toNat_sub]
  omega

theorem exponent_lt {a : UInt64} {k : ℕ} (ha : a.toNat = 2 ^ k) : k < 64 := by
  have hlt := a.toNat_lt
  rw [ha] at hlt
  exact (Nat.pow_lt_pow_iff_right Nat.one_lt_two).mp hlt

/-- They divide the number of words. -/
theorem toNat_dvd_size {a : UInt64} {k : ℕ} (ha : a.toNat = 2 ^ k) : a.toNat ∣ 2 ^ 64 := by
  rw [ha]
  exact Nat.pow_dvd_pow 2 (exponent_lt ha).le

/-- The words that are a power of two. -/
theorem isPowerOfTwo_toNat {a : UInt64} : a.toNat.isPowerOfTwo ↔ a ≠ 0 ∧ a &&& (a - 1) = 0 := by
  rw [← Nat.ne_zero_and_sub_one_eq_zero_iff_isPowerOfTwo]
  refine and_congr ?_ ?_
  · rw [Ne, Ne, ← UInt64.toNat_inj]
    rfl
  · rw [← UInt64.toNat_inj, UInt64.toNat_and]
    by_cases h0 : a = 0
    · rw [h0]
      decide
    · rw [toNat_pred h0]
      rfl

/-- A word with one bit is a power of two. -/
theorem exists_two_pow_of_and_pred {a : UInt64} (h0 : a ≠ 0) (h : (a - 1) &&& a = 0) :
    ∃ k < 64, a.toNat = 2 ^ k := by
  obtain ⟨k, hk⟩ := isPowerOfTwo_toNat.mpr ⟨h0, UInt64.and_comm a _ ▸ h⟩
  exact ⟨k, exponent_lt hk, hk⟩

/-- The greater of two words. -/
theorem toNat_ite_gt (x y : UInt64) : (if x > y then x else y).toNat = max x.toNat y.toNat := by
  split
  · next h => exact (Nat.max_eq_left (Nat.le_of_lt h)).symm
  · next h => exact (Nat.max_eq_right (Nat.not_lt.mp h)).symm

/-- Clearing the bits below a power of two rounds down to a multiple of it. -/
theorem toNat_and_not_pred {w a : UInt64} {k : ℕ} (ha : a.toNat = 2 ^ k) :
    (w &&& ~~~(a - 1)).toNat = w.toNat / a.toNat * a.toNat := by
  have h0 : a ≠ 0 := by
    rintro rfl
    exact absurd ha.symm (Nat.two_pow_pos k).ne'
  have hmask : (a - 1).toBitVec.toNat = 2 ^ k - 1 := by
    rw [← ha]
    exact toNat_pred h0
  rw [ha]
  refine Nat.eq_of_testBit_eq fun i => ?_
  rw [Nat.testBit_mul_two_pow, Nat.testBit_div_two_pow]
  show (w &&& ~~~(a - 1)).toBitVec.toNat.testBit i = (decide (k ≤ i) && w.toBitVec.toNat.testBit (i - k + k))
  rw [BitVec.testBit_toNat, BitVec.testBit_toNat, UInt64.toBitVec_and, UInt64.toBitVec_not, BitVec.getLsbD_and,
    BitVec.getLsbD_not, ← BitVec.testBit_toNat (a - 1).toBitVec, hmask, Nat.testBit_two_pow_sub_one]
  by_cases hik : k ≤ i
  · rw [Nat.sub_add_cancel hik, decide_eq_true hik, decide_eq_false (Nat.not_lt.mpr hik)]
    by_cases hi : i < 64
    · simp [hi]
    · simp [hi, BitVec.getLsbD_of_ge w.toBitVec i (Nat.not_lt.mp hi)]
  · simp [hik, Nat.lt_of_not_le hik]

/-- Counting up sets one bit. -/
theorem exists_bit_set_by_succ (n : ℕ) : ∃ k, ∀ i, ((n + 1).testBit i && !n.testBit i) = decide (i = k) := by
  induction n using Nat.strongRecOn with
  | ind n ih =>
    rcases Nat.mod_two_eq_zero_or_one n with hn | hn
    · -- the last bit is set, and nothing is carried
      refine ⟨0, fun i => ?_⟩
      cases i with
      | zero =>
        rw [Nat.testBit_zero, Nat.testBit_zero]
        simp [hn, show (n + 1) % 2 = 1 by omega]
      | succ i =>
        rw [Nat.testBit_succ, Nat.testBit_succ, show (n + 1) / 2 = n / 2 by omega, Bool.and_not_self]
        simp
    · obtain ⟨k, hk⟩ := ih (n / 2) (by omega)
      refine ⟨k + 1, fun i => ?_⟩
      cases i with
      | zero =>
        rw [Nat.testBit_zero, Nat.testBit_zero]
        simp [hn]
      | succ i =>
        rw [Nat.testBit_succ, Nat.testBit_succ, show (n + 1) / 2 = n / 2 + 1 by omega, hk]
        simp

/-- Adding a power of two sets one bit, if that is not carried out of the word. -/
theorem add_and_not_self {a b : UInt64} {j : ℕ} (ha : a.toNat = 2 ^ j) :
    (a + b) &&& ~~~b = 0 ∨ ((a + b) &&& ~~~b).toNat.isPowerOfTwo := by
  obtain ⟨k, hk⟩ := exists_bit_set_by_succ (b.toNat / 2 ^ j)
  have hbit : ∀ i, ((a + b) &&& ~~~b).toNat.testBit i = (decide (i < 64) && decide (i = k + j)) := by
    intro i
    show ((a + b) &&& ~~~b).toBitVec.toNat.testBit i = _
    rw [BitVec.testBit_toNat, UInt64.toBitVec_and, UInt64.toBitVec_not, BitVec.getLsbD_and, BitVec.getLsbD_not,
      ← BitVec.testBit_toNat, ← BitVec.testBit_toNat]
    show ((a + b).toNat.testBit i && (decide (i < 64) && !b.toNat.testBit i)) = _
    rw [UInt64.toNat_add, ha, Nat.testBit_mod_two_pow]
    by_cases hij : i < j
    · rw [Nat.testBit_two_pow_add_gt hij, decide_eq_false (show ¬ i = k + j by omega)]
      cases b.toNat.testBit i <;> simp
    · have hsum : (2 ^ j + b.toNat) / 2 ^ j = b.toNat / 2 ^ j + 1 := by
        rw [Nat.add_div_left _ (Nat.two_pow_pos j)]
      have hi := hk (i - j)
      rw [← hsum, Nat.testBit_div_two_pow, Nat.testBit_div_two_pow, Nat.sub_add_cancel (Nat.not_lt.mp hij)] at hi
      rw [show decide (i = k + j) = decide (i - j = k) from decide_eq_decide.mpr (by omega), ← hi]
      cases decide (i < 64) <;> simp
  by_cases hkj : k + j < 64
  · refine .inr ⟨k + j, Nat.eq_of_testBit_eq fun i => ?_⟩
    rw [hbit, Nat.testBit_two_pow]
    by_cases hi : i = k + j
    · simp [hi, hkj]
    · simp [hi, Ne.symm hi]
  · refine .inl (UInt64.toNat_inj.mp (Nat.eq_of_testBit_eq fun i => ?_))
    rw [hbit, show (0 : UInt64).toNat = 0 from rfl, Nat.zero_testBit]
    by_cases hi : i = k + j
    · simp [hi, hkj]
    · simp [hi]

/-- A word that has no bit outside another is not greater. -/
theorem toNat_le_of_and_not {a b : UInt64} (h : a &&& ~~~b = 0) : a.toNat ≤ b.toNat := by
  have hsplit := and_not_add_and a b
  rw [h, UInt64.zero_add] at hsplit
  rw [← hsplit, UInt64.toNat_and]
  exact Nat.and_le_right

end FileSync.Lib
