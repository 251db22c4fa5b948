import Mathlib.Data.Nat.Basic
import Mathlib.Tactic.Common
import FileSync.Lib.Word

/-!
# Packing

Regions that are placed one after another, each at the next multiple of its
alignment: they do not overlap, they are aligned, and they end where the packing
ends.
-/

namespace FileSync.Lib

/-- The next multiple of `a`. -/
def roundUp (n a : ℕ) : ℕ := (n + a - 1) / a * a

theorem dvd_roundUp (n a : ℕ) : a ∣ roundUp n a := Nat.dvd_mul_left a _

theorem le_roundUp {n a : ℕ} (ha : 0 < a) : n ≤ roundUp n a := by
  have hd := Nat.div_add_mod (n + a - 1) a
  have hm := Nat.mod_lt (n + a - 1) ha
  have hc := Nat.mul_comm a ((n + a - 1) / a)
  unfold roundUp
  omega

theorem roundUp_lt {n a : ℕ} (ha : 0 < a) : roundUp n a < n + a := by
  have hle := Nat.div_mul_le_self (n + a - 1) a
  unfold roundUp
  omega

/-- Rounding down to a multiple of `a` and reducing modulo a multiple of `a`. -/
theorem mod_div_mul_of_dvd {x a m : ℕ} (hm : 0 < m) (h : a ∣ m) : x % m / a * a = x / a * a % m := by
  have h₁ := Nat.div_add_mod (x % m) a
  have h₂ := Nat.div_add_mod x a
  rw [Nat.mod_mod_of_dvd x h] at h₁
  have h₃ := Nat.mul_comm a (x % m / a)
  have h₄ := Nat.mul_comm a (x / a)
  have h₅ := Nat.div_add_mod x m
  have hlt := Nat.mod_lt x hm
  have he : x / a * a = x % m / a * a + m * (x / m) := by omega
  have hdown : x % m / a * a < m := by omega
  rw [he, Nat.add_mul_mod_self_left, Nat.mod_eq_of_lt hdown]

/-- It is the least multiple that is not less. -/
theorem roundUp_le_of_dvd {n a m : ℕ} (ha : 0 < a) (hd : a ∣ m) (hn : n ≤ m) : roundUp n a ≤ m := by
  obtain ⟨c, rfl⟩ := hd
  have hle : (n + a - 1) / a ≤ c := by
    refine Nat.le_of_lt_succ ((Nat.div_lt_iff_lt_mul ha).mpr ?_)
    rw [Nat.succ_mul, Nat.mul_comm c a]
    omega
  rw [roundUp, Nat.mul_comm]
  exact Nat.mul_le_mul_left a hle

/-- It is the number itself only if that is a multiple. -/
theorem roundUp_le_self_iff {n a : ℕ} (ha : 0 < a) : roundUp n a ≤ n ↔ a ∣ n := by
  constructor
  · intro h
    rw [Nat.le_antisymm (le_roundUp ha) h]
    exact dvd_roundUp n a
  · intro h
    exact roundUp_le_of_dvd ha h le_rfl

/-- Of two powers of two the smaller divides the greater. -/
theorem roundUp_two_pow (j k : ℕ) : roundUp (2 ^ j) (2 ^ k) = 2 ^ max j k := by
  have hpos : 0 < 2 ^ k := Nat.two_pow_pos k
  apply Nat.le_antisymm
  · refine roundUp_le_of_dvd hpos (Nat.pow_dvd_pow 2 (Nat.le_max_right j k)) ?_
    exact Nat.pow_le_pow_right Nat.two_pos (Nat.le_max_left j k)
  · rcases Nat.le_total j k with h | h
    · rw [Nat.max_eq_right h]
      refine Nat.le_of_dvd ?_ (dvd_roundUp _ _)
      exact Nat.lt_of_lt_of_le (Nat.two_pow_pos j) (le_roundUp hpos)
    · rw [Nat.max_eq_left h]
      exact le_roundUp hpos

/-- Rounding up to a power of two, in words. -/
theorem toNat_roundUp {w a : UInt64} {n k : ℕ} (hw : w.toNat = n % 2 ^ 64) (ha : a.toNat = 2 ^ k) :
    ((w + a - 1) &&& ~~~(a - 1)).toNat = roundUp n a.toNat % 2 ^ 64 := by
  have hlt := a.toNat_lt
  have hpos : 0 < a.toNat := ha ▸ Nat.two_pow_pos k
  have hsum : (w + a - 1).toNat = (n + a.toNat - 1) % 2 ^ 64 := by
    have h1 : (1 : UInt64).toNat = 1 := rfl
    rw [UInt64.toNat_sub, UInt64.toNat_add, hw, h1]
    omega
  rw [toNat_and_not_pred ha, hsum]
  exact mod_div_mul_of_dvd (Nat.two_pow_pos 64) (toNat_dvd_size ha)

/-- What is to be placed. -/
structure Extent where
  /-- The number of bytes. -/
  size : ℕ
  /-- It starts at a multiple of this. -/
  align : ℕ
  deriving DecidableEq, Repr

/-- Where something has been placed. -/
structure Region extends Extent where
  /-- The address of its first byte. -/
  start : ℕ
  deriving DecidableEq, Repr

/-- The address after its last byte. -/
def Region.stop (r : Region) : ℕ := r.start + r.size

/-- The region `b` bytes further on. -/
def Region.shift (b : ℕ) (r : Region) : Region := { r with start := b + r.start }

/-- Two regions have no byte in common. -/
def Region.Apart (r s : Region) : Prop := r.stop ≤ s.start ∨ s.stop ≤ r.start

/-- The extents placed one after another from `n` on. -/
def place : ℕ → List Extent → List Region
  | _, [] => []
  | n, x :: xs => { x with start := roundUp n x.align } :: place (roundUp n x.align + x.size) xs

/-- Where the packing from `n` on ends. -/
def packEnd : ℕ → List Extent → ℕ
  | n, [] => n
  | n, x :: xs => packEnd (roundUp n x.align + x.size) xs

@[simp] theorem place_nil (n : ℕ) : place n [] = [] := rfl

@[simp] theorem place_cons (n : ℕ) (x : Extent) (xs : List Extent) :
    place n (x :: xs) = { x with start := roundUp n x.align } :: place (roundUp n x.align + x.size) xs := rfl

@[simp] theorem packEnd_nil (n : ℕ) : packEnd n [] = n := rfl

@[simp] theorem packEnd_cons (n : ℕ) (x : Extent) (xs : List Extent) :
    packEnd n (x :: xs) = packEnd (roundUp n x.align + x.size) xs := rfl

theorem packEnd_append (n : ℕ) (xs ys : List Extent) : packEnd n (xs ++ ys) = packEnd (packEnd n xs) ys := by
  induction xs generalizing n with
  | nil => rfl
  | cons x xs ih => exact ih _

theorem place_append (n : ℕ) (xs ys : List Extent) :
    place n (xs ++ ys) = place n xs ++ place (packEnd n xs) ys := by
  induction xs generalizing n with
  | nil => rfl
  | cons x xs ih => rw [List.cons_append, place_cons, place_cons, ih, packEnd_cons, List.cons_append]

section Placed

variable {n : ℕ} {xs : List Extent}

/-- A packing does not end before it starts. -/
theorem le_packEnd (h : ∀ x ∈ xs, 0 < x.align) : n ≤ packEnd n xs := by
  induction xs generalizing n with
  | nil => exact le_rfl
  | cons x xs ih =>
    have hx := le_roundUp (n := n) (h x (List.mem_cons_self ..))
    have hxs := ih (n := roundUp n x.align + x.size) fun y hy => h y (List.mem_cons_of_mem _ hy)
    rw [packEnd_cons]
    omega

/-- The regions of a packing lie in it. -/
theorem place_within (h : ∀ x ∈ xs, 0 < x.align) :
    ∀ r ∈ place n xs, n ≤ r.start ∧ r.stop ≤ packEnd n xs := by
  induction xs generalizing n with
  | nil => simp
  | cons x xs ih =>
    have hx := le_roundUp (n := n) (h x (List.mem_cons_self ..))
    have hxs : ∀ y ∈ xs, 0 < y.align := fun y hy => h y (List.mem_cons_of_mem _ hy)
    intro r hr
    rcases List.mem_cons.mp hr with rfl | hr
    · exact ⟨hx, le_packEnd hxs⟩
    · obtain ⟨h₁, h₂⟩ := ih hxs r hr
      exact ⟨by omega, h₂⟩

/-- **The regions of a packing do not overlap**: each ends before the next ones start. -/
theorem place_pairwise (h : ∀ x ∈ xs, 0 < x.align) :
    (place n xs).Pairwise fun r s => r.stop ≤ s.start := by
  induction xs generalizing n with
  | nil => exact List.Pairwise.nil
  | cons x xs ih =>
    have hxs : ∀ y ∈ xs, 0 < y.align := fun y hy => h y (List.mem_cons_of_mem _ hy)
    rw [place_cons, List.pairwise_cons]
    exact ⟨fun r hr => (place_within hxs r hr).1, ih hxs⟩

/-- The regions of a packing are aligned. -/
theorem place_aligned : ∀ r ∈ place n xs, r.align ∣ r.start := by
  induction xs generalizing n with
  | nil => simp
  | cons x xs ih =>
    intro r hr
    rcases List.mem_cons.mp hr with rfl | hr
    · exact dvd_roundUp _ _
    · exact ih r hr

/-- The regions of a packing are those that were to be placed. -/
theorem place_extents : (place n xs).map Region.toExtent = xs := by
  induction xs generalizing n with
  | nil => rfl
  | cons x xs ih => rw [place_cons, List.map_cons, ih]

/-- The regions of a packing at an aligned address are apart, aligned and in a block of the
size of the packing. -/
theorem shift_place {b : ℕ} (h : ∀ x ∈ xs, 0 < x.align) (hb : ∀ x ∈ xs, x.align ∣ b) :
    ((place n xs).map (Region.shift b)).Pairwise Region.Apart ∧
      ∀ r ∈ (place n xs).map (Region.shift b), r.align ∣ r.start ∧ b + n ≤ r.start ∧ r.stop ≤ b + packEnd n xs := by
  constructor
  · rw [List.pairwise_map]
    refine (place_pairwise h).imp fun {r s} hrs => .inl ?_
    simp only [Region.stop, Region.shift] at hrs ⊢
    omega
  · intro r hr
    obtain ⟨s, hs, rfl⟩ := List.mem_map.mp hr
    obtain ⟨h₁, h₂⟩ := place_within h s hs
    have hmem := List.mem_map_of_mem (f := Region.toExtent) hs
    rw [place_extents] at hmem
    refine ⟨Nat.dvd_add (hb _ hmem) (place_aligned s hs), ?_, ?_⟩
    · simp only [Region.shift]
      omega
    · simp only [Region.stop, Region.shift] at h₂ ⊢
      omega

end Placed

end FileSync.Lib
