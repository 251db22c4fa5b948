import Mathlib.Data.List.Basic
import FileSync.Lib.Word

/-!
# Bytes in memory

A memory of bytes with 64-bit addresses, that are taken modulo 2^64. `load` reads a
run of bytes, `store` writes one; `memcpy` and `memmove` store what they have loaded.
What is loaded after a store is what was stored if the range lies in the stored one
(`load_store`), and what was there before if the two are disjoint
(`load_store_of_disjoint`).

A word takes eight bytes, the least significant one first.
-/

namespace FileSync.Lib

/-- A memory. -/
abbrev Bytes := UInt64 → UInt8

/-- The `n` bytes at `p`. -/
def load (m : Bytes) (p : UInt64) (n : ℕ) : List UInt8 := (List.range n).map fun i => m (p + UInt64.ofNat i)

/-- Write the bytes to `p`. -/
def store (m : Bytes) (p : UInt64) (bs : List UInt8) : Bytes := fun a => bs[(a - p).toNat]?.getD (m a)

/-- `memmove`, and `memcpy` where the ranges do not overlap. -/
def memmove (m : Bytes) (dst src : UInt64) (n : ℕ) : Bytes := store m dst (load m src n)

variable {m : Bytes} {p q : UInt64} {bs : List UInt8} {n : ℕ}

@[simp] theorem length_load (m : Bytes) (p : UInt64) (n : ℕ) : (load m p n).length = n := by simp [load]

@[simp] theorem load_zero (m : Bytes) (p : UInt64) : load m p 0 = [] := rfl

@[simp] theorem store_nil (m : Bytes) (p : UInt64) : store m p [] = m := rfl

/-- What was stored is loaded again, or a part of it. -/
theorem load_store {off : ℕ} (h : off + n ≤ bs.length) (hb : bs.length ≤ 2 ^ 64) :
    load (store m p bs) (p + UInt64.ofNat off) n = (bs.drop off).take n := by
  apply List.ext_getElem
  · simp only [List.length_take, List.length_drop, length_load]
    omega
  · intro i hi hi'
    rw [length_load] at hi
    have hi64 : off + i < 2 ^ 64 := by omega
    have hat : (p + UInt64.ofNat off + UInt64.ofNat i - p).toNat = off + i := by
      rw [UInt64.add_assoc, UInt64.add_comm, UInt64.add_sub_cancel, ← UInt64.ofNat_add]
      exact UInt64.toNat_ofNat_of_lt' hi64
    have hlt : off + i < bs.length := by omega
    simp only [load, store, List.getElem_map, List.getElem_range, hat, List.getElem?_eq_getElem hlt, Option.getD_some,
      List.getElem_take, List.getElem_drop]

theorem load_store_self (hb : bs.length ≤ 2 ^ 64) : load (store m p bs) p bs.length = bs := by
  have h : load (store m p bs) (p + UInt64.ofNat 0) bs.length = (bs.drop 0).take bs.length := load_store (by omega) hb
  simpa using h

/-- A store elsewhere. -/
theorem load_store_of_disjoint (h : p.toNat + bs.length ≤ q.toNat ∨ q.toNat + n ≤ p.toNat)
    (hp : p.toNat + bs.length ≤ 2 ^ 64) (hq : q.toNat + n ≤ 2 ^ 64) : load (store m p bs) q n = load m q n := by
  apply List.map_congr_left
  intro i hi
  rw [List.mem_range] at hi
  have hi64 : i < 2 ^ 64 := by omega
  have hout : bs.length ≤ (q + UInt64.ofNat i - p).toNat := by
    rw [UInt64.toNat_sub, UInt64.toNat_add, UInt64.toNat_ofNat_of_lt' hi64]
    have hlt := p.toNat_lt
    omega
  simp only [store, List.getElem?_eq_none hout, Option.getD_none]

/-- One run of bytes after another. -/
theorem load_add (m : Bytes) (p : UInt64) (k n : ℕ) :
    load m p (k + n) = load m p k ++ load m (p + UInt64.ofNat k) n := by
  simp only [load, List.range_add, List.map_append, List.map_map, List.append_cancel_left_eq]
  apply List.map_congr_left
  intro i _
  simp only [Function.comp_apply, UInt64.ofNat_add, UInt64.add_assoc]

/-- A store behind what has been stored already. -/
theorem load_store_append {k : ℕ} (h : k + bs.length ≤ 2 ^ 64) :
    load (store m (p + UInt64.ofNat k) bs) p (k + bs.length) = load m p k ++ bs := by
  rw [load_add, load_store_self (by omega)]
  congr 1
  apply List.map_congr_left
  intro i hi
  rw [List.mem_range] at hi
  have hi64 : i < 2 ^ 64 := by omega
  have hout : bs.length ≤ (p + UInt64.ofNat i - (p + UInt64.ofNat k)).toNat := by
    rw [UInt64.toNat_sub, UInt64.toNat_add, UInt64.toNat_add, UInt64.toNat_ofNat_of_lt' hi64, UInt64.toNat_ofNat']
    have hlt := p.toNat_lt
    omega
  simp only [store, List.getElem?_eq_none hout, Option.getD_none]

/-- A byte that is stored. -/
theorem store_add {k : ℕ} (h : k < bs.length) (hk : k < 2 ^ 64) : store m p bs (p + UInt64.ofNat k) = bs[k] := by
  rw [store, UInt64.add_comm, UInt64.add_sub_cancel, UInt64.toNat_ofNat_of_lt' hk, List.getElem?_eq_getElem h,
    Option.getD_some]

/-- A byte that a store does not reach. -/
theorem store_of_length_le {a : UInt64} (h : bs.length ≤ (a - p).toNat) : store m p bs a = m a := by
  rw [store, List.getElem?_eq_none h, Option.getD_none]

/-- A byte outside of the range that is stored. -/
theorem store_of_outside {a : UInt64} (hp : p.toNat + bs.length ≤ 2 ^ 64)
    (h : a.toNat < p.toNat ∨ p.toNat + bs.length ≤ a.toNat) : store m p bs a = m a := by
  have hlt := p.toNat_lt
  have hlt' := a.toNat_lt
  apply store_of_length_le
  rw [UInt64.toNat_sub]
  omega

/-! ### Words -/

/-- The `k` low bytes of a number, the least significant one first. -/
def leBytes : ℕ → ℕ → List UInt8
  | 0, _ => []
  | k + 1, n => UInt8.ofNat n :: leBytes k (n / 256)

/-- The number with these bytes. -/
def leNat : List UInt8 → ℕ
  | [] => 0
  | b :: bs => b.toNat + 256 * leNat bs

/-- The word at `p`. -/
def loadWord (m : Bytes) (p : UInt64) : UInt64 := UInt64.ofNat (leNat (load m p 8))

/-- Write a word to `p`. -/
def storeWord (m : Bytes) (p w : UInt64) : Bytes := store m p (leBytes 8 w.toNat)

@[simp] theorem length_leBytes (k n : ℕ) : (leBytes k n).length = k := by
  induction k generalizing n with
  | zero => rfl
  | succ k ih => rw [leBytes, List.length_cons, ih]

theorem leNat_leBytes (k n : ℕ) : leNat (leBytes k n) = n % 256 ^ k := by
  induction k generalizing n with
  | zero => exact (Nat.mod_one n).symm
  | succ k ih =>
    rw [leBytes, leNat, ih, Nat.pow_succ', Nat.mod_mul]
    rfl

theorem loadWord_storeWord_self (m : Bytes) (p w : UInt64) : loadWord (storeWord m p w) p = w := by
  have hload : load (storeWord m p w) p 8 = leBytes 8 w.toNat := by
    have h : load (store m p (leBytes 8 w.toNat)) p (leBytes 8 w.toNat).length = leBytes 8 w.toNat :=
      load_store_self (by simp)
    rwa [length_leBytes] at h
  rw [loadWord, hload, leNat_leBytes, Nat.mod_eq_of_lt (show w.toNat < 256 ^ 8 from w.toNat_lt), UInt64.ofNat_toNat]

/-- A store elsewhere. -/
theorem loadWord_store_of_disjoint (h : p.toNat + bs.length ≤ q.toNat ∨ q.toNat + 8 ≤ p.toNat)
    (hp : p.toNat + bs.length ≤ 2 ^ 64) (hq : q.toNat + 8 ≤ 2 ^ 64) : loadWord (store m p bs) q = loadWord m q := by
  rw [loadWord, load_store_of_disjoint h hp hq, loadWord]

end FileSync.Lib
