import Mathlib.Data.Nat.Log
import FileSync.Lib.Packing
import FileSync.SlabAllocator.Code

/-!
# What configurations are accepted

`sa_config_init` in exact arithmetic: how many bytes a configuration asks for
(`bytesNeeded`) and the least slab that has them (`leastSlab`). The code computes the
bytes modulo 2^64, and its loop finds that slab as long as it is not larger than 2^63
bytes.

The slab is then compared with the bytes the wrong way round. Whatever the configuration,
`sa_config_init` does not return without an error: a slab that is large enough is
rejected, and one that is too small is stopped by an assertion that is the wrong way
round too.
-/

namespace FileSync.SlabAllocator

open FileSync.Lib

variable {c : AllocatorConfig} {k : Capacities} {α : Type}

/-! ### Running the program -/

theorem voidFailIf_bind {p : Bool} (h : p = false) (e : JfsErr) (f : Unit → Code α) : (voidFailIf p e >>= f) = f () := by
  rw [h]
  rfl

theorem voidFailIf_fail {p : Bool} (h : p = true) (e : JfsErr) (f : Unit → Code α) :
    (voidFailIf p e >>= f) = .error (.err e) := by
  rw [h]
  rfl

theorem voidFailIf_eq_ok {p : Bool} {e : JfsErr} : voidFailIf p e = .ok () ↔ p = false := by
  cases p <;> simp [voidFailIf]

theorem voidFailIf_bind_eq_ok {p : Bool} {e : JfsErr} {f : Unit → Code α} {a : α} :
    (voidFailIf p e >>= f) = .ok a ↔ p = false ∧ f () = .ok a := by
  cases p with
  | true => simp [voidFailIf_fail rfl]
  | false => simp [voidFailIf_bind rfl]

/-- A check leaves it at: a result, or the error. -/
theorem voidFailIf_cases {p : Bool} {e : JfsErr} {f : Unit → Code α} {a : α}
    (h : f () = .ok a ∨ f () = .error (.err e)) :
    (voidFailIf p e >>= f) = .ok a ∨ (voidFailIf p e >>= f) = .error (.err e) := by
  cases p with
  | true => exact .inr rfl
  | false => exact h

theorem assert_bind {p : Bool} (h : p = true) (f : Unit → Code α) : (assert p >>= f) = f () := by
  rw [h]
  rfl

theorem assert_fail {p : Bool} (h : p = false) (f : Unit → Code α) : (assert p >>= f) = .error .assertion := by
  rw [h]
  rfl

theorem modulo_bind {x y : UInt64} (h : y ≠ 0) (f : UInt64 → Code α) : (modulo x y >>= f) = f (x % y) := by
  rw [modulo, if_neg h]
  rfl

theorem bind_of_ok {β : Type} {x : Code β} {b : β} (h : x = .ok b) (f : β → Code α) : (x >>= f) = f b := by
  rw [h]
  rfl

theorem bind_of_error {β : Type} {x : Code β} {s : Stop} (h : x = .error s) (f : β → Code α) : (x >>= f) = .error s := by
  rw [h]
  rfl

/-! ### Exact arithmetic -/

/-- The size of an object with its padding. -/
def paddedBytes (c : AllocatorConfig) : ℕ := roundUp (max c.objSize.toNat minObjSize.toNat) c.objAlign.toNat

/-- The size of the header of a slab with its padding. -/
def headerBytes (c : AllocatorConfig) : ℕ := roundUp sizeofSlab.toNat c.objAlign.toNat

/-- The size of a batch. -/
def batchBytes (c : AllocatorConfig) : ℕ := (orDefault c.batchCapacity 64).toNat * paddedBytes c

/-- The number of batches that a slab must have. -/
def batchesNeeded (c : AllocatorConfig) : ℕ :=
  (orDefault c.slabAcquireCount 8).toNat * (orDefault c.cacheAcquireAmount 1).toNat

/-- The number of bytes that a slab must have. -/
def bytesNeeded (c : AllocatorConfig) : ℕ := batchesNeeded c * batchBytes c + headerBytes c

/-- The least power of two of at least a page that is not less. -/
def leastSlab (c : AllocatorConfig) : ℕ := 2 ^ max 12 (Nat.clog 2 (bytesNeeded c))

theorem toNat_alignUp {w a : UInt64} (ha : a.toNat.isPowerOfTwo) :
    (alignUp w a).toNat = roundUp w.toNat a.toNat % 2 ^ 64 := by
  obtain ⟨k, hk⟩ := ha
  exact toNat_roundUp (Nat.mod_eq_of_lt w.toNat_lt).symm hk

theorem toNat_objPaddedSize (ha : c.objAlign.toNat.isPowerOfTwo) :
    (objPaddedSize c).toNat = paddedBytes c % 2 ^ 64 := by
  rw [objPaddedSize, toNat_alignUp ha, toNat_ite_gt]
  rfl

/-- The header is not larger than the alignment, or than 16. -/
theorem toNat_slabOffset (ha : c.objAlign.toNat.isPowerOfTwo) : (slabOffset c).toNat = headerBytes c := by
  have hval := toNat_alignUp (w := sizeofSlab) ha
  obtain ⟨k, hk⟩ := ha
  have hk64 : k < 64 := exponent_lt hk
  rw [slabOffset, hval, headerBytes, hk]
  refine Nat.mod_eq_of_lt ?_
  rw [show sizeofSlab.toNat = 2 ^ 4 from rfl, roundUp_two_pow]
  exact Nat.pow_lt_pow_right Nat.one_lt_two (by omega)

/-- **The bytes are right modulo 2^64**, whatever wraps on the way. -/
theorem toNat_slabSizeNeeded (ha : c.objAlign.toNat.isPowerOfTwo) :
    (slabSizeNeeded c).toNat = bytesNeeded c % 2 ^ 64 := by
  have hpadded : objPaddedSize c = UInt64.ofNat (paddedBytes c) := by
    rw [← UInt64.toNat_inj, UInt64.toNat_ofNat', toNat_objPaddedSize ha]
  have hoffset : slabOffset c = UInt64.ofNat (headerBytes c) := by
    rw [← toNat_slabOffset ha, UInt64.ofNat_toNat]
  have hfield : ∀ x : UInt32, x.toUInt64 = UInt64.ofNat x.toNat := fun x => by
    rw [← UInt32.toNat_toUInt64, UInt64.ofNat_toNat]
  have heq : slabSizeNeeded c = UInt64.ofNat (bytesNeeded c) := by
    rw [slabSizeNeeded, hpadded, hoffset, acquirePerSlab, hfield, hfield, hfield, ← UInt64.ofNat_mul,
      ← UInt64.ofNat_mul, ← UInt64.ofNat_mul, ← UInt64.ofNat_add, bytesNeeded, batchesNeeded, batchBytes,
      ← Nat.mul_assoc _ _ (paddedBytes c)]
    rfl
  rw [heq, UInt64.toNat_ofNat']

/-! ### The loop -/

/-- **The loop** finds the least power of two that is not less. -/
theorem pagesPerSlab_eq {minPages : UInt64} (h : minPages.toNat ≤ 2 ^ 63) :
    ∃ pages, pagesPerSlab minPages = .ok pages ∧ pages.toNat = 2 ^ Nat.clog 2 minPages.toNat := by
  have hclog : Nat.clog 2 minPages.toNat ≤ 63 := Nat.clog_le_of_le_pow h
  -- the pages are a power of two, and there are as many turns to come as exponents to the least one
  let I (n : ℕ) (pages : UInt64) : Prop := ∃ j, pages.toNat = 2 ^ j ∧ j + n = Nat.clog 2 minPages.toNat
  have hturn : ∀ n pages, I n pages →
      TurnOk I (fun r => r.toNat = 2 ^ Nat.clog 2 minPages.toNat) n (doublePages minPages pages) := by
    rintro n pages ⟨j, hj, hn⟩
    rw [doublePages]
    split
    · next hlt =>
      rw [UInt64.lt_iff_toNat_lt, hj, ← Nat.lt_clog_iff_pow_lt Nat.one_lt_two] at hlt
      refine ⟨n - 1, by omega, j + 1, ?_, by omega⟩
      have hpow : 2 ^ j * 2 < 2 ^ 64 := by
        rw [← Nat.pow_succ]
        exact Nat.pow_lt_pow_right Nat.one_lt_two (by omega)
      rw [UInt64.toNat_mul, hj, show (2 : UInt64).toNat = 2 from rfl, Nat.mod_eq_of_lt hpow, Nat.pow_succ]
    · next hge =>
      rw [UInt64.not_lt, UInt64.le_iff_toNat_le, hj, ← Nat.clog_le_iff_le_pow Nat.one_lt_two] at hge
      rw [TurnOk, hj, show j = Nat.clog 2 minPages.toNat by omega]
  obtain ⟨pages, e, hpages⟩ := loop_of_bound hturn (k := Nat.clog 2 minPages.toNat) (n := 65) (s := 1)
    ⟨0, rfl, Nat.zero_add _⟩ (by omega)
  refine ⟨pages, ?_, hpages⟩
  rw [pagesPerSlab, e]

/-- The number of pages, doubled until they suffice. -/
theorem slabSize_eq (c : AllocatorConfig) :
    ∃ size, slabSize c = .ok size ∧
      size.toNat = 2 ^ Nat.clog 2 (((slabSizeNeeded c).toNat + 4095) % 2 ^ 64 / 4096) * 4096 % 2 ^ 64 := by
  have hpage : pageSize.toNat = 4096 := rfl
  have hmin : (minPagesNeeded c).toNat = ((slabSizeNeeded c).toNat + 4095) % 2 ^ 64 / 4096 := by
    rw [minPagesNeeded, UInt64.toNat_div, UInt64.toNat_sub, UInt64.toNat_add, hpage, show (1 : UInt64).toNat = 1 from rfl]
    omega
  obtain ⟨pages, e, hpages⟩ := @pagesPerSlab_eq (minPagesNeeded c) (by omega)
  have hfew : ¬ minPagesNeeded c > ulongMax / 2 := by
    rw [gt_iff_lt, UInt64.lt_iff_toNat_lt, hmin, show (ulongMax / 2).toNat = 2 ^ 63 - 1 from rfl]
    omega
  refine ⟨pages * pageSize, ?_, ?_⟩
  · rw [slabSize, voidFailIf_bind (decide_eq_false hfew), bind_of_ok e]
    rfl
  · rw [UInt64.toNat_mul, hpages, hmin, hpage]

/-- The least power of two for a number of pages, and for a number of bytes. -/
theorem clog_pages (n : ℕ) : Nat.clog 2 ((n + 4095) / 4096) + 12 = max 12 (Nat.clog 2 n) := by
  have hiff : ∀ j, Nat.clog 2 ((n + 4095) / 4096) ≤ j ↔ Nat.clog 2 n ≤ j + 12 := by
    intro j
    rw [Nat.clog_le_iff_le_pow Nat.one_lt_two, Nat.clog_le_iff_le_pow Nat.one_lt_two, Nat.pow_add]
    omega
  have h₁ := (hiff _).mp le_rfl
  have h₂ := (hiff (Nat.clog 2 n - 12)).mpr (by omega)
  omega

/-- If 2^63 bytes suffice, the slab is the least one. -/
theorem slabSize_of_le (h : (slabSizeNeeded c).toNat ≤ 2 ^ 63) :
    ∃ size, slabSize c = .ok size ∧ size.toNat = 2 ^ max 12 (Nat.clog 2 (slabSizeNeeded c).toNat) := by
  obtain ⟨size, e, hsize⟩ := slabSize_eq c
  have hclog : Nat.clog 2 (slabSizeNeeded c).toNat ≤ 63 := Nat.clog_le_of_le_pow h
  have hnowrap : ((slabSizeNeeded c).toNat + 4095) % 2 ^ 64 = (slabSizeNeeded c).toNat + 4095 :=
    Nat.mod_eq_of_lt (by omega)
  have hbytes : ∀ j, 2 ^ j * 4096 = 2 ^ (j + 12) := fun j => (Nat.pow_add 2 j 12).symm
  refine ⟨size, e, ?_⟩
  rw [hsize, hnowrap, hbytes, clog_pages]
  exact Nat.mod_eq_of_lt (Nat.pow_lt_pow_right Nat.one_lt_two (by omega))

/-- If they do not, the size of the slab has become 0, or the number of pages has. -/
theorem slabSize_of_gt (h : 2 ^ 63 < (slabSizeNeeded c).toNat) :
    ∃ size, slabSize c = .ok size ∧ (size = 0 ∨ size = pageSize) := by
  obtain ⟨size, e, hsize⟩ := slabSize_eq c
  have hlt := (slabSizeNeeded c).toNat_lt
  refine ⟨size, e, ?_⟩
  rw [← UInt64.toNat_inj, ← UInt64.toNat_inj, hsize]
  by_cases hwrap : (slabSizeNeeded c).toNat + 4095 < 2 ^ 64
  · left
    have hclog : Nat.clog 2 (((slabSizeNeeded c).toNat + 4095) / 4096) = 52 := by
      refine Nat.le_antisymm ?_ ?_
      · rw [Nat.clog_le_iff_le_pow Nat.one_lt_two]
        omega
      · rw [Nat.succ_le_iff, Nat.lt_clog_iff_pow_lt Nat.one_lt_two]
        omega
    rw [Nat.mod_eq_of_lt hwrap, hclog]
    rfl
  · right
    rw [show ((slabSizeNeeded c).toNat + 4095) % 2 ^ 64 / 4096 = 0 by omega]
    decide

/-! ### Capacities -/

/-- What the capacity checks let through. -/
def LetThrough (c : AllocatorConfig) : Prop := checkCapacities (saCapacities c) = .ok ()

theorem checkCapacities_eq_ok :
    checkCapacities k = .ok () ↔
      k.cacheAcquireAmount ≤ k.cacheStoreCapacity ∧ k.cacheReleaseAmount ≤ k.cacheStoreCapacity ∧
        k.cacheAcquireAmount ≤ k.allocStoreCapacity ∧ k.cacheReleaseAmount ≤ k.allocStoreCapacity := by
  rw [checkCapacities, voidFailIf_bind_eq_ok, voidFailIf_bind_eq_ok, voidFailIf_bind_eq_ok, voidFailIf_eq_ok,
    decide_eq_false_iff_not, decide_eq_false_iff_not, decide_eq_false_iff_not, decide_eq_false_iff_not, gt_iff_lt,
    UInt32.not_lt, gt_iff_lt, UInt32.not_lt, gt_iff_lt, UInt32.not_lt, gt_iff_lt, UInt32.not_lt]

/-- They reject with an error. -/
theorem checkCapacities_cases (k : Capacities) :
    checkCapacities k = .ok () ∨ checkCapacities k = .error (.err .badConf) := by
  have hlast : ∀ p, voidFailIf p .badConf = .ok () ∨ voidFailIf p .badConf = .error (.err .badConf) := by decide
  exact voidFailIf_cases (voidFailIf_cases (voidFailIf_cases (hlast _)))

/-- What they are for: the amounts fit the caller's stores, or the default ones. -/
structure CapacitiesFit (c : AllocatorConfig) : Prop where
  acquireCache : orDefault c.cacheAcquireAmount 1 ≤ orDefault c.cacheStoreCapacity 2
  releaseCache : orDefault c.cacheReleaseAmount 1 ≤ orDefault c.cacheStoreCapacity 2
  acquireAlloc : orDefault c.cacheAcquireAmount 1 ≤ orDefault c.allocStoreCapacity 4
  releaseAlloc : orDefault c.cacheReleaseAmount 1 ≤ orDefault c.allocStoreCapacity 4

/-- The greater of the two amounts. -/
def amount (c : AllocatorConfig) : ℕ :=
  max (orDefault c.cacheAcquireAmount 1).toNat (orDefault c.cacheReleaseAmount 1).toNat

theorem orDefault_of_eq_zero {x : UInt32} (h : x = 0) (d : UInt32) : orDefault x d = d := if_neg (not_not.mpr h)

theorem orDefault_of_ne_zero {x : UInt32} (h : x ≠ 0) (d : UInt32) : orDefault x d = x := if_pos h

theorem orDefault_pos {x d : UInt32} (hd : d ≠ 0) : 0 < (orDefault x d).toNat := by
  refine Nat.pos_of_ne_zero fun e => ?_
  have h0 : orDefault x d = 0 := UInt32.toNat_inj.mp e
  rw [orDefault] at h0
  split at h0
  · next h => exact h h0
  · exact hd h0

theorem amount_pos (c : AllocatorConfig) : 0 < amount c := lt_max_of_lt_left (orDefault_pos (by decide))

/-- The amounts are at most two capacities. -/
theorem amount_le_iff {m n : UInt32} :
    (orDefault c.cacheAcquireAmount 1 ≤ m ∧ orDefault c.cacheReleaseAmount 1 ≤ m ∧
      orDefault c.cacheAcquireAmount 1 ≤ n ∧ orDefault c.cacheReleaseAmount 1 ≤ n) ↔
      amount c ≤ m.toNat ∧ amount c ≤ n.toNat := by
  simp only [amount, UInt32.le_iff_toNat_le]
  omega

theorem letThrough_iff_amount :
    LetThrough c ↔ amount c ≤ (saCapacities c).cacheStoreCapacity.toNat ∧
      amount c ≤ (orDefault c.allocStoreCapacity 4).toNat := by
  rw [LetThrough, checkCapacities_eq_ok]
  exact amount_le_iff

theorem capacitiesFit_iff_amount :
    CapacitiesFit c ↔ amount c ≤ (orDefault c.cacheStoreCapacity 2).toNat ∧
      amount c ≤ (orDefault c.allocStoreCapacity 4).toNat := by
  rw [← amount_le_iff]
  exact ⟨fun h => ⟨h.acquireCache, h.releaseCache, h.acquireAlloc, h.releaseAlloc⟩,
    fun ⟨h₁, h₂, h₃, h₄⟩ => ⟨h₁, h₂, h₃, h₄⟩⟩

/-- **The capacity checks** let through what they should if the caller leaves the cache store to
its default. Otherwise they compare with the allocator's store in its place, which is right
if the amounts fit the cache store, or do not fit the allocator's anyway. If that is left
to its default too little is let through, namely nothing. -/
theorem letThrough_right_iff (c : AllocatorConfig) :
    (LetThrough c ↔ CapacitiesFit c) ↔
      c.cacheStoreCapacity = 0 ∨
      (c.allocStoreCapacity ≠ 0 ∧
        (amount c ≤ c.cacheStoreCapacity.toNat ∨ c.allocStoreCapacity.toNat < amount c)) ∨
      (c.allocStoreCapacity = 0 ∧ (c.cacheStoreCapacity.toNat < amount c ∨ 4 < amount c)) := by
  have hpos := amount_pos c
  rw [letThrough_iff_amount, capacitiesFit_iff_amount]
  by_cases hcache : c.cacheStoreCapacity = 0
  · have hstore : (saCapacities c).cacheStoreCapacity = 2 := if_neg (not_not.mpr hcache)
    rw [hstore, orDefault_of_eq_zero hcache]
    exact iff_of_true Iff.rfl (.inl hcache)
  · have hstore : (saCapacities c).cacheStoreCapacity = c.allocStoreCapacity := if_pos hcache
    rw [hstore, orDefault_of_ne_zero hcache]
    by_cases halloc : c.allocStoreCapacity = 0
    · rw [orDefault_of_eq_zero halloc, halloc, show (0 : UInt32).toNat = 0 from rfl, show (4 : UInt32).toNat = 4 from rfl]
      simp only [hcache, ne_eq, not_true_eq_false, false_and, true_and, false_or]
      omega
    · rw [orDefault_of_ne_zero halloc]
      simp only [hcache, halloc, ne_eq, not_false_eq_true, true_and, false_and, false_or, or_false]
      omega

/-- A cache that has room for one batch and is to acquire two. -/
def smallCache : AllocatorConfig where
  objSize := 8
  objAlign := 8
  batchCapacity := 1
  allocStoreCapacity := 4
  cacheStoreCapacity := 1
  cacheAcquireAmount := 2
  cacheReleaseAmount := 1
  slabAcquireCount := 1

/-- It is let through. -/
theorem letThrough_smallCache : ¬ (LetThrough smallCache ↔ CapacitiesFit smallCache) :=
  fun h => absurd (h.mp rfl).acquireCache (by decide)

/-! ### The outcome -/

/-- Alignments that are no power of two are rejected. -/
theorem saConfigInit_of_align (h : ¬ c.objAlign.toNat.isPowerOfTwo) : saConfigInit c = .error (.err .badConf) := by
  rw [isPowerOfTwo_toNat, not_and_or, not_not] at h
  by_cases h0 : c.objAlign = 0
  · rw [saConfigInit, voidFailIf_fail (beq_iff_eq.mpr h0)]
  · rw [saConfigInit, voidFailIf_bind (beq_eq_false_iff_ne.mpr h0),
      voidFailIf_fail (bne_iff_ne.mpr (h.resolve_left h0))]

/-- What is rounded up is a multiple, also if it has wrapped. -/
theorem alignUp_mod (w : UInt64) {a : UInt64} (ha : a.toNat.isPowerOfTwo) : alignUp w a % a = 0 := by
  have hval := @toNat_alignUp w a ha
  obtain ⟨k, hk⟩ := ha
  rw [← UInt64.toNat_inj, UInt64.toNat_mod, hval, Nat.mod_mod_of_dvd _ (toNat_dvd_size hk)]
  exact Nat.mod_eq_zero_of_dvd (dvd_roundUp ..)

/-- The other alignments meet the assertions. -/
theorem saConfigInit_eq (ha : c.objAlign.toNat.isPowerOfTwo) :
    saConfigInit c = (checkCapacities (saCapacities c) >>= fun _ => slabInit c) := by
  obtain ⟨h0, hbits⟩ := isPowerOfTwo_toNat.mp ha
  have hpadded : objPaddedSize c % c.objAlign = 0 := alignUp_mod _ ha
  have hoffset : slabOffset c % c.objAlign = 0 := alignUp_mod _ ha
  rw [saConfigInit, voidFailIf_bind (beq_eq_false_iff_ne.mpr h0), voidFailIf_bind (bne_eq_false_iff_eq.mpr hbits),
    modulo_bind h0, assert_bind (beq_iff_eq.mpr hpadded), modulo_bind h0, assert_bind (beq_iff_eq.mpr hoffset)]

/-- **A slab that is large enough is rejected.** -/
theorem slabInit_of_le (h : (slabSizeNeeded c).toNat ≤ 2 ^ 63) : slabInit c = .error (.err .badConf) := by
  obtain ⟨size, e, hsize⟩ := slabSize_of_le h
  have hge : size ≥ slabSizeNeeded c := by
    rw [ge_iff_le, UInt64.le_iff_toNat_le, hsize]
    calc (slabSizeNeeded c).toNat ≤ 2 ^ Nat.clog 2 (slabSizeNeeded c).toNat := Nat.le_pow_clog Nat.one_lt_two _
      _ ≤ 2 ^ max 12 (Nat.clog 2 (slabSizeNeeded c).toNat) := Nat.pow_le_pow_right Nat.two_pos (Nat.le_max_right ..)
  rw [slabInit, bind_of_ok e, voidFailIf_fail (decide_eq_true hge)]

/-- **One that is too small fails the assertion**: its size is a power of two, or 0. -/
theorem slabInit_of_gt (h : 2 ^ 63 < (slabSizeNeeded c).toNat) : slabInit c = .error .assertion := by
  obtain ⟨size, e, hsize⟩ := slabSize_of_gt h
  have hsmall : size.toNat ≤ 4096 := by
    rcases hsize with rfl | rfl
    · decide
    · decide
  have hlt : ¬ size ≥ slabSizeNeeded c := by
    rw [ge_iff_le, UInt64.le_iff_toNat_le]
    omega
  have hbits : (size &&& (size - 1) != 0) = false := by
    rcases hsize with rfl | rfl
    · decide
    · decide
  rw [slabInit, bind_of_ok e, voidFailIf_bind (decide_eq_false hlt), assert_fail hbits]

/-- Sizes that do not go beyond 2^63 bytes lead to an error, whatever the capacities. -/
theorem saConfigInit_of_le (ha : c.objAlign.toNat.isPowerOfTwo) (h : bytesNeeded c % 2 ^ 64 ≤ 2 ^ 63) :
    saConfigInit c = .error (.err .badConf) := by
  rw [← toNat_slabSizeNeeded ha] at h
  rw [saConfigInit_eq ha]
  rcases checkCapacities_cases (saCapacities c) with e | e
  · rw [bind_of_ok e, slabInit_of_le h]
  · rw [bind_of_error e]

/-- What `sa_config_init` should do: return a configuration with the least slab, and its mask. -/
def Inits (c : AllocatorConfig) : Prop :=
  ∃ conf, saConfigInit c = .ok conf ∧ conf.slabSize.toNat = leastSlab c ∧ conf.slabObjMask = ~~~(conf.slabSize - 1)

/-- The configurations that it should do that for. -/
structure Reasonable (c : AllocatorConfig) : Prop where
  align : c.objAlign.toNat.isPowerOfTwo
  bytes : bytesNeeded c ≤ 2 ^ 63
  capacities : LetThrough c
  batches : (leastSlab c - headerBytes c) / batchBytes c ≤ (orDefault c.allocStoreCapacity 4).toNat

/-- **Nothing is accepted**: with an alignment and a size that are all right the outcome is an
error, whatever else the configuration has. -/
theorem not_inits (ha : c.objAlign.toNat.isPowerOfTwo) (h : bytesNeeded c ≤ 2 ^ 63) :
    saConfigInit c = .error (.err .badConf) ∧ ¬ Inits c := by
  have herr : saConfigInit c = .error (.err .badConf) := by
    refine saConfigInit_of_le ha ?_
    exact (Nat.mod_le _ _).trans h
  refine ⟨herr, ?_⟩
  rintro ⟨conf, e, -⟩
  rw [herr] at e
  cases e

/-- One batch of one object in a slab of a page, and stores with room for all that fits it. -/
def onePage : AllocatorConfig where
  objSize := 8
  objAlign := 8
  batchCapacity := 1
  allocStoreCapacity := 1000
  cacheStoreCapacity := 1000
  cacheAcquireAmount := 1
  cacheReleaseAmount := 1
  slabAcquireCount := 1

theorem not_inits_onePage : saConfigInit onePage = .error (.err .badConf) ∧ ¬ Inits onePage :=
  not_inits ⟨3, rfl⟩ (by decide)

/-- It is rejected. -/
theorem not_inits_of_reasonable : ¬ ∀ c, Reasonable c → Inits c := by
  intro h
  obtain ⟨conf, e, -⟩ := h onePage ⟨⟨3, rfl⟩, by decide, rfl, by decide⟩
  rw [saConfigInit_of_le ⟨3, rfl⟩ (by decide)] at e
  cases e

/-- It returns, without an error or with it. -/
def Returns (x : Code α) : Prop := (∃ a, x = .ok a) ∨ x = .error (.err .badConf)

/-- **When `sa_config_init` returns**: the alignment or the capacities are rejected, or the bytes
modulo 2^64 are at most 2^63. Otherwise an assertion fails; the loop always ends, and no
division is by 0. -/
theorem returns_saConfigInit_iff (c : AllocatorConfig) :
    Returns (saConfigInit c) ↔
      ¬ c.objAlign.toNat.isPowerOfTwo ∨ ¬ LetThrough c ∨ bytesNeeded c % 2 ^ 64 ≤ 2 ^ 63 := by
  by_cases ha : c.objAlign.toNat.isPowerOfTwo
  swap
  · exact iff_of_true (.inr (saConfigInit_of_align ha)) (.inl ha)
  by_cases hc : LetThrough c
  swap
  · have e := (checkCapacities_cases (saCapacities c)).resolve_left hc
    rw [saConfigInit_eq ha, bind_of_error e]
    exact iff_of_true (.inr rfl) (.inr (.inl hc))
  by_cases hle : bytesNeeded c % 2 ^ 64 ≤ 2 ^ 63
  · exact iff_of_true (.inr (saConfigInit_of_le ha hle)) (.inr (.inr hle))
  · have hgt : 2 ^ 63 < (slabSizeNeeded c).toNat := by
      rw [toNat_slabSizeNeeded ha]
      exact Nat.lt_of_not_le hle
    rw [saConfigInit_eq ha, bind_of_ok hc, slabInit_of_gt hgt]
    refine iff_of_false ?_ ?_
    · rintro (⟨conf, e⟩ | e)
      · cases e
      · cases e
    · rintro (h | h | h)
      · exact h ha
      · exact h hc
      · exact hle h

/-- An object of 2^63 bytes. -/
def hugeObject : AllocatorConfig where
  objSize := 9223372036854775808
  objAlign := 1
  batchCapacity := 1
  allocStoreCapacity := 0
  cacheStoreCapacity := 0
  cacheAcquireAmount := 0
  cacheReleaseAmount := 0
  slabAcquireCount := 1

/-- The slab would have 2^64 bytes. -/
theorem not_returns_hugeObject : ¬ Returns (saConfigInit hugeObject) := by
  have e : saConfigInit hugeObject = .error .assertion := by
    rw [saConfigInit_eq ⟨0, rfl⟩]
    exact slabInit_of_gt (show 2 ^ 63 < (slabSizeNeeded hugeObject).toNat by decide)
  rw [e]
  rintro (⟨conf, h⟩ | h)
  · cases h
  · cases h

/-! ### The geometry -/

/-- What the geometry of a slab should be: what `batch_per_slab` says lies in the slab, it is
enough, and objects and header have the size and the alignment they need. -/
structure GeometryFits (c : AllocatorConfig) (size perSlab : UInt64) : Prop where
  fits : (slabOffset c).toNat + perSlab.toNat * (saCapacities c).batchCapacity.toNat * (objPaddedSize c).toNat ≤
    size.toNat
  batches : (acquirePerSlab c).toNat * (saCapacities c).cacheAcquireAmount.toNat ≤ perSlab.toNat
  padded : max c.objSize.toNat minObjSize.toNat ≤ (objPaddedSize c).toNat
  offsetAligned : c.objAlign.toNat ∣ (slabOffset c).toNat
  paddedAligned : c.objAlign.toNat ∣ (objPaddedSize c).toNat

theorem batchBytes_pos (ha : c.objAlign.toNat.isPowerOfTwo) : 0 < batchBytes c := by
  have hle : max c.objSize.toNat minObjSize.toNat ≤ paddedBytes c := le_roundUp (Nat.pos_of_isPowerOfTwo ha)
  have hmin : minObjSize.toNat = 8 := rfl
  exact Nat.mul_pos (orDefault_pos (by decide)) (by omega)

theorem batchesNeeded_pos (c : AllocatorConfig) : 0 < batchesNeeded c :=
  Nat.mul_pos (orDefault_pos (by decide)) (orDefault_pos (by decide))

/-- If the bytes do not wrap, those of a batch do not. -/
theorem toNat_batchTotalBytes (ha : c.objAlign.toNat.isPowerOfTwo) (h : bytesNeeded c ≤ 2 ^ 63) :
    (objPaddedSize c).toNat = paddedBytes c ∧ (batchTotalBytes c).toNat = batchBytes c := by
  have hbatch : batchBytes c ≤ batchesNeeded c * batchBytes c := Nat.le_mul_of_pos_left _ (batchesNeeded_pos c)
  have hcap : 0 < (orDefault c.batchCapacity 64).toNat := orDefault_pos (by decide)
  have hpadded : paddedBytes c ≤ batchBytes c := Nat.le_mul_of_pos_left _ hcap
  rw [bytesNeeded] at h
  have hval : (objPaddedSize c).toNat = paddedBytes c := by
    rw [toNat_objPaddedSize ha, Nat.mod_eq_of_lt (by omega)]
  refine ⟨hval, ?_⟩
  have hmul : (batchTotalBytes c).toNat = batchBytes c % 2 ^ 64 := by
    rw [batchTotalBytes, UInt64.toNat_mul, hval, UInt32.toNat_toUInt64]
    rfl
  rw [hmul, Nat.mod_eq_of_lt (by omega)]

/-- The loop's slab, in exact arithmetic. -/
theorem slabSize_eq_leastSlab (ha : c.objAlign.toNat.isPowerOfTwo) (h : bytesNeeded c ≤ 2 ^ 63) :
    ∃ size, slabSize c = .ok size ∧ size.toNat = leastSlab c ∧ bytesNeeded c ≤ leastSlab c ∧ leastSlab c ≤ 2 ^ 63 := by
  have hneeded : (slabSizeNeeded c).toNat = bytesNeeded c := by
    rw [toNat_slabSizeNeeded ha, Nat.mod_eq_of_lt (by omega)]
  obtain ⟨size, e, hsize⟩ := slabSize_of_le (hneeded.trans_le h)
  rw [hneeded] at hsize
  refine ⟨size, e, hsize, ?_, ?_⟩
  · exact (Nat.le_pow_clog Nat.one_lt_two _).trans (Nat.pow_le_pow_right Nat.two_pos (Nat.le_max_right ..))
  · refine Nat.pow_le_pow_right Nat.two_pos (Nat.max_le.mpr ⟨by decide, ?_⟩)
    exact Nat.clog_le_of_le_pow h

/-- **`batch_per_slab` is rounded up.** -/
theorem batchPerSlab_eq (ha : c.objAlign.toNat.isPowerOfTwo) (h : bytesNeeded c ≤ 2 ^ 63) {size : UInt64}
    (hsize : size.toNat = leastSlab c) (hge : bytesNeeded c ≤ leastSlab c) (hle : leastSlab c ≤ 2 ^ 63) :
    ∃ perSlab, batchPerSlab c size = .ok perSlab ∧
      perSlab.toNat = (leastSlab c - headerBytes c + batchBytes c - 1) / batchBytes c := by
  have hpos := batchBytes_pos ha
  obtain ⟨-, htotal⟩ := toNat_batchTotalBytes ha h
  have hne : batchTotalBytes c ≠ 0 := by
    intro e
    rw [e] at htotal
    exact hpos.ne htotal
  have hbatch : batchBytes c ≤ batchesNeeded c * batchBytes c := Nat.le_mul_of_pos_left _ (batchesNeeded_pos c)
  have hneeded : bytesNeeded c = batchesNeeded c * batchBytes c + headerBytes c := rfl
  have hnum : (size - slabOffset c + batchTotalBytes c - 1).toNat = leastSlab c - headerBytes c + batchBytes c - 1 := by
    have hsub : (size - slabOffset c).toNat = leastSlab c - headerBytes c := by
      rw [UInt64.toNat_sub_of_le, hsize, toNat_slabOffset ha]
      rw [UInt64.le_iff_toNat_le, hsize, toNat_slabOffset ha]
      omega
    rw [UInt64.toNat_sub, UInt64.toNat_add, hsub, htotal, show (1 : UInt64).toNat = 1 from rfl]
    omega
  refine ⟨(size - slabOffset c + batchTotalBytes c - 1) / batchTotalBytes c, if_neg hne, ?_⟩
  rw [UInt64.toNat_div, hnum, htotal]

/-- **The geometry fits the slab** only if the batches fill it: else there is one more than there
is room for. The other things that it should be it is. -/
theorem geometryFits_iff (ha : c.objAlign.toNat.isPowerOfTwo) (h : bytesNeeded c ≤ 2 ^ 63) :
    ∃ size perSlab, slabSize c = .ok size ∧ slabSizeNeeded c ≤ size ∧ batchPerSlab c size = .ok perSlab ∧
      (GeometryFits c size perSlab ↔ batchBytes c ∣ leastSlab c - headerBytes c) := by
  obtain ⟨size, e, hsize, hge, hle⟩ := slabSize_eq_leastSlab ha h
  obtain ⟨perSlab, e', hper⟩ := batchPerSlab_eq ha h hsize hge hle
  obtain ⟨hpadded, -⟩ := toNat_batchTotalBytes ha h
  have hpos := batchBytes_pos ha
  have hneeded : bytesNeeded c = batchesNeeded c * batchBytes c + headerBytes c := rfl
  -- the batches end at the next multiple of their size
  have hround : perSlab.toNat * batchBytes c = roundUp (leastSlab c - headerBytes c) (batchBytes c) := by
    rw [hper]
    rfl
  have hfilled : leastSlab c - headerBytes c ≤ perSlab.toNat * batchBytes c := by
    rw [hround]
    exact le_roundUp hpos
  have hend : perSlab.toNat * (saCapacities c).batchCapacity.toNat * (objPaddedSize c).toNat =
      perSlab.toNat * batchBytes c := by
    rw [hpadded, Nat.mul_assoc]
    rfl
  have hfits : (slabOffset c).toNat + perSlab.toNat * (saCapacities c).batchCapacity.toNat * (objPaddedSize c).toNat ≤
      size.toNat ↔ batchBytes c ∣ leastSlab c - headerBytes c := by
    rw [← roundUp_le_self_iff hpos, ← hround, hend, toNat_slabOffset ha, hsize]
    omega
  refine ⟨size, perSlab, e, ?_, e', fun hg => hfits.mp hg.fits, fun hdvd => ⟨hfits.mpr hdvd, ?_, ?_, ?_, ?_⟩⟩
  · rw [UInt64.le_iff_toNat_le, hsize, toNat_slabSizeNeeded ha]
    exact (Nat.mod_le _ _).trans hge
  · have hbatches : batchesNeeded c * batchBytes c ≤ perSlab.toNat * batchBytes c := by omega
    rw [acquirePerSlab, UInt32.toNat_toUInt64]
    exact Nat.le_of_mul_le_mul_right hbatches hpos
  · rw [hpadded]
    exact le_roundUp (Nat.pos_of_isPowerOfTwo ha)
  · rw [toNat_slabOffset ha]
    exact dvd_roundUp ..
  · rw [hpadded]
    exact dvd_roundUp ..

/-- 510 batches fill a page and its header. -/
theorem geometryFits_onePage :
    ∃ size perSlab, slabSize onePage = .ok size ∧ slabSizeNeeded onePage ≤ size ∧
      batchPerSlab onePage size = .ok perSlab ∧
      (GeometryFits onePage size perSlab ↔ batchBytes onePage ∣ leastSlab onePage - headerBytes onePage) :=
  geometryFits_iff ⟨3, rfl⟩ (by decide)

/-- With objects of 32 bytes they do not. -/
def wideObjects : AllocatorConfig := { onePage with objSize := 32 }

/-- The last of 128 batches ends 16 bytes after the slab. -/
theorem not_geometryFits_wideObjects :
    ¬ ∀ c size perSlab, c.objAlign.toNat.isPowerOfTwo → bytesNeeded c ≤ 2 ^ 63 → slabSize c = .ok size →
      batchPerSlab c size = .ok perSlab → GeometryFits c size perSlab := by
  intro h
  have hfits := (h wideObjects 4096 128 ⟨3, rfl⟩ (by decide) rfl rfl).fits
  exact absurd hfits (by decide)

end FileSync.SlabAllocator
