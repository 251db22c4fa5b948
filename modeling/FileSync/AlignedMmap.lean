import FileSync.Error
import FileSync.Lib.Checked
import FileSync.Lib.Packing

/-!
# Mapping at a multiple of the size

Both slab allocators have a slab at a multiple of its size. To get one they map twice
the size, and unmap what lies before the first multiple in it and what lies after
the slab there (`sa_aligned_mmap` and `tss_aligned_mmap`, which are the same but for
their names). What is left is exactly one slab, and clearing the low bits of any address
in it gives its own.
-/

namespace FileSync

open FileSync.Lib

/-- What is made of a mapping. -/
structure Mapping where
  alignedAddr : Addr
  leadingTrim : UInt64
  trailingTrim : UInt64
  /-- The address and the length in the calls of `munmap`. -/
  unmapped : List (Addr × UInt64)
  deriving DecidableEq, Repr

/-- Whether `munmap` succeeds: the address is that of a page, there is something to unmap, and it is
in the address space. -/
def munmapOk (pageSize : UInt64) (addr : Addr) (len : UInt64) : Bool :=
  addr % pageSize == 0 && decide (0 < len) && decide (addr.toNat + len.toNat ≤ 2 ^ 64)

/-- `munmap`, if there is something to unmap, and the assertion that it has succeeded. -/
def trim (pageSize : UInt64) (addr : Addr) (len : UInt64) : Checked (List (Addr × UInt64)) :=
  if len > 0 then do
    Checked.assert (munmapOk pageSize addr len)
    return [(addr, len)]
  else return []

/-- What `sa_aligned_mmap` and `tss_aligned_mmap` do with the address from `mmap`. -/
def alignedMmap (pageSize slabSize : UInt64) (rawAddr : Addr) : Checked Mapping := do
  Checked.assert (decide (slabSize > 0))
  let alignedAddr := (rawAddr + slabSize - 1) &&& ~~~(slabSize - 1)
  let leadingTrim := alignedAddr - rawAddr
  let trailingTrim := rawAddr + 2 * slabSize - (alignedAddr + slabSize)
  Checked.assert (rawAddr % pageSize == 0)
  Checked.assert (alignedAddr % slabSize == 0)
  Checked.assert (leadingTrim % pageSize == 0)
  Checked.assert (trailingTrim % pageSize == 0)
  let leading ← trim pageSize rawAddr leadingTrim
  let trailing ← trim pageSize (alignedAddr + slabSize) trailingTrim
  return { alignedAddr := alignedAddr, leadingTrim := leadingTrim, trailingTrim := trailingTrim,
           unmapped := leading ++ trailing }

/-- **One slab is kept** of the mapping at `raw`: it is at a multiple of its size, the assertions
hold, what is unmapped are the pages before and after the slab, and `findSlab` gives the
slab for every address in it. -/
structure KeepsOneSlab (pageSize size raw : UInt64) (r : Checked Mapping) (findSlab : Addr → Addr) : Prop where
  ok : r.ok = true
  multiple : size.toNat ∣ r.val.alignedAddr.toNat
  starts : raw.toNat ≤ r.val.alignedAddr.toNat
  ends : r.val.alignedAddr.toNat + size.toNat ≤ raw.toNat + 2 * size.toNat
  trims : r.val.leadingTrim.toNat + r.val.trailingTrim.toNat = size.toNat
  leadingPages : pageSize.toNat ∣ r.val.leadingTrim.toNat
  trailingPages : pageSize.toNat ∣ r.val.trailingTrim.toNat
  unmapped : ∀ x : ℕ, (∃ u ∈ r.val.unmapped, u.1.toNat ≤ x ∧ x < u.1.toNat + u.2.toNat) ↔
    raw.toNat ≤ x ∧ x < raw.toNat + 2 * size.toNat ∧
      ¬ (r.val.alignedAddr.toNat ≤ x ∧ x < r.val.alignedAddr.toNat + size.toNat)
  found : ∀ p : Addr, r.val.alignedAddr.toNat ≤ p.toNat → p.toNat < r.val.alignedAddr.toNat + size.toNat →
    findSlab p = r.val.alignedAddr

/-- Clearing the low bits of an address in the slab. -/
theorem and_not_pred_eq {size a p : UInt64} (hsize : size.toNat.isPowerOfTwo) (ha : size.toNat ∣ a.toNat)
    (hge : a.toNat ≤ p.toNat) (hlt : p.toNat < a.toNat + size.toNat) : p &&& ~~~(size - 1) = a := by
  obtain ⟨k, hk⟩ := hsize
  obtain ⟨c, hc⟩ := ha
  have hpos : 0 < size.toNat := hk ▸ Nat.two_pow_pos k
  have hdiv : p.toNat / size.toNat = c := by
    refine Nat.div_eq_of_lt_le ?_ ?_
    · rw [Nat.mul_comm, ← hc]
      exact hge
    · rw [Nat.succ_mul, Nat.mul_comm, ← hc]
      exact hlt
  rw [← UInt64.toNat_inj, toNat_and_not_pred hk, hdiv, hc, Nat.mul_comm]

variable {pageSize size raw addr len : UInt64}

/-- The first multiple of the size is in the first half of the mapping. -/
theorem toNat_alignedAddr (hsize : size.toNat.isPowerOfTwo) (hfits : raw.toNat + 2 * size.toNat ≤ 2 ^ 64) :
    raw.toNat ≤ ((raw + size - 1) &&& ~~~(size - 1)).toNat ∧
      ((raw + size - 1) &&& ~~~(size - 1)).toNat < raw.toNat + size.toNat ∧
      size.toNat ∣ ((raw + size - 1) &&& ~~~(size - 1)).toNat := by
  have hpos := Nat.pos_of_isPowerOfTwo hsize
  have hlt := @roundUp_lt raw.toNat size.toNat hpos
  obtain ⟨k, hk⟩ := hsize
  rw [toNat_roundUp (Nat.mod_eq_of_lt raw.toNat_lt).symm hk, Nat.mod_eq_of_lt (by omega)]
  exact ⟨le_roundUp hpos, hlt, dvd_roundUp ..⟩

theorem mod_eq_zero {a b : UInt64} (h : b.toNat ∣ a.toNat) : a % b = 0 :=
  UInt64.toNat_inj.mp (Nat.mod_eq_zero_of_dvd h)

/-- Pages can be unmapped. -/
theorem ok_trim (hpage : pageSize.toNat ∣ addr.toNat) (hend : addr.toNat + len.toNat ≤ 2 ^ 64) :
    (trim pageSize addr len).ok = true := by
  rw [trim]
  split
  · next hlen =>
    rw [Checked.ok_bind, Checked.ok_assert, Checked.ok_pure, munmapOk, Bool.and_true, Bool.and_eq_true, Bool.and_eq_true]
    exact ⟨⟨beq_iff_eq.mpr (mod_eq_zero hpage), decide_eq_true hlen⟩, decide_eq_true hend⟩
  · rfl

/-- What is unmapped. -/
theorem mem_trim {x : ℕ} :
    (∃ u ∈ (trim pageSize addr len).val, u.1.toNat ≤ x ∧ x < u.1.toNat + u.2.toNat) ↔
      addr.toNat ≤ x ∧ x < addr.toNat + len.toNat := by
  rw [trim]
  split
  · simp
  · next hlen =>
    have h0 : len.toNat = 0 := Nat.eq_zero_of_not_pos hlen
    simp [h0]

/-- **The arithmetic of the aligned mapping.** -/
theorem alignedMmap_keeps (hsize : size.toNat.isPowerOfTwo) (hpage : pageSize.toNat ∣ size.toNat)
    (hraw : pageSize.toNat ∣ raw.toNat) (hfits : raw.toNat + 2 * size.toNat ≤ 2 ^ 64) :
    KeepsOneSlab pageSize size raw (alignedMmap pageSize size raw) fun p => p &&& ~~~(size - 1) := by
  obtain ⟨hge, hlt, hdvd⟩ := toNat_alignedAddr hsize hfits
  set aligned := (raw + size - 1) &&& ~~~(size - 1) with haligned
  have hpos : 0 < size.toNat := Nat.pos_of_isPowerOfTwo hsize
  have hleading : (aligned - raw).toNat = aligned.toNat - raw.toNat := UInt64.toNat_sub_of_le _ _ hge
  have hafter : (aligned + size).toNat = aligned.toNat + size.toNat := by
    rw [UInt64.toNat_add, Nat.mod_eq_of_lt (by omega)]
  have htrailing : (raw + 2 * size - (aligned + size)).toNat =
      raw.toNat + size.toNat - aligned.toNat := by
    rw [UInt64.toNat_sub, hafter, UInt64.toNat_add, UInt64.toNat_mul, show (2 : UInt64).toNat = 2 from rfl]
    omega
  have hapage : pageSize.toNat ∣ aligned.toNat := hpage.trans hdvd
  have hlpage : pageSize.toNat ∣ (aligned - raw).toNat := by
    rw [hleading]
    exact Nat.dvd_sub hapage hraw
  have htpage : pageSize.toNat ∣ (raw + 2 * size - (aligned + size)).toNat := by
    rw [htrailing]
    exact Nat.dvd_sub (Nat.dvd_add hraw hpage) hapage
  refine ⟨?_, hdvd, hge, ?_, ?_, hlpage, htpage, fun x => ?_, fun p => and_not_pred_eq hsize hdvd⟩
  · have h₁ : (trim pageSize raw (aligned - raw)).ok = true := ok_trim hraw (by omega)
    have h₂ : (trim pageSize (aligned + size) (raw + 2 * size - (aligned + size))).ok = true := by
      refine ok_trim ?_ (by omega)
      rw [hafter]
      exact Nat.dvd_add hapage hpage
    simp only [alignedMmap, ← haligned, Checked.ok_bind, Checked.ok_assert, Checked.ok_pure, h₁, h₂, Bool.and_true,
      Bool.and_eq_true, decide_eq_true_eq, beq_iff_eq]
    exact ⟨hpos, mod_eq_zero hraw, mod_eq_zero hdvd, mod_eq_zero hlpage, mod_eq_zero htpage⟩
  · show aligned.toNat + size.toNat ≤ _
    omega
  · show (aligned - raw).toNat + (raw + 2 * size - (aligned + size)).toNat = _
    omega
  · show (∃ u ∈ (trim pageSize raw (aligned - raw)).val ++
        (trim pageSize (aligned + size) (raw + 2 * size - (aligned + size))).val, _) ↔
      _ ∧ _ ∧ ¬ (aligned.toNat ≤ x ∧ x < aligned.toNat + size.toNat)
    simp only [List.mem_append, or_and_right, exists_or]
    rw [mem_trim, mem_trim]
    omega

end FileSync
