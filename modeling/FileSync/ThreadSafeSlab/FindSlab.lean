import Mathlib.Data.Nat.Prime.Basic
import FileSync.SlabAllocator.Code
import FileSync.ThreadSafeSlab.Acquire

/-!
# Finding the slab of an object

Both allocators find the slab of an object by clearing the bits of its address below the
size of a slab. For a size that is a power of two this gives the slab for every address in
it. `tss_slab_config_init` accepts other sizes: then the slab of an object is found only if
the object starts on a page, of the slab, whose number has no bit that the number of
pages less one does not have.
-/

namespace FileSync.ThreadSafeSlab

open FileSync.Lib

variable {c : AllocatorConfig} {conf : SlabConfig} {mmap : Mmap} {m m' : Mem} {S : Addr} {i : ℕ}

/-- **One slab is kept of a mapping**, and found from every address in it, by both allocators. -/
theorem alignedMmaps_keep_one_slab {size raw : UInt64} (hsize : size.toNat.isPowerOfTwo) (hpage : 4096 ∣ size.toNat)
    (hraw : 4096 ∣ raw.toNat) (hfits : raw.toNat + 2 * size.toNat ≤ 2 ^ 64) :
    (∀ conf : SlabAllocator.SaConfig, conf.slabSize = size → KeepsOneSlab SlabAllocator.pageSize size raw
      (SlabAllocator.saAlignedMmap conf raw) (SlabAllocator.saAllocatorFindSlab conf)) ∧
    ∀ conf : SlabConfig, conf.slabSize = size → KeepsOneSlab tssPageSize size raw (tssAlignedBlock conf raw)
      (tssAllocatorFindSlab conf) := by
  constructor
  · rintro conf rfl
    exact alignedMmap_keeps hsize hpage hraw hfits
  · rintro conf rfl
    exact alignedMmap_keeps hsize hpage hraw hfits

/-- A slab of two pages. -/
def twoPages : SlabConfig where
  objAlign := 8
  paddedObjSize := 8
  slabSize := 8192
  objPerSlab := 1020
  retireThreshold := 0
  slabOffset := 32

/-- It is mapped on the second page of four. -/
theorem keepsOneSlab_twoPages :
    KeepsOneSlab tssPageSize 8192 4096 (tssAlignedBlock twoPages 4096) (tssAllocatorFindSlab twoPages) :=
  (alignedMmaps_keep_one_slab ⟨13, rfl⟩ (by decide) (by decide) (by decide)).2 twoPages rfl

/-! ### Configurations that are accepted -/

/-- **The alignment is a power of two**: else the header, rounded up, is no multiple of it. -/
theorem isPowerOfTwo_align (hok : (tssSlabConfigInit c).ok = true) : c.objAlign.toNat.isPowerOfTwo := by
  obtain ⟨hpos, hmod, hsub, -⟩ := of_tssSlabConfigInit_ok hok
  have hne : c.objAlign ≠ 0 := by
    intro e
    rw [e] at hpos
    exact absurd hpos (by decide)
  have hoffset : (tssSlabConfigInit c).val.slabOffset = (sizeofSlab + (c.objAlign - 1)) &&& ~~~(c.objAlign - 1) := by
    show (sizeofSlab + c.objAlign - 1) &&& ~~~(c.objAlign - 1) = _
    rw [add_sub_assoc]
  rcases @add_and_not_self sizeofSlab (c.objAlign - 1) 5 rfl with h0 | hpow
  · -- the sum has wrapped, and the alignment is larger than a slab
    rw [← hoffset] at h0
    rw [h0, UInt64.sub_zero] at hsub
    have hdvd : c.objAlign.toNat ∣ slabPages c * 2 ^ 12 := by
      rw [← toNat_slabSize]
      exact Nat.dvd_of_mod_eq_zero (congrArg UInt64.toNat hsub)
    have hle := Nat.le_of_dvd (Nat.mul_pos (slabPages_pos c) (by decide)) hdvd
    have hpages : slabPages c < 2 ^ 32 := UInt32.toNat_lt _
    have hwrap : (sizeofSlab + (c.objAlign - 1)).toNat ≤ (c.objAlign - 1).toNat := by
      refine toNat_le_of_and_not ?_
      rw [← hoffset, h0]
    rw [UInt64.toNat_add, toNat_pred hne, show sizeofSlab.toNat = 32 from rfl] at hwrap
    omega
  · rw [← hoffset] at hpow
    obtain ⟨k, hk⟩ := hpow
    have hdvd : c.objAlign.toNat ∣ 2 ^ k := by
      rw [← hk]
      exact Nat.dvd_of_mod_eq_zero (congrArg UInt64.toNat hmod)
    obtain ⟨j, -, hj⟩ := (Nat.dvd_prime_pow Nat.prime_two).mp hdvd
    exact ⟨j, hj⟩

/-! ### Objects -/

theorem of_assert_bind {α : Type} {p : Bool} {f : Unit → Code α} {a : α} (h : (assert p >>= f) m = (.ok a, m')) :
    f () m = (.ok a, m') := by
  cases p with
  | true => exact h
  | false => cases h

/-- A slab that is returned has none of the bits that are cleared. -/
theorem and_pred_of_tssAlignedMmap (h : tssAlignedMmap conf mmap m = (.ok (some S), m')) :
    S &&& (conf.slabSize - 1) = 0 := by
  have hmmap := of_assert_bind h
  rw [Fallible.get_bind, Fallible.modify_bind] at hmmap
  cases hraw : mmap m.mmaps m.mapped with
  | none =>
    rw [hraw] at hmmap
    cases hmmap
  | some raw =>
    rw [hraw] at hmmap
    have hend := of_assert_bind (of_assert_bind (of_assert_bind (of_assert_bind hmmap)))
    obtain rfl : alignedAddr conf raw = S := by
      cases hend
      rfl
    exact and_not_and_mask ..

/-- The page of the slab on which an object starts. -/
def startPage (c : AllocatorConfig) (i : ℕ) : ℕ := (headerBytes c + i * paddedBytes c) / 2 ^ 12

/-- The bits below the size of a slab are those of a page, and those of the number of pages less
one. -/
theorem and_size_pred_iff {x n : ℕ} (hn : 0 < n) :
    x &&& (n * 2 ^ 12 - 1) = x ↔ x / 2 ^ 12 &&& (n - 1) = x / 2 ^ 12 := by
  have hdiv : (n * 2 ^ 12 - 1) / 2 ^ 12 = n - 1 := by omega
  have hmod : (n * 2 ^ 12 - 1) % 2 ^ 12 = 2 ^ 12 - 1 := by omega
  constructor
  · intro h
    have := congrArg (· / 2 ^ 12) h
    rwa [Nat.and_div_two_pow, hdiv] at this
  · intro h
    have hlow : (x &&& (n * 2 ^ 12 - 1)) % 2 ^ 12 = x % 2 ^ 12 := by
      rw [Nat.and_mod_two_pow, hmod, Nat.and_two_pow_sub_one_eq_mod, Nat.mod_mod]
    have hhigh : (x &&& (n * 2 ^ 12 - 1)) / 2 ^ 12 = x / 2 ^ 12 := by
      rw [Nat.and_div_two_pow, hdiv, h]
    omega

/-- An object is in the slab. -/
theorem Exact.toNat_offset (h : Exact c) (hi : i < objectCount c) :
    ((tssSlabConfigInit c).val.slabOffset + UInt64.ofNat i * (tssSlabConfigInit c).val.paddedObjSize).toNat =
      headerBytes c + i * paddedBytes c := by
  have hsize := toNat_slabSize c
  have hlt := (tssSlabConfigInit c).val.slabSize.toNat_lt
  have hfits := h.fits
  have hin : i * paddedBytes c ≤ objectCount c * paddedBytes c := Nat.mul_le_mul_right _ hi.le
  have hi64 : i < 2 ^ 64 := by
    rw [← h.perSlab] at hi
    exact hi.trans (UInt64.toNat_lt _)
  rw [UInt64.toNat_add, UInt64.toNat_mul, UInt64.toNat_ofNat_of_lt' hi64, h.offset, h.padded]
  omega

/-- Objects are at different addresses. -/
theorem Exact.objAt_inj (h : Exact c) {j : ℕ} (hi : i < objectCount c) (hj : j < objectCount c)
    (e : objAt (tssSlabConfigInit c).val S i = objAt (tssSlabConfigInit c).val S j) : i = j := by
  rw [objAt, objAt, UInt64.add_assoc, UInt64.add_assoc, UInt64.add_right_inj, ← UInt64.toNat_inj, h.toNat_offset hi,
    h.toNat_offset hj] at e
  have hpos : 0 < paddedBytes c := by
    refine Nat.pos_of_ne_zero fun e0 => ?_
    have hcount := h.perSlab_pos
    rw [objectCount, e0, Nat.div_zero] at hcount
    exact absurd hcount (by decide)
  exact Nat.eq_of_mul_eq_mul_right hpos (by omega)

/-- The loop has linked the objects, if it ends. -/
theorem listAt_of_linkBlock (hexact : Exact c) {n : ℕ} {list list' : Addr} (hn : i + n = objectCount c)
    (hl : ListAt m.next NULL list (firstObjects (tssSlabConfigInit c).val S i))
    (h : linkBlock (tssSlabConfigInit c).val S n i list m = (.ok list', m')) :
    ListAt m'.next NULL list' (firstObjects (tssSlabConfigInit c).val S (objectCount c)) := by
  induction n generalizing i list m with
  | zero =>
    obtain rfl : i = objectCount c := hn
    cases h
    exact hl
  | succ n ih =>
    have hi : i < objectCount c := by omega
    have hne : objAt (tssSlabConfigInit c).val S i ≠ NULL := by
      intro e
      rw [linkBlock, setNext, deref, if_pos e] at h
      cases h
    have hl' := listAt_firstObjects_succ hne (fun j hj e => hj.ne (hexact.objAt_inj (hj.trans hi) hi e)) hl
    rw [linkBlock, setNext_bind hne] at h
    exact ih (by omega) hl' h

/-- **The slab of an object** is found if the page on which it starts has the right bits. -/
theorem findSlab_objAt_iff (hexact : Exact c) (hi : i < objectCount c)
    (hS : S &&& ((tssSlabConfigInit c).val.slabSize - 1) = 0) :
    tssAllocatorFindSlab (tssSlabConfigInit c).val (objAt (tssSlabConfigInit c).val S i) = S ↔
      startPage c i &&& (slabPages c - 1) = startPage c i := by
  have hsize := toNat_slabSize c
  have hpages := slabPages_pos c
  have hne : (tssSlabConfigInit c).val.slabSize ≠ 0 := by
    intro e
    rw [e] at hsize
    exact absurd hsize.symm (Nat.mul_pos hpages (by decide)).ne'
  rw [tssAllocatorFindSlab, objAt, UInt64.add_assoc, add_and_not_mask_iff hS, ← UInt64.toNat_inj, UInt64.toNat_and,
    toNat_pred hne, hexact.toNat_offset hi, hsize, and_size_pred_iff hpages]
  rfl

/-- **The slabs of all objects are found** exactly if every object starts on a page with a number
that has no bit which the number of pages less one does not have. The objects are those that
`tss_slab_link_block` has linked. -/
theorem findSlab_linked_iff {m'' : Mem} {list : Addr} (hok : (tssSlabConfigInit c).ok = true)
    (hS : tssAlignedMmap (tssSlabConfigInit c).val mmap m = (.ok (some S), m'))
    (hlink : tssSlabLinkBlock (tssSlabConfigInit c).val S m' = (.ok list, m'')) :
    ListAt m''.next NULL list (objects (tssSlabConfigInit c).val S).reverse ∧
      ((∀ x ∈ objects (tssSlabConfigInit c).val S, tssAllocatorFindSlab (tssSlabConfigInit c).val x = S) ↔
        ∀ i < objectCount c, startPage c i &&& (slabPages c - 1) = startPage c i) := by
  have hexact := exact_of_ok (isPowerOfTwo_align hok) hok
  have hbits := and_pred_of_tssAlignedMmap hS
  refine ⟨?_, fun h i hi => ?_, fun h x hx => ?_⟩
  · have hloop := of_assert_bind hlink
    rw [hexact.perSlab] at hloop
    have hlist := listAt_of_linkBlock hexact (Nat.zero_add _) rfl hloop
    rw [← hexact.perSlab] at hlist
    exact hlist
  · refine (findSlab_objAt_iff hexact hi hbits).mp (h _ ?_)
    rw [← hexact.perSlab] at hi
    exact mem_objects.mpr ⟨i, hi, rfl⟩
  · obtain ⟨i, hi, rfl⟩ := mem_objects.mp hx
    rw [hexact.perSlab] at hi
    exact (findSlab_objAt_iff hexact hi hbits).mpr (h i hi)

/-- Objects of 4064 bytes in slabs of so many pages. -/
def wideObjects (pages : UInt32) : AllocatorConfig where
  objSize := 4064
  objAlign := 8
  retireThreshold := 0
  pagesPerSlab := pages
  cacheCap := 64
  cacheAcquire := 32
  cacheRelease := 32

/-- With one page there is one object, on the first page. -/
theorem findSlab_linked_onePage :
    ListAt (Function.update emptyMem.next 4128 NULL) NULL 4128
        (objects (tssSlabConfigInit (wideObjects 1)).val 4096).reverse ∧
      ((∀ x ∈ objects (tssSlabConfigInit (wideObjects 1)).val 4096,
          tssAllocatorFindSlab (tssSlabConfigInit (wideObjects 1)).val x = 4096) ↔
        ∀ i < objectCount (wideObjects 1),
          startPage (wideObjects 1) i &&& (slabPages (wideObjects 1) - 1) = startPage (wideObjects 1) i) := by
  have hmap : tssAlignedMmap (tssSlabConfigInit (wideObjects 1)).val (fun _ _ => some 4096) emptyMem =
      (.ok (some 4096), { emptyMem with mmaps := 1, mapped := [4096] }) := rfl
  have hlink : tssSlabLinkBlock (tssSlabConfigInit (wideObjects 1)).val 4096
        { emptyMem with mmaps := 1, mapped := [4096] } =
      (.ok 4128, { emptyMem with mmaps := 1, mapped := [4096], next := Function.update emptyMem.next 4128 NULL }) := rfl
  exact findSlab_linked_iff rfl hmap hlink

/-- With three pages, the second object is on a page whose number has a bit that is cleared. -/
theorem findSlab_threePages :
    ¬ ∀ (c : AllocatorConfig) (mmap : Mmap) (m m' m'' : Mem) (S list : Addr),
      (tssSlabConfigInit c).ok = true → tssAlignedMmap (tssSlabConfigInit c).val mmap m = (.ok (some S), m') →
      tssSlabLinkBlock (tssSlabConfigInit c).val S m' = (.ok list, m'') →
      ∀ x ∈ objects (tssSlabConfigInit c).val S, tssAllocatorFindSlab (tssSlabConfigInit c).val x = S := by
  intro h
  have hfound := h (wideObjects 3) (fun _ _ => some 140187732541440) emptyMem _ _ _ _ rfl (tssAlignedMmap_eq rfl rfl) rfl
  have hsecond := hfound (objAt (tssSlabConfigInit (wideObjects 3)).val 140187732541440 1)
    (mem_objects.mpr ⟨1, by decide, rfl⟩)
  exact absurd hsecond (by decide)

end FileSync.ThreadSafeSlab
