import Mathlib.Data.Nat.Basic
import FileSync.Lib.Packing
import FileSync.Lib.Word
import FileSync.ThreadSafeSlab.Code

/-!
# The geometry of a slab

What the assertions of `tss_slab_config_init` establish: nothing has wrapped (`Exact`)
if the alignment is a power of two. If the number of pages is one too, the size of a
slab is a power of two, and the objects lie between its header and its end
(`SlabConfig.Good`). Slabs are at multiples of their size, so the slab of an object is
found from its address.
-/

namespace FileSync.ThreadSafeSlab

open FileSync.Lib

variable {conf : SlabConfig} {S T x : Addr} {i j : ℕ}

/-- What a configuration must be. -/
structure SlabConfig.Good (conf : SlabConfig) : Prop where
  /-- The size of a slab is a power of two, of at least a page. -/
  size : ∃ k, 12 ≤ k ∧ k < 44 ∧ conf.slabSize.toNat = 2 ^ k
  /-- The objects are after the header, -/
  offset_ge : sizeofSlab.toNat ≤ conf.slabOffset.toNat
  /-- have room for a pointer, -/
  padded_ge : minObjSize.toNat ≤ conf.paddedObjSize.toNat
  /-- and end before the slab does. -/
  fits : conf.slabOffset.toNat + conf.objPerSlab.toNat * conf.paddedObjSize.toNat ≤ conf.slabSize.toNat
  perSlab_pos : 0 < conf.objPerSlab.toNat

/-- The word is a power of two. -/
def IsTwoPow (n : ℕ) : Prop := ∃ k, n = 2 ^ k

/-- A size that is rounded up to a power of two is not less than it was, unless it has become 0. -/
theorem toNat_roundUp_of_ne_zero {w a : UInt64} (ha : IsTwoPow a.toNat) (h : (w + a - 1) &&& ~~~(a - 1) ≠ 0) :
    ((w + a - 1) &&& ~~~(a - 1)).toNat = roundUp w.toNat a.toNat := by
  obtain ⟨k, hk⟩ := ha
  have hpos : 0 < a.toNat := hk ▸ Nat.two_pow_pos k
  have hval := toNat_roundUp (Nat.mod_eq_of_lt w.toNat_lt).symm hk
  have hle : roundUp w.toNat a.toNat ≤ 2 ^ 64 := by
    exact roundUp_le_of_dvd hpos (toNat_dvd_size hk) w.toNat_lt.le
  have hne : ((w + a - 1) &&& ~~~(a - 1)).toNat ≠ 0 := fun e => h (UInt64.toNat_inj.mp e)
  rw [hval] at hne ⊢
  rcases Nat.lt_or_eq_of_le hle with hlt | heq
  · exact Nat.mod_eq_of_lt hlt
  · rw [heq, Nat.mod_self] at hne
    exact absurd rfl hne

/-! ### Exact arithmetic -/

/-- The number of pages of a slab. -/
def slabPages (c : AllocatorConfig) : ℕ := (if c.pagesPerSlab ≠ 0 then c.pagesPerSlab else 8).toNat

/-- The size of the header of a slab with its padding: where the first object is. -/
def headerBytes (c : AllocatorConfig) : ℕ := roundUp sizeofSlab.toNat c.objAlign.toNat

/-- The size of an object with its padding. -/
def paddedBytes (c : AllocatorConfig) : ℕ := roundUp (max c.objSize.toNat minObjSize.toNat) c.objAlign.toNat

/-- The number of objects of a slab. -/
def objectCount (c : AllocatorConfig) : ℕ := (slabPages c * 2 ^ 12 - headerBytes c) / paddedBytes c

theorem toNat_slabSize (c : AllocatorConfig) : (tssSlabConfigInit c).val.slabSize.toNat = slabPages c * 2 ^ 12 := by
  show ((if c.pagesPerSlab ≠ 0 then c.pagesPerSlab else 8).toUInt64 * tssPageSize).toNat = _
  have hp := (if c.pagesPerSlab ≠ 0 then c.pagesPerSlab else 8).toNat_lt
  rw [UInt64.toNat_mul, UInt32.toNat_toUInt64, show tssPageSize.toNat = 2 ^ 12 from rfl]
  exact Nat.mod_eq_of_lt (by omega)

theorem slabPages_pos (c : AllocatorConfig) : 0 < slabPages c := by
  rw [slabPages]
  split
  · next h => exact Nat.pos_of_ne_zero fun e => h (UInt32.toNat_inj.mp e)
  · decide

/-- The size of a slab. -/
theorem slabSize_eq (c : AllocatorConfig) (hpages : c.pagesPerSlab = 0 ∨ IsTwoPow c.pagesPerSlab.toNat) :
    ∃ k, 12 ≤ k ∧ k < 44 ∧ (tssSlabConfigInit c).val.slabSize.toNat = 2 ^ k := by
  rw [toNat_slabSize, slabPages]
  by_cases h0 : c.pagesPerSlab = 0
  · exact ⟨15, by decide, by decide, by simp [h0]⟩
  · obtain ⟨k, hk⟩ := hpages.resolve_left h0
    have hp := c.pagesPerSlab.toNat_lt
    rw [hk] at hp
    have hk32 : k < 32 := (Nat.pow_lt_pow_iff_right Nat.one_lt_two).mp hp
    refine ⟨k + 12, by omega, by omega, ?_⟩
    rw [if_pos h0, hk, Nat.pow_add]

/-- The assertions of `tss_slab_config_init`, but for that on the threshold. -/
theorem of_tssSlabConfigInit_ok {c : AllocatorConfig} (hok : (tssSlabConfigInit c).ok = true) :
    0 < c.objAlign ∧ (tssSlabConfigInit c).val.slabOffset % c.objAlign = 0 ∧
      ((tssSlabConfigInit c).val.slabSize - (tssSlabConfigInit c).val.slabOffset) % c.objAlign = 0 ∧
      0 < (tssSlabConfigInit c).val.objPerSlab := by
  have hall := hok
  simp only [tssSlabConfigInit, Checked.ok_bind, Checked.ok_assert, Checked.ok_pure, Bool.and_true, Bool.and_eq_true,
    beq_iff_eq, decide_eq_true_eq] at hall
  exact ⟨hall.1, hall.2.1, hall.2.2.1, hall.2.2.2.1⟩

/-- The header, rounded up, is in the slab if what is left after it is a multiple of the
alignment: this also holds if the subtraction has wrapped. -/
theorem slabOffset_le {a size : UInt64} (ha : IsTwoPow a.toNat) (hsize : sizeofSlab.toNat ≤ size.toNat)
    (h : (size - ((sizeofSlab + a - 1) &&& ~~~(a - 1))) % a = 0) :
    ((sizeofSlab + a - 1) &&& ~~~(a - 1)).toNat = roundUp sizeofSlab.toNat a.toNat ∧
      roundUp sizeofSlab.toNat a.toNat ≤ size.toNat := by
  obtain ⟨k, hk⟩ := ha
  have hpos : 0 < a.toNat := hk ▸ Nat.two_pow_pos k
  have hk64 : k < 64 := exponent_lt hk
  have hdvd : a.toNat ∣ 2 ^ 64 := toNat_dvd_size hk
  have hle64 : roundUp sizeofSlab.toNat a.toNat < 2 ^ 64 := by
    -- the next multiple of the alignment is 32, 64, ... or the alignment itself
    have hle : roundUp sizeofSlab.toNat a.toNat ≤ 2 ^ 63 := by
      refine roundUp_le_of_dvd hpos (hk ▸ Nat.pow_dvd_pow 2 (by omega)) (by decide)
    omega
  have hval : ((sizeofSlab + a - 1) &&& ~~~(a - 1)).toNat = roundUp sizeofSlab.toNat a.toNat := by
    rw [toNat_roundUp (Nat.mod_eq_of_lt sizeofSlab.toNat_lt).symm hk, Nat.mod_eq_of_lt hle64]
  have hsub : a.toNat ∣ size.toNat := by
    have hmod := congrArg UInt64.toNat h
    rw [UInt64.toNat_mod, UInt64.toNat_sub, hval, Nat.mod_mod_of_dvd _ hdvd] at hmod
    have hd : a.toNat ∣ 2 ^ 64 - roundUp sizeofSlab.toNat a.toNat + size.toNat := Nat.dvd_of_mod_eq_zero hmod
    exact (Nat.dvd_add_right (Nat.dvd_sub hdvd (dvd_roundUp ..))).mp hd
  exact ⟨hval, roundUp_le_of_dvd hpos hsub hsize⟩

/-- A configuration computes what it should. -/
structure Exact (c : AllocatorConfig) : Prop where
  offset : (tssSlabConfigInit c).val.slabOffset.toNat = headerBytes c
  padded : (tssSlabConfigInit c).val.paddedObjSize.toNat = paddedBytes c
  perSlab : (tssSlabConfigInit c).val.objPerSlab.toNat = objectCount c
  perSlab_pos : 0 < objectCount c
  fits : headerBytes c + objectCount c * paddedBytes c ≤ slabPages c * 2 ^ 12

/-- **The assertions rule out all that can wrap.** -/
theorem exact_of_ok {c : AllocatorConfig} (ha : IsTwoPow c.objAlign.toNat) (hok : (tssSlabConfigInit c).ok = true) :
    Exact c := by
  obtain ⟨-, -, hmod, hper⟩ := of_tssSlabConfigInit_ok hok
  have hsize := toNat_slabSize c
  have hpages := slabPages_pos c
  set conf := (tssSlabConfigInit c).val with hconf
  have h32 : sizeofSlab.toNat ≤ conf.slabSize.toNat := by
    rw [hsize, show sizeofSlab.toNat = 32 from rfl]
    omega
  obtain ⟨hoffset, hle⟩ : conf.slabOffset.toNat = headerBytes c ∧ headerBytes c ≤ conf.slabSize.toNat :=
    slabOffset_le ha h32 hmod
  have hdiv : conf.objPerSlab.toNat = (conf.slabSize.toNat - headerBytes c) / conf.paddedObjSize.toNat := by
    show ((conf.slabSize - conf.slabOffset) / conf.paddedObjSize).toNat = _
    have hle' : conf.slabOffset ≤ conf.slabSize := by
      rw [UInt64.le_iff_toNat_le, hoffset]
      exact hle
    rw [UInt64.toNat_div, UInt64.toNat_sub_of_le _ _ hle', hoffset]
  have hper' : 0 < conf.objPerSlab.toNat := hper
  have hne : conf.paddedObjSize ≠ 0 := by
    intro e
    rw [hdiv, e] at hper'
    simp at hper'
  have hpadded : conf.paddedObjSize.toNat = paddedBytes c := by
    rw [paddedBytes, ← toNat_ite_gt]
    exact toNat_roundUp_of_ne_zero ha hne
  rw [hsize, hpadded] at hdiv
  rw [hsize] at hle
  refine ⟨hoffset, hpadded, hdiv, ?_, ?_⟩
  · rw [objectCount, ← hdiv]
    exact hper'
  · have hmul : objectCount c * paddedBytes c ≤ slabPages c * 2 ^ 12 - headerBytes c := Nat.div_mul_le_self ..
    omega

/-- **The assertions are enough.** -/
theorem tssSlabConfigInit_good {c : AllocatorConfig} (ha : IsTwoPow c.objAlign.toNat)
    (hpages : c.pagesPerSlab = 0 ∨ IsTwoPow c.pagesPerSlab.toNat) (hok : (tssSlabConfigInit c).ok = true) :
    (tssSlabConfigInit c).val.Good := by
  have hexact := exact_of_ok ha hok
  have hpos : 0 < c.objAlign.toNat := (of_tssSlabConfigInit_ok hok).1
  refine ⟨slabSize_eq c hpages, ?_, ?_, ?_, ?_⟩
  · rw [hexact.offset]
    exact le_roundUp hpos
  · rw [hexact.padded]
    exact (Nat.le_max_right ..).trans (le_roundUp hpos)
  · rw [hexact.offset, hexact.perSlab, hexact.padded, toNat_slabSize]
    exact hexact.fits
  · rw [hexact.perSlab]
    exact hexact.perSlab_pos

/-! ### Objects -/

/-- A slab can be at this address. -/
structure IsSlabAddr (conf : SlabConfig) (S : Addr) : Prop where
  dvd : conf.slabSize.toNat ∣ S.toNat
  ne_null : S ≠ NULL

/-- The objects of the slab at an address. -/
def objects (conf : SlabConfig) (S : Addr) : List Addr := (List.range conf.objPerSlab.toNat).map (objAt conf S)

@[simp] theorem length_objects (conf : SlabConfig) (S : Addr) : (objects conf S).length = conf.objPerSlab.toNat := by
  simp [objects]

theorem mem_objects : x ∈ objects conf S ↔ ∃ i < conf.objPerSlab.toNat, objAt conf S i = x := by simp [objects]

theorem SlabConfig.Good.size_dvd (h : conf.Good) : conf.slabSize.toNat ∣ 2 ^ 64 := by
  obtain ⟨k, -, hk, hsize⟩ := h.size
  rw [hsize]
  exact Nat.pow_dvd_pow 2 (by omega)

theorem SlabConfig.Good.size_pos (h : conf.Good) : 0 < conf.slabSize.toNat :=
  Nat.pos_of_dvd_of_pos h.size_dvd (by decide)

/-- A slab ends where the address space does or before. -/
theorem SlabConfig.Good.slab_le (h : conf.Good) (hS : IsSlabAddr conf S) : S.toNat + conf.slabSize.toNat ≤ 2 ^ 64 := by
  obtain ⟨c, hc⟩ := hS.dvd
  obtain ⟨d, hd⟩ := h.size_dvd
  have hlt := S.toNat_lt
  rw [hc, hd] at hlt
  have hcd : c < d := Nat.lt_of_mul_lt_mul_left hlt
  rw [hc, hd, ← Nat.mul_succ]
  exact Nat.mul_le_mul_left _ hcd

/-- An object is in its slab. -/
theorem SlabConfig.Good.toNat_objAt (h : conf.Good) (hS : IsSlabAddr conf S) (hi : i < conf.objPerSlab.toNat) :
    (objAt conf S i).toNat = S.toNat + conf.slabOffset.toNat + i * conf.paddedObjSize.toNat ∧
      conf.slabOffset.toNat + (i + 1) * conf.paddedObjSize.toNat ≤ conf.slabSize.toNat := by
  have hle : (i + 1) * conf.paddedObjSize.toNat ≤ conf.objPerSlab.toNat * conf.paddedObjSize.toNat :=
    Nat.mul_le_mul_right _ hi
  have hfits := h.fits
  have hend := h.slab_le hS
  have hpad : 8 ≤ conf.paddedObjSize.toNat := h.padded_ge
  have hi64 : i < 2 ^ 64 := hi.trans conf.objPerSlab.toNat_lt
  refine ⟨?_, by omega⟩
  rw [Nat.add_mul, Nat.one_mul] at hle
  rw [objAt, UInt64.toNat_add, UInt64.toNat_add, UInt64.toNat_mul, UInt64.toNat_ofNat_of_lt' hi64]
  omega

theorem objAt_ne_null (h : conf.Good) (hS : IsSlabAddr conf S) (hi : i < conf.objPerSlab.toNat) :
    objAt conf S i ≠ NULL := by
  have hval := (h.toNat_objAt hS hi).1
  have hoff : 32 ≤ conf.slabOffset.toNat := h.offset_ge
  intro e
  rw [e, show (NULL : Addr).toNat = 0 from rfl] at hval
  omega

/-- **The slab of an object** is found by clearing bits. -/
theorem tssAllocatorFindSlab_eq (h : conf.Good) (hS : IsSlabAddr conf S) (hx : x ∈ objects conf S) :
    tssAllocatorFindSlab conf x = S := by
  obtain ⟨i, hi, rfl⟩ := mem_objects.mp hx
  obtain ⟨k, -, -, hsize⟩ := h.size
  obtain ⟨hval, hin⟩ := h.toNat_objAt hS hi
  have hpad : 8 ≤ conf.paddedObjSize.toNat := h.padded_ge
  rw [Nat.add_mul, Nat.one_mul] at hin
  exact and_not_pred_eq ⟨k, hsize⟩ hS.dvd (by omega) (by omega)

/-- Different slabs have different objects. -/
theorem eq_of_mem_objects (h : conf.Good) (hS : IsSlabAddr conf S) (hT : IsSlabAddr conf T) (hx : x ∈ objects conf S)
    (hx' : x ∈ objects conf T) : S = T := by
  rw [← tssAllocatorFindSlab_eq h hS hx, tssAllocatorFindSlab_eq h hT hx']

theorem ne_null_of_mem_objects (h : conf.Good) (hS : IsSlabAddr conf S) (hx : x ∈ objects conf S) : x ≠ NULL := by
  obtain ⟨i, hi, rfl⟩ := mem_objects.mp hx
  exact objAt_ne_null h hS hi

theorem objAt_inj (h : conf.Good) (hS : IsSlabAddr conf S) (hi : i < conf.objPerSlab.toNat)
    (hj : j < conf.objPerSlab.toNat) (e : objAt conf S i = objAt conf S j) : i = j := by
  have hpad : 8 ≤ conf.paddedObjSize.toNat := h.padded_ge
  have hval := (h.toNat_objAt hS hi).1
  rw [e, (h.toNat_objAt hS hj).1] at hval
  have hmul : j * conf.paddedObjSize.toNat = i * conf.paddedObjSize.toNat := by omega
  exact (Nat.eq_of_mul_eq_mul_right (by omega) hmul).symm

theorem nodup_objects (h : conf.Good) (hS : IsSlabAddr conf S) : (objects conf S).Nodup := by
  refine List.Nodup.map_on (fun i hi j hj e => ?_) List.nodup_range
  exact objAt_inj h hS (List.mem_range.mp hi) (List.mem_range.mp hj) e

/-- The number of slabs, and of objects, that there is room for. -/
theorem SlabConfig.Good.length_mul_lt (h : conf.Good) {slabs : List Addr} (hnd : slabs.Nodup)
    (hs : ∀ S ∈ slabs, IsSlabAddr conf S) : slabs.length * conf.objPerSlab.toNat < 2 ^ 64 := by
  obtain ⟨d, hd⟩ := h.size_dvd
  have hpos := h.size_pos
  have hnum : (slabs.map fun S => S.toNat / conf.slabSize.toNat) ⊆ List.range d := by
    intro n hn
    obtain ⟨S, -, rfl⟩ := List.mem_map.mp hn
    rw [List.mem_range, Nat.div_lt_iff_lt_mul hpos, Nat.mul_comm d, ← hd]
    exact S.toNat_lt
  have hnodup : (slabs.map fun S => S.toNat / conf.slabSize.toNat).Nodup := by
    refine List.Nodup.map_on (fun S hS T hT e => UInt64.toNat_inj.mp ?_) hnd
    rw [← Nat.div_mul_cancel (hs S hS).dvd, e, Nat.div_mul_cancel (hs T hT).dvd]
  have hlen : slabs.length ≤ d := by simpa using (hnodup.subperm hnum).length_le
  have hper : conf.objPerSlab.toNat < conf.slabSize.toNat := by
    have hfits := h.fits
    have hpad : 8 ≤ conf.paddedObjSize.toNat := h.padded_ge
    have hmul : conf.objPerSlab.toNat * 8 ≤ conf.objPerSlab.toNat * conf.paddedObjSize.toNat :=
      Nat.mul_le_mul_left _ hpad
    have := h.perSlab_pos
    omega
  have hdpos : 0 < d := Nat.pos_of_ne_zero fun e => by simp [e] at hd
  calc slabs.length * conf.objPerSlab.toNat ≤ d * conf.objPerSlab.toNat := Nat.mul_le_mul_right _ hlen
    _ < d * conf.slabSize.toNat := Nat.mul_lt_mul_of_pos_left hper hdpos
    _ = 2 ^ 64 := by rw [hd, Nat.mul_comm]

end FileSync.ThreadSafeSlab
