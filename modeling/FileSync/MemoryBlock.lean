import FileSync.Lib.Bytes
import FileSync.MemoryLayout

/-!
# The memory block

`memory_block.c`: an array of objects of the same size in a component of a memory
layout. The objects are read, written and moved by `memcpy` and `memmove`.

The functions compute addresses modulo 2^64. A component is a piece of memory, so it
does not go past the end of the address space (`Mb.Fits`), and then the objects do not
overlap: `slots` is their contents, and a write is an operation on that list.
-/

namespace FileSync.MemoryBlock

open FileSync.Lib FileSync.MemoryLayout

/-- `jfs_mb_t`. -/
structure Mb where
  /-- The first object. -/
  basePtr : Addr
  /-- The size of an object. -/
  objSize : UInt64
  /-- The number of objects. -/
  capacity : UInt64
  deriving DecidableEq, Repr

/-- `jfs_mb_init`. -/
def jfsMbInit (component : Component) : Except JfsErr Mb :=
  if !jfsMlgValidComponent component then .error .badConf
  else .ok { basePtr := component.ptr, objSize := component.desc.size, capacity := component.desc.count }

/-- `jfs_mb_index`. -/
def jfsMbIndex (mb : Mb) (index : UInt64) : Addr := mb.basePtr + index * mb.objSize

/-- `jfs_mb_write`. -/
def jfsMbWrite (m : Bytes) (mb : Mb) (obj : List UInt8) (index : UInt64) : Bytes :=
  store m (jfsMbIndex mb index) (obj.take mb.objSize.toNat)

/-- `jfs_mb_read`. -/
def jfsMbRead (m : Bytes) (mb : Mb) (index : UInt64) : List UInt8 := load m (jfsMbIndex mb index) mb.objSize.toNat

/-- `jfs_mb_remap`. -/
def jfsMbRemap (m : Bytes) (mb : Mb) (destIndex srcIndex objCount : UInt64) : Bytes :=
  memmove m (jfsMbIndex mb destIndex) (jfsMbIndex mb srcIndex) (mb.objSize * objCount).toNat

/-- The block is a piece of memory: its objects have a size, it is not at `NULL`, and it ends
where the address space does or before. -/
structure Mb.Fits (mb : Mb) : Prop where
  base_pos : 0 < mb.basePtr.toNat
  size_pos : 0 < mb.objSize.toNat
  fits : mb.basePtr.toNat + mb.capacity.toNat * mb.objSize.toNat ≤ 2 ^ 64

/-- The region of a component is a piece of memory. -/
def InMemory (component : Component) : Prop :=
  component.ptr.toNat + component.desc.count.toNat * component.desc.size.toNat ≤ 2 ^ 64

instance : DecidablePred InMemory := fun component =>
  inferInstanceAs (Decidable (component.ptr.toNat + component.desc.count.toNat * component.desc.size.toNat ≤ 2 ^ 64))

/-- The contents of the first `n` objects. -/
def slots (m : Bytes) (mb : Mb) (n : ℕ) : List (List UInt8) :=
  (List.range n).map fun i => jfsMbRead m mb (UInt64.ofNat i)

variable {m : Bytes} {mb : Mb} {n i j : ℕ}

@[simp] theorem length_slots (m : Bytes) (mb : Mb) (n : ℕ) : (slots m mb n).length = n := by simp [slots]

@[simp] theorem getElem_slots {h : i < (slots m mb n).length} :
    (slots m mb n)[i] = jfsMbRead m mb (UInt64.ofNat i) := by simp [slots]

@[simp] theorem length_jfsMbRead (m : Bytes) (mb : Mb) (i : UInt64) :
    (jfsMbRead m mb i).length = mb.objSize.toNat := length_load ..

theorem slots_succ (m : Bytes) (mb : Mb) (n : ℕ) :
    slots m mb (n + 1) = slots m mb n ++ [jfsMbRead m mb (UInt64.ofNat n)] := by
  rw [slots, List.range_succ, List.map_append]
  rfl

/-- The block of a component. -/
theorem jfsMbInit_fits {component : Component} (h : jfsMbInit component = .ok mb) (hc : InMemory component) :
    mb.Fits ∧ mb.capacity = component.desc.count ∧ 0 < mb.capacity.toNat := by
  unfold jfsMbInit at h
  split at h
  · cases h
  · next hvalid =>
    cases h
    simp only [jfsMlgValidComponent, jfsMlgValidDesc, Bool.not_eq_true', Bool.not_eq_false, Bool.and_eq_true,
      decide_eq_true_eq, bne_iff_ne] at hvalid
    obtain ⟨⟨⟨-, hsize⟩, hcount⟩, hptr⟩ := hvalid
    refine ⟨⟨?_, hsize, hc⟩, rfl, hcount⟩
    exact Nat.pos_of_ne_zero fun h0 => hptr (UInt64.toNat_inj.mp h0)

/-! ### Addresses -/

theorem Mb.Fits.toNat_index (h : mb.Fits) (hi : i < mb.capacity.toNat) :
    (jfsMbIndex mb (UInt64.ofNat i)).toNat = mb.basePtr.toNat + i * mb.objSize.toNat := by
  have hle : (i + 1) * mb.objSize.toNat ≤ mb.capacity.toNat * mb.objSize.toNat := Nat.mul_le_mul_right _ hi
  have hfit := h.fits
  have hpos := h.size_pos
  have hi64 : i < 2 ^ 64 := lt_trans hi (UInt64.toNat_lt _)
  rw [Nat.add_mul, Nat.one_mul] at hle
  rw [jfsMbIndex, UInt64.toNat_add, UInt64.toNat_mul, UInt64.toNat_ofNat_of_lt' hi64, Nat.add_mod_mod]
  exact Nat.mod_eq_of_lt (by omega)

/-- An object is in the block. -/
theorem Mb.Fits.index_le (h : mb.Fits) (hi : i < mb.capacity.toNat) :
    (jfsMbIndex mb (UInt64.ofNat i)).toNat + mb.objSize.toNat ≤ 2 ^ 64 := by
  have hle : (i + 1) * mb.objSize.toNat ≤ mb.capacity.toNat * mb.objSize.toNat := Nat.mul_le_mul_right _ hi
  have hfit := h.fits
  rw [Nat.add_mul, Nat.one_mul] at hle
  rw [h.toNat_index hi]
  omega

/-! ### Reading after writing -/

/-- An object is written: the others are not. -/
theorem jfsMbRead_store {bs : List UInt8} (h : mb.Fits) (hi : i < mb.capacity.toNat) (hj : j < mb.capacity.toNat)
    (hbs : bs.length = mb.objSize.toNat) :
    jfsMbRead (store m (jfsMbIndex mb (UInt64.ofNat i)) bs) mb (UInt64.ofNat j) =
      if j = i then bs else jfsMbRead m mb (UInt64.ofNat j) := by
  have hsize : bs.length ≤ 2 ^ 64 := by
    rw [hbs]
    exact (UInt64.toNat_lt _).le
  split
  · next hji =>
    rw [hji, jfsMbRead, ← hbs]
    exact load_store_self hsize
  · next hji =>
    apply load_store_of_disjoint
    · rw [h.toNat_index hi, h.toNat_index hj, hbs]
      rcases Nat.lt_or_gt_of_ne hji with hlt | hlt
      · have hle : (j + 1) * mb.objSize.toNat ≤ i * mb.objSize.toNat := Nat.mul_le_mul_right _ hlt
        rw [Nat.add_mul] at hle
        omega
      · have hle : (i + 1) * mb.objSize.toNat ≤ j * mb.objSize.toNat := Nat.mul_le_mul_right _ hlt
        rw [Nat.add_mul] at hle
        omega
    · rw [hbs]
      exact h.index_le hi
    · exact h.index_le hj

/-- What an update of one object does to the contents. -/
theorem slots_store {bs : List UInt8} (h : mb.Fits) (hi : i < mb.capacity.toNat) (hn : n ≤ mb.capacity.toNat)
    (hbs : bs.length = mb.objSize.toNat) :
    slots (store m (jfsMbIndex mb (UInt64.ofNat i)) bs) mb n = (slots m mb n).set i bs := by
  apply List.ext_getElem
  · simp
  · intro j hj hj'
    rw [length_slots] at hj
    rw [getElem_slots, jfsMbRead_store h hi (by omega) hbs, List.getElem_set, getElem_slots]
    simp only [eq_comm]

end FileSync.MemoryBlock
