import FileSync.LruCache.Code

/-!
# Promoting a slot

`lru_promote` byte by byte: the slot is kept, the bytes before it are moved up by one slot,
over each other, and the slot is put in front. Nothing else is written to, for any size of the
objects and any block that does not go past the end of the address space.
-/

namespace FileSync.LruCache

open FileSync.Lib FileSync.MemoryBlock

variable {Key Ctx σ : Type} {s : State Key Ctx σ} {index : UInt64} {k : ℕ}

/-- The block does not go past the end of the address space. -/
def InSpace (mb : Mb) : Prop := mb.basePtr.toNat + mb.capacity.toNat * mb.objSize.toNat ≤ 2 ^ 64

/-- The slots up to the one that is promoted are in the address space. -/
theorem InSpace.length_le (h : InSpace s.lru.mb) (hi : index < s.lru.mb.capacity) :
    s.lru.mb.basePtr.toNat + (index.toNat * s.lru.mb.objSize.toNat + s.lru.mb.objSize.toNat) ≤ 2 ^ 64 := by
  have hle : (index.toNat + 1) * s.lru.mb.objSize.toNat ≤ s.lru.mb.capacity.toNat * s.lru.mb.objSize.toNat :=
    Nat.mul_le_mul_right _ (UInt64.lt_iff_toNat_lt.mp hi)
  have hfits : s.lru.mb.basePtr.toNat + s.lru.mb.capacity.toNat * s.lru.mb.objSize.toNat ≤ 2 ^ 64 := h
  rw [Nat.add_mul, Nat.one_mul] at hle
  omega

/-! ### Bytes -/

/-- The memory after `lru_promote`. -/
theorem mem_lruPromote (h : InSpace s.lru.mb) (hi : index < s.lru.mb.capacity) :
    (lruPromote s index).mem =
      store (store s.mem (s.lru.mb.basePtr + s.lru.mb.objSize)
          (load s.mem s.lru.mb.basePtr (index.toNat * s.lru.mb.objSize.toNat)))
        s.lru.mb.basePtr (jfsMbRead s.mem s.lru.mb index) := by
  have hlen : (s.lru.mb.objSize * index).toNat = index.toNat * s.lru.mb.objSize.toNat := by
    have hle := h.length_le hi
    have hlt := s.lru.mb.objSize.toNat_lt
    rw [UInt64.toNat_mul, Nat.mul_comm]
    refine Nat.mod_eq_of_lt ?_
    rcases Nat.eq_zero_or_pos s.lru.mb.objSize.toNat with h0 | hpos
    · rw [h0, Nat.mul_zero]
      decide
    · omega
  have hfirst : jfsMbIndex s.lru.mb 0 = s.lru.mb.basePtr := by rw [jfsMbIndex, UInt64.zero_mul, UInt64.add_zero]
  have hsecond : jfsMbIndex s.lru.mb 1 = s.lru.mb.basePtr + s.lru.mb.objSize := by rw [jfsMbIndex, UInt64.one_mul]
  have htemp : (jfsMbRead s.mem s.lru.mb index).take s.lru.mb.objSize.toNat = jfsMbRead s.mem s.lru.mb index :=
    List.take_of_length_le (by simp)
  rw [lruPromote, jfsMbWrite, jfsMbRemap, memmove, hlen, hfirst, hsecond, htemp]

/-- A byte of the new first slot. -/
theorem lruPromote_front (h : InSpace s.lru.mb) (hi : index < s.lru.mb.capacity) (hk : k < s.lru.mb.objSize.toNat) :
    (lruPromote s index).mem (s.lru.mb.basePtr + UInt64.ofNat k) =
      s.mem (jfsMbIndex s.lru.mb index + UInt64.ofNat k) := by
  rw [mem_lruPromote h hi, store_add (by simpa using hk) (lt_trans hk (UInt64.toNat_lt _))]
  simp [jfsMbRead, load]

/-- A byte of a slot that is moved. -/
theorem lruPromote_moved (h : InSpace s.lru.mb) (hi : index < s.lru.mb.capacity)
    (hk : k < index.toNat * s.lru.mb.objSize.toNat) :
    (lruPromote s index).mem (s.lru.mb.basePtr + UInt64.ofNat (s.lru.mb.objSize.toNat + k)) =
      s.mem (s.lru.mb.basePtr + UInt64.ofNat k) := by
  have hle := h.length_le hi
  have hk64 : s.lru.mb.objSize.toNat + k < 2 ^ 64 := by omega
  have hout : (jfsMbRead s.mem s.lru.mb index).length ≤
      (s.lru.mb.basePtr + UInt64.ofNat (s.lru.mb.objSize.toNat + k) - s.lru.mb.basePtr).toNat := by
    rw [length_jfsMbRead, UInt64.add_comm, UInt64.add_sub_cancel, UInt64.toNat_ofNat_of_lt' hk64]
    exact Nat.le_add_right ..
  rw [mem_lruPromote h hi, store_of_length_le hout, UInt64.ofNat_add, UInt64.ofNat_toNat, ← UInt64.add_assoc,
    store_add (by simpa using hk) (by omega)]
  simp [load]

/-- A byte that is not in the slots up to the one that is promoted. -/
theorem lruPromote_frame {a : UInt64} (h : InSpace s.lru.mb) (hi : index < s.lru.mb.capacity)
    (ha : a.toNat < s.lru.mb.basePtr.toNat ∨
      s.lru.mb.basePtr.toNat + (index.toNat * s.lru.mb.objSize.toNat + s.lru.mb.objSize.toNat) ≤ a.toNat) :
    (lruPromote s index).mem a = s.mem a := by
  have hle := h.length_le hi
  have hoff : index.toNat * s.lru.mb.objSize.toNat + s.lru.mb.objSize.toNat ≤ (a - s.lru.mb.basePtr).toNat := by
    have hlt := a.toNat_lt
    have hlt' := s.lru.mb.basePtr.toNat_lt
    rw [UInt64.toNat_sub]
    omega
  have hsize : s.lru.mb.objSize ≤ a - s.lru.mb.basePtr := by
    rw [UInt64.le_iff_toNat_le]
    omega
  rw [mem_lruPromote h hi, store_of_length_le, store_of_length_le]
  · rw [length_load, sub_add_eq_sub_sub, UInt64.toNat_sub_of_le _ _ hsize]
    omega
  · rw [length_jfsMbRead]
    omega

/-! ### Slots -/

/-- The slot becomes slot 0. -/
theorem jfsMbRead_lruPromote_zero (h : InSpace s.lru.mb) (hi : index < s.lru.mb.capacity) :
    jfsMbRead (lruPromote s index).mem s.lru.mb 0 = jfsMbRead s.mem s.lru.mb index := by
  refine List.map_congr_left fun k hk => ?_
  rw [jfsMbIndex, UInt64.zero_mul, UInt64.add_zero, lruPromote_front h hi (List.mem_range.mp hk)]

/-- Each slot before it moves up by one. -/
theorem jfsMbRead_lruPromote_succ {j : UInt64} (h : InSpace s.lru.mb) (hi : index < s.lru.mb.capacity)
    (hj : j < index) :
    jfsMbRead (lruPromote s index).mem s.lru.mb (j + 1) = jfsMbRead s.mem s.lru.mb j := by
  refine List.map_congr_left fun k hk => ?_
  rw [List.mem_range] at hk
  have hle : (j.toNat + 1) * s.lru.mb.objSize.toNat ≤ index.toNat * s.lru.mb.objSize.toNat :=
    Nat.mul_le_mul_right _ (UInt64.lt_iff_toNat_lt.mp hj)
  rw [Nat.add_mul, Nat.one_mul] at hle
  have hfrom : jfsMbIndex s.lru.mb j + UInt64.ofNat k =
      s.lru.mb.basePtr + UInt64.ofNat (j.toNat * s.lru.mb.objSize.toNat + k) := by
    rw [jfsMbIndex, UInt64.ofNat_add, UInt64.ofNat_mul, UInt64.ofNat_toNat, UInt64.ofNat_toNat, UInt64.add_assoc]
  have hto : jfsMbIndex s.lru.mb (j + 1) + UInt64.ofNat k =
      s.lru.mb.basePtr + UInt64.ofNat (s.lru.mb.objSize.toNat + (j.toNat * s.lru.mb.objSize.toNat + k)) := by
    rw [UInt64.ofNat_add, UInt64.ofNat_add, UInt64.ofNat_mul, UInt64.ofNat_toNat, UInt64.ofNat_toNat, jfsMbIndex,
      UInt64.add_mul, UInt64.one_mul, UInt64.add_assoc, UInt64.add_comm (j * _), UInt64.add_assoc]
  rw [hfrom, hto, lruPromote_moved h hi (by omega)]

/-- The slots after it stay. -/
theorem jfsMbRead_lruPromote_of_gt {j : UInt64} (h : InSpace s.lru.mb) (hi : index < s.lru.mb.capacity)
    (hj : index < j) (hjc : j < s.lru.mb.capacity) :
    jfsMbRead (lruPromote s index).mem s.lru.mb j = jfsMbRead s.mem s.lru.mb j := by
  refine List.map_congr_left fun k hk => lruPromote_frame h hi (.inr ?_)
  rw [List.mem_range] at hk
  have hfits : s.lru.mb.basePtr.toNat + s.lru.mb.capacity.toNat * s.lru.mb.objSize.toNat ≤ 2 ^ 64 := h
  have hle : (index.toNat + 1) * s.lru.mb.objSize.toNat ≤ j.toNat * s.lru.mb.objSize.toNat :=
    Nat.mul_le_mul_right _ (UInt64.lt_iff_toNat_lt.mp hj)
  have hend : (j.toNat + 1) * s.lru.mb.objSize.toNat ≤ s.lru.mb.capacity.toNat * s.lru.mb.objSize.toNat :=
    Nat.mul_le_mul_right _ (UInt64.lt_iff_toNat_lt.mp hjc)
  rw [Nat.add_mul, Nat.one_mul] at hle hend
  rw [jfsMbIndex, UInt64.toNat_add, UInt64.toNat_add, UInt64.toNat_mul,
    UInt64.toNat_ofNat_of_lt' (lt_trans hk (UInt64.toNat_lt _))]
  omega

/-- **`lru_promote` rotates**: the slot becomes slot 0, each slot before it moves up by one, and
no other byte changes. -/
theorem lruPromote_rotates (h : InSpace s.lru.mb) (hi : index < s.lru.mb.capacity) :
    jfsMbRead (lruPromote s index).mem s.lru.mb 0 = jfsMbRead s.mem s.lru.mb index ∧
      (∀ j < index, jfsMbRead (lruPromote s index).mem s.lru.mb (j + 1) = jfsMbRead s.mem s.lru.mb j) ∧
      ∀ a : UInt64, a.toNat < s.lru.mb.basePtr.toNat ∨
        s.lru.mb.basePtr.toNat + (index.toNat + 1) * s.lru.mb.objSize.toNat ≤ a.toNat →
          (lruPromote s index).mem a = s.mem a := by
  refine ⟨jfsMbRead_lruPromote_zero h hi, fun j hj => jfsMbRead_lruPromote_succ h hi hj, fun a ha => ?_⟩
  rw [Nat.add_mul, Nat.one_mul] at ha
  exact lruPromote_frame h hi ha

/-- Three slots of two bytes. Each byte is the low byte of its address. -/
def threeSlots : State Unit Unit Unit where
  lru := { mb := { basePtr := 4096, objSize := 2, capacity := 3 }
           count := 3
           fn := { cmp := fun _ _ => 1
                   hit := ⟨fun _ x w => (x, w), fun _ _ _ => rfl⟩
                   miss := ⟨fun _ x w => (x, w), fun _ _ _ => rfl⟩
                   evict := ⟨fun _ x w => (x, w), fun _ _ _ => rfl⟩ }
           evictCtx := () }
  mem := UInt64.toUInt8
  user := ()
  calls := []

/-- The last of three slots is promoted. -/
theorem lruPromote_rotates_three :
    jfsMbRead (lruPromote threeSlots 2).mem threeSlots.lru.mb 0 = [4, 5] ∧
      jfsMbRead (lruPromote threeSlots 2).mem threeSlots.lru.mb 2 = [2, 3] := by
  have hspace : InSpace threeSlots.lru.mb := by
    unfold InSpace
    decide
  obtain ⟨hfront, hmoved, -⟩ := lruPromote_rotates hspace (show 2 < threeSlots.lru.mb.capacity by decide)
  exact ⟨hfront.trans (by decide), (hmoved 1 (by decide)).trans (by decide)⟩

end FileSync.LruCache
