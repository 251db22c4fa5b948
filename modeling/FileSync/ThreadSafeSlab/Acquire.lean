import FileSync.ThreadSafeSlab.Pool

/-!
# Taking objects from the pool

`tss_allocator_add_slab` maps a slab, all of whose objects are free, and
`tss_allocator_batch_acquire` adds slabs if its arithmetic says that objects are missing
and then takes what it needs from the active slabs. It fails its assertion exactly if
the active slabs, with those it has added, have too few free objects.
-/

namespace FileSync.ThreadSafeSlab

open FileSync.Lib

variable {conf : SlabConfig} {mmap : Mmap} {m : Mem} {F : Addr → List Addr} {A B : List Addr} {S x : Addr} {b : Batch}

/-- What is relied on of `mmap`: it returns page-aligned memory, and none that is already mapped. -/
structure Mmap.Honest (conf : SlabConfig) (mmap : Mmap) : Prop where
  ne_null : ∀ n mapped raw, mmap n mapped = some raw → raw ≠ NULL
  page : ∀ n mapped raw, mmap n mapped = some raw → tssPageSize.toNat ∣ raw.toNat
  fits : ∀ n mapped raw, mmap n mapped = some raw → raw.toNat + 2 * conf.slabSize.toNat ≤ 2 ^ 64
  disjoint : ∀ n mapped raw, mmap n mapped = some raw → ∀ S ∈ mapped,
    S.toNat + conf.slabSize.toNat ≤ raw.toNat ∨ raw.toNat + 2 * conf.slabSize.toNat ≤ S.toNat

/-! ### A new slab -/

theorem SlabConfig.Good.page_dvd (h : conf.Good) : tssPageSize.toNat ∣ conf.slabSize.toNat := by
  obtain ⟨k, hk, -, hsize⟩ := h.size
  rw [hsize]
  exact Nat.pow_dvd_pow 2 hk

/-- The next multiple of the size of a slab. -/
def alignedAddr (conf : SlabConfig) (raw : Addr) : Addr := (raw + conf.slabSize - 1) &&& ~~~(conf.slabSize - 1)

/-- It is what the model of `tss_aligned_mmap` returns, if the assertions hold. -/
theorem tssAlignedMmap_eq {raw : Addr} (hraw : mmap m.mmaps m.mapped = some raw)
    (hok : (tssAlignedBlock conf raw).ok = true) :
    tssAlignedMmap conf mmap m = (.ok (some (alignedAddr conf raw)),
      { m with mmaps := m.mmaps + 1, mapped := alignedAddr conf raw :: m.mapped }) := by
  simp only [tssAlignedBlock, alignedMmap, Checked.ok_bind, Checked.ok_assert, Bool.and_eq_true] at hok
  obtain ⟨hpos, hpage, haligned, hleading, htrailing, -⟩ := hok
  rw [tssAlignedMmap, assert_bind hpos, Fallible.get_bind, Fallible.modify_bind, hraw]
  dsimp only
  rw [assert_bind hpage, assert_bind haligned, assert_bind hleading, assert_bind htrailing, Fallible.modify_bind]
  rfl

/-- **`tss_aligned_mmap`** fails, or gives a place for a slab where there was none. -/
theorem tssAlignedMmap_spec (hc : conf.Good) (hm : mmap.Honest conf) :
    tssAlignedMmap conf mmap m = (.ok none, { m with mmaps := m.mmaps + 1 }) ∨
      ∃ S, tssAlignedMmap conf mmap m = (.ok (some S), { m with mmaps := m.mmaps + 1, mapped := S :: m.mapped }) ∧
        IsSlabAddr conf S ∧ S ∉ m.mapped := by
  cases hraw : mmap m.mmaps m.mapped with
  | none =>
    left
    rw [tssAlignedMmap, assert_bind (by exact decide_eq_true hc.size_pos), Fallible.get_bind, Fallible.modify_bind, hraw]
    rfl
  | some raw =>
    obtain ⟨k, -, -, hsize⟩ := hc.size
    have hkeeps : KeepsOneSlab tssPageSize conf.slabSize raw (tssAlignedBlock conf raw) fun p =>
        p &&& ~~~(conf.slabSize - 1) :=
      alignedMmap_keeps ⟨k, hsize⟩ hc.page_dvd (hm.page _ _ _ hraw) (hm.fits _ _ _ hraw)
    have hpos := hc.size_pos
    have hge : raw.toNat ≤ (alignedAddr conf raw).toNat := hkeeps.starts
    have hend : (alignedAddr conf raw).toNat + conf.slabSize.toNat ≤ raw.toNat + 2 * conf.slabSize.toNat := hkeeps.ends
    refine .inr ⟨alignedAddr conf raw, tssAlignedMmap_eq hraw hkeeps.ok, ⟨hkeeps.multiple, ?_⟩, fun hmem => ?_⟩
    · intro e
      refine hm.ne_null _ _ _ hraw (UInt64.toNat_inj.mp ?_)
      rw [e] at hge
      exact Nat.le_zero.mp hge
    · rcases hm.disjoint _ _ _ hraw _ hmem with h | h
      · omega
      · omega

/-- The objects with indices below `n`, the last one first. -/
def firstObjects (conf : SlabConfig) (S : Addr) (n : ℕ) : List Addr := ((List.range n).map (objAt conf S)).reverse

theorem firstObjects_succ (conf : SlabConfig) (S : Addr) (n : ℕ) :
    firstObjects conf S (n + 1) = objAt conf S n :: firstObjects conf S n := by
  simp [firstObjects, List.range_succ]

/-- One more object is linked. -/
theorem listAt_firstObjects_succ {i : ℕ} {list : Addr} (hne : objAt conf S i ≠ NULL)
    (hnew : ∀ j < i, objAt conf S j ≠ objAt conf S i) (hl : ListAt m.next NULL list (firstObjects conf S i)) :
    ListAt (Function.update m.next (objAt conf S i) list) NULL (objAt conf S i) (firstObjects conf S (i + 1)) := by
  rw [firstObjects_succ, listAt_cons, Function.update_self]
  refine ⟨rfl, hne, listAt_congr (fun x hx => Function.update_of_ne ?_ ..) hl⟩
  obtain ⟨j, hj, rfl⟩ : ∃ j < i, objAt conf S j = x := by simpa [firstObjects] using hx
  exact hnew j hj

/-- The loop links the objects in front of the list that it has. -/
theorem linkBlock_spec (hc : conf.Good) (hS : IsSlabAddr conf S) {n i : ℕ} {list : Addr}
    (hn : i + n = conf.objPerSlab.toNat) (hl : ListAt m.next NULL list (firstObjects conf S i)) :
    ∃ next' list', linkBlock conf S n i list m = (.ok list', { m with next := next' }) ∧
      ListAt next' NULL list' (objects conf S).reverse ∧ ∀ x, x ∉ objects conf S → next' x = m.next x := by
  induction n generalizing i list m with
  | zero =>
    obtain rfl : i = conf.objPerSlab.toNat := hn
    exact ⟨m.next, list, rfl, hl, fun _ _ => rfl⟩
  | succ n ih =>
    have hi : i < conf.objPerSlab.toNat := by omega
    have hne := objAt_ne_null hc hS hi
    have hl' := listAt_firstObjects_succ hne (fun j hj e => hj.ne (objAt_inj hc hS (hj.trans hi) hi e)) hl
    obtain ⟨next', list', e, hlist, hframe⟩ :=
      ih (m := { m with next := Function.update m.next (objAt conf S i) list }) (by omega) hl'
    rw [linkBlock, setNext_bind hne]
    refine ⟨next', list', e, hlist, fun x hx => (hframe x hx).trans (Function.update_of_ne ?_ ..)⟩
    rintro rfl
    exact hx (mem_objects.mpr ⟨i, hi, rfl⟩)

/-- **`tss_slab_create`**: all objects of the new slab are free. -/
theorem tssSlabCreate_spec (hc : conf.Good) (hm : mmap.Honest conf) :
    tssSlabCreate conf mmap m = (.ok none, { m with mmaps := m.mmaps + 1 }) ∨
      ∃ S next' list, tssSlabCreate conf mmap m = (.ok (some S), { m with
          mmaps := m.mmaps + 1, mapped := S :: m.mapped, next := next',
          slab := Function.update m.slab S
            { usedCount := 0, freeListHead := list, next := NULL, retiredFlag := false } }) ∧
        IsSlabAddr conf S ∧ S ∉ m.mapped ∧ ListAt next' NULL list (objects conf S).reverse ∧
        ∀ x, x ∉ objects conf S → next' x = m.next x := by
  unfold tssSlabCreate
  rcases @tssAlignedMmap_spec conf mmap m hc hm with e | ⟨S, e, hS, hnew⟩
  · left
    rw [Fallible.bind_of_ok e]
    rfl
  · obtain ⟨next', list, elink, hlist, hframe⟩ :=
      @linkBlock_spec conf { m with mmaps := m.mmaps + 1, mapped := S :: m.mapped } S hc hS conf.objPerSlab.toNat 0 NULL
        (Nat.zero_add _) rfl
    have eblock : tssSlabLinkBlock conf S { m with mmaps := m.mmaps + 1, mapped := S :: m.mapped } =
        (.ok list, { m with mmaps := m.mmaps + 1, mapped := S :: m.mapped, next := next' }) := by
      rw [tssSlabLinkBlock, assert_bind (by simpa using hS.ne_null), elink]
    refine .inr ⟨S, next', list, ?_, hS, hnew, hlist, hframe⟩
    rw [Fallible.bind_of_ok e]
    dsimp only
    rw [Fallible.bind_of_ok eblock, setSlab_bind hS.ne_null]
    rfl

/-- The memory with a new slab. -/
def Mem.addSlab (m : Mem) (S : Addr) (next : Addr → Addr) (freeList : Addr) : Mem :=
  { next := next
    slab := Function.update m.slab S
      { usedCount := 0, freeListHead := freeList, next := m.activeListHead, retiredFlag := false }
    mapped := S :: m.mapped
    mmaps := m.mmaps + 1
    activeListHead := S
    activeListCount := m.activeListCount + 1
    usedObjCount := m.usedObjCount }

/-- `tss_allocator_add_slab` runs to its end. -/
theorem tssAllocatorAddSlab_apply (hc : conf.Good) (hm : mmap.Honest conf) :
    tssAllocatorAddSlab conf mmap m = (.ok .sys, { m with mmaps := m.mmaps + 1 }) ∨
      ∃ S next' list, tssAllocatorAddSlab conf mmap m = (.ok .ok, m.addSlab S next' list) ∧ IsSlabAddr conf S ∧
        S ∉ m.mapped ∧ ListAt next' NULL list (objects conf S).reverse ∧
        ∀ x, x ∉ objects conf S → next' x = m.next x := by
  unfold tssAllocatorAddSlab
  rcases @tssSlabCreate_spec conf mmap m hc hm with e | ⟨S, next', list, e, hS, hnew, hlist, hframe⟩
  · left
    rw [Fallible.bind_of_ok e]
    rfl
  · refine .inr ⟨S, next', list, ?_, hS, hnew, hlist, hframe⟩
    rw [Fallible.bind_of_ok e]
    dsimp only
    rw [getSlab_bind hS.ne_null, Fallible.get_bind, setSlab_bind hS.ne_null, Fallible.modify_bind]
    simp only [Function.update_self, Function.update_idem]
    rfl

/-- The free objects of the slabs on a list. -/
def freeCount (F : Addr → List Addr) (A : List Addr) : ℕ := (A.map fun S => (F S).length).sum

theorem freeCount_cons (F : Addr → List Addr) (S : Addr) (A : List Addr) :
    freeCount F (S :: A) = (F S).length + freeCount F A := by
  simp [freeCount]

theorem freeCount_update (hS : S ∉ A) (free : List Addr) : freeCount (Function.update F S free) A = freeCount F A := by
  unfold freeCount
  congr 1
  refine List.map_congr_left fun T hT => ?_
  rw [Function.update_of_ne]
  rintro rfl
  exact hS hT

section AddSlab

variable {next' : Addr → Addr} {list : Addr}

theorem addSlab_slab_self : (m.addSlab S next' list).slab S =
    { usedCount := 0, freeListHead := list, next := m.activeListHead, retiredFlag := false } := Function.update_self ..

theorem addSlab_slab_of_ne {T : Addr} (h : T ≠ S) : (m.addSlab S next' list).slab T = m.slab T :=
  Function.update_of_ne h ..

/-- The pool with a new slab. -/
theorem Pool.addSlab (hc : conf.Good) (h : Pool conf m F A) (hS : IsSlabAddr conf S) (hnew : S ∉ m.mapped)
    (hlist : ListAt next' NULL list (objects conf S).reverse) (hframe : ∀ x, x ∉ objects conf S → next' x = m.next x) :
    Pool conf (m.addSlab S next' list) (Function.update F S (objects conf S).reverse) (S :: A) := by
  have hne : ∀ T ∈ m.mapped, T ≠ S := fun T hT e => hnew (e ▸ hT)
  have hSA : S ∉ A := fun hSA => hnew (h.mapped_of_active hSA)
  refine ⟨List.nodup_cons.mpr ⟨hnew, h.nodup⟩, ?_, ?_, ⟨rfl, hS.ne_null, ?_⟩,
    List.nodup_cons.mpr ⟨hSA, h.active_nodup⟩, fun T => ?_, ?_⟩
  · intro T hT
    rcases List.mem_cons.mp hT with rfl | hT
    · exact hS
    · exact h.addr T hT
  · intro T hT
    rcases List.mem_cons.mp hT with rfl | hT
    · rw [addSlab_slab_self, Function.update_self]
      exact ⟨hlist, List.nodup_reverse.mpr (nodup_objects hc hS), fun x hx => List.mem_reverse.mp hx, by simp⟩
    · rw [addSlab_slab_of_ne (hne T hT), Function.update_of_ne (hne T hT)]
      have hT' := h.slab T hT
      refine ⟨listAt_congr (fun x hx => hframe x fun hx' => ?_) hT'.list, hT'.nodup, hT'.sub, hT'.used⟩
      exact hne T hT (eq_of_mem_objects hc (h.addr T hT) hS (hT'.sub hx) hx')
  · show ListAt _ NULL ((m.addSlab S next' list).slab S).next A
    rw [addSlab_slab_self]
    refine listAt_congr (fun T hT => ?_) h.active
    have hTS : T ≠ S := fun e => hSA (e ▸ hT)
    rw [addSlab_slab_of_ne hTS]
  · by_cases hT : T = S
    · subst hT
      simp [Mem.addSlab]
    · rw [addSlab_slab_of_ne hT, List.mem_cons, or_iff_right hT, h.active_iff]
      exact and_congr_left fun _ => by rw [Mem.addSlab, List.mem_cons, or_iff_right hT]
  · show m.usedObjCount.toNat = ((S :: m.mapped).map fun T => ((m.addSlab S next' list).slab T).usedCount.toNat).sum
    have hmap : (m.mapped.map fun T => ((m.addSlab S next' list).slab T).usedCount.toNat) =
        m.mapped.map fun T => (m.slab T).usedCount.toNat :=
      List.map_congr_left fun T hT => by rw [addSlab_slab_of_ne (hne T hT)]
    rw [List.map_cons, List.sum_cons, addSlab_slab_self, hmap, h.total]
    exact (Nat.zero_add _).symm

/-- No object goes out with a new slab. -/
theorem takesOut_addSlab (hc : conf.Good) (h : Pool conf m F A) (hS : IsSlabAddr conf S) (hnew : S ∉ m.mapped)
    (hframe : ∀ x, x ∉ objects conf S → next' x = m.next x) :
    TakesOut conf B m F (m.addSlab S next' list) (Function.update F S (objects conf S).reverse) [] := by
  have hne : ∀ T ∈ m.mapped, T ≠ S := fun T hT e => hnew (e ▸ hT)
  refine ⟨fun x => ?_, by simp, ?_⟩
  · rw [List.mem_nil_iff, or_false]
    constructor
    · rintro ⟨T, hT, hx, hfree⟩
      rcases List.mem_cons.mp hT with rfl | hT
      · rw [Function.update_self, List.mem_reverse] at hfree
        exact absurd hx hfree
      · rw [Function.update_of_ne (hne T hT)] at hfree
        exact ⟨T, hT, hx, hfree⟩
    · rintro ⟨T, hT, hx, hfree⟩
      refine ⟨T, List.mem_cons_of_mem S hT, hx, ?_⟩
      rwa [Function.update_of_ne (hne T hT)]
  · rintro x ⟨T, hT, hx, -⟩ -
    exact hframe x fun hx' => hne T hT (eq_of_mem_objects hc (h.addr T hT) hS hx hx')

/-- The active slabs can be counted. -/
theorem Pool.active_length_lt (hc : conf.Good) (h : Pool conf m F A) : A.length < 2 ^ 64 := by
  have hle := h.active_length_le
  have hlt := hc.length_mul_lt h.nodup h.addr
  have hmul := Nat.le_mul_of_pos_right m.mapped.length hc.perSlab_pos
  omega

end AddSlab

/-- **`tss_allocator_add_slab`**: the new slab is active, and all its objects are free. -/
theorem tssAllocatorAddSlab_spec (hc : conf.Good) (hm : mmap.Honest conf) (h : Pool conf m F A) :
    ∃ m' F' A', Keeps conf m A m' F' A' ∧ TakesOut conf B m F m' F' [] ∧
      (tssAllocatorAddSlab conf mmap m = (.ok .sys, m') ∨
        tssAllocatorAddSlab conf mmap m = (.ok .ok, m') ∧ freeCount F' A' = freeCount F A + conf.objPerSlab.toNat) := by
  rcases @tssAllocatorAddSlab_apply conf mmap m hc hm with e | ⟨S, next', list, e, hS, hnew, hlist, hframe⟩
  · refine ⟨{ m with mmaps := m.mmaps + 1 }, F, A, ⟨?_, id, id⟩, ⟨fun x => ?_, by simp, fun _ _ _ => rfl⟩, .inl e⟩
    · exact ⟨h.nodup, h.addr, h.slab, h.active, h.active_nodup, h.active_iff, h.total⟩
    · rw [List.mem_nil_iff, or_false]
      exact Iff.rfl
  · have hSA : S ∉ A := fun hSA => hnew (h.mapped_of_active hSA)
    have hpool := h.addSlab hc hS hnew hlist hframe
    refine ⟨_, _, _, ⟨hpool, ?_, ?_⟩, takesOut_addSlab hc h hS hnew hframe, .inr ⟨e, ?_⟩⟩
    · intro hr T hT hflag
      rcases List.mem_cons.mp hT with rfl | hT
      · rw [addSlab_slab_self] at hflag
        cases hflag
      · have hne : T ≠ S := fun e => hnew (e ▸ hT)
        rw [addSlab_slab_of_ne hne] at hflag ⊢
        exact hr T hT hflag
    · intro hcount
      have hlt := hpool.active_length_lt hc
      rw [List.length_cons] at hlt ⊢
      show (m.activeListCount + 1).toNat = A.length + 1
      rw [UInt64.toNat_add, hcount, UInt64.toNat_one, Nat.mod_eq_of_lt hlt]
    · rw [freeCount_cons, Function.update_self, freeCount_update hSA, List.length_reverse, length_objects, Nat.add_comm]

/-- **The first loop of `tss_allocator_batch_acquire`.** -/
theorem addSlabs_spec (hc : conf.Good) (hm : mmap.Honest conf) (h : Pool conf m F A) (n : ℕ) :
    ∃ m' F' A', Keeps conf m A m' F' A' ∧ TakesOut conf B m F m' F' [] ∧
      (addSlabs conf mmap n m = (.ok .sys, m') ∨
        addSlabs conf mmap n m = (.ok .ok, m') ∧
          freeCount F' A' = freeCount F A + n * conf.objPerSlab.toNat) := by
  induction n generalizing m F A with
  | zero => exact ⟨m, F, A, h.keeps, TakesOut.refl .., .inr ⟨rfl, by simp⟩⟩
  | succ n ih =>
    obtain ⟨m₁, F₁, A₁, hk, ht, e | ⟨e, hfree⟩⟩ := @tssAllocatorAddSlab_spec conf mmap m F A B hc hm h
    · refine ⟨m₁, F₁, A₁, hk, ht, .inl ?_⟩
      rw [addSlabs, Fallible.bind_of_ok e]
      rfl
    · obtain ⟨m₂, F₂, A₂, hk₂, ht₂, h₂⟩ := ih hk.pool
      refine ⟨m₂, F₂, A₂, hk.trans hk₂, ht.trans (by simpa using ht₂), ?_⟩
      rw [addSlabs, Fallible.bind_of_ok e, if_neg (by simp)]
      refine h₂.imp_right fun ⟨e₂, hfree₂⟩ => ⟨e₂, ?_⟩
      rw [hfree₂, hfree, Nat.add_mul, Nat.one_mul]
      omega

/-! ### Loading from the slabs -/

/-- The objects that are used, with the free ones of a slab, are fewer than 2^64. -/
theorem Pool.total_add_lt (hc : conf.Good) (h : Pool conf m F A) (hS : S ∈ m.mapped) :
    m.usedObjCount.toNat + (F S).length < 2 ^ 64 := by
  have hsum := sum_map_congr_of_ne h.nodup hS
    (f := fun T => (m.slab T).usedCount.toNat)
    (g := fun T => if T = S then conf.objPerSlab.toNat else (m.slab T).usedCount.toNat)
    fun T hT => if_neg hT
  rw [if_pos rfl, ← h.total] at hsum
  have hle : (m.mapped.map fun T => if T = S then conf.objPerSlab.toNat else (m.slab T).usedCount.toNat).sum ≤
      m.mapped.length * conf.objPerSlab.toNat := by
    refine sum_map_le fun T hT => ?_
    split
    · exact le_rfl
    · exact (h.slab T hT).used_le
  have hlt := hc.length_mul_lt h.nodup h.addr
  have hused := (h.slab S hS).used
  omega

/-- The slab after objects have been loaded from it. -/
def Slab.loaded (slab : Slab) (freeListHead : Addr) (count : UInt32) : Slab :=
  { slab with freeListHead := freeListHead, usedCount := slab.usedCount + count.toUInt64 }

/-- Objects go from a slab to the batch. -/
theorem Pool.load (hc : conf.Good) (h : Pool conf m F A) (hS : S ∈ A)
    (hout : ∀ x ∈ B, Out conf m F x) {next' : Addr → Addr} {b' : Batch} {rest : Addr} {count : UInt32}
    (hl : Loaded m.next b B (F S) next' b' rest count) :
    Keeps conf m A (m.change S next' ((m.slab S).loaded rest count) (m.usedObjCount + count.toUInt64))
        (Function.update F S ((F S).drop (loadCount b B (F S)))) A ∧
      TakesOut conf B m F (m.change S next' ((m.slab S).loaded rest count) (m.usedObjCount + count.toUInt64))
        (Function.update F S ((F S).drop (loadCount b B (F S)))) ((F S).take (loadCount b B (F S))) := by
  obtain ⟨hSm, hflag⟩ := (h.active_iff S).mp hS
  have hok := h.slab S hSm
  have hk : loadCount b B (F S) ≤ (F S).length := Nat.min_le_right ..
  have hcount : count.toUInt64.toNat = loadCount b B (F S) := by rw [UInt32.toNat_toUInt64, hl.count]
  have htotal := h.total_add_lt hc hSm
  have hper := conf.objPerSlab.toNat_lt
  have hused := hok.used
  have hused' : ((m.slab S).usedCount + count.toUInt64).toNat =
      (m.slab S).usedCount.toNat + loadCount b B (F S) := by
    rw [UInt64.toNat_add, hcount, Nat.mod_eq_of_lt (by omega)]
  have htotal' : (m.usedObjCount + count.toUInt64).toNat = m.usedObjCount.toNat + loadCount b B (F S) := by
    rw [UInt64.toNat_add, hcount, Nat.mod_eq_of_lt (by omega)]
  have hBfree : ∀ T ∈ m.mapped, ∀ x ∈ F T, x ∉ B := fun T hT x hx hxB => h.notMem_of_out hc (hout x hxB) hT hx
  have hslabOk : SlabOk conf next' ((m.slab S).loaded rest count) S ((F S).drop (loadCount b B (F S))) := by
    refine ⟨hl.list, hok.nodup.sublist (List.drop_sublist ..), fun x hx => hok.sub (List.mem_of_mem_drop hx), ?_⟩
    rw [List.length_drop]
    show ((m.slab S).usedCount + count.toUInt64).toNat + _ = _
    omega
  have hframe : ∀ T ∈ m.mapped, T ≠ S → ∀ x ∈ F T, next' x = m.next x := by
    intro T hT hTS x hx
    exact hl.frame x (hBfree T hT x hx) fun hx' => hTS (h.eq_of_mem hc hT hSm hx hx')
  refine ⟨⟨h.change hSm rfl rfl hslabOk hframe ?_, ?_, id⟩, fun x => ?_, fun x hx => ?_, fun x hx hxB => ?_⟩
  · show (m.usedObjCount + count.toUInt64).toNat + _ = _ + ((m.slab S).usedCount + count.toUInt64).toNat
    omega
  · intro hr T hT hTflag
    have hTS : T ≠ S := by
      rintro rfl
      rw [show ((m.change T next' _ _).slab T) = _ from Function.update_self ..] at hTflag
      exact absurd hTflag (by simp [Slab.loaded, hflag])
    rw [show (m.change S next' _ _).slab T = m.slab T from Function.update_of_ne hTS ..] at hTflag ⊢
    exact hr T hT hTflag
  · rw [out_change hc h hSm]
    have hsplit : x ∈ F S ↔ x ∈ (F S).take (loadCount b B (F S)) ∨ x ∈ (F S).drop (loadCount b B (F S)) := by
      rw [← List.mem_append, List.take_append_drop]
    split
    · next hx =>
      have hout' : Out conf m F x ↔ x ∉ F S := by
        refine ⟨fun ho => h.notMem_of_out hc ho hSm, fun hfree => ⟨S, hSm, hx, hfree⟩⟩
      have hdisj : x ∈ (F S).take (loadCount b B (F S)) → x ∉ (F S).drop (loadCount b B (F S)) :=
        fun ht hd => List.disjoint_take_drop hok.nodup le_rfl ht hd
      rw [hout', hsplit]
      tauto
    · next hx =>
      refine ⟨.inl, fun ho => ho.resolve_right fun ht => hx (hok.sub (List.mem_of_mem_take ht))⟩
  · exact fun ho => h.notMem_of_out hc ho hSm (List.mem_of_mem_take hx)
  · exact hl.frame x hxB (h.notMem_of_out hc hx hSm)

/-- **The second loop of `tss_allocator_batch_acquire`**: the slabs `A'` are still to be visited. -/
theorem loadSlabs_spec (hc : conf.Good) (h : Pool conf m F A) {A' : List Addr} {turns : ℕ} {current : Addr}
    (hA' : A' <:+ A) (hcurrent : ListAt (fun S => (m.slab S).next) NULL current A') (hturns : A'.length ≤ turns)
    (hB : Holds m.next b B) (hnd : B.Nodup) (hout : ∀ x ∈ B, Out conf m F x) (hle : B.length ≤ b.targetCount.toNat) :
    ∃ m' F' b' xs, loadSlabs turns current b m = (.ok b', m') ∧ Keeps conf m A m' F' A ∧
      TakesOut conf B m F m' F' xs ∧ Holds m'.next b' (B ++ xs) ∧ (B ++ xs).Nodup ∧
      b'.targetCount = b.targetCount ∧
      (B ++ xs).length = min b.targetCount.toNat (B.length + freeCount F A') := by
  induction A' generalizing m F b B turns current with
  | nil =>
    rw [listAt_nil] at hcurrent
    refine ⟨m, F, b, [], ?_, h.keeps, TakesOut.refl .., by simpa using hB, by simpa using hnd, rfl, ?_⟩
    · rw [loadSlabs.eq_def, if_neg fun hh => hh.2 hcurrent]
      rfl
    · rw [List.append_nil, freeCount, List.map_nil, List.sum_nil, Nat.add_zero, Nat.min_eq_right hle]
  | cons S A' ih =>
    obtain ⟨rfl, hne, hnext⟩ := hcurrent
    have hSA : current ∈ A := hA'.subset (List.mem_cons_self ..)
    have hSA' : current ∉ A' := (List.nodup_cons.mp (h.active_nodup.sublist hA'.sublist)).1
    rw [freeCount_cons]
    by_cases hlt : b.currentCount < b.targetCount
    · -- the slab is loaded from
      have hSm := h.mapped_of_active hSA
      have hok := h.slab current hSm
      have hBF : (B ++ F current).Nodup := by
        refine List.nodup_append.mpr ⟨hnd, hok.nodup, fun x hx y hy e => ?_⟩
        exact h.notMem_of_out hc (hout x hx) hSm (e ▸ hy)
      obtain ⟨next', b', rest, count, eload, hl⟩ := tssBatchLoad_spec hB hok.list hBF hlt
      obtain ⟨hk, ht⟩ := h.load hc hSA hout hl
      obtain ⟨n, rfl⟩ : ∃ n, turns = n + 1 := ⟨turns - 1, by rw [List.length_cons] at hturns; omega⟩
      set k := loadCount b B (F current) with hkdef
      set m₁ := m.change current next' ((m.slab current).loaded rest count) (m.usedObjCount + count.toUInt64) with hm₁
      have hlinks : ∀ T ∈ A', (m₁.slab T).next = (m.slab T).next := by
        intro T hT
        have hTS : T ≠ current := fun e => hSA' (e ▸ hT)
        rw [show m₁.slab T = m.slab T from Function.update_of_ne hTS ..]
      have hBnd : (B ++ (F current).take k).Nodup := hBF.sublist ((List.take_sublist ..).append_left B)
      have hlen : (B ++ (F current).take k).length = min b.targetCount.toNat (B.length + (F current).length) := by
        rw [List.length_append, List.length_take, hkdef, loadCount]
        omega
      obtain ⟨m', F', b'', xs, e, hk', ht', hB', hnd', htar, hlen'⟩ :=
        ih hk.pool ((List.suffix_cons current A').trans hA') (listAt_congr hlinks hnext)
          (Nat.le_of_succ_le_succ hturns) hl.batch hBnd
          (fun x hx => (ht.out x).mpr ((List.mem_append.mp hx).imp_left (hout x)))
          (by rw [hl.target, hlen]; exact Nat.min_le_left ..)
      refine ⟨m', F', b'', (F current).take k ++ xs, ?_, hk.trans hk', ht.trans ht', ?_, ?_, htar.trans hl.target, ?_⟩
      · rw [loadSlabs, if_pos ⟨hlt, hne⟩]
        dsimp only
        rw [getSlab_bind hne, Fallible.bind_of_ok eload]
        dsimp only
        rw [setSlab_bind hne, Fallible.modify_bind]
        exact e
      · rwa [← List.append_assoc]
      · rwa [← List.append_assoc]
      · rw [← List.append_assoc, hlen', hl.target, hlen, freeCount_update hSA']
        omega
    · -- the batch has met its target
      have hge : b.targetCount.toNat ≤ B.length := by
        rw [← hB.count]
        exact Nat.not_lt.mp hlt
      refine ⟨m, F, b, [], ?_, h.keeps, TakesOut.refl .., by simpa using hB, by simpa using hnd, rfl, ?_⟩
      · rw [loadSlabs.eq_def, if_neg fun hh => hlt hh.1]
        rfl
      · rw [List.append_nil]
        omega

/-! ### Acquiring a batch -/

/-- The objects of the slabs that `tss_allocator_batch_acquire` adds. -/
def addedCount (conf : SlabConfig) (m : Mem) (targetCount : UInt32) : ℕ :=
  if objRemaining conf m < targetCount.toUInt64 then
    ((targetCount.toUInt64 - objRemaining conf m) / conf.objPerSlab + 1).toNat * conf.objPerSlab.toNat
  else 0

theorem makeRoom_spec (hc : conf.Good) (hm : mmap.Honest conf) (h : Pool conf m F A) (targetCount : UInt32) :
    ∃ m' F' A', Keeps conf m A m' F' A' ∧ TakesOut conf B m F m' F' [] ∧
      (makeRoom conf mmap targetCount m = (.ok .sys, m') ∨
        makeRoom conf mmap targetCount m = (.ok .ok, m') ∧
          freeCount F' A' = freeCount F A + addedCount conf m targetCount) := by
  rw [makeRoom, Fallible.get_bind, addedCount]
  split
  · exact addSlabs_spec hc hm h _
  · exact ⟨m, F, A, h.keeps, TakesOut.refl .., .inr ⟨rfl, rfl⟩⟩

/-- **`tss_allocator_batch_acquire`** reports an error, or loads the batch, or fails its last
assertion if there are too few objects. -/
theorem tssAllocatorBatchAcquire_spec (hc : conf.Good) (hm : mmap.Honest conf) (h : Pool conf m F A)
    {targetCount : UInt32} (htarget : 0 < targetCount) :
    ∃ m' F' A', Keeps conf m A m' F' A' ∧
      ((tssAllocatorBatchAcquire conf mmap (tssBatchInit targetCount) m = (.ok (tssBatchInit targetCount, .sys), m') ∧
          TakesOut conf [] m F m' F' []) ∨
        (targetCount.toNat ≤ freeCount F A + addedCount conf m targetCount ∧
          ∃ b xs, tssAllocatorBatchAcquire conf mmap (tssBatchInit targetCount) m = (.ok (b, .ok), m') ∧
            TakesOut conf [] m F m' F' xs ∧ Holds m'.next b xs ∧ xs.Nodup ∧ b.targetCount = targetCount ∧
            xs.length = targetCount.toNat) ∨
        (freeCount F A + addedCount conf m targetCount < targetCount.toNat ∧
          (tssAllocatorBatchAcquire conf mmap (tssBatchInit targetCount) m).1 = .error .assertion)) := by
  have hrun : tssAllocatorBatchAcquire conf mmap (tssBatchInit targetCount) m = (do
      let err ← makeRoom conf mmap targetCount
      if err ≠ .ok then return (tssBatchInit targetCount, err)
      else do
        let m ← Fallible.get
        let batch ← loadSlabs m.mapped.length m.activeListHead (tssBatchInit targetCount)
        assert (tssBatchMetTarget batch)
        return (batch, .ok) : Code (Batch × JfsErr)) m := by
    rw [tssAllocatorBatchAcquire, assert_bind (by exact decide_eq_true htarget), assert_bind (by rfl),
      assert_bind (by rfl), assert_bind (by rfl)]
    rfl
  obtain ⟨m₁, F₁, A₁, hk₁, ht₁, e₁ | ⟨e₁, hfree⟩⟩ := @makeRoom_spec conf mmap m F A [] hc hm h targetCount
  · refine ⟨m₁, F₁, A₁, hk₁, .inl ⟨?_, ht₁⟩⟩
    rw [hrun, Fallible.bind_of_ok e₁]
    rfl
  · obtain ⟨m₂, F₂, b, xs, e₂, hk₂, ht₂, hb, hnd, htar, hlen⟩ :=
      loadSlabs_spec hc hk₁.pool (List.suffix_refl A₁) hk₁.pool.active hk₁.pool.active_length_le
        (holds_init m₁.next targetCount) List.nodup_nil (by simp) (Nat.zero_le _)
    rw [List.nil_append] at hb hnd hlen
    have hlen' : xs.length = min targetCount.toNat (freeCount F A + addedCount conf m targetCount) := by
      rw [hlen, hfree]
      simp [tssBatchInit]
    have hmet : tssBatchMetTarget b = decide (targetCount.toNat ≤ xs.length) := by
      rw [tssBatchMetTarget, htar, ← hb.count]
      rfl
    have hload : tssAllocatorBatchAcquire conf mmap (tssBatchInit targetCount) m = (do
        assert (tssBatchMetTarget b)
        return (b, .ok) : Code (Batch × JfsErr)) m₂ := by
      rw [hrun, Fallible.bind_of_ok e₁, if_neg (by simp), Fallible.get_bind, Fallible.bind_of_ok e₂]
    refine ⟨m₂, F₂, A₁, hk₁.trans hk₂, .inr ?_⟩
    by_cases henough : targetCount.toNat ≤ freeCount F A + addedCount conf m targetCount
    · rw [Nat.min_eq_left henough] at hlen'
      refine .inl ⟨henough, b, xs, ?_, ht₁.trans ht₂, hb, hnd, htar, hlen'⟩
      rw [hload, assert_bind (by rw [hmet, hlen']; simp)]
      rfl
    · have hlt := Nat.not_le.mp henough
      rw [Nat.min_eq_right hlt.le] at hlen'
      refine .inr ⟨hlt, ?_⟩
      rw [hload, hmet, hlen', decide_eq_false henough]
      rfl

end FileSync.ThreadSafeSlab
