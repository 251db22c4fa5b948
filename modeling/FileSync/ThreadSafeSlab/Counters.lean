import FileSync.ThreadSafeSlab.Safety

/-!
# The counters

Three numbers are kept beside what they count: the number of active slabs, the number of
used objects, from which `tss_allocator_batch_acquire` computes how many objects the
active slabs have left, and the number of objects in a cache. Each of them can be wrong.

`tss_allocator_retire_slabs` does not count the slabs that it unmaps; the number of active
slabs is right in runs where none is unmapped there. The used objects of a retired slab
are subtracted from the objects of the active slabs; the difference is right exactly if
no retired slab is still mapped. `jfs_tss_cache_refresh` does not reset the counter of the
cache that it empties, and fails an assertion on an empty cache.
-/

namespace FileSync.ThreadSafeSlab

open FileSync.Lib

variable {ι : Type} [DecidableEq ι] {conf : Conf} {mmap : Mmap} {s : Sys ι} {F : Addr → List Addr} {A : List Addr}

/-! ### The number of active slabs -/

/-- `active_list_count` is the number of slabs on the active list. -/
def ActiveCounted (m : Mem) : Prop :=
  ∃ A, ListAt (fun S => (m.slab S).next) NULL m.activeListHead A ∧ m.activeListCount.toNat = A.length

/-- **The number of active slabs** is right in runs in which no slab is unmapped while slabs are
retired. -/
theorem activeListCount_eq {c : AllocatorConfig} (hconf : c.Valid) (hm : mmap.Honest (confInit c).val.slab)
    (hs : Reach (confInit c).val mmap RetireGuard s) (_hlock : s.lock = none) : ActiveCounted s.mem := by
  obtain ⟨F, A, O, hinv, hcount⟩ := Reach.induct
    (P := fun s A _ => s.mem.activeListCount.toNat = A.length) hconf.slab hconf.cache hm
    (fun s h => by rw [h.activeListCount]; rfl)
    (fun _ _ _ _ _ _ _ _ hguard hcount hafter => hafter.counted hguard hcount) hs
  exact ⟨A, hinv.pool.active, hcount⟩

/-- The small allocator after one object has been acquired: one slab is mapped, and active. -/
theorem smallUnlocked_one :
    (smallUnlocked 1).mem.mapped = [8192] ∧ (smallUnlocked 1).mem.activeListHead = 8192 ∧
      ((smallUnlocked 1).mem.slab 8192).next = NULL ∧ ((smallUnlocked 1).mem.slab 8192).usedCount = 1 ∧
      ((smallUnlocked 1).mem.slab 8192).retiredFlag = false ∧ (smallUnlocked 1).mem.activeListCount = 1 ∧
      objRemaining (smallConf 1).slab (smallUnlocked 1).mem = 2 := by
  decide +kernel

theorem active_smallUnlocked : ListAt (fun S => ((smallUnlocked 1).mem.slab S).next) NULL
    (smallUnlocked 1).mem.activeListHead [8192] := by
  obtain ⟨-, hhead, hnext, -⟩ := smallUnlocked_one
  exact ⟨hhead, by decide, hnext⟩

/-- One slab, with one used object, is retired. -/
theorem activeListCount_eq_small :
    (smallUnlocked 1).mem.activeListCount = 1 ∧ (smallRetired 1).lock = none ∧ ActiveCounted (smallRetired 1).mem := by
  obtain ⟨-, -, -, hone, -, hcount, -⟩ := smallUnlocked_one
  have hused : RetireGuard (smallUnlocked 1) .explicitRetire := by
    refine ⟨[8192], active_smallUnlocked, fun S hS => ?_⟩
    rw [List.mem_singleton.mp hS, hone]
    decide
  obtain ⟨h, hlock⟩ := reach_smallRetired (.inl rfl) (reach_smallUnlocked (.inl rfl) trivial trivial) hused
  exact ⟨hcount, hlock, activeListCount_eq (smallConfig_valid (.inl rfl)) (honest_mmapAt ..) h hlock⟩

/-- Two slabs are mapped for three objects; the one that is not used is unmapped, and still counted. -/
theorem smallRetired_three :
    (smallRetired 3).mem.activeListHead = 16384 ∧ ((smallRetired 3).mem.slab 16384).next = NULL ∧
      (smallRetired 3).mem.activeListCount = 2 := by
  decide +kernel

theorem not_activeCounted :
    (smallConfig 3).Valid ∧ smallMmap.Honest (smallConf 3).slab ∧
      ¬ ∀ s : Sys Unit, Reach (smallConf 3) smallMmap (fun _ _ => True) s → s.lock = none → ActiveCounted s.mem := by
  have hn : (3 : UInt32) = 1 ∨ (3 : UInt32) = 2 ∨ (3 : UInt32) = 3 := .inr (.inr rfl)
  refine ⟨smallConfig_valid hn, honest_mmapAt .., fun hall => ?_⟩
  have h : Reach (smallConf 3) smallMmap (fun _ _ => True) (smallRetired 3) ∧ (smallRetired 3).lock = none :=
    reach_smallRetired hn (reach_smallUnlocked hn trivial trivial) trivial
  obtain ⟨A, hA, hcount⟩ := hall _ h.1 h.2
  obtain ⟨hhead, hnext, htwo⟩ := smallRetired_three
  have hlist : ListAt (fun S => ((smallRetired 3).mem.slab S).next) NULL (smallRetired 3).mem.activeListHead
      [16384] := ⟨hhead, by decide, hnext⟩
  rw [listAt_unique hA hlist, htwo] at hcount
  exact absurd hcount (by decide)

/-! ### The number of objects that remain -/

/-- What `tss_allocator_batch_acquire` computes does not wrap, and is the number of free objects of
the active slabs. -/
def RemainingExact (conf : SlabConfig) (m : Mem) : Prop :=
  conf.objPerSlab.toNat * m.activeListCount.toNat < 2 ^ 64 ∧
    m.usedObjCount.toNat ≤ conf.objPerSlab.toNat * m.activeListCount.toNat ∧ FreeObjects m (objRemaining conf m).toNat

/-- `tss_allocator_batch_acquire` reports an error, or loads as many objects as it is asked for. -/
def AcquireExact (conf : SlabConfig) (mmap : Mmap) (m : Mem) : Prop :=
  ∀ targetCount : UInt32, 0 < targetCount →
    ∃ b err m', tssAllocatorBatchAcquire conf mmap (tssBatchInit targetCount) m = (.ok (b, err), m') ∧
      (err = .ok → ∃ xs, xs.Nodup ∧ Holds m'.next b xs ∧ xs.length = targetCount.toNat)

section Remaining

variable {conf : SlabConfig} {m : Mem}

/-- The used objects of the slabs that are retired. -/
def retiredUse (m : Mem) : ℕ :=
  ((m.mapped.filter fun S => (m.slab S).retiredFlag).map fun S => (m.slab S).usedCount.toNat).sum

/-- The slabs are active or retired. -/
theorem Pool.perm_active (h : Pool conf m F A) :
    m.mapped.Perm (A ++ m.mapped.filter fun S => (m.slab S).retiredFlag) := by
  have hA : A.Perm (m.mapped.filter fun S => !(m.slab S).retiredFlag) := by
    refine (List.perm_ext_iff_of_nodup h.active_nodup (h.nodup.filter _)).mpr fun S => ?_
    rw [h.active_iff, List.mem_filter, Bool.not_eq_true']
  refine (List.filter_append_perm (fun S => !(m.slab S).retiredFlag) m.mapped).symm.trans ?_
  simp only [Bool.not_not]
  exact hA.symm.append_right _

/-- The objects of the active slabs are used or free. -/
theorem Pool.active_objects (h : Pool conf m F A) :
    (A.map fun S => (m.slab S).usedCount.toNat).sum + freeCount F A = conf.objPerSlab.toNat * A.length := by
  have hall : ∀ S ∈ A, (m.slab S).usedCount.toNat + (F S).length = conf.objPerSlab.toNat :=
    fun S hS => (h.slab S (h.mapped_of_active hS)).used
  clear h
  induction A with
  | nil => rfl
  | cons S A ih =>
    have hS := hall S (List.mem_cons_self ..)
    have hA := ih fun T hT => hall T (List.mem_cons_of_mem S hT)
    rw [List.map_cons, List.sum_cons, freeCount_cons, List.length_cons, Nat.mul_add, Nat.mul_one]
    omega

/-- **Where the count goes wrong**: the objects of the active slabs, without the free ones, and those
of the retired slabs are used. -/
theorem Pool.used_objects (h : Pool conf m F A) :
    m.usedObjCount.toNat + freeCount F A = conf.objPerSlab.toNat * A.length + retiredUse m := by
  have hsum := (h.perm_active.map fun S => (m.slab S).usedCount.toNat).sum_eq
  rw [List.map_append, List.sum_append] at hsum
  have hactive := h.active_objects
  have htotal := h.total
  unfold retiredUse
  omega

theorem Pool.objects_lt (hc : conf.Good) (h : Pool conf m F A) : conf.objPerSlab.toNat * A.length < 2 ^ 64 := by
  have hlt := hc.length_mul_lt h.nodup h.addr
  have hle := Nat.mul_le_mul_left conf.objPerSlab.toNat h.active_length_le
  rw [Nat.mul_comm] at hlt
  omega

theorem retiredUse_eq_zero_iff (hr : RetiredUsed m) :
    retiredUse m = 0 ↔ ∀ S ∈ m.mapped, (m.slab S).retiredFlag = false := by
  constructor
  · intro h0 S hS
    by_contra hflag
    have hret : (m.slab S).retiredFlag = true := by simpa using hflag
    have hmem : (m.slab S).usedCount.toNat ∈
        (m.mapped.filter fun S => (m.slab S).retiredFlag).map fun S => (m.slab S).usedCount.toNat :=
      List.mem_map_of_mem (List.mem_filter.mpr ⟨hS, hret⟩)
    have hzero := List.sum_eq_zero_iff_forall_eq_nat.mp h0 _ hmem
    exact hr S hS hret (UInt64.toNat_inj.mp hzero)
  · intro hall
    have hnil : (m.mapped.filter fun S => (m.slab S).retiredFlag) = [] :=
      List.filter_eq_nil_iff.mpr fun S hS => by simp [hall S hS]
    rw [retiredUse, hnil]
    rfl

/-- The computation, when it does not wrap. -/
theorem toNat_objRemaining (hlt : conf.objPerSlab.toNat * m.activeListCount.toNat < 2 ^ 64)
    (hle : m.usedObjCount.toNat ≤ conf.objPerSlab.toNat * m.activeListCount.toNat) :
    (objRemaining conf m).toNat = conf.objPerSlab.toNat * m.activeListCount.toNat - m.usedObjCount.toNat := by
  have hmul : (conf.objPerSlab * m.activeListCount).toNat = conf.objPerSlab.toNat * m.activeListCount.toNat := by
    rw [UInt64.toNat_mul, Nat.mod_eq_of_lt hlt]
  rw [objRemaining, UInt64.toNat_sub_of_le, hmul]
  rw [UInt64.le_iff_toNat_le, hmul]
  exact hle

theorem remainingExact_iff (hc : conf.Good) (h : Pool conf m F A) (hr : RetiredUsed m)
    (hcount : m.activeListCount.toNat = A.length) :
    RemainingExact conf m ↔ ∀ S ∈ m.mapped, (m.slab S).retiredFlag = false := by
  have hlt := h.objects_lt hc
  have hused := h.used_objects
  rw [← retiredUse_eq_zero_iff hr]
  rw [← hcount] at hlt hused
  constructor
  · rintro ⟨-, hle, hfree⟩
    rw [h.freeObjects_iff, toNat_objRemaining hlt hle] at hfree
    omega
  · intro h0
    have hle : m.usedObjCount.toNat ≤ conf.objPerSlab.toNat * m.activeListCount.toNat := by omega
    refine ⟨hlt, hle, ?_⟩
    rw [h.freeObjects_iff, toNat_objRemaining hlt hle]
    omega

/-- The slabs that are added have the objects that are missing. -/
theorem enough_of_remaining (hc : conf.Good) {targetCount : UInt32} {n : ℕ} (hn : (objRemaining conf m).toNat = n) :
    targetCount.toNat ≤ n + addedCount conf m targetCount := by
  unfold addedCount
  split
  · next hlt =>
    have hlt' : n < targetCount.toNat := by
      rw [← hn, ← UInt32.toNat_toUInt64]
      exact hlt
    have hneeded : (targetCount.toUInt64 - objRemaining conf m).toNat = targetCount.toNat - n := by
      rw [UInt64.toNat_sub_of_le _ _ (UInt64.le_of_lt hlt), UInt32.toNat_toUInt64, hn]
    have h32 := targetCount.toNat_lt
    have hdiv := Nat.div_le_self (targetCount.toNat - n) conf.objPerSlab.toNat
    have hslabs : ((targetCount.toUInt64 - objRemaining conf m) / conf.objPerSlab + 1).toNat =
        (targetCount.toNat - n) / conf.objPerSlab.toNat + 1 := by
      rw [UInt64.toNat_add, UInt64.toNat_div, hneeded, UInt64.toNat_one, Nat.mod_eq_of_lt (by omega)]
    have hmul : targetCount.toNat - n <
        ((targetCount.toNat - n) / conf.objPerSlab.toNat + 1) * conf.objPerSlab.toNat := by
      rw [Nat.mul_comm]
      exact Nat.lt_mul_div_succ _ hc.perSlab_pos
    rw [hslabs]
    omega
  · next hge =>
    have hge' : targetCount.toNat ≤ n := by
      rw [← hn, ← UInt32.toNat_toUInt64]
      exact Nat.le_of_not_lt hge
    omega

theorem acquireExact_of_remaining (hc : conf.Good) (hm : mmap.Honest conf) (h : Pool conf m F A)
    (hfree : FreeObjects m (objRemaining conf m).toNat) : AcquireExact conf mmap m := by
  intro targetCount htarget
  have henough := @enough_of_remaining conf m hc targetCount _ (h.freeObjects_iff.mp hfree)
  obtain ⟨m', F', A', -, ⟨e, -⟩ | ⟨-, b, xs, e, -, hb, hnd, -, hlen⟩ | ⟨hlt, -⟩⟩ :=
    tssAllocatorBatchAcquire_spec hc hm h htarget
  · exact ⟨_, .sys, m', e, fun herr => by cases herr⟩
  · exact ⟨b, .ok, m', e, fun _ => ⟨xs, hnd, hb, hlen⟩⟩
  · omega

end Remaining

/-- **The number of objects that remain** is right, and what is acquired is complete, exactly in the
states in which no retired slab is still mapped. -/
theorem remaining_acquire_exact_iff {c : AllocatorConfig} (hconf : c.Valid) (hm : mmap.Honest (confInit c).val.slab)
    (hs : Reach (confInit c).val mmap (fun _ _ => True) s) (hcount : ActiveCounted s.mem) :
    RemainingExact (confInit c).val.slab s.mem ∧ AcquireExact (confInit c).val.slab mmap s.mem ↔
      ∀ S ∈ s.mem.mapped, (s.mem.slab S).retiredFlag = false := by
  obtain ⟨F, A, O, hinv⟩ := Reach.inv hconf.slab hconf.cache hm hs
  obtain ⟨A', hA', hcount⟩ := hcount
  rw [listAt_unique hA' hinv.pool.active] at hcount
  have hiff := remainingExact_iff hconf.slab hinv.pool hinv.retired hcount
  refine ⟨fun h => hiff.mp h.1, fun h => ?_⟩
  have hexact := hiff.mpr h
  exact ⟨hexact, acquireExact_of_remaining hconf.slab hm hinv.pool hexact.2.2⟩

theorem remaining_acquire_exact_small :
    ActiveCounted (smallUnlocked 1).mem ∧ objRemaining (smallConf 1).slab (smallUnlocked 1).mem = 2 ∧
      RemainingExact (smallConf 1).slab (smallUnlocked 1).mem ∧
      AcquireExact (smallConf 1).slab smallMmap (smallUnlocked 1).mem := by
  obtain ⟨hmapped, -, -, -, hflag, hone, htwo⟩ := smallUnlocked_one
  have h : Reach (smallConf 1) smallMmap (fun _ _ => True) (smallUnlocked 1) :=
    reach_smallUnlocked (.inl rfl) trivial trivial
  have hcount : ActiveCounted (smallUnlocked 1).mem := ⟨[8192], active_smallUnlocked, by rw [hone]; rfl⟩
  refine ⟨hcount, htwo, ?_⟩
  refine (remaining_acquire_exact_iff (smallConfig_valid (.inl rfl)) (honest_mmapAt ..) h hcount).mpr fun S hS => ?_
  rw [hmapped] at hS
  rw [List.mem_singleton.mp hS]
  exact hflag

/-- The only slab is retired with one used object: the next acquire finds none, and adds none. -/
theorem smallRetired_one :
    (smallRetired 1).mem.activeListHead = NULL ∧ (smallRetired 1).mem.activeListCount = 0 ∧
      (smallRetired 1).mem.usedObjCount = 1 ∧
      (tssAllocatorBatchAcquire (smallConf 1).slab smallMmap (tssBatchInit 1) (smallRetired 1).mem).1 =
        .error .assertion := by
  decide +kernel

/-- The number that remains wraps, and the next `tss_allocator_batch_acquire` fails its assertion. -/
theorem not_remainingExact :
    (smallConfig 1).Valid ∧ smallMmap.Honest (smallConf 1).slab ∧
      (¬ ∀ s : Sys Unit, Reach (smallConf 1) smallMmap (fun _ _ => True) s → ActiveCounted s.mem →
        RemainingExact (smallConf 1).slab s.mem ∧ AcquireExact (smallConf 1).slab smallMmap s.mem) ∧
      (tssAllocatorBatchAcquire (smallConf 1).slab smallMmap (tssBatchInit 1) (smallRetired 1).mem).1 =
        .error .assertion := by
  obtain ⟨hhead, hzero, hused, hstop⟩ := smallRetired_one
  refine ⟨smallConfig_valid (.inl rfl), honest_mmapAt .., fun hall => ?_, hstop⟩
  have h : Reach (smallConf 1) smallMmap (fun _ _ => True) (smallRetired 1) ∧ (smallRetired 1).lock = none :=
    reach_smallRetired (.inl rfl) (reach_smallUnlocked (.inl rfl) trivial trivial) trivial
  have hcount : ActiveCounted (smallRetired 1).mem := ⟨[], hhead, by rw [hzero]; rfl⟩
  have hle := (hall _ h.1 hcount).1.2.1
  rw [hused, hzero] at hle
  exact absurd hle (by simp)

/-! ### The number of objects in a cache -/

/-- `free_list_count` is the number of objects in the cache. -/
def CacheCounted (s : Sys ι) (c : ι) : Prop :=
  ∃ L, ListAt s.mem.next NULL (s.caches c).freeListHead L ∧ (s.caches c).freeListCount.toNat = L.length

/-- **The number of objects in a cache** is right after every call, and no call stops, if the cache is
never refreshed and `tss_alloc_slow_path` finds enough objects. -/
theorem freeListCount_eq {config : AllocatorConfig} (hconf : config.Valid)
    (hm : mmap.Honest (confInit config).val.slab) {c : ι}
    (hs : Reach (confInit config).val mmap (CacheGuard (confInit config).val c) s) :
    (s.pc c = .idle → CacheCounted s c) ∧
      ∀ e code, e.cache = some c → CacheGuard (confInit config).val c s e → Runs (confInit config).val mmap s e code →
        ∃ s', code s = (.ok (), s') := by
  have hcap := hconf.cache.acquire_pos.trans_le hconf.cache.acquire_le
  obtain ⟨F, A, O, hinv, hok⟩ := Reach.induct
    (P := fun s _ O => CacheOk (confInit config).val.cache (s.caches c) (s.pc c) (O (.cache c)))
    hconf.slab hconf.cache hm (fun s h => by rw [h.caches, h.pc]; exact ⟨rfl, hcap, trivial⟩)
    (fun _ _ _ _ _ _ _ _ hguard hok hafter => hafter.cache c hguard hok) hs
  refine ⟨fun _ => ⟨_, hinv.cache c, hok.1⟩, fun e code he hguard hrun => ?_⟩
  rcases yields_step hconf.slab hconf.cache hm hinv hrun with ⟨a, s', e', -⟩ | ⟨stop, s', -, -, hwrong⟩
  · exact ⟨s', e'⟩
  · exact absurd hok (hwrong c he hguard)

theorem freeListCount_eq_small :
    (smallAllocated 2).pc () = .idle ∧ ((smallAllocated 2).caches ()).freeListCount = 1 ∧
      CacheCounted (smallAllocated 2) () := by
  have hguard : CacheGuard (smallConf 2) () smallStart (.alloc ()) := by
    refine fun _ _ => ⟨0, ⟨[], fun _ => [], rfl, fun S hS => by simp at hS, rfl⟩, ?_⟩
    show 2 ≤ 0 + addedCount (smallConf 2).slab smallStart.mem 2
    decide +kernel
  have hn : (2 : UInt32) = 1 ∨ (2 : UInt32) = 2 ∨ (2 : UInt32) = 3 := .inr (.inl rfl)
  have h : Reach (smallConf 2) smallMmap (CacheGuard (smallConf 2) ()) (smallAllocated 2) :=
    reach_smallAllocated hn (reach_smallUnlocked hn hguard trivial) trivial
  obtain ⟨-, hidle, hone⟩ := smallAllocated_two
  exact ⟨hidle, hone, (freeListCount_eq (smallConfig_valid hn) (honest_mmapAt ..) h).1 hidle⟩

/-- The small allocator when its cache, with one object, is refreshed: it has been emptied, -/
def smallRefreshing : Sys Unit := (jfsTssCacheRefresh () (smallAllocated 2)).2

/-- a batch has been acquired, -/
def smallSwapped : Sys Unit :=
  (refreshSwap (smallConf 2) smallMmap () (smallRefreshing.pc ()).batch smallRefreshing).2

/-- and has gone to the cache. -/
def smallRefreshed : Sys Unit := (unloadBatch () (smallSwapped.pc ()).batch smallSwapped).2

/-- None of the steps stops, -/
theorem small_refresh_steps :
    (jfsTssCacheRefresh () (smallAllocated 2)).1 = .ok () ∧
      smallRefreshing.pc () = .refreshing (smallRefreshing.pc ()).batch ∧ smallRefreshing.lock = none ∧
      (refreshSwap (smallConf 2) smallMmap () (smallRefreshing.pc ()).batch smallRefreshing).1 = .ok () ∧
      smallSwapped.pc () = .refreshed (smallSwapped.pc ()).batch ∧
      (unloadBatch () (smallSwapped.pc ()).batch smallSwapped).1 = .ok () := by
  decide +kernel

/-- and the cache has two objects and the number three. -/
theorem smallRefreshed_cache :
    smallRefreshed.pc () = .idle ∧ (smallRefreshed.caches ()).freeListHead = 9248 ∧
      smallRefreshed.mem.next 9248 = 8224 ∧ smallRefreshed.mem.next 8224 = NULL ∧
      (smallRefreshed.caches ()).freeListCount = 3 := by
  decide +kernel

/-- Refreshing a cache leaves the number that it had before in the counter, and refreshing an empty
cache fails an assertion. -/
theorem not_cacheCounted :
    (smallConfig 2).Valid ∧ smallMmap.Honest (smallConf 2).slab ∧
      (∃ s : Sys Unit, Reach (smallConf 2) smallMmap (fun _ _ => True) s ∧ s.pc () = .idle ∧ ¬ CacheCounted s ()) ∧
      ∃ (s : Sys Unit) (code : SysCode Unit Unit), Reach (smallConf 2) smallMmap (fun _ _ => True) s ∧
        s.caches () = { freeListHead := NULL, freeListCount := 0 } ∧
        Runs (smallConf 2) smallMmap s (.refresh ()) code ∧ (code s).1 = .error .assertion := by
  have hn : (2 : UInt32) = 1 ∨ (2 : UInt32) = 2 ∨ (2 : UInt32) = 3 := .inr (.inl rfl)
  obtain ⟨hidle, hhead, hnext, hend, hthree⟩ := smallRefreshed_cache
  refine ⟨smallConfig_valid hn, honest_mmapAt .., ⟨smallRefreshed, ?_, hidle, ?_⟩, ?_⟩
  · obtain ⟨hok₄, hpc₄, hlock₄, hok₅, hpc₅, hok₆⟩ := small_refresh_steps
    have h₃ : Reach (smallConf 2) smallMmap (fun _ _ => True) (smallAllocated 2) :=
      reach_smallAllocated hn (reach_smallUnlocked hn trivial trivial) trivial
    have h₄ : Reach (smallConf 2) smallMmap (fun _ _ => True) smallRefreshing :=
      h₃.run trivial (.refresh smallAllocated_two.2.1) hok₄
    have h₅ : Reach (smallConf 2) smallMmap (fun _ _ => True) smallSwapped :=
      h₄.run trivial (.refreshSwap hpc₄ hlock₄) hok₅
    exact h₅.run trivial (.refreshUnload hpc₅) hok₆
  · rintro ⟨L, hL, hcount⟩
    have hlist : ListAt smallRefreshed.mem.next NULL (smallRefreshed.caches ()).freeListHead [9248, 8224] :=
      ⟨hhead, by decide, hnext, by decide, hend⟩
    rw [listAt_unique hL hlist, hthree] at hcount
    exact absurd hcount (by decide)
  · exact ⟨smallStart, _, .initial initial_smallStart, rfl, .refresh rfl, rfl⟩

end FileSync.ThreadSafeSlab
