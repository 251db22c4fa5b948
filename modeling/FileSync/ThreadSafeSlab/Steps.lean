import FileSync.ThreadSafeSlab.Ownership

/-!
# The steps of the system

What each step does to the invariant, to the number of active slabs and to the counter
of a cache, all at once (`After`). A counter is only right under conditions: no
slab is unmapped while slabs are retired (`RetireGuard`), and a thread does not refresh
its cache and finds enough objects when it allocates (`CacheGuard`). A step stops
only if its cache was wrong before, or for want of these conditions.
-/

namespace FileSync.ThreadSafeSlab

open FileSync.Lib

variable {ι α β : Type} {conf : Conf} {mmap : Mmap} {s s' : Sys ι} {F F' : Addr → List Addr} {A A' : List Addr}
  {O O' : Place ι → List Addr} {c d : ι}

/-! ### Running the program of a thread -/

theorem onMem_apply_of_ok {p : Code α} {a : α} {m' : Mem} (h : p s.mem = (.ok a, m')) :
    onMem p s = (.ok a, { s with mem := m' }) := by
  rw [onMem, Fallible.zoom_apply, h]

theorem onMem_bind_of_ok {p : Code α} {a : α} {m' : Mem} (h : p s.mem = (.ok a, m')) (f : α → SysCode ι β) :
    (onMem p >>= f) s = f a { s with mem := m' } := Fallible.bind_of_ok (onMem_apply_of_ok h)

theorem onMem_bind_of_error {p : Code α} {stop : Stop} (h : (p s.mem).1 = .error stop) (f : α → SysCode ι β) :
    ((onMem p >>= f) s).1 = .error stop := by
  have e : onMem p s = (.error stop, { s with mem := (p s.mem).2 }) := by rw [onMem, Fallible.zoom_apply, h]
  rw [Fallible.bind_of_error e]

theorem yields_of_error {P : Stop → Prop} {Q : α → Sys ι → Prop} {p : SysCode ι α} {stop : Stop}
    (h : (p s).1 = .error stop) (hP : P stop) : Yields P p s Q := by
  refine .inr ⟨stop, (p s).2, ?_, hP⟩
  rw [← h]

theorem onMem_assert_bind {p : Bool} (h : p = true) (f : Unit → SysCode ι β) (s : Sys ι) :
    (onMem (assert p) >>= f) s = f () s := onMem_bind_of_ok (by rw [h]; rfl) f

theorem onMem_assert_fails {p : Bool} (h : p = false) (f : Unit → SysCode ι β) (s : Sys ι) :
    ((onMem (assert p) >>= f) s).1 = .error .assertion := onMem_bind_of_error (by rw [h]; rfl) f

/-! ### Conditions -/

/-- `n` objects are on the free lists of the active slabs. -/
def FreeObjects (m : Mem) (n : ℕ) : Prop :=
  ∃ A F, ListAt (fun S => (m.slab S).next) NULL m.activeListHead A ∧
    (∀ S ∈ A, ListAt m.next NULL (m.slab S).freeListHead (F S)) ∧ n = freeCount F A

theorem Pool.freeObjects_iff {conf : SlabConfig} {m : Mem} (h : Pool conf m F A) {n : ℕ} :
    FreeObjects m n ↔ n = freeCount F A := by
  constructor
  · rintro ⟨A', F', hA, hF, rfl⟩
    obtain rfl := listAt_unique h.active hA
    unfold freeCount
    congr 1
    refine List.map_congr_left fun S hS => ?_
    rw [listAt_unique (hF S hS) (h.slab S (h.mapped_of_active hS)).list]
  · exact fun e => ⟨A, F, h.active, fun S hS => (h.slab S (h.mapped_of_active hS)).list, e⟩

/-- `tss_allocator_batch_acquire` finds as many objects as it needs, with the slabs that it adds. -/
def Enough (conf : SlabConfig) (m : Mem) (targetCount : UInt32) : Prop :=
  ∃ n, FreeObjects m n ∧ targetCount.toNat ≤ n + addedCount conf m targetCount

/-- Slabs are retired only when each active slab has a used object, so that none is unmapped. -/
def RetireGuard (s : Sys ι) : Event ι → Prop
  | .retireTest _ true | .explicitRetire =>
    ∃ A, ListAt (fun S => (s.mem.slab S).next) NULL s.mem.activeListHead A ∧ ∀ S ∈ A, (s.mem.slab S).usedCount ≠ 0
  | _ => True

/-- The cache `c` is not refreshed, and its slow path finds enough objects. -/
def CacheGuard (conf : Conf) (c : ι) (s : Sys ι) : Event ι → Prop
  | .refresh d => d ≠ c
  | .alloc d => d = c → (s.caches c).freeListCount = 0 → Enough conf.slab s.mem conf.cache.cacheAcquire
  | _ => True

/-- What the assertions of `tss_cache_config_init` establish. -/
structure CacheConfig.Good (conf : CacheConfig) : Prop where
  acquire_pos : 0 < conf.cacheAcquire.toNat
  acquire_le : conf.cacheAcquire.toNat ≤ conf.cacheCap.toNat
  release_pos : 0 < conf.cacheRelease.toNat
  release_le : conf.cacheRelease.toNat ≤ conf.cacheCap.toNat

theorem ne_zero_of_toNat_pos {n : UInt32} (h : 0 < n.toNat) : n ≠ 0 := by
  rintro rfl
  exact Nat.lt_irrefl 0 h

theorem CacheConfig.Good.acquire_ne_zero {conf : CacheConfig} (h : conf.Good) : conf.cacheAcquire ≠ 0 :=
  ne_zero_of_toNat_pos h.acquire_pos

theorem CacheConfig.Good.release_ne_zero {conf : CacheConfig} (h : conf.Good) : conf.cacheRelease ≠ 0 :=
  ne_zero_of_toNat_pos h.release_pos

/-- The counter of a cache with the objects `L` is right. -/
def CacheOk (conf : CacheConfig) (cache : Cache) (pc : Pc) (L : List Addr) : Prop :=
  cache.freeListCount.toNat = L.length ∧ L.length < conf.cacheCap.toNat ∧
    match pc with
    | .idle | .releasing _ => True
    | .acquired _ | .allocating _ => L = []
    | .refreshing _ | .refreshed _ => False

/-- What there is after a step. -/
structure After (conf : Conf) (e : Event ι) (s : Sys ι) (A : List Addr) (O : Place ι → List Addr) (s' : Sys ι)
    (F' : Addr → List Addr) (A' : List Addr) (O' : Place ι → List Addr) : Prop where
  inv : Inv conf s' F' A' O'
  counted : RetireGuard s e → s.mem.activeListCount.toNat = A.length → s'.mem.activeListCount.toNat = A'.length
  cache : ∀ c, CacheGuard conf c s e → CacheOk conf.cache (s.caches c) (s.pc c) (O (.cache c)) →
    CacheOk conf.cache (s'.caches c) (s'.pc c) (O' (.cache c))

/-- When a step stops: it has not run out of turns, and its cache was not right. -/
def Stops (conf : Conf) (e : Event ι) (s : Sys ι) (O : Place ι → List Addr) (stop : Stop) : Prop :=
  stop ≠ .turns ∧ ∀ c, e.cache = some c → CacheGuard conf c s e →
    ¬ CacheOk conf.cache (s.caches c) (s.pc c) (O (.cache c))

/-- A step that uses a cache leaves the other caches as they are. -/
theorem After.of_others {e : Event ι} (c : ι) (hinv : Inv conf s' F' A' O')
    (hcounted : RetireGuard s e → s.mem.activeListCount.toNat = A.length → s'.mem.activeListCount.toNat = A'.length)
    (hothers : ∀ d, d ≠ c → s'.caches d = s.caches d ∧ s'.pc d = s.pc d ∧ O' (.cache d) = O (.cache d))
    (hcache : CacheGuard conf c s e → CacheOk conf.cache (s.caches c) (s.pc c) (O (.cache c)) →
      CacheOk conf.cache (s'.caches c) (s'.pc c) (O' (.cache c))) : After conf e s A O s' F' A' O' := by
  refine ⟨hinv, hcounted, fun d hguard hok => ?_⟩
  by_cases hd : d = c
  · subst hd
    exact hcache hguard hok
  · obtain ⟨h1, h2, h3⟩ := hothers d hd
    rwa [h1, h2, h3]

/-- The step of a thread stops for a reason that its cache is not right. -/
theorem stops_of_cache {e : Event ι} {stop : Stop} (hstop : stop ≠ .turns) (he : e.cache = some c)
    (h : CacheGuard conf c s e → ¬ CacheOk conf.cache (s.caches c) (s.pc c) (O (.cache c))) :
    Stops conf e s O stop := by
  refine ⟨hstop, fun d hd => ?_⟩
  rw [he, Option.some.injEq] at hd
  exact hd ▸ h

/-- A step that does nothing. -/
theorem After.refl {e : Event ι} (h : Inv conf s F A O) : After conf e s A O s F A O := ⟨h, fun _ => id, fun _ _ => id⟩

/-- Under the guard, retiring slabs leaves the number of active slabs right. -/
theorem Retires.counted_of_guard {m' : Mem} {conf : SlabConfig} {e : Event ι} (h : Retires conf s.mem F A m' A')
    (hpool : Pool conf s.mem F A) (he : e = .explicitRetire ∨ ∃ c, e = .retireTest c true) (hguard : RetireGuard s e)
    (hcount : s.mem.activeListCount.toNat = A.length) : m'.activeListCount.toNat = A'.length := by
  have hused : ∃ A, ListAt (fun S => (s.mem.slab S).next) NULL s.mem.activeListHead A ∧
      ∀ S ∈ A, (s.mem.slab S).usedCount ≠ 0 := by
    rcases he with rfl | ⟨c, rfl⟩ <;> exact hguard
  obtain ⟨A₀, hA₀, hused⟩ := hused
  obtain rfl := listAt_unique hpool.active hA₀
  exact h.counted hused hcount

/-- A batch is loaded from a cache. -/
theorem tssBatchLoad_cache (h : Inv conf s F A O) (c : ι) {t : UInt32} (ht : t ≠ 0) :
    ∃ next' b rest count, tssBatchLoad (tssBatchInit t) (s.caches c).freeListHead s.mem =
        (.ok (b, rest, count), { s.mem with next := next' }) ∧
      Loaded s.mem.next (tssBatchInit t) [] (O (.cache c)) next' b rest count := by
  refine tssBatchLoad_spec (holds_init ..) (h.cache c) (by simpa using h.placed.nodup (.cache c)) ?_
  exact Nat.pos_of_ne_zero fun e => ht (UInt32.toNat_inj.mp e)

theorem loadCount_init (t : UInt32) (L : List Addr) : loadCount (tssBatchInit t) [] L = min t.toNat L.length := rfl

/-! ### Allocating -/

variable [DecidableEq ι]

theorem popObj_spec (h : Inv conf s F A O) (c : ι) :
    (O (.cache c) = [] ∧ (popObj c s).1 = .error .nullPointer) ∨
      ∃ x L, O (.cache c) = x :: L ∧ popObj c s = (.ok (), { s with
        caches := Function.update s.caches c
          { freeListHead := s.mem.next x, freeListCount := (s.caches c).freeListCount - 1 }
        held := x :: s.held }) := by
  have hlist := h.cache c
  cases hL : O (.cache c) with
  | nil =>
    rw [hL, listAt_nil] at hlist
    refine .inl ⟨rfl, ?_⟩
    rw [popObj, Fallible.get_bind]
    refine onMem_bind_of_error ?_ _
    rw [getNext, deref, if_pos hlist]
    rfl
  | cons x L =>
    rw [hL] at hlist
    obtain ⟨hhead, hx, -⟩ := hlist
    refine .inr ⟨x, L, rfl, ?_⟩
    have enext : getNext (s.caches c).freeListHead s.mem = (.ok (s.mem.next x), s.mem) := by
      rw [hhead, getNext, deref, if_neg hx]
      rfl
    rw [popObj, Fallible.get_bind, onMem_bind_of_ok enext, hhead]
    rfl

/-- The counter after an object has been taken. -/
theorem CacheOk.pop {cache : Cache} {x : Addr} {L : List Addr} {next : Addr}
    (h : cache.freeListCount.toNat = (x :: L).length) (hle : L.length < conf.cache.cacheCap.toNat) :
    CacheOk conf.cache { freeListHead := next, freeListCount := cache.freeListCount - 1 } .idle L := by
  refine ⟨?_, hle, trivial⟩
  rw [List.length_cons] at h
  have hle : (1 : UInt32) ≤ cache.freeListCount := by
    show (1 : UInt32).toNat ≤ cache.freeListCount.toNat
    rw [h]
    exact Nat.le_add_left ..
  rw [UInt32.toNat_sub_of_le _ _ hle, h]
  rfl

/-- **`jfs_tss_alloc`** with objects in the cache. -/
theorem yields_alloc_fast (h : Inv conf s F A O) (hpc : s.pc c = .idle) (hcount : (s.caches c).freeListCount ≠ 0) :
    Yields (Stops conf (.alloc c) s O) (jfsTssAlloc conf mmap c) s
      fun _ s' => ∃ F' A' O', After conf (.alloc c) s A O s' F' A' O' := by
  rw [Yields, jfsTssAlloc, Fallible.get_bind, if_neg hcount]
  rcases popObj_spec h c with ⟨hnil, e⟩ | ⟨x, L, hL, e⟩
  · refine yields_of_error e (stops_of_cache (by decide) rfl fun _ hok => hcount ?_)
    rw [hnil] at hok
    exact UInt32.toNat_inj.mp hok.1
  · refine .inl ⟨(), _, e, F, A, _, After.of_others c (h.pop hL) (fun _ => id) (fun d hd => ?_) fun _ hok => ?_⟩
    · exact ⟨by simp [hd], rfl, by simp [hd]⟩
    · rw [hL] at hok
      have hlt := hok.2.1
      rw [List.length_cons] at hlt
      simpa [hpc] using CacheOk.pop hok.1 (Nat.lt_of_succ_lt hlt)

/-- **`tss_alloc_slow_path`** up to the retire test. -/
theorem yields_alloc_slow (hc : conf.slab.Good) (hcc : conf.cache.Good) (hm : mmap.Honest conf.slab)
    (h : Inv conf s F A O) (hpc : s.pc c = .idle) (hcount : (s.caches c).freeListCount = 0) :
    Yields (Stops conf (.alloc c) s O) (jfsTssAlloc conf mmap c) s
      fun _ s' => ∃ F' A' O', After conf (.alloc c) s A O s' F' A' O' := by
  have hbnil := h.batch_nil hpc
  rw [Yields, jfsTssAlloc, Fallible.get_bind, if_pos hcount, tssAllocSlowPath, setLock, Fallible.modify_bind]
  obtain ⟨m', F', A', hk, ⟨e, ht⟩ | ⟨-, b, xs, e, ht, hb, hnd, htar, hlen⟩ | ⟨hlt, e⟩⟩ :=
    tssAllocatorBatchAcquire_spec hc hm h.pool hcc.acquire_pos
  · -- an error: the batch is empty
    have hinv := h.acquire hbnil .idle hk ht List.nodup_nil (holds_init ..) trivial none
    simp only [← hpc, ← hbnil, Function.update_eq_self] at hinv
    left
    rw [onMem_bind_of_ok (s := { s with lock := some c }) e]
    dsimp only
    rw [if_pos (by simp), onMem_bind_of_ok (tssAllocatorBatchRelease_init ..)]
    exact ⟨(), _, rfl, F', A', O, After.of_others c hinv (fun _ => hk.counted) (fun d _ => ⟨rfl, rfl, rfl⟩) fun _ => id⟩
  · left
    have hcur : b.currentCount = conf.cache.cacheAcquire := UInt32.toNat_inj.mp (hb.count.trans hlen)
    have hinv := h.acquire hbnil (.acquired b) hk ht hnd hb ⟨htar, hcur⟩ (some c)
    rw [onMem_bind_of_ok (s := { s with lock := some c }) e]
    refine ⟨(), _, rfl, F', A', _, After.of_others c hinv (fun _ => hk.counted) (fun d hd => ?_) fun _ hok => ?_⟩
    · exact ⟨rfl, by simp [hd], by simp⟩
    · have hnil : O (.cache c) = [] := by
        rw [← List.length_eq_zero_iff, ← hok.1, hcount]
        rfl
      simpa [CacheOk, hcount, hnil] using hok.2.1
  · refine yields_of_error (onMem_bind_of_error (s := { s with lock := some c }) e _)
      (stops_of_cache (by decide) rfl fun hguard _ => ?_)
    obtain ⟨n, hn, hle⟩ := hguard rfl hcount
    rw [h.pool.freeObjects_iff.mp hn] at hle
    omega

/-- **`tss_alloc_slow_path`** from the retire test on. -/
theorem yields_retireTest (hc : conf.slab.Good) (h : Inv conf s F A O) {b : Batch} (hpc : s.pc c = .acquired b)
    (ready : Bool) :
    Yields (Stops conf (.retireTest c ready) s O) (retireTest conf c ready b) s
      fun _ s' => ∃ F' A' O', After conf (.retireTest c ready) s A O s' F' A' O' := by
  have hfull := h.full c
  rw [hpc] at hfull
  have hothers : ∀ d, d ≠ c → Function.update s.pc c (.allocating b) d = s.pc d := fun d hd => by simp [hd]
  have hcache : CacheOk conf.cache (s.caches c) (s.pc c) (O (.cache c)) →
      CacheOk conf.cache (s.caches c) (Function.update s.pc c (.allocating b) c) (O (.cache c)) := by
    rw [hpc, Function.update_self]
    exact id
  left
  cases ready with
  | false =>
    have hinv := h.goto c (.allocating b) (by rw [hpc]; rfl) hfull none
    exact ⟨(), _, rfl, F, A, O, After.of_others c hinv (fun _ => id) (fun d hd => ⟨rfl, hothers d hd, rfl⟩)
      fun _ => hcache⟩
  | true =>
    obtain ⟨m', A', e, hr⟩ := tssAllocatorRetireSlabs_spec hc h.pool
    have hinv := (h.retire hr).goto c (.allocating b) (by rw [hpc]; rfl) hfull none
    refine ⟨(), _, ?_, F, A', O, After.of_others c hinv ?_ (fun d hd => ⟨rfl, hothers d hd, rfl⟩) fun _ => hcache⟩
    · rw [retireTest, if_pos rfl, onMem_bind_of_ok e]
      rfl
    · exact hr.counted_of_guard h.pool (.inr ⟨c, rfl⟩)

/-- The batch goes to the cache. -/
theorem unloadBatch_spec (hc : conf.slab.Good) (hcc : conf.cache.Good) (h : Inv conf s F A O) {b : Batch}
    (hb : (s.pc c).batch = b)
    (hfull : b.targetCount = conf.cache.cacheAcquire ∧ b.currentCount = conf.cache.cacheAcquire) :
    ∃ next', unloadBatch c b s =
        (.ok (), s.moved c next' b.head ((s.caches c).freeListCount + b.currentCount) .idle) ∧
      Inv conf (s.moved c next' b.head ((s.caches c).freeListCount + b.currentCount) .idle) F A
        (Function.update (Function.update O (.batch c) []) (.cache c) (O (.batch c) ++ O (.cache c))) := by
  have hne := hcc.acquire_ne_zero
  have hmet : tssBatchMetTarget b = true := by
    rw [tssBatchMetTarget, hfull.1, hfull.2]
    exact decide_eq_true (UInt32.le_refl _)
  obtain ⟨next', e, hl, hframe⟩ := tssBatchUnload_spec (hb ▸ h.batch c) (by rw [hfull.2]; exact hne)
    (by rw [hfull.1]; exact hne) (h.cache c) (h.nodup_append (by simp))
  refine ⟨next', ?_, h.unload hc hl hframe _⟩
  rw [unloadBatch, onMem_assert_bind hmet, Fallible.get_bind, onMem_bind_of_ok e]
  rfl

/-- The end of **`jfs_tss_alloc`**. -/
theorem yields_allocUnload (hc : conf.slab.Good) (hcc : conf.cache.Good) (h : Inv conf s F A O) {b : Batch}
    (hpc : s.pc c = .allocating b) :
    Yields (Stops conf (.allocUnload c) s O) (allocUnload c b) s
      fun _ s' => ∃ F' A' O', After conf (.allocUnload c) s A O s' F' A' O' := by
  have hfull := h.full c
  have hbatch := h.batch c
  rw [hpc] at hfull hbatch
  have hlen : (O (.batch c)).length = conf.cache.cacheAcquire.toNat := by rw [← hbatch.count, ← hfull.2]; rfl
  obtain ⟨next', e, hinv⟩ := unloadBatch_spec hc hcc h (by rw [hpc]; rfl) hfull
  left
  rcases popObj_spec hinv c with ⟨hnil, -⟩ | ⟨x, L, hL, e'⟩
  · have hpos := hcc.acquire_pos
    rw [Function.update_self, List.append_eq_nil_iff] at hnil
    rw [hnil.1, List.length_nil] at hlen
    omega
  · refine ⟨(), _, (Fallible.bind_of_ok e).trans e', F, A, _,
      After.of_others c (hinv.pop hL) (fun _ => id) (fun d hd => ?_) fun _ hok => ?_⟩
    · exact ⟨by simp [hd], by simp [hd], by simp [hd]⟩
    · obtain ⟨hcount, -, hnil⟩ := hok
      rw [hpc] at hnil
      rw [Function.update_self, hnil, List.append_nil] at hL
      rw [hL, List.length_cons] at hlen
      rw [hnil, List.length_nil] at hcount
      have hzero : (s.caches c).freeListCount = 0 := UInt32.toNat_inj.mp hcount
      have hle := hcc.acquire_le
      have hpop := @CacheOk.pop conf { freeListHead := b.head, freeListCount := b.currentCount } x L (next' x)
        (by rw [List.length_cons, hlen]; exact congrArg UInt32.toNat hfull.2) (by omega)
      simpa [hzero] using hpop

/-! ### Freeing -/

/-- **`tss_free_slow_path`** until the mutex is locked: it stops if there are too few objects in the
cache. -/
theorem tssFreeSlowPath_spec (hc : conf.slab.Good) (hcc : conf.cache.Good) (h : Inv conf s F A O)
    (hpc : s.pc c = .idle) :
    ((O (.cache c)).length < conf.cache.cacheRelease.toNat ∧ (tssFreeSlowPath conf c s).1 = .error .assertion) ∨
      ∃ next' b rest, tssFreeSlowPath conf c s =
          (.ok (), s.moved c next' rest ((s.caches c).freeListCount - conf.cache.cacheRelease) (.releasing b)) ∧
        Inv conf (s.moved c next' rest ((s.caches c).freeListCount - conf.cache.cacheRelease) (.releasing b)) F A
          (Function.update (Function.update O (.cache c) ((O (.cache c)).drop conf.cache.cacheRelease.toNat)) (.batch c)
            ((O (.cache c)).take conf.cache.cacheRelease.toNat)) := by
  obtain ⟨next', b, rest, count, e, hl⟩ := tssBatchLoad_cache h c hcc.release_ne_zero
  have hcur : b.currentCount.toNat = min conf.cache.cacheRelease.toNat (O (.cache c)).length := by
    rw [hl.batch.count, loadCount_init]
    simp
  have hmet : tssBatchMetTarget b = decide (conf.cache.cacheRelease.toNat ≤ (O (.cache c)).length) := by
    have hmin : conf.cache.cacheRelease ≤ b.currentCount ↔ conf.cache.cacheRelease.toNat ≤ (O (.cache c)).length := by
      rw [UInt32.le_iff_toNat_le, hcur]
      omega
    rw [tssBatchMetTarget, hl.target]
    exact decide_eq_decide.mpr hmin
  rw [tssFreeSlowPath, Fallible.get_bind, onMem_bind_of_ok e]
  dsimp only
  by_cases hle : conf.cache.cacheRelease.toNat ≤ (O (.cache c)).length
  · have hk : loadCount (tssBatchInit conf.cache.cacheRelease) [] (O (.cache c)) = conf.cache.cacheRelease.toNat := by
      rw [loadCount_init, Nat.min_eq_left hle]
    have hcount : count = conf.cache.cacheRelease := UInt32.toNat_inj.mp (hl.count.trans hk)
    have hinv := h.load hc (h.batch_nil hpc) hl ((s.caches c).freeListCount - conf.cache.cacheRelease) (.releasing b)
      rfl trivial
    rw [hk] at hinv
    refine .inr ⟨next', b, rest, ?_, hinv⟩
    rw [onMem_assert_bind (by rw [hmet]; exact decide_eq_true hle), hcount]
    rfl
  · refine .inl ⟨Nat.lt_of_not_le hle, onMem_assert_fails ?_ ..⟩
    rw [hmet]
    exact decide_eq_false hle

/-- The counter after an object has been freed. -/
theorem CacheOk.push {cache : Cache} {pc : Pc} {L : List Addr} (h : CacheOk conf.cache cache pc L) :
    (cache.freeListCount + 1).toNat = L.length + 1 := by
  have hcap := conf.cache.cacheCap.toNat_lt
  have hlt := h.2.1
  rw [UInt32.toNat_add, h.1, UInt32.toNat_one, Nat.mod_eq_of_lt (by omega)]

/-- **`jfs_tss_free`.** -/
theorem yields_free (hc : conf.slab.Good) (hcc : conf.cache.Good) (h : Inv conf s F A O) {x : Addr}
    (hpc : s.pc c = .idle) (hx : x = NULL ∨ x ∈ s.held) :
    Yields (Stops conf (.free c x) s O) (jfsTssFree conf c x) s
      fun _ s' => ∃ F' A' O', After conf (.free c x) s A O s' F' A' O' := by
  rw [Yields, jfsTssFree]
  by_cases hnull : x = NULL
  · rw [if_pos hnull]
    exact .inl ⟨(), s, rfl, F, A, O, After.refl h⟩
  rw [if_neg hnull, Fallible.get_bind, onMem_bind_of_ok (setNext_apply hnull _), Fallible.modify_bind, setCache,
    Fallible.modify_bind]
  have hpush := h.push (c := c) (n := (s.caches c).freeListCount + 1) hc (hx.resolve_left hnull) hnull
  split
  · next hcap =>
    have hcap' : conf.cache.cacheCap.toNat ≤ ((s.caches c).freeListCount + 1).toNat := hcap
    have hrel := hcc.release_le
    have hpos := hcc.release_pos
    rcases tssFreeSlowPath_spec (c := c) hc hcc hpush hpc with ⟨hlt, e⟩ | ⟨next', b, rest, e, hinv⟩
    · refine yields_of_error e (stops_of_cache (by decide) rfl fun _ hok => ?_)
      rw [hok.push] at hcap'
      rw [Function.update_self, List.length_cons] at hlt
      omega
    · refine .inl ⟨(), _, e, F, A, _, After.of_others c hinv (fun _ => id) (fun d hd => ?_) fun _ hok => ?_⟩
      · exact ⟨by simp [hd], by simp [hd], by simp [hd]⟩
      · have hcount := hok.push
        have hlt := hok.2.1
        rw [hcount] at hcap'
        have hle : conf.cache.cacheRelease ≤ (s.caches c).freeListCount + 1 := by
          rw [UInt32.le_iff_toNat_le, hcount]
          omega
        rw [Sys.moved_caches_self, Sys.moved_pc_self]
        simp only [Function.update_self, ne_eq, reduceCtorEq, not_false_eq_true, Function.update_of_ne]
        refine ⟨?_, ?_, trivial⟩
        · rw [UInt32.toNat_sub_of_le _ _ hle, hcount, List.length_drop, List.length_cons]
        · rw [List.length_drop, List.length_cons]
          omega
  · next hcap =>
    refine .inl ⟨(), _, rfl, F, A, _, After.of_others c hpush (fun _ => id) (fun d hd => ?_) fun _ hok => ?_⟩
    · exact ⟨by simp [hd], rfl, by simp [hd]⟩
    · have hcount := hok.push
      have hlt : ((s.caches c).freeListCount + 1).toNat < conf.cache.cacheCap.toNat := Nat.lt_of_not_le hcap
      rw [hcount] at hlt
      simp only [Function.update_self, hpc]
      exact ⟨hcount, hlt, trivial⟩

/-- **`jfs_tss_cache_full_release`** until the mutex is locked. -/
theorem yields_fullRelease (hc : conf.slab.Good) (h : Inv conf s F A O) (hpc : s.pc c = .idle) :
    Yields (Stops conf (.fullRelease c) s O) (jfsTssCacheFullRelease c) s
      fun _ s' => ∃ F' A' O', After conf (.fullRelease c) s A O s' F' A' O' := by
  rw [Yields, jfsTssCacheFullRelease, Fallible.get_bind]
  by_cases h0 : (s.caches c).freeListCount = 0
  · rw [if_pos h0]
    exact .inl ⟨(), s, rfl, F, A, O, After.refl h⟩
  obtain ⟨next', b, rest, count, e, hl⟩ := tssBatchLoad_cache h c h0
  rw [if_neg h0, onMem_bind_of_ok e]
  dsimp only
  rw [setCache, Fallible.modify_bind]
  -- a right counter is the number of objects: all of them are loaded
  have hall : CacheOk conf.cache (s.caches c) (s.pc c) (O (.cache c)) →
      rest = NULL ∧ (s.caches c).freeListCount - count = 0 := by
    intro hok
    have hk : loadCount (tssBatchInit (s.caches c).freeListCount) [] (O (.cache c)) = (O (.cache c)).length := by
      rw [loadCount_init, hok.1, Nat.min_self]
    have hlist := hl.list
    rw [hk, List.drop_length] at hlist
    have hcount : count = (s.caches c).freeListCount := UInt32.toNat_inj.mp (by rw [hl.count, hk, hok.1])
    exact ⟨hlist, by rw [hcount, UInt32.sub_self]⟩
  by_cases hrest : rest = NULL
  · rw [onMem_assert_bind (by simpa using hrest)]
    by_cases hcount : (s.caches c).freeListCount - count = 0
    · rw [onMem_assert_bind (by simpa using hcount)]
      have hinv := h.load hc (h.batch_nil hpc) hl ((s.caches c).freeListCount - count) (.releasing b) rfl trivial
      refine .inl ⟨(), s.moved c next' rest ((s.caches c).freeListCount - count) (.releasing b), rfl, F, A, _,
        After.of_others c hinv (fun _ => id) (fun d hd => ?_) fun _ hok => ?_⟩
      · exact ⟨by simp [hd], by simp [hd], by simp [hd]⟩
      · have hnil := hl.list
        rw [hrest, listAt_null] at hnil
        have hcap := hok.2.1
        rw [Sys.moved_caches_self, Sys.moved_pc_self]
        simp only [Function.update_self, ne_eq, reduceCtorEq, not_false_eq_true, Function.update_of_ne]
        rw [hnil, hcount]
        exact ⟨rfl, Nat.zero_lt_of_lt hcap, trivial⟩
    · exact yields_of_error (onMem_assert_fails (by simpa using hcount) ..)
        (stops_of_cache (by decide) rfl fun _ hok => hcount (hall hok).2)
  · exact yields_of_error (onMem_assert_fails (by simpa using hrest) ..)
      (stops_of_cache (by decide) rfl fun _ hok => hrest (hall hok).1)

/-- The batch goes back to the pool. -/
theorem yields_release (hc : conf.slab.Good) (h : Inv conf s F A O) {b : Batch} (hpc : s.pc c = .releasing b) :
    Yields (Stops conf (.release c) s O) (releaseBatch conf c b) s
      fun _ s' => ∃ F' A' O', After conf (.release c) s A O s' F' A' O' := by
  have hb := h.batch c
  rw [hpc] at hb
  obtain ⟨m', F', e, hp⟩ := tssAllocatorBatchRelease_spec hc h.pool h.retired hb (h.placed.nodup _)
    fun x hx => h.out_of_mem hx
  refine .inl ⟨(), _, ?_, F', A, _,
    After.of_others c (h.release hp) (fun _ hcount => ?_) (fun d hd => ?_) fun _ hok => ?_⟩
  · rw [releaseBatch]
    exact onMem_bind_of_ok e _
  · show m'.activeListCount.toNat = _
    rw [hp.counted, hcount]
  · exact ⟨rfl, by simp [hd], by simp⟩
  · simp only [Function.update_self, ne_eq, reduceCtorEq, not_false_eq_true, Function.update_of_ne]
    exact ⟨hok.1, hok.2.1, trivial⟩

/-! ### Refreshing -/

/-- **`jfs_tss_cache_refresh`** until the mutex is locked. -/
theorem yields_refresh (hc : conf.slab.Good) (h : Inv conf s F A O) (hpc : s.pc c = .idle) :
    Yields (Stops conf (.refresh c) s O) (jfsTssCacheRefresh c) s
      fun _ s' => ∃ F' A' O', After conf (.refresh c) s A O s' F' A' O' := by
  rw [Yields, jfsTssCacheRefresh, Fallible.get_bind]
  by_cases h0 : (s.caches c).freeListCount = 0
  · -- the assertion that the target has not been reached
    have hstop : (tssBatchLoad (tssBatchInit (s.caches c).freeListCount) (s.caches c).freeListHead s.mem).1 =
        .error .assertion := by
      rw [h0]
      rfl
    exact yields_of_error (onMem_bind_of_error hstop _) (stops_of_cache (by decide) rfl fun hg => absurd rfl hg)
  obtain ⟨next', b, rest, count, e, hl⟩ := tssBatchLoad_cache h c h0
  rw [onMem_bind_of_ok e]
  dsimp only
  rw [setCache, Fallible.modify_bind]
  by_cases hcount : count = (s.caches c).freeListCount
  · rw [onMem_assert_bind (by simpa using hcount)]
    have hinv := h.load hc (h.batch_nil hpc) hl (s.caches c).freeListCount (.refreshing b) rfl trivial
    refine .inl ⟨(), s.moved c next' rest (s.caches c).freeListCount (.refreshing b), rfl, F, A, _,
      After.of_others c hinv (fun _ => id) (fun d hd => ?_) fun hg => absurd rfl hg⟩
    exact ⟨by simp [hd], by simp [hd], by simp [hd]⟩
  · exact yields_of_error (onMem_assert_fails (by simpa using hcount) ..)
      (stops_of_cache (by decide) rfl fun hg => absurd rfl hg)

/-- The section of **`jfs_tss_cache_refresh`** with the mutex. -/
theorem yields_refreshSwap (hc : conf.slab.Good) (hcc : conf.cache.Good) (hm : mmap.Honest conf.slab)
    (h : Inv conf s F A O) {b : Batch} (hpc : s.pc c = .refreshing b) :
    Yields (Stops conf (.refreshSwap c) s O) (refreshSwap conf mmap c b) s
      fun _ s' => ∃ F' A' O', After conf (.refreshSwap c) s A O s' F' A' O' := by
  -- the counter is not right while the cache is refreshed
  have hwrong : ¬ CacheOk conf.cache (s.caches c) (s.pc c) (O (.cache c)) := by
    rw [hpc]
    exact fun hok => hok.2.2
  have hb : Holds s.mem.next b (O (.batch c)) := by simpa [hpc] using h.batch c
  obtain ⟨m₁, F₁, e₁, hp₁⟩ := tssAllocatorBatchRelease_spec hc h.pool h.retired hb (h.placed.nodup _)
    fun x hx => h.out_of_mem hx
  have hinv₁ := h.release hp₁
  have hbnil : Function.update O (.batch c) [] (.batch c) = [] := Function.update_self ..
  rw [Yields, refreshSwap, onMem_bind_of_ok e₁, onMem_assert_bind (by rfl)]
  obtain ⟨m', F', A', hk, ⟨e, ht⟩ | ⟨-, b', xs, e, ht, hb', hnd, htar, hlen⟩ | ⟨-, e⟩⟩ :=
    tssAllocatorBatchAcquire_spec hc hm hinv₁.pool hcc.acquire_pos
  all_goals
    have hcounted : RetireGuard s (.refreshSwap c) → s.mem.activeListCount.toNat = A.length →
        m'.activeListCount.toNat = A'.length := by
      intro _ hcnt
      refine hk.counted ?_
      rw [hp₁.counted, hcnt]
  · have hinv := hinv₁.acquire hbnil .idle hk ht List.nodup_nil (holds_init ..) trivial s.lock
    simp only [Function.update_idem] at hinv
    left
    rw [onMem_bind_of_ok (s := { s with mem := m₁ }) e]
    dsimp only
    rw [if_pos (by simp), onMem_bind_of_ok (tssAllocatorBatchRelease_init ..)]
    refine ⟨(), _, rfl, F', A', _, After.of_others c hinv hcounted (fun d hd => ?_) fun _ hok => absurd hok hwrong⟩
    exact ⟨rfl, by simp [hd], by simp⟩
  · have hcur : b'.currentCount = conf.cache.cacheAcquire := UInt32.toNat_inj.mp (hb'.count.trans hlen)
    have hinv := hinv₁.acquire hbnil (.refreshed b') hk ht hnd hb' ⟨htar, hcur⟩ s.lock
    simp only [Function.update_idem] at hinv
    left
    rw [onMem_bind_of_ok (s := { s with mem := m₁ }) e]
    refine ⟨(), _, rfl, F', A', _, After.of_others c hinv hcounted (fun d hd => ?_) fun _ hok => absurd hok hwrong⟩
    exact ⟨rfl, by simp [hd], by simp⟩
  · exact yields_of_error (onMem_bind_of_error (s := { s with mem := m₁ }) e _)
      (stops_of_cache (by decide) rfl fun _ => hwrong)

/-- The end of **`jfs_tss_cache_refresh`**. -/
theorem yields_refreshUnload (hc : conf.slab.Good) (hcc : conf.cache.Good) (h : Inv conf s F A O) {b : Batch}
    (hpc : s.pc c = .refreshed b) :
    Yields (Stops conf (.refreshUnload c) s O) (unloadBatch c b) s
      fun _ s' => ∃ F' A' O', After conf (.refreshUnload c) s A O s' F' A' O' := by
  have hfull := h.full c
  rw [hpc] at hfull
  obtain ⟨next', e, hinv⟩ := unloadBatch_spec hc hcc h (by rw [hpc]; rfl) hfull
  refine .inl ⟨(), _, e, F, A, _, After.of_others c hinv (fun _ => id) (fun d hd => ?_) fun _ hok => ?_⟩
  · exact ⟨by simp [hd], by simp [hd], by simp [hd]⟩
  · rw [hpc] at hok
    exact absurd hok.2.2 id

/-! ### Every step -/

/-- **What a step does.** -/
theorem yields_step (hc : conf.slab.Good) (hcc : conf.cache.Good) (hm : mmap.Honest conf.slab) (h : Inv conf s F A O)
    {e : Event ι} {code : SysCode ι Unit} (hrun : Runs conf mmap s e code) :
    Yields (Stops conf e s O) code s fun _ s' => ∃ F' A' O', After conf e s A O s' F' A' O' := by
  cases hrun with
  | @alloc c hpc _ =>
    by_cases hcount : (s.caches c).freeListCount = 0
    · exact yields_alloc_slow hc hcc hm h hpc hcount
    · exact yields_alloc_fast h hpc hcount
  | retireTest ready hpc => exact yields_retireTest hc h hpc ready
  | allocUnload hpc => exact yields_allocUnload hc hcc h hpc
  | free hpc hx => exact yields_free hc hcc h hpc hx
  | fullRelease hpc => exact yields_fullRelease hc h hpc
  | release hpc _ => exact yields_release hc h hpc
  | refresh hpc => exact yields_refresh hc h hpc
  | refreshSwap hpc _ => exact yields_refreshSwap hc hcc hm h hpc
  | refreshUnload hpc => exact yields_refreshUnload hc hcc h hpc
  | explicitRetire _ =>
    obtain ⟨m', A', e, hr⟩ := tssAllocatorRetireSlabs_spec hc h.pool
    exact .inl ⟨(), _, onMem_apply_of_ok e, F, A', O, h.retire hr, hr.counted_of_guard h.pool (.inl rfl),
      fun _ _ => id⟩
  | @write obj value hx =>
    have hne : obj ≠ NULL := by
      obtain ⟨S, hS, hobj, -⟩ := h.out_of_mem (h.users ▸ hx)
      exact ne_null_of_mem_objects hc (h.pool.addr S hS) hobj
    exact .inl ⟨(), _, onMem_apply_of_ok (setNext_apply hne s.mem), F, A, O, h.write hc hx value, fun _ => id,
      fun _ _ => id⟩

end FileSync.ThreadSafeSlab
