import FileSync.ThreadSafeSlab.Local
import FileSync.ThreadSafeSlab.Safety

/-!
# What users write

The allocator links free objects through their first word, the word that a user writes to
when the object is handed out. No step of any thread changes that word of an object that a
user holds, but a write to it and the call that frees it; so a user finds in an object
what was last written to it, whatever the other threads do (`contents_kept`).
-/

namespace FileSync.ThreadSafeSlab

open FileSync.Lib

variable {ι : Type} [DecidableEq ι] {conf : Conf} {mmap : Mmap} {s s' : Sys ι} {F : Addr → List Addr} {A : List Addr}
  {O : Place ι → List Addr} {c : ι} {x : Addr}

/-- Steps, one after another, with what happens. -/
inductive Steps (conf : Conf) (mmap : Mmap) : Sys ι → List (Event ι) → Sys ι → Prop where
  | nil (s : Sys ι) : Steps conf mmap s [] s
  | cons {s s₁ s' : Sys ι} {e : Event ι} {es : List (Event ι)} {code : SysCode ι Unit} : Runs conf mmap s e code →
      code s = (.ok (), s₁) → Steps conf mmap s₁ es s' → Steps conf mmap s (e :: es) s'

/-- The user who holds the object frees it, or writes to it. -/
def Event.Uses (x : Addr) : Event ι → Prop
  | .free _ obj | .write obj _ => obj = x
  | _ => False

/-- The user still holds the object, and it has not changed. -/
def Kept (x : Addr) (s s' : Sys ι) : Prop := x ∈ s'.held ∧ s'.mem.next x = s.mem.next x

/-! ### The word of an object that is held -/

omit [DecidableEq ι] in
theorem Inv.out_of_held (h : Inv conf s F A O) (hx : x ∈ s.held) : Out conf.slab s.mem F x :=
  h.out_of_mem (p := .users) (h.users.symm ▸ hx)

omit [DecidableEq ι] in
theorem Inv.notMem_cache (h : Inv conf s F A O) (hx : x ∈ s.held) (c : ι) : x ∉ O (.cache c) := by
  intro hc
  cases h.placed.unique _ _ x hc (h.users.symm ▸ hx)

omit [DecidableEq ι] in
theorem Inv.notMem_batch (h : Inv conf s F A O) (hx : x ∈ s.held) (c : ι) : x ∉ O (.batch c) := by
  intro hc
  cases h.placed.unique _ _ x hc (h.users.symm ▸ hx)

theorem assert_eq_ok {p : Bool} {m m' : Mem} {u : Unit} (h : assert p m = (.ok u, m')) : m' = m := by
  cases p with
  | true => exact (Prod.mk.inj h).2.symm
  | false => cases h

section Cases

variable (hc : conf.slab.Good) (hcc : conf.cache.Good) (hm : mmap.Honest conf.slab) (h : Inv conf s F A O)
  (hx : x ∈ s.held)
include h hx

theorem kept_popObj (hok : popObj c s = (.ok (), s')) : Kept x s s' := by
  rcases popObj_spec h c with ⟨-, e⟩ | ⟨y, L, -, e⟩
  · rw [hok] at e
    cases e
  · rw [hok] at e
    obtain rfl := (Prod.mk.inj e).2
    exact ⟨List.mem_cons_of_mem y hx, rfl⟩

omit [DecidableEq ι] in
/-- A batch is loaded from the cache: its objects are not held. -/
theorem tssBatchLoad_kept {t : UInt32} {m' : Mem} {r : Batch × Addr × UInt32}
    (hok : tssBatchLoad (tssBatchInit t) (s.caches c).freeListHead s.mem = (.ok r, m')) : m'.next x = s.mem.next x := by
  by_cases ht : t = 0
  · subst ht
    rw [tssBatchLoad] at hok
    cases hok
  · obtain ⟨next', b, rest, count, e, hl⟩ := tssBatchLoad_cache h c ht
    rw [hok] at e
    rw [(Prod.mk.inj e).2]
    exact hl.frame x (by simp) (h.notMem_cache hx c)

theorem kept_tssFreeSlowPath (hok : tssFreeSlowPath conf c s = (.ok (), s')) : Kept x s s' := by
  rw [tssFreeSlowPath, Fallible.get_bind] at hok
  obtain ⟨⟨b, rest, count⟩, m₁, hload, hok⟩ := onMem_bind_eq_ok hok
  dsimp only at hok
  obtain ⟨_, m₂, hassert, hok⟩ := onMem_bind_eq_ok hok
  obtain rfl := (Prod.mk.inj hok).2
  refine ⟨hx, ?_⟩
  show m₂.next x = _
  rw [assert_eq_ok hassert]
  exact tssBatchLoad_kept h hx hload

theorem kept_jfsTssCacheFullRelease (hok : jfsTssCacheFullRelease c s = (.ok (), s')) : Kept x s s' := by
  rw [jfsTssCacheFullRelease, Fallible.get_bind] at hok
  dsimp only at hok
  split at hok
  · obtain rfl := (Prod.mk.inj hok).2
    exact ⟨hx, rfl⟩
  · obtain ⟨⟨b, rest, count⟩, m₁, hload, hok⟩ := onMem_bind_eq_ok hok
    dsimp only at hok
    rw [setCache, Fallible.modify_bind] at hok
    obtain ⟨_, m₂, hassert, hok⟩ := onMem_bind_eq_ok hok
    obtain ⟨_, m₃, hassert', hok⟩ := onMem_bind_eq_ok hok
    obtain rfl := (Prod.mk.inj hok).2
    refine ⟨hx, ?_⟩
    show m₃.next x = _
    rw [assert_eq_ok hassert', assert_eq_ok hassert]
    exact tssBatchLoad_kept h hx hload

theorem kept_jfsTssCacheRefresh (hok : jfsTssCacheRefresh c s = (.ok (), s')) : Kept x s s' := by
  rw [jfsTssCacheRefresh, Fallible.get_bind] at hok
  obtain ⟨⟨b, rest, count⟩, m₁, hload, hok⟩ := onMem_bind_eq_ok hok
  dsimp only at hok
  rw [setCache, Fallible.modify_bind] at hok
  obtain ⟨_, m₂, hassert, hok⟩ := onMem_bind_eq_ok hok
  obtain rfl := (Prod.mk.inj hok).2
  refine ⟨hx, ?_⟩
  show m₂.next x = _
  rw [assert_eq_ok hassert]
  exact tssBatchLoad_kept h hx hload

include hcc

theorem kept_unloadBatch {b : Batch} (hb : (s.pc c).batch = b)
    (hfull : b.targetCount = conf.cache.cacheAcquire ∧ b.currentCount = conf.cache.cacheAcquire)
    (hok : unloadBatch c b s = (.ok (), s')) : Kept x s s' := by
  have hne := hcc.acquire_ne_zero
  obtain ⟨next', e, -, hframe⟩ := tssBatchUnload_spec (hb ▸ h.batch c) (by rw [hfull.2]; exact hne)
    (by rw [hfull.1]; exact hne) (h.cache c) (h.nodup_append (by simp))
  obtain ⟨_, m₁, hassert, hok⟩ := onMem_bind_eq_ok hok
  rw [Fallible.get_bind] at hok
  obtain ⟨⟨head, count⟩, m₂, hunload, hok⟩ := onMem_bind_eq_ok hok
  obtain rfl := (Prod.mk.inj hok).2
  refine ⟨hx, ?_⟩
  obtain rfl := assert_eq_ok hassert
  show m₂.next x = _
  rw [show m₂ = { s.mem with next := next' } from (Prod.mk.inj (hunload.symm.trans e)).2]
  exact hframe x (h.notMem_batch hx c)

include hc

theorem kept_allocUnload {b : Batch} (hpc : s.pc c = .allocating b) (hok : allocUnload c b s = (.ok (), s')) :
    Kept x s s' := by
  have hfull := h.full c
  rw [hpc] at hfull
  obtain ⟨next', e, hinv⟩ := unloadBatch_spec hc hcc h (by rw [hpc]; rfl) hfull
  have hunload := kept_unloadBatch hcc h hx (by rw [hpc]; rfl) hfull e
  obtain ⟨_, s₁, hok₁, hok⟩ := Fallible.bind_eq_ok.mp hok
  obtain rfl := (Prod.mk.inj (hok₁.symm.trans e)).2
  have hpop := kept_popObj hinv hunload.1 hok
  exact ⟨hpop.1, hpop.2.trans hunload.2⟩

include hm

omit [DecidableEq ι] in
/-- What is acquired was not held by anybody. -/
theorem tssAllocatorBatchAcquire_kept {r : Batch × JfsErr} {m' : Mem}
    (hok : tssAllocatorBatchAcquire conf.slab mmap (tssBatchInit conf.cache.cacheAcquire) s.mem = (.ok r, m')) :
    m'.next x = s.mem.next x := by
  have hout := h.out_of_held hx
  obtain ⟨m₁, F', A', -, ⟨e, ht⟩ | ⟨-, b, xs, e, ht, -⟩ | ⟨-, e⟩⟩ :=
    tssAllocatorBatchAcquire_spec hc hm h.pool hcc.acquire_pos
  · rw [(Prod.mk.inj (hok.symm.trans e)).2]
    exact ht.frame x hout (by simp)
  · rw [(Prod.mk.inj (hok.symm.trans e)).2]
    exact ht.frame x hout (by simp)
  · rw [hok] at e
    cases e

end Cases

omit [DecidableEq ι] in
/-- What is released is in a batch, and not held. -/
theorem tssAllocatorBatchRelease_kept (hc : conf.slab.Good) (h : Inv conf s F A O) (hx : x ∈ s.held) {b b' : Batch}
    {m' : Mem} (hb : (s.pc c).batch = b) (hok : tssAllocatorBatchRelease conf.slab b s.mem = (.ok b', m')) :
    m'.next x = s.mem.next x := by
  obtain ⟨m₁, F', e, hp⟩ := tssAllocatorBatchRelease_spec hc h.pool h.retired (hb ▸ h.batch c) (h.placed.nodup _)
    fun x hx => h.out_of_mem hx
  rw [(Prod.mk.inj (hok.symm.trans e)).2]
  exact hp.frame x (h.notMem_batch hx c)

/-- With an error there is nothing in the batch. -/
theorem tssAllocatorBatchAcquire_batch {conf : SlabConfig} {m m' : Mem} {b b' : Batch} {err : JfsErr}
    (h : tssAllocatorBatchAcquire conf mmap b m = (.ok (b', err), m')) (herr : err ≠ .ok) : b' = b := by
  obtain ⟨_, m₁, -, h⟩ := Fallible.bind_eq_ok.mp h
  obtain ⟨_, m₂, -, h⟩ := Fallible.bind_eq_ok.mp h
  obtain ⟨_, m₃, -, h⟩ := Fallible.bind_eq_ok.mp h
  obtain ⟨_, m₄, -, h⟩ := Fallible.bind_eq_ok.mp h
  obtain ⟨err₁, m₅, -, h⟩ := Fallible.bind_eq_ok.mp h
  split at h
  · exact (Prod.mk.inj (Except.ok.inj (Prod.mk.inj h).1)).1.symm
  · rw [Fallible.get_bind] at h
    obtain ⟨b₁, m₆, -, h⟩ := Fallible.bind_eq_ok.mp h
    obtain ⟨_, m₇, -, h⟩ := Fallible.bind_eq_ok.mp h
    exact absurd (Prod.mk.inj (Except.ok.inj (Prod.mk.inj h).1)).2.symm herr

section Sections

variable (hc : conf.slab.Good) (hcc : conf.cache.Good) (hm : mmap.Honest conf.slab) (h : Inv conf s F A O)
  (hx : x ∈ s.held)
include hc hcc hm h hx

theorem kept_tssAllocSlowPath (hok : tssAllocSlowPath conf mmap c s = (.ok (), s')) : Kept x s s' := by
  rw [tssAllocSlowPath, setLock, Fallible.modify_bind] at hok
  obtain ⟨⟨b, err⟩, m₁, hacq, hok⟩ := onMem_bind_eq_ok hok
  have hkept := tssAllocatorBatchAcquire_kept hc hcc hm h hx hacq
  dsimp only at hok
  split at hok
  · next herr =>
    obtain rfl := tssAllocatorBatchAcquire_batch hacq herr
    rw [onMem_bind_of_ok (tssAllocatorBatchRelease_init ..)] at hok
    obtain rfl := (Prod.mk.inj hok).2
    exact ⟨hx, hkept⟩
  · obtain rfl := (Prod.mk.inj hok).2
    exact ⟨hx, hkept⟩

theorem kept_refreshSwap {b : Batch} (hpc : s.pc c = .refreshing b) (hok : refreshSwap conf mmap c b s = (.ok (), s')) :
    Kept x s s' := by
  have hb : Holds s.mem.next b (O (.batch c)) := by simpa [hpc] using h.batch c
  obtain ⟨m₁, F', e, hp⟩ := tssAllocatorBatchRelease_spec hc h.pool h.retired hb (h.placed.nodup _)
    fun x hx => h.out_of_mem hx
  have hrel := hp.frame x (h.notMem_batch hx c)
  rw [refreshSwap, onMem_bind_of_ok e] at hok
  obtain ⟨_, m₂, hassert, hok⟩ := onMem_bind_eq_ok hok
  obtain rfl := assert_eq_ok hassert
  obtain ⟨⟨b', err⟩, m₃, hacq, hok⟩ := onMem_bind_eq_ok hok
  have hkept := (tssAllocatorBatchAcquire_kept hc hcc hm (h.release hp) hx hacq).trans hrel
  dsimp only at hok
  split at hok
  · next herr =>
    obtain rfl := tssAllocatorBatchAcquire_batch hacq herr
    rw [onMem_bind_of_ok (tssAllocatorBatchRelease_init ..)] at hok
    obtain rfl := (Prod.mk.inj hok).2
    exact ⟨hx, hkept⟩
  · obtain rfl := (Prod.mk.inj hok).2
    exact ⟨hx, hkept⟩

end Sections

/-- An object is freed: the others that are held stay as they are. -/
theorem kept_jfsTssFree (hc : conf.slab.Good) (h : Inv conf s F A O) (hx : x ∈ s.held) {obj : Addr}
    (hobj : obj = NULL ∨ obj ∈ s.held) (hne : obj ≠ x) (hok : jfsTssFree conf c obj s = (.ok (), s')) : Kept x s s' := by
  rw [jfsTssFree] at hok
  by_cases hnull : obj = NULL
  · rw [if_pos hnull] at hok
    obtain rfl := (Prod.mk.inj hok).2
    exact ⟨hx, rfl⟩
  rw [if_neg hnull, Fallible.get_bind, onMem_bind_of_ok (setNext_apply hnull _), Fallible.modify_bind, setCache,
    Fallible.modify_bind] at hok
  have hpush := h.push (c := c) (n := (s.caches c).freeListCount + 1) hc (hobj.resolve_left hnull) hnull
  have hx' : x ∈ s.held.erase obj := (List.mem_erase_of_ne hne.symm).mpr hx
  have hnext : Function.update s.mem.next obj (s.caches c).freeListHead x = s.mem.next x :=
    Function.update_of_ne hne.symm ..
  split at hok
  · have hkept := kept_tssFreeSlowPath hpush hx' hok
    exact ⟨hkept.1, hkept.2.trans hnext⟩
  · obtain rfl := (Prod.mk.inj hok).2
    exact ⟨hx', hnext⟩

/-- **No step changes an object that a user holds**, but those that the user makes with it. -/
theorem kept_step (hc : conf.slab.Good) (hcc : conf.cache.Good) (hm : mmap.Honest conf.slab) (h : Inv conf s F A O)
    (hx : x ∈ s.held) {e : Event ι} {code : SysCode ι Unit} (hrun : Runs conf mmap s e code) (he : ¬ e.Uses x)
    (hok : code s = (.ok (), s')) : Kept x s s' := by
  cases hrun with
  | alloc _ _ =>
    rw [jfsTssAlloc, Fallible.get_bind] at hok
    split at hok
    · exact kept_tssAllocSlowPath hc hcc hm h hx hok
    · exact kept_popObj h hx hok
  | @retireTest c b ready _ =>
    cases ready with
    | false =>
      obtain rfl := (Prod.mk.inj hok).2
      exact ⟨hx, rfl⟩
    | true =>
      obtain ⟨m', A', e, hr⟩ := tssAllocatorRetireSlabs_spec hc h.pool
      rw [retireTest, if_pos rfl, onMem_bind_of_ok e] at hok
      obtain rfl := (Prod.mk.inj hok).2
      exact ⟨hx, congrFun hr.next x⟩
  | allocUnload hpc => exact kept_allocUnload hc hcc h hx hpc hok
  | free _ hobj => exact kept_jfsTssFree hc h hx hobj he hok
  | fullRelease _ => exact kept_jfsTssCacheFullRelease h hx hok
  | @release c b hpc _ =>
    obtain ⟨b', m', hrel, hok⟩ := onMem_bind_eq_ok hok
    obtain rfl := (Prod.mk.inj hok).2
    exact ⟨hx, tssAllocatorBatchRelease_kept (c := c) hc h hx (by rw [hpc]; rfl) hrel⟩
  | refresh _ => exact kept_jfsTssCacheRefresh h hx hok
  | refreshSwap hpc _ => exact kept_refreshSwap hc hcc hm h hx hpc hok
  | @refreshUnload c b hpc =>
    have hfull := h.full c
    rw [hpc] at hfull
    exact kept_unloadBatch hcc h hx (by rw [hpc]; rfl) hfull hok
  | explicitRetire _ =>
    obtain ⟨m', A', e, hr⟩ := tssAllocatorRetireSlabs_spec hc h.pool
    rw [onMem_apply_of_ok e] at hok
    obtain rfl := (Prod.mk.inj hok).2
    exact ⟨hx, congrFun hr.next x⟩
  | @write obj value hobj =>
    obtain ⟨S, hS, hobj', -⟩ := h.out_of_held hobj
    rw [onMem_apply_of_ok (setNext_apply (ne_null_of_mem_objects hc (h.pool.addr S hS) hobj') s.mem)] at hok
    obtain rfl := (Prod.mk.inj hok).2
    exact ⟨hx, Function.update_of_ne (fun e => he e.symm) ..⟩

/-- **What a user writes stays.** From every state that is reached, through any steps of any threads: an
object that is held, and that its user neither frees nor writes to in the meantime, is still
held and unchanged. -/
theorem contents_kept {config : AllocatorConfig} (hconf : config.Valid) (hm : mmap.Honest (confInit config).val.slab)
    (hs : Reach (confInit config).val mmap (fun _ _ => True) s) (hx : x ∈ s.held) {es : List (Event ι)}
    (hsteps : Steps (confInit config).val mmap s es s') (hes : ∀ e ∈ es, ¬ e.Uses x) :
    x ∈ s'.held ∧ s'.mem.next x = s.mem.next x := by
  induction hsteps with
  | nil s => exact ⟨hx, rfl⟩
  | cons hrun hok _ ih =>
    obtain ⟨F, A, O, hinv⟩ := Reach.inv hconf.slab hconf.cache hm hs
    obtain ⟨hx', hnext⟩ := kept_step hconf.slab hconf.cache hm hinv hx hrun (hes _ (List.mem_cons_self ..)) hok
    obtain ⟨hheld, hrest⟩ := ih (hs.step trivial hrun hok) hx' fun e he => hes e (List.mem_cons_of_mem _ he)
    exact ⟨hheld, hrest.trans hnext⟩

/-- The small allocator after its user has written to the object. -/
def smallWritten : Sys Unit := (onMem (setNext 10272 7) (smallAllocated 2)).2

theorem smallWritten_steps :
    (onMem (setNext 10272 7) (smallAllocated 2)).1 = .ok () ∧ smallWritten.held = [10272] ∧
      smallWritten.mem.next 10272 = 7 ∧ smallWritten.pc () = .idle ∧ (smallWritten.caches ()).freeListCount = 1 ∧
      (jfsTssAlloc (smallConf 2) smallMmap () smallWritten).1 = .ok () := by
  decide +kernel

/-- The next allocation leaves it as it is. -/
theorem contents_kept_small :
    10272 ∈ (jfsTssAlloc (smallConf 2) smallMmap () smallWritten).2.held ∧
      (jfsTssAlloc (smallConf 2) smallMmap () smallWritten).2.mem.next 10272 = 7 := by
  obtain ⟨hwrite, hheld, hnext, hidle, hone, hok⟩ := smallWritten_steps
  have hn : (2 : UInt32) = 1 ∨ (2 : UInt32) = 2 ∨ (2 : UInt32) = 3 := .inr (.inl rfl)
  have h : Reach (smallConf 2) smallMmap (fun _ _ => True) smallWritten :=
    (reach_smallAllocated hn (reach_smallUnlocked hn trivial trivial) trivial).run trivial
      (.write (by rw [smallAllocated_two.1]; exact List.mem_singleton_self _)) hwrite
  have hrun : Runs (smallConf 2) smallMmap smallWritten (.alloc ()) (jfsTssAlloc (smallConf 2) smallMmap ()) :=
    .alloc hidle fun h0 => absurd (hone.symm.trans h0) (by decide)
  have hsteps : Steps (smallConf 2) smallMmap smallWritten [.alloc ()] _ :=
    .cons hrun (Prod.ext hok rfl) (.nil _)
  have hx : (10272 : Addr) ∈ smallWritten.held := by
    rw [hheld]
    exact List.mem_singleton_self _
  have hkept := contents_kept (smallConfig_valid hn) (honest_mmapAt ..) h hx hsteps (by simp [Event.Uses])
  exact ⟨hkept.1, hkept.2.trans hnext⟩

end FileSync.ThreadSafeSlab
