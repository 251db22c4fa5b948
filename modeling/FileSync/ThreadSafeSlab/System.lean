import FileSync.ThreadSafeSlab.Code

/-!
# Threads and their caches

Any number of threads, each with a cache, that share one allocator and its mutex. A call
is cut where the mutex is locked and unlocked: what a thread does with the mutex is one
step, and so is what it does on its own cache before and after. The only section of the
program that is cut in two is that of `tss_alloc_slow_path`, before the test whether to
retire slabs, so that a run can be asked what the memory was like when slabs were retired;
the mutex stays locked between the two steps. That test is on floating-point numbers, and
its outcome is left open.

Users write to the objects they hold, and free each of them once, through any cache.
-/

namespace FileSync.ThreadSafeSlab

open FileSync.Lib

/-- `jfs_tss_cache_t`, without the pointer to the allocator. -/
structure Cache where
  freeListHead : Addr
  freeListCount : UInt32

/-- Where a thread is in the call that it makes, and the batch that is a local variable there. -/
inductive Pc where
  | idle
  /-- In `tss_alloc_slow_path`, with the mutex locked. -/
  | acquired (batch : Batch)
  /-- In `tss_alloc_slow_path`, after the mutex is unlocked. -/
  | allocating (batch : Batch)
  /-- In `tss_free_slow_path` or `jfs_tss_cache_full_release`, before the mutex is locked. -/
  | releasing (batch : Batch)
  /-- In `jfs_tss_cache_refresh`, before the mutex is locked. -/
  | refreshing (batch : Batch)
  /-- In `jfs_tss_cache_refresh`, after the mutex is unlocked. -/
  | refreshed (batch : Batch)
  deriving DecidableEq

/-- The memory, the threads and what the users hold. -/
structure Sys (ι : Type) where
  mem : Mem
  caches : ι → Cache
  pc : ι → Pc
  /-- The thread that has the mutex. -/
  lock : Option ι
  held : List Addr

/-- A piece of the program of a thread. -/
abbrev SysCode (ι α : Type) := Fallible (Sys ι) Stop α

variable {ι : Type} [DecidableEq ι] {α : Type}

/-- A function of the allocator. -/
def onMem (p : Code α) : SysCode ι α := Fallible.zoom Sys.mem (fun s m => { s with mem := m }) p

/-- The cache of a thread is written. -/
def setCache (c : ι) (cache : Cache) : SysCode ι Unit :=
  Fallible.modify fun s => { s with caches := Function.update s.caches c cache }

/-- A thread goes on to another place of its call. -/
def goto (c : ι) (pc : Pc) : SysCode ι Unit := Fallible.modify fun s => { s with pc := Function.update s.pc c pc }

/-- The mutex is locked or unlocked. -/
def setLock (lock : Option ι) : SysCode ι Unit := Fallible.modify fun s => { s with lock := lock }

/-! ### Allocating -/

/-- The end of `jfs_tss_alloc`: the first object of the cache goes to the user. -/
def popObj (c : ι) : SysCode ι Unit := do
  let cache := (← Fallible.get).caches c
  let next ← onMem (getNext cache.freeListHead)
  setCache c { freeListHead := next, freeListCount := cache.freeListCount - 1 }
  Fallible.modify fun s => { s with held := cache.freeListHead :: s.held }

/-- `tss_alloc_slow_path`, up to the test whether to retire slabs. -/
def tssAllocSlowPath (conf : Conf) (mmap : Mmap) (c : ι) : SysCode ι Unit := do
  setLock (some c)
  let (batch, err) ← onMem (tssAllocatorBatchAcquire conf.slab mmap (tssBatchInit conf.cache.cacheAcquire))
  if err ≠ .ok then do
    let _ ← onMem (tssAllocatorBatchRelease conf.slab batch)
    setLock none
  else goto c (.acquired batch)

/-- `jfs_tss_alloc`, up to the same place if it takes the slow path. -/
def jfsTssAlloc (conf : Conf) (mmap : Mmap) (c : ι) : SysCode ι Unit := do
  if ((← Fallible.get).caches c).freeListCount = 0 then tssAllocSlowPath conf mmap c else popObj c

/-- `tss_alloc_slow_path`, from the test on until the mutex is unlocked. -/
def retireTest (conf : Conf) (c : ι) (readyForRetire : Bool) (batch : Batch) : SysCode ι Unit := do
  if readyForRetire then onMem (tssAllocatorRetireSlabs conf.slab) else pure ()
  setLock none
  goto c (.allocating batch)

/-- The batch goes to the cache, at the end of `tss_alloc_slow_path` and of `jfs_tss_cache_refresh`. -/
def unloadBatch (c : ι) (batch : Batch) : SysCode ι Unit := do
  onMem (assert (tssBatchMetTarget batch))
  let cache := (← Fallible.get).caches c
  let (freeListHead, unloadCount) ← onMem (tssBatchUnload batch cache.freeListHead)
  setCache c { freeListHead := freeListHead, freeListCount := cache.freeListCount + unloadCount }
  goto c .idle

/-- The rest of `tss_alloc_slow_path` and of `jfs_tss_alloc`. -/
def allocUnload (c : ι) (batch : Batch) : SysCode ι Unit := do
  unloadBatch c batch
  popObj c

/-! ### Freeing -/

/-- `tss_free_slow_path`, until the mutex is locked. -/
def tssFreeSlowPath (conf : Conf) (c : ι) : SysCode ι Unit := do
  let cache := (← Fallible.get).caches c
  let (batch, freeListHead, loadCount) ← onMem (tssBatchLoad (tssBatchInit conf.cache.cacheRelease) cache.freeListHead)
  onMem (assert (tssBatchMetTarget batch))
  setCache c { freeListHead := freeListHead, freeListCount := cache.freeListCount - loadCount }
  goto c (.releasing batch)

/-- `jfs_tss_free`, up to the same place if it takes the slow path. -/
def jfsTssFree (conf : Conf) (c : ι) (obj : Addr) : SysCode ι Unit :=
  if obj = NULL then return ()
  else do
    let cache := (← Fallible.get).caches c
    onMem (setNext obj cache.freeListHead)
    Fallible.modify fun s => { s with held := s.held.erase obj }
    setCache c { freeListHead := obj, freeListCount := cache.freeListCount + 1 }
    if cache.freeListCount + 1 ≥ conf.cache.cacheCap then tssFreeSlowPath conf c else return ()

/-- The section of `tss_free_slow_path` and of `jfs_tss_cache_full_release` with the mutex. -/
def releaseBatch (conf : Conf) (c : ι) (batch : Batch) : SysCode ι Unit := do
  let _ ← onMem (tssAllocatorBatchRelease conf.slab batch)
  goto c .idle

/-- `jfs_tss_cache_full_release`, until the mutex is locked. -/
def jfsTssCacheFullRelease (c : ι) : SysCode ι Unit := do
  let cache := (← Fallible.get).caches c
  if cache.freeListCount = 0 then return ()
  else do
    let (batch, freeListHead, loadCount) ← onMem (tssBatchLoad (tssBatchInit cache.freeListCount) cache.freeListHead)
    setCache c { freeListHead := freeListHead, freeListCount := cache.freeListCount - loadCount }
    onMem (assert (freeListHead == NULL))
    onMem (assert (cache.freeListCount - loadCount == 0))
    goto c (.releasing batch)

/-! ### Refreshing -/

/-- `jfs_tss_cache_refresh`, until the mutex is locked. The counter of the cache is not written. -/
def jfsTssCacheRefresh (c : ι) : SysCode ι Unit := do
  let cache := (← Fallible.get).caches c
  let (batch, freeListHead, totalLoaded) ← onMem (tssBatchLoad (tssBatchInit cache.freeListCount) cache.freeListHead)
  setCache c { cache with freeListHead := freeListHead }
  onMem (assert (totalLoaded == cache.freeListCount))
  goto c (.refreshing batch)

/-- The section of `jfs_tss_cache_refresh` with the mutex. -/
def refreshSwap (conf : Conf) (mmap : Mmap) (c : ι) (batch : Batch) : SysCode ι Unit := do
  let batch ← onMem (tssAllocatorBatchRelease conf.slab batch)
  onMem (assert (batch.currentCount == 0))
  let (batch, err) ← onMem (tssAllocatorBatchAcquire conf.slab mmap (tssBatchInit conf.cache.cacheAcquire))
  if err ≠ .ok then do
    let _ ← onMem (tssAllocatorBatchRelease conf.slab batch)
    goto c .idle
  else goto c (.refreshed batch)

/-! ### Runs -/

/-- What can happen. -/
inductive Event (ι : Type) where
  | alloc (c : ι)
  | retireTest (c : ι) (readyForRetire : Bool)
  | allocUnload (c : ι)
  | free (c : ι) (obj : Addr)
  | fullRelease (c : ι)
  | release (c : ι)
  | refresh (c : ι)
  | refreshSwap (c : ι)
  | refreshUnload (c : ι)
  | explicitRetire
  | write (obj value : Addr)

/-- The cache that is used. -/
def Event.cache : Event ι → Option ι
  | .alloc c | .retireTest c _ | .allocUnload c | .free c _ | .fullRelease c | .release c | .refresh c | .refreshSwap c
  | .refreshUnload c => some c
  | .explicitRetire | .write .. => none

/-- What the program does in a state when something happens. -/
inductive Runs (conf : Conf) (mmap : Mmap) (s : Sys ι) : Event ι → SysCode ι Unit → Prop where
  | alloc {c : ι} : s.pc c = .idle → ((s.caches c).freeListCount = 0 → s.lock = none) →
      Runs conf mmap s (.alloc c) (jfsTssAlloc conf mmap c)
  | retireTest {c : ι} {batch : Batch} (readyForRetire : Bool) : s.pc c = .acquired batch →
      Runs conf mmap s (.retireTest c readyForRetire) (retireTest conf c readyForRetire batch)
  | allocUnload {c : ι} {batch : Batch} : s.pc c = .allocating batch →
      Runs conf mmap s (.allocUnload c) (allocUnload c batch)
  | free {c : ι} {obj : Addr} : s.pc c = .idle → obj = NULL ∨ obj ∈ s.held →
      Runs conf mmap s (.free c obj) (jfsTssFree conf c obj)
  | fullRelease {c : ι} : s.pc c = .idle → Runs conf mmap s (.fullRelease c) (jfsTssCacheFullRelease c)
  | release {c : ι} {batch : Batch} : s.pc c = .releasing batch → s.lock = none →
      Runs conf mmap s (.release c) (releaseBatch conf c batch)
  | refresh {c : ι} : s.pc c = .idle → Runs conf mmap s (.refresh c) (jfsTssCacheRefresh c)
  | refreshSwap {c : ι} {batch : Batch} : s.pc c = .refreshing batch → s.lock = none →
      Runs conf mmap s (.refreshSwap c) (refreshSwap conf mmap c batch)
  | refreshUnload {c : ι} {batch : Batch} : s.pc c = .refreshed batch →
      Runs conf mmap s (.refreshUnload c) (unloadBatch c batch)
  | explicitRetire : s.lock = none → Runs conf mmap s .explicitRetire (onMem (tssAllocatorRetireSlabs conf.slab))
  | write {obj value : Addr} : obj ∈ s.held → Runs conf mmap s (.write obj value) (onMem (setNext obj value))

/-- After `jfs_tss_allocator_create`, with every cache initialised. -/
structure Sys.Initial (s : Sys ι) : Prop where
  mapped : s.mem.mapped = []
  activeListHead : s.mem.activeListHead = NULL
  activeListCount : s.mem.activeListCount = 0
  usedObjCount : s.mem.usedObjCount = 0
  caches : ∀ c, s.caches c = { freeListHead := NULL, freeListCount := 0 }
  pc : ∀ c, s.pc c = .idle
  lock : s.lock = none
  held : s.held = []

/-- The states that are reached by steps that `guard` allows. A step that stops ends the run. -/
inductive Reach (conf : Conf) (mmap : Mmap) (guard : Sys ι → Event ι → Prop) : Sys ι → Prop where
  | initial {s : Sys ι} : s.Initial → Reach conf mmap guard s
  | step {s s' : Sys ι} {e : Event ι} {code : SysCode ι Unit} : Reach conf mmap guard s → guard s e →
      Runs conf mmap s e code → code s = (.ok (), s') → Reach conf mmap guard s'

/-- The configuration of `jfs_tss_allocator_create`. -/
def confInit (c : AllocatorConfig) : Checked Conf := do
  let slab ← tssSlabConfigInit c
  let cache ← tssCacheConfigInit c
  return { slab := slab, cache := cache }

end FileSync.ThreadSafeSlab
