import Mathlib.Data.List.Basic
import FileSync.AlignedMmap
import FileSync.Error
import FileSync.Lib.Checked
import FileSync.Lib.Fallible

/-!
# The thread-safe slab allocator

`old_thread_safe_slab.c`: objects of one size, in slabs that are mapped at multiples of
their size, so that the slab of an object is found by clearing the low bits of its
address. A slab keeps its free objects in a list that is linked through the objects. The
allocator has a list of active slabs; threads have caches, also lists of objects, and
move objects between their cache and the slabs in batches, with the allocator's mutex
held.

A failed assertion and a dereference of `NULL` stop the program. A loop that follows a
list to its `NULL` is given as many turns as there are slabs, or objects, in memory; that
it does not need more is proved, not assumed.
-/

namespace FileSync.ThreadSafeSlab

open FileSync.Lib

/-! ### Configuration -/

/-- `jfs_tss_allocator_config_t`, without the percentage that the retire test compares with. -/
structure AllocatorConfig where
  objSize : UInt64
  objAlign : UInt64
  retireThreshold : UInt64
  pagesPerSlab : UInt32
  cacheCap : UInt32
  cacheAcquire : UInt32
  cacheRelease : UInt32

/-- `tss_slab_config_t`. -/
structure SlabConfig where
  objAlign : UInt64
  paddedObjSize : UInt64
  slabSize : UInt64
  objPerSlab : UInt64
  retireThreshold : UInt64
  slabOffset : UInt64

/-- `tss_cache_config_t`. -/
structure CacheConfig where
  cacheCap : UInt32
  cacheAcquire : UInt32
  cacheRelease : UInt32

/-- The two configurations of an allocator. -/
structure Conf where
  slab : SlabConfig
  cache : CacheConfig

/-- `TSS_PAGE_SIZE`. -/
def tssPageSize : UInt64 := 4096

/-- `TSS_MIN_OBJ_SIZE`, the size of a pointer, and `MIN_OBJ_SIZE`, that of a `jfs_tss_obj_t`. -/
def minObjSize : UInt64 := 8

/-- `sizeof(tss_slab_t)`. -/
def sizeofSlab : UInt64 := 32

/-- `tss_slab_config_init`. -/
def tssSlabConfigInit (c : AllocatorConfig) : Checked SlabConfig := do
  Checked.assert (decide (0 < c.objAlign))
  let paddedSize := if c.objSize > minObjSize then c.objSize else minObjSize
  let paddedObjSize := (paddedSize + c.objAlign - 1) &&& ~~~(c.objAlign - 1)
  let pagesPerSlab : UInt32 := if c.pagesPerSlab ≠ 0 then c.pagesPerSlab else 8
  let slabSize := pagesPerSlab.toUInt64 * tssPageSize
  let slabOffset := (sizeofSlab + c.objAlign - 1) &&& ~~~(c.objAlign - 1)
  Checked.assert (slabOffset % c.objAlign == 0)
  Checked.assert ((slabSize - slabOffset) % c.objAlign == 0)
  let objPerSlab := (slabSize - slabOffset) / paddedObjSize
  Checked.assert (decide (0 < objPerSlab))
  Checked.assert (decide (objPerSlab > c.retireThreshold))
  return { objAlign := c.objAlign, paddedObjSize := paddedObjSize, slabSize := slabSize, objPerSlab := objPerSlab,
           retireThreshold := c.retireThreshold, slabOffset := slabOffset }

/-- `tss_cache_config_init`. -/
def tssCacheConfigInit (c : AllocatorConfig) : Checked CacheConfig := do
  let cacheCap := if c.cacheCap ≠ 0 then c.cacheCap else 64
  let cacheAcquire := if c.cacheAcquire ≠ 0 then c.cacheAcquire else 32
  Checked.assert (decide (cacheCap ≥ cacheAcquire))
  let cacheRelease := if c.cacheRelease ≠ 0 then c.cacheRelease else 32
  Checked.assert (decide (cacheCap ≥ cacheRelease))
  return { cacheCap := cacheCap, cacheAcquire := cacheAcquire, cacheRelease := cacheRelease }

/-! ### Memory -/

/-- `tss_slab_t`, at the start of a slab. -/
structure Slab where
  usedCount : UInt64
  freeListHead : Addr
  next : Addr
  retiredFlag : Bool

/-- `tss_batch_t`. -/
structure Batch where
  head : Addr
  tail : Addr
  currentCount : UInt32
  targetCount : UInt32
  deriving DecidableEq

/-- The memory and the fields of the allocator that change. -/
structure Mem where
  /-- The field `next` of an object. -/
  next : Addr → Addr
  /-- The slab at an address. -/
  slab : Addr → Slab
  /-- Where slabs are mapped. -/
  mapped : List Addr
  /-- How often `mmap` has been called. -/
  mmaps : ℕ
  activeListHead : Addr
  activeListCount : UInt64
  usedObjCount : UInt64

/-- Memory before anything is mapped. -/
def emptyMem : Mem where
  next _ := NULL
  slab _ := { usedCount := 0, freeListHead := NULL, next := NULL, retiredFlag := false }
  mapped := []
  mmaps := 0
  activeListHead := NULL
  activeListCount := 0
  usedObjCount := 0

/-- What stops the program. -/
inductive Stop where
  | assertion
  | nullPointer
  /-- A loop has had all its turns. -/
  | turns
  deriving DecidableEq, Repr

/-- A piece of the program. -/
abbrev Code (α : Type) := Fallible Mem Stop α

/-- `mmap`: what it returns when it is called for the nth time, with these slabs in memory. It
may fail. -/
abbrev Mmap := ℕ → List Addr → Option Addr

/-- `assert`. -/
def assert (p : Bool) : Code Unit := if p then pure () else Fallible.fail .assertion

/-- A pointer that is dereferenced. -/
def deref (p : Addr) : Code Unit := if p = NULL then Fallible.fail .nullPointer else pure ()

/-- `obj->next`. -/
def getNext (obj : Addr) : Code Addr := do
  deref obj
  return (← Fallible.get).next obj

/-- `obj->next = value`. -/
def setNext (obj value : Addr) : Code Unit := do
  deref obj
  Fallible.modify fun m => { m with next := Function.update m.next obj value }

/-- `*slab`. -/
def getSlab (slab : Addr) : Code Slab := do
  deref slab
  return (← Fallible.get).slab slab

/-- `*slab = value`. -/
def setSlab (slab : Addr) (value : Slab) : Code Unit := do
  deref slab
  Fallible.modify fun m => { m with slab := Function.update m.slab slab value }

/-! ### Slabs -/

/-- The object with index `i` of the slab at `slab`. -/
def objAt (conf : SlabConfig) (slab : Addr) (i : ℕ) : Addr :=
  slab + conf.slabOffset + UInt64.ofNat i * conf.paddedObjSize

/-- `tss_aligned_mmap`, with `none` if it fails. The calls of `munmap` do not fail, and leave one
slab. -/
def tssAlignedMmap (conf : SlabConfig) (mmap : Mmap) : Code (Option Addr) := do
  assert (decide (0 < conf.slabSize))
  let m ← Fallible.get
  Fallible.modify fun m => { m with mmaps := m.mmaps + 1 }
  match mmap m.mmaps m.mapped with
  | none => return none
  | some rawAddr =>
    let alignedAddr := (rawAddr + conf.slabSize - 1) &&& ~~~(conf.slabSize - 1)
    let leadingTrim := alignedAddr - rawAddr
    let trailingTrim := rawAddr + 2 * conf.slabSize - (alignedAddr + conf.slabSize)
    assert (rawAddr % tssPageSize == 0)
    assert (alignedAddr % conf.slabSize == 0)
    assert (leadingTrim % tssPageSize == 0)
    assert (trailingTrim % tssPageSize == 0)
    Fallible.modify fun m => { m with mapped := alignedAddr :: m.mapped }
    return some alignedAddr

/-- What `tss_aligned_mmap` does with the address from `mmap`, with the calls of `munmap`. -/
def tssAlignedBlock (conf : SlabConfig) (rawAddr : Addr) : Checked Mapping :=
  alignedMmap tssPageSize conf.slabSize rawAddr

/-- The loop of `tss_slab_link_block`, over `n` objects from the one with index `i` on. -/
def linkBlock (conf : SlabConfig) (rawBlock : Addr) : ℕ → ℕ → Addr → Code Addr
  | 0, _, list => return list
  | n + 1, i, list => do
    setNext (objAt conf rawBlock i) list
    linkBlock conf rawBlock n (i + 1) (objAt conf rawBlock i)

/-- `tss_slab_link_block`. The page size of the system is taken to be `TSS_PAGE_SIZE`. -/
def tssSlabLinkBlock (conf : SlabConfig) (rawBlock : Addr) : Code Addr := do
  assert (rawBlock != NULL)
  linkBlock conf rawBlock conf.objPerSlab.toNat 0 NULL

/-- `tss_slab_create`. -/
def tssSlabCreate (conf : SlabConfig) (mmap : Mmap) : Code (Option Addr) := do
  match ← tssAlignedMmap conf mmap with
  | none => return none
  | some rawBlock =>
    let freeList ← tssSlabLinkBlock conf rawBlock
    setSlab rawBlock { usedCount := 0, freeListHead := freeList, next := NULL, retiredFlag := false }
    return some rawBlock

/-- `tss_slab_destroy`. -/
def tssSlabDestroy (conf : SlabConfig) (slab : Addr) : Code Unit :=
  if slab = NULL then return ()
  else do
    assert (decide (0 < conf.slabSize))
    Fallible.modify fun m => { m with mapped := m.mapped.erase slab }

/-- `tss_allocator_find_slab`. -/
def tssAllocatorFindSlab (conf : SlabConfig) (obj : Addr) : Addr := obj &&& ~~~(conf.slabSize - 1)

/-! ### Batches -/

/-- `tss_batch_init`. -/
def tssBatchInit (targetCount : UInt32) : Batch :=
  { targetCount := targetCount, head := NULL, tail := NULL, currentCount := 0 }

/-- The loop of `tss_batch_load`, for at most `n` more objects. -/
def loadLoop : ℕ → UInt32 → Addr → Code (UInt32 × Addr)
  | 0, total, listTail => return (total, listTail)
  | n + 1, total, listTail => do
    let next ← getNext listTail
    if next = NULL then return (total, listTail) else loadLoop n (total + 1) next

/-- Where `tss_batch_load` hangs the list. -/
def loadHead (batch : Batch) (listHead : Addr) : Code Batch :=
  if batch.currentCount = 0 then do
    assert (batch.head == NULL)
    assert (batch.tail == NULL)
    return { batch with head := listHead }
  else do
    let next ← getNext batch.tail
    assert (next == NULL)
    setNext batch.tail listHead
    return batch

/-- `tss_batch_load`: the batch, the new head of the list and the number of objects. -/
def tssBatchLoad (batch : Batch) (listHead : Addr) : Code (Batch × Addr × UInt32) := do
  assert (decide (batch.targetCount > batch.currentCount))
  if listHead = NULL then return (batch, listHead, 0)
  else do
    let target := batch.targetCount - batch.currentCount
    let (total, listTail) ← loadLoop (target.toNat - 1) 1 listHead
    let batch ← loadHead batch listHead
    let rest ← getNext listTail
    setNext listTail NULL
    return ({ batch with tail := listTail, currentCount := batch.currentCount + total }, rest, total)

/-- `tss_batch_unload`: the new head of the list and the number of objects. -/
def tssBatchUnload (batch : Batch) (listHead : Addr) : Code (Addr × UInt32) :=
  if batch.targetCount = 0 then return (listHead, 0)
  else do
    assert (batch.head != NULL)
    assert (batch.tail != NULL)
    let next ← getNext batch.tail
    assert (next == NULL)
    setNext batch.tail listHead
    return (batch.head, batch.currentCount)

/-- `tss_batch_met_target`. -/
def tssBatchMetTarget (batch : Batch) : Bool := decide (batch.currentCount ≥ batch.targetCount)

/-! ### The allocator -/

/-- `tss_allocator_add_slab`: the error. -/
def tssAllocatorAddSlab (conf : SlabConfig) (mmap : Mmap) : Code JfsErr := do
  match ← tssSlabCreate conf mmap with
  | none => return .sys
  | some newSlab =>
    let slab ← getSlab newSlab
    setSlab newSlab { slab with next := (← Fallible.get).activeListHead }
    Fallible.modify fun m => { m with activeListHead := newSlab, activeListCount := m.activeListCount + 1 }
    return .ok

/-- The first loop of `tss_allocator_batch_acquire`. -/
def addSlabs (conf : SlabConfig) (mmap : Mmap) : ℕ → Code JfsErr
  | 0 => return .ok
  | n + 1 => do
    let err ← tssAllocatorAddSlab conf mmap
    if err ≠ .ok then return err else addSlabs conf mmap n

/-- `obj_remaining` of `tss_allocator_batch_acquire`. -/
def objRemaining (conf : SlabConfig) (m : Mem) : UInt64 := conf.objPerSlab * m.activeListCount - m.usedObjCount

/-- The first part of `tss_allocator_batch_acquire`: slabs are added if there are not enough
objects. -/
def makeRoom (conf : SlabConfig) (mmap : Mmap) (targetCount : UInt32) : Code JfsErr := do
  let m ← Fallible.get
  if objRemaining conf m < targetCount.toUInt64 then
    let objNeeded := targetCount.toUInt64 - objRemaining conf m
    addSlabs conf mmap (objNeeded / conf.objPerSlab + 1).toNat
  else return .ok

/-- The second loop of `tss_allocator_batch_acquire`, from the slab `current` on. -/
def loadSlabs (turns : ℕ) (current : Addr) (batch : Batch) : Code Batch :=
  if batch.currentCount < batch.targetCount ∧ current ≠ NULL then
    match turns with
    | 0 => Fallible.fail .turns
    | n + 1 => do
      let slab ← getSlab current
      let (batch, freeListHead, loadCount) ← tssBatchLoad batch slab.freeListHead
      setSlab current { slab with freeListHead := freeListHead, usedCount := slab.usedCount + loadCount.toUInt64 }
      Fallible.modify fun m => { m with usedObjCount := m.usedObjCount + loadCount.toUInt64 }
      loadSlabs n slab.next batch
  else return batch

/-- `tss_allocator_batch_acquire`: the batch and the error. -/
def tssAllocatorBatchAcquire (conf : SlabConfig) (mmap : Mmap) (batch : Batch) : Code (Batch × JfsErr) := do
  assert (decide (0 < batch.targetCount))
  assert (batch.currentCount == 0)
  assert (batch.head == NULL)
  assert (batch.tail == NULL)
  let err ← makeRoom conf mmap batch.targetCount
  if err ≠ .ok then return (batch, err)
  else do
    let m ← Fallible.get
    let batch ← loadSlabs m.mapped.length m.activeListHead batch
    assert (tssBatchMetTarget batch)
    return (batch, .ok)

/-- `tss_allocator_release_obj`. -/
def tssAllocatorReleaseObj (conf : SlabConfig) (objFree : Addr) : Code Unit := do
  let slabAddr := tssAllocatorFindSlab conf objFree
  let slab ← getSlab slabAddr
  setNext objFree slab.freeListHead
  setSlab slabAddr { slab with freeListHead := objFree, usedCount := slab.usedCount - 1 }
  Fallible.modify fun m => { m with usedObjCount := m.usedObjCount - 1 }
  if slab.usedCount - 1 = 0 ∧ slab.retiredFlag = true then tssSlabDestroy conf slabAddr else return ()

/-- The loop of `tss_allocator_batch_release`. -/
def releaseLoop (conf : SlabConfig) (turns : ℕ) (currentObj : Addr) : Code Unit :=
  if currentObj ≠ NULL then
    match turns with
    | 0 => Fallible.fail .turns
    | n + 1 => do
      let next ← getNext currentObj
      tssAllocatorReleaseObj conf currentObj
      releaseLoop conf n next
  else return ()

/-- `tss_allocator_batch_release`: the batch is empty afterwards. -/
def tssAllocatorBatchRelease (conf : SlabConfig) (batch : Batch) : Code Batch := do
  let m ← Fallible.get
  releaseLoop conf (m.mapped.length * conf.objPerSlab.toNat) batch.head
  return { batch with currentCount := 0, head := NULL, tail := NULL }

/-- `*prev_next`: the head of the active list, or the field `next` of a slab. -/
def getLink : Option Addr → Code Addr
  | none => return (← Fallible.get).activeListHead
  | some slab => return (← getSlab slab).next

/-- `*prev_next = value`. -/
def setLink : Option Addr → Addr → Code Unit
  | none, value => Fallible.modify fun m => { m with activeListHead := value }
  | some slabAddr, value => do
    let slab ← getSlab slabAddr
    setSlab slabAddr { slab with next := value }

/-- The loop of `tss_allocator_retire_slabs`. -/
def retireLoop (conf : SlabConfig) (turns : ℕ) (prevNext : Option Addr) : Code Unit := do
  let current ← getLink prevNext
  if current ≠ NULL then
    match turns with
    | 0 => Fallible.fail .turns
    | n + 1 => do
      let slab ← getSlab current
      if slab.usedCount = 0 then do
        setLink prevNext slab.next
        tssSlabDestroy conf current
        retireLoop conf n prevNext
      else if slab.usedCount ≤ conf.retireThreshold then do
        setLink prevNext slab.next
        setSlab current { slab with next := NULL, retiredFlag := true }
        Fallible.modify fun m => { m with activeListCount := m.activeListCount - 1 }
        retireLoop conf n prevNext
      else retireLoop conf n (some current)
  else return ()

/-- `tss_allocator_retire_slabs`. -/
def tssAllocatorRetireSlabs (conf : SlabConfig) : Code Unit := do
  let m ← Fallible.get
  retireLoop conf m.mapped.length none

end FileSync.ThreadSafeSlab
