import Mathlib.Data.UInt
import FileSync.AlignedMmap
import FileSync.Error
import FileSync.Lib.Loop

/-!
# The slab allocator: its configuration

`slab_allocator.c` is the successor of the thread-safe slab allocator. What there is of it
turns the caller's configuration into the geometry of a slab: how large an object is
with its padding, how many pages a slab has, and how many batches of objects.
`sa_config_init` returns an error for a configuration that it rejects; it also has
assertions, divisions and a loop, so it may as well not return at all. And slabs are
mapped, and found from the addresses in them.
-/

namespace FileSync.SlabAllocator

open FileSync.Lib

/-- `jfs_sa_allocator_config_t`. The fields of 32 bits are zero for the default. -/
structure AllocatorConfig where
  objSize : UInt64
  objAlign : UInt64
  batchCapacity : UInt32
  allocStoreCapacity : UInt32
  cacheStoreCapacity : UInt32
  cacheAcquireAmount : UInt32
  cacheReleaseAmount : UInt32
  slabAcquireCount : UInt32

/-- `sa_config_t`. -/
structure SaConfig where
  objAlign : UInt64
  objPaddedSize : UInt64
  slabSize : UInt64
  slabOffset : UInt64
  slabObjMask : UInt64
  batchCapacity : UInt32
  batchPerSlab : UInt64
  allocStoreCapacity : UInt32
  cacheStoreCapacity : UInt32
  cacheAcquireAmount : UInt32
  cacheReleaseAmount : UInt32
  deriving DecidableEq, Repr

/-- Why there is no configuration. -/
inductive Stop where
  /-- `VOID_FAIL_IF` has returned with this error. -/
  | err (e : JfsErr)
  | assertion
  | divByZero
  /-- The loop does not end. -/
  | endless
  deriving DecidableEq, Repr

/-- A piece of the program. -/
abbrev Code := Except Stop

/-- `VOID_FAIL_IF`. -/
def voidFailIf (p : Bool) (e : JfsErr) : Code Unit := if p then .error (.err e) else .ok ()

/-- `assert`. -/
def assert (p : Bool) : Code Unit := if p then .ok () else .error .assertion

/-- `x / y`. -/
def divide (x y : UInt64) : Code UInt64 := if y = 0 then .error .divByZero else .ok (x / y)

/-- `x % y`. -/
def modulo (x y : UInt64) : Code UInt64 := if y = 0 then .error .divByZero else .ok (x % y)

/-- `x ? x : d`. -/
def orDefault (x d : UInt32) : UInt32 := if x ≠ 0 then x else d

/-- `MIN_OBJ_SIZE`, the size of a `jfs_sa_obj_t`. -/
def minObjSize : UInt64 := 8

/-- `PAGE_SIZE`. -/
def pageSize : UInt64 := 4096

/-- `sizeof(sa_slab_t)`. -/
def sizeofSlab : UInt64 := 16

/-- `ULONG_MAX`. -/
def ulongMax : UInt64 := 18446744073709551615

/-! ### Sizes -/

/-- `(n + align - 1) & ~(align - 1)`. -/
def alignUp (n align : UInt64) : UInt64 := (n + align - 1) &&& ~~~(align - 1)

/-- `obj_padded_size`. -/
def objPaddedSize (c : AllocatorConfig) : UInt64 :=
  let objSize := if c.objSize > minObjSize then c.objSize else minObjSize
  alignUp objSize c.objAlign

/-- `slab_offset`. -/
def slabOffset (c : AllocatorConfig) : UInt64 := alignUp sizeofSlab c.objAlign

/-! ### Capacities -/

/-- The fields of `sa_config_t` that are numbers of objects and of batches, with the defaults put
in. -/
structure Capacities where
  batchCapacity : UInt32
  cacheAcquireAmount : UInt32
  cacheReleaseAmount : UInt32
  cacheStoreCapacity : UInt32
  allocStoreCapacity : UInt32

/-- Where `sa_config_init` puts in the defaults. -/
def saCapacities (c : AllocatorConfig) : Capacities where
  batchCapacity := orDefault c.batchCapacity 64
  cacheAcquireAmount := orDefault c.cacheAcquireAmount 1
  cacheReleaseAmount := orDefault c.cacheReleaseAmount 1
  -- not `orDefault`: another field is tested than is taken
  cacheStoreCapacity := if c.cacheStoreCapacity ≠ 0 then c.allocStoreCapacity else 2
  allocStoreCapacity := orDefault c.allocStoreCapacity 4

/-- The four comparisons after that. -/
def checkCapacities (k : Capacities) : Code Unit := do
  voidFailIf (decide (k.cacheAcquireAmount > k.cacheStoreCapacity)) .badConf
  voidFailIf (decide (k.cacheReleaseAmount > k.cacheStoreCapacity)) .badConf
  voidFailIf (decide (k.cacheAcquireAmount > k.allocStoreCapacity)) .badConf
  voidFailIf (decide (k.cacheReleaseAmount > k.allocStoreCapacity)) .badConf

/-! ### The slab -/

/-- `acquire_per_slab`. -/
def acquirePerSlab (c : AllocatorConfig) : UInt64 := (orDefault c.slabAcquireCount 8).toUInt64

/-- `slab_size_needed`. -/
def slabSizeNeeded (c : AllocatorConfig) : UInt64 :=
  acquirePerSlab c * (saCapacities c).cacheAcquireAmount.toUInt64 * (saCapacities c).batchCapacity.toUInt64 *
    objPaddedSize c + slabOffset c

/-- `min_pages_needed`. -/
def minPagesNeeded (c : AllocatorConfig) : UInt64 := (slabSizeNeeded c + pageSize - 1) / pageSize

/-- One turn of the loop that doubles the number of pages. -/
def doublePages (minPages pagesPerSlab : UInt64) : Turn UInt64 UInt64 :=
  if pagesPerSlab < minPages then .again (pagesPerSlab * 2) else .leave pagesPerSlab

/-- The loop. A word that has been doubled 64 times is 0, and then stays so: if the loop has not
ended by then it never does. -/
def pagesPerSlab (minPages : UInt64) : Code UInt64 :=
  match loop (doublePages minPages) 65 1 with
  | some pages => .ok pages
  | none => .error .endless

/-- `slab_size`, from the loop. -/
def slabSize (c : AllocatorConfig) : Code UInt64 := do
  voidFailIf (decide (minPagesNeeded c > ulongMax / 2)) .badConf
  let pages ← pagesPerSlab (minPagesNeeded c)
  return pages * pageSize

/-- `batch_total_bytes`. -/
def batchTotalBytes (c : AllocatorConfig) : UInt64 := (saCapacities c).batchCapacity.toUInt64 * objPaddedSize c

/-- `batch_per_slab`, in a slab of this size. -/
def batchPerSlab (c : AllocatorConfig) (size : UInt64) : Code UInt64 :=
  divide (size - slabOffset c + batchTotalBytes c - 1) (batchTotalBytes c)

/-- The last part of `sa_config_init`: the slab. -/
def slabInit (c : AllocatorConfig) : Code SaConfig := do
  let k := saCapacities c
  let size ← slabSize c
  voidFailIf (decide (size ≥ slabSizeNeeded c)) .badConf
  assert (size &&& (size - 1) != 0)
  let perSlab ← batchPerSlab c size
  assert (decide (acquirePerSlab c * k.cacheAcquireAmount.toUInt64 ≤ perSlab))
  voidFailIf (decide (perSlab > k.allocStoreCapacity.toUInt64)) .badConf
  return { objAlign := c.objAlign, objPaddedSize := objPaddedSize c, slabSize := size, slabOffset := slabOffset c,
           slabObjMask := ~~~(size - 1), batchCapacity := k.batchCapacity, batchPerSlab := perSlab,
           allocStoreCapacity := k.allocStoreCapacity, cacheStoreCapacity := k.cacheStoreCapacity,
           cacheAcquireAmount := k.cacheAcquireAmount, cacheReleaseAmount := k.cacheReleaseAmount }

/-- `sa_config_init`. -/
def saConfigInit (c : AllocatorConfig) : Code SaConfig := do
  voidFailIf (c.objAlign == 0) .badConf
  voidFailIf (c.objAlign &&& (c.objAlign - 1) != 0) .badConf
  assert ((← modulo (objPaddedSize c) c.objAlign) == 0)
  assert ((← modulo (slabOffset c) c.objAlign) == 0)
  checkCapacities (saCapacities c)
  slabInit c

/-! ### Mapping -/

/-- What `sa_aligned_mmap` does with the address from `mmap`. -/
def saAlignedMmap (conf : SaConfig) (rawAddr : Addr) : Checked Mapping :=
  alignedMmap pageSize conf.slabSize rawAddr

/-- `sa_allocator_find_slab`. -/
def saAllocatorFindSlab (conf : SaConfig) (obj : Addr) : Addr := obj &&& ~~~(conf.slabSize - 1)

end FileSync.SlabAllocator
