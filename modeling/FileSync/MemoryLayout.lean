import Mathlib.Algebra.Group.Nat.Defs
import FileSync.Error
import FileSync.Lib.Checked

/-!
# The memory layout generator

`memory_layout_generator.c`: one block of memory that holds a small struct, a
list of components, a header and any number of component regions, each at its
own alignment. `size_t` and `uintptr_t` are 64 bits and wrap; the sizes and
alignments of the structs are those of a 64-bit machine.
-/

namespace FileSync.MemoryLayout

open FileSync.Lib

/-- `jfs_mlg_desc_t`: `count` objects of `size` bytes, starting at a multiple of
`align`. -/
structure Desc where
  /-- The size of an object. -/
  size : UInt64
  /-- The alignment of the region. -/
  align : UInt64
  /-- The number of objects. -/
  count : UInt64
  deriving DecidableEq, Repr

/-- `jfs_mlg_layout_t`. The descriptions are an array of `descriptions_count`
entries, and that count is a `size_t`. -/
structure Layout where
  /-- The descriptions of the components. -/
  descriptions : List Desc
  /-- The description of the header. -/
  headerDesc : Desc
  /-- Their number is a `size_t`. -/
  length_lt : descriptions.length < 2 ^ 64

/-- The field `descriptions_count`. -/
def Layout.descriptionsCount (L : Layout) : UInt64 := UInt64.ofNat L.descriptions.length

/-- `jfs_mlg_component_t`. -/
structure Component where
  /-- Where the region starts. -/
  ptr : Addr
  /-- What it holds. -/
  desc : Desc
  deriving DecidableEq, Repr

/-- `jfs_mlg_memory_t` at the start of its block, with the entries of the component
list it points to. `blockSize` is the size the block was allocated with, which
the struct does not keep. -/
structure Memory where
  /-- The address of the struct, which is that of the block. -/
  addr : Addr
  /-- The size the block was allocated with. -/
  blockSize : UInt64
  /-- The field `component_list`. -/
  componentList : Addr
  /-- The field `component_count`. -/
  componentCount : UInt64
  /-- The field `header`. -/
  header : Addr
  /-- The entries of the component list. -/
  components : List Component

/-- `sizeof(jfs_mlg_memory_t)`. -/
def sizeofMemory : UInt64 := 24

/-- `alignof(jfs_mlg_memory_t)`. -/
def alignofMemory : UInt64 := 8

/-- `sizeof(jfs_mlg_component_t)`. -/
def sizeofComponent : UInt64 := 32

/-- `alignof(jfs_mlg_component_t)`. -/
def alignofComponent : UInt64 := 8

/-- `sizeof(uintptr_t)`. -/
def sizeofUintptr : UInt64 := 8

/-- `jfs_mlg_valid_align`. -/
def jfsMlgValidAlign (align : UInt64) : Bool := align != 0 && ((align - 1) &&& align) == 0

/-- `jfs_mlg_valid_desc`. -/
def jfsMlgValidDesc (desc : Desc) : Bool :=
  jfsMlgValidAlign desc.align && decide (0 < desc.size) && decide (0 < desc.count)

/-- `jfs_mlg_valid_component`. -/
def jfsMlgValidComponent (component : Component) : Bool :=
  jfsMlgValidDesc component.desc && component.ptr != NULL

/-- `jfs_mlg_apply_offset`. -/
def jfsMlgApplyOffset (ptr offset : UInt64) : Checked Addr := do
  Checked.assert (decide (0 < offset))
  return ptr + offset

/-- `jfs_mlg_align_size`. -/
def jfsMlgAlignSize (size align : UInt64) : Checked UInt64 := do
  Checked.assert (jfsMlgValidAlign align)
  Checked.assert (decide (0 < size))
  return (size + align - 1) &&& ~~~(align - 1)

/-- `jfs_mlg_append`: the new base, and the offset of what was appended. -/
def jfsMlgAppend (base toAppend : Desc) : Checked (Desc × UInt64) := do
  Checked.assert (jfsMlgValidDesc base)
  Checked.assert (jfsMlgValidDesc toAppend)
  let alignedBaseSize ← jfsMlgAlignSize base.size toAppend.align
  return ({ base with
    size := alignedBaseSize + toAppend.size * toAppend.count
    align := if toAppend.align > base.align then toAppend.align else base.align }, alignedBaseSize)

/-- The first loop of `jfs_mlg_memory_init`: append the descriptions one by one,
keeping the offsets, and give up at one that is not valid. -/
def appendDescriptions (base : Desc) : List Desc → Checked (Except JfsErr (Desc × List UInt64))
  | [] => return .ok (base, [])
  | desc :: rest => do
    if !jfsMlgValidDesc desc then return .error .badConf
    let (base, offset) ← jfsMlgAppend base desc
    match ← appendDescriptions base rest with
    | .error e => return .error e
    | .ok (base, offsets) => return .ok (base, offset :: offsets)

/-- The second loop of `jfs_mlg_memory_init`: the entries of the component list. -/
def fillComponents (memory : Addr) : List Desc → List UInt64 → Checked (List Component)
  | desc :: descs, offset :: offsets => do
    let ptr ← jfsMlgApplyOffset memory offset
    return { ptr := ptr, desc := desc } :: (← fillComponents memory descs offsets)
  | _, _ => return []

/-- `jfs_mlg_memory_init`. `malloc` tells whether an allocation of that size
succeeds, `posixMemalign` gives the block for an alignment and a size; an error
is a `NULL` result with that error set. -/
def jfsMlgMemoryInit (malloc : UInt64 → Bool) (posixMemalign : UInt64 → UInt64 → Option Addr)
    (layout : Layout) : Checked (Except JfsErr Memory) := do
  if !jfsMlgValidDesc layout.headerDesc then return .error .badConf
  let memoryDesc : Desc := { size := sizeofMemory, align := alignofMemory, count := 1 }
  let componentListDesc : Desc :=
    { size := sizeofComponent, align := alignofComponent, count := layout.descriptionsCount }
  let (memoryDesc, componentListOffset) ← jfsMlgAppend memoryDesc componentListDesc
  let (memoryDesc, headerOffset) ← jfsMlgAppend memoryDesc layout.headerDesc
  if !malloc (sizeofUintptr * layout.descriptionsCount) then return .error .sys
  match ← appendDescriptions memoryDesc layout.descriptions with
  | .error e => return .error e
  | .ok (memoryDesc, componentOffsets) =>
    match posixMemalign memoryDesc.align memoryDesc.size with
    | none => return .error .sys
    | some memory =>
      let componentList ← jfsMlgApplyOffset memory componentListOffset
      let header ← jfsMlgApplyOffset memory headerOffset
      let components ← fillComponents memory layout.descriptions componentOffsets
      return .ok { addr := memory, blockSize := memoryDesc.size, componentList := componentList,
                   componentCount := layout.descriptionsCount, header := header,
                   components := components }

end FileSync.MemoryLayout
