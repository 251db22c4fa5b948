import FileSync.FreeList
import FileSync.Lib.Loop
import FileSync.Lib.RedBlack
import Mathlib.Logic.Function.Basic

/-!
# The binary search tree

`binary_search_tree.c`: a red-black tree with parent pointers over nodes taken
from a free list, values with equal keys hanging off the linked node in a chain,
and three cached nodes.

## The model

The memory is a function from addresses to nodes. A node keeps its parent and
its colour in one word, the colour in bit 0, and the same word is the link of
the free list while the node is free. The value that the source keeps at
`value_offset` bytes behind a node is a field of the node, so a value pointer is
the address of its node. `nil` is the address of `nil_storage`, in the same
memory.

The source calls `tree->attach` and `tree->detach`, which `struct jfs_bst` does
not declare; they are read as `bst_attach_node` and `bst_detach_node`.

An assertion that fails clears `assertsHeld` and does nothing else. The
accessors `bst_parent` and `bst_color` assert that their node is not `NULL`; a
function that calls them says so with `touch`. The assertions that the tree and
the key are not `NULL` have nothing to say here.

The two mirrored copies of the rotations and of the fix-up branches are one
definition over a `Side`. Loops have fuel; `none` is a loop that ran out of it.
-/

namespace FileSync.SearchTree

open FileSync.Lib FileSync.FreeList FileSync.MemoryLayout

/-- `jfs_bst_node_t`, with the value that lies behind it. -/
structure Node (V : Type) where
  /-- The parent, with the colour in bit 0. In a free node, the next free node. -/
  parentColor : UInt64
  /-- The right child. -/
  right : Addr
  /-- The left child. -/
  left : Addr
  /-- The chain of nodes with the same key. -/
  list : Addr
  /-- The value. -/
  value : V

/-- `jfs_bst_cache_t`. -/
structure Cache where
  /-- The node with the least key. -/
  smallest : Addr
  /-- The node with the greatest key. -/
  largest : Addr
  /-- The node that the last `jfs_bst_puts` ended at. -/
  previous : Addr
  deriving DecidableEq, Repr

/-- `jfs_bst_t`, with the memory its nodes are in. The comparison function is an
argument of the functions that call it. -/
structure Bst (V : Type) where
  /-- The root, or `nil`. -/
  root : Addr
  /-- The address of `nil_storage`. -/
  nil : Addr
  /-- The memory. -/
  heap : Addr → Node V
  /-- The cached nodes. -/
  cache : Cache
  /-- Where a value starts, counted from its node. -/
  valueOffset : UInt64
  /-- The size of a value. -/
  valueSize : UInt64
  /-- The free nodes. -/
  freeList : Fl
  /-- Whether every assertion so far held. -/
  assertsHeld : Bool

/-- `bst_location_t`. -/
structure Location where
  /-- The node with the key, or `nil`. -/
  node : Addr
  /-- Its parent, or where the key would hang. -/
  parent : Addr
  /-- How the key compares with the parent's value. -/
  parentCmp : Int
  deriving DecidableEq, Repr

/-- `jfs_bst_conf_t`. -/
structure Conf (K V : Type) where
  /-- The memory for the nodes. -/
  component : Component
  /-- The comparison function, `none` being `NULL`. -/
  cmp : Option (K → V → Int)

/-- `sizeof(jfs_bst_node_t)`. -/
def sizeofNode : UInt64 := 32

/-- `alignof(jfs_bst_node_t)`. -/
def alignofNode : UInt64 := 8

/-- The colour bit of a word: `BST_RED` is 0 and `BST_BLACK` is 1. -/
def colorBit : Color → UInt64
  | .red => 0
  | .black => 1

/-- The link of the free list is the first word of a node. -/
def nodeLinks (V : Type) : LinkMemory (Addr → Node V) where
  next heap a := (heap a).parentColor
  setNext heap a b := Function.update heap a { heap a with parentColor := b }

variable {K V : Type}

namespace Bst

/-- `assert(p)`. -/
def assert (t : Bst V) (p : Prop) [Decidable p] : Bst V :=
  { t with assertsHeld := t.assertsHeld && decide p }

/-- What `bst_parent` and `bst_color` assert of the node they read. -/
def touch (t : Bst V) (a : Addr) : Bst V := t.assert (a ≠ NULL)

/-- `a->left` or `a->right`. -/
def child (t : Bst V) (d : Side) (a : Addr) : Addr :=
  match d with
  | .left => (t.heap a).left
  | .right => (t.heap a).right

/-- `a->left = b` or `a->right = b`. -/
def setChild (t : Bst V) (d : Side) (a b : Addr) : Bst V :=
  { t with heap := Function.update t.heap a (match d with
    | .left => { t.heap a with left := b }
    | .right => { t.heap a with right := b }) }

/-- `a->list`. -/
def list (t : Bst V) (a : Addr) : Addr := (t.heap a).list

/-- `a->list = b`. -/
def setList (t : Bst V) (a b : Addr) : Bst V :=
  { t with heap := Function.update t.heap a { t.heap a with list := b } }

/-- The value of a node. -/
def value (t : Bst V) (a : Addr) : V := (t.heap a).value

end Bst

/-! ### Parent and colour -/

/-- `bst_parent`. -/
def bstParent (t : Bst V) (node : Addr) : Addr := (t.heap node).parentColor &&& ~~~1

/-- `bst_color`. -/
def bstColor (t : Bst V) (node : Addr) : Color :=
  if (t.heap node).parentColor &&& 1 = 0 then .red else .black

/-- The assignment that the three functions below make to `node->parent_color`. -/
def Bst.setParentColorWord (t : Bst V) (node : Addr) (w : UInt64) : Bst V :=
  { t with heap := Function.update t.heap node { t.heap node with parentColor := w } }

/-- `bst_set_parent`. -/
def bstSetParent (t : Bst V) (node parent : Addr) : Bst V :=
  let t := t.assert (node ≠ NULL)
  let t := t.assert (parent ≠ NULL)
  t.setParentColorWord node (parent ||| ((t.heap node).parentColor &&& 1))

/-- `bst_set_color`. -/
def bstSetColor (t : Bst V) (node : Addr) (color : Color) : Bst V :=
  let t := t.assert (node ≠ NULL)
  t.setParentColorWord node (((t.heap node).parentColor &&& ~~~1) ||| colorBit color)

/-- `bst_set_parent_color`. -/
def bstSetParentColor (t : Bst V) (node parent : Addr) (color : Color) : Bst V :=
  let t := t.assert (node ≠ NULL)
  let t := t.assert (parent ≠ NULL)
  t.setParentColorWord node (parent ||| colorBit color)

/-! ### Rotations and fix-ups -/

/-- The two rotations: the node `x` goes down on side `d`. -/
def bstRotate (d : Side) (t : Bst V) (x : Addr) : Bst V :=
  let t := t.assert (x ≠ t.nil)
  let t := t.assert (t.child d.flip x ≠ t.nil)
  let y := t.child d.flip x
  let t := t.touch x
  let xParent := bstParent t x
  let t := t.setChild d.flip x (t.child d y)
  let t := if t.child d y ≠ t.nil then bstSetParent t (t.child d y) x else t
  let t := bstSetParent t y xParent
  let t :=
    if xParent = t.nil then { t with root := y }
    else if x = t.child .left xParent then t.setChild .left xParent y
    else t.setChild .right xParent y
  let t := t.setChild d y x
  bstSetParent t x y

/-- `bst_rotate_left`. -/
def bstRotateLeft (t : Bst V) (x : Addr) : Bst V := bstRotate .left t x

/-- `bst_rotate_right`. -/
def bstRotateRight (t : Bst V) (x : Addr) : Bst V := bstRotate .right t x

/-- `bst_transplant`. -/
def bstTransplant (t : Bst V) (old new : Addr) : Bst V :=
  let t := t.assert (t.root ≠ t.nil)
  let t := t.assert (old ≠ new)
  let t := t.touch old
  let oldParent := bstParent t old
  let t :=
    if oldParent = t.nil then { t with root := new }
    else if t.child .left oldParent = old then t.setChild .left oldParent new
    else t.setChild .right oldParent new
  bstSetParent t new oldParent

/-- `bst_local_minimum` and `bst_local_maximum`: as far as it goes to side `d`. -/
def bstLocalExtreme (d : Side) (fuel : ℕ) (t : Bst V) (start : Addr) : Option Addr :=
  loop (fun a => if t.child d a ≠ t.nil then .again (t.child d a) else .leave a) fuel start

/-- `bst_local_minimum`. -/
def bstLocalMinimum (fuel : ℕ) (t : Bst V) (start : Addr) : Option Addr :=
  bstLocalExtreme .left fuel t start

/-- `bst_local_maximum`. -/
def bstLocalMaximum (fuel : ℕ) (t : Bst V) (start : Addr) : Option Addr :=
  bstLocalExtreme .right fuel t start

/-- The branch of the loop of `bst_fixup_insert` for a parent at side `d` of the
grandparent. -/
def bstFixupInsertSide (d : Side) (t : Bst V) (node parent grandparent : Addr) :
    Turn (Bst V × Addr) (Bst V) :=
  let uncle := t.child d.flip grandparent
  let t := t.touch uncle
  if bstColor t uncle = .red then
    let t := bstSetColor t parent .black
    let t := bstSetColor t uncle .black
    let t := bstSetColor t grandparent .red
    .again (t, grandparent)
  else
    let (t, parent) :=
      if node = t.child d.flip parent then
        -- `node` becomes the parent, which the rotation puts below its old child
        let t := (bstRotate d t parent).touch parent
        (t, bstParent t parent)
      else (t, parent)
    let t := bstSetColor t parent .black
    let t := bstSetColor t grandparent .red
    .leave (bstRotate d.flip t grandparent)

/-- A turn of the loop of `bst_fixup_insert`. -/
def bstFixupInsertTurn (s : Bst V × Addr) : Turn (Bst V × Addr) (Bst V) :=
  let t := s.1
  let node := s.2
  let t := t.touch node
  let parent := bstParent t node
  let t := t.touch parent
  if bstColor t parent = .red then
    let grandparent := bstParent t parent
    let t := t.assert (grandparent ≠ t.nil)
    if parent = t.child .left grandparent then bstFixupInsertSide .left t node parent grandparent
    else bstFixupInsertSide .right t node parent grandparent
  else .leave t

/-- `bst_fixup_insert`. -/
def bstFixupInsert (fuel : ℕ) (t : Bst V) (node : Addr) : Option (Bst V) := do
  let t := t.assert (node ≠ t.nil)
  let t := t.assert (t.root ≠ t.nil)
  let t := t.touch node
  let t := t.assert (bstColor t node = .red)
  let t ← loop bstFixupInsertTurn fuel (t, node)
  return bstSetColor t t.root .black

/-- The branch of the loop of `bst_fixup_delete` for a node at side `d` of its
parent: the tree and the node to go on with. -/
def bstFixupDeleteSide (d : Side) (t : Bst V) (parent : Addr) : Bst V × Addr :=
  let sibling := t.child d.flip parent
  let t := t.touch sibling
  let (t, sibling) :=
    if bstColor t sibling = .red then
      let t := bstSetColor t sibling .black
      let t := bstSetColor t parent .red
      let t := bstRotate d t parent
      (t, t.child d.flip parent)
    else (t, sibling)
  let t := t.touch (t.child .left sibling)
  let leftBlack := bstColor t (t.child .left sibling) = .black
  let t := if leftBlack then t.touch (t.child .right sibling) else t
  if leftBlack ∧ bstColor t (t.child .right sibling) = .black then
    (bstSetColor t sibling .red, parent)
  else
    let t := t.touch (t.child d.flip sibling)
    let (t, sibling) :=
      if bstColor t (t.child d.flip sibling) = .black then
        let t := bstSetColor t (t.child d sibling) .black
        let t := bstSetColor t sibling .red
        let t := bstRotate d.flip t sibling
        (t, t.child d.flip parent)
      else (t, sibling)
    let t := t.touch parent
    let t := bstSetColor t sibling (bstColor t parent)
    let t := bstSetColor t parent .black
    let t := bstSetColor t (t.child d.flip sibling) .black
    let t := bstRotate d t parent
    (t, t.root)

/-- A turn of the loop of `bst_fixup_delete`. -/
def bstFixupDeleteTurn (s : Bst V × Addr) : Turn (Bst V × Addr) (Bst V × Addr) :=
  let t := s.1
  let node := s.2
  let t := if node ≠ t.root then t.touch node else t
  if node ≠ t.root ∧ bstColor t node = .black then
    let parent := bstParent t node
    if node = t.child .left parent then .again (bstFixupDeleteSide .left t parent)
    else .again (bstFixupDeleteSide .right t parent)
  else .leave (t, node)

/-- `bst_fixup_delete`. -/
def bstFixupDelete (fuel : ℕ) (t : Bst V) (node : Addr) : Option (Bst V) := do
  let (t, node) ← loop bstFixupDeleteTurn fuel (t, node)
  return bstSetColor t node .black

/-! ### Search, insertion and deletion -/

/-- A turn of the loop of `bst_find`. -/
def bstFindTurn (cmp : K → V → Int) (t : Bst V) (key : K) (location : Location) :
    Turn Location Location :=
  if location.node = t.nil then .leave location
  else
    let cmpResult := cmp key (t.value location.node)
    if cmpResult = 0 then .leave location
    else .again
      { node := if cmpResult < 0 then t.child .left location.node else t.child .right location.node
        parent := location.node
        parentCmp := cmpResult }

/-- `bst_find`. -/
def bstFind (cmp : K → V → Int) (fuel : ℕ) (t : Bst V) (key : K) : Option Location :=
  loop (bstFindTurn cmp t key) fuel { node := t.root, parent := t.nil, parentCmp := 0 }

/-- `bst_insert`. -/
def bstInsert (fuel : ℕ) (t : Bst V) (node : Addr) (location : Location) : Option (Bst V) :=
  let t := t.assert (location.node = t.nil)
  let t := t.setChild .left node t.nil
  let t := t.setChild .right node t.nil
  let t := bstSetParentColor t node location.parent .red
  let t :=
    if location.parent = t.nil then { t.assert (t.root = t.nil) with root := node }
    else
      let t := t.assert (location.parentCmp ≠ 0)
      if location.parentCmp = -1 then t.setChild .left location.parent node
      else t.setChild .right location.parent node
  bstFixupInsert fuel t node

/-- `bst_delete` up to the fix-up: the tree, the node that took the place of the one
that was unlinked, and the colour that went missing there. -/
def bstUnlink (fuel : ℕ) (t : Bst V) (node : Addr) : Option (Bst V × Addr × Color) :=
  let t := t.assert (node ≠ t.nil)
  let t := t.touch node
  let deletedColor := bstColor t node
  if t.child .left node = t.nil then
    some (bstTransplant t node (t.child .right node), t.child .right node, deletedColor)
  else if t.child .right node = t.nil then
    some (bstTransplant t node (t.child .left node), t.child .left node, deletedColor)
  else do
    let nextLargest ← bstLocalMinimum fuel t (t.child .right node)
    let t := t.touch nextLargest
    let deletedColor := bstColor t nextLargest
    let replacement := t.child .right nextLargest
    let t :=
      if nextLargest ≠ t.child .right node then
        let t := bstTransplant t nextLargest (t.child .right nextLargest)
        let t := t.setChild .right nextLargest (t.child .right node)
        bstSetParent t (t.child .right nextLargest) nextLargest
      else bstSetParent t replacement nextLargest
    let t := bstTransplant t node nextLargest
    let t := t.setChild .left nextLargest (t.child .left node)
    let t := bstSetParent t (t.child .left nextLargest) nextLargest
    let t := t.touch node
    return (bstSetColor t nextLargest (bstColor t node), replacement, deletedColor)

/-- `bst_delete`. -/
def bstDelete (fuel : ℕ) (t : Bst V) (node : Addr) : Option (Bst V) := do
  let (t, replacement, deletedColor) ← bstUnlink fuel t node
  if deletedColor = .black then bstFixupDelete fuel t replacement else return t

/-! ### The cache -/

/-- `bst_check_cache`. -/
def bstCheckCache (cmp : K → V → Int) (t : Bst V) (key : K) : Addr :=
  if t.cache.previous ≠ t.nil ∧ cmp key (t.value t.cache.previous) = 0 then t.cache.previous
  else if t.cache.largest ≠ t.nil ∧ cmp key (t.value t.cache.largest) = 0 then t.cache.largest
  else if t.cache.smallest ≠ t.nil ∧ cmp key (t.value t.cache.smallest) = 0 then t.cache.smallest
  else t.nil

/-- `bst_update_cache_insert`. -/
def bstUpdateCacheInsert (t : Bst V) (location : Location) : Bst V :=
  if location.parentCmp = -1 ∧ location.parent = t.cache.smallest then
    { t with cache := { t.cache with smallest := t.child .left location.parent } }
  else if location.parentCmp = 1 ∧ location.parent = t.cache.largest then
    { t with cache := { t.cache with largest := t.child .right location.parent } }
  else if t.cache.largest = t.nil then
    { t with cache := { t.cache with largest := t.root, smallest := t.root } }
  else t

/-- `bst_update_cache_delete`. -/
def bstUpdateCacheDelete (fuel : ℕ) (t : Bst V) (node : Addr) : Option (Bst V) :=
  if t.cache.smallest = t.cache.largest then
    let t := t.assert (node = t.root)
    some { t with cache := { t.cache with smallest := t.nil, largest := t.nil } }
  else if node = t.cache.smallest then do
    let t := t.assert (t.child .left t.cache.smallest = t.nil)
    if t.child .right t.cache.smallest ≠ t.nil then
      let smallest ← bstLocalMinimum fuel t (t.child .right t.cache.smallest)
      return { t with cache := { t.cache with smallest := smallest } }
    else
      let t := t.touch t.cache.smallest
      return { t with cache := { t.cache with smallest := bstParent t t.cache.smallest } }
  else if node = t.cache.largest then do
    let t := t.assert (t.child .right t.cache.largest = t.nil)
    if t.child .left t.cache.largest ≠ t.nil then
      let largest ← bstLocalMaximum fuel t (t.child .left t.cache.largest)
      return { t with cache := { t.cache with largest := largest } }
    else
      let t := t.touch t.cache.largest
      return { t with cache := { t.cache with largest := bstParent t t.cache.largest } }
  else some t

/-! ### The operations -/

/-- `bst_pack_node`. -/
def bstPackNode (t : Bst V) (node : Addr) (value : V) : Bst V :=
  { t with heap := Function.update t.heap node { t.heap node with value := value } }

/-- `bst_attach_node`. -/
def bstAttachNode (t : Bst V) (baseNode attachNode : Addr) : Bst V :=
  let t := t.setList attachNode (t.list baseNode)
  t.setList baseNode attachNode

/-- `bst_detach_node`: the tree, and the node that is to go. -/
def bstDetachNode (t : Bst V) (baseNode : Addr) : Bst V × Addr :=
  if t.list baseNode = NULL then (t, baseNode)
  else (t.setList baseNode (t.list (t.list baseNode)), t.list baseNode)

/-- `jfs_fl_alloc(&tree->free_list)`. -/
def Bst.flAlloc (t : Bst V) : Addr × Bst V :=
  let (node, fl) := jfsFlAlloc (nodeLinks V) t.heap t.freeList
  (node, { t with freeList := fl })

/-- `jfs_fl_free(&tree->free_list, node)`. -/
def Bst.flFree (t : Bst V) (node : Addr) : Bst V :=
  let (heap, fl) := jfsFlFree (nodeLinks V) t.heap t.freeList node
  { t with heap := heap, freeList := fl }

/-- `bst_detach_and_delete`: the tree, and what `value_out` is given. -/
def bstDetachAndDelete (fuel : ℕ) (t : Bst V) (node : Addr) : Option (Bst V × V) :=
  let t := t.assert (t.root ≠ t.nil)
  let (t, detachNode) := bstDetachNode t node
  let valueOut := t.value detachNode
  if detachNode = node then do
    let t ← bstDelete fuel t node
    let t ← bstUpdateCacheDelete fuel t node
    return (t.flFree node, valueOut)
  else some (t.flFree detachNode, valueOut)

/-- `jfs_bst_make_desc`. -/
def jfsBstMakeDesc (objSize objAlign objCount : UInt64) : Checked (Except JfsErr Desc) := do
  let nodeDesc : Desc := { align := alignofNode, size := sizeofNode, count := 1 }
  Checked.assert (jfsMlgValidDesc nodeDesc)
  let objDesc : Desc := { align := objAlign, size := objSize, count := objCount }
  if !jfsMlgValidDesc objDesc then return .error .arg
  let (nodeDesc, _) ← jfsMlgAppend nodeDesc objDesc
  return .ok nodeDesc

/-- `jfs_bst_init`, over the given memory and the address of `nil_storage`. -/
def jfsBstInit (heap : Addr → Node V) (nil : Addr) (conf : Conf K V) : Except JfsErr (Bst V) := do
  let (heap, fl) ← jfsFlInit (nodeLinks V) heap conf.component
  let valueOffset := jfsMlgAlignSize sizeofNode conf.component.desc.align
  let t : Bst V :=
    { root := nil, nil := nil, heap := heap
      cache := { smallest := nil, largest := nil, previous := nil }
      valueOffset := valueOffset.val, valueSize := conf.component.desc.size - valueOffset.val
      freeList := fl, assertsHeld := valueOffset.ok }
  let t := t.setChild .left nil nil
  let t := t.setChild .right nil nil
  let t := bstSetParentColor t nil nil .black
  if conf.cmp.isNone then .error .badConf else .ok t

variable (cmp : K → V → Int)

/-- `jfs_bst_puts`: the tree, and the error. -/
def jfsBstPuts (fuel : ℕ) (t : Bst V) (value : V) (key : K) : Option (Bst V × JfsErr) :=
  if t.freeList.count = 0 then some (t, .full)
  else
    let (node, t) := t.flAlloc
    let t := bstPackNode t node value
    let cachedNode := bstCheckCache cmp t key
    if cachedNode ≠ t.nil then
      let t := bstAttachNode t cachedNode node
      some ({ t with cache := { t.cache with previous := cachedNode } }, .ok)
    else do
      let location ← bstFind cmp fuel t key
      let t ←
        if location.node ≠ t.nil then some (bstAttachNode t location.node node)
        else (bstInsert fuel t node location).map fun t => bstUpdateCacheInsert t location
      return ({ t with cache := { t.cache with previous := node } }, .ok)

/-- What an operation that takes a value gives: the tree, the error, and what was
written to `value_out`. -/
structure Taken (V : Type) where
  /-- The tree. -/
  tree : Bst V
  /-- The error. -/
  err : JfsErr
  /-- What was written to `value_out`, if anything. -/
  out : Option V

/-- `jfs_bst_takes`. -/
def jfsBstTakes (fuel : ℕ) (t : Bst V) (key : K) : Option (Taken V) :=
  if t.root = t.nil then some ⟨t, .empty, none⟩
  else
    let cachedNode := bstCheckCache cmp t key
    if cachedNode ≠ t.nil then some ⟨t, .ok, some (t.value cachedNode)⟩
    else do
      let location ← bstFind cmp fuel t key
      if location.node = t.nil then return ⟨t, .bstBadKey, none⟩
      else
        let (t, valueOut) ← bstDetachAndDelete fuel t location.node
        return ⟨t, .ok, some valueOut⟩

/-- `jfs_bst_get_largest`. -/
def jfsBstGetLargest (fuel : ℕ) (t : Bst V) : Option (Taken V) :=
  if t.cache.largest = t.nil then some ⟨t, .empty, none⟩
  else do
    let (t, valueOut) ← bstDetachAndDelete fuel t t.cache.largest
    return ⟨t, .ok, some valueOut⟩

/-- `jfs_bst_get_smallest`. -/
def jfsBstGetSmallest (fuel : ℕ) (t : Bst V) : Option (Taken V) :=
  if t.cache.smallest = t.nil then some ⟨t, .empty, none⟩
  else do
    let (t, valueOut) ← bstDetachAndDelete fuel t t.cache.smallest
    return ⟨t, .ok, some valueOut⟩

end FileSync.SearchTree
