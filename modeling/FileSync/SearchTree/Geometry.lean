import FileSync.SearchTree.Init
import FileSync.MemoryLayout.Regions

/-!
# The memory of a tree

`jfs_bst_make_desc` describes the memory for a tree: a node, with the objects
appended to it. It keeps neither the offset nor the alignment of the objects, and
`jfs_bst_init` computes the offset again from the alignment of the whole. That is right
(`valueOffset_eq`): both are `2 ^ max 5 k` for objects aligned to `2 ^ k`.

The number of objects goes into the size of the node and not into `count`, which stays
1. So the tree gets one node that all objects belong to, and the memory is what was
asked for only if that was one object (`holdsObjects_iff`).
-/

namespace FileSync.SearchTree

open FileSync.Lib FileSync.FreeList FileSync.MemoryLayout

variable {K V : Type} {objSize objAlign objCount : UInt64} {k : ℕ}

/-- The description of a node, that `jfs_bst_make_desc` starts with. -/
def nodeDesc : Desc := { align := alignofNode, size := sizeofNode, count := 1 }

/-- The description of the objects. -/
def objDesc (objSize objAlign objCount : UInt64) : Desc := { align := objAlign, size := objSize, count := objCount }

theorem objDesc_valid (hsize : 0 < objSize) (hk : objAlign.toNat = 2 ^ k) (hcount : 0 < objCount) :
    jfsMlgValidDesc (objDesc objSize objAlign objCount) = true :=
  validDesc_iff.mpr ⟨validAlign_of_two_pow hk, hsize, hcount⟩

theorem nodeDesc_tracks : Tracks nodeDesc 32 := ⟨rfl, by decide, by decide⟩

/-- What `jfs_bst_make_desc` returns. -/
theorem jfsBstMakeDesc_eq (hvalid : jfsMlgValidDesc (objDesc objSize objAlign objCount) = true) :
    jfsBstMakeDesc objSize objAlign objCount =
      ⟨.ok (jfsMlgAppend nodeDesc (objDesc objSize objAlign objCount)).val.1, true⟩ := by
  have hok := (jfsMlgAppend_spec nodeDesc_tracks hvalid).2.2.2.mpr (by decide)
  have hnode : jfsMlgValidDesc nodeDesc = true := by decide
  rw [objDesc] at hvalid hok
  rw [nodeDesc] at hok hnode
  ext
  · simp only [jfsBstMakeDesc, Checked.val_bind, hvalid]
    rfl
  · simp only [jfsBstMakeDesc, Checked.ok_bind, Checked.ok_assert, hvalid, hnode, Bool.not_true, Bool.false_eq_true,
      if_false, hok, Bool.true_and, Checked.ok_pure]

/-- `jfs_bst_make_desc` returns what `jfs_mlg_append` made, without the offset. -/
theorem exists_offset_of_makeDesc {desc : Desc} (hvalid : jfsMlgValidDesc (objDesc objSize objAlign objCount) = true)
    (h : jfsBstMakeDesc objSize objAlign objCount = ⟨.ok desc, true⟩) :
    ∃ offset, (jfsMlgAppend nodeDesc (objDesc objSize objAlign objCount)).val = (desc, offset) := by
  rw [jfsBstMakeDesc_eq hvalid, Checked.mk.injEq, Except.ok.injEq] at h
  exact ⟨_, Prod.ext h.1 rfl⟩

/-- The offset of the objects, from their own alignment. -/
theorem toNat_appendOffset (hvalid : jfsMlgValidDesc (objDesc objSize objAlign objCount) = true)
    (hk : objAlign.toNat = 2 ^ k) (hk64 : k < 64) :
    (jfsMlgAppend nodeDesc (objDesc objSize objAlign objCount)).val.2.toNat = 2 ^ max 5 k := by
  have hround : roundUp 32 (objDesc objSize objAlign objCount).extent.align = 2 ^ max 5 k := by
    show roundUp (2 ^ 5) objAlign.toNat = _
    rw [hk, roundUp_two_pow]
  rw [(jfsMlgAppend_spec nodeDesc_tracks hvalid).2.2.1, hround]
  exact Nat.mod_eq_of_lt (Nat.pow_lt_pow_right Nat.one_lt_two (by omega))

/-- The alignment of the whole. -/
theorem toNat_appendAlign (hvalid : jfsMlgValidDesc (objDesc objSize objAlign objCount) = true)
    (hk : objAlign.toNat = 2 ^ k) :
    (jfsMlgAppend nodeDesc (objDesc objSize objAlign objCount)).val.1.align.toNat = 2 ^ max 3 k := by
  rw [(jfsMlgAppend_spec nodeDesc_tracks hvalid).2.1, maxAlign]
  have h8 : nodeDesc.align.toNat = 2 ^ 3 := rfl
  split_ifs with h
  · rw [gt_iff_lt, UInt64.lt_iff_toNat_lt, h8] at h
    change 2 ^ 3 < objAlign.toNat at h
    rw [hk, Nat.pow_lt_pow_iff_right Nat.one_lt_two] at h
    show objAlign.toNat = _
    rw [hk, Nat.max_eq_right h.le]
  · rw [gt_iff_lt, UInt64.lt_iff_toNat_lt, h8] at h
    change ¬ 2 ^ 3 < objAlign.toNat at h
    rw [hk, Nat.pow_lt_pow_iff_right Nat.one_lt_two, Nat.not_lt] at h
    rw [h8, Nat.max_eq_left h]

/-- The offset that `jfs_bst_init` computes, from the alignment of the whole. -/
theorem toNat_initOffset {align : UInt64} (halign : align.toNat = 2 ^ max 3 k) (hk64 : k < 64) :
    (jfsMlgAlignSize sizeofNode align).val.toNat = 2 ^ max 5 k ∧ (jfsMlgAlignSize sizeofNode align).ok = true := by
  have hsize : sizeofNode.toNat = 2 ^ 5 % 2 ^ 64 := rfl
  obtain ⟨hval, hok⟩ := jfsMlgAlignSize_spec hsize (validAlign_of_two_pow halign)
  refine ⟨?_, by rw [hok]; rfl⟩
  have hmax : max 5 (max 3 k) = max 5 k := by omega
  rw [hval, halign, roundUp_two_pow, hmax]
  exact Nat.mod_eq_of_lt (Nat.pow_lt_pow_right Nat.one_lt_two (by omega))

/-- Both offsets are the same, and what is behind them is the objects. -/
theorem appendOffset_spec (hsize : 0 < objSize) (hk : objAlign.toNat = 2 ^ k) (hcount : 0 < objCount) {desc : Desc}
    {offset : UInt64} (h : (jfsMlgAppend nodeDesc (objDesc objSize objAlign objCount)).val = (desc, offset)) :
    jfsMlgAlignSize sizeofNode desc.align = ⟨offset, true⟩ ∧
      offset.toNat = roundUp sizeofNode.toNat objAlign.toNat ∧ desc.size - offset = objSize * objCount := by
  have hvalid := objDesc_valid hsize hk hcount
  have hk64 : k < 64 := exponent_lt hk
  have happend := toNat_appendOffset hvalid hk hk64
  obtain ⟨hinit, hok⟩ := toNat_initOffset (toNat_appendAlign hvalid hk) hk64
  obtain ⟨rfl, rfl⟩ := Prod.mk.inj h
  refine ⟨?_, ?_, add_sub_cancel_left _ _⟩
  · ext
    · exact hinit.trans happend.symm
    · exact hok
  · rw [hk]
    exact happend.trans (roundUp_two_pow 5 k).symm

/-- A tree that has been set up over the description. -/
theorem jfsBstInit_value {desc : Desc} {offset : UInt64} (hoffset : jfsMlgAlignSize sizeofNode desc.align = ⟨offset, true⟩)
    {heap : Addr → Node V} {nil ptr : Addr} {cmp : K → V → Int} {t : Bst V}
    (h : jfsBstInit heap nil ⟨⟨ptr, desc⟩, some cmp⟩ = .ok t) :
    t.valueOffset = offset ∧ t.valueSize = desc.size - offset := by
  obtain ⟨-, rfl⟩ := jfsBstInit_eq_ok.mp h
  have hval := congrArg Checked.val hoffset
  exact ⟨hval, congrArg (desc.size - ·) hval⟩

/-- **The offset can be recovered**: for every size and count and every power of two as the
alignment, in words that wrap, `jfs_bst_init` computes the offset that
`jfs_bst_make_desc` dropped. It is the least multiple of the alignment of the objects
behind the node, and the objects take up the rest. -/
theorem valueOffset_eq (hsize : 0 < objSize) (hk : objAlign.toNat = 2 ^ k) (hcount : 0 < objCount) :
    ∃ desc offset, jfsBstMakeDesc objSize objAlign objCount = ⟨.ok desc, true⟩ ∧
      (jfsMlgAppend nodeDesc (objDesc objSize objAlign objCount)).val = (desc, offset) ∧
      jfsMlgAlignSize sizeofNode desc.align = ⟨offset, true⟩ ∧
      (∀ (heap : Addr → Node V) (nil ptr : Addr) (cmp : K → V → Int) (t : Bst V),
        jfsBstInit heap nil ⟨⟨ptr, desc⟩, some cmp⟩ = .ok t → t.valueOffset = offset ∧ t.valueSize = desc.size - offset) ∧
      IsLeast {m | objAlign.toNat ∣ m ∧ sizeofNode.toNat ≤ m} offset.toNat ∧
      (desc.size - offset).toNat = objSize.toNat * objCount.toNat % 2 ^ 64 := by
  obtain ⟨desc, offset, happend⟩ : ∃ desc offset,
    (jfsMlgAppend nodeDesc (objDesc objSize objAlign objCount)).val = (desc, offset) := ⟨_, _, rfl⟩
  have hmake := jfsBstMakeDesc_eq (objDesc_valid hsize hk hcount)
  rw [happend] at hmake
  obtain ⟨hinit, hround, hrest⟩ := appendOffset_spec hsize hk hcount happend
  refine ⟨desc, offset, hmake, happend, hinit, fun heap nil ptr cmp t h => jfsBstInit_value hinit h, ?_, ?_⟩
  · have hpos : 0 < objAlign.toNat := hk ▸ Nat.two_pow_pos k
    rw [hround]
    refine ⟨⟨dvd_roundUp _ _, le_roundUp hpos⟩, ?_⟩
    rintro m ⟨hdvd, hle⟩
    exact roundUp_le_of_dvd hpos hdvd hle
  · rw [hrest, UInt64.toNat_mul]

theorem valueOffset_eq_bytes : ∃ desc offset, jfsBstMakeDesc 3 64 5 = ⟨.ok desc, true⟩ ∧
    (jfsMlgAppend nodeDesc (objDesc 3 64 5)).val = (desc, offset) ∧
    jfsMlgAlignSize sizeofNode desc.align = ⟨offset, true⟩ ∧
    (∀ (heap : Addr → Node ℕ) (nil ptr : Addr) (cmp : ℕ → ℕ → Int) (t : Bst ℕ),
      jfsBstInit heap nil ⟨⟨ptr, desc⟩, some cmp⟩ = .ok t → t.valueOffset = offset ∧ t.valueSize = desc.size - offset) ∧
    IsLeast {m | (64 : UInt64).toNat ∣ m ∧ sizeofNode.toNat ≤ m} offset.toNat ∧
    (desc.size - offset).toNat = (3 : UInt64).toNat * (5 : UInt64).toNat % 2 ^ 64 :=
  valueOffset_eq (k := 6) (by decide) rfl (by decide)

/-! ### The number of nodes -/

/-- **What a tree for `objCount` objects should be**, over the component `c`: that many nodes
are free, one behind another from `c.ptr` on; a value is one object; and the nodes and
the values are aligned. -/
structure HoldsObjects (objSize objAlign objCount : UInt64) (c : Component) (t : Bst V) : Prop where
  count : t.freeList.count = objCount
  free : ListAt t.nextFree NULL t.freeList.list (slotsFrom c.ptr c.desc.size 0 objCount.toNat).reverse
  valueSize : t.valueSize = objSize
  nodeAligned : ∀ a ∈ slotsFrom c.ptr c.desc.size 0 objCount.toNat, alignofNode.toNat ∣ a.toNat
  valueAligned : ∀ a ∈ slotsFrom c.ptr c.desc.size 0 objCount.toNat, objAlign.toNat ∣ (a + t.valueOffset).toNat

theorem slotsFrom_one (ptr size : UInt64) : slotsFrom ptr size 0 1 = [ptr] := by
  rw [slotsFrom_succ]
  simp [slotsFrom]

/-- A component of one node: it is free, and there is none behind it. -/
theorem initTree_free_one {heap : Addr → Node V} {nil : Addr} {c : Component} (hcount : c.desc.count = 1)
    (hptr : c.ptr ≠ NULL) (hnil : c.ptr ≠ nil) :
    ListAt (initTree heap nil c).nextFree NULL (initTree heap nil c).freeList.list [c.ptr] := by
  have hlink : flLinkMemory (nodeLinks V) heap c.ptr c.desc.size c.desc.count =
      ((nodeLinks V).setNext heap c.ptr NULL, c.ptr) := by
    rw [flLinkMemory, hcount]
    simp [flLinkFrom]
  have hlist : (initTree heap nil c).freeList.list = c.ptr := congrArg Prod.snd hlink
  have hnext : (initTree heap nil c).nextFree c.ptr = NULL := by
    have hheap : (bareTree heap nil c).heap = (nodeLinks V).setNext heap c.ptr NULL := congrArg Prod.fst hlink
    have hkeep : (initTree heap nil c).heap c.ptr = (bareTree heap nil c).heap c.ptr := by
      simp [initTree, bstSetParentColor, Bst.setParentColorWord, Bst.assert, Bst.setChild, hnil]
    rw [Bst.nextFree, hkeep, hheap]
    simp [nodeLinks]
  rw [hlist, listAt_cons]
  exact ⟨rfl, hptr, listAt_nil.mpr hnext⟩

/-- The description that `jfs_bst_make_desc` returns, if the size does not wrap: it is of one
node, which is aligned as a node and as an object. -/
theorem makeDesc_one {desc : Desc} (hsize : 0 < objSize) (hk : objAlign.toNat = 2 ^ k) (hcount : 0 < objCount)
    (hfits : roundUp sizeofNode.toNat objAlign.toNat + objSize.toNat * objCount.toNat < 2 ^ 64)
    (hdesc : jfsBstMakeDesc objSize objAlign objCount = ⟨.ok desc, true⟩) :
    desc.count = 1 ∧ jfsMlgValidDesc desc = true ∧ alignofNode.toNat ∣ desc.align.toNat ∧
      objAlign.toNat ∣ desc.align.toNat := by
  have hvalid := objDesc_valid hsize hk hcount
  obtain ⟨offset, happend⟩ := exists_offset_of_makeDesc hvalid hdesc
  obtain ⟨htracks, halign, -, -⟩ := jfsMlgAppend_spec nodeDesc_tracks hvalid
  have hone := congrArg (fun x => x.1.count) happend
  rw [happend] at htracks halign
  obtain ⟨-, hnode, hobj⟩ := maxAlign_valid (a := nodeDesc.align) (by decide) hvalid
  rw [← halign] at hnode hobj
  have hpos := le_roundUp (n := sizeofNode.toNat) (hk ▸ Nat.two_pow_pos k : 0 < objAlign.toNat)
  have h32 : sizeofNode.toNat = 32 := rfl
  refine ⟨hone.symm, validDesc_iff.mpr ⟨htracks.align, ?_, htracks.count⟩, hnode, hobj⟩
  rw [UInt64.lt_iff_toNat_lt, htracks.size]
  show 0 < (roundUp sizeofNode.toNat objAlign.toNat + objSize.toNat * objCount.toNat) % 2 ^ 64
  rw [Nat.mod_eq_of_lt hfits]
  omega

/-- **When the memory is what was asked for**: for every size, alignment and count, exactly if
one object was asked for. -/
theorem holdsObjects_iff {desc : Desc} {heap : Addr → Node V} {nil ptr : Addr} {cmp : K → V → Int} (hsize : 0 < objSize)
    (hk : objAlign.toNat = 2 ^ k) (hcount : 0 < objCount)
    (hfits : roundUp sizeofNode.toNat objAlign.toNat + objSize.toNat * objCount.toNat < 2 ^ 64)
    (hdesc : jfsBstMakeDesc objSize objAlign objCount = ⟨.ok desc, true⟩) (hptr : ptr ≠ NULL)
    (haligned : desc.align.toNat ∣ ptr.toNat) (hnil : nil ∉ slots ⟨ptr, desc⟩) :
    ∃ t, jfsBstInit heap nil ⟨⟨ptr, desc⟩, some cmp⟩ = .ok t ∧
      (HoldsObjects objSize objAlign objCount ⟨ptr, desc⟩ t ↔ objCount = 1) := by
  obtain ⟨hone, hvalid, hnode, hobj⟩ := makeDesc_one hsize hk hcount hfits hdesc
  obtain ⟨offset, happend⟩ := exists_offset_of_makeDesc (objDesc_valid hsize hk hcount) hdesc
  obtain ⟨hinit, hround, hrest⟩ := appendOffset_spec hsize hk hcount happend
  have hcomponent : jfsMlgValidComponent ⟨ptr, desc⟩ = true := by
    simp only [jfsMlgValidComponent, Bool.and_eq_true, bne_iff_ne]
    exact ⟨hvalid, hptr⟩
  have hok : jfsBstInit heap nil ⟨⟨ptr, desc⟩, some cmp⟩ = .ok (initTree heap nil ⟨ptr, desc⟩) :=
    jfsBstInit_eq_ok.mpr ⟨hcomponent, rfl⟩
  obtain ⟨hoff, hval⟩ := jfsBstInit_value hinit hok
  refine ⟨_, hok, fun h => h.count.symm.trans hone, ?_⟩
  rintro rfl
  have hslots : slotsFrom ptr desc.size 0 (1 : UInt64).toNat = [ptr] := slotsFrom_one ptr desc.size
  have hptrNil : ptr ≠ nil := by
    rintro rfl
    apply hnil
    rw [slots, hone, hslots]
    exact List.mem_singleton.mpr rfl
  refine ⟨hone, ?_, ?_, ?_, ?_⟩
  · rw [hslots]
    exact initTree_free_one hone hptr hptrNil
  · apply UInt64.toNat_inj.mp
    rw [hval, hrest, UInt64.mul_one]
  · intro a ha
    rw [hslots, List.mem_singleton] at ha
    rw [ha]
    exact hnode.trans haligned
  · intro a ha
    rw [hslots, List.mem_singleton] at ha
    rw [ha, hoff, UInt64.toNat_add, Nat.dvd_mod_iff, hround]
    · exact Nat.dvd_add (hobj.trans haligned) (dvd_roundUp _ _)
    · exact toNat_dvd_size hk

/-- A tree for one object of three bytes. -/
theorem holdsObjects_one : ∃ desc t, jfsBstMakeDesc 3 64 1 = ⟨.ok desc, true⟩ ∧
    jfsBstInit zeroHeap 64 ⟨⟨4096, desc⟩, some natCmp⟩ = .ok t ∧ HoldsObjects 3 64 1 ⟨4096, desc⟩ t := by
  have hdesc : jfsBstMakeDesc 3 64 1 = ⟨.ok { size := 67, align := 64, count := 1 }, true⟩ := rfl
  have hnil : (64 : Addr) ∉ slots ⟨4096, { size := 67, align := 64, count := 1 }⟩ := by decide
  obtain ⟨t, hinit, hiff⟩ : ∃ t, jfsBstInit zeroHeap 64 ⟨⟨4096, _⟩, some natCmp⟩ = .ok t ∧ _ :=
    holdsObjects_iff (k := 6) (by decide) rfl (by decide) (by decide) hdesc (by decide) (by decide) hnil
  exact ⟨_, t, hdesc, hinit, hiff.mpr rfl⟩

/-- Two objects were asked for: there is one node. -/
theorem not_holdsObjects_two : ∃ desc t, jfsBstMakeDesc 8 8 2 = ⟨.ok desc, true⟩ ∧
    jfsBstInit zeroHeap 64 ⟨⟨4096, desc⟩, some natCmp⟩ = .ok t ∧ ¬ HoldsObjects 8 8 2 ⟨4096, desc⟩ t := by
  have hcomponent : jfsMlgValidComponent ⟨4096, { size := 48, align := 8, count := 1 }⟩ = true := by decide
  refine ⟨{ size := 48, align := 8, count := 1 }, _, rfl, jfsBstInit_eq_ok.mpr ⟨hcomponent, rfl⟩, fun h => ?_⟩
  exact absurd h.count (by decide)

end FileSync.SearchTree
