import FileSync.SearchTree.Store

/-!
# Setting up a tree

`jfs_bst_init` over a component that is where it should be: all its nodes are on
the free list, the last one first, and the tree is empty. What the memory held
before stays in the fields that the initialisation does not write, the chain
fields among them.
-/

namespace FileSync.SearchTree

open FileSync.Lib FileSync.FreeList FileSync.MemoryLayout ColorTree

variable {K V : Type}

/-- A component of nodes that are correctly sized and aligned, in memory that does not
wrap, with `nil_storage` outside of it. -/
structure Placed (c : Component) (nil : Addr) : Prop where
  /-- Nodes start at a multiple of the alignment. -/
  aligned : alignofNode.toNat ∣ c.ptr.toNat
  /-- A node has room for the links. -/
  sized : sizeofNode ≤ c.desc.size
  /-- The next node is aligned too. -/
  stride : alignofNode.toNat ∣ c.desc.size.toNat
  /-- The region ends in the address space. -/
  fits : c.ptr.toNat + c.desc.count.toNat * c.desc.size.toNat ≤ 2 ^ 64
  /-- `nil_storage` is a node too. -/
  nilPlace : IsPlace nil
  /-- It is not in the region. -/
  nilOutside : nil.toNat < c.ptr.toNat ∨
    c.ptr.toNat + c.desc.count.toNat * c.desc.size.toNat ≤ nil.toNat

theorem isPlace_of_even {a : Addr} (h0 : a ≠ NULL) (h : a.toNat % 2 = 0) : IsPlace a := by
  refine ⟨h0, ?_⟩
  rw [← UInt64.toNat_inj, UInt64.toNat_and]
  show a.toNat &&& 1 = 0
  rw [Nat.and_one_is_mod, h]

namespace Placed

variable {c : Component} {nil : Addr}

/-- The addresses of the slots do not wrap. -/
theorem toNat_slot (h : Placed c nil) {i : ℕ} (hi : i < c.desc.count.toNat) :
    (c.ptr + UInt64.ofNat i * c.desc.size).toNat = c.ptr.toNat + i * c.desc.size.toNat := by
  have hsize : 0 < c.desc.size.toNat := by
    have := UInt64.le_iff_toNat_le.mp h.sized
    have h32 : sizeofNode.toNat = 32 := rfl
    omega
  have hmul : (i + 1) * c.desc.size.toNat ≤ c.desc.count.toNat * c.desc.size.toNat :=
    Nat.mul_le_mul_right _ hi
  rw [Nat.add_mul, Nat.one_mul] at hmul
  have hfits := h.fits
  have hi' : i < 2 ^ 64 := lt_trans hi c.desc.count.toNat_lt
  rw [UInt64.toNat_add, UInt64.toNat_mul, UInt64.toNat_ofNat', Nat.mod_eq_of_lt hi',
    Nat.mod_eq_of_lt (a := i * c.desc.size.toNat) (by omega), Nat.mod_eq_of_lt (by omega)]

theorem mem_slots {a : Addr} : a ∈ slots c ↔ ∃ i < c.desc.count.toNat, c.ptr + UInt64.ofNat i * c.desc.size = a := by
  simp [slots, slotsFrom]

theorem slots_nodup (h : Placed c nil) : (slots c).Nodup := by
  have hsize : 0 < c.desc.size.toNat := by
    have := UInt64.le_iff_toNat_le.mp h.sized
    have h32 : sizeofNode.toNat = 32 := rfl
    omega
  refine List.Nodup.map_on ?_ List.nodup_range'
  intro i hi j hj e
  simp only [List.mem_range'_1, zero_add] at hi hj
  have := congrArg UInt64.toNat e
  rw [h.toNat_slot hi.2, h.toNat_slot hj.2] at this
  exact Nat.eq_of_mul_eq_mul_right hsize (by omega)

theorem slots_length : (slots c).length = c.desc.count.toNat := by
  simp [slots, slotsFrom]

theorem slot_place (h : Placed c nil) (hptr : c.ptr ≠ NULL) {a : Addr} (ha : a ∈ slots c) :
    IsPlace a ∧ a ≠ nil := by
  obtain ⟨i, hi, rfl⟩ := mem_slots.mp ha
  have hnat := h.toNat_slot hi
  have hpos : 0 < c.ptr.toNat := by
    rcases Nat.eq_zero_or_pos c.ptr.toNat with h0 | h0
    · exact absurd (UInt64.toNat_inj.mp h0) hptr
    · exact h0
  have hmul : (i + 1) * c.desc.size.toNat ≤ c.desc.count.toNat * c.desc.size.toNat :=
    Nat.mul_le_mul_right _ hi
  rw [Nat.add_mul, Nat.one_mul] at hmul
  have hsize : 32 ≤ c.desc.size.toNat := UInt64.le_iff_toNat_le.mp h.sized
  refine ⟨isPlace_of_even ?_ ?_, ?_⟩
  · intro e
    rw [e] at hnat
    have : NULL.toNat = 0 := rfl
    omega
  · rw [hnat]
    obtain ⟨p, hp⟩ := Nat.dvd_add h.aligned (Dvd.dvd.mul_left h.stride i)
    have h8 : alignofNode.toNat = 8 := rfl
    rw [h8] at hp
    omega
  · intro e
    have hout := h.nilOutside
    rw [← e, hnat] at hout
    omega

end Placed

/-- What linking the memory leaves of a node: everything but its first word, and that too
outside of the slots. -/
structure SameBut (xs : List Addr) (m m' : Addr → Node V) : Prop where
  list : ∀ a, (m' a).list = (m a).list
  value : ∀ a, (m' a).value = (m a).value
  heap : ∀ a, a ∉ xs → m' a = m a

theorem flLinkFrom_sameBut {memory objSize : UInt64} {n : ℕ} {m : Addr → Node V} :
    SameBut (slotsFrom memory objSize 0 n) m (flLinkFrom (nodeLinks V) memory objSize n 0 m NULL).1 := by
  refine flLinkFrom_keeps ⟨fun _ => rfl, fun _ => rfl, fun _ _ => rfl⟩ fun m' a b hm ha => ?_
  have hupd : ∀ x, x ≠ a → (nodeLinks V).setNext m' a b x = m' x := fun x hx => Function.update_of_ne hx ..
  refine ⟨fun x => ?_, fun x => ?_, fun x hx => ?_⟩
  · by_cases hxa : x = a
    · subst hxa
      simp [nodeLinks, hm.list]
    · rw [hupd x hxa, hm.list]
  · by_cases hxa : x = a
    · subst hxa
      simp [nodeLinks, hm.value]
    · rw [hupd x hxa, hm.value]
  · rw [hupd x fun e => hx (e ▸ ha), hm.heap x hx]

/-- The tree that `jfs_bst_init` sets up: the cache is empty, and the chain fields are as
the memory had them. -/
structure Fresh (heap : Addr → Node V) (c : Component) (t : Bst V) : Prop where
  cache : t.cache = ⟨t.nil, t.nil, t.nil⟩
  list : ∀ a ∈ slots c, t.list a = (heap a).list

/-- The tree before `jfs_bst_init` writes `nil_storage`. -/
def bareTree (heap : Addr → Node V) (nil : Addr) (component : Component) : Bst V :=
  let linked := flLinkMemory (nodeLinks V) heap component.ptr component.desc.size component.desc.count
  let valueOffset := jfsMlgAlignSize sizeofNode component.desc.align
  { root := nil, nil := nil, heap := linked.1, cache := { smallest := nil, largest := nil, previous := nil }
    valueOffset := valueOffset.val, valueSize := component.desc.size - valueOffset.val
    freeList := { list := linked.2, count := component.desc.count }, assertsHeld := valueOffset.ok }

/-- The tree that `jfs_bst_init` returns. -/
def initTree (heap : Addr → Node V) (nil : Addr) (component : Component) : Bst V :=
  bstSetParentColor (((bareTree heap nil component).setChild .left nil nil).setChild .right nil nil) nil nil .black

/-- When `jfs_bst_init` succeeds, and what it returns then. -/
theorem jfsBstInit_eq_ok {heap : Addr → Node V} {nil : Addr} {component : Component} {cmp : K → V → Int}
    {t : Bst V} : jfsBstInit heap nil ⟨component, some cmp⟩ = .ok t ↔
      jfsMlgValidComponent component = true ∧ t = initTree heap nil component := by
  unfold jfsBstInit jfsFlInit
  by_cases hv : jfsMlgValidComponent component = true
  · simp only [hv, Bool.not_true, true_and]
    constructor
    · intro h
      exact (Except.ok.inj h).symm
    · rintro rfl
      rfl
  · simp only [Bool.not_eq_true] at hv
    simp only [hv, Bool.not_false, Bool.false_eq_true, false_and, iff_false]
    intro h
    cases h

/-- **`jfs_bst_init`**: an empty tree with all nodes on the free list. -/
theorem jfsBstInit_store [LinearOrder K] (keyOf : V → K) {heap : Addr → Node V} {nil : Addr}
    {component : Component} {cmp : K → V → Int} {t : Bst V} (hp : Placed component nil)
    (h : jfsBstInit heap nil ⟨component, some cmp⟩ = .ok t) :
    Store keyOf (slots component) [] (slots component).reverse t leaf (fun _ => []) ∧
      Fresh heap component t := by
  obtain ⟨hv, rfl⟩ := jfsBstInit_eq_ok.mp h
  have hptr : component.ptr ≠ NULL := by
    simp only [jfsMlgValidComponent, Bool.and_eq_true, bne_iff_ne] at hv
    exact hv.2
  have hplace := fun a (ha : a ∈ slots component) => hp.slot_place hptr ha
  unfold initTree
  generalize ht : bareTree heap nil component = t₀
  have hn : t₀.nil = nil := by
    rw [← ht]
    rfl
  -- only `nil_storage` is written after the free list has been linked
  have hk : Keeps (fun a => a = nil) t₀
      (bstSetParentColor ((t₀.setChild .left nil nil).setChild .right nil nil) nil nil .black) := by
    exact (Keeps.setChild (S := fun a => a = nil) rfl _ _).trans
      ((Keeps.setChild (S := fun a => a = nil) rfl _ _).trans
        (Keeps.setParentColor (S := fun a => a = nil) rfl hp.nilPlace.1 hp.nilPlace.1 .black))
  have hsame : SameBut (slots component) heap t₀.heap := by
    rw [← ht]
    exact flLinkFrom_sameBut
  have hlist : ListAt t₀.nextFree NULL t₀.freeList.list (slots component).reverse := by
    have := flLinkFrom_listAt (nodeLinks_lawful.lawfulOn _) (m := heap) (listAt_nil.mpr rfl)
      (by rw [List.append_nil]; exact hp.slots_nodup) fun a ha => (hplace a ha).1.1
    rw [List.append_nil] at this
    rw [← ht]
    exact this
  have hcount : t₀.freeList.count = component.desc.count := by
    rw [← ht]
    rfl
  refine ⟨⟨⟨?_, trivial, List.nodup_nil, by simp, ?_, ?_, fun d => ?_⟩, ⟨rfl, 0, rfl⟩, List.Pairwise.nil, by simp,
    by simp, ?_, ?_, ?_, hp.slots_nodup, fun a ha => ?_, ?_⟩, ?_, fun a ha => ?_⟩
  · rw [hk.nil, hn, ← ht]
    rfl
  · rw [hk.nil, hn]
    exact hp.nilPlace
  · rw [hk.nil, hn, Bst.bstColor_setParentColor _ hp.nilPlace.2, if_pos rfl]
  · rw [hk.nil, hn, Bst.child_setParentColor]
    cases d <;> simp [Bst.child_setChild]
  · rw [hk.freeList]
    refine listAt_congr (fun a ha => ?_) hlist
    rw [Bst.nextFree, Bst.nextFree, hk.heap a (hplace a (List.mem_reverse.mp ha)).2]
  · rw [hk.freeList, hcount, List.length_reverse, Placed.slots_length]
  · rw [List.nil_append, inorder_leaf, rows_nil, List.append_nil]
    exact List.reverse_perm _
  · rw [hk.nil, hn]
    exact hplace a ha
  · rw [Placed.slots_length]
    exact UInt64.toNat_lt _
  · rw [hk.cache, hk.nil, hn, ← ht]
    rfl
  · rw [hk.list]
    exact hsame.list a

/-- Memory filled with zeros. -/
def zeroHeap : Addr → Node ℕ := fun _ => { parentColor := 0, right := 0, left := 0, list := 0, value := 0 }

/-- A component of `n` nodes with numbers. -/
def natComponent (n : UInt64) : Component := { ptr := 4096, desc := { size := 40, align := 8, count := n } }

theorem natComponent_init {n : UInt64} (h : jfsMlgValidComponent (natComponent n) = true) :
    jfsBstInit zeroHeap 64 ⟨natComponent n, some natCmp⟩ = .ok (initTree zeroHeap 64 (natComponent n)) :=
  jfsBstInit_eq_ok.mpr ⟨h, rfl⟩

theorem natComponent_placed : Placed (natComponent 1) 64 ∧ Placed (natComponent 2) 64 := by
  constructor
  · exact ⟨by decide, by decide, by decide, by decide, by decide, by decide⟩
  · exact ⟨by decide, by decide, by decide, by decide, by decide, by decide⟩

end FileSync.SearchTree
