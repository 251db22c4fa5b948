import FileSync.SearchTree.Cache

/-!
# Runs of insertions and deletions

The tree without its chains and its free list: any sequence of insertions of new
keys and deletions of linked nodes, from an empty tree on. Each step does what
`jfs_bst_puts` and `bst_detach_and_delete` do to the tree, and after every run
`cache.smallest` and `cache.largest` are the ends of the in-order traversal.
-/

namespace FileSync.SearchTree

open FileSync.Lib ColorTree

variable {K V : Type} [LinearOrder K] (cmp : K → V → Int) (keyOf : V → K)

/-- A step on the tree. -/
inductive TreeOp (V : Type)
  /-- Link the node, with this value. -/
  | insert (x : Addr) (v : V)
  /-- Unlink the node. -/
  | delete (x : Addr)

/-- A step: `bst_find`, `bst_insert` and `bst_update_cache_insert`, or `bst_delete` and
`bst_update_cache_delete`. -/
def treeStep (fuel : ℕ) (t : Bst V) : TreeOp V → Option (Bst V)
  | .insert x v => do
    let t := bstPackNode t x v
    let location ← bstFind cmp fuel t (keyOf v)
    let t ← bstInsert fuel t x location
    return bstUpdateCacheInsert t location
  | .delete x => do
    let t ← bstDelete fuel t x
    bstUpdateCacheDelete fuel t x

/-- Which steps can be taken: a node that is not linked is inserted with a key that is
absent, and a linked node is deleted. -/
def ValidOp (t : Bst V) : TreeOp V → Prop
  | .insert x v => IsPlace x ∧ x ≠ t.nil ∧ ¬ InTree t x ∧ ∀ a, InTree t a → t.key keyOf a ≠ keyOf v
  | .delete x => InTree t x

/-- A sequence of steps. -/
def treeRun (fuel : ℕ) : Bst V → List (TreeOp V) → Option (Bst V)
  | t, [] => some t
  | t, op :: ops => (treeStep cmp keyOf fuel t op).bind fun t' => treeRun fuel t' ops

/-- Each step can be taken in the state that the steps before it lead to. -/
def ValidRun (fuel : ℕ) : Bst V → List (TreeOp V) → Prop
  | _, [] => True
  | t, op :: ops => ValidOp keyOf t op ∧ ∀ t', treeStep cmp keyOf fuel t op = some t' → ValidRun fuel t' ops

/-- The empty tree, as `jfs_bst_init` sets it up. -/
structure EmptyTree (t : Bst V) : Prop where
  root : t.root = t.nil
  smallest : t.cache.smallest = t.nil
  largest : t.cache.largest = t.nil
  nilPlace : IsPlace t.nil
  nilColor : bstColor t t.nil = .black
  nilChild : ∀ d, t.child d t.nil = t.nil

/-- The cache has the first and the last node of the traversal, and `nil` exactly if the
tree is empty. -/
def CacheExact (t : Bst V) : Prop :=
  ∃ xs, Traversal t t.root xs ∧ t.cache.smallest = xs.head?.getD t.nil ∧
    t.cache.largest = xs.getLast?.getD t.nil ∧ (t.cache.smallest = t.nil ↔ t.root = t.nil) ∧
      (t.cache.largest = t.nil ↔ t.root = t.nil)

variable {cmp keyOf} {t : Bst V} {T : ColorTree Addr}

theorem EmptyTree.inv (h : EmptyTree t) : TreeInv keyOf t leaf := by
  refine ⟨⟨h.root, trivial, by simp, by simp, h.nilPlace, h.nilColor, h.nilChild⟩, ⟨rfl, 0, rfl⟩, ?_, ?_⟩
  · exact List.Pairwise.nil
  · calc t.cache = ⟨t.cache.smallest, t.cache.largest, t.cache.previous⟩ := rfl
      _ = ⟨t.nil, t.nil, t.cache.previous⟩ := by rw [h.smallest, h.largest]

theorem TreeInv.cacheExact (h : TreeInv keyOf t T) : CacheExact t := by
  have hnil : ∀ a ∈ T.inorder, a ≠ t.nil := fun a ha => (h.rep.place a ha).2
  have hs : t.cache.smallest = (endOf .left T.inorder).getD t.nil := congrArg Cache.smallest h.cache
  have hl : t.cache.largest = (endOf .right T.inorder).getD t.nil := congrArg Cache.largest h.cache
  have hroot : t.root = t.nil ↔ T.inorder = [] := by
    rw [inorder_eq_nil]
    exact h.rep.root_eq_nil
  refine ⟨T.inorder, h.rep.traversal, hs, hl, ?_, ?_⟩
  · rw [hs, hroot]
    exact endOf_getD_eq_nil hnil
  · rw [hl, hroot]
    exact endOf_getD_eq_nil hnil

/-- Writing a value changes no link. -/
theorem sameLinks_packNode (t : Bst V) (x : Addr) (v : V) (a : Addr) : SameLinks t (bstPackNode t x v) a := by
  by_cases ha : a = x
  · subst ha
    refine ⟨fun d => ?_, ?_, ?_⟩
    · cases d <;> simp [bstPackNode, Bst.child]
    · simp [bstPackNode, bstParent]
    · simp [bstPackNode, bstColor]
  · exact sameLinks_of_heap (by simp [bstPackNode, ha])

/-- Nor does it change the keys of the other nodes. -/
theorem sorted_packNode {x : Addr} (h : Sorted keyOf t T) (hx : x ∉ T.inorder) (v : V) :
    Sorted keyOf (bstPackNode t x v) T := by
  refine sorted_congr (fun a ha => ?_) h
  have hax : a ≠ x := fun e => hx (e ▸ ha)
  simp [bstPackNode, Bst.value, hax]

/-- Writing a value to a node that is not linked. -/
theorem TreeInv.pack {x : Addr} (h : TreeInv keyOf t T) (hx : x ∉ T.inorder) (v : V) :
    TreeInv keyOf (bstPackNode t x v) T :=
  ⟨h.rep.congr rfl rfl fun a _ => sameLinks_packNode t x v a, h.redBlack, sorted_packNode h.sorted hx v, h.cache⟩

/-- **A step keeps the invariant**, and gives a result if there is fuel for every node. -/
theorem treeStep_inv {op : TreeOp V} {fuel : ℕ} (hcmp : Orders cmp keyOf) (h : TreeInv keyOf t T)
    (hv : ValidOp keyOf t op) (hfuel : T.size < fuel) :
    ∃ t' T', treeStep cmp keyOf fuel t op = some t' ∧ TreeInv keyOf t' T' ∧ T'.size ≤ T.size + 1 := by
  cases op with
  | insert x v =>
    obtain ⟨hx, hxn, hxT, habs⟩ := hv
    rw [h.rep.inTree_iff] at hxT
    have hp := h.pack hxT v
    have hkey : (bstPackNode t x v).key keyOf x = keyOf v := by simp [bstPackNode, Bst.key, Bst.value]
    obtain ⟨l, el, hl⟩ := bstFind_spec hcmp.compares hp.rep hp.sorted (keyOf v) hfuel
    rcases hl with ⟨hT, hk⟩ | ⟨hT, hnode, hole⟩
    · -- the key would be in the tree already
      have hm : l.node ∈ T.inorder := by
        rw [hT]
        simp [mem_inorder_plug]
      have hne : l.node ≠ x := fun e => hxT (e ▸ hm)
      refine absurd ?_ (habs l.node (h.rep.inTree_iff.mpr hm))
      simpa [bstPackNode, Bst.key, Bst.value, hne] using hk
    · subst hT
      obtain ⟨t', T', e, -, hin, -, hinv⟩ := bstInsert_inv hcmp hp hole hnode hx hxn hxT hkey hfuel
      refine ⟨_, T', ?_, hinv, ?_⟩
      · simp only [treeStep, el, e, Option.bind_eq_bind, Option.bind_some]
        rfl
      · rw [← length_inorder, ← length_inorder, hin, inorder_plug]
        simp
        omega
  | delete z =>
    rw [ValidOp, h.rep.inTree_iff] at hv
    obtain ⟨t', t'', T', xs, ys, e, -, hxs, hys, e', hinv, -⟩ := bstDelete_inv h hv hfuel
    refine ⟨_, T', ?_, hinv, ?_⟩
    · simp only [treeStep, e, Option.bind_eq_bind, Option.bind_some]
      exact e'
    · rw [← length_inorder, ← length_inorder, hxs, hys]
      simp only [List.length_append, List.length_cons]
      omega

/-- A run keeps the invariant. -/
theorem treeRun_inv {ops : List (TreeOp V)} {fuel : ℕ} (hcmp : Orders cmp keyOf) (h : TreeInv keyOf t T)
    (hv : ValidRun cmp keyOf fuel t ops) (hfuel : T.size + ops.length < fuel) :
    ∃ t' T', treeRun cmp keyOf fuel t ops = some t' ∧ TreeInv keyOf t' T' := by
  induction ops generalizing t T with
  | nil => exact ⟨t, T, rfl, h⟩
  | cons op ops ih =>
    obtain ⟨hop, hops⟩ := hv
    rw [List.length_cons] at hfuel
    have hT : T.size < fuel := by omega
    obtain ⟨t₁, T₁, e, h₁, hsize⟩ := treeStep_inv hcmp h hop hT
    have hT₁ : T₁.size + ops.length < fuel := by omega
    obtain ⟨t', T', e', h'⟩ := ih h₁ (hops t₁ e) hT₁
    exact ⟨t', T', by rw [treeRun, e, Option.bind_some, e'], h'⟩

/-- **The cache is exact after every run**: whatever is inserted and deleted, in whatever
order, `cache.smallest` and `cache.largest` are the two ends of the tree. -/
theorem cacheExact_of_treeRun (hcmp : Orders cmp keyOf) (h : EmptyTree t) (ops : List (TreeOp V)) {fuel : ℕ}
    (hfuel : ops.length < fuel) (hv : ValidRun cmp keyOf fuel t ops) :
    ∃ t', treeRun cmp keyOf fuel t ops = some t' ∧ CacheExact t' := by
  have hfuel' : (leaf : ColorTree Addr).size + ops.length < fuel := by
    rw [size_leaf]
    omega
  obtain ⟨t', T', e, h'⟩ := treeRun_inv hcmp h.inv hv hfuel'
  exact ⟨t', e, h'.cacheExact⟩

/-- An empty tree of numbers, with the sentinel at the given address. -/
def emptyNatTree (nil : Addr) : Bst ℕ where
  root := nil
  nil := nil
  heap := Function.update (fun _ => ⟨0, 0, 0, 0, 0⟩) nil ⟨nil ||| 1, nil, nil, 0, 0⟩
  cache := { smallest := nil, largest := nil, previous := nil }
  valueOffset := 32
  valueSize := 8
  freeList := { list := NULL, count := 0 }
  assertsHeld := true

theorem emptyNatTree_empty : EmptyTree (emptyNatTree 64) := by
  refine ⟨rfl, rfl, rfl, by decide, by decide, fun d => ?_⟩
  cases d <;> decide

/-- A run with an insertion and the deletion of the node. -/
theorem cacheExact_insert_delete : ∃ t', treeRun natCmp id 3 (emptyNatTree 64) [.insert 4096 5, .delete 4096] =
    some t' ∧ CacheExact t' := by
  refine cacheExact_of_treeRun natCmp_orders emptyNatTree_empty _ (by decide) ⟨?_, fun t' h => ⟨?_, ?_⟩⟩
  · refine ⟨by decide, by decide, not_inTree_of_root rfl, fun a ha => absurd ha (not_inTree_of_root rfl)⟩
  · have hr : (treeStep natCmp id 3 (emptyNatTree 64) (.insert 4096 5)).map (fun t => (t.root, t.nil)) =
        some (4096, 64) := by decide +kernel
    rw [h, Option.map_some, Option.some.injEq, Prod.mk.injEq] at hr
    have hin : InTree t' t'.root := .root (by rw [hr.1, hr.2]; decide)
    rw [hr.1] at hin
    exact hin
  · exact fun _ _ => trivial

end FileSync.SearchTree
