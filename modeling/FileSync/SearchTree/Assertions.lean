import FileSync.SearchTree.WellFormed
import FileSync.SearchTree.Store

/-!
# The assertions of a deletion

`bst_detach_and_delete` unlinks its node with `bst_delete` and then calls
`bst_update_cache_delete`, whose assertions are about a tree that has been rebalanced
already. They hold after every deletion but one: if the node was the only one, the
root is `nil` by then, and `assert(node == tree->root)` fails.

The trees are those that insertions and deletions lead to (`Reached`), with whatever
else the operations do to the chains, the free list and `cache.previous` in between.
-/

namespace FileSync.SearchTree

open FileSync.Lib FileSync.FreeList ColorTree

variable {K V : Type} [LinearOrder K] {cmp : K → V → Int} {keyOf : V → K} {t t' : Bst V} {T : ColorTree Addr}

/-! ### More fuel -/

theorem bind_mono {α β : Type} {x x' : Option α} {f f' : α → Option β} {b : β} (h : x.bind f = some b)
    (hx : ∀ a, x = some a → x' = some a) (hf : ∀ a, f a = some b → f' a = some b) : x'.bind f' = some b := by
  obtain ⟨a, ha, hb⟩ := Option.bind_eq_some_iff.mp h
  rw [hx a ha, Option.bind_some]
  exact hf a hb

section Mono

omit [LinearOrder K]

variable {n m : ℕ}

theorem bstInsert_mono {x : Addr} {l : Location} (h : bstInsert n t x l = some t') (hnm : n ≤ m) :
    bstInsert m t x l = some t' :=
  bind_mono h (fun _ e => loop_mono e hnm) fun _ e => e

theorem bstUnlink_mono {x : Addr} {r : Bst V × Addr × Color} (h : bstUnlink n t x = some r) (hnm : n ≤ m) :
    bstUnlink m t x = some r := by
  unfold bstUnlink at h ⊢
  dsimp only at h ⊢
  split_ifs at h ⊢
  · exact h
  · exact h
  · exact bind_mono h (fun _ e => loop_mono e hnm) fun _ e => e

theorem bstDelete_mono {x : Addr} (h : bstDelete n t x = some t') (hnm : n ≤ m) : bstDelete m t x = some t' := by
  refine bind_mono h (fun _ e => bstUnlink_mono e hnm) ?_
  rintro ⟨t₁, y, c⟩ e
  dsimp only at e ⊢
  split_ifs at e ⊢
  · exact bind_mono e (fun _ e => loop_mono e hnm) fun _ e => e
  · exact e

theorem bstUpdateCacheDelete_mono {x : Addr} (h : bstUpdateCacheDelete n t x = some t') (hnm : n ≤ m) :
    bstUpdateCacheDelete m t x = some t' := by
  unfold bstUpdateCacheDelete at h ⊢
  dsimp only at h ⊢
  split_ifs at h ⊢
  · exact h
  · exact bind_mono h (fun _ e => loop_mono e hnm) fun _ e => e
  · exact h
  · exact bind_mono h (fun _ e => loop_mono e hnm) fun _ e => e
  · exact h
  · exact h

/-- More fuel gives the same step. -/
theorem treeStep_mono {op : TreeOp V} (h : treeStep cmp keyOf n t op = some t') (hnm : n ≤ m) :
    treeStep cmp keyOf m t op = some t' := by
  cases op with
  | insert x v =>
    refine bind_mono h (fun _ e => loop_mono e hnm) fun _ h => ?_
    exact bind_mono h (fun _ e => bstInsert_mono e hnm) fun _ e => e
  | delete x => exact bind_mono h (fun _ e => bstDelete_mono e hnm) fun _ e => bstUpdateCacheDelete_mono e hnm

end Mono

/-! ### The trees that are reached -/

variable (cmp keyOf)

/-- **The trees that insertions and deletions lead to**, from an empty tree on. Between them
nodes may be put on chains and taken off, allocated and, unless they are linked,
freed, and `cache.previous` may be set to anything. -/
inductive Reached : Bst V → Prop
  /-- The empty tree. -/
  | empty {t : Bst V} : EmptyTree t → t.assertsHeld = true → Reached t
  /-- An insertion or a deletion. -/
  | step {t t' : Bst V} {op : TreeOp V} {fuel : ℕ} :
      Reached t → ValidOp keyOf t op → treeStep cmp keyOf fuel t op = some t' → Reached t'
  /-- `bst_attach_node`. -/
  | attach {t : Bst V} (a b : Addr) : Reached t → Reached (bstAttachNode t a b)
  /-- `bst_detach_node`. -/
  | detach {t : Bst V} (a : Addr) : Reached t → Reached (bstDetachNode t a).1
  /-- `tree->cache.previous = a`. -/
  | previous {t : Bst V} (a : Addr) : Reached t → Reached (t.setCache { t.cache with previous := a })
  /-- `jfs_fl_alloc`. -/
  | alloc {t : Bst V} : Reached t → Reached t.flAlloc.2
  /-- `jfs_fl_free`. -/
  | free {t : Bst V} {a : Addr} : Reached t → ¬ InTree t a → a ≠ t.nil → Reached (t.flFree a)

variable {cmp keyOf}

/-- A tree is as it was if its nodes and the sentinel are. -/
theorem TreeInv.congr (h : TreeInv keyOf t T) (hn : t'.nil = t.nil) (hr : t'.root = t.root)
    (hs : ∀ a, a ∈ T.inorder ∨ a = t.nil → SameLinks t t' a) (hv : ∀ a ∈ T.inorder, t'.value a = t.value a)
    (hc : t'.cache = { t.cache with previous := t'.cache.previous }) : TreeInv keyOf t' T := by
  refine ⟨h.rep.congr hn hr hs, h.redBlack, sorted_congr hv h.sorted, ?_⟩
  rw [hc, h.cache, hn]
  rfl

theorem TreeInv.setList (h : TreeInv keyOf t T) (a b : Addr) : TreeInv keyOf (t.setList a b) T :=
  h.congr rfl rfl (fun x _ => Store.sameLinks_setList t a b x) (fun x _ => Store.value_setList t a b x) rfl

/-- **The invariant holds of every tree that is reached.** -/
theorem Reached.inv (hcmp : Orders cmp keyOf) (h : Reached cmp keyOf t) : ∃ T, TreeInv keyOf t T := by
  induction h with
  | empty h _ => exact ⟨leaf, h.inv⟩
  | step _ hv e ih =>
    rename_i t t' op fuel _
    obtain ⟨T, ih⟩ := ih
    have hfuel : T.size < max fuel (T.size + 1) := by omega
    obtain ⟨t₁, T', e', hinv, -⟩ := treeStep_inv hcmp ih hv hfuel
    obtain rfl : t' = t₁ := Option.some.inj ((treeStep_mono e (Nat.le_max_left _ _)).symm.trans e')
    exact ⟨T', hinv⟩
  | attach a b _ ih =>
    obtain ⟨T, ih⟩ := ih
    exact ⟨T, (ih.setList _ _).setList _ _⟩
  | detach a _ ih =>
    obtain ⟨T, ih⟩ := ih
    refine ⟨T, ?_⟩
    unfold bstDetachNode
    split_ifs
    · exact ih
    · exact ih.setList _ _
  | previous a _ ih =>
    obtain ⟨T, ih⟩ := ih
    exact ⟨T, ih.congr rfl rfl (fun _ _ => ⟨fun _ => rfl, rfl, rfl⟩) (fun _ _ => rfl) rfl⟩
  | alloc _ ih =>
    obtain ⟨T, ih⟩ := ih
    exact ⟨T, ih.congr rfl rfl (fun _ _ => ⟨fun _ => rfl, rfl, rfl⟩) (fun _ _ => rfl) rfl⟩
  | free _ hin hnil ih =>
    rename_i t a _
    obtain ⟨T, ih⟩ := ih
    refine ⟨T, ?_⟩
    by_cases ha : a = NULL
    · rw [Bst.flFree, jfsFlFree, if_pos ha]
      exact ih
    · obtain ⟨hheap, hval, -⟩ := Bst.flFree_spec t ha
      refine ih.congr rfl rfl (fun x hx => sameLinks_of_heap (hheap x ?_)) (fun x _ => hval x) rfl
      rintro rfl
      rcases hx with hx | rfl
      · exact hin (ih.rep.inTree_iff.mpr hx)
      · exact hnil rfl

/-- **When no assertion of a deletion fails**: in every tree that is reached and for every
linked node without a chain, exactly if another node is linked. -/
theorem detachAndDelete_asserts_iff (hcmp : Orders cmp keyOf) (h : Reached cmp keyOf t) (hheld : t.assertsHeld = true)
    {z : Addr} (hz : InTree t z) (hchain : t.list z = NULL) :
    ∃ n, ∀ fuel, n ≤ fuel → ∃ t' v, bstDetachAndDelete fuel t z = some (t', v) ∧
      (t'.assertsHeld = true ↔ ∃ a, InTree t a ∧ a ≠ z) := by
  obtain ⟨T, hinv⟩ := h.inv hcmp
  refine ⟨T.size + 1, fun fuel hfuel => ?_⟩
  have hzT := hinv.rep.inTree_iff.mp hz
  obtain ⟨t₁, t₂, T', xs, ys, e, -, hxs, hys, e', -, hasserts⟩ := bstDelete_inv hinv hzT hfuel
  refine ⟨t₂.flFree z, t.value z, ?_, ?_⟩
  · simp only [bstDetachAndDelete, Bst.assert_of t (hinv.rep.root_ne_nil hzT), bstDetachNode, if_pos hchain, if_true,
      e, e', Option.bind_eq_bind, Option.bind_some]
    rfl
  · have hflFree : (t₂.flFree z).assertsHeld = t₂.assertsHeld := rfl
    have hnd := hinv.rep.nodup
    simp only [hinv.rep.inTree_iff, hflFree, hasserts, hheld, Bool.true_and, Bool.not_eq_true',
      List.isEmpty_eq_false_iff_exists_mem, hys, hxs]
    rw [hxs] at hnd
    have hz' := (List.nodup_cons.mp (List.nodup_middle.mp hnd)).1
    constructor
    · rintro ⟨a, ha⟩
      refine ⟨a, ?_, fun e => hz' (e ▸ ha)⟩
      exact List.perm_middle.mem_iff.mpr (List.mem_cons_of_mem z ha)
    · rintro ⟨a, ha, hne⟩
      exact ⟨a, (List.mem_cons.mp (List.perm_middle.mem_iff.mp ha)).resolve_left hne⟩

/-- The tree of the number 5. -/
def oneNode : Bst ℕ := (treeStep natCmp id 3 (emptyNatTree 64) (.insert 4096 5)).getD (emptyNatTree 64)

/-- The tree of the numbers 5 and 6. -/
def twoNodes : Bst ℕ := (treeStep natCmp id 3 oneNode (.insert 4160 6)).getD oneNode

theorem oneNode_links : (treeStep natCmp id 3 (emptyNatTree 64) (.insert 4096 5)).isSome = true ∧
    (oneNode.root, oneNode.nil, oneNode.child .left 4096, oneNode.child .right 4096) = (4096, 64, 64, 64) ∧
      oneNode.key id 4096 = 5 ∧ oneNode.list 4096 = NULL ∧ oneNode.assertsHeld = true := by decide +kernel

theorem twoNodes_links : (treeStep natCmp id 3 oneNode (.insert 4160 6)).isSome = true ∧
    (twoNodes.root, twoNodes.nil, twoNodes.child .right 4096) = (4096, 64, 4160) ∧
      twoNodes.list 4096 = NULL ∧ twoNodes.assertsHeld = true := by decide +kernel

theorem eq_some_getD {α : Type} {x : Option α} {a : α} (h : x.isSome = true) : x = some (x.getD a) := by
  obtain ⟨y, rfl⟩ := Option.isSome_iff_exists.mp h
  rfl

/-- The first insertion. -/
theorem oneNode_reached : Reached natCmp id oneNode ∧ ∀ a, InTree oneNode a ↔ a = 4096 := by
  obtain ⟨hstep, hlinks, -⟩ := oneNode_links
  simp only [Prod.mk.injEq] at hlinks
  obtain ⟨hroot, hnil, hleft, hright⟩ := hlinks
  have hempty : ∀ a, ¬ InTree (emptyNatTree 64) a := fun a => not_inTree_of_root rfl
  have hop : ValidOp id (emptyNatTree 64) (.insert 4096 5) :=
    ⟨by decide, by decide, hempty _, fun a ha => absurd ha (hempty a)⟩
  refine ⟨.step (.empty emptyNatTree_empty rfl) hop (eq_some_getD hstep), fun a => ⟨fun ha => ?_, ?_⟩⟩
  · rw [← hroot]
    refine eq_root_of_inTree (fun d => ?_) ha
    rw [hroot, hnil]
    cases d
    · exact hleft
    · exact hright
  · rintro rfl
    have hin : InTree oneNode oneNode.root := .root (by rw [hroot, hnil]; decide)
    rwa [hroot] at hin

/-- The second. -/
theorem twoNodes_reached : Reached natCmp id twoNodes ∧ InTree twoNodes 4096 ∧ InTree twoNodes 4160 := by
  obtain ⟨hone, hin⟩ := oneNode_reached
  obtain ⟨-, -, hkey, -⟩ := oneNode_links
  obtain ⟨hstep, hlinks, -⟩ := twoNodes_links
  simp only [Prod.mk.injEq] at hlinks
  obtain ⟨hroot, hnil, hright⟩ := hlinks
  have hnil₁ : (4160 : Addr) ≠ oneNode.nil := by
    rw [(Prod.mk.inj (Prod.mk.inj oneNode_links.2.1).2).1]
    decide
  have hop : ValidOp id oneNode (.insert 4160 6) := by
    refine ⟨by decide, hnil₁, ?_, fun a ha => ?_⟩
    · rw [hin]
      decide
    · rw [(hin a).mp ha, hkey]
      decide
  have h4096 : InTree twoNodes 4096 := by
    have hr : InTree twoNodes twoNodes.root := .root (by rw [hroot, hnil]; decide)
    rwa [hroot] at hr
  refine ⟨.step hone hop (eq_some_getD hstep), h4096, ?_⟩
  have hc := InTree.child .right h4096 (by rw [hright, hnil]; decide)
  rwa [hright] at hc

/-- One of two nodes is deleted. -/
theorem detachAndDelete_asserts_two : ∃ n, ∀ fuel, n ≤ fuel → ∃ t' v, bstDetachAndDelete fuel twoNodes 4096 =
    some (t', v) ∧ t'.assertsHeld = true := by
  obtain ⟨hreached, hin, hin'⟩ := twoNodes_reached
  obtain ⟨n, h⟩ := detachAndDelete_asserts_iff natCmp_orders hreached twoNodes_links.2.2.2 hin twoNodes_links.2.2.1
  refine ⟨n, fun fuel hfuel => ?_⟩
  obtain ⟨t', v, e, hiff⟩ := h fuel hfuel
  exact ⟨t', v, e, hiff.mpr ⟨4160, hin', by decide⟩⟩

/-- The only node is deleted: an assertion fails. -/
theorem detachAndDelete_asserts_one : Reached natCmp id oneNode ∧ oneNode.assertsHeld = true ∧ InTree oneNode 4096 ∧
    oneNode.list 4096 = NULL ∧ (bstDetachAndDelete 3 oneNode 4096).map (fun r => r.1.assertsHeld) = some false := by
  obtain ⟨hreached, hin⟩ := oneNode_reached
  exact ⟨hreached, oneNode_links.2.2.2.2, (hin _).mpr rfl, oneNode_links.2.2.2.1, by decide +kernel⟩

end FileSync.SearchTree
