import FileSync.SearchTree.Find
import FileSync.SearchTree.Insert
import FileSync.SearchTree.Delete

/-!
# The cached ends of the tree

`bst_update_cache_insert` and `bst_update_cache_delete` run after the fix-ups and
read links that these may have moved. They are right nevertheless: a new end is
inserted along a straight path, where no rotation separates it from its parent;
and an end that is deleted has at most one child, which is then the new end, or
else the parent in its own untouched fields is.

`TreeInv` is the invariant of the tree: it is in memory, red-black and sorted,
and the cache has its two ends. The two updates together with the insertion and
the deletion before them keep it (`bstInsert_inv`, `bstDelete_inv`).
-/

namespace FileSync.SearchTree

open FileSync.Lib ColorTree

variable {K V : Type} [LinearOrder K] {cmp : K → V → Int} {keyOf : V → K} {t t' : Bst V}
  {T : ColorTree Addr} {C : List (Frame Addr)}

/-- The cache of a tree whose nodes from left to right are `xs`. -/
def cacheOf (nil previous : Addr) (xs : List Addr) : Cache :=
  { smallest := (endOf .left xs).getD nil, largest := (endOf .right xs).getD nil, previous := previous }

/-- The tree with another cache. -/
def Bst.setCache (t : Bst V) (cache : Cache) : Bst V := { t with cache := cache }

/-- **The invariant of the tree**. -/
structure TreeInv (keyOf : V → K) (t : Bst V) (T : ColorTree Addr) : Prop where
  /-- It is in memory. -/
  rep : Represents t T
  /-- It is balanced. -/
  redBlack : T.IsRedBlack
  /-- Its keys increase. -/
  sorted : Sorted keyOf t T
  /-- The cache has its ends. -/
  cache : t.cache = cacheOf t.nil t.cache.previous T.inorder

theorem endOf_getD_eq {d : Side} {nil x : Addr} {xs : List Addr} (hx : x ≠ nil) :
    (endOf d xs).getD nil = x ↔ endOf d xs = some x := by
  cases endOf d xs with
  | none => simp [hx.symm]
  | some y => simp

theorem endOf_getD_eq_nil {d : Side} {nil : Addr} {xs : List Addr} (h : ∀ a ∈ xs, a ≠ nil) :
    (endOf d xs).getD nil = nil ↔ xs = [] := by
  rw [← endOf_eq_none (d := d)]
  cases e : endOf d xs with
  | none => simp
  | some y => simp [h y (endOf_mem e)]

/-! ### Insertion -/

/-- **`bst_update_cache_insert`**: the new node is in the cache if it is an end. -/
theorem bstUpdateCacheInsert_spec {x : Addr} {l : Location} (hnd : (before C ++ after C).Nodup)
    (hnil : ∀ a ∈ before C ++ after C, a ≠ t.nil)
    (hcache : t.cache = cacheOf t.nil t.cache.previous (before C ++ after C))
    (hpar : l.parent = ctxParent t.nil C)
    (hcmp : ∀ f D, C = f :: D → (l.parentCmp = -1 ↔ f.side = .left) ∧ (l.parentCmp = 1 ↔ f.side = .right))
    (htop : C = [] → l.parentCmp = 0 ∧ t.root = x)
    (hside : ∀ f D, C = f :: D → (∀ g ∈ C, g.side = f.side) → t.child f.side f.addr = x) :
    bstUpdateCacheInsert t l = t.setCache (cacheOf t.nil t.cache.previous (before C ++ x :: after C)) := by
  have hs : t.cache.smallest = (endOf .left (before C ++ after C)).getD t.nil := congrArg Cache.smallest hcache
  have hl : t.cache.largest = (endOf .right (before C ++ after C)).getD t.nil := congrArg Cache.largest hcache
  unfold bstUpdateCacheInsert
  cases C with
  | nil =>
    obtain ⟨h0, hr⟩ := htop rfl
    have hl' : t.cache.largest = t.nil := hl
    subst hr
    rw [if_neg (by simp [h0]), if_neg (by simp [h0]), if_pos hl']
    rfl
  | cons f D =>
    obtain ⟨hleft, hright⟩ := hcmp f D rfl
    have hpar' : l.parent = f.addr := hpar
    have hne : before (f :: D) ++ after (f :: D) ≠ [] := by
      intro e
      have : f.addr ∈ ctxNodes (f :: D) := by simp
      rw [ctxNodes, e] at this
      simp at this
    have hln : t.cache.largest ≠ t.nil := by
      rw [hl]
      exact fun e => hne ((endOf_getD_eq_nil hnil).mp e)
    have hfn : f.addr ≠ t.nil := hnil f.addr (by
      have : f.addr ∈ ctxNodes (f :: D) := by simp
      exact this)
    rcases f with ⟨d, c, a, s⟩
    -- the parent is next to the new node, on the other side of it from the hole
    cases d
    · have hm1 : l.parentCmp = -1 := hleft.mpr rfl
      have h1 : l.parentCmp ≠ 1 := by omega
      have haft : after (⟨.left, c, a, s⟩ :: D) = a :: (s.inorder ++ after D) := rfl
      have hend : a = t.cache.smallest ↔ before (⟨.left, c, a, s⟩ :: D) = [] := by
        rw [haft] at hs hnd
        rw [hs, eq_comm, endOf_getD_eq hfn, endOf_append_cons hnd]
        rfl
      have hlast := endOf_insert .right (before (⟨.left, c, a, s⟩ :: D))
        (after (⟨.left, c, a, s⟩ :: D)) x (by simp [beyond, haft])
      rw [hpar']
      by_cases he : a = t.cache.smallest
      · have hb := hend.mp he
        have hx : t.child .left a = x := hside _ D rfl fun g hg => before_eq_nil.mp hb g hg
        rw [if_pos ⟨hm1, he⟩, hx]
        rw [cacheOf, hlast, ← hl, hb]
        rfl
      · have hb : before (⟨.left, c, a, s⟩ :: D) ≠ [] := fun h => he (hend.mpr h)
        rw [if_neg fun h => he h.2, if_neg fun h => h1 h.1, if_neg hln]
        have hfirst := endOf_insert .left (before (⟨.left, c, a, s⟩ :: D)) (after (⟨.left, c, a, s⟩ :: D)) x hb
        rw [cacheOf, hlast, hfirst, ← hl, ← hs]
        rfl
    · have hm1 : l.parentCmp = 1 := hright.mpr rfl
      have h1 : l.parentCmp ≠ -1 := by omega
      have hbef : before (⟨.right, c, a, s⟩ :: D) = (before D ++ s.inorder) ++ [a] := by simp [before]
      have hend : a = t.cache.largest ↔ after (⟨.right, c, a, s⟩ :: D) = [] := by
        have e : before (⟨.right, c, a, s⟩ :: D) ++ after (⟨.right, c, a, s⟩ :: D) =
            (before D ++ s.inorder) ++ a :: after (⟨.right, c, a, s⟩ :: D) := by
          rw [hbef, List.append_assoc]
          rfl
        rw [e] at hl hnd
        rw [hl, eq_comm, endOf_getD_eq hfn, endOf_append_cons hnd]
        rfl
      have hfirst := endOf_insert .left (before (⟨.right, c, a, s⟩ :: D))
        (after (⟨.right, c, a, s⟩ :: D)) x (by simp [beyond, hbef])
      rw [hpar', if_neg fun h => h1 h.1]
      by_cases he : a = t.cache.largest
      · have ha := hend.mp he
        have hx : t.child .right a = x := hside _ D rfl fun g hg => after_eq_nil.mp ha g hg
        rw [if_pos ⟨hm1, he⟩, hx]
        rw [cacheOf, hfirst, ← hs, ha]
        simp [endOf, Bst.setCache]
      · have ha : after (⟨.right, c, a, s⟩ :: D) ≠ [] := fun h => he (hend.mpr h)
        rw [if_neg fun h => he h.2, if_neg hln]
        have hlast := endOf_insert .right (before (⟨.right, c, a, s⟩ :: D)) (after (⟨.right, c, a, s⟩ :: D)) x ha
        rw [cacheOf, hlast, hfirst, ← hl, ← hs]
        rfl

/-- How the key compares with the parent of the hole, by a comparison that returns only
-1, 0 and 1. -/
theorem HoleFor.parentCmp {k : K} {parent : Addr} {parentCmp : Int} (hcmp : Orders cmp keyOf)
    (h : HoleFor cmp keyOf t k C parent parentCmp) {f : Frame Addr} {D : List (Frame Addr)} (hC : C = f :: D) :
    parentCmp ≠ 0 ∧ (parentCmp = -1 ↔ f.side = .left) ∧ (parentCmp = 1 ↔ f.side = .right) := by
  obtain ⟨hc, hleft, hright⟩ := h.cmp f D hC
  rw [hcmp] at hc
  cases hs : f.side
  · have hlt : k < keyOf (t.value f.addr) := hleft hs
    rw [if_pos hlt] at hc
    simp [hc]
  · have hgt : keyOf (t.value f.addr) < k := hright hs
    rw [if_neg hgt.not_gt, if_neg hgt.ne'] at hc
    simp [hc]

theorem sorted_congr (hv : ∀ a ∈ T.inorder, t'.value a = t.value a) (h : Sorted keyOf t T) :
    Sorted keyOf t' T := by
  refine List.Pairwise.imp_of_mem ?_ h
  intro a b ha hb hab
  rw [Bst.key, Bst.key, hv a ha, hv b hb]
  exact hab

/-- **Insertion**: `bst_insert` where `bst_find` found the hole, then
`bst_update_cache_insert`. -/
theorem bstInsert_inv {x : Addr} {k : K} {l : Location} {fuel : ℕ} (hcmp : Orders cmp keyOf)
    (h : TreeInv keyOf t (plug C leaf)) (hole : HoleFor cmp keyOf t k C l.parent l.parentCmp)
    (hnode : l.node = t.nil) (hx : IsPlace x) (hxn : x ≠ t.nil) (hxT : x ∉ (plug C leaf).inorder)
    (hkey : t.key keyOf x = k) (hfuel : (plug C leaf).size < fuel) :
    ∃ t' T', bstInsert fuel t x l = some t' ∧ Keeps (fun a => a ∈ T'.inorder) t t' ∧
      T'.inorder = before C ++ x :: after C ∧
        bstUpdateCacheInsert t' l = t'.setCache (cacheOf t.nil t.cache.previous T'.inorder) ∧
          TreeInv keyOf (bstUpdateCacheInsert t' l) T' := by
  have hcmp' := fun f D (hC : C = f :: D) => hole.parentCmp hcmp hC
  obtain ⟨t', T', e, hr, hrb, hin, hk, hside⟩ := bstInsert_spec h.rep h.redBlack hx hxn hxT hnode hole.parent
    (fun f D hC => ⟨(hcmp' f D hC).1, (hcmp' f D hC).2.1⟩) hfuel
  have hn := hk.nil
  have hinC : (plug C leaf).inorder = before C ++ after C := by rw [inorder_plug]; simp
  have hcache : bstUpdateCacheInsert t' l =
      t'.setCache (cacheOf t'.nil t'.cache.previous (before C ++ x :: after C)) := by
    refine bstUpdateCacheInsert_spec ?_ ?_ ?_ ?_ (fun f D hC => (hcmp' f D hC).2) (fun hC => ?_) hside
    · rw [← hinC]
      exact h.rep.nodup
    · rw [← hinC, hn]
      exact fun a ha => (h.rep.place a ha).2
    · rw [hk.cache, hn, ← hinC]
      exact h.cache
    · rw [hn]
      exact hole.parent
    · refine ⟨hole.top hC, ?_⟩
      subst hC
      have hlen := length_inorder T'
      rw [hin] at hlen
      have hroot := hr.root
      obtain ⟨c, A, r, B, rfl⟩ := (eq_leaf_or_branch .left T').resolve_left (by rintro rfl; simp at hin)
      have hm : r ∈ (branch .left c A r B).inorder := by simp
      rw [hin] at hm
      rw [hroot, rootOr_branch]
      simpa [before, after] using hm
  rw [hk.cache, hn, ← hin] at hcache
  refine ⟨t', T', e, hk, hin, hcache, ?_⟩
  rw [hcache]
  refine ⟨hr.congr rfl rfl fun a _ => ⟨fun _ => rfl, rfl, rfl⟩, hrb, ?_, ?_⟩
  · have hval : ∀ a, Bst.key keyOf t' a = t.key keyOf a := fun a => by rw [Bst.key, Bst.key, hk.value]
    show T'.inorder.Pairwise fun a b => Bst.key keyOf t' a < Bst.key keyOf t' b
    simp only [hval]
    rw [hin]
    exact pairwise_of_hole hole h.sorted hkey
  · show cacheOf t.nil t.cache.previous T'.inorder = cacheOf t'.nil t.cache.previous T'.inorder
    rw [hn]

/-! ### Deletion -/

/-- The split of a list without repetition at one of its elements is unique. -/
theorem append_eq_of_nodup {z : Addr} {xs ys xs' ys' : List Addr} (hnd : (xs ++ z :: ys).Nodup)
    (h : xs ++ z :: ys = xs' ++ z :: ys') : xs ++ ys = xs' ++ ys' := by
  have erase : ∀ p q : List Addr, (p ++ z :: q).Nodup → (p ++ z :: q).erase z = p ++ q := by
    intro p q hpq
    have hz : z ∉ p := fun hm => (List.nodup_append.mp hpq).2.2 z hm z (by simp) rfl
    rw [List.erase_append_right _ hz, List.erase_cons_head]
  rw [← erase xs ys hnd, ← erase xs' ys' (h ▸ hnd), h]

/-- At an end of the tree there is nothing further. -/
theorem Represents.child_end {d : Side} {x : Addr} (h : Represents t T) (hx : endOf d T.inorder = some x) :
    t.child d x = t.nil := by
  obtain ⟨C, c, u, rfl, -⟩ := exists_plug_of_endOf h.nodup hx
  exact h.links.1

/-- The new end after the end `z` has been deleted, as `bst_update_cache_delete` finds it:
the only other child, or else the parent. -/
theorem nextEnd_spec {d : Side} {z : Addr} {xs ys : List Addr} {T' : ColorTree Addr} {fuel : ℕ}
    (h : Represents t T) (hrb : T.IsRedBlack) (hz : endOf d T.inorder = some z) (h' : Represents t' T')
    (hxs : T.inorder = xs ++ z :: ys) (hys : T'.inorder = xs ++ ys) (hne : T'.inorder ≠ [])
    (hheap : t'.heap z = t.heap z) (hfuel : 0 < fuel) :
    (t'.child d.flip z ≠ t.nil →
      bstLocalExtreme d fuel t' (t'.child d.flip z) = some ((endOf d T'.inorder).getD t.nil)) ∧
    (t'.child d.flip z = t.nil → bstParent t' z = (endOf d T'.inorder).getD t.nil) := by
  obtain ⟨C, c, B, rfl, hC⟩ := exists_plug_of_endOf h.nodup hz
  obtain ⟨hch, hpar, -⟩ := sameLinks_of_heap hheap
  obtain ⟨-, hB, hp, -⟩ := h.links
  rw [hch, hpar, hB, hp]
  -- what is left is what a splice would leave
  have hin : T'.inorder = (plug C B).inorder := by
    obtain ⟨xs', ys', hxs', hys'⟩ := (unlinked_splice h).inorder
    rw [hys, hys']
    refine append_eq_of_nodup (z := z) ?_ ?_
    · rw [← hxs]
      exact h.nodup
    · rw [← hxs, ← hxs']
  rw [hin]
  by_cases hBl : B = leaf
  · subst hBl
    cases C with
    | nil =>
      rw [hin] at hne
      exact absurd rfl hne
    | cons f D =>
      have hf : f.side = d := hC f (by simp)
      have hend := endOf_plug_branch (c := f.color) (x := f.addr) (u := f.sib)
        fun g hg => hC g (List.mem_cons_of_mem f hg)
      rw [plug_cons, hf, hend]
      exact ⟨fun e => absurd rfl e, fun _ => rfl⟩
  · have hfar := h
    rw [← plug_far] at hfar
    have hBn : B.rootOr t.nil ≠ t.nil := fun e => hBl (hfar.rootOr_eq_nil.mp e)
    refine ⟨fun _ => ?_, fun e => absurd e hBn⟩
    obtain ⟨-, m, hm⟩ := hrb
    obtain ⟨n, hb, -, -⟩ := exists_balanced_plug hm
    obtain ⟨-, k, -, hk0, hkB⟩ := balanced_branch.mp hb
    rw [balanced_leaf] at hk0
    subst hk0
    obtain ⟨b, rfl⟩ := exists_branch_of_balanced_zero d hkB hBl
    have hend := endOf_plug_branch (c := .red) (x := b) (u := leaf) hC
    have hb' : t'.child d b = t'.nil := h'.child_end (by rw [hin, hend])
    obtain ⟨n, rfl⟩ : ∃ n, fuel = n + 1 := ⟨fuel - 1, by omega⟩
    rw [hend, rootOr_branch]
    exact loop_leave (by rw [if_neg (not_not.mpr hb')]; rfl) n

/-- The two ends of a list are the same node only if there is no other. -/
theorem eq_nil_of_ends_eq {z nil : Addr} {xs ys : List Addr} (hnd : (xs ++ z :: ys).Nodup)
    (hnil : ∀ a ∈ xs ++ z :: ys, a ≠ nil)
    (h : (endOf .left (xs ++ z :: ys)).getD nil = (endOf .right (xs ++ z :: ys)).getD nil) :
    xs = [] ∧ ys = [] := by
  have hne : (endOf .left (xs ++ z :: ys)).getD nil ≠ nil := by
    intro e
    have hempty := (endOf_getD_eq_nil hnil).mp e
    simp at hempty
  have hleft := (endOf_getD_eq hne).mp rfl
  have hright := (endOf_getD_eq (h ▸ hne)).mp rfl
  exact endOf_left_eq_right hnd hleft (h ▸ hright)

/-- **`bst_update_cache_delete`**: the cache has the ends of what is left. Its assertions hold
if anything is left; otherwise `node == tree->root` does not, the root being `nil` already. -/
theorem bstUpdateCacheDelete_spec {z : Addr} {xs ys : List Addr} {T' : ColorTree Addr} {fuel : ℕ}
    (h : TreeInv keyOf t T) (h' : Represents t' T') (hxs : T.inorder = xs ++ z :: ys)
    (hys : T'.inorder = xs ++ ys) (hn : t'.nil = t.nil) (hc : t'.cache = t.cache)
    (hheap : t'.heap z = t.heap z) (hfuel : 0 < fuel) :
    bstUpdateCacheDelete fuel t' z = some (({ t' with assertsHeld := t'.assertsHeld && !T'.inorder.isEmpty } :
      Bst V).setCache (cacheOf t.nil t.cache.previous T'.inorder)) := by
  have hs : t'.cache.smallest = (endOf .left T.inorder).getD t.nil := by
    rw [hc]
    exact congrArg Cache.smallest h.cache
  have hl : t'.cache.largest = (endOf .right T.inorder).getD t.nil := by
    rw [hc]
    exact congrArg Cache.largest h.cache
  have hnil : ∀ a ∈ T.inorder, a ≠ t.nil := fun a ha => (h.rep.place a ha).2
  have hzT : z ∈ T.inorder := by simp [hxs]
  have hnd := h.rep.nodup
  rw [hxs] at hnd
  have first : z = t'.cache.smallest ↔ endOf .left T.inorder = some z := by
    rw [hs, eq_comm]
    exact endOf_getD_eq (hnil z hzT)
  have last : z = t'.cache.largest ↔ endOf .right T.inorder = some z := by
    rw [hl, eq_comm]
    exact endOf_getD_eq (hnil z hzT)
  have hzN : z ≠ NULL := (h.rep.place z hzT).1.1
  have emptySide : ∀ d, endOf d T.inorder = some z → t'.child d z = t'.nil := by
    intro d hd
    rw [(sameLinks_of_heap hheap).1, h.rep.child_end hd, hn]
  unfold bstUpdateCacheDelete
  by_cases hsl : t'.cache.smallest = t'.cache.largest
  · rw [if_pos hsl]
    have hone : xs = [] ∧ ys = [] := by
      rw [hs, hl, hxs] at hsl
      exact eq_nil_of_ends_eq hnd (hxs ▸ hnil) hsl
    have hroot : z ≠ t'.root := by
      have hT' : T' = leaf := inorder_eq_nil.mp (by rw [hys, hone.1, hone.2]; rfl)
      rw [h'.root_eq_nil.mpr hT', hn]
      exact hnil z hzT
    rw [hys, hone.1, hone.2, ← hn, ← hc]
    simp [Bst.assert, hroot, Bst.setCache, cacheOf, endOf]
  · rw [if_neg hsl]
    have hne : T'.inorder ≠ [] := by
      intro e
      rw [hys] at e
      obtain ⟨rfl, rfl⟩ := List.append_eq_nil_iff.mp e
      rw [hs, hl, hxs] at hsl
      exact hsl rfl
    have hasserts : (t'.assertsHeld && !T'.inorder.isEmpty) = t'.assertsHeld := by simp [hne]
    rw [hasserts]
    by_cases hz1 : z = t'.cache.smallest
    · have hfirst := first.mp hz1
      obtain ⟨n1, n2⟩ := nextEnd_spec h.rep h.redBlack hfirst h' hxs hys hne hheap hfuel
      rw [Side.flip_left] at n1 n2
      have hxe : xs = [] := by
        rw [hxs] at hfirst
        exact (endOf_append_cons hnd).mp hfirst
      have hlast : t'.cache.largest = (endOf .right T'.inorder).getD t.nil := by
        rw [hl, hxs, hys, hxe, endOf_insert .right [] ys z]
        rintro rfl
        exact hne (by rw [hys, hxe]; rfl)
      rw [if_pos hz1, ← hz1, Bst.assert_of t' (emptySide .left hfirst)]
      dsimp only
      rw [← hz1]
      by_cases hr : t'.child .right z = t'.nil
      · rw [if_neg (not_not.mpr hr), Bst.touch_of t' hzN, ← hz1, n2 (hr.trans hn), hlast, ← hc]
        rfl
      · rw [if_pos hr, bstLocalMinimum, n1 (hn ▸ hr), hlast, ← hc]
        rfl
    · rw [if_neg hz1]
      have hxe : xs ≠ [] := by
        rintro rfl
        exact hz1 (first.mpr (by rw [hxs, endOf_append_cons hnd]; rfl))
      have hfirst : t'.cache.smallest = (endOf .left T'.inorder).getD t.nil := by
        rw [hs, hxs, hys, endOf_insert .left xs ys z hxe]
      by_cases hz2 : z = t'.cache.largest
      · have hlast := last.mp hz2
        obtain ⟨n1, n2⟩ := nextEnd_spec h.rep h.redBlack hlast h' hxs hys hne hheap hfuel
        rw [Side.flip_right] at n1 n2
        rw [if_pos hz2, ← hz2, Bst.assert_of t' (emptySide .right hlast)]
        dsimp only
        rw [← hz2]
        by_cases hr : t'.child .left z = t'.nil
        · rw [if_neg (not_not.mpr hr), Bst.touch_of t' hzN, ← hz2, n2 (hr.trans hn), hfirst, ← hc]
          rfl
        · rw [if_pos hr, bstLocalMaximum, n1 (hn ▸ hr), hfirst, ← hc]
          rfl
      · have hye : ys ≠ [] := by
          rintro rfl
          exact hz2 (last.mpr (by rw [hxs, endOf_append_cons hnd]; rfl))
        have hlast : t'.cache.largest = (endOf .right T'.inorder).getD t.nil := by
          rw [hl, hxs, hys, endOf_insert .right xs ys z hye]
        rw [if_neg hz2, cacheOf, ← hfirst, ← hlast, ← hc]
        rfl

/-- **Deletion**: `bst_delete`, then `bst_update_cache_delete`. -/
theorem bstDelete_inv {z : Addr} {fuel : ℕ} (h : TreeInv keyOf t T) (hz : z ∈ T.inorder)
    (hfuel : T.size < fuel) :
    ∃ t' t'' T' xs ys, bstDelete fuel t z = some t' ∧ Keeps (fun a => a ∈ T'.inorder ∨ a = t.nil) t t' ∧
      T.inorder = xs ++ z :: ys ∧ T'.inorder = xs ++ ys ∧ bstUpdateCacheDelete fuel t' z = some t'' ∧
        TreeInv keyOf t'' T' ∧ t''.assertsHeld = (t.assertsHeld && !T'.inorder.isEmpty) := by
  obtain ⟨t', T', xs, ys, e, hr, hrb, hxs, hys, hk⟩ := bstDelete_spec h.rep h.redBlack hz hfuel
  have hzT' : z ∉ T'.inorder := by
    have hnd := h.rep.nodup
    rw [hxs] at hnd
    rw [hys]
    exact (List.nodup_cons.mp (List.nodup_middle.mp hnd)).1
  have hheap : t'.heap z = t.heap z := by
    refine hk.heap z ?_
    rintro (hm | rfl)
    · exact hzT' hm
    · exact (h.rep.place _ hz).2 rfl
  have hpos : 0 < fuel := by omega
  have e' := bstUpdateCacheDelete_spec h hr hxs hys hk.nil hk.cache hheap hpos
  refine ⟨t', _, T', xs, ys, e, hk, hxs, hys, e', ⟨hr.congr rfl rfl fun a _ => ⟨fun _ => rfl, rfl, rfl⟩, hrb, ?_, ?_⟩, ?_⟩
  · have hsub : T'.inorder.Sublist T.inorder := by
      rw [hxs, hys]
      exact (List.Sublist.refl xs).append (List.sublist_cons_self z ys)
    refine List.Pairwise.imp ?_ (h.sorted.sublist hsub)
    intro a b hab
    show keyOf (t'.value a) < keyOf (t'.value b)
    rw [hk.value, hk.value]
    exact hab
  · show cacheOf t.nil t.cache.previous T'.inorder = cacheOf t'.nil t.cache.previous T'.inorder
    rw [hk.nil]
  · rw [← hk.assertsHeld]
    rfl

end FileSync.SearchTree
