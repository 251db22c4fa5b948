import FileSync.SearchTree.Linked
import Mathlib.Order.Defs.LinearOrder
import Mathlib.Order.Basic

/-!
# Search

`bst_find` in a tree in memory whose keys are sorted: it ends at the node with
the key, or at the place where a node with that key belongs. The keys are
compared through the caller's comparison function; `Compares` is what the
descent needs of it, `Orders` the stronger promise that it returns only -1, 0
and 1.
-/

namespace FileSync.SearchTree

open FileSync.Lib ColorTree

variable {K V : Type}

/-- The comparison function is consistent with the order of the keys: negative for
less, 0 for equal, positive for greater. -/
structure Compares [LinearOrder K] (cmp : K → V → Int) (keyOf : V → K) : Prop where
  lt_iff : ∀ k v, cmp k v < 0 ↔ k < keyOf v
  eq_iff : ∀ k v, cmp k v = 0 ↔ k = keyOf v

/-- The comparison function totally orders the keys and returns only -1, 0 and 1. -/
def Orders [LinearOrder K] (cmp : K → V → Int) (keyOf : V → K) : Prop :=
  ∀ k v, cmp k v = if k < keyOf v then -1 else if k = keyOf v then 0 else 1

variable [LinearOrder K] {cmp : K → V → Int} {keyOf : V → K}

theorem Orders.compares (h : Orders cmp keyOf) : Compares cmp keyOf := by
  constructor
  · intro k v
    rw [h k v]
    split_ifs with h1 h2
    · simp [h1]
    · simp [h1]
    · simp [h1]
  · intro k v
    rw [h k v]
    split_ifs with h1 h2
    · simp [h1.ne]
    · simp [h2]
    · simp [h2]

/-- The comparison of natural numbers as a comparator. -/
def natCmp (k v : ℕ) : Int := if k < v then -1 else if k = v then 0 else 1

theorem natCmp_orders : Orders natCmp (id : ℕ → ℕ) := fun _ _ => rfl

/-- The key of the value in a node. -/
def Bst.key (keyOf : V → K) (t : Bst V) (a : Addr) : K := keyOf (t.value a)

/-- The keys increase from left to right. -/
def Sorted (keyOf : V → K) (t : Bst V) (T : ColorTree Addr) : Prop :=
  T.inorder.Pairwise fun a b => t.key keyOf a < t.key keyOf b

/-- The hole of the context is where the key `k` belongs, and `location` says so. -/
structure HoleFor (cmp : K → V → Int) (keyOf : V → K) (t : Bst V) (k : K) (C : List (Frame Addr))
    (parent : Addr) (parentCmp : Int) : Prop where
  /-- The parent of the hole. -/
  parent : parent = ctxParent t.nil C
  /-- How the key compares there. -/
  cmp : ∀ f D, C = f :: D → parentCmp = cmp k (t.value f.addr) ∧
    (f.side = .left → k < t.key keyOf f.addr) ∧ (f.side = .right → t.key keyOf f.addr < k)
  /-- At the top nothing was compared. -/
  top : C = [] → parentCmp = 0
  /-- The keys before the hole are less. -/
  before : ∀ a ∈ before C, t.key keyOf a < k
  /-- The keys after the hole are greater. -/
  after : ∀ a ∈ after C, k < t.key keyOf a

/-- A key that belongs in a hole is in no node. -/
theorem HoleFor.key_ne {t : Bst V} {k : K} {C : List (Frame Addr)} {parent a : Addr} {parentCmp : Int}
    (h : HoleFor cmp keyOf t k C parent parentCmp) (ha : a ∈ (plug C leaf).inorder) : k ≠ t.key keyOf a := by
  rw [inorder_plug, inorder_leaf, List.append_nil, List.mem_append] at ha
  rcases ha with ha | ha
  · exact (h.before a ha).ne'
  · exact (h.after a ha).ne

/-- A node with the key belongs in the hole. -/
theorem pairwise_of_hole {t : Bst V} {k : K} {C : List (Frame Addr)} {parent x : Addr} {parentCmp : Int}
    (h : HoleFor cmp keyOf t k C parent parentCmp) (hs : Sorted keyOf t (plug C leaf)) (hx : t.key keyOf x = k) :
    (before C ++ x :: after C).Pairwise fun a b => t.key keyOf a < t.key keyOf b := by
  rw [Sorted, inorder_plug, inorder_leaf, List.append_nil, List.pairwise_append] at hs
  obtain ⟨hbefore, hafter, hcross⟩ := hs
  rw [List.pairwise_append, List.pairwise_cons]
  refine ⟨hbefore, ⟨fun a ha => ?_, hafter⟩, fun a ha b hb => ?_⟩
  · rw [hx]
    exact h.after a ha
  · rcases List.mem_cons.mp hb with rfl | hb
    · rw [hx]
      exact h.before a ha
    · exact hcross a ha b hb

/-- The invariant of the loop of `bst_find`. -/
def FindInv (cmp : K → V → Int) (keyOf : V → K) (t : Bst V) (T : ColorTree Addr) (key : K) (k : ℕ)
    (l : Location) : Prop :=
  ∃ C S, T = plug C S ∧ l.node = S.rootOr t.nil ∧
    HoleFor cmp keyOf t key C l.parent l.parentCmp ∧ S.size ≤ k

/-- What `bst_find` finds: the node with the key, or the place where it belongs. -/
inductive Found (cmp : K → V → Int) (keyOf : V → K) (t : Bst V) (T : ColorTree Addr) (key : K)
    (l : Location) : Prop
  /-- A node of the tree has the key. -/
  | node {C : List (Frame Addr)} {c : Color} {A B : ColorTree Addr} :
      T = plug C (branch .left c A l.node B) → t.key keyOf l.node = key → Found cmp keyOf t T key l
  /-- None has. -/
  | hole {C : List (Frame Addr)} : T = plug C leaf → l.node = t.nil →
      HoleFor cmp keyOf t key C l.parent l.parentCmp → Found cmp keyOf t T key l

theorem findTurn_ok {t : Bst V} {T : ColorTree Addr} (hcmp : Compares cmp keyOf) (h : Represents t T)
    (hs : Sorted keyOf t T) (key : K) {k : ℕ} {l : Location} (hl : FindInv cmp keyOf t T key k l) :
    TurnOk (FindInv cmp keyOf t T key) (Found cmp keyOf t T key) k (bstFindTurn cmp t key l) := by
  obtain ⟨C, S, rfl, hnode, hole, hk⟩ := hl
  unfold bstFindTurn
  cases S with
  | leaf =>
    rw [rootOr_leaf] at hnode
    rw [if_pos hnode]
    exact Found.hole rfl hnode hole
  | node c A a B =>
    rw [rootOr_node] at hnode
    have ha : a ∈ (plug C (node c A a B)).inorder := by simp [mem_inorder_plug]
    rw [if_neg (by rw [hnode]; exact (h.place a ha).2)]
    have hlinks := Represents.links (d := .left) (A := A) (B := B) h
    -- the keys of the two subtrees lie on the two sides of the key of the node
    have hsS : (A.inorder ++ a :: B.inorder).Pairwise fun a b => t.key keyOf a < t.key keyOf b := by
      have := hs
      rw [Sorted, inorder_plug] at this
      exact (List.pairwise_append.mp (List.pairwise_append.mp this).1).2.1
    obtain ⟨-, hB, hA⟩ := List.pairwise_append.mp hsS
    simp only [hnode]
    split_ifs with h0 hneg
    · exact Found.node (C := C) (c := c) (A := A) (B := B) (by rw [hnode]; rfl)
        (by rw [hnode]; exact ((hcmp.eq_iff _ _).mp h0).symm)
    · have hlt := (hcmp.lt_iff _ _).mp hneg
      refine ⟨A.size, ?_, ⟨.left, c, a, B⟩ :: C, A, rfl, hlinks.1, ⟨rfl, ?_, by simp, ?_, ?_⟩, le_rfl⟩
      · simp only [size] at hk
        omega
      · rintro f D e
        cases e
        exact ⟨rfl, fun _ => hlt, by simp⟩
      · simpa [before] using hole.before
      · intro b hb
        simp only [after, List.mem_append, List.mem_cons] at hb
        rcases hb with (rfl | hb) | hb
        · exact hlt
        · exact lt_trans hlt ((List.pairwise_cons.mp hB).1 b hb)
        · exact hole.after b hb
    · have hgt : t.key keyOf a < key := by
        refine lt_of_le_of_ne (not_lt.mp fun hlt => hneg ((hcmp.lt_iff _ _).mpr hlt)) fun e => ?_
        exact h0 ((hcmp.eq_iff _ _).mpr e.symm)
      refine ⟨B.size, ?_, ⟨.right, c, a, A⟩ :: C, B, rfl, hlinks.2.1, ⟨rfl, ?_, by simp, ?_, ?_⟩, le_rfl⟩
      · simp only [size] at hk
        omega
      · rintro f D e
        cases e
        exact ⟨rfl, by simp, fun _ => hgt⟩
      · intro b hb
        simp only [before, List.mem_append, List.mem_cons, List.not_mem_nil, or_false] at hb
        rcases hb with hb | hb | rfl
        · exact hole.before b hb
        · exact lt_trans (hA b hb a (by simp)) hgt
        · exact hgt
      · simpa [after] using hole.after

/-- **`bst_find`** ends at the node with the key, or at the place where it belongs. -/
theorem bstFind_spec {t : Bst V} {T : ColorTree Addr} (hcmp : Compares cmp keyOf) (h : Represents t T)
    (hs : Sorted keyOf t T) (key : K) {fuel : ℕ} (hfuel : T.size < fuel) :
    ∃ l, bstFind cmp fuel t key = some l ∧ Found cmp keyOf t T key l := by
  refine loop_of_bound (fun k l hl => findTurn_ok hcmp h hs key hl) (k := T.size) ?_ hfuel
  refine ⟨[], T, rfl, h.root, ⟨rfl, by simp, fun _ => rfl, ?_, ?_⟩, le_rfl⟩
  · simp [before]
  · simp [after]

end FileSync.SearchTree
