import FileSync.Lib.Recency
import Mathlib.Algebra.Ring.Nat
import Mathlib.Data.Finset.Card

/-!
# Paging

How often a cache that keeps the `n` most recent keys misses (`missed`). A larger one misses
only where a smaller one does (`missed_sublist`). Against any other way to serve the same
accesses with `m ≤ n` places, be it chosen with all of them known (`Serves`), it misses
at most `n / (n - m + 1)` times as often, apart from the `n` misses that fill it
(`missed_competitive`).

The proof of the latter is by a potential: each key that the cache has and the other one has not
is worth the more the more recent it is (`debt`). A miss of the cache alone brings this down by
what a miss may cost, and a key that the other one lets go brings it up by no more than `n`.
-/

namespace FileSync.Lib

variable {α : Type} [DecidableEq α] {ks rest l : List α} {k : α} {n m r : ℕ} {S S' T : Finset α}

/-! ### The two caches -/

/-- The accesses `rest` that miss, after accesses of `ks`. -/
def missed (n : ℕ) : List α → List α → List α
  | _, [] => []
  | ks, k :: rest => (if k ∈ (recency ks).take n then [] else [k]) ++ missed n (ks ++ [k]) rest

/-- A way to serve accesses with `m` places, from the keys `S` on: each access comes with the keys
that are kept after it. No key is brought in but the one that is accessed. -/
def Serves (m : ℕ) : Finset α → List (α × Finset α) → Prop
  | _, [] => True
  | S, (k, S') :: plan => k ∈ S' ∧ S' ⊆ insert k S ∧ S'.card ≤ m ∧ Serves m S' plan

/-- How often it misses. -/
def faults : Finset α → List (α × Finset α) → ℕ
  | _, [] => 0
  | S, (k, S') :: plan => (if k ∈ S then 0 else 1) + faults S' plan

theorem missed_sublist {N : ℕ} (h : n ≤ N) : (missed N ks rest).Sublist (missed n ks rest) := by
  induction rest generalizing ks with
  | nil => exact List.Sublist.refl _
  | cons k rest ih =>
    have hsub : k ∈ (recency ks).take n → k ∈ (recency ks).take N := fun hmem =>
      List.take_subset_take_left _ h hmem
    simp only [missed]
    refine List.Sublist.append ?_ ih
    split_ifs with hN hn hn
    · exact List.Sublist.refl _
    · exact List.nil_sublist _
    · exact absurd (hsub hn) hN
    · exact List.Sublist.refl _

/-! ### The potential -/

/-- What the keys of `l` that are not in `S` are worth: `r` the first, and one less each next. -/
def debt : ℕ → Finset α → List α → ℕ
  | _, _, [] => 0
  | r, S, k :: l => (if k ∈ S then 0 else r) + debt (r - 1) S l

theorem debt_mono_rank {r' : ℕ} (h : r ≤ r') : debt r S l ≤ debt r' S l := by
  induction l generalizing r r' with
  | nil => exact le_rfl
  | cons k l ih =>
    have hl := ih (Nat.sub_le_sub_right h 1)
    simp only [debt]
    split_ifs <;> omega

theorem debt_anti (h : S ⊆ T) : debt r T l ≤ debt r S l := by
  induction l generalizing r with
  | nil => exact le_rfl
  | cons k l ih =>
    have hl := @ih (r - 1)
    simp only [debt]
    split_ifs with hT hS hS
    · omega
    · omega
    · exact absurd (h hS) hT
    · omega

theorem debt_take_le {i : ℕ} : debt r S (l.take i) ≤ debt r S l := by
  induction l generalizing r i with
  | nil => simp
  | cons k l ih =>
    cases i with
    | zero => exact Nat.zero_le _
    | succ i =>
      rw [List.take_succ_cons]
      simp only [debt]
      exact Nat.add_le_add_left ih _

/-- One more for each key that is not in `S`. -/
theorem debt_succ (h : l.length ≤ r + 1) : debt (r + 1) S l = debt r S l + (l.filter (· ∉ S)).length := by
  induction l generalizing r with
  | nil => rfl
  | cons k l ih =>
    have hl : debt r S l = debt (r - 1) S l + (l.filter (· ∉ S)).length := by
      cases r with
      | zero =>
        obtain rfl : l = [] := List.length_eq_zero_iff.mp (by simpa using h)
        rfl
      | succ r => exact ih (by simpa using h)
    simp only [debt, Nat.add_sub_cancel]
    by_cases hk : k ∈ S
    · rw [List.filter_cons_of_neg (by simpa using hk), if_pos hk, if_pos hk]
      omega
    · rw [List.filter_cons_of_pos (by simpa using hk), if_neg hk, if_neg hk, List.length_cons]
      omega

/-- A key in `S` moves to the front. -/
theorem debt_front {xs ys : List α} (hk : k ∈ S) : debt r S (k :: (xs ++ ys)) ≤ debt r S (xs ++ k :: ys) := by
  rw [debt, if_pos hk, Nat.zero_add]
  induction xs generalizing r with
  | nil => simp [debt, hk]
  | cons a xs ih =>
    have hxs := @ih (r - 1)
    simp only [List.cons_append, debt]
    split_ifs <;> omega

/-- Keys that are let go. -/
theorem debt_sdiff_le : debt r S l ≤ debt r T l + r * (l.filter fun a => a ∈ T ∧ a ∉ S).length := by
  induction l generalizing r with
  | nil => exact Nat.zero_le _
  | cons a l ih =>
    have hl := @ih (r - 1)
    have hle : (r - 1) * (l.filter fun a => a ∈ T ∧ a ∉ S).length ≤ r * (l.filter fun a => a ∈ T ∧ a ∉ S).length :=
      Nat.mul_le_mul_right _ (Nat.sub_le r 1)
    simp only [debt]
    by_cases ha : a ∈ T ∧ a ∉ S
    · rw [List.filter_cons_of_pos (by simpa using ha), if_pos ha.1, if_neg ha.2, List.length_cons, Nat.mul_add]
      omega
    · rw [List.filter_cons_of_neg (by simpa using ha)]
      split_ifs with hS hT hT
      · omega
      · omega
      · exact absurd ⟨hT, hS⟩ ha
      · omega

/-- A list without repetition has no more keys of a set than the set has. -/
theorem length_filter_mem_le (h : l.Nodup) (T : Finset α) : (l.filter (· ∈ T)).length ≤ T.card := by
  rw [← List.toFinset_card_of_nodup (h.filter _)]
  refine Finset.card_le_card fun a ha => ?_
  simpa using (List.mem_filter.mp (List.mem_toFinset.mp ha)).2

theorem debt_add_card_le (hl : l.Nodup) (h : S ⊆ T) : debt r S l + r * S.card ≤ debt r T l + r * T.card := by
  have hdrop := @debt_sdiff_le _ _ l r S T
  have hfilter : (l.filter fun a => a ∈ T ∧ a ∉ S) = l.filter (· ∈ T \ S) := by
    refine List.filter_congr fun a _ => ?_
    simp
  have hle := length_filter_mem_le hl (T \ S)
  rw [← hfilter, Finset.card_sdiff_of_subset h] at hle
  have hcard := Finset.card_le_card h
  have hmul := Nat.mul_le_mul_left r hle
  rw [Nat.mul_sub] at hmul
  have hmono := Nat.mul_le_mul_left r hcard
  omega

/-! ### One access -/

/-- The potential: what the keys are worth, `n` for each place in use of the other cache, and what a
miss may cost for each free place. -/
def potential (n m : ℕ) (S : Finset α) (l : List α) : ℕ := debt n S l + n * S.card + (n + 1 - m) * (n - l.length)

/-- The other cache serves the access. -/
theorem debt_serve_le (hl : l.Nodup) (h : S' ⊆ insert k S) :
    debt n S' l + n * S'.card ≤ n * (if k ∈ S then 0 else 1) + (debt n S l + n * S.card) := by
  have hserve := debt_add_card_le (r := n) hl h
  have hbring := debt_anti (r := n) (l := l) (Finset.subset_insert k S)
  split_ifs with hk
  · rw [Finset.insert_eq_of_mem hk] at hserve
    omega
  · rw [Finset.card_insert_of_notMem hk, Nat.mul_add] at hserve
    omega

/-- The keys that only the cache has, at a miss that the other one has served. -/
theorem le_length_filter (hl : l.Nodup) (hkl : k ∉ l) (hkS : k ∈ S) (hcard : S.card ≤ m) :
    l.length + 1 ≤ (l.filter (· ∉ S)).length + m := by
  have hsplit : l.length = (l.filter (· ∈ S)).length + (l.filter (· ∉ S)).length := by
    simpa using List.length_eq_length_filter_add (l := l) (· ∈ S)
  have hmem : l.filter (· ∈ S) = l.filter (· ∈ S.erase k) := by
    refine List.filter_congr fun a ha => ?_
    have hne : a ≠ k := fun e => hkl (e ▸ ha)
    simp [hne]
  have hle := length_filter_mem_le hl (S.erase k)
  rw [← hmem, Finset.card_erase_of_mem hkS] at hle
  have hpos := Finset.card_pos.mpr ⟨k, hkS⟩
  omega

/-- The cache serves it. -/
theorem debt_access_le (ks : List α) (hmn : m ≤ n) (hk : k ∈ S) (hcard : S.card ≤ m) :
    (n + 1 - m) * (if k ∈ (recency ks).take n then 0 else 1) +
        (debt n S ((recency (ks ++ [k])).take n) + (n + 1 - m) * (n - ((recency (ks ++ [k])).take n).length)) ≤
      debt n S ((recency ks).take n) + (n + 1 - m) * (n - ((recency ks).take n).length) := by
  have hnodup : ((recency ks).take n).Nodup := (nodup_recency ks).sublist (List.take_sublist ..)
  split_ifs with hmem
  · obtain ⟨xs, ys, hxs, hlist, herase⟩ := List.exists_erase_eq hmem
    have hfront : debt n S (k :: (xs ++ ys)) ≤ debt n S (xs ++ k :: ys) := debt_front hk
    have hlen : (xs ++ k :: ys).length = (k :: (xs ++ ys)).length := by
      simp only [List.length_append, List.length_cons]
      omega
    rw [take_recency_of_mem hmem, herase, hlist, hlen]
    omega
  · have hpos : 0 < n := lt_of_lt_of_le (Finset.card_pos.mpr ⟨k, hk⟩) (hcard.trans hmn)
    obtain ⟨n, rfl⟩ : ∃ i, n = i + 1 := ⟨n - 1, by omega⟩
    rw [take_recency_of_notMem hmem, debt, if_pos hk, Nat.zero_add, Nat.add_sub_cancel, List.length_cons, Nat.mul_one]
    by_cases hfree : (recency ks).length ≤ n
    · -- a free place is filled
      have hmono : debt n S (recency ks) ≤ debt (n + 1) S (recency ks) := debt_mono_rank (Nat.le_succ n)
      have hplace : n + 1 - (recency ks).length = n + 1 - ((recency ks).length + 1) + 1 := by omega
      rw [List.take_of_length_le hfree, List.take_of_length_le (Nat.le_succ_of_le hfree), hplace, Nat.mul_add]
      omega
    · -- the last key goes, and all others are worth one less
      have hlen : ((recency ks).take (n + 1)).length = n + 1 := List.length_take_of_le (by omega)
      have hlen' : ((recency ks).take n).length = n := List.length_take_of_le (by omega)
      have hsucc := debt_succ (S := S) hlen.le
      have hcount := le_length_filter hnodup hmem hk hcard
      have htake := debt_take_le (r := n) (S := S) (l := (recency ks).take (n + 1)) (i := n)
      rw [List.take_take, min_eq_left (Nat.le_succ n)] at htake
      rw [hlen, hlen', Nat.sub_self]
      omega

/-- An access costs the cache no more than it costs the other one, with the change of the
potential. -/
theorem potential_access_le (ks : List α) (hmn : m ≤ n) (hk : k ∈ S') (hS' : S' ⊆ insert k S) (hcard : S'.card ≤ m) :
    (n + 1 - m) * (if k ∈ (recency ks).take n then 0 else 1) + potential n m S' ((recency (ks ++ [k])).take n) ≤
      n * (if k ∈ S then 0 else 1) + potential n m S ((recency ks).take n) := by
  have hnodup : ((recency ks).take n).Nodup := (nodup_recency ks).sublist (List.take_sublist ..)
  have hserve := debt_serve_le (n := n) hnodup hS'
  have haccess := debt_access_le ks hmn hk hcard
  unfold potential
  omega

/-! ### All accesses -/

theorem missed_le_potential (ks : List α) {plan : List (α × Finset α)} (hmn : m ≤ n) (hplan : Serves m S plan) :
    (n + 1 - m) * (missed n ks (plan.map Prod.fst)).length ≤ n * faults S plan + potential n m S ((recency ks).take n) := by
  induction plan generalizing ks S with
  | nil => exact Nat.zero_le _
  | cons e plan ih =>
    obtain ⟨k, S'⟩ := e
    obtain ⟨hk, hS', hcard, hrest⟩ := hplan
    have hstep := potential_access_le ks hmn hk hS' hcard
    have hlen : (if k ∈ (recency ks).take n then ([] : List α) else [k]).length =
        if k ∈ (recency ks).take n then 0 else 1 := by
      split_ifs <;> rfl
    have hrest := ih (ks ++ [k]) hrest
    simp only [List.map_cons, missed, faults, List.length_append, hlen, Nat.mul_add]
    omega

/-- **Keeping the most recent keys is competitive.** With `n` places it misses at most
`n / (n - m + 1)` times as often as any way to serve the same accesses with `m ≤ n` places, apart
from the misses that fill the cache. -/
theorem missed_competitive {plan : List (α × Finset α)} (hmn : m ≤ n) (hplan : Serves m ∅ plan) :
    (n + 1 - m) * (missed n [] (plan.map Prod.fst)).length ≤ n * faults ∅ plan + (n + 1 - m) * n := by
  have h := missed_le_potential [] hmn hplan
  simpa [potential, debt] using h

end FileSync.Lib
