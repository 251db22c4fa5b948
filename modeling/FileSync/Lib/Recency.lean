import Mathlib.Data.List.Dedup
import Mathlib.Data.List.Perm.Basic

/-!
# Recency

The keys of a sequence of accesses, each once and the latest first (`recency`), as a
list that an access moves its key to the front of (`recency_append`). A cache with
room for `n` keys that keeps the most recent ones has the first `n` of them: these can
be kept up to date without the rest of the list (`take_recency_of_mem`,
`take_recency_of_notMem`).
-/

namespace FileSync.Lib

variable {α : Type} [DecidableEq α] {ks : List α} {k : α} {n : ℕ}

/-- The keys that have been accessed, the latest first. -/
def recency (ks : List α) : List α := ks.dedup.reverse

@[simp] theorem recency_nil : recency ([] : List α) = [] := rfl

@[simp] theorem mem_recency : k ∈ recency ks ↔ k ∈ ks := by simp [recency]

theorem nodup_recency (ks : List α) : (recency ks).Nodup := List.nodup_reverse.mpr (List.nodup_dedup ks)

theorem length_recency (ks : List α) : (recency ks).length = ks.dedup.length := List.length_reverse

theorem dedup_append_singleton (ks : List α) (k : α) : (ks ++ [k]).dedup = ks.dedup.filter (· != k) ++ [k] := by
  induction ks with
  | nil => simp
  | cons a ks ih =>
    rw [List.cons_append]
    by_cases hmem : a ∈ ks
    · rw [List.dedup_cons_of_mem (List.mem_append_left _ hmem), List.dedup_cons_of_mem hmem, ih]
    · rw [List.dedup_cons_of_notMem hmem]
      by_cases hak : a = k
      · rw [List.dedup_cons_of_mem (by simp [hak]), ih, List.filter_cons_of_neg (by simp [hak])]
      · rw [List.dedup_cons_of_notMem (by simp [hmem, hak]), ih, List.filter_cons_of_pos (by simp [hak]),
          List.cons_append]

/-- An access moves its key to the front. -/
theorem recency_append (ks : List α) (k : α) : recency (ks ++ [k]) = k :: (recency ks).erase k := by
  rw [(nodup_recency ks).erase_eq_filter, recency, dedup_append_singleton, List.reverse_append, recency,
    List.filter_reverse]
  rfl

/-- The number of different keys after an access. -/
theorem length_dedup_append (ks : List α) (k : α) :
    (ks ++ [k]).dedup.length = if k ∈ ks then ks.dedup.length else ks.dedup.length + 1 := by
  rw [dedup_append_singleton, List.length_append, List.length_singleton, ← (List.nodup_dedup ks).erase_eq_filter]
  split
  · next h =>
    have hmem := List.mem_dedup.mpr h
    rw [List.length_erase_of_mem hmem]
    have hpos : 0 < ks.dedup.length := List.length_pos_of_mem hmem
    omega
  · next h => rw [List.erase_of_not_mem (by simpa using h)]

theorem take_erase_of_mem {l : List α} (h : k ∈ l.take (n + 1)) : (l.erase k).take n = (l.take (n + 1)).erase k := by
  induction l generalizing n with
  | nil => simp
  | cons a l ih =>
    rw [List.take_succ_cons] at h ⊢
    by_cases hak : a = k
    · subst hak
      rw [List.erase_cons_head, List.erase_cons_head]
    · have hmem : k ∈ l.take n := (List.mem_cons.mp h).resolve_left (Ne.symm hak)
      rw [List.erase_cons_tail (by simpa using hak), List.erase_cons_tail (by simpa using hak)]
      cases n with
      | zero => simp at hmem
      | succ n => rw [List.take_succ_cons, ih hmem]

theorem take_erase_of_notMem {l : List α} (h : k ∉ l.take n) : (l.erase k).take n = l.take n := by
  induction l generalizing n with
  | nil => rfl
  | cons a l ih =>
    cases n with
    | zero => rfl
    | succ n =>
      rw [List.take_succ_cons, List.mem_cons, not_or] at h
      rw [List.erase_cons_tail (by simpa using Ne.symm h.1), List.take_succ_cons, List.take_succ_cons, ih h.2]

/-- An access of a key that is kept. -/
theorem take_recency_of_mem (h : k ∈ (recency ks).take n) :
    (recency (ks ++ [k])).take n = k :: ((recency ks).take n).erase k := by
  cases n with
  | zero => simp at h
  | succ n => rw [recency_append, List.take_succ_cons, take_erase_of_mem h]

/-- An access of a key that is not kept: the last one goes, if all places are taken. -/
theorem take_recency_of_notMem (h : k ∉ (recency ks).take (n + 1)) :
    (recency (ks ++ [k])).take (n + 1) = k :: (recency ks).take n := by
  have hn : k ∉ (recency ks).take n := fun hmem => h (List.take_subset_take_left _ (Nat.le_succ n) hmem)
  rw [recency_append, List.take_succ_cons, take_erase_of_notMem hn]

end FileSync.Lib
