import FileSync.LruCache.Runs

/-!
# The extra slot

`jfs_lru_make_desc` asks for one slot more than there are to be entries, "for promote
algorithm". But `lru_promote` keeps the entry it moves in a buffer of its own, and
`jfs_lru_access` fills all the slots of the block: a cache made for `n` entries holds
`n + 1`. It keeps to `n` exactly as long as no more than `n` keys are accessed.
-/

namespace FileSync.LruCache

open FileSync.Lib FileSync.MemoryLayout FileSync.MemoryBlock

variable {Key Ctx σ : Type} [DecidableEq Key] {keyOf : Slot → Key}

/-- The access evicts the last entry, the least recently used one. -/
def EvictsLast (s s' : State Key Ctx σ) : Prop :=
  ∃ xs last x cs, s.entries = xs ++ [last] ∧
    s'.calls = s.calls ++ ⟨.evict, jfsMbIndex s.lru.mb (UInt64.ofNat xs.length), last, x⟩ :: cs

/-- Never more than `n` entries: there are no more after any of the accesses, and the one that
brings in another key than the first `n` evicts the last entry. -/
def KeepsTo (n : ℕ) (s : State Key Ctx σ) (as : List (Key × Ctx)) : Prop :=
  (∀ pre post, as = pre ++ post → (accessRun s pre).val.lru.count.toNat ≤ n) ∧
  ∀ pre a post, as = pre ++ a :: post → (pre.map Prod.fst).dedup.length = n → a.1 ∉ pre.map Prod.fst →
    EvictsLast (accessRun s pre).val (accessRun s (pre ++ [a])).val

theorem length_dedup_le_of_subset {α : Type} [DecidableEq α] {xs ys : List α} (h : xs ⊆ ys) :
    xs.dedup.length ≤ ys.dedup.length := by
  refine ((List.nodup_dedup xs).subperm fun x hx => ?_).length_le
  exact List.mem_dedup.mpr (h (List.mem_dedup.mp hx))

/-- The descriptor has one slot more. -/
theorem jfsLruMakeDesc_count {objSize objAlign objCount : UInt64} {desc : Desc}
    (h : jfsLruMakeDesc objSize objAlign objCount = .ok desc) : desc.count.toNat = objCount.toNat + 1 := by
  simp only [jfsLruMakeDesc] at h
  split at h
  · cases h
  · next hvalid =>
    cases h
    simp only [jfsMlgValidDesc, Bool.not_eq_true', Bool.not_eq_false, Bool.and_eq_true, decide_eq_true_eq] at hvalid
    have hpos : 0 < (objCount + 1).toNat := hvalid.2
    have hlt := objCount.toNat_lt
    rw [UInt64.toNat_add] at hpos ⊢
    simp only [UInt64.toNat_one] at hpos ⊢
    omega

/-- **A cache for `n` entries** keeps to `n` if and only if at most `n` keys are accessed. -/
theorem keepsTo_iff {objSize objAlign objCount : UInt64} {conf : Conf Key Ctx σ} {lru : Lru Key Ctx σ}
    (hdesc : jfsLruMakeDesc objSize objAlign objCount = .ok conf.component.desc) (hinit : jfsLruInit conf = .ok lru)
    (hmem : InMemory conf.component) (mem : Bytes) (user : σ) (as : List (Key × Ctx)) (hh : HonestRun keyOf lru as) :
    KeepsTo objCount.toNat (initial lru mem user) as ↔ (as.map Prod.fst).dedup.length ≤ objCount.toNat := by
  obtain ⟨h₀, hcap⟩ : Tracks keyOf (initial lru mem user) [] ∧ _ := tracks_initial hinit hmem mem user
  have hcount : ∀ pre post, as = pre ++ post →
      (accessRun (initial lru mem user) pre).val.lru.count.toNat =
        min (objCount.toNat + 1) (pre.map Prod.fst).dedup.length := by
    intro pre post has
    have hpre : HonestRun keyOf lru pre := ⟨hh.cmp, fun b hb => hh.access b (by simp [has, hb])⟩
    obtain ⟨-, h, c, hlru⟩ := h₀.run hpre
    have hr := h.recent.2
    rw [hlru] at hr
    rw [hlru]
    refine hr.trans ?_
    rw [← jfsLruMakeDesc_count hdesc, ← hcap]
    rfl
  constructor
  · intro hk
    have hle := hk.1 as [] (by simp)
    rw [hcount as [] (by simp)] at hle
    omega
  · intro hle
    have hsub : ∀ pre post, as = pre ++ post → (pre.map Prod.fst).dedup.length ≤ objCount.toNat := by
      intro pre post has
      refine (length_dedup_le_of_subset ?_).trans hle
      rw [has, List.map_append]
      exact List.subset_append_left ..
    constructor
    · intro pre post has
      rw [hcount pre post has]
      exact (min_le_right ..).trans (hsub pre post has)
    · -- the first `n` keys are all
      intro pre a post has hn ha
      rw [List.append_cons] at has
      have hlen := hsub (pre ++ [a]) post has
      rw [List.map_append, List.map_singleton, length_dedup_append, if_neg ha] at hlen
      omega

/-- Two accesses of one key keep to one entry. -/
theorem keepsTo_one_key : KeepsTo 1 (initial (byteLru 2) 0 ()) [(1, 1), (1, 1)] := by
  have hdesc : jfsLruMakeDesc 1 1 1 = .ok (byteConf 2).component.desc := rfl
  have hinit : jfsLruInit (byteConf 2) = .ok (byteLru 2) := rfl
  apply (keepsTo_iff hdesc hinit (by decide) 0 () _ (byteLru_honest 2 [1, 1])).mpr
  decide

/-- Two keys, in a cache for one entry: both stay, and there is no call of `evict`. -/
theorem not_keepsTo_two_keys :
    jfsLruMakeDesc 1 1 1 = .ok (byteConf 2).component.desc ∧ jfsLruInit (byteConf 2) = .ok (byteLru 2) ∧
    HonestRun (fun x => x.headD 0) (byteLru 2) [(1, 1), (2, 2)] ∧
    (accessRun (initial (byteLru 2) 0 ()) [(1, 1), (2, 2)]).val.lru.count = 2 ∧
    (∀ c ∈ (accessRun (initial (byteLru 2) 0 ()) [(1, 1), (2, 2)]).val.calls, c.kind ≠ .evict) ∧
    ¬ KeepsTo 1 (initial (byteLru 2) 0 ()) [(1, 1), (2, 2)] := by
  have hcount : (accessRun (initial (byteLru 2) 0 ()) [(1, 1), (2, 2)]).val.lru.count = 2 := by decide +kernel
  refine ⟨rfl, rfl, byteLru_honest 2 [1, 2], hcount, by decide +kernel, fun h => ?_⟩
  have hle := h.1 [(1, 1), (2, 2)] [] rfl
  rw [hcount] at hle
  exact absurd hle (by decide)

end FileSync.LruCache
