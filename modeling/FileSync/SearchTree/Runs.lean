import FileSync.SearchTree.Operations

/-!
# Runs of operations

A tree set up by `jfs_bst_init` and any sequence of `jfs_bst_puts`,
`jfs_bst_takes`, `jfs_bst_get_smallest` and `jfs_bst_get_largest` on it. Every
operation keeps a well-formed queue well-formed, `jfs_bst_puts` where it is safe
(`step_queue`), so a run of safe operations does (`run_queue`).
-/

namespace FileSync.SearchTree

open FileSync.Lib FileSync.FreeList ColorTree

variable {K V : Type}

/-- A call of an operation. -/
inductive Op (K V : Type)
  /-- `jfs_bst_puts`. -/
  | puts (value : V) (key : K)
  /-- `jfs_bst_takes`. -/
  | takes (key : K)
  /-- `jfs_bst_get_smallest`. -/
  | getSmallest
  /-- `jfs_bst_get_largest`. -/
  | getLargest

/-- What a call gives back. -/
structure Result (V : Type) where
  /-- The error. -/
  err : JfsErr
  /-- What was written to `value_out`, if anything. -/
  out : Option V
  deriving DecidableEq

/-- What an operation that takes a value gives. -/
def Taken.result (r : Taken V) : Bst V × Result V := (r.tree, ⟨r.err, r.out⟩)

/-- One call. -/
def step (cmp : K → V → Int) (fuel : ℕ) (t : Bst V) : Op K V → Option (Bst V × Result V)
  | .puts value key => (jfsBstPuts cmp fuel t value key).map fun r => (r.1, ⟨r.2, none⟩)
  | .takes key => (jfsBstTakes cmp fuel t key).map Taken.result
  | .getSmallest => (jfsBstGetSmallest fuel t).map Taken.result
  | .getLargest => (jfsBstGetLargest fuel t).map Taken.result

/-- A sequence of calls. -/
def run (cmp : K → V → Int) (fuel : ℕ) : Bst V → List (Op K V) → Option (Bst V × List (Result V))
  | t, [] => some (t, [])
  | t, op :: ops => do
    let (t, r) ← step cmp fuel t op
    let (t, rs) ← run cmp fuel t ops
    return (t, r :: rs)

/-- Each call meets the condition in the state that the calls before it lead to. -/
def EachCall (P : Bst V → Op K V → Prop) (cmp : K → V → Int) (fuel : ℕ) : Bst V → List (Op K V) → Prop
  | _, [] => True
  | t, op :: ops => P t op ∧ ∀ t' r, step cmp fuel t op = some (t', r) → EachCall P cmp fuel t' ops

variable [LinearOrder K] {cmp : K → V → Int} {keyOf : V → K} {t t' : Bst V} {T T' : ColorTree Addr}
  {slots free : List Addr} {chain : Addr → List Addr}

/-- The condition under which a call leaves every node in one place: a value is put with
its own key, and where that is safe. -/
def SafeCall (cmp : K → V → Int) (keyOf : V → K) (t : Bst V) : Op K V → Prop
  | .puts value key => key = keyOf value ∧ PutsSafe cmp t key
  | _ => True

/-! ### The calls one by one -/

/-- `jfs_bst_puts` on a full tree. -/
theorem puts_full {v : V} {k : K} {fuel : ℕ} (h : Store keyOf slots [] [] t T chain) :
    jfsBstPuts cmp fuel t v k = some (t, .full) := by
  have hc : t.freeList.count = 0 := UInt64.toNat_inj.mp h.count
  rw [jfsBstPuts, if_pos hc]

/-- An end of the tree is taken, or the tree is empty. -/
theorem getEnd {a : Addr} {d : Side} {fuel : ℕ} (h : Queue keyOf slots free t T chain)
    (ha : a = (endOf d T.inorder).getD t.nil) (hfuel : T.size < fuel) :
    (a = t.nil ∧ T = leaf) ∨
      (a ≠ t.nil ∧ endOf d T.inorder = some a ∧ ∃ t' T' chain' y,
        bstDetachAndDelete fuel t a = some (t', t.value y) ∧ y ∈ a :: chain a ∧
          TakenOut keyOf slots free t T chain y t' T' chain' ∧ Queue keyOf slots (y :: free) t' T' chain' ∧
            t'.cache.previous = t.cache.previous ∧
              ((chain a ≠ [] ∧ T' = T) ∨ (chain a = [] ∧ ∀ b ∈ T.inorder, b ≠ a → b ∈ T'.inorder))) := by
  by_cases hn : a = t.nil
  · rw [hn, eq_comm, endOf_getD_eq_nil h.nil_notMem, inorder_eq_nil] at ha
    exact .inl ⟨hn, ha⟩
  · have he := (endOf_getD_eq hn).mp ha.symm
    exact .inr ⟨hn, he, h.take (endOf_mem he) hfuel⟩

/-- **`jfs_bst_takes`** on a queue: nothing happens to the tree, or the node that the search
found is taken out, no cached node having the key. -/
theorem takes_cases {k : K} {fuel : ℕ} (hcmp : Compares cmp keyOf) (h : Queue keyOf slots free t T chain)
    (hfuel : T.size < fuel) :
    (∃ r : Result V, jfsBstTakes cmp fuel t k = some ⟨t, r.err, r.out⟩) ∨
      (∃ a t' T' chain' y, jfsBstTakes cmp fuel t k = some ⟨t', .ok, some (t.value y)⟩ ∧ a ∈ T.inorder ∧
        t.key keyOf a = k ∧ (∀ c ∈ t.cached, c ≠ t.nil → cmp k (t.value c) ≠ 0) ∧ y ∈ a :: chain a ∧
          TakenOut keyOf slots free t T chain y t' T' chain' ∧ Queue keyOf slots (y :: free) t' T' chain' ∧
            t'.cache.previous = t.cache.previous ∧
              ((chain a ≠ [] ∧ T' = T) ∨ (chain a = [] ∧ ∀ b ∈ T.inorder, b ≠ a → b ∈ T'.inorder))) := by
  unfold jfsBstTakes
  by_cases hroot : t.root = t.nil
  · exact .inl ⟨⟨.empty, none⟩, by rw [if_pos hroot]⟩
  · rw [if_neg hroot]
    rcases bstCheckCache_spec cmp t k with ⟨hmiss, hnone⟩ | ⟨hhit, -, -⟩
    · simp only [hmiss]
      rw [if_neg (by simp)]
      obtain ⟨l, el, hl⟩ := bstFind_spec hcmp h.store.rep h.store.sorted k hfuel
      simp only [el, Option.bind_eq_bind, Option.bind_some]
      rcases hl with ⟨hT, hk⟩ | ⟨-, hnode, -⟩
      · have hm : l.node ∈ T.inorder := by
          rw [hT]
          simp [mem_inorder_plug]
        obtain ⟨t', T', chain', y, e, hy, htaken, hq, hprev, hcase⟩ := h.take hm hfuel
        refine .inr ⟨l.node, t', T', chain', y, ?_, hm, hk, hnone, hy, htaken, hq, hprev, hcase⟩
        rw [if_neg (h.nil_notMem _ hm), e]
        rfl
      · exact .inl ⟨⟨.bstBadKey, none⟩, by rw [if_pos hnode]; rfl⟩
    · simp only [if_pos hhit]
      exact .inl ⟨⟨.ok, some (t.value (bstCheckCache cmp t k))⟩, rfl⟩

/-- **A safe call keeps a queue well-formed**, and gives a result if there is fuel for every
node. -/
theorem step_queue {op : Op K V} {fuel : ℕ} (hcmp : Orders cmp keyOf) (h : Queue keyOf slots free t T chain)
    (hsafe : SafeCall cmp keyOf t op) (hfuel : slots.length < fuel) :
    ∃ t' r T' chain' free', step cmp fuel t op = some (t', r) ∧ Queue keyOf slots free' t' T' chain' := by
  have hT : T.size < fuel := lt_of_le_of_lt h.store.size_le hfuel
  cases op with
  | puts v k =>
    obtain ⟨rfl, hput⟩ := hsafe
    cases free with
    | nil => exact ⟨t, ⟨.full, none⟩, T, chain, [], by rw [step, puts_full h.store]; rfl, h⟩
    | cons x free =>
      obtain ⟨t', T', chain', e, hin, -⟩ := h.puts hcmp hput hT
      exact ⟨t', ⟨.ok, none⟩, T', chain', free, by rw [step, e]; rfl, hin.queue⟩
  | takes k =>
    rcases takes_cases (k := k) hcmp.compares h hT with ⟨r, e⟩ | ⟨a, t', T', chain', y, e, -, -, -, -, -, hq, -, -⟩
    · exact ⟨t, r, T, chain, free, by rw [step, e]; rfl, h⟩
    · exact ⟨t', _, T', chain', y :: free, by rw [step, e]; rfl, hq⟩
  | getSmallest =>
    rw [step, jfsBstGetSmallest]
    rcases getEnd h h.smallest hT with ⟨hn, -⟩ | ⟨hn, -, t', T', chain', y, e, -, -, hq, -, -⟩
    · exact ⟨t, _, T, chain, free, by rw [if_pos hn]; rfl, h⟩
    · exact ⟨t', _, T', chain', y :: free, by rw [if_neg hn, e]; rfl, hq⟩
  | getLargest =>
    rw [step, jfsBstGetLargest]
    rcases getEnd h h.largest hT with ⟨hn, -⟩ | ⟨hn, -, t', T', chain', y, e, -, -, hq, -, -⟩
    · exact ⟨t, _, T, chain, free, by rw [if_pos hn]; rfl, h⟩
    · exact ⟨t', _, T', chain', y :: free, by rw [if_neg hn, e]; rfl, hq⟩

/-- A run of safe calls keeps a queue well-formed. -/
theorem run_queue {ops : List (Op K V)} {fuel : ℕ} (hcmp : Orders cmp keyOf)
    (h : Queue keyOf slots free t T chain) (hsafe : EachCall (SafeCall cmp keyOf) cmp fuel t ops)
    (hfuel : slots.length < fuel) :
    ∃ t' rs T' chain' free', run cmp fuel t ops = some (t', rs) ∧ Queue keyOf slots free' t' T' chain' := by
  induction ops generalizing t T chain free with
  | nil => exact ⟨t, [], T, chain, free, rfl, h⟩
  | cons op ops ih =>
    obtain ⟨hop, hops⟩ := hsafe
    obtain ⟨t₁, r, T₁, chain₁, free₁, e, h₁⟩ := step_queue hcmp h hop hfuel
    obtain ⟨t', rs, T', chain', free', e', h'⟩ := ih h₁ (hops t₁ r e)
    refine ⟨t', r :: rs, T', chain', free', ?_, h'⟩
    simp only [run, e, e', Option.bind_eq_bind, Option.bind_some]
    rfl

/-- The queue that `jfs_bst_init` sets up. -/
theorem jfsBstInit_queue {heap : Addr → Node V} {nil : Addr} {component : MemoryLayout.Component}
    (hp : Placed component nil) (h : jfsBstInit heap nil ⟨component, some cmp⟩ = .ok t) :
    Queue keyOf (FreeList.slots component) (FreeList.slots component).reverse t leaf (fun _ => []) := by
  obtain ⟨hst, hfresh⟩ := jfsBstInit_store keyOf hp h
  refine ⟨hst, ?_, .inl ?_⟩
  · rw [hfresh.cache]
    rfl
  · rw [hfresh.cache]

end FileSync.SearchTree
