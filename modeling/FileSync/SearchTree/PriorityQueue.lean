import FileSync.SearchTree.Runs

/-!
# The tree as a priority queue

What the tree is for: a multiset of at most `N` values, of which one with the least
or the greatest key can be taken out. `QueueStep` is one call on the multiset and
`QueueRun` a sequence of them. A run of safe calls of the code gives the results of
a run on the multiset, and its tree holds the values of the multiset
(`run_queueRun`). The calls that are not safe lose values.
-/

namespace FileSync.SearchTree

open FileSync.Lib FileSync.FreeList FileSync.MemoryLayout ColorTree

variable {K V : Type} [LinearOrder K] {cmp : K → V → Int} {keyOf : V → K} {t t' : Bst V} {T T' : ColorTree Addr}
  {slots free : List Addr} {chain : Addr → List Addr} {M M' : Multiset V}

/-! ### The multiset -/

/-- No value of `M` has a key beyond that of `v` on the side `d`. -/
def IsEnd (keyOf : V → K) : Side → V → Multiset V → Prop
  | .left, v, M => ∀ w ∈ M, keyOf v ≤ keyOf w
  | .right, v, M => ∀ w ∈ M, keyOf w ≤ keyOf v

/-- **One call on a bounded multiset**: what it returns and which values are held after it. -/
inductive QueueStep (keyOf : V → K) (N : ℕ) : Multiset V → Op K V → Result V → Multiset V → Prop
  /-- `N` values are held. -/
  | full {M : Multiset V} (v : V) (k : K) : Multiset.card M = N →
      QueueStep keyOf N M (.puts v k) ⟨.full, none⟩ M
  /-- The value is added. -/
  | put {M : Multiset V} (v : V) (k : K) : Multiset.card M ≠ N →
      QueueStep keyOf N M (.puts v k) ⟨.ok, none⟩ (v ::ₘ M)
  /-- No value is held. -/
  | smallestEmpty : QueueStep keyOf N 0 .getSmallest ⟨.empty, none⟩ 0
  /-- One value with the least key is removed. -/
  | smallest {v : V} {M : Multiset V} : IsEnd keyOf .left v (v ::ₘ M) →
      QueueStep keyOf N (v ::ₘ M) .getSmallest ⟨.ok, some v⟩ M
  /-- No value is held. -/
  | largestEmpty : QueueStep keyOf N 0 .getLargest ⟨.empty, none⟩ 0
  /-- One value with the greatest key is removed. -/
  | largest {v : V} {M : Multiset V} : IsEnd keyOf .right v (v ::ₘ M) →
      QueueStep keyOf N (v ::ₘ M) .getLargest ⟨.ok, some v⟩ M

/-- Something is held after a value has been put. -/
theorem QueueStep.ne_zero {N : ℕ} {v : V} {k : K} (h : QueueStep keyOf N M (.puts v k) ⟨.ok, none⟩ M') : M' ≠ 0 := by
  cases h with
  | put => exact Multiset.cons_ne_zero

theorem QueueStep.eq_zero {N : ℕ} (h : QueueStep keyOf N M .getSmallest ⟨.empty, none⟩ M') : M = 0 := by
  cases h with
  | smallestEmpty => rfl

/-- A sequence of calls on a bounded multiset, with their results. -/
inductive QueueRun (keyOf : V → K) (N : ℕ) :
    Multiset V → List (Op K V) → List (Result V) → Multiset V → Prop
  | nil (M : Multiset V) : QueueRun keyOf N M [] [] M
  | cons {M M' M'' : Multiset V} {op : Op K V} {ops : List (Op K V)} {r : Result V} {rs : List (Result V)} :
      QueueStep keyOf N M op r M' → QueueRun keyOf N M' ops rs M'' → QueueRun keyOf N M (op :: ops) (r :: rs) M''

/-- The values in the linked nodes and on their chains are those of `M`. -/
def Holds (t : Bst V) (M : Multiset V) : Prop :=
  ∃ xs chain, Traversal t t.root xs ∧ (∀ a ∈ xs, ListAt t.list NULL (t.list a) (chain a)) ∧
    M = ((rows chain xs).map t.value : List V)

theorem Store.holds (h : Store keyOf slots [] free t T chain) : Holds t (held t T chain) :=
  ⟨T.inorder, chain, h.rep.traversal, fun a ha => (h.chains a ha).2.2, rfl⟩

/-! ### One call -/

/-- The row of the node at an end of the tree has the key at that end. -/
theorem isEnd_held {a y : Addr} {d : Side} (h : Store keyOf slots [] free t T chain)
    (he : endOf d T.inorder = some a) (hy : y ∈ a :: chain a) : IsEnd keyOf d (t.value y) (held t T chain) := by
  have hkey : ∀ b ∈ T.inorder, ∀ z ∈ b :: chain b, t.key keyOf z = t.key keyOf b := by
    intro b hb z hz
    rcases List.mem_cons.mp hz with rfl | hz
    · rfl
    · exact h.keys b hb z hz
  have hmem : ∀ w ∈ held t T chain, ∃ b ∈ T.inorder, keyOf w = t.key keyOf b := by
    intro w hw
    rw [held, Multiset.mem_coe, List.mem_map] at hw
    obtain ⟨z, hz, rfl⟩ := hw
    obtain ⟨b, hb, hzb⟩ := mem_rows.mp hz
    exact ⟨b, hb, hkey b hb z hzb⟩
  have hya : keyOf (t.value y) = t.key keyOf a := hkey a (endOf_mem he) y hy
  obtain ⟨xs, ys, hT⟩ := List.append_of_mem (endOf_mem he)
  have hnd := h.rep.nodup
  rw [hT] at hnd he
  have hbeyond := (endOf_append_cons hnd).mp he
  have hsorted := h.sorted
  rw [Sorted, hT] at hsorted
  cases d with
  | left =>
    simp only [beyond] at hbeyond
    subst hbeyond
    intro w hw
    obtain ⟨b, hb, hwb⟩ := hmem w hw
    rw [hya, hwb]
    rw [hT, List.nil_append, List.mem_cons] at hb
    rcases hb with rfl | hb
    · exact le_rfl
    · exact ((List.pairwise_cons.mp hsorted).1 b hb).le
  | right =>
    simp only [beyond] at hbeyond
    subst hbeyond
    intro w hw
    obtain ⟨b, hb, hwb⟩ := hmem w hw
    rw [hya, hwb]
    rw [hT, List.mem_append, List.mem_singleton] at hb
    rcases hb with hb | rfl
    · exact ((List.pairwise_append.mp hsorted).2.2 b hb a (List.mem_singleton.mpr rfl)).le
    · exact le_rfl

/-- **A safe call does what it does on the multiset of the values that are held.** -/
theorem step_queueStep {op : Op K V} {fuel : ℕ} (hcmp : Orders cmp keyOf)
    (h : Queue keyOf slots free t T chain) (hop : ∀ k, op ≠ .takes k) (hsafe : SafeCall cmp keyOf t op)
    (hfuel : slots.length < fuel) :
    ∃ t' r T' chain' free', step cmp fuel t op = some (t', r) ∧ Queue keyOf slots free' t' T' chain' ∧
      QueueStep keyOf slots.length (held t T chain) op r (held t' T' chain') := by
  have hT : T.size < fuel := lt_of_le_of_lt h.store.size_le hfuel
  have hcard := h.store.card_held
  cases op with
  | puts v k =>
    obtain ⟨rfl, hput⟩ := hsafe
    cases free with
    | nil =>
      refine ⟨t, ⟨.full, none⟩, T, chain, [], by rw [step, puts_full h.store]; rfl, h, .full _ _ ?_⟩
      rwa [List.length_nil, Nat.add_zero] at hcard
    | cons x free =>
      obtain ⟨t', T', chain', e, hin, -⟩ := h.puts hcmp hput hT
      refine ⟨t', ⟨.ok, none⟩, T', chain', free, by rw [step, e]; rfl, hin.queue, ?_⟩
      rw [hin.held]
      refine .put _ _ ?_
      rw [List.length_cons] at hcard
      omega
  | takes k => exact absurd rfl (hop k)
  | getSmallest =>
    rw [step, jfsBstGetSmallest]
    rcases getEnd h h.smallest hT with ⟨hn, rfl⟩ | ⟨hn, he, t', T', chain', y, e, hy, htaken, hq, -, -⟩
    · exact ⟨t, _, leaf, chain, free, by rw [if_pos hn]; rfl, h, .smallestEmpty⟩
    · refine ⟨t', _, T', chain', y :: free, by rw [if_neg hn, e]; rfl, hq, ?_⟩
      have hend := isEnd_held h.store he hy
      rw [htaken.held] at hend ⊢
      exact .smallest hend
  | getLargest =>
    rw [step, jfsBstGetLargest]
    rcases getEnd h h.largest hT with ⟨hn, rfl⟩ | ⟨hn, he, t', T', chain', y, e, hy, htaken, hq, -, -⟩
    · exact ⟨t, _, leaf, chain, free, by rw [if_pos hn]; rfl, h, .largestEmpty⟩
    · refine ⟨t', _, T', chain', y :: free, by rw [if_neg hn, e]; rfl, hq, ?_⟩
      have hend := isEnd_held h.store he hy
      rw [htaken.held] at hend ⊢
      exact .largest hend

/-! ### Runs -/

theorem run_queueRun {ops : List (Op K V)} {fuel : ℕ} (hcmp : Orders cmp keyOf)
    (h : Queue keyOf slots free t T chain) (hops : ∀ k, Op.takes k ∉ ops)
    (hsafe : EachCall (SafeCall cmp keyOf) cmp fuel t ops) (hfuel : slots.length < fuel) :
    ∃ t' rs M, run cmp fuel t ops = some (t', rs) ∧ QueueRun keyOf slots.length (held t T chain) ops rs M ∧
      Holds t' M := by
  induction ops generalizing t T chain free with
  | nil => exact ⟨t, [], held t T chain, rfl, .nil _, h.store.holds⟩
  | cons op ops ih =>
    obtain ⟨hop, hrest⟩ := hsafe
    have hne : ∀ k, op ≠ .takes k := by
      rintro k rfl
      exact hops k (List.mem_cons_self ..)
    obtain ⟨t₁, r, T₁, chain₁, free₁, e, h₁, hstep⟩ := step_queueStep hcmp h hne hop hfuel
    obtain ⟨t', rs, M, e', hrun, hholds⟩ := ih h₁ (fun k hk => hops k (List.mem_cons_of_mem _ hk)) (hrest t₁ r e)
    refine ⟨t', r :: rs, M, ?_, .cons hstep hrun, hholds⟩
    simp only [run, e, e', Option.bind_eq_bind, Option.bind_some]
    rfl

/-- **The tree is a bounded double-ended priority queue** in every run of safe calls: its
results are those of a run on a multiset that is empty at first and holds at most
as many values as the component has nodes, and it holds the values of the
multiset. -/
theorem queueRun_of_run {heap : Addr → Node V} {nil : Addr} {component : Component} {t : Bst V}
    (hcmp : Orders cmp keyOf) (hp : Placed component nil)
    (hinit : jfsBstInit heap nil ⟨component, some cmp⟩ = .ok t) (ops : List (Op K V))
    (hops : ∀ k, Op.takes k ∉ ops) {fuel : ℕ} (hfuel : component.desc.count.toNat < fuel)
    (hsafe : EachCall (SafeCall cmp keyOf) cmp fuel t ops) :
    ∃ t' rs M, run cmp fuel t ops = some (t', rs) ∧ QueueRun keyOf component.desc.count.toNat 0 ops rs M ∧
      Holds t' M := by
  rw [← Placed.slots_length] at hfuel ⊢
  exact run_queueRun hcmp (jfsBstInit_queue hp hinit) hops hsafe hfuel

/-- A value is put and taken out of a tree with room for two. -/
theorem queueRun_put_get : ∃ t, jfsBstInit zeroHeap 64 ⟨natComponent 2, some natCmp⟩ = .ok t ∧
    ∃ t' rs M, run natCmp 3 t [.puts 5 5, .getSmallest] = some (t', rs) ∧
      QueueRun id 2 0 [.puts 5 5, .getSmallest] rs M ∧ Holds t' M := by
  have hinit := natComponent_init (n := 2) (by decide)
  refine ⟨_, hinit, queueRun_of_run natCmp_orders natComponent_placed.2 hinit _ (by simp) (by decide) ?_⟩
  refine ⟨⟨rfl, fun _ => ⟨fun _ => ?_, fun _ => ?_⟩⟩, fun _ _ _ => ⟨trivial, fun _ _ _ => trivial⟩⟩
  · decide +kernel
  · decide +kernel

/-- The only node is put, taken out and put again, and then the tree is empty: the second
value is lost. -/
theorem queueRun_lost : ∃ t t' rs, jfsBstInit zeroHeap 64 ⟨natComponent 1, some natCmp⟩ = .ok t ∧
    run natCmp 2 t [.puts 1 1, .getSmallest, .puts 1 1, .getSmallest] = some (t', rs) ∧
      ∀ M, ¬ QueueRun id 1 0 [.puts 1 1, .getSmallest, .puts 1 1, .getSmallest] rs M := by
  have hinit := natComponent_init (n := 1) (by decide)
  have hrun : (run natCmp 2 (initTree zeroHeap 64 (natComponent 1))
      [.puts 1 1, .getSmallest, .puts 1 1, .getSmallest]).map Prod.snd =
        some [⟨.ok, none⟩, ⟨.ok, some 1⟩, ⟨.ok, none⟩, ⟨.empty, none⟩] := by decide +kernel
  obtain ⟨⟨t', rs⟩, e, rfl⟩ := Option.map_eq_some_iff.mp hrun
  refine ⟨_, t', _, hinit, e, fun M hM => ?_⟩
  rcases hM with _ | ⟨h₁, hM⟩
  rcases hM with _ | ⟨h₂, hM⟩
  rcases hM with _ | ⟨h₃, hM⟩
  rcases hM with _ | ⟨h₄, hM⟩
  exact h₃.ne_zero h₄.eq_zero

end FileSync.SearchTree
