import FileSync.SearchTree.Runs

/-!
# Where the nodes are

Two invariants of runs. Every node of the component is on the free list or in
exactly one row (`WellPlaced`), and `cache.previous` is `nil` or a linked node
(`PreviousLinked`). Neither holds of every run: a deleted node stays in
`cache.previous`, and `bst_insert` leaves the chain field of its node as it is.
Both hold in runs whose calls avoid that.
-/

namespace FileSync.SearchTree

open FileSync.Lib FileSync.FreeList FileSync.MemoryLayout ColorTree

variable {K V : Type} [LinearOrder K] {cmp : K → V → Int} {keyOf : V → K} {t : Bst V} {T : ColorTree Addr}
  {slots free : List Addr} {chain : Addr → List Addr}

/-! ### Every node in one place -/

/-- **Every node is in exactly one place**: `free` is the free list, `xs` are the linked
nodes, and each of these has a chain that ends with `NULL` and whose values have
its key. Together they are the nodes of the component, none of them twice. -/
def WellPlaced (keyOf : V → K) (slots : List Addr) (t : Bst V) : Prop :=
  ∃ xs free chain, Traversal t t.root xs ∧ ListAt t.nextFree NULL t.freeList.list free ∧
    (∀ a ∈ xs, ListAt t.list NULL (t.list a) (chain a)) ∧ (free ++ rows chain xs).Perm slots ∧
      (free ++ rows chain xs).Nodup ∧ ∀ a ∈ xs, ∀ b ∈ chain a, keyOf (t.value b) = keyOf (t.value a)

theorem Store.wellPlaced (h : Store keyOf slots [] free t T chain) : WellPlaced keyOf slots t :=
  ⟨T.inorder, free, chain, h.rep.traversal, h.freeList, fun a ha => (h.chains a ha).2.2, h.perm, h.nodup_all, h.keys⟩

/-- **In a run of safe calls every node is at all times in exactly one place**, whatever
the memory held at first. -/
theorem wellPlaced_of_run {heap : Addr → Node V} {nil : Addr} {component : Component} {t : Bst V}
    (hcmp : Orders cmp keyOf) (hp : Placed component nil)
    (hinit : jfsBstInit heap nil ⟨component, some cmp⟩ = .ok t) (ops : List (Op K V)) {fuel : ℕ}
    (hfuel : component.desc.count.toNat < fuel) (hsafe : EachCall (SafeCall cmp keyOf) cmp fuel t ops) :
    ∃ t' rs, run cmp fuel t ops = some (t', rs) ∧ WellPlaced keyOf (FreeList.slots component) t' := by
  rw [← Placed.slots_length] at hfuel
  obtain ⟨t', rs, T', chain', free', e, h⟩ := run_queue hcmp (jfsBstInit_queue hp hinit) hsafe hfuel
  exact ⟨t', rs, e, h.store.wellPlaced⟩

/-- A put, a search for another key and a get. -/
theorem wellPlaced_put_get : ∃ t, jfsBstInit zeroHeap 64 ⟨natComponent 2, some natCmp⟩ = .ok t ∧
    ∃ t' rs, run natCmp 3 t [.puts 1 1, .takes 5, .getSmallest] = some (t', rs) ∧
      WellPlaced id (FreeList.slots (natComponent 2)) t' := by
  have hinit := natComponent_init (n := 2) (by decide)
  refine ⟨_, hinit, wellPlaced_of_run natCmp_orders natComponent_placed.2 hinit _ (by decide) ?_⟩
  refine ⟨⟨rfl, fun _ => ⟨fun _ => ?_, fun _ => ?_⟩⟩, fun _ _ _ => ⟨trivial, fun _ _ _ => ⟨trivial, fun _ _ _ => trivial⟩⟩⟩
  · decide +kernel
  · decide +kernel

/-- A component with one node: it is put, taken out, and lost when it is put again, since
it is attached to itself. -/
theorem wellPlaced_lost : ∃ t t' rs, jfsBstInit zeroHeap 64 ⟨natComponent 1, some natCmp⟩ = .ok t ∧
    run natCmp 2 t [.puts 1 1, .getSmallest, .puts 1 1] = some (t', rs) ∧
      ¬ WellPlaced id (FreeList.slots (natComponent 1)) t' := by
  have hinit := natComponent_init (n := 1) (by decide)
  have hrun : (run natCmp 2 (initTree zeroHeap 64 (natComponent 1)) [.puts 1 1, .getSmallest, .puts 1 1]).map
      (fun p => (p.1.root, p.1.nil, p.1.freeList.list)) = some (64, 64, NULL) := by decide +kernel
  obtain ⟨⟨t', rs⟩, e, hp⟩ := Option.map_eq_some_iff.mp hrun
  simp only [Prod.mk.injEq] at hp
  refine ⟨_, t', rs, hinit, e, ?_⟩
  rintro ⟨xs, free, chain, htr, hfl, -, hperm, -, -⟩
  rw [hp.1, ← hp.2.1] at htr
  rw [hp.2.2, listAt_null] at hfl
  rw [traversal_nil htr, hfl, rows_nil, List.append_nil] at hperm
  have := hperm.length_eq
  rw [Placed.slots_length] at this
  exact absurd this (by decide)

/-! ### The previous node -/

/-- `cache.previous` is `nil` or a linked node. -/
def PreviousLinked (t : Bst V) : Prop := t.cache.previous = t.nil ∨ InTree t t.cache.previous

/-- The condition under which a call keeps `cache.previous` linked. A value is put with its
own key; if no linked node has the key, the chain field of the node that is taken
is `NULL`; if one has, a cached node has it too. An end that is taken is not the
previous node, unless it has a chain. -/
def LinkedCall (cmp : K → V → Int) (keyOf : V → K) (t : Bst V) : Op K V → Prop
  | .puts value key => key = keyOf value ∧ (t.freeList.count ≠ 0 →
      ((∀ a, InTree t a → cmp key (t.value a) ≠ 0) → t.list t.freeList.list = NULL) ∧
      ((∃ a, InTree t a ∧ cmp key (t.value a) = 0) →
        ∃ c ∈ t.cached, c ≠ t.nil ∧ cmp key (t.value c) = 0))
  | .takes _ => True
  | .getSmallest => t.cache.smallest ≠ t.nil → t.cache.smallest = t.cache.previous →
      t.list t.cache.smallest ≠ NULL
  | .getLargest => t.cache.largest ≠ t.nil → t.cache.largest = t.cache.previous →
      t.list t.cache.largest ≠ NULL

/-- A linked node is not on the free list. -/
theorem Queue.not_onFreeList {a : Addr} (h : Queue keyOf slots free t T chain)
    (ha : a = t.nil ∨ a ∈ T.inorder) : ¬ OnFreeList t a := by
  rintro ⟨free', hlist, hm⟩
  rw [listAt_unique hlist h.store.freeList] at hm
  rcases ha with rfl | ha
  · exact (h.store.place _ (h.store.mem_slots (.inr (.inl hm)))).2 rfl
  · exact h.store.free_notMem_rows hm (mem_rows_head ha)

/-- An end is taken: the previous node stays linked. -/
theorem previous_of_getEnd {a : Addr} {T' : ColorTree Addr} (h : Queue keyOf slots free t T chain)
    (ha : a ∈ T.inorder) (hcall : a = t.cache.previous → t.list a ≠ NULL)
    (hprev : t.cache.previous = t.nil ∨ t.cache.previous ∈ T.inorder)
    (hcase : (chain a ≠ [] ∧ T' = T) ∨ (chain a = [] ∧ ∀ b ∈ T.inorder, b ≠ a → b ∈ T'.inorder)) :
    t.cache.previous = t.nil ∨ t.cache.previous ∈ T'.inorder := by
  rcases hcase with ⟨-, rfl⟩ | ⟨hc, hsub⟩
  · exact hprev
  · refine hprev.imp id fun hm => hsub _ hm ?_
    intro e
    have hrow := (h.store.chains a ha).2.2
    rw [hc, listAt_nil] at hrow
    exact hcall e.symm hrow

/-- A call that meets the condition keeps the queue well-formed and `previous` linked. -/
theorem step_previous {op : Op K V} {fuel : ℕ} (hcmp : Orders cmp keyOf) (h : Queue keyOf slots free t T chain)
    (hprev : t.cache.previous = t.nil ∨ t.cache.previous ∈ T.inorder) (hcall : LinkedCall cmp keyOf t op)
    (hfuel : slots.length < fuel) :
    ∃ t' r T' chain' free', step cmp fuel t op = some (t', r) ∧ Queue keyOf slots free' t' T' chain' ∧
      (t'.cache.previous = t'.nil ∨ t'.cache.previous ∈ T'.inorder) := by
  have hT : T.size < fuel := lt_of_le_of_lt h.store.size_le hfuel
  cases op with
  | puts v k =>
    obtain ⟨rfl, hput⟩ := hcall
    cases free with
    | nil => exact ⟨t, ⟨.full, none⟩, T, chain, [], by rw [step, puts_full h.store]; rfl, h, hprev⟩
    | cons x free =>
      have hsafe : PutsSafe cmp t (keyOf v) := fun hc =>
        ⟨fun hon => absurd hon (h.not_onFreeList hprev), (hput hc).1⟩
      obtain ⟨t', T', chain', e, hin, hcase⟩ := h.puts hcmp hsafe hT
      refine ⟨t', ⟨.ok, none⟩, T', chain', free, by rw [step, e]; rfl, hin.queue, ?_⟩
      rcases hcase with ⟨c, hc, hcn, rfl, hp⟩ | ⟨a, ha, hk, hnone, rfl, hp⟩ | ⟨hx, hp⟩
      · rw [hp]
        refine .inr ?_
        rcases h.cached_cases hc hcn with rfl | hm
        · exact hprev.resolve_left hcn
        · exact hm
      · obtain ⟨c, hc, hcn, hck⟩ := (hput h.store.count_ne_zero).2 ⟨a, h.store.rep.inTree_iff.mpr ha, hk⟩
        exact absurd hck (hnone c hc hcn)
      · rw [hp]
        exact .inr hx
  | takes k =>
    rcases takes_cases (k := k) hcmp.compares h hT with
      ⟨r, e⟩ | ⟨a, t', T', chain', y, e, ha, hk, hnone, -, htaken, hq, hp, hcase⟩
    · exact ⟨t, r, T, chain, free, by rw [step, e]; rfl, h, hprev⟩
    · refine ⟨t', _, T', chain', y :: free, by rw [step, e]; rfl, hq, ?_⟩
      rw [hp, htaken.nil]
      refine previous_of_getEnd h ha (fun e => ?_) hprev hcase
      -- the previous node does not have the key
      have hne := hnone t.cache.previous (by simp [Bst.cached]) (e ▸ h.nil_notMem a ha)
      rw [← e] at hne
      exact absurd ((hcmp.compares.eq_iff _ _).mpr hk.symm) hne
  | getSmallest =>
    rw [step, jfsBstGetSmallest]
    rcases getEnd h h.smallest hT with ⟨hn, -⟩ | ⟨hn, he, t', T', chain', y, e, -, htaken, hq, hp, hcase⟩
    · exact ⟨t, _, T, chain, free, by rw [if_pos hn]; rfl, h, hprev⟩
    · refine ⟨t', _, T', chain', y :: free, by rw [if_neg hn, e]; rfl, hq, ?_⟩
      rw [hp, htaken.nil]
      exact previous_of_getEnd h (endOf_mem he) (hcall hn) hprev hcase
  | getLargest =>
    rw [step, jfsBstGetLargest]
    rcases getEnd h h.largest hT with ⟨hn, -⟩ | ⟨hn, he, t', T', chain', y, e, -, htaken, hq, hp, hcase⟩
    · exact ⟨t, _, T, chain, free, by rw [if_pos hn]; rfl, h, hprev⟩
    · refine ⟨t', _, T', chain', y :: free, by rw [if_neg hn, e]; rfl, hq, ?_⟩
      rw [hp, htaken.nil]
      exact previous_of_getEnd h (endOf_mem he) (hcall hn) hprev hcase

theorem run_previous {ops : List (Op K V)} {fuel : ℕ} (hcmp : Orders cmp keyOf)
    (h : Queue keyOf slots free t T chain) (hprev : t.cache.previous = t.nil ∨ t.cache.previous ∈ T.inorder)
    (hcall : EachCall (LinkedCall cmp keyOf) cmp fuel t ops) (hfuel : slots.length < fuel) :
    ∃ t' rs, run cmp fuel t ops = some (t', rs) ∧ PreviousLinked t' := by
  induction ops generalizing t T chain free with
  | nil => exact ⟨t, [], rfl, hprev.imp id h.store.rep.inTree_iff.mpr⟩
  | cons op ops ih =>
    obtain ⟨hop, hops⟩ := hcall
    obtain ⟨t₁, r, T₁, chain₁, free₁, e, h₁, hp₁⟩ := step_previous hcmp h hprev hop hfuel
    obtain ⟨t', rs, e', h'⟩ := ih h₁ hp₁ (hops t₁ r e)
    refine ⟨t', r :: rs, ?_, h'⟩
    simp only [run, e, e', Option.bind_eq_bind, Option.bind_some]
    rfl

/-- **In a run whose calls meet the condition `cache.previous` is always `nil` or linked.** -/
theorem previousLinked_of_run {heap : Addr → Node V} {nil : Addr} {component : Component} {t : Bst V}
    (hcmp : Orders cmp keyOf) (hp : Placed component nil)
    (hinit : jfsBstInit heap nil ⟨component, some cmp⟩ = .ok t) (ops : List (Op K V)) {fuel : ℕ}
    (hfuel : component.desc.count.toNat < fuel) (hcall : EachCall (LinkedCall cmp keyOf) cmp fuel t ops) :
    ∃ t' rs, run cmp fuel t ops = some (t', rs) ∧ PreviousLinked t' := by
  rw [← Placed.slots_length] at hfuel
  have hprev : t.cache.previous = t.nil := by
    rw [(jfsBstInit_store keyOf hp hinit).2.cache]
  exact run_previous hcmp (jfsBstInit_queue hp hinit) (.inl hprev) hcall hfuel

/-- Two puts of the same key, the second of which hits the cache, and a get. -/
theorem previousLinked_put_put_get : ∃ t, jfsBstInit zeroHeap 64 ⟨natComponent 2, some natCmp⟩ = .ok t ∧
    ∃ t' rs, run natCmp 3 t [.puts 1 1, .puts 1 1, .getSmallest] = some (t', rs) ∧ PreviousLinked t' := by
  have hinit := natComponent_init (n := 2) (by decide)
  refine ⟨_, hinit, previousLinked_of_run natCmp_orders natComponent_placed.2 hinit _ (by decide) ?_⟩
  refine ⟨⟨rfl, fun _ => ⟨fun _ => ?_, fun hex => ?_⟩⟩, fun t₁ r₁ e₁ => ⟨⟨rfl, fun _ => ⟨fun _ => ?_, fun _ => ?_⟩⟩,
    fun t₂ r₂ e₂ => ⟨fun _ _ => ?_, fun _ _ _ => trivial⟩⟩⟩
  · decide +kernel
  · obtain ⟨a, ha, -⟩ := hex
    exact absurd ha (not_inTree_of_root (by decide +kernel))
  · have hr : (step natCmp 3 (initTree zeroHeap 64 (natComponent 2)) (.puts 1 1)).map
        (fun p => p.1.list p.1.freeList.list) = some NULL := by decide +kernel
    rw [e₁] at hr
    exact Option.some.inj hr
  · have hr : (step natCmp 3 (initTree zeroHeap 64 (natComponent 2)) (.puts 1 1)).map
        (fun p => decide (p.1.cache.previous ≠ p.1.nil ∧ natCmp 1 (p.1.value p.1.cache.previous) = 0)) =
          some true := by decide +kernel
    rw [e₁] at hr
    exact ⟨t₁.cache.previous, by simp [Bst.cached], by simpa using Option.some.inj hr⟩
  · have hr : ((step natCmp 3 (initTree zeroHeap 64 (natComponent 2)) (.puts 1 1)).bind fun p =>
        (step natCmp 3 p.1 (.puts 1 1)).map fun p => decide (p.1.list p.1.cache.smallest ≠ NULL)) = some true := by
      decide +kernel
    rw [e₁, Option.bind_some, e₂] at hr
    simpa using Option.some.inj hr

/-- A value is put and taken out again, and `cache.previous` is the freed node. -/
theorem previousLinked_stale : ∃ t t' rs, jfsBstInit zeroHeap 64 ⟨natComponent 1, some natCmp⟩ = .ok t ∧
    run natCmp 2 t [.puts 1 1, .getSmallest] = some (t', rs) ∧ ¬ PreviousLinked t' := by
  have hinit := natComponent_init (n := 1) (by decide)
  have hrun : (run natCmp 2 (initTree zeroHeap 64 (natComponent 1)) [.puts 1 1, .getSmallest]).map
      (fun p => (p.1.root, p.1.nil, p.1.cache.previous)) = some (64, 64, 4096) := by decide +kernel
  obtain ⟨⟨t', rs⟩, e, hp⟩ := Option.map_eq_some_iff.mp hrun
  simp only [Prod.mk.injEq] at hp
  refine ⟨_, t', rs, hinit, e, ?_⟩
  rintro (hn | hin)
  · rw [hp.2.2, hp.2.1] at hn
    exact absurd hn (by decide)
  · exact not_inTree_of_root (hp.1.trans hp.2.1.symm) hin

end FileSync.SearchTree
