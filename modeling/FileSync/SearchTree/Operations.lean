import FileSync.SearchTree.Init

/-!
# The operations on the store

What `bst_detach_and_delete` and `jfs_bst_puts` do to a well-formed store. The
first needs nothing but a linked node. The second also looks at the cache, whose
`previous` no operation keeps up to date: it may point to a node that has been
freed since. `PutsSafe` is the condition on the state before a call under which
the node goes to the right place all the same.
-/

namespace FileSync.SearchTree

open FileSync.Lib FileSync.FreeList ColorTree

variable {K V : Type} [LinearOrder K] {cmp : K → V → Int} {keyOf : V → K} {t t' : Bst V}
  {T T' : ColorTree Addr} {slots free : List Addr} {chain : Addr → List Addr}

/-! ### Taking a value -/

/-- What taking the node `y` has done: it is on the free list, its value is no longer held,
and no value has changed. -/
structure TakenOut (keyOf : V → K) (slots free : List Addr) (t : Bst V) (T : ColorTree Addr)
    (chain : Addr → List Addr) (y : Addr) (t' : Bst V) (T' : ColorTree Addr) (chain' : Addr → List Addr) :
    Prop where
  store : Store keyOf slots [] (y :: free) t' T' chain'
  rows : (rows chain T.inorder).Perm (y :: rows chain' T'.inorder)
  value : ∀ a, t'.value a = t.value a
  nil : t'.nil = t.nil

/-- The values that are held lose exactly the one that was taken. -/
theorem TakenOut.held {y : Addr} {chain' : Addr → List Addr}
    (h : TakenOut keyOf slots free t T chain y t' T' chain') :
    held t T chain = t.value y ::ₘ held t' T' chain' := by
  have hv : ((FileSync.Lib.rows chain' T'.inorder).map t'.value) =
      (FileSync.Lib.rows chain' T'.inorder).map t.value := List.map_congr_left fun a _ => h.value a
  rw [SearchTree.held, SearchTree.held, hv, Multiset.cons_coe, Multiset.coe_eq_coe]
  exact h.rows.map t.value

/-- **`bst_detach_and_delete`** on a linked node `a` takes out one node of its row: the
first of its chain, or itself if it has none. What is asked of the update of the
cache is that it only writes the cache. -/
theorem bstDetachAndDelete_spec {a : Addr} {fuel : ℕ} {Q : Cache → List Addr → Prop}
    (h : Store keyOf slots [] free t T chain) (ha : a ∈ T.inorder) (hfuel : T.size < fuel)
    (hupd : ∀ t₁ T' xs ys, Represents t₁ T' → T.inorder = xs ++ a :: ys → T'.inorder = xs ++ ys →
      Keeps (fun b => b ∈ T'.inorder ∨ b = t.nil) t t₁ → ∃ c b, bstUpdateCacheDelete fuel t₁ a =
        some (({ t₁ with assertsHeld := b } : Bst V).setCache c) ∧ Q c T'.inorder) :
    ∃ t' T' chain' y, bstDetachAndDelete fuel t a = some (t', t.value y) ∧ y ∈ a :: chain a ∧
      TakenOut keyOf slots free t T chain y t' T' chain' ∧
        ((chain a ≠ [] ∧ T' = T ∧ t'.cache = t.cache) ∨
          (chain a = [] ∧ y = a ∧ Q t'.cache T'.inorder ∧ T'.inorder.Sublist T.inorder ∧
            ∀ b ∈ T.inorder, b ≠ a → b ∈ T'.inorder)) := by
  have hroot := h.rep.root_ne_nil ha
  unfold bstDetachAndDelete
  simp only [Bst.assert_of t hroot]
  cases hc : chain a with
  | nil =>
    rw [h.detach_none ha hc]
    obtain ⟨t₁, T', xs, ys, e, hr, hrb, hxs, hys, hk⟩ := bstDelete_spec h.rep h.redBlack ha hfuel
    obtain ⟨c, b, e', hQ⟩ := hupd t₁ T' xs ys hr hxs hys hk
    generalize ht₂ : ({ t₁ with assertsHeld := b } : Bst V).setCache c = t₂ at e'
    have hsub : T'.inorder.Sublist T.inorder := by
      rw [hxs, hys]
      exact (List.Sublist.refl xs).append (List.sublist_cons_self a ys)
    have hval : ∀ b, t₂.value b = t.value b := by
      intro b
      rw [← ht₂]
      exact hk.value b
    have hsorted : Sorted keyOf t₂ T' := sorted_congr (fun b _ => hval b) (h.sorted.sublist hsub)
    have hrep : Represents t₂ T' := by
      rw [← ht₂]
      exact hr.congr rfl rfl fun b _ => ⟨fun _ => rfl, rfl, rfl⟩
    obtain ⟨hst, hrows⟩ := h.unlink hrep hrb hsorted (by rw [← ht₂]; exact hk.nil)
      (by rw [← ht₂]; exact hk.freeList) hval (by rw [← ht₂]; exact hk.list) (by rw [← ht₂]; exact hk.heap)
      hxs hys hc
    have hfree := hst.flFree
    obtain ⟨-, hv2, -⟩ := Bst.flFree_spec t₂ hst.hand_place.1.1
    refine ⟨t₂.flFree a, T', chain, a, ?_, by simp, ⟨hfree, hrows, fun b => ?_, ?_⟩, .inr ⟨rfl, rfl, ?_, hsub, ?_⟩⟩
    · simp only [if_true, e, e', Option.bind_eq_bind, Option.bind_some]
      rfl
    · rw [hv2, hval]
    · show t₂.nil = t.nil
      rw [← ht₂]
      exact hk.nil
    · show Q t₂.cache T'.inorder
      rw [← ht₂]
      exact hQ
    · intro b hb hba
      rw [hxs] at hb
      rw [hys]
      simp only [List.mem_append, List.mem_cons] at hb ⊢
      tauto
  | cons y ys =>
    obtain ⟨e, hst, hrows⟩ := h.detach_some ha hc
    rw [e]
    have hya : y ≠ a := by
      rintro rfl
      exact hst.hand_notMem ha
    obtain ⟨-, hv, -⟩ := Bst.flFree_spec (t.setList a (t.list y)) hst.hand_place.1.1
    refine ⟨(t.setList a (t.list y)).flFree y, T, _, y, ?_, by simp, ⟨hst.flFree, hrows, fun b => ?_, rfl⟩,
      .inl ⟨by simp, rfl, rfl⟩⟩
    · simp only [if_neg hya]
      rw [Store.value_setList]
    · rw [hv, Store.value_setList]

/-! ### The cache -/

/-- The cached nodes, in the order in which `bst_check_cache` looks at them. -/
def Bst.cached (t : Bst V) : List Addr := [t.cache.previous, t.cache.largest, t.cache.smallest]

omit [LinearOrder K] in
/-- **`bst_check_cache`** gives a cached node with the key, if there is one. -/
theorem bstCheckCache_spec (cmp : K → V → Int) (t : Bst V) (key : K) :
    (bstCheckCache cmp t key = t.nil ∧ ∀ c ∈ t.cached, c ≠ t.nil → cmp key (t.value c) ≠ 0) ∨
      (bstCheckCache cmp t key ≠ t.nil ∧ bstCheckCache cmp t key ∈ t.cached ∧
        cmp key (t.value (bstCheckCache cmp t key)) = 0) := by
  unfold bstCheckCache
  split_ifs with h1 h2 h3
  · exact .inr ⟨h1.1, by simp [Bst.cached], h1.2⟩
  · exact .inr ⟨h2.1, by simp [Bst.cached], h2.2⟩
  · exact .inr ⟨h3.1, by simp [Bst.cached], h3.2⟩
  · refine .inl ⟨rfl, fun c hc hn => ?_⟩
    simp only [Bst.cached, List.mem_cons, List.not_mem_nil, or_false] at hc
    rcases hc with rfl | rfl | rfl
    · exact fun e => h1 ⟨hn, e⟩
    · exact fun e => h2 ⟨hn, e⟩
    · exact fun e => h3 ⟨hn, e⟩

/-- **A well-formed queue**: a store whose cache has the ends of the tree, and something
of the component in `previous`. -/
structure Queue (keyOf : V → K) (slots free : List Addr) (t : Bst V) (T : ColorTree Addr)
    (chain : Addr → List Addr) : Prop where
  /-- The nodes. -/
  store : Store keyOf slots [] free t T chain
  /-- The ends. -/
  cache : t.cache = cacheOf t.nil t.cache.previous T.inorder
  /-- The third cached node. -/
  previous : t.cache.previous = t.nil ∨ t.cache.previous ∈ slots

namespace Queue

theorem smallest (h : Queue keyOf slots free t T chain) :
    t.cache.smallest = (endOf .left T.inorder).getD t.nil := congrArg Cache.smallest h.cache

theorem largest (h : Queue keyOf slots free t T chain) :
    t.cache.largest = (endOf .right T.inorder).getD t.nil := congrArg Cache.largest h.cache

theorem nil_notMem (h : Queue keyOf slots free t T chain) : ∀ a ∈ T.inorder, a ≠ t.nil :=
  fun a ha => (h.store.rep.place a ha).2

/-- A cached end is a linked node. -/
theorem end_mem (h : Queue keyOf slots free t T chain) {a : Addr} (ha : a ≠ t.nil)
    (he : a = t.cache.smallest ∨ a = t.cache.largest) : a ∈ T.inorder := by
  rcases he with he | he
  · rw [h.smallest, eq_comm] at he
    exact endOf_mem ((endOf_getD_eq ha).mp he)
  · rw [h.largest, eq_comm] at he
    exact endOf_mem ((endOf_getD_eq ha).mp he)

/-- What is in the cache is `previous` or linked. -/
theorem cached_cases (h : Queue keyOf slots free t T chain) {c : Addr} (hc : c ∈ t.cached) (hn : c ≠ t.nil) :
    c = t.cache.previous ∨ c ∈ T.inorder := by
  simp only [Bst.cached, List.mem_cons, List.not_mem_nil, or_false] at hc
  exact hc.imp id fun he => h.end_mem hn he.symm

/-- A linked node is taken out of a well-formed queue. -/
theorem take {a : Addr} {fuel : ℕ} (h : Queue keyOf slots free t T chain) (ha : a ∈ T.inorder)
    (hfuel : T.size < fuel) :
    ∃ t' T' chain' y, bstDetachAndDelete fuel t a = some (t', t.value y) ∧ y ∈ a :: chain a ∧
      TakenOut keyOf slots free t T chain y t' T' chain' ∧ Queue keyOf slots (y :: free) t' T' chain' ∧
        t'.cache.previous = t.cache.previous ∧
          ((chain a ≠ [] ∧ T' = T) ∨ (chain a = [] ∧ ∀ b ∈ T.inorder, b ≠ a → b ∈ T'.inorder)) := by
  have hinv : TreeInv keyOf t T := ⟨h.store.rep, h.store.redBlack, h.store.sorted, h.cache⟩
  have hpos : 0 < fuel := by omega
  obtain ⟨t', T', chain', y, e, hy, htaken, hcase⟩ := bstDetachAndDelete_spec
    (Q := fun c xs => c = cacheOf t.nil t.cache.previous xs) h.store ha hfuel (by
      intro t₁ T' xs ys hr hxs hys hk
      have hnd := h.store.rep.nodup
      rw [hxs] at hnd
      have haT' : a ∉ T'.inorder := by
        rw [hys]
        exact (List.nodup_cons.mp (List.nodup_middle.mp hnd)).1
      have hheap : t₁.heap a = t.heap a := by
        refine hk.heap a ?_
        rintro (hm | rfl)
        · exact haT' hm
        · exact h.nil_notMem _ ha rfl
      exact ⟨_, _, bstUpdateCacheDelete_spec hinv hr hxs hys hk.nil hk.cache hheap hpos, rfl⟩)
  have hcache : t'.cache = cacheOf t.nil t.cache.previous T'.inorder := by
    rcases hcase with ⟨-, rfl, hcc⟩ | ⟨-, -, hcc, -⟩
    · rw [hcc]
      exact h.cache
    · exact hcc
  have hprev : t'.cache.previous = t.cache.previous := by rw [hcache, cacheOf]
  refine ⟨t', T', chain', y, e, hy, htaken, ⟨htaken.store, ?_, ?_⟩, hprev, ?_⟩
  · rw [hcache, htaken.nil]
    rfl
  · rw [hprev, htaken.nil]
    exact h.previous
  · rcases hcase with ⟨hne, hT, -⟩ | ⟨hc, -, -, -, hsub⟩
    · exact .inl ⟨hne, hT⟩
    · exact .inr ⟨hc, hsub⟩

end Queue

/-! ### Putting a value -/

/-- The node is on the free list. -/
def OnFreeList (t : Bst V) (a : Addr) : Prop :=
  ∃ free, ListAt t.nextFree NULL t.freeList.list free ∧ a ∈ free

/-- When `jfs_bst_puts` puts its node into the right place: if a node is free, and
`previous` points to a free node, then that is not the one that is taken now, nor
does its old value have the key; and if no linked node has the key, the chain
field of the node that is taken is `NULL`. -/
def PutsSafe (cmp : K → V → Int) (t : Bst V) (key : K) : Prop :=
  t.freeList.count ≠ 0 →
    (OnFreeList t t.cache.previous →
      t.cache.previous ≠ t.freeList.list ∧ cmp key (t.value t.cache.previous) ≠ 0) ∧
    ((∀ a, InTree t a → cmp key (t.value a) ≠ 0) → t.list t.freeList.list = NULL)

/-- Where `jfs_bst_puts` can put the node `x`: behind a cached node, behind a node that
the search finds, or in the tree. -/
inductive PutCase (cmp : K → V → Int) (t : Bst V) (T : ColorTree Addr) (key : K) (x : Addr) (t' : Bst V)
    (T' : ColorTree Addr) : Prop
  /-- A cached node has the key. -/
  | cached (c : Addr) : c ∈ t.cached → c ≠ t.nil → T' = T → t'.cache.previous = c →
      PutCase cmp t T key x t' T'
  /-- A linked node has the key, but no cached one. -/
  | found (a : Addr) : a ∈ T.inorder → cmp key (t.value a) = 0 →
      (∀ c ∈ t.cached, c ≠ t.nil → cmp key (t.value c) ≠ 0) → T' = T → t'.cache.previous = x →
        PutCase cmp t T key x t' T'
  /-- The key is new. -/
  | linked : x ∈ T'.inorder → t'.cache.previous = x → PutCase cmp t T key x t' T'

/-- What putting the value `v` into the node `x` has done. -/
structure PutIn (keyOf : V → K) (slots free : List Addr) (t : Bst V) (T : ColorTree Addr)
    (chain : Addr → List Addr) (x : Addr) (v : V) (t' : Bst V) (T' : ColorTree Addr)
    (chain' : Addr → List Addr) : Prop where
  queue : Queue keyOf slots free t' T' chain'
  rows : (rows chain' T'.inorder).Perm (x :: rows chain T.inorder)
  value : t'.value x = v
  other : ∀ a, a ≠ x → t'.value a = t.value a
  notMem : x ∉ FileSync.Lib.rows chain T.inorder
  nil : t'.nil = t.nil

/-- The values that are held gain exactly the one that was put. -/
theorem PutIn.held {x : Addr} {v : V} {chain' : Addr → List Addr}
    (h : PutIn keyOf slots free t T chain x v t' T' chain') :
    held t' T' chain' = v ::ₘ held t T chain := by
  have hv : ((FileSync.Lib.rows chain T.inorder).map t'.value) =
      (FileSync.Lib.rows chain T.inorder).map t.value := by
    refine List.map_congr_left fun a ha => h.other a ?_
    rintro rfl
    exact h.notMem ha
  have hperm := h.rows.map t'.value
  rw [List.map_cons, h.value, hv] at hperm
  rw [SearchTree.held, SearchTree.held, Multiset.cons_coe, Multiset.coe_eq_coe]
  exact hperm

/-- The store does not see the cache. -/
theorem Store.setCache {hand : List Addr} (h : Store keyOf slots hand free t T chain) (c : Cache) :
    Store keyOf slots hand free (t.setCache c) T chain :=
  ⟨h.rep.congr rfl rfl fun _ _ => ⟨fun _ => rfl, rfl, rfl⟩, h.redBlack, h.sorted, h.chains, h.keys, h.freeList,
    h.count, h.perm, h.nodup, h.place, h.length_lt⟩

/-- `jfs_bst_puts` from where the value has been packed. -/
def bstPutPacked (cmp : K → V → Int) (fuel : ℕ) (t : Bst V) (x : Addr) (key : K) : Option (Bst V) :=
  let cachedNode := bstCheckCache cmp t key
  if cachedNode ≠ t.nil then
    let t := bstAttachNode t cachedNode x
    some (t.setCache { t.cache with previous := cachedNode })
  else do
    let location ← bstFind cmp fuel t key
    let t ←
      if location.node ≠ t.nil then some (bstAttachNode t location.node x)
      else (bstInsert fuel t x location).map fun t => bstUpdateCacheInsert t location
    return t.setCache { t.cache with previous := x }

omit [LinearOrder K] in
theorem jfsBstPuts_eq (cmp : K → V → Int) (fuel : ℕ) (v : V) (key : K) (hcount : t.freeList.count ≠ 0) :
    jfsBstPuts cmp fuel t v key =
      (bstPutPacked cmp fuel (bstPackNode t.flAlloc.2 t.flAlloc.1 v) t.flAlloc.1 key).map fun t => (t, .ok) := by
  unfold jfsBstPuts bstPutPacked
  rw [if_neg hcount]
  simp only
  split_ifs with h1
  · rfl
  · cases bstFind cmp fuel (bstPackNode t.flAlloc.2 t.flAlloc.1 v) key with
    | none => rfl
    | some l =>
      simp only [Option.bind_eq_bind, Option.bind_some]
      split_ifs
      · rfl
      · cases bstInsert fuel (bstPackNode t.flAlloc.2 t.flAlloc.1 v) t.flAlloc.1 l <;> rfl

/-- The node in hand goes behind a node of a row, and `previous` is set. -/
theorem putPacked_attach {x a b p : Addr} (h : Store keyOf slots [x] free t T chain)
    (hcache : t.cache = cacheOf t.nil t.cache.previous T.inorder) (ha : a ∈ T.inorder) (hb : b ∈ a :: chain a)
    (hkey : t.key keyOf x = t.key keyOf b) (hp : p ∈ slots) :
    ∃ t' chain', t' = (bstAttachNode t b x).setCache { (bstAttachNode t b x).cache with previous := p } ∧
      Queue keyOf slots free t' T chain' ∧ (rows chain' T.inorder).Perm (x :: rows chain T.inorder) ∧
        (∀ c, t'.value c = t.value c) ∧ t'.nil = t.nil ∧ t'.cache.previous = p := by
  have hba : t.key keyOf b = t.key keyOf a := by
    rcases List.mem_cons.mp hb with rfl | hb
    · rfl
    · exact h.keys a ha b hb
  obtain ⟨ys, hst, hrows⟩ := h.attach ha hb (hkey.trans hba)
  have hval : ∀ c, (bstAttachNode t b x).value c = t.value c := by
    intro c
    rw [bstAttachNode, Store.value_setList, Store.value_setList]
  refine ⟨_, _, rfl, ⟨hst.setCache _, ?_, .inr hp⟩, hrows, hval, rfl, rfl⟩
  show ({ (bstAttachNode t b x).cache with previous := p } : Cache) = cacheOf t.nil p T.inorder
  have : (bstAttachNode t b x).cache = t.cache := rfl
  rw [this, hcache]
  rfl

/-- The node in hand is linked where the search found the hole, and `previous` is set. -/
theorem putPacked_link {x : Addr} {k : K} {l : Location} {C : List (Frame Addr)} {fuel : ℕ}
    (hcmp : Orders cmp keyOf) (h : Store keyOf slots [x] free t (plug C leaf) chain)
    (hcache : t.cache = cacheOf t.nil t.cache.previous (plug C leaf).inorder)
    (hole : HoleFor cmp keyOf t k C l.parent l.parentCmp) (hnode : l.node = t.nil)
    (hkey : t.key keyOf x = k) (hlist : t.list x = NULL) (hfuel : (plug C leaf).size < fuel) :
    ∃ t₁ t' T' chain', bstInsert fuel t x l = some t₁ ∧
      t' = (bstUpdateCacheInsert t₁ l).setCache { (bstUpdateCacheInsert t₁ l).cache with previous := x } ∧
      Queue keyOf slots free t' T' chain' ∧ (rows chain' T'.inorder).Perm (x :: rows chain (plug C leaf).inorder) ∧
        (∀ c, t'.value c = t.value c) ∧ t'.nil = t.nil ∧ t'.cache.previous = x ∧ x ∈ T'.inorder := by
  have px := h.hand_place
  have hinv : TreeInv keyOf t (plug C leaf) := ⟨h.rep, h.redBlack, h.sorted, hcache⟩
  obtain ⟨t₁, T', e, hk, hin, hupd, hinv'⟩ :=
    bstInsert_inv hcmp hinv hole hnode px.1 px.2 h.hand_notMem hkey hfuel
  have hT : (plug C leaf).inorder = before C ++ after C := by
    rw [inorder_plug]
    simp
  rw [hupd] at hinv'
  obtain ⟨hst, hrows⟩ := h.link hinv'.rep hinv'.redBlack hinv'.sorted hk.nil hk.freeList hk.value hk.list
    hk.heap hT hin hlist
  have hxT' : x ∈ T'.inorder := by simp [hin]
  have hxs : x ∈ slots := h.mem_slots (.inl (List.mem_singleton.mpr rfl))
  refine ⟨t₁, _, T', _, e, rfl, ⟨(hupd ▸ hst).setCache _, ?_, ?_⟩, hrows, ?_, ?_, rfl, hxT'⟩
  · rw [hupd]
    show cacheOf t.nil x T'.inorder = cacheOf t₁.nil x T'.inorder
    rw [hk.nil]
  · exact .inr hxs
  · rw [hupd]
    exact hk.value
  · rw [hupd]
    exact hk.nil

/-- **`jfs_bst_puts`** on a queue with a free node, where it is safe: the value is held
afterwards, and all others still are. -/
theorem Queue.puts {v : V} {x : Addr} {fuel : ℕ} (hcmp : Orders cmp keyOf)
    (h : Queue keyOf slots (x :: free) t T chain) (hsafe : PutsSafe cmp t (keyOf v)) (hfuel : T.size < fuel) :
    ∃ t' T' chain', jfsBstPuts cmp fuel t v (keyOf v) = some (t', .ok) ∧
      PutIn keyOf slots free t T chain x v t' T' chain' ∧ PutCase cmp t T (keyOf v) x t' T' := by
  have hcount := h.store.count_ne_zero
  have hhead : t.freeList.list = x := h.store.freeList.1
  obtain ⟨hprev, hnull⟩ := hsafe hcount
  rw [hhead] at hprev hnull
  obtain ⟨hx, hst⟩ := h.store.flAlloc
  rw [List.nil_append] at hst
  rw [jfsBstPuts_eq cmp fuel v (keyOf v) hcount, hx]
  have hst₁ := hst.pack v
  -- what packing the value has changed
  have hvx : (bstPackNode t.flAlloc.2 x v).value x = v := by rw [value_packNode, if_pos rfl]
  have hvo : ∀ a, a ≠ x → (bstPackNode t.flAlloc.2 x v).value a = t.value a := by
    intro a ha
    rw [value_packNode, if_neg ha]
    rfl
  have hlist : (bstPackNode t.flAlloc.2 x v).list x = t.list x := list_packNode ..
  have hc₁ : (bstPackNode t.flAlloc.2 x v).cache = t.cache := rfl
  have hn₁ : (bstPackNode t.flAlloc.2 x v).nil = t.nil := rfl
  have hcached : (bstPackNode t.flAlloc.2 x v).cached = t.cached := rfl
  have hcache : (bstPackNode t.flAlloc.2 x v).cache = cacheOf (bstPackNode t.flAlloc.2 x v).nil
      (bstPackNode t.flAlloc.2 x v).cache.previous T.inorder := h.cache
  generalize bstPackNode t.flAlloc.2 x v = t₁ at hst₁ hvx hvo hlist hc₁ hn₁ hcached hcache ⊢
  have hxslot : x ∈ slots := h.store.mem_slots (.inr (.inl (by simp)))
  have hxT := hst₁.hand_notMem
  have hkx : t₁.key keyOf x = keyOf v := by rw [Bst.key, hvx]
  unfold bstPutPacked
  rcases bstCheckCache_spec cmp t₁ (keyOf v) with ⟨hmiss, hnone⟩ | ⟨hhit, hin, heq⟩
  · rw [if_neg (not_not.mpr hmiss)]
    -- a cached node is not the new one, whose value has the key
    have hnone' : ∀ c ∈ t.cached, c ≠ t.nil → cmp (keyOf v) (t.value c) ≠ 0 := by
      intro c hc hcn
      have hne := hnone c (hcached ▸ hc) (hn₁ ▸ hcn)
      by_cases hcx : c = x
      · rw [hcx, hvx] at hne
        exact absurd ((hcmp.compares.eq_iff _ _).mpr rfl) hne
      · rwa [hvo c hcx] at hne
    obtain ⟨l, el, hl⟩ := bstFind_spec hcmp.compares hst₁.rep hst₁.sorted (keyOf v) hfuel
    simp only [el, Option.bind_eq_bind, Option.bind_some]
    rcases hl with ⟨hT, hk⟩ | ⟨hT, hnode, hole⟩
    · have hm : l.node ∈ T.inorder := by
        rw [hT]
        simp [mem_inorder_plug]
      have hlx : l.node ≠ x := fun e => hxT (e ▸ hm)
      obtain ⟨t', chain', rfl, hq, hrows, hval, hnil, hp⟩ :=
        putPacked_attach hst₁ hcache hm (List.mem_cons_self ..) (hkx.trans hk.symm) hxslot
      rw [if_pos (hst₁.rep.place _ hm).2]
      refine ⟨_, T, chain', rfl, ⟨hq, hrows, (hval x).trans hvx, fun b hb => (hval b).trans (hvo b hb),
        hst₁.hand_notMem_rows, hnil.trans hn₁⟩, .found l.node hm ?_ hnone' rfl hp⟩
      rw [← hvo _ hlx]
      exact (hcmp.compares.eq_iff _ _).mpr hk.symm
    · subst hT
      have hnew : ∀ a, InTree t a → cmp (keyOf v) (t.value a) ≠ 0 := by
        intro a ha e
        rw [h.store.rep.inTree_iff] at ha
        have hax : a ≠ x := fun e => hxT (e ▸ ha)
        rw [← hvo a hax] at e
        exact hole.key_ne ha ((hcmp.compares.eq_iff _ _).mp e)
      obtain ⟨t₂, t', T', chain', ei, rfl, hq, hrows, hval, hnil, hp, hxT'⟩ :=
        putPacked_link hcmp hst₁ hcache hole hnode hkx (hlist.trans (hnull hnew)) hfuel
      rw [if_neg (not_not.mpr hnode), ei]
      exact ⟨_, T', chain', rfl, ⟨hq, hrows, (hval x).trans hvx, fun b hb => (hval b).trans (hvo b hb),
        hst₁.hand_notMem_rows, hnil.trans hn₁⟩, .linked hxT' hp⟩
  · generalize bstCheckCache cmp t₁ (keyOf v) = c at hhit hin heq
    -- a cached node with the key is in use
    have hrow : c ∈ rows chain T.inorder := by
      rw [hcached] at hin
      rw [hn₁] at hhit
      rcases h.cached_cases hin hhit with rfl | hm
      · have hslot := h.previous.resolve_left hhit
        rw [← h.store.perm.mem_iff, List.nil_append, List.mem_append] at hslot
        rcases hslot with hfree | hrow
        · obtain ⟨hne, hk⟩ := hprev ⟨x :: free, h.store.freeList, hfree⟩
          rw [hvo _ hne] at heq
          exact absurd heq hk
        · exact hrow
      · exact mem_rows_head hm
    obtain ⟨a, ha, hca⟩ := mem_rows.mp hrow
    have hkc : t₁.key keyOf x = t₁.key keyOf c := by
      rw [hkx]
      exact (hcmp.compares.eq_iff _ _).mp heq
    obtain ⟨t', chain', rfl, hq, hrows, hval, hnil, hp⟩ :=
      putPacked_attach hst₁ hcache ha hca hkc (h.store.mem_slots (.inr (.inr hrow)))
    rw [if_pos hhit]
    refine ⟨_, T, chain', rfl, ⟨hq, hrows, (hval x).trans hvx, fun b hb => (hval b).trans (hvo b hb),
      hst₁.hand_notMem_rows, hnil.trans hn₁⟩, .cached c (hcached ▸ hin) (hn₁ ▸ hhit) rfl hp⟩

end FileSync.SearchTree
