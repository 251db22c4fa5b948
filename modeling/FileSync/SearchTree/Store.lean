import FileSync.SearchTree.Cache
import FileSync.Lib.ListAt
import Mathlib.Data.Multiset.Basic

/-!
# The nodes of the component

Where every node of the component is: on the free list, linked in the tree, or
on the chain of a linked node with the same key. `Store` says so, with some nodes
in hand: those that `jfs_fl_alloc` has given out and that are not linked or
attached yet, or that have been taken out and not been freed yet. Each step of an
operation moves one node: from the free list to the hand (`Store.flAlloc`), from
the hand onto a chain (`Store.attach`) or into the tree (`Store.link`), and back
(`Store.detach`, `Store.unlink`, `Store.flFree`).

The cache is not part of it.
-/

namespace FileSync.SearchTree

open FileSync.Lib FileSync.FreeList ColorTree

variable {K V : Type} [LinearOrder K] {cmp : K → V → Int} {keyOf : V → K}

/-- The link of the free list. -/
def Bst.nextFree (t : Bst V) (a : Addr) : Addr := (t.heap a).parentColor

theorem nodeLinks_lawful : LawfulLinks (nodeLinks V) := by
  intro m a b x
  by_cases h : x = a
  · subst h
    simp [nodeLinks]
  · simp [nodeLinks, h]

/-- What `jfs_fl_free` does to the memory. -/
theorem Bst.flFree_spec (t : Bst V) {x : Addr} (hx : x ≠ NULL) :
    (∀ a, a ≠ x → (t.flFree x).heap a = t.heap a) ∧ (∀ a, (t.flFree x).value a = t.value a) ∧
      ∀ a, (t.flFree x).list a = t.list a := by
  have e : (t.flFree x).heap = Function.update t.heap x { t.heap x with parentColor := t.freeList.list } := by
    rw [Bst.flFree, jfsFlFree, if_neg hx]
    rfl
  refine ⟨fun a ha => ?_, fun a => ?_, fun a => ?_⟩
  · rw [e, Function.update_of_ne ha]
  · rw [Bst.value, e]
    by_cases ha : a = x
    · subst ha
      simp [Bst.value]
    · simp [Bst.value, ha]
  · rw [Bst.list, e]
    by_cases ha : a = x
    · subst ha
      simp [Bst.list]
    · simp [Bst.list, ha]

/-- What `bst_pack_node` does to the values. -/
theorem value_packNode (t : Bst V) (x : Addr) (v : V) (a : Addr) :
    (bstPackNode t x v).value a = if a = x then v else t.value a := by
  by_cases h : a = x
  · subst h
    simp [bstPackNode, Bst.value]
  · simp [bstPackNode, Bst.value, h]

theorem list_packNode (t : Bst V) (x : Addr) (v : V) (a : Addr) : (bstPackNode t x v).list a = t.list a := by
  by_cases h : a = x
  · subst h
    simp [bstPackNode, Bst.list]
  · simp [bstPackNode, Bst.list, h]

theorem nextFree_packNode (t : Bst V) (x : Addr) (v : V) (a : Addr) :
    (bstPackNode t x v).nextFree a = t.nextFree a := by
  by_cases h : a = x
  · subst h
    simp [bstPackNode, Bst.nextFree]
  · simp [bstPackNode, Bst.nextFree, h]

/-- **Every node of the component is in exactly one place**: in hand, on the free list, or
in the row of exactly one node of the tree. -/
structure Store (keyOf : V → K) (slots hand free : List Addr) (t : Bst V) (T : ColorTree Addr)
    (chain : Addr → List Addr) : Prop where
  /-- The tree. -/
  rep : Represents t T
  /-- It is balanced. -/
  redBlack : T.IsRedBlack
  /-- Its keys increase. -/
  sorted : Sorted keyOf t T
  /-- The chains end with `NULL`. -/
  chains : ∀ a ∈ T.inorder, ListAt t.list NULL a (a :: chain a)
  /-- The values of a row have the same key. -/
  keys : ∀ a ∈ T.inorder, ∀ b ∈ chain a, t.key keyOf b = t.key keyOf a
  /-- The free list. -/
  freeList : ListAt t.nextFree NULL t.freeList.list free
  /-- Its length. -/
  count : t.freeList.count.toNat = free.length
  /-- Nothing is missing and nothing is twice. -/
  perm : (hand ++ (free ++ rows chain T.inorder)).Perm slots
  /-- The nodes are different. -/
  nodup : slots.Nodup
  /-- They are where a node can be. -/
  place : ∀ a ∈ slots, IsPlace a ∧ a ≠ t.nil
  /-- Their number is a `size_t`. -/
  length_lt : slots.length < 2 ^ 64

/-- The values that the tree holds. -/
def held (t : Bst V) (T : ColorTree Addr) (chain : Addr → List Addr) : Multiset V :=
  ((rows chain T.inorder).map t.value : List V)

namespace Store

variable {slots hand free : List Addr} {t t' : Bst V} {T T' : ColorTree Addr} {chain : Addr → List Addr}
  {x : Addr}

theorem nodup_all (h : Store keyOf slots hand free t T chain) :
    (hand ++ (free ++ rows chain T.inorder)).Nodup := h.perm.nodup_iff.mpr h.nodup

theorem mem_slots (h : Store keyOf slots hand free t T chain) {a : Addr}
    (ha : a ∈ hand ∨ a ∈ free ∨ a ∈ rows chain T.inorder) : a ∈ slots := by
  apply h.perm.mem_iff.mp
  simpa using ha

theorem hand_place (h : Store keyOf slots (x :: hand) free t T chain) : IsPlace x ∧ x ≠ t.nil :=
  h.place x (h.mem_slots (.inl (by simp)))

theorem hand_notMem_free (h : Store keyOf slots (x :: hand) free t T chain) : x ∉ free := by
  have hnd := List.nodup_cons.mp h.nodup_all
  intro hm
  exact hnd.1 (by simp [hm])

theorem hand_notMem_rows (h : Store keyOf slots (x :: hand) free t T chain) : x ∉ rows chain T.inorder := by
  have hnd := List.nodup_cons.mp h.nodup_all
  intro hm
  exact hnd.1 (by simp [hm])

theorem hand_notMem (h : Store keyOf slots (x :: hand) free t T chain) : x ∉ T.inorder :=
  fun hm => h.hand_notMem_rows (mem_rows_head hm)

theorem free_notMem_rows (h : Store keyOf slots hand free t T chain) {a : Addr} (ha : a ∈ free) :
    a ∉ rows chain T.inorder := by
  have hnd := (List.nodup_append.mp h.nodup_all).2.1
  exact fun hm => (List.nodup_append.mp hnd).2.2 a ha a hm rfl

theorem rows_nodup (h : Store keyOf slots hand free t T chain) : (rows chain T.inorder).Nodup :=
  (List.nodup_append.mp (List.nodup_append.mp h.nodup_all).2.1).2.1

theorem size_le (h : Store keyOf slots hand free t T chain) : T.size ≤ slots.length := by
  rw [← h.perm.length_eq, ← length_inorder]
  have hsub : T.inorder.length ≤ (rows chain T.inorder).length := by
    induction T.inorder with
    | nil => exact le_rfl
    | cons a xs ih =>
      rw [rows_cons, List.length_append, List.length_cons, List.length_cons]
      omega
  simp only [List.length_append]
  omega

/-- The number of values and the number of free nodes add up. -/
theorem card_held (h : Store keyOf slots [] free t T chain) :
    Multiset.card (held t T chain) + free.length = slots.length := by
  rw [← h.perm.length_eq, held, Multiset.coe_card, List.length_map, List.nil_append, List.length_append]
  omega

/-! ### The free list -/

theorem count_ne_zero (h : Store keyOf slots hand (x :: free) t T chain) : t.freeList.count ≠ 0 := by
  intro e
  have hcount := h.count
  rw [e] at hcount
  simp at hcount

theorem freed (h : Store keyOf slots hand free t T chain) : Free (nodeLinks V) t.heap t.freeList free :=
  ⟨h.freeList, h.count⟩

/-- `jfs_fl_alloc` gives out the first free node. -/
theorem flAlloc (h : Store keyOf slots hand (x :: free) t T chain) :
    t.flAlloc.1 = x ∧ Store keyOf slots (hand ++ [x]) free t.flAlloc.2 T chain := by
  obtain ⟨hx, hfree⟩ := jfsFlAlloc_cons h.freed
  refine ⟨hx, h.rep.congr rfl rfl fun a _ => ⟨fun _ => rfl, rfl, rfl⟩, h.redBlack, h.sorted, h.chains, h.keys,
    hfree.list, hfree.count, ?_, h.nodup, h.place, h.length_lt⟩
  refine List.Perm.trans ?_ h.perm
  simp

/-- `jfs_fl_free` takes a node back. -/
theorem flFree (h : Store keyOf slots [x] free t T chain) :
    Store keyOf slots [] (x :: free) (t.flFree x) T chain := by
  have px := h.hand_place
  obtain ⟨hheap, hvalue, hlist⟩ := Bst.flFree_spec t px.1.1
  have hlen : free.length + 1 < 2 ^ 64 := by
    have hslots := h.perm.length_eq
    have hlt := h.length_lt
    simp only [List.length_append, List.length_cons, List.length_nil] at hslots
    omega
  have hfree := jfsFlFree_spec (nodeLinks_lawful.lawfulOn _) h.freed px.1.1 h.hand_notMem_free hlen
  refine ⟨h.rep.congr rfl rfl fun a ha => sameLinks_of_heap (hheap a ?_), h.redBlack,
    sorted_congr (fun a _ => hvalue a) h.sorted, fun a ha => listAt_congr (fun b _ => hlist b) (h.chains a ha),
    fun a ha b hb => ?_, hfree.list, hfree.count, ?_, h.nodup, h.place, h.length_lt⟩
  · rintro rfl
    exact ha.elim h.hand_notMem px.2
  · rw [Bst.key, Bst.key, hvalue, hvalue]
    exact h.keys a ha b hb
  · exact h.perm

/-! ### Values and chains -/

/-- `bst_pack_node` writes a value to a node in hand. -/
theorem pack (h : Store keyOf slots [x] free t T chain) (v : V) :
    Store keyOf slots [x] free (bstPackNode t x v) T chain := by
  have heap : ∀ a, a ≠ x → (bstPackNode t x v).heap a = t.heap a := fun a ha => Function.update_of_ne ha ..
  have value : ∀ a ∈ rows chain T.inorder, (bstPackNode t x v).value a = t.value a := by
    intro a ha
    rw [value_packNode, if_neg]
    rintro rfl
    exact h.hand_notMem_rows ha
  refine ⟨h.rep.congr rfl rfl fun a ha => sameLinks_of_heap (heap a ?_), h.redBlack,
    sorted_congr (fun a ha => value a (mem_rows_head ha)) h.sorted,
    fun a ha => listAt_congr (fun b _ => list_packNode t x v b) (h.chains a ha), fun a ha b hb => ?_,
    listAt_congr (fun b _ => nextFree_packNode t x v b) h.freeList, h.count, h.perm, h.nodup, h.place, h.length_lt⟩
  · rintro rfl
    exact ha.elim h.hand_notMem h.hand_place.2
  · rw [Bst.key, Bst.key, value a (mem_rows_head ha), value b (mem_rows.mpr ⟨a, ha, by simp [hb]⟩)]
    exact h.keys a ha b hb

/-- What writing a chain link leaves alone. -/
theorem list_setList (t : Bst V) (a b y : Addr) :
    (t.setList a b).list y = if y = a then b else t.list y := by
  by_cases h : y = a
  · subst h
    simp [Bst.setList, Bst.list]
  · simp [Bst.setList, Bst.list, h]

theorem sameLinks_setList (t : Bst V) (a b y : Addr) : SameLinks t (t.setList a b) y := by
  by_cases h : y = a
  · subst h
    refine ⟨fun d => ?_, ?_, ?_⟩
    · cases d <;> simp [Bst.setList, Bst.child]
    · simp [Bst.setList, bstParent]
    · simp [Bst.setList, bstColor]
  · exact sameLinks_of_heap (by simp [Bst.setList, h])

theorem value_setList (t : Bst V) (a b y : Addr) : (t.setList a b).value y = t.value y := by
  by_cases h : y = a
  · subst h
    simp [Bst.setList, Bst.value]
  · simp [Bst.setList, Bst.value, h]

theorem nextFree_setList (t : Bst V) (a b y : Addr) : (t.setList a b).nextFree y = t.nextFree y := by
  by_cases h : y = a
  · subst h
    simp [Bst.setList, Bst.nextFree]
  · simp [Bst.setList, Bst.nextFree, h]

/-- The chain of one node of the tree is changed by writes to chain links. -/
theorem rechain {hand' ys : List Addr} {a : Addr} (h : Store keyOf slots hand free t T chain)
    (ha : a ∈ T.inorder) (hn : t'.nil = t.nil) (hr : t'.root = t.root) (hfl : t'.freeList = t.freeList)
    (hlinks : ∀ b, SameLinks t t' b) (hvalue : ∀ b, t'.value b = t.value b)
    (hnext : ∀ b, t'.nextFree b = t.nextFree b)
    (hother : ∀ b ∈ T.inorder, b ≠ a → ∀ c ∈ b :: chain b, t'.list c = t.list c)
    (hrow : ListAt t'.list NULL a (a :: ys)) (hkeys : ∀ b ∈ ys, t.key keyOf b = t.key keyOf a)
    (hperm : (hand' ++ (free ++ rows (Function.update chain a ys) T.inorder)).Perm slots) :
    Store keyOf slots hand' free t' T (Function.update chain a ys) := by
  refine ⟨h.rep.congr hn hr fun b _ => hlinks b, h.redBlack, sorted_congr (fun b _ => hvalue b) h.sorted,
    fun b hb => ?_, fun b hb c hc => ?_, ?_, ?_, hperm, h.nodup, ?_, h.length_lt⟩
  · by_cases hba : b = a
    · subst hba
      rw [Function.update_self]
      exact hrow
    · rw [Function.update_of_ne hba]
      exact listAt_congr (hother b hb hba) (h.chains b hb)
  · rw [Bst.key, Bst.key, hvalue, hvalue]
    by_cases hba : b = a
    · subst hba
      rw [Function.update_self] at hc
      exact hkeys c hc
    · rw [Function.update_of_ne hba] at hc
      exact h.keys b hb c hc
  · rw [hfl]
    exact listAt_congr (fun b _ => hnext b) h.freeList
  · rw [hfl]
    exact h.count
  · rw [hn]
    exact h.place

/-- Rows are disjoint. -/
theorem row_disjoint (h : Store keyOf slots hand free t T chain) {a b c : Addr} (ha : a ∈ T.inorder)
    (hb : b ∈ T.inorder) (hab : b ≠ a) (hca : c ∈ a :: chain a) : c ∉ b :: chain b := by
  have hnd := h.rows_nodup
  obtain ⟨p, q, e⟩ := List.append_of_mem ha
  rw [e] at hnd hb
  rw [rows_append, rows_cons, List.nodup_append] at hnd
  obtain ⟨-, hq, hpq⟩ := hnd
  have hq' := (List.nodup_append.mp hq).2.2
  intro hcb
  rcases List.mem_append.mp hb with hb | hb
  · exact hpq c (mem_rows.mpr ⟨b, hb, hcb⟩) c (List.mem_append_left _ hca) rfl
  · rcases List.mem_cons.mp hb with rfl | hb
    · exact hab rfl
    · exact hq' c hca c (mem_rows.mpr ⟨b, hb, hcb⟩) rfl

/-- `bst_attach_node` puts the node in hand behind a node of a row. -/
theorem attach {a b : Addr} (h : Store keyOf slots [x] free t T chain) (ha : a ∈ T.inorder)
    (hb : b ∈ a :: chain a) (hkey : t.key keyOf x = t.key keyOf a) :
    ∃ ys, Store keyOf slots [] free (bstAttachNode t b x) T (Function.update chain a ys) ∧
      (rows (Function.update chain a ys) T.inorder).Perm (x :: rows chain T.inorder) := by
  have hxb : x ≠ b := fun e => h.hand_notMem_rows (mem_rows.mpr ⟨a, ha, e ▸ hb⟩)
  obtain ⟨p, q, e⟩ := List.append_of_mem hb
  have hnd : (a :: chain a).Nodup := by
    refine List.Nodup.sublist ?_ h.rows_nodup
    obtain ⟨r, s, e'⟩ := List.append_of_mem ha
    rw [e', rows_append, rows_cons]
    exact (List.sublist_append_left _ _).trans (List.sublist_append_right _ _)
  -- the new row has the same head
  obtain ⟨ys, hys⟩ : ∃ ys, a :: ys = p ++ b :: x :: q := by
    cases p with
    | nil =>
      obtain ⟨rfl, -⟩ := List.cons.inj e
      exact ⟨x :: q, rfl⟩
    | cons c p =>
      obtain ⟨rfl, -⟩ := List.cons.inj e
      exact ⟨p ++ b :: x :: q, rfl⟩
  have hperm : ys.Perm (x :: chain a) := by
    refine (List.perm_cons a).mp ?_
    rw [hys]
    refine List.Perm.trans ?_ (List.Perm.swap a x (chain a))
    rw [e]
    have h1 : p ++ b :: x :: q = (p ++ [b]) ++ x :: q := by simp
    have h2 : p ++ b :: q = (p ++ [b]) ++ q := by simp
    rw [h1, h2]
    exact List.perm_middle
  have hrows := rows_update_perm h.rep.nodup ha hperm
  have hlist : ∀ c, (bstAttachNode t b x).list c = if c = b then x else if c = x then t.list b else t.list c := by
    intro c
    rw [bstAttachNode, list_setList, list_setList]
  refine ⟨ys, h.rechain ha rfl rfl rfl (fun c => ?_) (fun c => ?_) (fun c => ?_) (fun c hc hca d hd => ?_) ?_
    (fun c hc => ?_) ?_, hrows⟩
  · exact (sameLinks_setList t x _ c).trans (sameLinks_setList _ b x c)
  · rw [bstAttachNode, value_setList, value_setList]
  · rw [bstAttachNode, nextFree_setList, nextFree_setList]
  · rw [hlist, if_neg, if_neg]
    · rintro rfl
      exact h.hand_notMem_rows (mem_rows.mpr ⟨c, hc, hd⟩)
    · rintro rfl
      exact h.row_disjoint ha hc hca hb hd
  · rw [hys]
    refine listAt_insert (e ▸ h.chains a ha) h.hand_place.1.1 ?_ ?_ fun c hc => ?_
    · rw [hlist, if_pos rfl]
    · rw [hlist, if_neg hxb, if_pos rfl]
    · have hcr : c ∈ a :: chain a := by
        rw [e]
        rcases List.mem_append.mp hc with hc | hc <;> simp [hc]
      rw [hlist, if_neg, if_neg]
      · rintro rfl
        exact h.hand_notMem_rows (mem_rows.mpr ⟨a, ha, hcr⟩)
      · rintro rfl
        rw [e] at hnd
        have := (List.nodup_cons.mp (List.nodup_middle.mp hnd)).1
        exact this hc
  · rcases List.mem_cons.mp (hperm.mem_iff.mp hc) with rfl | hc
    · exact hkey
    · exact h.keys a ha c hc
  · refine List.Perm.trans ?_ h.perm
    rw [List.nil_append]
    refine (hrows.append_left free).trans ?_
    exact List.perm_middle

/-- A node without a chain: `bst_detach_node` gives the node itself. -/
theorem detach_none {a : Addr} (h : Store keyOf slots hand free t T chain) (ha : a ∈ T.inorder)
    (hc : chain a = []) : bstDetachNode t a = (t, a) := by
  have hnull : t.list a = NULL := by
    have := (h.chains a ha).2.2
    rwa [hc, listAt_nil] at this
  rw [bstDetachNode, if_pos hnull]

/-- A node with a chain: `bst_detach_node` takes the first of it. -/
theorem detach_some {a y : Addr} {ys : List Addr} (h : Store keyOf slots [] free t T chain)
    (ha : a ∈ T.inorder) (hc : chain a = y :: ys) :
    bstDetachNode t a = (t.setList a (t.list y), y) ∧
      Store keyOf slots [y] free (t.setList a (t.list y)) T (Function.update chain a ys) ∧
        (rows chain T.inorder).Perm (y :: rows (Function.update chain a ys) T.inorder) := by
  have hrow := h.chains a ha
  rw [hc] at hrow
  obtain ⟨-, haN, hay, hyN, hys⟩ := hrow
  have e : bstDetachNode t a = (t.setList a (t.list y), y) := by
    rw [bstDetachNode, hay, if_neg hyN]
  have hrows : (rows chain T.inorder).Perm (y :: rows (Function.update chain a ys) T.inorder) := by
    have hupd : Function.update (Function.update chain a ys) a (chain a) = chain := by simp
    have hperm : (chain a).Perm (y :: Function.update chain a ys a) := by rw [Function.update_self, hc]
    have := rows_update_perm h.rep.nodup ha hperm
    rwa [hupd] at this
  have hnd := h.rows_nodup
  obtain ⟨r, s, e'⟩ := List.append_of_mem ha
  rw [e', rows_append, rows_cons, hc] at hnd
  have hnda : (a :: y :: ys).Nodup := (List.nodup_append.mp (List.nodup_append.mp hnd).2.1).1
  refine ⟨e, h.rechain ha rfl rfl rfl (sameLinks_setList t a _) (value_setList t a _) (nextFree_setList t a _)
    (fun b hb hba c hcb => ?_) ⟨rfl, haN, ?_⟩ (fun b hb => h.keys a ha b (by simp [hc, hb])) ?_, hrows⟩
  · rw [list_setList, if_neg]
    rintro rfl
    exact h.row_disjoint ha hb hba (by simp) hcb
  · rw [list_setList, if_pos rfl]
    refine listAt_congr (fun b hb => ?_) hys
    rw [list_setList, if_neg]
    rintro rfl
    exact (List.nodup_cons.mp hnda).1 (by simp [hb])
  · refine List.Perm.trans ?_ h.perm
    refine List.Perm.trans ?_ (hrows.symm.append_left free)
    rw [List.singleton_append]
    exact List.perm_middle.symm

/-! ### The tree -/

/-- The node in hand has been linked, its chain field being `NULL`. -/
theorem link {xs ys : List Addr} (h : Store keyOf slots [x] free t T chain) (hrep : Represents t' T')
    (hrb : T'.IsRedBlack) (hsorted : Sorted keyOf t' T') (hn : t'.nil = t.nil)
    (hfl : t'.freeList = t.freeList) (hvalue : ∀ a, t'.value a = t.value a) (hlist : ∀ a, t'.list a = t.list a)
    (hheap : ∀ a, a ∉ T'.inorder → t'.heap a = t.heap a) (hT : T.inorder = xs ++ ys)
    (hT' : T'.inorder = xs ++ x :: ys) (hx : t.list x = NULL) :
    Store keyOf slots [] free t' T' (Function.update chain x []) ∧
      (rows (Function.update chain x []) T'.inorder).Perm (x :: rows chain T.inorder) := by
  have hxT := h.hand_notMem
  have hold : ∀ a ∈ T.inorder, Function.update chain x [] a = chain a := by
    intro a ha
    refine Function.update_of_ne ?_ ..
    rintro rfl
    exact hxT ha
  have hmem : ∀ a ∈ T'.inorder, a = x ∨ a ∈ T.inorder := by
    intro a ha
    rw [hT'] at ha
    rw [hT]
    simp only [List.mem_append, List.mem_cons] at ha ⊢
    tauto
  have hrows : (rows (Function.update chain x []) T'.inorder).Perm (x :: rows chain T.inorder) := by
    rw [hT']
    refine (rows_insert_perm _ xs ys (Function.update_self ..)).trans ?_
    rw [← hT, rows_congr hold]
  refine ⟨⟨hrep, hrb, hsorted, fun a ha => ?_, fun a ha b hb => ?_, ?_, ?_, ?_, h.nodup, ?_, h.length_lt⟩, hrows⟩
  · rcases hmem a ha with rfl | ha
    · rw [Function.update_self]
      refine ⟨rfl, h.hand_place.1.1, ?_⟩
      rw [hlist, hx]
      rfl
    · rw [hold a ha]
      exact listAt_congr (fun b _ => hlist b) (h.chains a ha)
  · rw [Bst.key, Bst.key, hvalue, hvalue]
    rcases hmem a ha with rfl | ha
    · rw [Function.update_self] at hb
      exact absurd hb List.not_mem_nil
    · rw [hold a ha] at hb
      exact h.keys a ha b hb
  · rw [hfl]
    refine listAt_congr (fun a ha => ?_) h.freeList
    rw [Bst.nextFree, Bst.nextFree, hheap]
    intro hm
    rcases hmem a hm with rfl | hm
    · exact h.hand_notMem_free ha
    · exact h.free_notMem_rows ha (mem_rows_head hm)
  · rw [hfl]
    exact h.count
  · refine List.Perm.trans ?_ h.perm
    rw [List.nil_append]
    exact (hrows.append_left free).trans List.perm_middle
  · rw [hn]
    exact h.place

/-- A node without a chain has been unlinked. -/
theorem unlink {z : Addr} {xs ys : List Addr} (h : Store keyOf slots [] free t T chain)
    (hrep : Represents t' T') (hrb : T'.IsRedBlack) (hsorted : Sorted keyOf t' T') (hn : t'.nil = t.nil)
    (hfl : t'.freeList = t.freeList) (hvalue : ∀ a, t'.value a = t.value a) (hlist : ∀ a, t'.list a = t.list a)
    (hheap : ∀ a, ¬ (a ∈ T'.inorder ∨ a = t.nil) → t'.heap a = t.heap a) (hT : T.inorder = xs ++ z :: ys)
    (hT' : T'.inorder = xs ++ ys) (hz : chain z = []) :
    Store keyOf slots [z] free t' T' chain ∧ (rows chain T.inorder).Perm (z :: rows chain T'.inorder) := by
  have hsub : ∀ a ∈ T'.inorder, a ∈ T.inorder := by
    intro a ha
    rw [hT'] at ha
    rw [hT]
    simp only [List.mem_append, List.mem_cons] at ha ⊢
    tauto
  have hrows : (rows chain T.inorder).Perm (z :: rows chain T'.inorder) := by
    rw [hT, hT']
    exact rows_insert_perm chain xs ys hz
  refine ⟨⟨hrep, hrb, hsorted, fun a ha => ?_, fun a ha b hb => ?_, ?_, ?_, ?_, h.nodup, ?_, h.length_lt⟩, hrows⟩
  · exact listAt_congr (fun b _ => hlist b) (h.chains a (hsub a ha))
  · rw [Bst.key, Bst.key, hvalue, hvalue]
    exact h.keys a (hsub a ha) b hb
  · rw [hfl]
    refine listAt_congr (fun a ha => ?_) h.freeList
    rw [Bst.nextFree, Bst.nextFree, hheap]
    rintro (hm | rfl)
    · exact h.free_notMem_rows ha (mem_rows_head (hsub a hm))
    · exact (h.place _ (h.mem_slots (.inr (.inl ha)))).2 rfl
  · rw [hfl]
    exact h.count
  · refine List.Perm.trans ?_ h.perm
    refine List.Perm.trans ?_ (hrows.symm.append_left free)
    rw [List.singleton_append]
    exact List.perm_middle.symm
  · rw [hn]
    exact h.place

end Store

end FileSync.SearchTree
