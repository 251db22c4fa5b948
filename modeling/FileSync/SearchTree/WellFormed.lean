import FileSync.SearchTree.TreeSteps

/-!
# Insertion and deletion in a well-formed tree

The tree alone, without its cache, its chains and its free list. `bst_insert` where
`bst_find` ends, and `bst_delete` of any linked node, keep a red-black search tree
one, and no assertion fails on the way.

`bst_find` goes to the left wherever the comparison is negative, but `bst_insert`
links to the left only where it is -1. The two agree if the comparison function
returns only -1, 0 and 1; otherwise it depends on what it returns at the next larger
node (`LinksLeft`).
-/

namespace FileSync.SearchTree

open FileSync.Lib ColorTree

variable {K V : Type} [LinearOrder K] {cmp : K → V → Int} {keyOf : V → K} {t t' : Bst V} {T T' : ColorTree Addr}
  {C : List (Frame Addr)} {x : Addr}

/-- **A well-formed tree**: the links are those of a red-black tree, with its parent
pointers and its black sentinel, and the keys increase from left to right. -/
structure WellFormed (keyOf : V → K) (t : Bst V) (T : ColorTree Addr) : Prop where
  /-- It is in memory. -/
  rep : Represents t T
  /-- It is balanced. -/
  redBlack : T.IsRedBlack
  /-- Its keys increase. -/
  sorted : Sorted keyOf t T

theorem TreeInv.wellFormed (h : TreeInv keyOf t T) : WellFormed keyOf t T := ⟨h.rep, h.redBlack, h.sorted⟩

/-! ### Search -/

/-- What `bst_find` answers: the node with the key, or `nil`. -/
def Answers (keyOf : V → K) (t : Bst V) (T : ColorTree Addr) (k : K) (a : Addr) : Prop :=
  a ∈ T.inorder ∧ t.key keyOf a = k ∨ a = t.nil ∧ ∀ b ∈ T.inorder, t.key keyOf b ≠ k

/-- Nodes with the same key are the same. -/
theorem Sorted.key_inj (h : Sorted keyOf t T) {a b : Addr} (ha : a ∈ T.inorder) (hb : b ∈ T.inorder)
    (hab : t.key keyOf a = t.key keyOf b) : a = b := by
  have hnodup : (T.inorder.map (t.key keyOf)).Nodup := List.pairwise_map.mpr (List.Pairwise.imp (fun h => h.ne) h)
  exact List.inj_on_of_nodup_map hnodup ha hb hab

/-- There is only one answer. -/
theorem Answers.unique {k : K} {a b : Addr} (h : Sorted keyOf t T) (ha : Answers keyOf t T k a)
    (hb : Answers keyOf t T k b) : a = b := by
  rcases ha with ⟨hma, hka⟩ | ⟨rfl, hna⟩
  · rcases hb with ⟨hmb, hkb⟩ | ⟨-, hnb⟩
    · exact h.key_inj hma hmb (hka.trans hkb.symm)
    · exact absurd hka (hnb a hma)
  · rcases hb with ⟨hmb, hkb⟩ | ⟨rfl, -⟩
    · exact absurd hkb (hna b hmb)
    · rfl

theorem bstFind_answers (hcmp : Compares cmp keyOf) (h : WellFormed keyOf t T) (k : K) {fuel : ℕ}
    (hfuel : T.size < fuel) : ∃ l, bstFind cmp fuel t k = some l ∧ Answers keyOf t T k l.node := by
  obtain ⟨l, e, hl⟩ := bstFind_spec hcmp h.rep h.sorted k hfuel
  refine ⟨l, e, ?_⟩
  rcases hl with ⟨rfl, hk⟩ | ⟨rfl, hnode, hole⟩
  · exact .inl ⟨by simp [mem_inorder_plug], hk⟩
  · exact .inr ⟨hnode, fun b hb => (hole.key_ne hb).symm⟩

/-! ### Insertion -/

/-- The comparison with the next larger node, if it has no left child: `bst_insert` links
the new node to the left of it only if this is -1. -/
def LinksLeft (cmp : K → V → Int) (keyOf : V → K) (t : Bst V) (k : K) : Prop :=
  ∀ a, InTree t a → k < t.key keyOf a → (∀ b, InTree t b → k < t.key keyOf b → t.key keyOf a ≤ t.key keyOf b) →
    t.child .left a = t.nil → cmp k (t.value a) = -1

/-- A hole on the left of a node: that node is the next larger one. -/
theorem key_le_of_hole {k : K} {f : Frame Addr} {parent : Addr} {parentCmp : Int}
    (hole : HoleFor cmp keyOf t k (f :: C) parent parentCmp) (hs : Sorted keyOf t (plug (f :: C) leaf))
    (hside : f.side = .left) {b : Addr} (hb : b ∈ (plug (f :: C) leaf).inorder) (hk : k < t.key keyOf b) :
    t.key keyOf f.addr ≤ t.key keyOf b := by
  have hafter : after (f :: C) = f.addr :: (f.sib.inorder ++ after C) := by
    rw [after, hside]
    rfl
  rw [Sorted, inorder_plug, inorder_leaf, List.append_nil, hafter, List.pairwise_append, List.pairwise_cons] at hs
  rw [inorder_plug, inorder_leaf, List.append_nil, hafter, List.mem_append, List.mem_cons] at hb
  rcases hb with hb | rfl | hb
  · exact absurd hk (hole.before b hb).not_gt
  · exact le_rfl
  · exact (hs.2.1.1 b hb).le

/-- Where the comparison is right at the next larger node, `bst_insert` links to the side of
the hole. -/
theorem side_of_hole {k : K} {parent : Addr} {parentCmp : Int} (hcmp : Compares cmp keyOf)
    (h : WellFormed keyOf t (plug C leaf)) (hole : HoleFor cmp keyOf t k C parent parentCmp)
    (hleft : LinksLeft cmp keyOf t k) {f : Frame Addr} {D : List (Frame Addr)} (hC : C = f :: D) :
    parentCmp ≠ 0 ∧ (parentCmp = -1 ↔ f.side = .left) := by
  subst hC
  obtain ⟨rfl, hlt, hgt⟩ := hole.cmp f D rfl
  have hmem : f.addr ∈ (plug (f :: D) leaf).inorder := by simp [mem_inorder_plug]
  cases hside : f.side with
  | left =>
    have hnil : t.child .left f.addr = t.nil := by
      have hrep := h.rep
      rw [plug_cons, hside] at hrep
      exact hrep.links.1
    have hone := hleft f.addr (h.rep.inTree_iff.mpr hmem) (hlt hside)
      (fun b hb hk => key_le_of_hole hole h.sorted hside (h.rep.inTree_iff.mp hb) hk) hnil
    simp [hone]
  | right =>
    have hk := hgt hside
    have hnneg : ¬ cmp k (t.value f.addr) < 0 := fun e => hk.not_gt ((hcmp.lt_iff _ _).mp e)
    refine ⟨fun e => hk.ne' ((hcmp.eq_iff _ _).mp e), fun e => ?_, fun e => by cases e⟩
    rw [e] at hnneg
    exact absurd (by decide) hnneg

/-- What an insertion does: the node is at its place in a well-formed tree, and no assertion
has failed. -/
structure Inserted (keyOf : V → K) (t : Bst V) (T : ColorTree Addr) (x : Addr) (t' : Bst V) (T' : ColorTree Addr) :
    Prop where
  wellFormed : WellFormed keyOf t' T'
  inorder : ∃ xs ys, T.inorder = xs ++ ys ∧ T'.inorder = xs ++ x :: ys
  value : ∀ a, t'.value a = t.value a
  nil : t'.nil = t.nil
  asserts : t'.assertsHeld = t.assertsHeld

theorem WellFormed.insert {fuel : ℕ} (hcmp : Compares cmp keyOf) (h : WellFormed keyOf t T) (hx : IsPlace x)
    (hxn : x ≠ t.nil) (hxT : x ∉ T.inorder) (habs : ∀ a ∈ T.inorder, t.key keyOf a ≠ t.key keyOf x)
    (hleft : LinksLeft cmp keyOf t (t.key keyOf x)) (hfuel : T.size < fuel) :
    ∃ l t' T', bstFind cmp fuel t (t.key keyOf x) = some l ∧ bstInsert fuel t x l = some t' ∧
      Inserted keyOf t T x t' T' := by
  obtain ⟨l, el, hl⟩ := bstFind_spec hcmp h.rep h.sorted (t.key keyOf x) hfuel
  rcases hl with ⟨hT, hk⟩ | ⟨rfl, hnode, hole⟩
  · refine absurd hk (habs l.node ?_)
    rw [hT]
    simp [mem_inorder_plug]
  · obtain ⟨t', T', e, hrep, hrb, hin, hkeep, -⟩ := bstInsert_spec h.rep h.redBlack hx hxn hxT hnode hole.parent
      (fun f D hC => side_of_hole hcmp h hole hleft hC) hfuel
    refine ⟨l, t', T', el, e, ⟨hrep, hrb, ?_⟩, ⟨_, _, ?_, hin⟩, hkeep.value, hkeep.nil, hkeep.assertsHeld⟩
    · have hval : ∀ a, t'.key keyOf a = t.key keyOf a := fun a => by rw [Bst.key, Bst.key, hkeep.value]
      rw [Sorted, hin]
      simp only [hval]
      exact pairwise_of_hole hole h.sorted rfl
    · rw [inorder_plug, inorder_leaf, List.append_nil]

/-- What a deletion does: the node is gone from a well-formed tree, the others are as they
were, the sentinel is black and has itself for children, and no assertion has failed. -/
structure Deleted (keyOf : V → K) (t : Bst V) (T : ColorTree Addr) (z : Addr) (t' : Bst V) (T' : ColorTree Addr) :
    Prop where
  wellFormed : WellFormed keyOf t' T'
  inorder : ∃ xs ys, T.inorder = xs ++ z :: ys ∧ T'.inorder = xs ++ ys
  value : ∀ a, t'.value a = t.value a
  list : ∀ a, t'.list a = t.list a
  nil : t'.nil = t.nil
  nilColor : bstColor t' t.nil = .black
  nilChild : ∀ d, t'.child d t.nil = t.nil
  asserts : t'.assertsHeld = t.assertsHeld

/-- **Deletion.** `bst_delete` takes any linked node out of a well-formed tree. -/
theorem bstDelete_wellFormed {z : Addr} {fuel : ℕ} (h : WellFormed keyOf t T) (hz : z ∈ T.inorder)
    (hfuel : T.size < fuel) : ∃ t' T', bstDelete fuel t z = some t' ∧ Deleted keyOf t T z t' T' := by
  obtain ⟨t', T', xs, ys, e, hrep, hrb, hxs, hys, hkeep⟩ := bstDelete_spec h.rep h.redBlack hz hfuel
  have hval : ∀ a, t'.key keyOf a = t.key keyOf a := fun a => by rw [Bst.key, Bst.key, hkeep.value]
  have hsorted : Sorted keyOf t' T' := by
    have hs := h.sorted
    rw [Sorted, hxs] at hs
    rw [Sorted, hys]
    simp only [hval]
    exact hs.sublist (List.Sublist.append_left (List.sublist_cons_self z ys) xs)
  refine ⟨t', T', e, ⟨hrep, hrb, hsorted⟩, ⟨xs, ys, hxs, hys⟩, hkeep.value, hkeep.list, hkeep.nil, ?_, ?_,
    hkeep.assertsHeld⟩
  · rw [← hkeep.nil]
    exact hrep.nilColor
  · rw [← hkeep.nil]
    exact hrep.nilChild

/-- A tree of three numbers, with a black root and red children. -/
def threeNatTree : Bst ℕ where
  root := 128
  nil := 64
  heap := Function.update (Function.update (Function.update (Function.update (fun _ => ⟨0, 0, 0, 0, 0⟩)
    64 ⟨64 ||| 1, 64, 64, 0, 0⟩) 128 ⟨64 ||| 1, 256, 192, 0, 2⟩) 192 ⟨128, 64, 64, 0, 1⟩) 256 ⟨128, 64, 64, 0, 3⟩
  cache := { smallest := 192, largest := 256, previous := 64 }
  valueOffset := 32
  valueSize := 8
  freeList := { list := NULL, count := 0 }
  assertsHeld := true

theorem threeNatTree_wellFormed :
    WellFormed id threeNatTree (node .black (node .red leaf 192 leaf) 128 (node .red leaf 256 leaf)) := by
  refine ⟨⟨rfl, ?_, by decide, ?_, by decide, by decide, ?_⟩, ⟨rfl, 1, ?_⟩, ?_⟩
  · exact ⟨by decide, by decide, by decide, by decide, ⟨by decide, by decide, by decide, by decide, trivial, trivial⟩,
      ⟨by decide, by decide, by decide, by decide, trivial, trivial⟩⟩
  · intro a ha
    have hcases : a = 192 ∨ a = 128 ∨ a = 256 := by simpa using ha
    rcases hcases with rfl | rfl | rfl <;> decide
  · intro d
    cases d <;> decide
  · have hred : ∀ a : Addr, (node .red leaf a leaf).Balanced 0 := fun a => ⟨fun _ => ⟨rfl, rfl⟩, 0, rfl, rfl, rfl⟩
    exact ⟨nofun, 0, rfl, hred 192, hred 256⟩
  · show [192, 128, 256].Pairwise fun a b => threeNatTree.key id a < threeNatTree.key id b
    decide

/-- The deletion of a root with two children. -/
theorem bstDelete_wellFormed_root : ∃ t' T', bstDelete 4 threeNatTree 128 = some t' ∧
    Deleted id threeNatTree (node .black (node .red leaf 192 leaf) 128 (node .red leaf 256 leaf)) 128 t' T' := by
  apply bstDelete_wellFormed threeNatTree_wellFormed
  · decide
  · decide

/-! ### Insertions with any comparison function -/

variable (cmp keyOf)

/-- An insertion through `bst_find` and `bst_insert`. -/
def insertStep (fuel : ℕ) (t : Bst V) (x : Addr) (v : V) : Option (Bst V) := do
  let t := bstPackNode t x v
  let location ← bstFind cmp fuel t (keyOf v)
  bstInsert fuel t x location

/-- A sequence of insertions. -/
def insertRun (fuel : ℕ) : Bst V → List (Addr × V) → Option (Bst V)
  | t, [] => some t
  | t, (x, v) :: ins => (insertStep cmp keyOf fuel t x v).bind fun t' => insertRun fuel t' ins

/-- In the state before each insertion the comparison with the next larger node is -1 if
that node has no left child. -/
def RunLinksLeft (fuel : ℕ) : Bst V → List (Addr × V) → Prop
  | _, [] => True
  | t, (x, v) :: ins =>
    LinksLeft cmp keyOf t (keyOf v) ∧ ∀ t', insertStep cmp keyOf fuel t x v = some t' → RunLinksLeft fuel t' ins

/-- Different nodes, none of them the sentinel, with different keys. -/
structure NewNodes (nil : Addr) (ins : List (Addr × V)) : Prop where
  place : ∀ p ∈ ins, IsPlace p.1 ∧ p.1 ≠ nil
  nodup : (ins.map Prod.fst).Nodup
  keys : (ins.map fun p => keyOf p.2).Nodup

omit [LinearOrder K] in
theorem NewNodes.of_append {keyOf : V → K} {nil : Addr} {ins rest : List (Addr × V)}
    (h : NewNodes keyOf nil (ins ++ rest)) : NewNodes keyOf nil ins := by
  obtain ⟨hplace, hnodup, hkeys⟩ := h
  rw [List.map_append] at hnodup hkeys
  exact ⟨fun p hp => hplace p (List.mem_append_left rest hp), hnodup.of_append_left, hkeys.of_append_left⟩

/-- The tree has exactly the nodes that have been inserted, strictly ordered under the
comparison function, and `bst_find` finds each by its key. -/
def FindsAll (t : Bst V) (ins : List (Addr × V)) : Prop :=
  (∃ xs, Traversal t t.root xs ∧ xs.Perm (ins.map Prod.fst) ∧
    xs.Pairwise fun a b => cmp (t.key keyOf a) (t.value b) < 0) ∧
  ∀ p ∈ ins, ∀ fuel, ins.length < fuel → ∃ l, bstFind cmp fuel t (keyOf p.2) = some l ∧ l.node = p.1

variable {cmp keyOf}

/-- The tree after some insertions. -/
structure Built (keyOf : V → K) (t : Bst V) (T : ColorTree Addr) (ins : List (Addr × V)) : Prop where
  wellFormed : WellFormed keyOf t T
  nodes : T.inorder.Perm (ins.map Prod.fst)
  value : ∀ p ∈ ins, t.value p.1 = p.2

theorem Built.size {ins : List (Addr × V)} (h : Built keyOf t T ins) : T.size = ins.length := by
  rw [← length_inorder, h.nodes.length_eq, List.length_map]

theorem Built.findsAll {ins : List (Addr × V)} (hcmp : Compares cmp keyOf) (h : Built keyOf t T ins) :
    FindsAll cmp keyOf t ins := by
  constructor
  · refine ⟨T.inorder, h.wellFormed.rep.traversal, h.nodes, ?_⟩
    exact h.wellFormed.sorted.imp fun hlt => (hcmp.lt_iff _ _).mpr hlt
  · intro p hp fuel hfuel
    rw [← h.size] at hfuel
    obtain ⟨l, e, hl⟩ := bstFind_answers hcmp h.wellFormed (keyOf p.2) hfuel
    refine ⟨l, e, hl.unique h.wellFormed.sorted (.inl ⟨?_, ?_⟩)⟩
    · exact h.nodes.mem_iff.mpr (List.mem_map_of_mem hp)
    · rw [Bst.key, h.value p hp]

/-- Writing a value to a node that is not linked. -/
theorem WellFormed.pack (h : WellFormed keyOf t T) (hx : x ∉ T.inorder) (v : V) :
    WellFormed keyOf (bstPackNode t x v) T := by
  exact ⟨h.rep.congr rfl rfl fun a _ => sameLinks_packNode t x v a, h.redBlack, sorted_packNode h.sorted hx v⟩

theorem packNode_value (hx : x ∉ T.inorder) (v : V) {a : Addr} (ha : a ∈ T.inorder) :
    (bstPackNode t x v).value a = t.value a := by
  have hax : a ≠ x := fun e => hx (e ▸ ha)
  simp [bstPackNode, Bst.value, hax]

theorem linksLeft_packNode {k : K} (h : WellFormed keyOf t T) (hx : x ∉ T.inorder) (v : V)
    (hleft : LinksLeft cmp keyOf t k) : LinksLeft cmp keyOf (bstPackNode t x v) k := by
  intro a ha hk hmin hnil
  have hmem : ∀ b, InTree (bstPackNode t x v) b ↔ InTree t b := by
    intro b
    rw [(h.pack hx v).rep.inTree_iff, h.rep.inTree_iff]
  have hval : ∀ b, InTree t b → (bstPackNode t x v).value b = t.value b := fun b hb =>
    packNode_value hx v (h.rep.inTree_iff.mp hb)
  have hat := (hmem a).mp ha
  rw [hval a hat]
  rw [Bst.key, hval a hat] at hk hmin
  refine hleft a hat hk (fun b hb hkb => ?_) ?_
  · have hle := hmin b ((hmem b).mpr hb)
    rw [Bst.key, hval b hb] at hle
    exact hle hkb
  · rw [← (sameLinks_packNode t x v a).1 .left]
    exact hnil

/-- An insertion adds its node. -/
theorem Built.step {ins : List (Addr × V)} {v : V} {fuel : ℕ} (hcmp : Compares cmp keyOf) (h : Built keyOf t T ins)
    (hf : NewNodes keyOf t.nil (ins ++ [(x, v)])) (hleft : LinksLeft cmp keyOf t (keyOf v)) (hfuel : ins.length < fuel) :
    ∃ t' T', insertStep cmp keyOf fuel t x v = some t' ∧ Built keyOf t' T' (ins ++ [(x, v)]) ∧ t'.nil = t.nil := by
  obtain ⟨hplace, hnodup, hkeys⟩ := hf
  rw [List.map_append, List.nodup_append] at hnodup hkeys
  have hx : x ∉ T.inorder := by
    intro hm
    exact hnodup.2.2 x (h.nodes.mem_iff.mp hm) x (by simp) rfl
  have hother : ∀ a ∈ T.inorder, (bstPackNode t x v).value a = t.value a := fun a ha => packNode_value hx v ha
  have hkey : (bstPackNode t x v).key keyOf x = keyOf v := by simp [bstPackNode, Bst.key, Bst.value]
  have habs : ∀ a ∈ T.inorder, (bstPackNode t x v).key keyOf a ≠ keyOf v := by
    intro a ha
    obtain ⟨p, hp, rfl⟩ := List.mem_map.mp (h.nodes.mem_iff.mp ha)
    rw [Bst.key, hother p.1 ha, h.value p hp]
    exact hkeys.2.2 _ (List.mem_map_of_mem hp) _ (by simp)
  have hp := hplace (x, v) (by simp)
  rw [← h.size] at hfuel
  rw [← hkey] at habs
  have hleft' : LinksLeft cmp keyOf (bstPackNode t x v) ((bstPackNode t x v).key keyOf x) := by
    rw [hkey]
    exact linksLeft_packNode h.wellFormed hx v hleft
  obtain ⟨l, t', T', el, e, hins⟩ := (h.wellFormed.pack hx v).insert hcmp hp.1 hp.2 hx habs hleft' hfuel
  refine ⟨t', T', ?_, ⟨hins.wellFormed, ?_, ?_⟩, hins.nil⟩
  · rw [hkey] at el
    simp only [insertStep, el, Option.bind_eq_bind, Option.bind_some, e]
  · obtain ⟨xs, ys, hT, hT'⟩ := hins.inorder
    have hn := h.nodes
    rw [hT] at hn
    rw [hT', List.map_append]
    refine List.perm_middle.trans ((hn.cons x).trans ?_)
    exact (List.perm_append_singleton x _).symm
  · intro p hp
    rw [hins.value]
    rcases List.mem_append.mp hp with hp | hp
    · rw [hother p.1 (h.nodes.mem_iff.mpr (List.mem_map_of_mem hp)), h.value p hp]
    · rw [List.mem_singleton.mp hp]
      simp [bstPackNode, Bst.value]

theorem Built.run {ins rest : List (Addr × V)} {fuel : ℕ} (hcmp : Compares cmp keyOf) (h : Built keyOf t T ins)
    (hf : NewNodes keyOf t.nil (ins ++ rest)) (hleft : RunLinksLeft cmp keyOf fuel t rest)
    (hfuel : (ins ++ rest).length ≤ fuel) :
    ∃ t' T', insertRun cmp keyOf fuel t rest = some t' ∧ Built keyOf t' T' (ins ++ rest) := by
  induction rest generalizing t T ins with
  | nil =>
    rw [List.append_nil]
    exact ⟨t, T, rfl, h⟩
  | cons p rest ih =>
    obtain ⟨x, v⟩ := p
    rw [List.append_cons] at hf hfuel ⊢
    have hf₁ : NewNodes keyOf t.nil (ins ++ [(x, v)]) := hf.of_append
    have hfuel₁ : ins.length < fuel := by
      simp only [List.length_append, List.length_singleton] at hfuel
      omega
    obtain ⟨t₁, T₁, e, h₁, hnil⟩ := h.step hcmp hf₁ hleft.1 hfuel₁
    rw [← hnil] at hf
    obtain ⟨t', T', e', h'⟩ := ih h₁ hf (hleft.2 t₁ e) hfuel
    exact ⟨t', T', by rw [insertRun, e, Option.bind_some, e'], h'⟩

/-- **Any comparison function.** A run of insertions in which the comparison with the next
larger node is always -1 where that node has no left child leaves a tree that is strictly
ordered, and `bst_find` finds every key. -/
theorem insertRun_findsAll {ins : List (Addr × V)} {fuel : ℕ} (hcmp : Compares cmp keyOf) (h : EmptyTree t)
    (hf : NewNodes keyOf t.nil ins) (hleft : RunLinksLeft cmp keyOf fuel t ins) (hfuel : ins.length ≤ fuel) :
    ∃ t', insertRun cmp keyOf fuel t ins = some t' ∧ FindsAll cmp keyOf t' ins := by
  have h₀ : Built keyOf t leaf [] := ⟨h.inv.wellFormed, by simp, by simp⟩
  obtain ⟨t', T', e, h'⟩ := h₀.run hcmp hf hleft hfuel
  exact ⟨t', e, h'.findsAll hcmp⟩

/-- A comparison function as the C library's: the difference. -/
def diffCmp (k v : ℕ) : Int := (k : Int) - v

theorem diffCmp_compares : Compares diffCmp id := by
  constructor
  · intro k v
    simp [diffCmp]
  · intro k v
    simp only [diffCmp, id]
    omega

theorem newNodes_pair {v w : ℕ} (h : v ≠ w) : NewNodes id (emptyNatTree 64).nil [(4096, v), (4160, w)] := by
  have hplace : ∀ a ∈ [(4096 : Addr), 4160], IsPlace a ∧ a ≠ (emptyNatTree 64).nil := by
    intro a ha
    rcases List.mem_pair.mp ha with rfl | rfl <;> decide
  refine ⟨fun p hp => hplace p.1 (List.mem_map_of_mem hp), ?_, by simpa using h⟩
  show [(4096 : Addr), 4160].Nodup
  decide

/-- What is in the tree of one node. -/
theorem eq_root_of_inTree {t : Bst V} (hchild : ∀ d, t.child d t.root = t.nil) {a : Addr} (h : InTree t a) :
    a = t.root := by
  induction h with
  | root _ => rfl
  | child d _ hne ih =>
    rw [ih] at hne
    exact absurd (hchild d) hne

/-- The insertion of 3 and then of 2 works: the difference is -1. -/
theorem insertRun_findsAll_three_two : ∃ t', insertRun diffCmp id 2 (emptyNatTree 64) [(4096, 3), (4160, 2)] =
    some t' ∧ FindsAll diffCmp id t' [(4096, 3), (4160, 2)] := by
  apply insertRun_findsAll diffCmp_compares emptyNatTree_empty (newNodes_pair (by decide))
  · refine ⟨fun a ha => absurd ha (not_inTree_of_root rfl), fun t' ht => ⟨fun a ha _ _ _ => ?_, fun _ _ => trivial⟩⟩
    have hr : (insertStep diffCmp id 2 (emptyNatTree 64) 4096 3).map (fun t => (t.child .left t.root = t.nil ∧
        t.child .right t.root = t.nil ∧ t.value t.root = 3 : Bool)) = some true := by decide +kernel
    rw [ht, Option.map_some, Option.some.injEq, decide_eq_true_iff] at hr
    obtain ⟨hl, hr, hv⟩ := hr
    rw [eq_root_of_inTree (fun d => by cases d <;> assumption) ha, hv]
    rfl
  · decide

/-- The insertion of 3 and then of 1 does not: `bst_find` goes to the left of 3 and
`bst_insert` links to the right. -/
theorem not_findsAll_three_one : Compares diffCmp id ∧ EmptyTree (emptyNatTree 64) ∧
    NewNodes id (emptyNatTree 64).nil [(4096, 3), (4160, 1)] ∧
      ∃ t', insertRun diffCmp id 2 (emptyNatTree 64) [(4096, 3), (4160, 1)] = some t' ∧
        ¬ FindsAll diffCmp id t' [(4096, 3), (4160, 1)] := by
  refine ⟨diffCmp_compares, emptyNatTree_empty, newNodes_pair (by decide), ?_⟩
  have hfind : (insertRun diffCmp id 2 (emptyNatTree 64) [(4096, 3), (4160, 1)]).bind
      (fun t => (bstFind diffCmp 3 t 1).map (·.node)) = some 64 := by decide +kernel
  obtain ⟨t', e, hnode⟩ := Option.bind_eq_some_iff.mp hfind
  refine ⟨t', e, fun h => ?_⟩
  obtain ⟨l, el, hl⟩ := h.2 (4160, 1) (by simp) 3 (by decide)
  rw [show bstFind diffCmp 3 t' 1 = some l from el, Option.map_some, hl] at hnode
  exact absurd hnode (by decide)

end FileSync.SearchTree
