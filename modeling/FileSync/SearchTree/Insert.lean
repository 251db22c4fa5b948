import FileSync.SearchTree.Rotate

/-!
# Insertion

`bst_fixup_insert` restores the red-black property after a red node was hung on
a leaf, and `bst_insert` puts a node where `bst_find` said it belongs.

The loop of the fix-up works on a red node in a context. Its invariant
(`FixupInv`) is that the subtree is balanced, that the context accepts it, and
that the only thing that may be wrong is a red parent of the node. A turn climbs
two levels by recolouring, or repairs the tree with one or two rotations.
-/

namespace FileSync.SearchTree

open FileSync.Lib ColorTree

variable {V : Type} {t t₀ : Bst V} {xs : List Addr} {A B S F U : ColorTree Addr} {C : List (Frame Addr)}

/-! ### A turn of the loop -/

/-- The uncle is red: the parent and it become black, the grandparent red. -/
theorem fixupInsertSide_recolor {d e : Side} (node : Addr) {p g u : Addr} {U₁ U₂ : ColorTree Addr}
    (h : Reshapes t₀ xs t (plug C (branch d .black (branch e .red A p B) g (branch d .red U₁ u U₂)))) :
    ∃ t', bstFixupInsertSide d t node p g = .again (t', g) ∧ Reshapes t₀ xs t'
      (plug C (branch d .red (branch e .black A p B) g (branch d .black U₁ u U₂))) := by
  have hu : t.child d.flip g = u := by simpa using h.rep.links.2.1
  have hfar := h
  rw [← plug_far] at hfar
  have hcol : bstColor t u = .red := by simpa using hfar.rep.color
  have hpl : u ≠ NULL := by simpa using hfar.rep.rootOr_place.1
  refine ⟨bstSetColor (bstSetColor (bstSetColor t p .black) u .black) g .red, ?_, ?_⟩
  · simp only [bstFixupInsertSide, hu, Bst.touch_of _ hpl, hcol, if_true]
  · rw [← plug_near] at h
    have h2 := h.setColor .black
    rw [plug_near, ← plug_far] at h2
    have h3 := h2.setColor .black
    rw [plug_far] at h3
    exact h3.setColor .red

/-- What both repairs start with: the uncle is black. -/
theorem fixupInsertSide_black {d : Side} {node p g : Addr}
    (h : Reshapes t₀ xs t (plug C (branch d .black S g U))) (hU : U.rootColor = .black) :
    bstFixupInsertSide d t node p g =
      (let s : Bst V × Addr :=
        if node = t.child d.flip p then
          ((bstRotate d t p).touch p, bstParent ((bstRotate d t p).touch p) p)
        else (t, p)
      .leave (bstRotate d.flip (bstSetColor (bstSetColor s.1 s.2 .black) g .red) g)) := by
  have hu : t.child d.flip g = U.rootOr t.nil := h.rep.links.2.1
  rw [← plug_far] at h
  have hcol : bstColor t (U.rootOr t.nil) = .black := by rw [h.rep.color, hU]
  simp only [bstFixupInsertSide, hu, Bst.touch_of _ h.rep.rootOr_place.1, hcol]
  rfl

/-- The uncle is black and the node on the outside: one rotation. -/
theorem fixupInsertSide_outer {d : Side} {x p g : Addr}
    (h : Reshapes t₀ xs t (plug C (branch d .black (branch d .red (branch d .red A x B) p F) g U)))
    (hU : U.rootColor = .black) :
    ∃ t', bstFixupInsertSide d t x p g = .leave t' ∧ Reshapes t₀ xs t'
      (plug C (branch d .black (branch d .red A x B) p (branch d .red F g U))) := by
  refine ⟨_, fixupInsertSide_black h hU, ?_⟩
  have hnear := h
  rw [← plug_near] at hnear
  -- the node is the near child, so it is not the far one
  have hx : x ≠ t.child d.flip p := by
    rw [hnear.rep.links.2.1]
    intro e
    have hnd := (nodup_inorder_branch.mp (nodup_inorder_plug.mp hnear.rep.nodup).2.1).2.2.2.2 x (by simp)
    refine hnd (e ▸ @rootOr_mem_of_ne _ _ t.nil fun hn => ?_)
    exact (hnear.rep.place x (by simp [mem_inorder_plug])).2 (e.trans hn)
  rw [if_neg hx]
  have h1 := hnear.setColor .black
  rw [plug_near] at h1
  exact (h1.setColor .red).rotateBack

/-- The uncle is black and the node on the inside: two rotations. -/
theorem fixupInsertSide_inner {d : Side} {x p g : Addr}
    (h : Reshapes t₀ xs t (plug C (branch d .black (branch d .red F p (branch d .red A x B)) g U)))
    (hU : U.rootColor = .black) :
    ∃ t', bstFixupInsertSide d t x p g = .leave t' ∧ Reshapes t₀ xs t'
      (plug C (branch d .black (branch d .red F p A) x (branch d .red B g U))) := by
  refine ⟨_, fixupInsertSide_black h hU, ?_⟩
  have hnear := h
  rw [← plug_near] at hnear
  have hx : x = t.child d.flip p := by simpa using hnear.rep.links.2.1.symm
  have hrot := hnear.rotate
  have hpN : p ≠ NULL := (hnear.rep.place p (by simp [mem_inorder_plug])).1.1
  -- after the first rotation the parent of `p` is the node that was inserted
  have hpar : bstParent (bstRotate d t p) p = x := by
    have := hrot
    rw [← plug_near] at this
    exact this.rep.links.2.2.1
  rw [if_pos hx, Bst.touch_of _ hpN, hpar]
  have h1 := hrot.setColor .black
  rw [plug_near] at h1
  exact (h1.setColor .red).rotateBack

/-- The two branches of the loop: the parent is at some side of the grandparent. -/
theorem fixupInsertTurn_red {f g : Frame Addr} {x : Addr} {d : Side} {c : Color}
    (h : Reshapes t₀ xs t (plug (f :: g :: C) (branch d c A x B))) (hf : f.color = .red) :
    bstFixupInsertTurn (t, x) = bstFixupInsertSide g.side t x f.addr g.addr := by
  have hx := h.rep.links.2.2.1
  have hf' := h.rep
  rw [plug_cons] at hf'
  have hpf := hf'.links.2.2.1
  have hcf := hf'.links.2.2.2
  have hg' := hf'
  rw [plug_cons] at hg'
  rw [ctxParent_cons] at hx hpf
  have px : x ≠ NULL := (h.rep.place x (by simp [mem_inorder_plug])).1.1
  have pf : f.addr ≠ NULL := (h.rep.place f.addr (by simp [mem_inorder_plug])).1.1
  have hgn : g.addr ≠ t.nil := (h.rep.place g.addr (by simp [mem_inorder_plug])).2
  have hleft : f.addr = t.child .left g.addr ↔ g.side = .left := by
    have hl := hg'.links
    rw [rootOr_branch] at hl
    constructor
    · intro e
      by_contra hne
      have hflip : g.side.flip = .left := by cases hs : g.side <;> simp_all
      rw [hflip] at hl
      -- otherwise the parent would also be in the tree of the uncle
      have hnd := nodup_inorder_branch.mp (nodup_inorder_plug.mp hg'.nodup).2.1
      refine hnd.2.2.2.2 f.addr (by simp) ?_
      rw [e, hl.2.1]
      refine @rootOr_mem_of_ne _ _ t.nil ?_
      rw [← hl.2.1, ← e]
      exact (h.rep.place f.addr (by simp [mem_inorder_plug])).2
    · intro hs
      rw [hs] at hl
      exact hl.1.symm
  simp only [bstFixupInsertTurn, Bst.touch_of _ px, hx, Bst.touch_of _ pf, hcf, hf, if_true, hpf,
    Bst.assert_of _ hgn]
  cases hs : g.side
  · rw [if_pos (hleft.mpr hs)]
  · rw [if_neg fun e => by simp [hleft.mp e] at hs]

/-! ### The loop -/

/-- Along a straight path no rotation comes between the inserted node `x` and its
parent `p`: what is in the hole is `x` below `p`, or has the two below it. -/
def Straight (d : Side) (p x : Addr) (C : List (Frame Addr)) (S : ColorTree Addr) : Prop :=
  (∀ f ∈ C, f.side = d) ∧
    (ChildOf d S p x ∨ S.rootOr x = x ∧ ∃ f D, C = f :: D ∧ f.addr = p)

/-- Then `x` is the child of `p` in the whole tree. -/
theorem Straight.childOf {d : Side} {p x : Addr} (h : Straight d p x C S) (hS : S ≠ leaf) :
    ChildOf d (plug C S) p x := by
  obtain ⟨hd, h | ⟨hx, f, D, rfl, rfl⟩⟩ := h
  · exact h.plug C
  · rw [plug_cons, hd f (by simp)]
    exact ⟨D, f.color, S, f.sib, rfl, hS, hx⟩

/-- One level up. -/
theorem Straight.up {d : Side} {p x : Addr} {f : Frame Addr} (h : Straight d p x (f :: C) S)
    (hS : S ≠ leaf) (c : Color) : ChildOf d (branch f.side c S f.addr f.sib) p x := by
  obtain ⟨hd, h | ⟨hx, g, D, e, rfl⟩⟩ := h
  · exact h.plug [⟨f.side, c, f.addr, f.sib⟩]
  · cases e
    rw [hd f (by simp)]
    exact ⟨[], c, S, f.sib, rfl, hS, hx⟩

section Loop

variable (t₀ : Bst V) (xs : List Addr) (W : Prop) (d : Side) (p x₀ : Addr)

/-- The invariant of the loop of `bst_fixup_insert`: the subtree at the red node and the
context fit together, except that its parent may be red too. If the path was
straight to begin with (`W`), it still is. -/
def FixupInsertInv (k : ℕ) (s : Bst V × Addr) : Prop :=
  ∃ C A B n, Reshapes t₀ xs s.1 (plug C (branch .left .red A s.2 B)) ∧
    (branch .left .red A s.2 B).Balanced n ∧ Accepts C n ∧ topColor .black C = .black ∧
      (W → Straight d p x₀ C (branch .left .red A s.2 B)) ∧ C.length ≤ k

/-- What the loop of `bst_fixup_insert` leaves: a balanced tree, whose root may be red. -/
def FixupInsertPost (t : Bst V) : Prop :=
  ∃ T m, Reshapes t₀ xs t T ∧ T ≠ leaf ∧ T.Balanced m ∧ (W → ChildOf d T p x₀)

end Loop

/-- A red node whose parent is red: a turn that recolours or repairs. -/
theorem fixupInsertTurn_redred {W : Prop} {d : Side} {p x₀ x : Addr} {k n : ℕ} {f g : Frame Addr}
    (h : Reshapes t₀ xs t (plug (f :: g :: C) (branch .left .red A x B)))
    (hb : (branch .left .red A x B).Balanced n) (hC : Accepts (f :: g :: C) n)
    (htop : topColor .black (f :: g :: C) = .black)
    (hW : W → Straight d p x₀ (f :: g :: C) (branch .left .red A x B)) (hk : C.length + 2 ≤ k)
    (hred : f.color = .red) :
    TurnOk (FixupInsertInv t₀ xs W d p x₀) (FixupInsertPost t₀ xs W d p x₀) k
      (bstFixupInsertTurn (t, x)) := by
  obtain ⟨hfs, hfr, hgs, hgr, hC⟩ := hC
  obtain ⟨hfb, hgb⟩ := hfr hred
  rw [ctxColor_cons] at hgb
  rw [hred] at hgs
  rw [hred, hgb] at hC
  simp only [Color.weight_red, Color.weight_black, Nat.add_zero] at hgs hC
  simp only [topColor_cons] at htop
  rw [fixupInsertTurn_red h hred]
  rw [plug_cons, plug_cons, hred, hgb] at h
  rcases g.sib.rootColor.eq_red_or_black with hU | hU
  · obtain ⟨U₁, u, U₂, e⟩ := exists_branch_of_red g.side hU
    rw [e] at h hgs
    obtain ⟨t', e', h'⟩ := fixupInsertSide_recolor x h
    obtain ⟨A', B', eS⟩ := branch_eq_branch g.side .left .red
      (branch f.side .black (branch .left .red A x B) f.addr f.sib) (branch g.side .black U₁ u U₂) g.addr
    rw [e']
    rw [balanced_branch_red] at hgs
    refine ⟨C.length, by omega, C, A', B', n + 1, eS ▸ h', ?_, hC, ?_, fun hw => ?_, le_rfl⟩
    · rw [← eS, balanced_branch_red]
      exact ⟨by simp, by simp, balanced_branch_black.mpr ⟨n, rfl, hb, hfs⟩,
        balanced_branch_black.mpr ⟨n, rfl, hgs.2.2.1, hgs.2.2.2⟩⟩
    · cases C with
      | nil => rfl
      | cons _ _ => exact htop
    · refine ⟨fun f' hf' => (hW hw).1 f' (by simp [hf']), .inl ?_⟩
      simp only
      rw [← eS]
      exact ((hW hw).up branch_ne_leaf .black).plug [⟨g.side, .red, g.addr, _⟩]
  · obtain ⟨A', B', eS⟩ := branch_eq_branch .left g.side .red A B x
    rw [eS] at h hb hW
    rw [balanced_branch_red] at hb
    obtain ⟨hA, hB, bA, bB⟩ := hb
    rcases Side.eq_or_eq_flip g.side f.side with hs | hs
    · rw [hs] at h
      obtain ⟨t', e', h'⟩ := fixupInsertSide_outer h hU
      rw [e']
      obtain ⟨m, hm⟩ := balanced_plug (n := n + 1) (C := C)
        (t := branch g.side .black (branch g.side .red A' x B') f.addr (branch g.side .red f.sib g.addr g.sib))
        (balanced_branch_black.mpr ⟨n, rfl, balanced_branch_red.mpr ⟨hA, hB, bA, bB⟩,
          balanced_branch_red.mpr ⟨hfb, hU, hfs, hgs⟩⟩) hC (by simp)
      refine ⟨_, m, h', plug_branch_ne_leaf, hm, fun hw => ChildOf.plug ?_ C⟩
      obtain ⟨hd, hx | ⟨hx, f', D, e, rfl⟩⟩ := hW hw
      · exact hx.plug [⟨g.side, .black, f.addr, _⟩]
      · cases e
        rw [← hd g (by simp)]
        exact ⟨[], .black, _, _, rfl, branch_ne_leaf, hx⟩
    · rw [hs, branch_flip] at h
      obtain ⟨t', e', h'⟩ := fixupInsertSide_inner h hU
      rw [e']
      obtain ⟨m, hm⟩ := balanced_plug (n := n + 1) (C := C)
        (t := branch g.side .black (branch g.side .red f.sib f.addr A') x (branch g.side .red B' g.addr g.sib))
        (balanced_branch_black.mpr ⟨n, rfl, balanced_branch_red.mpr ⟨hfb, hA, hfs, bA⟩,
          balanced_branch_red.mpr ⟨hB, hU, bB, hgs⟩⟩) hC (by simp)
      refine ⟨_, m, h', plug_branch_ne_leaf, hm, fun hw => ?_⟩
      -- a node on the inside is not on a straight path
      have h1 := (hW hw).1 f (by simp)
      have h2 := (hW hw).1 g (by simp)
      rw [hs, h2] at h1
      exact absurd h1 (Side.flip_ne d)

theorem fixupInsertTurn_ok {W : Prop} {d : Side} {p x₀ : Addr} {k : ℕ} {s : Bst V × Addr}
    (hs : FixupInsertInv t₀ xs W d p x₀ k s) :
    TurnOk (FixupInsertInv t₀ xs W d p x₀) (FixupInsertPost t₀ xs W d p x₀) k (bstFixupInsertTurn s) := by
  obtain ⟨t, x⟩ := s
  obtain ⟨C, A, B, n, h, hb, hC, htop, hW, hk⟩ := hs
  simp only at h hb hW
  have px : x ≠ NULL := (h.rep.place x (by simp [mem_inorder_plug])).1.1
  have hpar := h.rep.links.2.2.1
  have ppar := h.rep.ctxParent_place.1
  -- a black parent, or none: the loop is left as it is
  have leave : bstColor t (ctxParent t.nil C) = .black → ctxColor C = .black →
      TurnOk (FixupInsertInv t₀ xs W d p x₀) (FixupInsertPost t₀ xs W d p x₀) k
        (bstFixupInsertTurn (t, x)) := by
    intro hcol hctx
    have e : bstFixupInsertTurn (t, x) = .leave t := by
      simp only [bstFixupInsertTurn, Bst.touch_of _ px, hpar, Bst.touch_of _ ppar, hcol]
      rfl
    rw [e]
    obtain ⟨m, hm⟩ := balanced_plug hb hC fun _ => hctx
    exact ⟨_, m, h, plug_branch_ne_leaf, hm, fun hw => (hW hw).childOf branch_ne_leaf⟩
  cases C with
  | nil => exact leave h.rep.nilColor rfl
  | cons f C =>
    have hf := h.rep
    rw [plug_cons] at hf
    rcases f.color.eq_red_or_black with hred | hblack
    · cases C with
      | nil => simp [hred] at htop
      | cons g C => exact fixupInsertTurn_redred h hb hC htop hW hk hred
    · exact leave (hf.links.2.2.2.trans hblack) hblack

/-- **`bst_fixup_insert`** makes a red-black tree with the same nodes in the same order,
and along a straight path it leaves the node below its parent. -/
theorem bstFixupInsert_spec {x : Addr} {n fuel : ℕ}
    (h : Represents t (plug C (branch .left .red A x B))) (hb : (branch .left .red A x B).Balanced n)
    (hC : Accepts C n) (htop : topColor .black C = .black) (hfuel : C.length < fuel) :
    ∃ t' T, bstFixupInsert fuel t x = some t' ∧
      Reshapes t (plug C (branch .left .red A x B)).inorder t' T ∧ T.IsRedBlack ∧
        ∀ f D, C = f :: D → (∀ g ∈ C, g.side = f.side) → t'.child f.side f.addr = x := by
  have px := h.place x (by simp [mem_inorder_plug])
  have hroot : t.root ≠ t.nil := by
    rw [h.root]
    exact (h.place _ (rootOr_mem _ plug_branch_ne_leaf)).2
  have hred : bstColor t x = .red := h.links.2.2.2
  -- the path to follow: the first frame of the context
  let d : Side := (C.head?.map Frame.side).getD .left
  let p : Addr := (C.head?.map Frame.addr).getD x
  have hstart : FixupInsertInv t (plug C (branch .left .red A x B)).inorder
      (C ≠ [] ∧ ∀ g ∈ C, g.side = d) d p x C.length (t, x) := by
    refine ⟨C, A, B, n, Reshapes.refl h, hb, hC, htop, fun hw => ⟨hw.2, .inr ⟨by simp, ?_⟩⟩, le_rfl⟩
    cases C with
    | nil => exact absurd rfl hw.1
    | cons f D => exact ⟨f, D, rfl, rfl⟩
  obtain ⟨t', hl, T, m, hT, hne, hm, hW⟩ :=
    loop_of_bound (fun k s hs => fixupInsertTurn_ok hs) hstart hfuel
  obtain ⟨c, A', r, B', rfl⟩ : ∃ c A' r B', T = branch .left c A' r B' :=
    (eq_leaf_or_branch .left T).resolve_left hne
  have hr : t'.root = r := by simpa using hT.rep.root
  refine ⟨bstSetColor t' t'.root .black, branch .left .black A' r B', ?_, ?_, ?_, ?_⟩
  · simp only [bstFixupInsert, Bst.assert_of _ px.2, Bst.assert_of _ hroot, Bst.touch_of _ px.1.1,
      Bst.assert_of _ hred, hl]
    rfl
  · rw [hr]
    exact Reshapes.setColor (C := []) hT .black
  · refine ⟨by simp, ?_⟩
    rw [balanced_branch] at hm
    obtain ⟨-, k, -, hA, hB⟩ := hm
    exact ⟨k + 1, balanced_branch_black.mpr ⟨k, rfl, hA, hB⟩⟩
  · rintro f D rfl hside
    obtain ⟨D', c', s, u, e, hs, hx⟩ := hW ⟨by simp, hside⟩
    have hrep := hT.rep
    rw [e] at hrep
    rw [Bst.child_setColor]
    refine hrep.links.1.trans ?_
    cases s with
    | leaf => exact absurd rfl hs
    | node _ _ _ _ => exact hx

/-! ### The insertion -/

/-- The pointer above a hole is written: the root, or the child of the last frame. -/
def Bst.hang (t : Bst V) (x : Addr) : List (Frame Addr) → Bst V
  | [] => { t with root := x }
  | f :: _ => t.setChild f.side f.addr x

/-- `bst_insert` up to the fix-up. -/
def hangNode (t : Bst V) (x : Addr) (C : List (Frame Addr)) : Bst V :=
  (bstSetParentColor ((t.setChild .left x t.nil).setChild .right x t.nil) x (ctxParent t.nil C) .red).hang x C

theorem bstInsert_eq {x : Addr} {fuel : ℕ} {l : Location} (h : Represents t (plug C leaf))
    (hnode : l.node = t.nil) (hpar : l.parent = ctxParent t.nil C)
    (hcmp : ∀ f D, C = f :: D → l.parentCmp ≠ 0 ∧ (l.parentCmp = -1 ↔ f.side = .left)) :
    bstInsert fuel t x l = bstFixupInsert fuel (hangNode t x C) x := by
  unfold bstInsert hangNode
  simp only [Bst.assert_of t hnode, hpar, Bst.nil_setChild]
  congr 1
  generalize ht : bstSetParentColor ((t.setChild .left x t.nil).setChild .right x t.nil) x
    (ctxParent t.nil C) .red = t2
  have hn : t2.nil = t.nil := by
    rw [← ht]
    rfl
  cases C with
  | nil =>
    have hr : t2.root = t2.nil := by
      rw [hn, ← ht]
      exact h.root
    rw [ctxParent_nil, if_pos hn.symm, Bst.assert_of t2 hr]
    rfl
  | cons f D =>
    obtain ⟨h0, h1⟩ := hcmp f D rfl
    have hf : f.addr ≠ t2.nil := by
      rw [hn]
      exact (h.place f.addr (by simp [mem_inorder_plug])).2
    rw [ctxParent_cons, if_neg hf, Bst.assert_of t2 h0, Bst.hang]
    cases hs : f.side
    · rw [if_pos (h1.mpr hs)]
    · rw [if_neg fun e => by simp [h1.mp e] at hs]

/-- A red node without children hangs in the hole. -/
theorem hangNode_represents {x : Addr} (h : Represents t (plug C leaf)) (hx : IsPlace x) (hxn : x ≠ t.nil)
    (hxT : x ∉ (plug C leaf).inorder) :
    Represents (hangNode t x C) (plug C (branch .left .red leaf x leaf)) ∧
      Keeps (fun a => a ∈ (plug C (branch .left .red leaf x leaf)).inorder) t (hangNode t x C) := by
  have hmem : ∀ a, a ∈ (plug C (branch .left .red leaf x leaf)).inorder ↔ a ∈ ctxNodes C ∨ a = x := by
    intro a
    simp [mem_inorder_plug]
  have hxC : x ∉ ctxNodes C := fun hm => hxT (mem_inorder_plug.mpr (.inl hm))
  have pp := h.ctxParent_place
  generalize hP : (fun a => a ∈ (plug C (branch .left .red leaf x leaf)).inorder) = P
  have hPm : ∀ a, P a ↔ a ∈ ctxNodes C ∨ a = x := by
    intro a
    rw [← hP]
    exact hmem a
  generalize ht1 : (t.setChild .left x t.nil).setChild .right x t.nil = t1
  have k1 : Keeps P t t1 :=
    ht1 ▸ (Keeps.setChild ((hPm x).mpr (.inr rfl)) _ _).trans (Keeps.setChild ((hPm x).mpr (.inr rfl)) _ _)
  generalize ht2 : bstSetParentColor t1 x (ctxParent t.nil C) .red = t2
  have k2 : Keeps P t1 t2 := ht2 ▸ Keeps.setParentColor ((hPm x).mpr (.inr rfl)) hx.1 pp.1 _
  have same : ∀ a, a ≠ x → SameLinks t t2 a := by
    intro a ha
    rw [← ht2, ← ht1]
    refine ⟨fun d => ?_, ?_, ?_⟩
    · simp [Bst.child_setChild, ha]
    · simp [Bst.bstParent_setParentColor _ pp.2, ha]
    · simp [Bst.bstColor_setParentColor _ pp.2, ha]
  have hC2 : LinkedCtx t2 C t.nil := by
    refine linkedCtx_congr (k1.trans k2).nil ?_ (fun a ha => same a ?_) h.split.1
    · rw [← ht2, ← ht1]
      rfl
    · rintro rfl
      exact hxC ha
  -- the fields of the new node, which the last step does not change
  have hx2 : (∀ d, t2.child d x = t.nil) ∧ bstParent t2 x = ctxParent t.nil C ∧ bstColor t2 x = .red := by
    rw [← ht2, ← ht1]
    refine ⟨fun d => ?_, ?_, ?_⟩
    · cases d <;> simp [Bst.child_setChild]
    · simp [Bst.bstParent_setParentColor _ pp.2]
    · simp [Bst.bstColor_setParentColor _ pp.2]
  have e : hangNode t x C = t2.hang x C := by
    rw [← ht2, ← ht1, hangNode]
  have last : Keeps P t2 (hangNode t x C) ∧ LinkedCtx (hangNode t x C) C x ∧
      SameLinks t2 (hangNode t x C) x := by
    rw [e]
    cases C with
    | nil => exact ⟨Keeps.setRoot P t2 x, rfl, fun _ => rfl, rfl, rfl⟩
    | cons f D =>
      refine ⟨Keeps.setChild ((hPm f.addr).mpr (.inl (by simp))) _ _,
        linkedCtx_setChild hC2 (nodup_inorder_plug.mp h.nodup).1 x, sameLinks_setChild _ _ ?_⟩
      rintro rfl
      exact hxC (by simp)
  obtain ⟨k3, hC3, hx3⟩ := last
  have k : Keeps P t (hangNode t x C) := k1.trans (k2.trans k3)
  have hnilheap : (hangNode t x C).heap t.nil = t.heap t.nil := by
    refine k.heap _ fun hp => ?_
    rcases (hPm _).mp hp with hp | hp
    · exact (h.place _ (mem_inorder_plug.mpr (.inl hp))).2 rfl
    · exact hxn hp.symm
  have hnode : Linked (hangNode t x C) (branch .left .red leaf x leaf) (ctxParent (hangNode t x C).nil C) := by
    rw [linked_branch]
    refine ⟨?_, ?_, ?_, ?_, trivial, trivial⟩
    · rw [k.nil, hx3.1, hx2.1]
      rfl
    · rw [k.nil, hx3.1, hx2.1]
      rfl
    · rw [k.nil, hx3.2.1, hx2.2.1]
    · rw [hx3.2.2, hx2.2.2]
  have hlinked := linked_plug.mpr ⟨hC3, hnode⟩
  refine ⟨⟨hlinked.1, hlinked.2, ?_, fun a ha => ?_, ?_, ?_, fun d => ?_⟩, k⟩
  · rw [nodup_inorder_plug]
    refine ⟨(nodup_inorder_plug.mp h.nodup).1, by simp [branch], fun a ha hax => ?_⟩
    obtain rfl : a = x := by simpa using hax
    exact hxC ha
  · rw [k.nil]
    rcases (hmem a).mp ha with ha | rfl
    · exact h.place a (mem_inorder_plug.mpr (.inl ha))
    · exact ⟨hx, hxn⟩
  · rw [k.nil]
    exact h.nilPlace
  · rw [k.nil, (sameLinks_of_heap hnilheap).2.2, h.nilColor]
  · rw [k.nil, (sameLinks_of_heap hnilheap).1, h.nilChild]

/-- **`bst_insert`**: the node is linked where the hole was, in a red-black tree again. -/
theorem bstInsert_spec {x : Addr} {fuel : ℕ} {l : Location} (h : Represents t (plug C leaf))
    (hrb : (plug C leaf).IsRedBlack) (hx : IsPlace x) (hxn : x ≠ t.nil) (hxT : x ∉ (plug C leaf).inorder)
    (hnode : l.node = t.nil) (hpar : l.parent = ctxParent t.nil C)
    (hcmp : ∀ f D, C = f :: D → l.parentCmp ≠ 0 ∧ (l.parentCmp = -1 ↔ f.side = .left))
    (hfuel : (plug C leaf).size < fuel) :
    ∃ t' T, bstInsert fuel t x l = some t' ∧ Represents t' T ∧ T.IsRedBlack ∧
      T.inorder = before C ++ x :: after C ∧ Keeps (fun a => a ∈ T.inorder) t t' ∧
        ∀ f D, C = f :: D → (∀ g ∈ C, g.side = f.side) → t'.child f.side f.addr = x := by
  obtain ⟨hr, hk⟩ := hangNode_represents h hx hxn hxT
  obtain ⟨hcol, m, hm⟩ := hrb
  obtain ⟨n, hn, hC, -⟩ := exists_balanced_plug hm
  rw [balanced_leaf] at hn
  subst hn
  rw [rootColor_plug] at hcol
  have hlen : C.length < fuel := by
    have := size_plug_le C (leaf : ColorTree Addr)
    simp only [size_leaf] at this
    omega
  have hS : (branch .left .red leaf x leaf : ColorTree Addr).Balanced 0 := by simp
  obtain ⟨t', T, e, hT, hrb', hside⟩ := bstFixupInsert_spec hr hS hC hcol hlen
  have hin : T.inorder = before C ++ x :: after C := by
    rw [hT.inorder, inorder_plug]
    simp [branch]
  refine ⟨t', T, ?_, hT.rep, hrb', hin, ?_, hside⟩
  · rw [bstInsert_eq h hnode hpar hcmp, e]
  · rw [hT.inorder]
    exact hk.trans hT.keeps

end FileSync.SearchTree
