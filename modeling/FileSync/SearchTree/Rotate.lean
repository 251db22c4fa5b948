import FileSync.SearchTree.Linked

/-!
# Colours and rotations

What `bst_set_color`, the rotations and `bst_transplant` do to a tree in memory:
each turns a memory that represents one coloured tree into a memory that
represents another, and keeps everything but links of nodes of the tree.
-/

namespace FileSync.SearchTree

open FileSync.Lib ColorTree

variable {V : Type} {t : Bst V} {T A B D S : ColorTree Addr} {C : List (Frame Addr)}

theorem SameLinks.trans {t' t'' : Bst V} {a : Addr} (h : SameLinks t t' a) (h' : SameLinks t' t'' a) :
    SameLinks t t'' a :=
  ⟨fun d => (h'.1 d).trans (h.1 d), h'.2.1.trans h.2.1, h'.2.2.trans h.2.2⟩

theorem sameLinks_setChild {a x : Addr} (d : Side) (b : Addr) (h : a ≠ x) :
    SameLinks t (t.setChild d x b) a :=
  ⟨fun e => by simp [Bst.child_setChild, h], by simp, by simp⟩

theorem sameLinks_setParent {a x p : Addr} (hp : p &&& 1 = 0) (h : a ≠ x) :
    SameLinks t (bstSetParent t x p) a :=
  ⟨fun d => by simp, by simp [Bst.bstParent_setParent t hp, h], by simp [Bst.bstColor_setParent t hp]⟩

theorem sameLinks_setColor {a x : Addr} (c : Color) (h : a ≠ x) : SameLinks t (bstSetColor t x c) a := by
  refine ⟨fun d => by simp, by simp, ?_⟩
  rw [Bst.bstColor_setColor, if_neg h]

/-- Colouring a node of the tree. -/
theorem Represents.setColor {d : Side} {c : Color} {x : Addr}
    (h : Represents t (plug C (branch d c A x B))) (c' : Color) :
    Represents (bstSetColor t x c') (plug C (branch d c' A x B)) ∧
      Keeps (fun a => a ∈ (plug C (branch d c A x B)).inorder) t (bstSetColor t x c') := by
  have hx : x ∈ (plug C (branch d c A x B)).inorder := by simp [mem_inorder_plug]
  have hnd := nodup_inorder_plug.mp h.nodup
  have hndb := nodup_inorder_branch.mp hnd.2.1
  have hk : Keeps (fun a => a ∈ (plug C (branch d c A x B)).inorder) t (bstSetColor t x c') :=
    Keeps.setColor hx (h.place x hx).1.1 c'
  obtain ⟨hC, hS⟩ := h.split
  obtain ⟨h1, h2, h3, h4, hA, hB⟩ := linked_branch.mp hS
  refine ⟨h.of_split hk ?_ ?_ ?_, hk⟩
  · rw [inorder_plug_congr C (s := branch d c' A x B) (t := branch d c A x B) (by cases d <;> rfl)]
  · rw [rootOr_branch]
    rw [rootOr_branch] at hC
    refine linkedCtx_congr hk.nil rfl (fun a ha => sameLinks_setColor c' ?_) hC
    rintro rfl
    exact hnd.2.2 a ha (by simp)
  · rw [linked_branch, hk.nil]
    refine ⟨by simp [h1], by simp [h2], by simp [h3], by simp [Bst.bstColor_setColor], ?_, ?_⟩
    · exact linked_congr hk.nil (fun a ha => sameLinks_setColor c' fun e => hndb.1 (e ▸ ha)) hA
    · exact linked_congr hk.nil (fun a ha => sameLinks_setColor c' fun e => hndb.2.1 (e ▸ ha)) hB

/-! ### Hanging a subtree on a parent -/

/-- What the rotations and `bst_transplant` do to the parent `p` of a node `old`: `new`
takes its place. -/
def Bst.relink (t : Bst V) (p old new : Addr) : Bst V :=
  if p = t.nil then { t with root := new }
  else if t.child .left p = old then t.setChild .left p new
  else t.setChild .right p new

theorem Bst.relink_parent (t : Bst V) (p old new a : Addr) :
    bstParent (t.relink p old new) a = bstParent t a := by
  unfold Bst.relink
  split_ifs <;> simp

theorem Bst.relink_color (t : Bst V) (p old new a : Addr) :
    bstColor (t.relink p old new) a = bstColor t a := by
  unfold Bst.relink
  split_ifs <;> simp

theorem sameLinks_relink {p old new a : Addr} (h : a ≠ p) : SameLinks t (t.relink p old new) a := by
  refine ⟨fun d => ?_, Bst.relink_parent .., Bst.relink_color ..⟩
  unfold Bst.relink
  split_ifs
  · rfl
  · simp [Bst.child_setChild, h]
  · simp [Bst.child_setChild, h]

theorem keeps_relink {P : Addr → Prop} {p old new : Addr} (h : p ≠ t.nil → P p) :
    Keeps P t (t.relink p old new) := by
  unfold Bst.relink
  split_ifs with hp
  · exact Keeps.setRoot P t new
  · exact Keeps.setChild (h hp) _ _
  · exact Keeps.setChild (h hp) _ _

/-- A new subtree in the hole of a frame. -/
theorem linkedCtx_setChild {f : Frame Addr} {old : Addr} (hC : LinkedCtx t (f :: C) old)
    (hnd : (ctxNodes (f :: C)).Nodup) (new : Addr) :
    LinkedCtx (t.setChild f.side f.addr new) (f :: C) new := by
  obtain ⟨-, h2, h3, h4, h5, h6⟩ := hC
  obtain ⟨n1, n2, n3, n4, n5⟩ := nodup_ctxNodes_cons.mp hnd
  have hn : (t.setChild f.side f.addr new).nil = t.nil := rfl
  refine ⟨?_, ?_, ?_, ?_, ?_, ?_⟩
  · rw [Bst.child_setChild, if_pos ⟨rfl, rfl⟩]
  · rw [Bst.child_setChild, if_neg (by simp), h2]
    rfl
  · rw [Bst.bstParent_setChild, h3]
    rfl
  · rw [Bst.bstColor_setChild, h4]
  · refine linked_congr hn (fun a ha => sameLinks_setChild _ _ ?_) h5
    rintro rfl
    exact n1 ha
  · refine linkedCtx_congr hn rfl (fun a ha => sameLinks_setChild _ _ ?_) h6
    rintro rfl
    exact n2 ha

/-- A new subtree in the hole of a context. -/
theorem linkedCtx_relink {old new : Addr} (hC : LinkedCtx t C old) (hnd : (ctxNodes C).Nodup)
    (hnil : ∀ a ∈ ctxNodes C, a ≠ t.nil) (hold : old ∉ ctxNodes C) (ho : old ≠ t.nil) :
    LinkedCtx (t.relink (ctxParent t.nil C) old new) C new := by
  cases C with
  | nil => simp [Bst.relink, LinkedCtx]
  | cons f C =>
    have h1 := hC.1
    have h2 := hC.2.1
    simp only [mem_ctxNodes_cons, not_or] at hold hnil
    -- the sibling is not the old node, so the right child pointer is the one that is written
    have hsib : t.child f.side.flip f.addr ≠ old := by
      rw [h2]
      intro e
      by_cases hl : f.sib = leaf
      · rw [hl] at e
        exact ho e.symm
      · exact hold.2.1 (e ▸ rootOr_mem _ hl)
    have hside : t.relink f.addr old new = t.setChild f.side f.addr new := by
      unfold Bst.relink
      rw [if_neg (hnil _ (.inl rfl))]
      rcases f with ⟨d, c, a, s⟩
      cases d
      · rw [if_pos h1]
      · exact if_neg hsib
    rw [ctxParent_cons, hside]
    exact linkedCtx_setChild hC hnd new

/-! ### Rotations -/

/-- A rotation, with its reads carried out. -/
theorem bstRotate_eq {d : Side} {x y p b : Addr} (hx : x ≠ t.nil) (hxN : x ≠ NULL)
    (hy : t.child d.flip x = y) (hyn : y ≠ t.nil) (hp : bstParent t x = p)
    (hb : t.child d y = b) :
    bstRotate d t x =
      bstSetParent (((bstSetParent
        (if b ≠ t.nil then bstSetParent (t.setChild d.flip x b) b x else t.setChild d.flip x b)
        y p).relink p x y).setChild d y x) x y := by
  have hc : ∀ b, (t.setChild d.flip x b).child d y = t.child d y := by
    intro b
    rw [Bst.child_setChild, if_neg (by simp)]
  simp only [bstRotate, Bst.assert_of _ hx, hy, Bst.assert_of _ hyn, Bst.touch_of _ hxN, hp, hb, hc,
    Bst.relink, eq_comm (a := x)]
  rfl

/-- Where the subtree between the two nodes of a rotation goes: its root, if it has
one, gets the parent `x`. -/
theorem sameLinks_hang {q : Prop} [Decidable q] {x b a : Addr} (hx : x &&& 1 = 0) (h : q → a ≠ b) :
    SameLinks t (if q then bstSetParent t b x else t) a := by
  split_ifs with hq
  · exact sameLinks_setParent hx (h hq)
  · exact ⟨fun _ => rfl, rfl, rfl⟩

theorem keeps_hang {q : Prop} [Decidable q] {P : Addr → Prop} {x b : Addr} (hb : q → P b ∧ b ≠ NULL)
    (hx : x ≠ NULL) : Keeps P t (if q then bstSetParent t b x else t) := by
  split_ifs with hq
  · exact Keeps.setParent (hb hq).1 (hb hq).2 hx
  · exact Keeps.refl P t

/-- The nodes a rotation touches: `x` and `y`, the root `b` of the subtree between them
and the parent `p`, all different and at places for nodes. -/
structure RotateNodes (P : Addr → Prop) (nil x y b p : Addr) : Prop where
  px : IsPlace x ∧ x ≠ nil ∧ P x
  py : IsPlace y ∧ y ≠ nil ∧ P y
  pb : b ≠ nil → b ≠ NULL ∧ P b
  pp : IsPlace p ∧ (p ≠ nil → P p)
  yx : y ≠ x
  bx : b ≠ nil → b ≠ x
  yb : b ≠ nil → b ≠ y
  bp : b ≠ nil → b ≠ p
  xp : x ≠ p
  yp : y ≠ p

/-- What a rotation does to the links, node by node. -/
structure Rotated (d : Side) (x y b p : Addr) (t t' : Bst V) : Prop where
  same : ∀ a, a ≠ x → a ≠ y → a ≠ p → (b ≠ t.nil → a ≠ b) → SameLinks t t' a
  color : ∀ a, bstColor t' a = bstColor t a
  childX : t'.child d x = t.child d x ∧ t'.child d.flip x = b
  parentX : bstParent t' x = y
  childY : t'.child d y = x ∧ t'.child d.flip y = t.child d.flip y
  parentY : bstParent t' y = p
  childB : b ≠ t.nil → ∀ e, t'.child e b = t.child e b
  parentB : b ≠ t.nil → bstParent t' b = x

/-- A rotation writes the links it should, and the context of `x` becomes that of `y`. -/
theorem bstRotate_rotated {P : Addr → Prop} {d : Side} {x y b p : Addr} (hn : RotateNodes P t.nil x y b p)
    (hy : t.child d.flip x = y) (hp : bstParent t x = p) (hb : t.child d y = b) :
    Rotated d x y b p t (bstRotate d t x) ∧ Keeps P t (bstRotate d t x) ∧
      ∀ C, p = ctxParent t.nil C → LinkedCtx t C x → (ctxNodes C).Nodup →
        (∀ a ∈ ctxNodes C, a ≠ t.nil ∧ a ≠ x ∧ a ≠ y ∧ (b ≠ t.nil → a ≠ b)) →
          LinkedCtx (bstRotate d t x) C y := by
  obtain ⟨px, py, pb, pp, yx, bx, yb, bp, xp, yp⟩ := hn
  rw [bstRotate_eq px.2.1 px.1.1 hy py.2.1 hp hb]
  -- the states on the way, and which nodes each step leaves alone
  generalize ht1 : t.setChild d.flip x b = t1
  have k1 : Keeps P t t1 := ht1 ▸ Keeps.setChild px.2.2 _ _
  have s1 : ∀ a, a ≠ x → SameLinks t t1 a := fun a ha => ht1 ▸ sameLinks_setChild _ _ ha
  generalize ht2 : (if b ≠ t.nil then bstSetParent t1 b x else t1) = t2
  have k2 : Keeps P t1 t2 := ht2 ▸ keeps_hang (fun h => (pb h).symm) px.1.1
  have s2 : ∀ a, (b ≠ t.nil → a ≠ b) → SameLinks t1 t2 a := fun a ha => ht2 ▸ sameLinks_hang px.1.2 ha
  have c2 : t2.child = t1.child := by rw [← ht2]; split_ifs <;> simp
  generalize ht3 : bstSetParent t2 y p = t3
  have k3 : Keeps P t2 t3 := ht3 ▸ Keeps.setParent py.2.2 py.1.1 pp.1.1
  have s3 : ∀ a, a ≠ y → SameLinks t2 t3 a := fun a ha => ht3 ▸ sameLinks_setParent pp.1.2 ha
  have c3 : t3.child = t2.child := by rw [← ht3, Bst.child_setParent]
  have hn3 : t3.nil = t.nil := (k1.trans (k2.trans k3)).nil
  generalize ht4 : t3.relink p x y = t4
  have k4 : Keeps P t3 t4 := ht4 ▸ keeps_relink fun h => pp.2 (hn3 ▸ h)
  have s4 : ∀ a, a ≠ p → SameLinks t3 t4 a := fun a ha => ht4 ▸ sameLinks_relink ha
  generalize ht5 : t4.setChild d y x = t5
  have k5 : Keeps P t4 t5 := ht5 ▸ Keeps.setChild py.2.2 _ _
  have s5 : ∀ a, a ≠ y → SameLinks t4 t5 a := fun a ha => ht5 ▸ sameLinks_setChild _ _ ha
  generalize ht6 : bstSetParent t5 x y = t6
  have k6 : Keeps P t5 t6 := ht6 ▸ Keeps.setParent px.2.2 px.1.1 py.1.1
  have s6 : ∀ a, a ≠ x → SameLinks t5 t6 a := fun a ha => ht6 ▸ sameLinks_setParent py.1.2 ha
  have c6 : t6.child = t5.child := by rw [← ht6, Bst.child_setParent]
  refine ⟨⟨?_, ?_, ⟨?_, ?_⟩, ?_, ⟨?_, ?_⟩, ?_, ?_, ?_⟩,
    k1.trans (k2.trans (k3.trans (k4.trans (k5.trans k6)))), ?_⟩
  · intro a hx hy hp hb
    exact (s1 a hx).trans ((s2 a hb).trans ((s3 a hy).trans ((s4 a hp).trans ((s5 a hy).trans (s6 a hx)))))
  · intro a
    rw [← ht6, Bst.bstColor_setParent _ py.1.2, ← ht5, Bst.bstColor_setChild, ← ht4, Bst.relink_color,
      ← ht3, Bst.bstColor_setParent _ pp.1.2, ← ht2]
    split_ifs
    · rw [Bst.bstColor_setParent _ px.1.2, ← ht1, Bst.bstColor_setChild]
    · rw [← ht1, Bst.bstColor_setChild]
  · rw [c6, (s5 x yx.symm).1, (s4 x xp).1, c3, c2, ← ht1, Bst.child_setChild, if_neg (by simp)]
  · rw [c6, (s5 x yx.symm).1, (s4 x xp).1, c3, c2, ← ht1, Bst.child_setChild, if_pos ⟨rfl, rfl⟩]
  · rw [← ht6, Bst.bstParent_setParent _ py.1.2, if_pos rfl]
  · rw [c6, ← ht5, Bst.child_setChild, if_pos ⟨rfl, rfl⟩]
  · rw [c6, ← ht5, Bst.child_setChild, if_neg (by simp), (s4 y yp).1, c3, c2, (s1 y yx).1]
  · rw [(s6 y yx).2.1, ← ht5, Bst.bstParent_setChild, (s4 y yp).2.1, ← ht3,
      Bst.bstParent_setParent _ pp.1.2, if_pos rfl]
  · intro hbn e
    rw [c6, (s5 b (yb hbn)).1, (s4 b (bp hbn)).1, c3, c2, (s1 b (bx hbn)).1]
  · intro hbn
    rw [(s6 b (bx hbn)).2.1, (s5 b (yb hbn)).2.1, (s4 b (bp hbn)).2.1, (s3 b (yb hbn)).2.1, ← ht2,
      if_pos hbn, Bst.bstParent_setParent _ px.1.2, if_pos rfl]
  · intro C hpC hC nC hne
    have hC3 : LinkedCtx t3 C x := by
      refine linkedCtx_congr hn3 ?_ (fun a ha => ?_) hC
      · rw [← ht3, ← ht2, ← ht1]
        split_ifs <;> rfl
      · obtain ⟨-, hax, hay, hab⟩ := hne a ha
        exact (s1 a hax).trans ((s2 a hab).trans (s3 a hay))
    have hC4 : LinkedCtx t4 C y := by
      rw [← ht4, hpC, ← hn3]
      refine linkedCtx_relink hC3 nC (fun a ha => ?_) (fun hx => (hne x hx).2.1 rfl) (hn3 ▸ px.2.1)
      rw [hn3]
      exact (hne a ha).1
    refine linkedCtx_congr (k5.trans k6).nil ?_ (fun a ha => ?_) hC4
    · rw [← ht6, ← ht5]
      rfl
    · obtain ⟨-, hax, hay, -⟩ := hne a ha
      exact (s5 a hay).trans (s6 a hax)

/-- **Rotation**: the child `y` at the far side of `x` comes up in its place, and `x`
goes down on side `d` with what was between them. -/
theorem Represents.rotate {d : Side} {cx cy : Color} {x y : Addr}
    (h : Represents t (plug C (branch d cx A x (branch d cy B y D)))) :
    Represents (bstRotate d t x) (plug C (branch d cy (branch d cx A x B) y D)) ∧
      Keeps (fun a => a ∈ (plug C (branch d cx A x (branch d cy B y D))).inorder) t (bstRotate d t x) := by
  have hmem : ∀ a, a ∈ (plug C (branch d cx A x (branch d cy B y D))).inorder ↔
      a ∈ ctxNodes C ∨ a = x ∨ a ∈ A.inorder ∨ a = y ∨ a ∈ B.inorder ∨ a ∈ D.inorder := by
    intro a
    rw [mem_inorder_plug, mem_inorder_branch, mem_inorder_branch]
  obtain ⟨nC, nS, nCS⟩ := nodup_inorder_plug.mp h.nodup
  obtain ⟨nxA, nxY, nA, nY, nAY⟩ := nodup_inorder_branch.mp nS
  obtain ⟨nyB, nyD, nB, nD, nBD⟩ := nodup_inorder_branch.mp nY
  simp only [mem_inorder_branch, not_or] at nxY nAY nCS
  obtain ⟨hC, hS⟩ := h.split
  obtain ⟨x1, x2, x3, x4, hA, hY⟩ := linked_branch.mp hS
  obtain ⟨y1, y2, y3, y4, hB, hD⟩ := linked_branch.mp hY
  rw [rootOr_branch] at hC x2
  have hnil : ∀ a ∈ (plug C (branch d cx A x (branch d cy B y D))).inorder, a ≠ t.nil := fun a ha =>
    (h.place a ha).2
  have hpar : ctxParent t.nil C ≠ t.nil → ctxParent t.nil C ∈ ctxNodes C := ctxParent_mem
  have hB' : B.rootOr t.nil ≠ t.nil → B.rootOr t.nil ∈ B.inorder := rootOr_mem_of_ne
  -- a node below is not the parent above
  have below : ∀ a, a ∉ ctxNodes C → a ≠ t.nil → a ≠ ctxParent t.nil C := by
    rintro a ha hn rfl
    exact ha (hpar hn)
  have hCx : x ∉ ctxNodes C := fun hm => (nCS x hm).1 rfl
  have hCy : y ∉ ctxNodes C := fun hm => (nCS y hm).2.2.1 rfl
  have hnodes : RotateNodes (fun a => a ∈ (plug C (branch d cx A x (branch d cy B y D))).inorder) t.nil x y
      (B.rootOr t.nil) (ctxParent t.nil C) := by
    have mx := (hmem x).mpr (by simp)
    have my := (hmem y).mpr (by simp)
    refine ⟨⟨(h.place x mx).1, hnil x mx, mx⟩, ⟨(h.place y my).1, hnil y my, my⟩, fun hb => ?_,
      ⟨h.ctxParent_place, fun hp => (hmem _).mpr (.inl (hpar hp))⟩, fun e => nxY.1 e.symm,
      fun hb e => nxY.2.1 (e ▸ hB' hb), fun hb e => nyB (e ▸ hB' hb), fun hb => ?_, ?_, ?_⟩
    · have mb := (hmem (B.rootOr t.nil)).mpr (by simp [hB' hb])
      exact ⟨(h.place _ mb).1.1, mb⟩
    · exact below _ (fun hm => (nCS _ hm).2.2.2.1 (hB' hb)) hb
    · exact below x hCx (hnil x mx)
    · exact below y hCy (hnil y my)
  obtain ⟨r, k, hctx⟩ := bstRotate_rotated hnodes x2 x3 y1
  refine ⟨h.of_split k ?_ ?_ ?_, k⟩
  · rw [inorder_plug_congr C]
    cases d <;> simp [branch]
  · rw [rootOr_branch]
    refine hctx C rfl hC nC fun a ha => ?_
    obtain ⟨ax, aA, ay, aB, aD⟩ := nCS a ha
    exact ⟨hnil a ((hmem a).mpr (.inl ha)), ax, ay, fun hb e => aB (e ▸ hB' hb)⟩
  · have side : ∀ a, a ∈ A.inorder ∨ a ∈ B.inorder ∨ a ∈ D.inorder → a ≠ ctxParent t.nil C := by
      intro a ha
      refine below a (fun hm => ?_) (hnil a ((hmem a).mpr ?_))
      · obtain ⟨-, aA, -, aB, aD⟩ := nCS a hm
        exact ha.elim aA (Or.rec aB aD)
      · exact .inr (.inr (ha.imp id fun h => .inr h))
    rw [linked_branch, linked_branch, k.nil, rootOr_branch]
    refine ⟨r.childY.1, r.childY.2.trans y2, r.parentY, (r.color y).trans y4,
      ⟨r.childX.1.trans x1, r.childX.2, r.parentX, (r.color x).trans x4, ?_, ?_⟩, ?_⟩
    · refine linked_congr k.nil (fun a ha => r.same a ?_ (nAY a ha).1 (side a (.inl ha)) ?_) hA
      · exact fun e => nxA (e ▸ ha)
      · exact fun hb e => (nAY a ha).2.1 (e ▸ hB' hb)
    · refine linked_reparent k.nil nB (fun a ha hne => r.same a ?_ ?_ (side a (.inr (.inl ha))) ?_)
        (fun hl => ?_) hB
      · exact fun e => nxY.2.1 (e ▸ ha)
      · exact fun e => nyB (e ▸ ha)
      · exact fun _ => hne
      · have hb : B.rootOr t.nil ≠ t.nil := hnil _ ((hmem _).mpr (by simp [rootOr_mem _ hl]))
        exact ⟨r.childB hb, r.parentB hb, r.color _⟩
    · refine linked_congr k.nil (fun a ha => r.same a ?_ ?_ (side a (.inr (.inr ha))) ?_) hD
      · exact fun e => nxY.2.2 (e ▸ ha)
      · exact fun e => nyD (e ▸ ha)
      · exact fun hb e => nBD _ (hB' hb) (e ▸ ha)

/-! ### Reshaping a tree step by step -/

/-- From the tree `t₀` with the nodes `xs`, writing only links of those nodes, the memory
has become `t` and represents `T`, with the same nodes in the same order. -/
structure Reshapes (t₀ : Bst V) (xs : List Addr) (t : Bst V) (T : ColorTree Addr) : Prop where
  /-- What is represented now. -/
  rep : Represents t T
  /-- What is kept. -/
  keeps : Keeps (fun a => a ∈ xs) t₀ t
  /-- The nodes in order. -/
  inorder : T.inorder = xs

namespace Reshapes

variable {t₀ : Bst V} {xs : List Addr}

theorem refl (h : Represents t T) : Reshapes t T.inorder t T := ⟨h, Keeps.refl _ t, rfl⟩

theorem setColor {d : Side} {c : Color} {x : Addr}
    (h : Reshapes t₀ xs t (plug C (branch d c A x B))) (c' : Color) :
    Reshapes t₀ xs (bstSetColor t x c') (plug C (branch d c' A x B)) := by
  obtain ⟨hr, hk⟩ := h.rep.setColor c'
  rw [h.inorder] at hk
  refine ⟨hr, h.keeps.trans hk, ?_⟩
  rw [← h.inorder]
  exact inorder_plug_congr C (by cases d <;> rfl)

theorem rotate {d : Side} {cx cy : Color} {x y : Addr}
    (h : Reshapes t₀ xs t (plug C (branch d cx A x (branch d cy B y D)))) :
    Reshapes t₀ xs (bstRotate d t x) (plug C (branch d cy (branch d cx A x B) y D)) := by
  obtain ⟨hr, hk⟩ := h.rep.rotate
  rw [h.inorder] at hk
  refine ⟨hr, h.keeps.trans hk, ?_⟩
  rw [← h.inorder]
  exact inorder_plug_congr C (by cases d <;> simp [branch])

/-- The mirror of a rotation that undoes one: the near child `y` of `x` comes up. -/
theorem rotateBack {d : Side} {cx cy : Color} {x y : Addr}
    (h : Reshapes t₀ xs t (plug C (branch d cx (branch d cy A y B) x D))) :
    Reshapes t₀ xs (bstRotate d.flip t x) (plug C (branch d cy A y (branch d cx B x D))) := by
  rw [← branch_flip, ← branch_flip d cy] at h
  have := h.rotate
  rwa [branch_flip, branch_flip] at this

end Reshapes

end FileSync.SearchTree
