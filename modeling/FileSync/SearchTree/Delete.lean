import FileSync.SearchTree.FixupDelete

/-!
# Deletion

`bst_delete` unlinks a node: one with an empty side is replaced by the subtree on
its other side (`Represents.splice`), any other by the next node in order, which
is taken from its place first. What is left has the same nodes in the same order
without that one, with the colour of the node that left its place missing there
(`Unlinked`), and the fix-up makes a red-black tree of it.
-/

namespace FileSync.SearchTree

open FileSync.Lib ColorTree

variable {V : Type} {t t' : Bst V} {T A B L R S : ColorTree Addr} {C D : List (Frame Addr)}

/-! ### The extreme nodes of a subtree -/

/-- **`bst_local_minimum` and `bst_local_maximum`** go to the last node of a subtree on
their side. -/
theorem bstLocalExtreme_spec {d : Side} {fuel : ℕ} (h : Represents t (plug C S)) (hS : S ≠ leaf)
    (hfuel : S.size < fuel) :
    ∃ D c y B, bstLocalExtreme d fuel t (S.rootOr t.nil) = some y ∧ S = plug D (branch d c leaf y B) ∧
      ∀ f ∈ D, f.side = d := by
  let I : ℕ → Addr → Prop := fun k a =>
    ∃ D c A B, S = plug D (branch d c A a B) ∧ (∀ f ∈ D, f.side = d) ∧ A.size ≤ k
  let Q : Addr → Prop := fun y => ∃ D c B, S = plug D (branch d c leaf y B) ∧ ∀ f ∈ D, f.side = d
  have turn : ∀ k a, I k a → TurnOk I Q k
      (if t.child d a ≠ t.nil then .again (t.child d a) else .leave a) := by
    rintro k a ⟨D, c, A, B, hSD, hD, hk⟩
    have ha := h
    rw [hSD, ← plug_append] at ha
    rw [ha.links.1]
    rw [← plug_near] at ha
    rcases eq_leaf_or_branch d A with rfl | ⟨c', s, b, u, rfl⟩
    · rw [rootOr_leaf, if_neg (by simp)]
      exact ⟨D, c, B, hSD, hD⟩
    · rw [if_pos fun e => branch_ne_leaf (ha.rootOr_eq_nil.mp e), rootOr_branch]
      rw [size_branch] at hk
      refine ⟨s.size, by omega, ⟨d, c, a, B⟩ :: D, c', s, u, hSD, ?_, le_rfl⟩
      intro f hf
      rcases List.mem_cons.mp hf with rfl | hf
      · rfl
      · exact hD f hf
  obtain ⟨c, s, a, u, rfl⟩ := (eq_leaf_or_branch d S).resolve_left hS
  have start : I s.size a := ⟨[], c, s, u, rfl, by simp, le_rfl⟩
  rw [size_branch] at hfuel
  obtain ⟨y, e, D, c', B, hSD, hD⟩ := loop_of_bound turn start (n := fuel) (by omega)
  exact ⟨D, c', y, B, by rw [rootOr_branch]; exact e, hSD, hD⟩

/-! ### Transplanting -/

/-- `bst_transplant`, with its reads carried out. -/
theorem bstTransplant_eq {old new p : Addr} (hr : t.root ≠ t.nil) (hne : old ≠ new) (hN : old ≠ NULL)
    (hp : bstParent t old = p) :
    bstTransplant t old new = bstSetParent (t.relink p old new) new p := by
  simp only [bstTransplant, Bst.assert_of _ hr, Bst.assert_of _ hne, Bst.touch_of _ hN, hp]
  rfl

theorem Bst.relink_child_nil (t : Bst V) (p old new : Addr) (d : Side) :
    (t.relink p old new).child d t.nil = t.child d t.nil := by
  unfold Bst.relink
  split_ifs with hp
  · rfl
  · rw [Bst.child_setChild, if_neg fun e => hp e.1.symm]
  · rw [Bst.child_setChild, if_neg fun e => hp e.1.symm]

/-- The root is not the sentinel if the hole of a context holds a node. -/
theorem LinkedCtx.root_ne_nil {x : Addr} (h : LinkedCtx t C x) (hC : ∀ a ∈ ctxNodes C, a ≠ t.nil)
    (hx : x ≠ t.nil) : t.root ≠ t.nil := by
  induction C generalizing x with
  | nil =>
    have hr : t.root = x := h
    rw [hr]
    exact hx
  | cons f C ih =>
    simp only [mem_ctxNodes_cons] at hC
    exact ih h.2.2.2.2.2 (fun a ha => hC a (.inr (.inr ha))) (hC f.addr (.inl rfl))

/-- What a transplant writes is of the tree, or the sentinel. -/
theorem ctxParent_or_rootOr_mem {nil a : Addr} (h : a = ctxParent nil C ∨ a = B.rootOr nil) :
    a ∈ (plug C B).inorder ∨ a = nil := by
  by_cases hn : a = nil
  · exact .inr hn
  · refine .inl (mem_inorder_plug.mpr ?_)
    rcases h with rfl | rfl
    · exact .inl (ctxParent_mem hn)
    · exact .inr (rootOr_mem_of_ne hn)

/-- A node with an empty side is replaced by the subtree on its other side; the parent
field of what takes its place is set, also if that is the sentinel. -/
theorem Represents.splice {d : Side} {c : Color} {x : Addr} (h : Represents t (plug C (branch d c leaf x B))) :
    Represents (bstTransplant t x (B.rootOr t.nil)) (plug C B) ∧
      Keeps (fun a => a = ctxParent t.nil C ∨ a = B.rootOr t.nil) t (bstTransplant t x (B.rootOr t.nil)) ∧
        bstParent (bstTransplant t x (B.rootOr t.nil)) (B.rootOr t.nil) = ctxParent t.nil C := by
  obtain ⟨nC, nS, nCS⟩ := nodup_inorder_plug.mp h.nodup
  obtain ⟨-, nxB, -, nB, -⟩ := nodup_inorder_branch.mp nS
  have hx := h.place x (by simp [mem_inorder_plug])
  have hxC : x ∉ ctxNodes C := fun hm => nCS x hm (by simp)
  have hnil : ∀ a ∈ ctxNodes C, a ≠ t.nil := fun a ha => (h.place a (mem_inorder_plug.mpr (.inl ha))).2
  have hBnil : ∀ a ∈ B.inorder, a ≠ t.nil := fun a ha =>
    (h.place a (mem_inorder_plug.mpr (.inr (by simp [ha])))).2
  have hb : B.rootOr t.nil ∈ B.inorder ∨ B = leaf := by
    by_cases hl : B = leaf
    · exact .inr hl
    · exact .inl (rootOr_mem _ hl)
  have hxb : x ≠ B.rootOr t.nil := by
    rcases hb with hb | rfl
    · rintro e
      exact nxB (e ▸ hb)
    · exact hx.2
  obtain ⟨hC, hS⟩ := h.split
  rw [rootOr_branch] at hC
  obtain ⟨-, -, hp, -, -, hB⟩ := linked_branch.mp hS
  have pp := h.ctxParent_place
  have hfar := h
  rw [← plug_far] at hfar
  have pb := hfar.rootOr_place
  rw [bstTransplant_eq (hC.root_ne_nil hnil hx.2) hxb hx.1.1 hp]
  -- the two steps: the link above, and the parent field below
  generalize ht1 : t.relink (ctxParent t.nil C) x (B.rootOr t.nil) = t1
  have k1 : Keeps (fun a => a = ctxParent t.nil C ∨ a = B.rootOr t.nil) t t1 := by
    rw [← ht1]
    exact keeps_relink fun _ => .inl rfl
  have hC1 : LinkedCtx t1 C (B.rootOr t.nil) := ht1 ▸ linkedCtx_relink hC nC hnil hxC hx.2
  have s1 : ∀ a ∈ B.inorder, SameLinks t t1 a := by
    intro a ha
    rw [← ht1]
    exact sameLinks_relink (ne_ctxParent (fun hm => nCS a hm (by simp [ha])) (hBnil a ha))
  generalize ht2 : bstSetParent t1 (B.rootOr t.nil) (ctxParent t.nil C) = t2
  have k2 : Keeps (fun a => a = ctxParent t.nil C ∨ a = B.rootOr t.nil) t1 t2 := by
    rw [← ht2]
    exact Keeps.setParent (.inr rfl) pb.1 pp.1
  have hpar : bstParent t2 (B.rootOr t.nil) = ctxParent t.nil C := by
    rw [← ht2, Bst.bstParent_setParent _ pp.2, if_pos rfl]
  have s2 : ∀ a, a ≠ B.rootOr t.nil → SameLinks t1 t2 a := fun a ha => ht2 ▸ sameLinks_setParent pp.2 ha
  have col : ∀ a, bstColor t2 a = bstColor t a := by
    intro a
    rw [← ht2, Bst.bstColor_setParent _ pp.2, ← ht1, Bst.relink_color]
  have hn := (k1.trans k2).nil
  refine ⟨h.of_links hn (fun a ha => ?_) ?_ (col _) (fun e => ?_) ?_ ?_, k1.trans k2, hpar⟩
  · rw [mem_inorder_plug] at ha ⊢
    exact ha.imp id fun hb => by simp [hb]
  · exact nodup_inorder_plug.mpr ⟨nC, nB, fun a ha hb => nCS a ha (by simp [hb])⟩
  · rw [← ht2, Bst.child_setParent, ← ht1, Bst.relink_child_nil]
  · rw [hn]
    refine linkedCtx_congr k2.nil (by rw [← ht2]; rfl) (fun a ha => s2 a ?_) hC1
    rcases hb with hb | rfl
    · rintro rfl
      exact nCS _ ha (by simp [hb])
    · exact hnil a ha
  · rw [hn]
    refine linked_reparent hn nB (fun a ha hne => (s1 a ha).trans (s2 a hne)) (fun hl => ?_) hB
    refine ⟨fun e => ?_, hpar, col _⟩
    rw [← ht2, Bst.child_setParent, (s1 _ (rootOr_mem _ hl)).1]

/-! ### A node in the place of another -/

/-- `bst_delete` from the second transplant on: `y` takes the place of `z`. -/
def bstReplace (t : Bst V) (z y : Addr) : Bst V :=
  let t := bstTransplant t z y
  let t := t.setChild .left y (t.child .left z)
  let t := bstSetParent t (t.child .left y) y
  let t := t.touch z
  bstSetColor t y (bstColor t z)

/-- The tree without `y`, with the subtree `R` already hanging below `y`. -/
structure Replaceable (t : Bst V) (C : List (Frame Addr)) (c : Color) (L R : ColorTree Addr) (z y : Addr) :
    Prop where
  ctx : LinkedCtx t C z
  left : Linked t L z
  right : Linked t R y
  childZ : t.child .left z = L.rootOr t.nil
  childY : t.child .right y = R.rootOr t.nil
  parentZ : bstParent t z = ctxParent t.nil C
  colorZ : bstColor t z = c
  nonempty : L ≠ leaf
  nodup : (plug C (branch .left c L y R)).inorder.Nodup
  fresh : z ∉ (plug C (branch .left c L y R)).inorder
  place : ∀ a ∈ (plug C (branch .left c L y R)).inorder, IsPlace a ∧ a ≠ t.nil
  placeZ : IsPlace z ∧ z ≠ t.nil
  nilPlace : IsPlace t.nil

theorem Replaceable.parentPlace {c : Color} {z y : Addr} (h : Replaceable t C c L R z y) :
    IsPlace (ctxParent t.nil C) := by
  cases C with
  | nil => exact h.nilPlace
  | cons f C => exact (h.place f.addr (mem_inorder_plug.mpr (.inl (by simp)))).1

/-- The five writes of the replacement. -/
theorem bstReplace_eq {c : Color} {z y : Addr} (h : Replaceable t C c L R z y) :
    bstReplace t z y = bstSetColor (bstSetParent
      ((bstSetParent (t.relink (ctxParent t.nil C) z y) y (ctxParent t.nil C)).setChild .left y
        (L.rootOr t.nil)) (L.rootOr t.nil) y) y c := by
  have hzy : z ≠ y := by
    rintro rfl
    exact h.fresh (by simp [mem_inorder_plug])
  have hzp : z ≠ ctxParent t.nil C :=
    ne_ctxParent (fun hm => h.fresh (mem_inorder_plug.mpr (.inl hm))) h.placeZ.2
  have hnil : ∀ a ∈ ctxNodes C, a ≠ t.nil := fun a ha => (h.place a (mem_inorder_plug.mpr (.inl ha))).2
  have py := h.place y (by simp [mem_inorder_plug])
  have hzl : (bstSetParent (t.relink (ctxParent t.nil C) z y) y (ctxParent t.nil C)).child .left z =
      L.rootOr t.nil := by
    rw [Bst.child_setParent, (sameLinks_relink hzp).1, h.childZ]
  have hyl : ∀ t' : Bst V, (t'.setChild .left y (L.rootOr t.nil)).child .left y = L.rootOr t.nil := by
    intro t'
    rw [Bst.child_setChild, if_pos ⟨rfl, rfl⟩]
  simp only [bstReplace, bstTransplant_eq (h.ctx.root_ne_nil hnil h.placeZ.2) hzy h.placeZ.1.1 h.parentZ,
    hzl, hyl, Bst.touch_of _ h.placeZ.1.1]
  rw [Bst.bstColor_setParent _ py.1.2, Bst.bstColor_setChild, Bst.bstColor_setParent _ h.parentPlace.2,
    Bst.relink_color, h.colorZ]

/-- What the replacement does: `y` has the links and the colour that `z` had. -/
theorem bstReplace_spec {c : Color} {z y : Addr} (h : Replaceable t C c L R z y) :
    LinkedCtx (bstReplace t z y) C y ∧ Linked (bstReplace t z y) (branch .left c L y R) (ctxParent t.nil C) ∧
      Keeps (fun a => a ∈ (plug C (branch .left c L y R)).inorder) t (bstReplace t z y) := by
  have hmem : ∀ a, a ∈ (plug C (branch .left c L y R)).inorder ↔
      a ∈ ctxNodes C ∨ a = y ∨ a ∈ L.inorder ∨ a ∈ R.inorder := by
    intro a
    rw [mem_inorder_plug, mem_inorder_branch]
  obtain ⟨nC, nS, nCS⟩ := nodup_inorder_plug.mp h.nodup
  obtain ⟨nyL, nyR, nL, nR, nLR⟩ := nodup_inorder_branch.mp nS
  simp only [mem_inorder_branch, not_or] at nCS
  have hzC : z ∉ ctxNodes C := fun hm => h.fresh ((hmem z).mpr (.inl hm))
  have py := h.place y ((hmem y).mpr (by simp))
  have hnil : ∀ a ∈ ctxNodes C, a ≠ t.nil := fun a ha => (h.place a ((hmem a).mpr (.inl ha))).2
  have hL : L.rootOr t.nil ∈ L.inorder := rootOr_mem _ h.nonempty
  have pL := h.place _ ((hmem _).mpr (.inr (.inr (.inl hL))))
  have pp := h.parentPlace
  have hyp : y ≠ ctxParent t.nil C := ne_ctxParent (fun hm => (nCS y hm).1 rfl) py.2
  have hyLr : y ≠ L.rootOr t.nil := fun e => nyL (e ▸ hL)
  generalize hP : (fun a => a ∈ (plug C (branch .left c L y R)).inorder) = P
  have hPm : ∀ a, a ∈ ctxNodes C ∨ a = y ∨ a ∈ L.inorder ∨ a ∈ R.inorder → P a := by
    intro a ha
    rw [← hP]
    exact (hmem a).mpr ha
  rw [bstReplace_eq h]
  -- the states on the way, and which nodes each step leaves alone
  generalize ht1 : t.relink (ctxParent t.nil C) z y = t1
  have k1 : Keeps P t t1 := ht1 ▸ keeps_relink fun hn => hPm _ (.inl (ctxParent_mem hn))
  have s1 : ∀ a, a ≠ ctxParent t.nil C → SameLinks t t1 a := fun a ha => ht1 ▸ sameLinks_relink ha
  have hC1 : LinkedCtx t1 C y := ht1 ▸ linkedCtx_relink h.ctx nC hnil hzC h.placeZ.2
  generalize ht2 : bstSetParent t1 y (ctxParent t.nil C) = t2
  have k2 : Keeps P t1 t2 := ht2 ▸ Keeps.setParent (hPm y (by simp)) py.1.1 pp.1
  have s2 : ∀ a, a ≠ y → SameLinks t1 t2 a := fun a ha => ht2 ▸ sameLinks_setParent pp.2 ha
  generalize ht3 : t2.setChild .left y (L.rootOr t.nil) = t3
  have k3 : Keeps P t2 t3 := ht3 ▸ Keeps.setChild (hPm y (by simp)) _ _
  have s3 : ∀ a, a ≠ y → SameLinks t2 t3 a := fun a ha => ht3 ▸ sameLinks_setChild _ _ ha
  generalize ht4 : bstSetParent t3 (L.rootOr t.nil) y = t4
  have k4 : Keeps P t3 t4 := ht4 ▸ Keeps.setParent (hPm _ (.inr (.inr (.inl hL)))) pL.1.1 py.1.1
  have s4 : ∀ a, a ≠ L.rootOr t.nil → SameLinks t3 t4 a := fun a ha => ht4 ▸ sameLinks_setParent py.1.2 ha
  generalize ht5 : bstSetColor t4 y c = t5
  have k5 : Keeps P t4 t5 := ht5 ▸ Keeps.setColor (hPm y (by simp)) py.1.1 c
  have s5 : ∀ a, a ≠ y → SameLinks t4 t5 a := fun a ha => ht5 ▸ sameLinks_setColor c ha
  have k : Keeps P t t5 := k1.trans (k2.trans (k3.trans (k4.trans k5)))
  have same : ∀ a, a ≠ y → a ≠ ctxParent t.nil C → a ≠ L.rootOr t.nil → SameLinks t t5 a := by
    intro a hy hp hl
    exact (s1 a hp).trans ((s2 a hy).trans ((s3 a hy).trans ((s4 a hl).trans (s5 a hy))))
  have hnL : ∀ a ∈ L.inorder, a ≠ ctxParent t.nil C := fun a ha =>
    ne_ctxParent (fun hm => (nCS a hm).2.1 ha) (h.place a ((hmem a).mpr (by simp [ha]))).2
  have hnR : ∀ a ∈ R.inorder, a ≠ ctxParent t.nil C := fun a ha =>
    ne_ctxParent (fun hm => (nCS a hm).2.2 ha) (h.place a ((hmem a).mpr (by simp [ha]))).2
  refine ⟨?_, ?_, k⟩
  · refine linkedCtx_congr ((k2.trans (k3.trans (k4.trans k5))).nil) ?_ (fun a ha => ?_) hC1
    · rw [← ht5, ← ht4, ← ht3, ← ht2]
      rfl
    · obtain ⟨hay, haL, -⟩ := nCS a ha
      exact (s2 a hay).trans ((s3 a hay).trans ((s4 a fun e => haL (e ▸ hL)).trans (s5 a hay)))
  · rw [linked_branch, k.nil]
    refine ⟨?_, ?_, ?_, ?_, ?_, ?_⟩
    · rw [← ht5, Bst.child_setColor, ← ht4, Bst.child_setParent, ← ht3, Bst.child_setChild, if_pos ⟨rfl, rfl⟩]
    · rw [← ht5, Bst.child_setColor, ← ht4, Bst.child_setParent, ← ht3, Bst.child_setChild, if_neg (by simp),
        ← ht2, Bst.child_setParent, (s1 y hyp).1]
      exact h.childY
    · rw [← ht5, Bst.bstParent_setColor, (s4 y hyLr).2.1, ← ht3, Bst.bstParent_setChild, ← ht2,
        Bst.bstParent_setParent _ pp.2, if_pos rfl]
    · rw [← ht5, Bst.bstColor_setColor, if_pos rfl]
    · refine linked_reparent k.nil nL (fun a ha hne => same a ?_ (hnL a ha) hne) (fun _ => ?_) h.left
      · rintro rfl
        exact nyL ha
      · have hLy : L.rootOr t.nil ≠ y := hyLr.symm
        have hLp := hnL _ hL
        refine ⟨fun d => ?_, ?_, ?_⟩
        · rw [(s5 _ hLy).1, ← ht4, Bst.child_setParent, (s3 _ hLy).1, (s2 _ hLy).1, (s1 _ hLp).1]
        · rw [(s5 _ hLy).2.1, ← ht4, Bst.bstParent_setParent _ py.1.2, if_pos rfl]
        · rw [(s5 _ hLy).2.2, ← ht4, Bst.bstColor_setParent _ py.1.2, (s3 _ hLy).2.2, (s2 _ hLy).2.2,
            (s1 _ hLp).2.2]
    · refine linked_congr k.nil (fun a ha => same a ?_ (hnR a ha) ?_) h.right
      · rintro rfl
        exact nyR ha
      · rintro rfl
        exact nLR _ hL ha

/-- The state before the replacement, if `y` is the right child of `z`. -/
theorem replaceable_child {c cy : Color} {z y : Addr}
    (h : Represents t (plug C (branch .left c L z (branch .left cy leaf y B)))) (hL : L ≠ leaf) :
    Replaceable (bstSetParent t (B.rootOr t.nil) y) C c L B z y := by
  obtain ⟨nC, nS, nCS⟩ := nodup_inorder_plug.mp h.nodup
  obtain ⟨nzL, nzY, nL, nY, nLY⟩ := nodup_inorder_branch.mp nS
  obtain ⟨-, nyB, -, nB, -⟩ := nodup_inorder_branch.mp nY
  simp only [mem_inorder_branch, inorder_leaf, List.not_mem_nil, false_or, not_or] at nCS nzY nLY
  have place : ∀ a, a ∈ ctxNodes C ∨ a = z ∨ a ∈ L.inorder ∨ a = y ∨ a ∈ B.inorder → IsPlace a ∧ a ≠ t.nil := by
    intro a ha
    refine h.place a ?_
    rw [mem_inorder_plug]
    simpa using ha
  have py := place y (by simp)
  have pz := place z (by simp)
  obtain ⟨hC, hS⟩ := h.split
  obtain ⟨z1, -, z3, z4, hLz, hY⟩ := linked_branch.mp hS
  obtain ⟨-, y2, -, -, -, hB⟩ := linked_branch.mp hY
  rw [rootOr_branch] at hC
  -- the root of the subtree is a node of its own, or the sentinel
  have hb : ∀ a, a ∉ B.inorder → a ≠ t.nil → a ≠ B.rootOr t.nil := by
    rintro a ha hn rfl
    exact ha (rootOr_mem_of_ne hn)
  have same : ∀ a, a ∉ B.inorder → a ≠ t.nil → SameLinks t (bstSetParent t (B.rootOr t.nil) y) a :=
    fun a ha hn => sameLinks_setParent py.1.2 (hb a ha hn)
  have hzs := same z nzY.2 pz.2
  have hn : (bstSetParent t (B.rootOr t.nil) y).nil = t.nil := rfl
  refine ⟨?_, ?_, ?_, ?_, ?_, ?_, ?_, hL, ?_, ?_, ?_, pz, h.nilPlace⟩
  · exact linkedCtx_congr hn rfl (fun a ha => same a (nCS a ha).2.2.2 (place a (.inl ha)).2) hC
  · exact linked_congr hn (fun a ha => same a (nLY a ha).2 (place a (by simp [ha])).2) hLz
  · refine linked_reparent hn nB (fun a ha hne => sameLinks_setParent py.1.2 hne) (fun _ => ?_) hB
    refine ⟨fun d => by simp, ?_, Bst.bstColor_setParent _ py.1.2 _ _⟩
    rw [Bst.bstParent_setParent _ py.1.2, if_pos rfl]
  · rw [hzs.1]
    exact z1
  · rw [Bst.child_setParent]
    exact y2
  · rw [hzs.2.1]
    exact z3
  · rw [hzs.2.2, z4]
  · rw [nodup_inorder_plug, nodup_inorder_branch]
    refine ⟨nC, ⟨fun hm => (nLY y hm).1 rfl, nyB, nL, nB, fun a ha => (nLY a ha).2⟩, fun a ha => ?_⟩
    simp [(nCS a ha).2.1, (nCS a ha).2.2.1, (nCS a ha).2.2.2]
  · rw [mem_inorder_plug, mem_inorder_branch]
    rintro (hm | rfl | hm | hm)
    · exact (nCS z hm).1 rfl
    · exact nzY.1 rfl
    · exact nzL hm
    · exact nzY.2 hm
  · intro a ha
    rw [mem_inorder_plug, mem_inorder_branch] at ha
    exact place a (by tauto)

/-- The state before the replacement, if `y` was further below and has been taken out. -/
theorem replaceable_far {c : Color} {z y : Addr} (h : Represents t (plug C (branch .left c L z R)))
    (hL : L ≠ leaf) (hR : R ≠ leaf) (hy : y ∉ (plug C (branch .left c L z R)).inorder)
    (py : IsPlace y ∧ y ≠ t.nil) :
    Replaceable (bstSetParent (t.setChild .right y (R.rootOr t.nil)) (R.rootOr t.nil) y) C c L R z y := by
  obtain ⟨nC, nS, nCS⟩ := nodup_inorder_plug.mp h.nodup
  obtain ⟨nzL, nzR, nL, nR, nLR⟩ := nodup_inorder_branch.mp nS
  simp only [mem_inorder_branch, not_or] at nCS
  rw [mem_inorder_plug, mem_inorder_branch, not_or, not_or, not_or] at hy
  obtain ⟨hyC, hyz, hyL, hyR⟩ := hy
  have place : ∀ a, a ∈ ctxNodes C ∨ a = z ∨ a ∈ L.inorder ∨ a ∈ R.inorder → IsPlace a ∧ a ≠ t.nil := by
    intro a ha
    refine h.place a ?_
    rw [mem_inorder_plug]
    simpa using ha
  have pz := place z (by simp)
  obtain ⟨hC, hS⟩ := h.split
  obtain ⟨z1, -, z3, z4, hLz, hRz⟩ := linked_branch.mp hS
  rw [rootOr_branch] at hC
  have hr : R.rootOr t.nil ∈ R.inorder := rootOr_mem _ hR
  have same : ∀ a, a ≠ y → a ≠ R.rootOr t.nil →
      SameLinks t (bstSetParent (t.setChild .right y (R.rootOr t.nil)) (R.rootOr t.nil) y) a :=
    fun a ha hn => (sameLinks_setChild _ _ ha).trans (sameLinks_setParent py.1.2 hn)
  have hzs := same z (Ne.symm hyz) fun e => nzR (e ▸ hr)
  have hn : (bstSetParent (t.setChild .right y (R.rootOr t.nil)) (R.rootOr t.nil) y).nil = t.nil := rfl
  refine ⟨?_, ?_, ?_, ?_, ?_, ?_, ?_, hL, ?_, ?_, ?_, pz, h.nilPlace⟩
  · refine linkedCtx_congr hn rfl (fun a ha => same a ?_ ?_) hC
    · exact fun e => hyC (e ▸ ha)
    · exact fun e => (nCS a ha).2.2 (e ▸ hr)
  · refine linked_congr hn (fun a ha => same a ?_ ?_) hLz
    · exact fun e => hyL (e ▸ ha)
    · exact fun e => nLR a ha (e ▸ hr)
  · refine linked_reparent hn nR (fun a ha hne => same a ?_ hne) (fun _ => ⟨fun d => ?_, ?_, ?_⟩) hRz
    · exact fun e => hyR (e ▸ ha)
    · rw [Bst.child_setParent, Bst.child_setChild, if_neg]
      rintro ⟨e, -⟩
      exact hyR (e ▸ hr)
    · rw [Bst.bstParent_setParent _ py.1.2, if_pos rfl]
    · rw [Bst.bstColor_setParent _ py.1.2, Bst.bstColor_setChild]
  · rw [hzs.1]
    exact z1
  · rw [Bst.child_setParent, Bst.child_setChild, if_pos ⟨rfl, rfl⟩]
    rfl
  · rw [hzs.2.1]
    exact z3
  · rw [hzs.2.2, z4]
  · rw [nodup_inorder_plug, nodup_inorder_branch]
    refine ⟨nC, ⟨hyL, hyR, nL, nR, nLR⟩, fun a ha => ?_⟩
    have hay : a ≠ y := fun e => hyC (e ▸ ha)
    simp [hay, (nCS a ha).2.1, (nCS a ha).2.2]
  · rw [mem_inorder_plug, mem_inorder_branch]
    rintro (hm | rfl | hm | hm)
    · exact (nCS z hm).1 rfl
    · exact hyz rfl
    · exact nzL hm
    · exact nzR hm
  · intro a ha
    rw [mem_inorder_plug, mem_inorder_branch] at ha
    rcases ha with ha | rfl | ha
    · exact place a (.inl ha)
    · exact py
    · exact place a (.inr (.inr ha))

/-- **The replacement**: `y` takes the place of `z` in the tree. -/
theorem Represents.replace {t₁ : Bst V} {c : Color} {z y : Addr} (h : Represents t T)
    (hsub : ∀ a ∈ (plug C (branch .left c L y R)).inorder, a ∈ T.inorder)
    (hk : Keeps (fun a => a ∈ (plug C (branch .left c L y R)).inorder ∨ a = t.nil) t t₁)
    (hcol : bstColor t₁ t.nil = bstColor t t.nil) (hch : ∀ d, t₁.child d t.nil = t.child d t.nil)
    (hr : Replaceable t₁ C c L R z y) :
    Represents (bstReplace t₁ z y) (plug C (branch .left c L y R)) ∧
      Keeps (fun a => a ∈ (plug C (branch .left c L y R)).inorder ∨ a = t.nil) t (bstReplace t₁ z y) ∧
        bstParent (bstReplace t₁ z y) t.nil = bstParent t₁ t.nil := by
  obtain ⟨hC, hS, hk'⟩ := bstReplace_spec hr
  have hheap : (bstReplace t₁ z y).heap t.nil = t₁.heap t.nil :=
    hk'.heap _ fun hm => (h.place _ (hsub _ hm)).2 rfl
  obtain ⟨nch, npar, ncol⟩ := sameLinks_of_heap hheap
  have k := hk.trans (hk'.mono fun a ha => .inl ha)
  refine ⟨h.of_links k.nil hsub hr.nodup (ncol.trans hcol) (fun d => (nch d).trans (hch d)) ?_ ?_, k, npar⟩
  · rw [rootOr_branch]
    exact hC
  · rw [k.nil, ← hk.nil]
    exact hS

/-! ### Unlinking a node -/

/-- What `bst_delete` has done to the tree `T` when the fix-up starts: the node `z` is
gone, and a node of colour `c` is missing above the subtree `S`. -/
structure Unlinked (t : Bst V) (T : ColorTree Addr) (z : Addr) (t' : Bst V) (C : List (Frame Addr))
    (S : ColorTree Addr) (c : Color) : Prop where
  /-- The tree. -/
  rep : Represents t' (plug C S)
  /-- What is kept; of the sentinel the parent field is not. -/
  keeps : Keeps (fun a => a ∈ (plug C S).inorder ∨ a = t.nil) t t'
  /-- The nodes in order. -/
  inorder : ∃ xs ys, T.inorder = xs ++ z :: ys ∧ (plug C S).inorder = xs ++ ys
  /-- The sentinel knows its parent. -/
  leaf : S = leaf → bstParent t' t.nil = ctxParent t.nil C
  /-- The balance. -/
  balance : T.IsRedBlack → topColor .black C = .black ∧
    ∃ n, S.Balanced n ∧ Accepts C (n + c.weight) ∧ (c = .red → S.rootColor = .black)

/-- The balance of a tree around a node with an empty side. -/
theorem balance_splice {d : Side} {c : Color} {x : Addr} (h : (plug C (branch d c leaf x B)).IsRedBlack) :
    topColor .black C = .black ∧
      ∃ n, B.Balanced n ∧ Accepts C (n + c.weight) ∧ (c = .red → B.rootColor = .black) := by
  obtain ⟨hroot, m, hm⟩ := h
  rw [rootColor_plug] at hroot
  obtain ⟨n, hb, hC, -⟩ := exists_balanced_plug hm
  obtain ⟨hred, k, rfl, -, hB⟩ := balanced_branch.mp hb
  exact ⟨topColor_black hroot, k, hB, hC, fun hc => (hred hc).2⟩

/-- A node with an empty side. -/
theorem unlinked_splice {d : Side} {c : Color} {z : Addr} (h : Represents t (plug C (branch d c leaf z B))) :
    Unlinked t (plug C (branch d c leaf z B)) z (bstTransplant t z (B.rootOr t.nil)) C B c := by
  obtain ⟨hr, hk, hp⟩ := h.splice
  refine ⟨hr, hk.mono fun a ha => ?_, ?_, ?_, balance_splice⟩
  · exact ctxParent_or_rootOr_mem ha
  · rw [inorder_plug, inorder_plug]
    cases d
    · exact ⟨before C, B.inorder ++ after C, by simp [branch], by simp⟩
    · exact ⟨before C ++ B.inorder, after C, by simp [branch], by simp⟩
  · rintro rfl
    exact hp

/-- The next node `y` in order has been made ready: what is left of the right subtree hangs
below it, and the sentinel is as it was, except for its parent field. -/
structure Readied (t : Bst V) (C : List (Frame Addr)) (c : Color) (L : ColorTree Addr) (D : List (Frame Addr))
    (B : ColorTree Addr) (z y : Addr) (t' : Bst V) : Prop where
  replaceable : Replaceable t' C c L (plug D B) z y
  keeps : Keeps (fun a => a ∈ (plug C (branch .left c L y (plug D B))).inorder ∨ a = t.nil) t t'
  nilColor : bstColor t' t.nil = bstColor t t.nil
  nilChild : ∀ d, t'.child d t.nil = t.child d t.nil
  nilParent : B = leaf → bstParent t' t.nil = ctxParent t.nil (D ++ [⟨.right, c, y, L⟩])

/-- A node with two subtrees: the next node in order is taken from below, where it has
an empty left side, and takes its place. -/
theorem unlinked_replace {t₁ : Bst V} {c cy : Color} {z y : Addr}
    (h : Represents t (plug C (branch .left c L z (plug D (branch .left cy leaf y B)))))
    (hD : ∀ f ∈ D, f.side = .left) (hready : Readied t C c L D B z y t₁) :
    Unlinked t (plug C (branch .left c L z (plug D (branch .left cy leaf y B)))) z (bstReplace t₁ z y)
      (D ++ ⟨.right, c, y, L⟩ :: C) B cy := by
  have hplug : plug (D ++ ⟨.right, c, y, L⟩ :: C) B = plug C (branch .left c L y (plug D B)) := by
    rw [plug_append]
    exact plug_far .left c L (plug D B) y C
  have hsub : ∀ a ∈ (plug C (branch .left c L y (plug D B))).inorder,
      a ∈ (plug C (branch .left c L z (plug D (branch .left cy leaf y B)))).inorder := by
    intro a ha
    simp only [mem_inorder_plug, mem_inorder_branch] at ha ⊢
    tauto
  obtain ⟨hrep, hkeep, hpar'⟩ := h.replace hsub hready.keeps hready.nilColor hready.nilChild hready.replaceable
  refine ⟨hplug ▸ hrep, hplug ▸ hkeep, ?_, fun hB => ?_, fun hrb => ?_⟩
  · have hbef : before D = [] := before_eq_nil.mpr hD
    refine ⟨before C ++ L.inorder, y :: B.inorder ++ after D ++ after C, ?_, ?_⟩
    · rw [inorder_plug]
      simp [branch, inorder_plug, hbef]
    · rw [hplug, inorder_plug]
      simp [branch, inorder_plug, hbef]
  · rw [hpar', hready.nilParent hB]
    cases D with
    | nil => rfl
    | cons f D => rfl
  · -- the same balance, with the place of `z` taken by `y`
    have hT : plug C (branch .left c L z (plug D (branch .left cy leaf y B))) =
        plug (D ++ ⟨.right, c, z, L⟩ :: C) (branch .left cy leaf y B) := by
      rw [plug_append]
      exact (plug_far .left c L _ z C).symm
    rw [hT] at hrb
    obtain ⟨htop, n, hB, hC, hc⟩ := balance_splice hrb
    rw [topColor_append_cons] at htop ⊢
    exact ⟨htop, n, hB, accepts_rename z y hC, hc⟩

/-- `bst_delete` before the replacement: the next node `y` in order is made ready for
the place of `z`. -/
def bstReady (t : Bst V) (z y : Addr) : Bst V :=
  if y ≠ t.child .right z then
    let t := bstTransplant t y (t.child .right y)
    let t := t.setChild .right y (t.child .right z)
    bstSetParent t (t.child .right y) y
  else bstSetParent t (t.child .right y) y

theorem bstUnlink_two {z y : Addr} {fuel : ℕ} (hz : IsPlace z ∧ z ≠ t.nil) (hy : y ≠ NULL)
    (hl : t.child .left z ≠ t.nil) (hr : t.child .right z ≠ t.nil)
    (hmin : bstLocalMinimum fuel t (t.child .right z) = some y) :
    bstUnlink fuel t z = some (bstReplace (bstReady t z y) z y, t.child .right y, bstColor t y) := by
  simp only [bstUnlink, Bst.assert_of t hz.2, Bst.touch_of t hz.1.1, if_neg hl, if_neg hr, hmin,
    Option.bind_eq_bind, Option.bind_some, Bst.touch_of t hy]
  rfl

/-- The next node in order is the right child. -/
theorem readied_child {c cy : Color} {z y : Addr}
    (h : Represents t (plug C (branch .left c L z (branch .left cy leaf y B)))) (hL : L ≠ leaf) :
    Readied t C c L [] B z y (bstSetParent t (B.rootOr t.nil) y) := by
  have hfar := h
  rw [← plug_far] at hfar
  have py := hfar.place y (by simp [mem_inorder_plug])
  have pB := hfar
  rw [← plug_far] at pB
  refine ⟨replaceable_child h hL, ?_, Bst.bstColor_setParent _ py.1.2 _ _, fun d => by simp, ?_⟩
  · refine Keeps.setParent ?_ pB.rootOr_place.1 py.1.1
    by_cases hB : B = leaf
    · subst hB
      exact .inr rfl
    · refine .inl (mem_inorder_plug.mpr (.inr ?_))
      simp [rootOr_mem t.nil hB]
  · rintro rfl
    rw [rootOr_leaf, Bst.bstParent_setParent _ py.1.2, if_pos rfl]
    rfl

/-- The next node in order is further below: its own right subtree takes its place first. -/
theorem readied_far {c cy : Color} {z y : Addr}
    (h : Represents t (plug C (branch .left c L z (plug D (branch .left cy leaf y B))))) (hL : L ≠ leaf)
    (hD : D ≠ []) :
    Readied t C c L D B z y (bstSetParent ((bstTransplant t y (B.rootOr t.nil)).setChild .right y
      ((plug D B).rootOr t.nil)) ((plug D B).rootOr t.nil) y) := by
  have hfar := h
  rw [← plug_far, ← plug_append] at hfar
  have py := hfar.place y (by simp [mem_inorder_plug])
  obtain ⟨hs, hk, hp⟩ := hfar.splice
  generalize bstTransplant t y (B.rootOr t.nil) = t' at hs hk hp
  have hn : t'.nil = t.nil := hk.nil
  rw [plug_append, plug_far] at hs
  rw [← hn]
  have hR : plug D B ≠ leaf := by
    intro e
    have hm : (plug D B).rootOr t.nil ∈ (plug D B).inorder := mem_inorder_plug.mpr (.inl (rootOr_plug_mem hD))
    simp [e] at hm
  have hyT : y ∉ (plug C (branch .left c L z (plug D B))).inorder := by
    have hnd := nodup_inorder_plug.mp hfar.nodup
    have hyB := (nodup_inorder_branch.mp hnd.2.1).2.1
    rw [← plug_far, ← plug_append, mem_inorder_plug]
    rintro (hm | hm)
    · exact hnd.2.2 y hm (by simp)
    · exact hyB hm
  have hrm : (plug D B).rootOr t'.nil ∈ (plug D B).inorder := rootOr_mem _ hR
  have prn := hs.place _ (mem_inorder_plug.mpr (.inr (mem_inorder_branch.mpr (.inr (.inr hrm)))))
  refine ⟨replaceable_far hs hL hR hyT (hn ▸ py), ?_, ?_, fun d => ?_, ?_⟩
  · have mem : ∀ a, a ∈ ctxNodes D ∨ a ∈ B.inorder ∨ a = y →
        a ∈ (plug C (branch .left c L y (plug D B))).inorder := by
      intro a ha
      simp only [mem_inorder_plug, mem_inorder_branch]
      tauto
    have hy : y ∈ (plug C (branch .left c L y (plug D B))).inorder := mem y (.inr (.inr rfl))
    refine (hk.mono fun a ha => ?_).trans ((Keeps.setChild (.inl hy) _ _).trans
      (Keeps.setParent (.inl ?_) prn.1.1 py.1.1))
    · rcases ha with rfl | rfl
      · refine .inl (mem _ (.inl ?_))
        cases D with
        | nil => exact absurd rfl hD
        | cons f D => simp
      · by_cases hB : B = leaf
        · subst hB
          exact .inr rfl
        · exact .inl (mem _ (.inr (.inl (rootOr_mem _ hB))))
    · have := mem_inorder_plug.mp hrm
      exact mem _ (by tauto)
  · rw [Bst.bstColor_setParent _ py.1.2, Bst.bstColor_setChild, ← hn, hs.nilColor, hn, h.nilColor]
  · rw [Bst.child_setParent, Bst.child_setChild, if_neg, ← hn, hs.nilChild, hn, h.nilChild]
    rintro ⟨e, -⟩
    exact py.2 e.symm
  · rintro rfl
    rw [Bst.bstParent_setParent _ py.1.2, if_neg, Bst.bstParent_setChild]
    · rw [rootOr_leaf] at hp
      rw [hp]
      cases D with
      | nil => exact absurd rfl hD
      | cons f D => rfl
    · rw [← hn]
      exact fun e => prn.2 e.symm

/-- `bst_delete` makes the next node in order ready. -/
theorem bstReady_spec {c cy : Color} {z y : Addr}
    (h : Represents t (plug C (branch .left c L z (plug D (branch .left cy leaf y B))))) (hL : L ≠ leaf) :
    Readied t C c L D B z y (bstReady t z y) := by
  have hfar := h
  rw [← plug_far, ← plug_append] at hfar
  have y2 := hfar.links.2.1
  have hr := h.links.2.1
  rw [Side.flip_left] at y2 hr
  unfold bstReady
  rw [y2]
  by_cases hD : D = []
  · subst hD
    have hroot : y = t.child .right z := by simp [hr]
    rw [if_neg (not_not.mpr hroot)]
    exact readied_child h hL
  · have hroot : y ≠ t.child .right z := by
      rw [hr]
      intro e
      have h' := h
      rw [← plug_far] at h'
      have hnd := nodup_inorder_plug.mp (nodup_inorder_plug.mp h'.nodup).2.1
      exact hnd.2.2 y (e ▸ rootOr_plug_mem hD) (by simp)
    rw [if_pos hroot]
    have hready := readied_far h hL hD
    obtain ⟨hs, hk, -⟩ := hfar.splice
    generalize bstTransplant t y (B.rootOr t.nil) = t' at hs hk hready
    rw [plug_append, plug_far] at hs
    have hrz : t'.child .right z = (plug D B).rootOr t.nil := by
      rw [← hk.nil]
      exact hs.links.2.1
    have hyr : ∀ b, (t'.setChild .right y b).child .right y = b := by
      intro b
      rw [Bst.child_setChild, if_pos ⟨rfl, rfl⟩]
    simp only [hyr, hrz]
    exact hready

/-- **`bst_delete` up to the fix-up** takes the node out of the tree. -/
theorem bstUnlink_spec {c : Color} {z : Addr} {fuel : ℕ} (h : Represents t (plug C (branch .left c L z R)))
    (hfuel : R.size < fuel) :
    ∃ t' C' S c', bstUnlink fuel t z = some (t', S.rootOr t.nil, c') ∧
      Unlinked t (plug C (branch .left c L z R)) z t' C' S c' := by
  have hz := h.place z (by simp [mem_inorder_plug])
  obtain ⟨hl, hr, -, hc⟩ := h.links
  rw [Side.flip_left] at hr
  have hnear := h
  rw [← plug_near] at hnear
  have hfar := h
  rw [← plug_far] at hfar
  by_cases hL : L = leaf
  · have hl' : t.child .left z = t.nil := by rw [hl, hL, rootOr_leaf]
    rw [hL] at h ⊢
    refine ⟨_, C, R, c, ?_, unlinked_splice h⟩
    simp only [bstUnlink, Bst.assert_of t hz.2, Bst.touch_of t hz.1.1, hc, if_pos hl', hr]
  have hl' : t.child .left z ≠ t.nil := by
    rw [hl]
    exact fun e => hL (hnear.rootOr_eq_nil.mp e)
  by_cases hR : R = leaf
  · have hr' : t.child .right z = t.nil := by rw [hr, hR, rootOr_leaf]
    have hflip : branch .left c L z R = branch .right c leaf z L := by
      rw [hR]
      rfl
    rw [hflip] at h ⊢
    refine ⟨_, C, L, c, ?_, unlinked_splice h⟩
    simp only [bstUnlink, Bst.assert_of t hz.2, Bst.touch_of t hz.1.1, hc, if_neg hl', if_pos hr']
    rw [hl]
  have hr' : t.child .right z ≠ t.nil := by
    rw [hr]
    exact fun e => hR (hfar.rootOr_eq_nil.mp e)
  -- two subtrees: the next node in order takes the place
  obtain ⟨D, cy, y, B, hmin, rfl, hD⟩ := bstLocalExtreme_spec (d := .left) hfar hR hfuel
  have hy := hfar
  rw [← plug_append] at hy
  have py := hy.place y (by simp [mem_inorder_plug])
  obtain ⟨-, y2, -, y4⟩ := hy.links
  rw [Side.flip_left] at y2
  refine ⟨_, _, B, cy, ?_, unlinked_replace h hD (bstReady_spec h hL)⟩
  rw [← hr] at hmin
  rw [bstUnlink_two hz py.1.1 hl' hr' hmin, y2, y4]

/-- **`bst_delete`** takes the node out of the tree, which is a red-black tree again. -/
theorem bstDelete_spec {z : Addr} {fuel : ℕ} (h : Represents t T) (hrb : T.IsRedBlack) (hz : z ∈ T.inorder)
    (hfuel : T.size < fuel) :
    ∃ t' T' xs ys, bstDelete fuel t z = some t' ∧ Represents t' T' ∧ T'.IsRedBlack ∧
      T.inorder = xs ++ z :: ys ∧ T'.inorder = xs ++ ys ∧
        Keeps (fun a => a ∈ T'.inorder ∨ a = t.nil) t t' := by
  obtain ⟨C, c, L, R, rfl⟩ := exists_plug_of_mem hz
  have hsize := size_plug_le C (branch .left c L z R)
  rw [size_branch] at hsize
  have hT : (plug C (node c L z R)).size = (plug C (branch .left c L z R)).size := rfl
  have hR : R.size < fuel := by omega
  obtain ⟨t₁, C', S, c', e, hu⟩ := bstUnlink_spec (L := L) (R := R) h hR
  obtain ⟨xs, ys, hxs, hys⟩ := hu.inorder
  obtain ⟨htop, n, hS, hC, hred⟩ := hu.balance hrb
  simp only [bstDelete, e, Option.bind_eq_bind, Option.bind_some]
  rcases c'.eq_red_or_black with rfl | rfl
  · refine ⟨t₁, plug C' S, xs, ys, by simp, hu.rep, ⟨?_, ?_⟩, hxs, hys, hu.keeps⟩
    · rw [rootColor_plug, hred rfl, htop]
    · refine balanced_plug hS hC fun hr => ?_
      rw [hred rfl] at hr
      cases hr
  · have hlen : C'.length < fuel := by
      have h1 := size_plug_le C' S
      have h2 := length_inorder (plug C' S)
      have h3 := length_inorder (plug C (node c L z R))
      have h4 := congrArg List.length hxs
      have h5 := congrArg List.length hys
      simp only [List.length_append, List.length_cons] at h4 h5
      have h6 : (plug C (node c L z R)).inorder.length = (plug C (branch .left c L z R)).inorder.length := rfl
      omega
    have hn : t₁.nil = t.nil := hu.keeps.nil
    obtain ⟨t', T', e', hr, hrb', hin, hk⟩ := bstFixupDelete_spec hu.rep hS hC htop
      (fun hl => by rw [hn]; exact hu.leaf hl) hlen
    rw [hn] at e' hk
    refine ⟨t', T', xs, ys, by simpa using e', hr, hrb', hxs, hin.trans hys, ?_⟩
    rw [hin]
    exact hu.keeps.trans hk

end FileSync.SearchTree
