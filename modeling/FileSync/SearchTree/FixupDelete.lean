import FileSync.SearchTree.Rotate

/-!
# The fix-up after a deletion

`bst_fixup_delete` puts the missing black node back. Its loop works on a subtree
in a context whose black height is one too small. A turn moves the gap up
(`fixupDeleteRest_recolor`), or closes it with rotations
(`fixupDeleteRest_repair`); a red sibling is first turned into a black one
(`fixupDeleteSide_redSibling`).

A red subtree closes the gap by becoming black, so all that is asked of it is
that it would then be balanced (`Short`).
-/

namespace FileSync.SearchTree

open FileSync.Lib ColorTree

variable {V : Type} {t t₀ : Bst V} {xs : List Addr} {A B D S : ColorTree Addr} {C : List (Frame Addr)}

/-! ### A turn of the loop -/

/-- The branch of the loop of `bst_fixup_delete` from where the sibling is black. -/
def fixupDeleteRest (d : Side) (t : Bst V) (parent sibling : Addr) : Bst V × Addr :=
  let t := t.touch (t.child .left sibling)
  let leftBlack := bstColor t (t.child .left sibling) = .black
  let t := if leftBlack then t.touch (t.child .right sibling) else t
  if leftBlack ∧ bstColor t (t.child .right sibling) = .black then
    (bstSetColor t sibling .red, parent)
  else
    let t := t.touch (t.child d.flip sibling)
    let (t, sibling) :=
      if bstColor t (t.child d.flip sibling) = .black then
        let t := bstSetColor t (t.child d sibling) .black
        let t := bstSetColor t sibling .red
        let t := bstRotate d.flip t sibling
        (t, t.child d.flip parent)
      else (t, sibling)
    let t := t.touch parent
    let t := bstSetColor t sibling (bstColor t parent)
    let t := bstSetColor t parent .black
    let t := bstSetColor t (t.child d.flip sibling) .black
    let t := bstRotate d t parent
    (t, t.root)

theorem bstFixupDeleteSide_eq (d : Side) (t : Bst V) (parent : Addr) :
    bstFixupDeleteSide d t parent =
      (let sibling := t.child d.flip parent
      let t := t.touch sibling
      let s : Bst V × Addr :=
        if bstColor t sibling = .red then
          let t := bstRotate d (bstSetColor (bstSetColor t sibling .black) parent .red) parent
          (t, t.child d.flip parent)
        else (t, sibling)
      fixupDeleteRest d s.1 parent s.2) := rfl

/-- The last step of a repair: the sibling gets the colour of the parent, and the parent
and the far nephew become black, and the sibling comes up. -/
def fixupDeleteLast (d : Side) (t : Bst V) (parent sibling : Addr) : Bst V × Addr :=
  let t := bstSetColor t sibling (bstColor t parent)
  let t := bstSetColor t parent .black
  let t := bstSetColor t (t.child d.flip sibling) .black
  let t := bstRotate d t parent
  (t, t.root)

/-- The tests of `fixupDeleteRest`, on a sibling with the subtrees `B` and `D`. -/
theorem fixupDeleteRest_eq {d : Side} {c cw : Color} {p w : Addr}
    (h : Represents t (plug C (branch d c S p (branch d cw B w D)))) :
    fixupDeleteRest d t p w =
      if B.rootColor = .black ∧ D.rootColor = .black then (bstSetColor t w .red, p)
      else
        let s : Bst V × Addr :=
          if D.rootColor = .black then
            let t := bstRotate d.flip (bstSetColor (bstSetColor t (B.rootOr t.nil) .black) w .red) w
            (t, t.child d.flip p)
          else (t, w)
        fixupDeleteLast d (s.1.touch p) p s.2 := by
  have hw := h
  rw [← plug_far] at hw
  obtain ⟨hB, hD, -, -⟩ := hw.links
  have hB' := hw
  rw [← plug_near] at hB'
  have hD' := hw
  rw [← plug_far] at hD'
  have cB := hB'.color
  have cD := hD'.color
  have tB := fun t' : Bst V => Bst.touch_of t' hB'.rootOr_place.1
  have tD := fun t' : Bst V => Bst.touch_of t' hD'.rootOr_place.1
  unfold fixupDeleteRest
  -- the source reads the left nephew first, whichever side the gap is on
  cases d
  · simp only [Side.flip_left] at hB hD ⊢
    simp only [hB, hD, tB, tD, cB, cD, ite_self]
    rfl
  · simp only [Side.flip_right] at hB hD ⊢
    simp only [hB, hD, tB, tD, cB, cD, ite_self, and_comm (a := D.rootColor = .black)]
    rfl

/-- Both nephews are black: the sibling becomes red and the gap moves up. -/
theorem fixupDeleteRest_recolor {d : Side} {c cw : Color} {p w : Addr}
    (h : Reshapes t₀ xs t (plug C (branch d c S p (branch d cw B w D)))) (hB : B.rootColor = .black)
    (hD : D.rootColor = .black) :
    ∃ t', fixupDeleteRest d t p w = (t', p) ∧
      Reshapes t₀ xs t' (plug C (branch d c S p (branch d .red B w D))) := by
  refine ⟨bstSetColor t w .red, ?_, ?_⟩
  · rw [fixupDeleteRest_eq h.rep, if_pos ⟨hB, hD⟩]
  · rw [← plug_far] at h ⊢
    exact h.setColor .red

/-- The far nephew is red: one rotation at the parent closes the gap. -/
theorem fixupDeleteLast_spec {d : Side} {c cw : Color} {p w e : Addr} {D₁ D₂ : ColorTree Addr}
    (h : Reshapes t₀ xs t (plug C (branch d c S p (branch d cw B w (branch d .red D₁ e D₂))))) :
    ∃ t', fixupDeleteLast d (t.touch p) p w = (t', t'.root) ∧
      Reshapes t₀ xs t' (plug C (branch d c (branch d .black S p B) w (branch d .black D₁ e D₂))) := by
  have hp : p ≠ NULL := (h.rep.place p (by simp [mem_inorder_plug])).1.1
  have hc : bstColor t p = c := h.rep.links.2.2.2
  have he : ∀ c', t.child d.flip w = e ∧ (bstSetColor (bstSetColor t w c') p .black).child d.flip w = e := by
    intro c'
    have hw := h.rep
    rw [← plug_far] at hw
    have := hw.links.2.1
    rw [rootOr_branch] at this
    exact ⟨this, by simpa using this⟩
  refine ⟨bstRotate d (bstSetColor (bstSetColor (bstSetColor t w c) p .black) e .black) p, ?_, ?_⟩
  · simp only [fixupDeleteLast, Bst.touch_of t hp, hc, (he c).2]
  · rw [← plug_far] at h
    have h1 := h.setColor c
    rw [plug_far] at h1
    have h2 := h1.setColor .black
    rw [← plug_far, ← plug_far] at h2
    have h3 := h2.setColor .black
    rw [plug_far, plug_far] at h3
    exact h3.rotate

/-- Some nephew is red: the gap is closed, with a rotation at the sibling first if it is
the near one. -/
theorem fixupDeleteRest_repair {d : Side} {c : Color} {p w : Addr} {n : ℕ}
    (h : Reshapes t₀ xs t (plug C (branch d c S p (branch d .black B w D))))
    (hred : ¬ (B.rootColor = .black ∧ D.rootColor = .black)) (hS : S.Balanced n) (hB : B.Balanced n)
    (hD : D.Balanced n) :
    ∃ t' U, fixupDeleteRest d t p w = (t', t'.root) ∧ Reshapes t₀ xs t' (plug C U) ∧
      U.Balanced (n + 1 + c.weight) ∧ U.rootColor = c := by
  rw [fixupDeleteRest_eq h.rep, if_neg hred]
  rcases D.rootColor.eq_red_or_black with hDr | hDb
  · obtain ⟨D₁, e, D₂, rfl⟩ := exists_branch_of_red d hDr
    rw [if_neg (by simp)]
    obtain ⟨t', e', h'⟩ := fixupDeleteLast_spec h
    rw [balanced_branch_red] at hD
    refine ⟨t', _, e', h', ?_, by simp⟩
    exact balanced_branch.mpr ⟨by simp, n + 1, rfl, balanced_branch_black.mpr ⟨n, rfl, hS, hB⟩,
      balanced_branch_black.mpr ⟨n, rfl, hD.2.2.1, hD.2.2.2⟩⟩
  · have hBr : B.rootColor = .red := Color.ne_black_iff.mp fun hb => hred ⟨hb, hDb⟩
    obtain ⟨B₁, b, B₂, rfl⟩ := exists_branch_of_red d hBr
    rw [if_pos hDb, rootOr_branch]
    rw [balanced_branch_red] at hB
    have h1 := h
    rw [← plug_far, ← plug_near] at h1
    have h2 := h1.setColor .black
    rw [plug_near] at h2
    have h3 := (h2.setColor .red).rotateBack
    rw [plug_far] at h3
    have hb := h3.rep.links.2.1
    rw [rootOr_branch] at hb
    simp only [hb]
    obtain ⟨t', e', h'⟩ := fixupDeleteLast_spec h3
    refine ⟨t', _, e', h', ?_, by simp⟩
    exact balanced_branch.mpr ⟨by simp, n + 1, rfl, balanced_branch_black.mpr ⟨n, rfl, hS, hB.2.2.1⟩,
      balanced_branch_black.mpr ⟨n, rfl, hB.2.2.2, hD⟩⟩

/-- A red sibling: after a rotation the parent is red and has a black sibling below it. -/
theorem fixupDeleteSide_redSibling {d : Side} {c : Color} {p y : Addr}
    (h : Reshapes t₀ xs t (plug C (branch d c S p (branch d .red B y D)))) :
    ∃ t', bstFixupDeleteSide d t p = fixupDeleteRest d t' p (B.rootOr t'.nil) ∧
      Reshapes t₀ xs t' (plug (⟨d, .black, y, D⟩ :: C) (branch d .red S p B)) := by
  have hsib := h.rep.links.2.1
  rw [rootOr_branch] at hsib
  have hy := h
  rw [← plug_far] at hy
  have hyc : bstColor t y = .red := by simpa using hy.rep.color
  have hyN : y ≠ NULL := by simpa using hy.rep.rootOr_place.1
  have h1 := hy.setColor .black
  rw [plug_far] at h1
  have h2 := (h1.setColor .red).rotate
  rw [← plug_near] at h2
  refine ⟨_, ?_, h2⟩
  rw [bstFixupDeleteSide_eq]
  simp only [hsib, Bst.touch_of t hyN, hyc, if_true]
  rw [h2.rep.links.2.1]

/-- A black sibling. -/
theorem fixupDeleteSide_blackSibling {d : Side} {c : Color} {p y : Addr}
    (h : Reshapes t₀ xs t (plug C (branch d c S p (branch d .black B y D)))) :
    bstFixupDeleteSide d t p = fixupDeleteRest d t p y := by
  have hsib := h.rep.links.2.1
  rw [rootOr_branch] at hsib
  have hy := h
  rw [← plug_far] at hy
  have hyc : bstColor t y = .black := by simpa using hy.rep.color
  have hyN : y ≠ NULL := by simpa using hy.rep.rootOr_place.1
  rw [bstFixupDeleteSide_eq]
  simp only [hsib, Bst.touch_of t hyN, hyc]
  rfl

/-! ### The loop -/

/-- The tree with its root made black. -/
def blacken : ColorTree Addr → ColorTree Addr
  | .leaf => .leaf
  | .node _ l a r => .node .black l a r

theorem blacken_branch (d : Side) (c : Color) (x : Addr) :
    blacken (branch d c A x B) = branch d .black A x B := by
  cases d <;> rfl

theorem inorder_blacken (T : ColorTree Addr) : (blacken T).inorder = T.inorder := by
  cases T <;> rfl

theorem rootColor_blacken (T : ColorTree Addr) : (blacken T).rootColor = .black := by
  cases T <;> rfl

/-- The subtree is balanced with the black height `n`, or will have one more when its red
root is made black. -/
def Short (S : ColorTree Addr) (n : ℕ) : Prop :=
  (S.rootColor = .black → S.Balanced n) ∧ (S.rootColor = .red → (blacken S).Balanced (n + 1))

theorem Short.of_balanced {n : ℕ} (h : S.Balanced n) : Short S n := by
  refine ⟨fun _ => h, fun hr => ?_⟩
  obtain ⟨s, a, u, rfl⟩ := exists_branch_of_red .left hr
  rw [balanced_branch_red] at h
  rw [blacken_branch, balanced_branch_black]
  exact ⟨n, rfl, h.2.2⟩

theorem Short.blacken_balanced {n : ℕ} (h : Short S n) : ∃ m, (blacken S).Balanced m := by
  rcases S.rootColor.eq_red_or_black with hr | hb
  · exact ⟨n + 1, h.2 hr⟩
  · refine ⟨n, ?_⟩
    have := h.1 hb
    cases S with
    | leaf => exact this
    | node c l a r =>
      obtain rfl : c = .black := hb
      exact this

section Loop

variable (t₀ : Bst V) (xs : List Addr)

/-- The invariant of the loop of `bst_fixup_delete`: at the node a black node is missing.
The parent field of the sentinel is right if the node is the sentinel. -/
def FixupDeleteInv (k : ℕ) (s : Bst V × Addr) : Prop :=
  ∃ C S n, Reshapes t₀ xs s.1 (plug C S) ∧ s.2 = S.rootOr s.1.nil ∧ Short S n ∧ Accepts C (n + 1) ∧
    topColor .black C = .black ∧ (S = leaf → bstParent s.1 s.1.nil = ctxParent s.1.nil C) ∧
      (S.rootColor = .black → C.length ≤ k)

/-- What the loop of `bst_fixup_delete` leaves: a tree that is balanced as soon as the
node is made black. -/
def FixupDeletePost (s : Bst V × Addr) : Prop :=
  ∃ C S m, Reshapes t₀ xs s.1 (plug C S) ∧ s.2 = S.rootOr s.1.nil ∧
    (plug C (blacken S)).Balanced m ∧ topColor .black C = .black

end Loop

/-- The node is a red one, or the root. -/
theorem fixupDeletePost_of {n : ℕ} (h : Reshapes t₀ xs t (plug C S)) (hS : Short S n)
    (hC : Accepts C (n + 1)) (htop : topColor .black C = .black) (hend : C = [] ∨ S.rootColor = .red) :
    FixupDeletePost t₀ xs (t, S.rootOr t.nil) := by
  by_cases hnil : C = []
  · subst hnil
    obtain ⟨m, hm⟩ := hS.blacken_balanced
    exact ⟨[], S, m, h, rfl, hm, rfl⟩
  · obtain ⟨m, hm⟩ := balanced_plug (hS.2 (hend.resolve_left hnil)) hC
      (by rw [rootColor_blacken]; intro e; cases e)
    exact ⟨C, S, m, h, rfl, hm, htop⟩

/-- The sibling of a subtree with a black node missing is not empty. -/
theorem exists_branch_of_balanced_succ {n : ℕ} (d : Side) (h : S.Balanced (n + 1)) :
    ∃ c near a far, S = branch d c near a far := by
  refine (eq_leaf_or_branch d S).resolve_left ?_
  rintro rfl
  cases h

/-- The black sibling: the gap moves up or is closed. -/
theorem fixupDeleteRest_ok {d : Side} {c : Color} {p w : Addr} {k n : ℕ}
    (h : Reshapes t₀ xs t (plug C (branch d c S p (branch d .black B w D)))) (hS : S.Balanced n)
    (hB : B.Balanced n) (hD : D.Balanced n) (hC : Accepts C (n + 1 + c.weight))
    (hc : c = .red → ctxColor C = .black) (htop : topColor .black C = .black)
    (hk : c = .black → C.length < k) (hk0 : 0 < k) :
    TurnOk (FixupDeleteInv t₀ xs) (FixupDeletePost t₀ xs) k (.again (fixupDeleteRest d t p w)) := by
  by_cases hBD : B.rootColor = .black ∧ D.rootColor = .black
  · obtain ⟨t', e, h'⟩ := fixupDeleteRest_recolor h hBD.1 hBD.2
    rw [e]
    have hsib : (branch d .red B w D).Balanced n := balanced_branch_red.mpr ⟨hBD.1, hBD.2, hB, hD⟩
    rcases c.eq_red_or_black with rfl | rfl
    · refine ⟨0, hk0, C, branch d .red S p (branch d .red B w D), n, h', by simp, ⟨by simp, fun _ => ?_⟩,
        hC, htop, fun e => absurd e branch_ne_leaf, by simp⟩
      rw [blacken_branch, balanced_branch_black]
      exact ⟨n, rfl, hS, hsib⟩
    · refine ⟨C.length, hk rfl, C, branch d .black S p (branch d .red B w D), n + 1, h', by simp,
        ⟨fun _ => balanced_branch_black.mpr ⟨n, rfl, hS, hsib⟩, by simp⟩, hC, htop,
        fun e => absurd e branch_ne_leaf, fun _ => le_rfl⟩
  · obtain ⟨t', U, e, h', hU, hUc⟩ := fixupDeleteRest_repair h hBD hS hB hD
    rw [e]
    obtain ⟨m, hm⟩ := balanced_plug hU hC (by rw [hUc]; exact hc)
    refine ⟨0, hk0, [], plug C U, m, h', h'.rep.root, Short.of_balanced hm, trivial, rfl, ?_, by simp⟩
    intro e
    have : p ∈ (plug C U).inorder := by
      rw [h'.inorder, ← h.inorder]
      simp [mem_inorder_plug]
    simp [e] at this

/-- Both copies of the loop body: the gap is at some side of the parent. -/
theorem fixupDeleteTurn_black {f : Frame Addr} {n : ℕ} (h : Reshapes t₀ xs t (plug (f :: C) S))
    (hSb : S.rootColor = .black) (hsib : f.sib.Balanced (n + 1))
    (hleaf : S = leaf → bstParent t t.nil = ctxParent t.nil (f :: C)) :
    bstFixupDeleteTurn (t, S.rootOr t.nil) = .again (bstFixupDeleteSide f.side t f.addr) := by
  have hroot : S.rootOr t.nil ≠ t.root := by
    intro e
    simpa using (h.rep.root_eq_rootOr (.inr (by simp))).mp e
  have hpar : bstParent t (S.rootOr t.nil) = f.addr := by
    cases S with
    | leaf => exact hleaf rfl
    | node c l a r => exact (h.rep.links (d := .left)).2.2.1
  have hcol : bstColor t (S.rootOr t.nil) = .black := by rw [h.rep.color, hSb]
  have hN : S.rootOr t.nil ≠ NULL := h.rep.rootOr_place.1
  have hf := h.rep
  rw [plug_cons] at hf
  have hl := hf.links
  have hleft : S.rootOr t.nil = t.child .left f.addr ↔ f.side = .left := by
    constructor
    · intro e
      by_contra hne
      have hflip : f.side.flip = .left := by cases hs : f.side <;> simp_all
      rw [hflip] at hl
      rw [hl.2.1] at e
      -- the sibling is a node, and not one of the subtree
      obtain ⟨c, s, a, u, hsb⟩ := exists_branch_of_balanced_succ .left hsib
      rw [hsb, rootOr_branch] at e
      have hnd := nodup_inorder_branch.mp (nodup_inorder_plug.mp hf.nodup).2.1
      rw [hsb] at hnd
      have han : a ≠ t.nil := (hf.place a (by rw [hsb]; simp [mem_inorder_plug])).2
      refine hnd.2.2.2.2 a ?_ (by simp)
      rw [← e]
      exact rootOr_mem_of_ne (by rw [e]; exact han)
    · intro hs
      rw [hs] at hl
      exact hl.1.symm
  simp only [bstFixupDeleteTurn, if_pos hroot, Bst.touch_of t hN, hcol, hpar]
  rw [if_pos ⟨hroot, trivial⟩]
  cases hs : f.side
  · rw [if_pos (hleft.mpr hs)]
  · rw [if_neg fun e => by simp [hleft.mp e] at hs]

theorem fixupDeleteTurn_ok {k : ℕ} {s : Bst V × Addr} (hs : FixupDeleteInv t₀ xs k s) :
    TurnOk (FixupDeleteInv t₀ xs) (FixupDeletePost t₀ xs) k (bstFixupDeleteTurn s) := by
  obtain ⟨t, x⟩ := s
  obtain ⟨C, S, n, h, hx, hS, hC, htop, hleaf, hk⟩ := hs
  simp only at h hx hleaf
  subst hx
  have hN : S.rootOr t.nil ≠ NULL := h.rep.rootOr_place.1
  -- a red node, or the root: the loop is left
  have leave : C = [] ∨ S.rootColor = .red →
      TurnOk (FixupDeleteInv t₀ xs) (FixupDeletePost t₀ xs) k (bstFixupDeleteTurn (t, S.rootOr t.nil)) := by
    intro hend
    have hcond : ¬ (S.rootOr t.nil ≠ t.root ∧ bstColor t (S.rootOr t.nil) = .black) := by
      rintro ⟨h1, h2⟩
      rcases hend with rfl | hr
      · exact h1 h.rep.root.symm
      · rw [h.rep.color, hr] at h2
        cases h2
    have e : bstFixupDeleteTurn (t, S.rootOr t.nil) = .leave (t, S.rootOr t.nil) := by
      simp only [bstFixupDeleteTurn, Bst.touch_of t hN, ite_self, hcond]
      rfl
    rw [e]
    exact fixupDeletePost_of h hS hC htop hend
  rcases S.rootColor.eq_red_or_black with hr | hb
  · exact leave (.inr hr)
  · cases C with
    | nil => exact leave (.inl rfl)
    | cons f C =>
      obtain ⟨hsib, hfr, hC⟩ := hC
      have hSn := hS.1 hb
      rw [fixupDeleteTurn_black h hb hsib hleaf]
      obtain ⟨c, B, y, D, e⟩ := exists_branch_of_balanced_succ f.side hsib
      rw [plug_cons, e] at h
      rw [e] at hsib hfr
      rw [topColor_cons] at htop
      have htop' : topColor .black C = .black := by
        cases C with
        | nil => rfl
        | cons _ _ => exact htop
      have hlen : C.length < k := hk hb
      rcases c.eq_red_or_black with rfl | rfl
      · -- the parent of a red sibling is black, and so are the nephews
        have hfb : f.color = .black := Color.ne_red_iff.mp fun hf => by simpa using (hfr hf).1
        rw [balanced_branch_red] at hsib
        obtain ⟨hBb, hDb, hB, hD⟩ := hsib
        obtain ⟨t', e', h'⟩ := fixupDeleteSide_redSibling h
        obtain ⟨c', B', w, D', rfl⟩ := exists_branch_of_balanced_succ f.side hB
        obtain rfl : c' = .black := by simpa using hBb
        rw [balanced_branch_black] at hB
        obtain ⟨m, hm, hB', hD'⟩ := hB
        obtain rfl : m = n := by omega
        rw [hfb] at hC
        rw [e', rootOr_branch]
        refine fixupDeleteRest_ok h' hSn hB' hD' ?_ (fun _ => rfl) htop' (by simp) (by omega)
        exact ⟨hD, by simp, hC⟩
      · rw [balanced_branch_black] at hsib
        obtain ⟨m, hm, hB, hD⟩ := hsib
        obtain rfl : m = n := by omega
        rw [fixupDeleteSide_blackSibling h]
        exact fixupDeleteRest_ok h hSn hB hD hC (fun hf => (hfr hf).2) htop' (fun _ => hlen) (by omega)

/-- Making the sentinel black changes nothing. -/
theorem Represents.setColor_nil {T : ColorTree Addr} (h : Represents t T) :
    Represents (bstSetColor t t.nil .black) T ∧
      Keeps (fun a => a = t.nil) t (bstSetColor t t.nil .black) := by
  have hk : Keeps (fun a => a = t.nil) t (bstSetColor t t.nil .black) := by
    exact Keeps.setColor (S := fun a => a = t.nil) rfl h.nilPlace.1 .black
  refine ⟨h.congr rfl rfl fun a _ => ⟨fun d => by simp, by simp, ?_⟩, hk⟩
  rw [Bst.bstColor_setColor]
  split_ifs with ha
  · rw [ha, h.nilColor]
  · rfl

/-- **`bst_fixup_delete`** makes a red-black tree with the same nodes in the same order
out of one with a black node missing at the given place. -/
theorem bstFixupDelete_spec {n fuel : ℕ} (h : Represents t (plug C S)) (hS : S.Balanced n)
    (hC : Accepts C (n + 1)) (htop : topColor .black C = .black)
    (hleaf : S = leaf → bstParent t t.nil = ctxParent t.nil C) (hfuel : C.length < fuel) :
    ∃ t' T, bstFixupDelete fuel t (S.rootOr t.nil) = some t' ∧ Represents t' T ∧ T.IsRedBlack ∧
      T.inorder = (plug C S).inorder ∧
        Keeps (fun a => a ∈ (plug C S).inorder ∨ a = t.nil) t t' := by
  have hstart : FixupDeleteInv t (plug C S).inorder C.length (t, S.rootOr t.nil) :=
    ⟨C, S, n, Reshapes.refl h, rfl, Short.of_balanced hS, hC, htop, hleaf, fun _ => le_rfl⟩
  obtain ⟨⟨t', x⟩, hl, C', S', m, hT, hx, hm, htop'⟩ :=
    loop_of_bound (fun k s hs => fixupDeleteTurn_ok hs) hstart hfuel
  simp only at hT hx
  subst hx
  have e : bstFixupDelete fuel t (S.rootOr t.nil) = some (bstSetColor t' (S'.rootOr t'.nil) .black) := by
    simp only [bstFixupDelete, hl]
    rfl
  have hin : (plug C' (blacken S')).inorder = (plug C S).inorder := by
    rw [← hT.inorder]
    exact inorder_plug_congr C' (inorder_blacken S')
  have hrb : (plug C' (blacken S')).IsRedBlack := by
    refine ⟨?_, m, hm⟩
    rw [rootColor_plug, rootColor_blacken, htop']
  refine ⟨_, plug C' (blacken S'), e, ?_, hrb, hin, ?_⟩
  · cases S' with
    | leaf => exact hT.rep.setColor_nil.1
    | node c l a r => exact (hT.setColor (d := .left) .black).rep
  · refine (hT.keeps.mono fun a ha => .inl ha).trans ?_
    cases S' with
    | leaf =>
      refine hT.rep.setColor_nil.2.mono fun a ha => .inr ?_
      rw [ha, hT.keeps.nil]
    | node c l a r =>
      refine (hT.rep.setColor (d := .left) .black).2.mono fun b hb => .inl ?_
      rw [← hT.inorder]
      exact hb

end FileSync.SearchTree
