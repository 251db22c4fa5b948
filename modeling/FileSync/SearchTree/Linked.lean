import FileSync.SearchTree.Code
import FileSync.Lib.Word
import Mathlib.Tactic.Common

/-!
# The linked tree

What a tree in memory is. `Represents t T` says that the nodes reachable from
`t.root` are linked as the coloured tree `T` says, with matching parent pointers
and colours, every node at an address of its own that can carry a colour bit.
The link fields of a node are read one way and written another, so the first
part of this module says what each write does to each read; the second has the
predicates and their frame lemmas; the third says what the rotations do.
-/

namespace FileSync.SearchTree

open FileSync.Lib FileSync.FreeList FileSync.MemoryLayout ColorTree

variable {V : Type}

/-- An address a node can be at: not `NULL`, and with bit 0 free for the colour. -/
def IsPlace (a : Addr) : Prop := a ≠ NULL ∧ a &&& 1 = 0

instance : DecidablePred IsPlace := fun a => inferInstanceAs (Decidable (a ≠ NULL ∧ a &&& 1 = 0))

/-! ### Reading after writing -/

namespace Bst

variable (t : Bst V)

theorem assert_of {p : Prop} [Decidable p] (h : p) : t.assert p = t := by
  simp [assert, h]

theorem touch_of {a : Addr} (h : a ≠ NULL) : t.touch a = t := assert_of t h

@[simp] theorem child_assert (p : Prop) [Decidable p] : (t.assert p).child = t.child := rfl

@[simp] theorem child_touch (b : Addr) : (t.touch b).child = t.child := rfl

@[simp] theorem nil_assert (p : Prop) [Decidable p] : (t.assert p).nil = t.nil := rfl

@[simp] theorem root_assert (p : Prop) [Decidable p] : (t.assert p).root = t.root := rfl

@[simp] theorem heap_assert (p : Prop) [Decidable p] : (t.assert p).heap = t.heap := rfl

@[simp] theorem bstParent_assert (p : Prop) [Decidable p] (a : Addr) :
    bstParent (t.assert p) a = bstParent t a := rfl

@[simp] theorem bstColor_assert (p : Prop) [Decidable p] (a : Addr) :
    bstColor (t.assert p) a = bstColor t a := rfl

@[simp] theorem child_root (r : Addr) : ({ t with root := r } : Bst V).child = t.child := rfl

@[simp] theorem bstParent_root (r a : Addr) : bstParent { t with root := r } a = bstParent t a := rfl

@[simp] theorem bstColor_root (r a : Addr) : bstColor { t with root := r } a = bstColor t a := rfl

@[simp] theorem nil_setChild (d : Side) (a b : Addr) : (t.setChild d a b).nil = t.nil := rfl

theorem child_setChild (d e : Side) (a b x : Addr) :
    (t.setChild d a b).child e x = if x = a ∧ e = d then b else t.child e x := by
  by_cases h : x = a
  · subst h
    cases d <;> cases e <;> simp [setChild, child]
  · cases d <;> simp [setChild, child, h]

@[simp] theorem bstParent_setChild (d : Side) (a b x : Addr) :
    bstParent (t.setChild d a b) x = bstParent t x := by
  by_cases h : x = a
  · subst h
    cases d <;> simp [setChild, bstParent]
  · simp [setChild, bstParent, h]

@[simp] theorem bstColor_setChild (d : Side) (a b x : Addr) :
    bstColor (t.setChild d a b) x = bstColor t x := by
  by_cases h : x = a
  · subst h
    cases d <;> simp [setChild, bstColor]
  · simp [setChild, bstColor, h]

@[simp] theorem child_setParent (a p : Addr) : (bstSetParent t a p).child = t.child := by
  funext e x
  by_cases h : x = a
  · subst h
    cases e <;> simp [bstSetParent, setParentColorWord, child]
  · cases e <;> simp [bstSetParent, setParentColorWord, child, h]

theorem bstParent_setParent {p : Addr} (hp : p &&& 1 = 0) (a x : Addr) :
    bstParent (bstSetParent t a p) x = if x = a then p else bstParent t x := by
  by_cases h : x = a
  · subst h
    simp only [bstSetParent, bstParent, setParentColorWord, Function.update_self, heap_assert, if_true]
    exact or_and_not_mask hp (and_mask_and_mask _ _)
  · simp [bstSetParent, bstParent, setParentColorWord, h]

theorem bstColor_setParent {p : Addr} (hp : p &&& 1 = 0) (a x : Addr) :
    bstColor (bstSetParent t a p) x = bstColor t x := by
  by_cases h : x = a
  · subst h
    simp only [bstSetParent, bstColor, setParentColorWord, Function.update_self, heap_assert]
    rw [or_and_mask hp (and_mask_and_mask _ _)]
  · simp [bstSetParent, bstColor, setParentColorWord, h]

@[simp] theorem child_setColor (a : Addr) (c : Color) : (bstSetColor t a c).child = t.child := by
  funext e x
  by_cases h : x = a
  · subst h
    cases e <;> simp [bstSetColor, setParentColorWord, child]
  · cases e <;> simp [bstSetColor, setParentColorWord, child, h]

theorem colorBit_and_one (c : Color) : colorBit c &&& 1 = colorBit c := by
  cases c <;> decide

theorem colorBit_eq_zero (c : Color) : (if colorBit c = 0 then Color.red else .black) = c := by
  cases c <;> decide

@[simp] theorem bstParent_setColor (a : Addr) (c : Color) (x : Addr) :
    bstParent (bstSetColor t a c) x = bstParent t x := by
  by_cases h : x = a
  · subst h
    simp only [bstSetColor, bstParent, setParentColorWord, Function.update_self, heap_assert]
    exact or_and_not_mask (and_not_and_mask _ _) (colorBit_and_one c)
  · simp [bstSetColor, bstParent, setParentColorWord, h]

theorem bstColor_setColor (a : Addr) (c : Color) (x : Addr) :
    bstColor (bstSetColor t a c) x = if x = a then c else bstColor t x := by
  by_cases h : x = a
  · subst h
    simp only [bstSetColor, bstColor, setParentColorWord, Function.update_self, heap_assert, if_true]
    rw [or_and_mask (and_not_and_mask _ _) (colorBit_and_one c), colorBit_eq_zero]
  · simp [bstSetColor, bstColor, setParentColorWord, h]

theorem bstParent_setParentColor {p : Addr} (hp : p &&& 1 = 0) (a : Addr) (c : Color) (x : Addr) :
    bstParent (bstSetParentColor t a p c) x = if x = a then p else bstParent t x := by
  by_cases h : x = a
  · subst h
    simp only [bstSetParentColor, bstParent, setParentColorWord, Function.update_self, heap_assert, if_true]
    exact or_and_not_mask hp (colorBit_and_one c)
  · simp [bstSetParentColor, bstParent, setParentColorWord, h]

theorem bstColor_setParentColor {p : Addr} (hp : p &&& 1 = 0) (a : Addr) (c : Color) (x : Addr) :
    bstColor (bstSetParentColor t a p c) x = if x = a then c else bstColor t x := by
  by_cases h : x = a
  · subst h
    simp only [bstSetParentColor, bstColor, setParentColorWord, Function.update_self, heap_assert, if_true]
    rw [or_and_mask hp (colorBit_and_one c), colorBit_eq_zero]
  · simp [bstSetParentColor, bstColor, setParentColorWord, h]

@[simp] theorem child_setParentColor (a p : Addr) (c : Color) :
    (bstSetParentColor t a p c).child = t.child := by
  funext e x
  by_cases h : x = a
  · subst h
    cases e <;> simp [bstSetParentColor, setParentColorWord, child]
  · cases e <;> simp [bstSetParentColor, setParentColorWord, child, h]

end Bst

/-! ### What an operation on the links leaves alone -/

/-- Everything of a tree but its root and its memory. -/
def Bst.rest (t : Bst V) : Addr × Cache × UInt64 × UInt64 × Fl × Bool :=
  (t.nil, t.cache, t.valueOffset, t.valueSize, t.freeList, t.assertsHeld)

/-- `t'` comes from `t` by writing links of nodes in `S`: the values and the chains of
all nodes, the nodes outside `S`, the cache and the free list are as they were, and
no assertion failed. -/
structure Keeps (S : Addr → Prop) (t t' : Bst V) : Prop where
  /-- The other fields of the struct. -/
  rest : t'.rest = t.rest
  /-- The values. -/
  value : ∀ a, t'.value a = t.value a
  /-- The chains. -/
  list : ∀ a, t'.list a = t.list a
  /-- The nodes outside `S`. -/
  heap : ∀ a, ¬ S a → t'.heap a = t.heap a

namespace Keeps

variable {S S' : Addr → Prop} {t t' t'' : Bst V}

theorem refl (S : Addr → Prop) (t : Bst V) : Keeps S t t :=
  ⟨rfl, fun _ => rfl, fun _ => rfl, fun _ _ => rfl⟩

theorem trans (h : Keeps S t t') (h' : Keeps S t' t'') : Keeps S t t'' :=
  ⟨h'.rest.trans h.rest, fun a => (h'.value a).trans (h.value a), fun a => (h'.list a).trans (h.list a),
    fun a ha => (h'.heap a ha).trans (h.heap a ha)⟩

theorem mono (h : Keeps S t t') (hS : ∀ a, S a → S' a) : Keeps S' t t' :=
  ⟨h.rest, h.value, h.list, fun a ha => h.heap a fun hs => ha (hS a hs)⟩

theorem nil (h : Keeps S t t') : t'.nil = t.nil := congrArg (·.1) h.rest

theorem cache (h : Keeps S t t') : t'.cache = t.cache := congrArg (·.2.1) h.rest

theorem freeList (h : Keeps S t t') : t'.freeList = t.freeList := congrArg (·.2.2.2.2.1) h.rest

theorem assertsHeld (h : Keeps S t t') : t'.assertsHeld = t.assertsHeld :=
  congrArg (·.2.2.2.2.2) h.rest

/-- A write to one node in `S` that keeps its value and its chain. -/
theorem of_update {a : Addr} (ha : S a) {n : Node V} (hv : n.value = t.value a) (hl : n.list = t.list a) :
    Keeps S t { t with heap := Function.update t.heap a n } := by
  refine ⟨rfl, fun b => ?_, fun b => ?_, fun b hb => ?_⟩
  · by_cases h : b = a
    · subst h; simpa [Bst.value] using hv
    · simp [Bst.value, h]
  · by_cases h : b = a
    · subst h; simpa [Bst.list] using hl
    · simp [Bst.list, h]
  · have : b ≠ a := fun h => hb (h ▸ ha)
    simp [this]

theorem setChild {a : Addr} (ha : S a) (d : Side) (b : Addr) : Keeps S t (t.setChild d a b) :=
  of_update ha (by cases d <;> rfl) (by cases d <;> rfl)

theorem setParent {a p : Addr} (ha : S a) (h : a ≠ NULL) (hp : p ≠ NULL) :
    Keeps S t (bstSetParent t a p) := by
  simp only [bstSetParent, Bst.assert_of _ h, Bst.assert_of _ hp]
  exact of_update ha rfl rfl

theorem setColor {a : Addr} (ha : S a) (h : a ≠ NULL) (c : Color) : Keeps S t (bstSetColor t a c) := by
  simp only [bstSetColor, Bst.assert_of _ h]
  exact of_update ha rfl rfl

theorem setParentColor {a p : Addr} (ha : S a) (h : a ≠ NULL) (hp : p ≠ NULL) (c : Color) :
    Keeps S t (bstSetParentColor t a p c) := by
  simp only [bstSetParentColor, Bst.assert_of _ h, Bst.assert_of _ hp]
  exact of_update ha rfl rfl

theorem setRoot (S : Addr → Prop) (t : Bst V) (a : Addr) : Keeps S t { t with root := a } :=
  ⟨rfl, fun _ => rfl, fun _ => rfl, fun _ _ => rfl⟩

end Keeps

/-! ### Trees and contexts in memory -/

/-- The nodes of `T` are linked as `T` says, below the parent `p`. -/
def Linked (t : Bst V) : ColorTree Addr → Addr → Prop
  | .leaf, _ => True
  | .node c l a r, p =>
    t.child .left a = l.rootOr t.nil ∧ t.child .right a = r.rootOr t.nil ∧ bstParent t a = p ∧
      bstColor t a = c ∧ Linked t l a ∧ Linked t r a

@[simp] theorem linked_leaf (t : Bst V) (p : Addr) : Linked t .leaf p := trivial

theorem linked_branch {t : Bst V} {d : Side} {c : Color} {s u : ColorTree Addr} {a p : Addr} :
    Linked t (branch d c s a u) p ↔
      t.child d a = s.rootOr t.nil ∧ t.child d.flip a = u.rootOr t.nil ∧ bstParent t a = p ∧
        bstColor t a = c ∧ Linked t s a ∧ Linked t u a := by
  cases d
  · exact Iff.rfl
  · simp only [branch, Linked, Side.flip_right]
    tauto

/-- The frames of a context are linked as it says, from the pointer `h` in its hole up
to the root. -/
def LinkedCtx (t : Bst V) : List (Frame Addr) → Addr → Prop
  | [], h => t.root = h
  | f :: C, h =>
    t.child f.side f.addr = h ∧ t.child f.side.flip f.addr = f.sib.rootOr t.nil ∧
      bstParent t f.addr = ctxParent t.nil C ∧ bstColor t f.addr = f.color ∧
        Linked t f.sib f.addr ∧ LinkedCtx t C f.addr

/-- A tree in memory is a subtree in memory in a context in memory. -/
theorem linked_plug {t : Bst V} {C : List (Frame Addr)} {S : ColorTree Addr} :
    t.root = (plug C S).rootOr t.nil ∧ Linked t (plug C S) t.nil ↔
      LinkedCtx t C (S.rootOr t.nil) ∧ Linked t S (ctxParent t.nil C) := by
  induction C generalizing S with
  | nil => exact Iff.rfl
  | cons f C ih =>
    rw [plug_cons, ih, linked_branch, rootOr_branch]
    simp only [LinkedCtx, ctxParent_cons]
    tauto

/-- The link fields of a node are the same in both trees. -/
def SameLinks (t t' : Bst V) (a : Addr) : Prop :=
  (∀ d, t'.child d a = t.child d a) ∧ bstParent t' a = bstParent t a ∧ bstColor t' a = bstColor t a

theorem sameLinks_of_heap {t t' : Bst V} {a : Addr} (h : t'.heap a = t.heap a) : SameLinks t t' a := by
  refine ⟨fun d => ?_, ?_, ?_⟩
  · cases d <;> simp [Bst.child, h]
  · simp [bstParent, h]
  · simp [bstColor, h]

theorem linked_congr {t t' : Bst V} (hn : t'.nil = t.nil) {T : ColorTree Addr} {p : Addr}
    (h : ∀ a ∈ T.inorder, SameLinks t t' a) (hl : Linked t T p) : Linked t' T p := by
  induction T generalizing p with
  | leaf => trivial
  | node c l a r ihl ihr =>
    simp only [inorder_node, List.mem_append, List.mem_cons] at h
    obtain ⟨hc, hp, hcol⟩ := h a (.inr (.inl rfl))
    obtain ⟨h1, h2, h3, h4, h5, h6⟩ := hl
    exact ⟨by rw [hc, h1, hn], by rw [hc, h2, hn], by rw [hp, h3], by rw [hcol, h4],
      ihl (fun b hb => h b (.inl hb)) h5, ihr (fun b hb => h b (.inr (.inr hb))) h6⟩

/-- A subtree under a new parent: only the parent field of its root has to change. -/
theorem linked_reparent {t t' : Bst V} (hn : t'.nil = t.nil) {T : ColorTree Addr} {p q : Addr}
    (hnd : T.inorder.Nodup) (h : ∀ a ∈ T.inorder, a ≠ T.rootOr t.nil → SameLinks t t' a)
    (hr : T ≠ leaf → (∀ d, t'.child d (T.rootOr t.nil) = t.child d (T.rootOr t.nil)) ∧
      bstParent t' (T.rootOr t.nil) = q ∧ bstColor t' (T.rootOr t.nil) = bstColor t (T.rootOr t.nil))
    (hl : Linked t T p) : Linked t' T q := by
  cases T with
  | leaf => trivial
  | node c l a r =>
    obtain ⟨hc, hp, hcol⟩ := hr (by simp)
    rw [rootOr_node] at hc hp hcol
    obtain ⟨h1, h2, -, h4, h5, h6⟩ := hl
    simp only [inorder_node, List.nodup_append, List.nodup_cons, List.mem_cons] at hnd
    simp only [inorder_node, List.mem_append, List.mem_cons, rootOr_node] at h
    refine ⟨by rw [hc, h1, hn], by rw [hc, h2, hn], hp, by rw [hcol, h4], ?_, ?_⟩
    · exact linked_congr hn (fun b hb => h b (.inl hb) (hnd.2.2 b hb a (.inl rfl))) h5
    · exact linked_congr hn (fun b hb => h b (.inr (.inr hb)) fun e => hnd.2.1.1 (e ▸ hb)) h6

theorem linkedCtx_congr {t t' : Bst V} (hn : t'.nil = t.nil) (hr : t'.root = t.root)
    {C : List (Frame Addr)} {x : Addr} (h : ∀ a ∈ ctxNodes C, SameLinks t t' a)
    (hl : LinkedCtx t C x) : LinkedCtx t' C x := by
  induction C generalizing x with
  | nil => exact hr.trans hl
  | cons f C ih =>
    simp only [mem_ctxNodes_cons] at h
    obtain ⟨hc, hp, hcol⟩ := h f.addr (.inl rfl)
    obtain ⟨h1, h2, h3, h4, h5, h6⟩ := hl
    exact ⟨by rw [hc, h1], by rw [hc, h2, hn], by rw [hp, h3, hn], by rw [hcol, h4],
      linked_congr hn (fun b hb => h b (.inr (.inl hb))) h5, ih (fun b hb => h b (.inr (.inr hb))) h6⟩

/-- **What a tree in memory is**: `t.root` leads to nodes linked as `T` says, each at
an address of its own where a node can be, and `nil` is black with no children. -/
structure Represents (t : Bst V) (T : ColorTree Addr) : Prop where
  /-- The root. -/
  root : t.root = T.rootOr t.nil
  /-- The links. -/
  linked : Linked t T t.nil
  /-- The nodes are different. -/
  nodup : T.inorder.Nodup
  /-- The nodes are where a node can be, and not at `nil`. -/
  place : ∀ a ∈ T.inorder, IsPlace a ∧ a ≠ t.nil
  /-- So is `nil`. -/
  nilPlace : IsPlace t.nil
  /-- The sentinel is black. -/
  nilColor : bstColor t t.nil = .black
  /-- The sentinel's children are itself. -/
  nilChild : ∀ d, t.child d t.nil = t.nil

namespace Represents

variable {t t' : Bst V} {T : ColorTree Addr} {C : List (Frame Addr)} {S : ColorTree Addr}

/-- The context and the subtree of a tree in memory. -/
theorem split (h : Represents t (plug C S)) :
    LinkedCtx t C (S.rootOr t.nil) ∧ Linked t S (ctxParent t.nil C) :=
  linked_plug.mp ⟨h.root, h.linked⟩

/-- The links of a node of the tree. -/
theorem links {d : Side} {c : Color} {A B : ColorTree Addr} {x : Addr}
    (h : Represents t (plug C (branch d c A x B))) :
    t.child d x = A.rootOr t.nil ∧ t.child d.flip x = B.rootOr t.nil ∧
      bstParent t x = ctxParent t.nil C ∧ bstColor t x = c := by
  obtain ⟨h1, h2, h3, h4, -, -⟩ := linked_branch.mp h.split.2
  exact ⟨h1, h2, h3, h4⟩

theorem mem_plug_root (hS : S ≠ leaf) : S.rootOr t.nil ∈ (plug C S).inorder :=
  mem_inorder_plug.mpr (.inr (rootOr_mem _ hS))

/-- The colour of what a pointer in the tree points to, the sentinel included. -/
theorem color (h : Represents t (plug C S)) : bstColor t (S.rootOr t.nil) = S.rootColor := by
  cases S with
  | leaf => exact h.nilColor
  | node c l a r => exact (h.links (d := .left)).2.2.2

/-- A pointer in the tree is at a place for a node, the sentinel included. -/
theorem rootOr_place (h : Represents t (plug C S)) : IsPlace (S.rootOr t.nil) := by
  by_cases hS : S = leaf
  · subst hS; exact h.nilPlace
  · exact (h.place _ (mem_plug_root hS)).1

theorem rootOr_eq_nil (h : Represents t (plug C S)) : S.rootOr t.nil = t.nil ↔ S = leaf := by
  constructor
  · intro e
    by_contra hS
    exact (h.place _ (mem_plug_root hS)).2 e
  · rintro rfl
    rfl

theorem root_eq_nil (h : Represents t T) : t.root = t.nil ↔ T = leaf := by
  rw [h.root]
  exact Represents.rootOr_eq_nil (C := []) h

theorem root_ne_nil {a : Addr} (h : Represents t T) (ha : a ∈ T.inorder) : t.root ≠ t.nil := by
  intro e
  rw [h.root_eq_nil.mp e] at ha
  simp at ha

theorem ctxParent_place (h : Represents t (plug C S)) : IsPlace (ctxParent t.nil C) := by
  cases C with
  | nil => exact h.nilPlace
  | cons f C => exact (h.place _ (mem_inorder_plug.mpr (.inl (by simp)))).1

/-- The root is the subtree in the hole exactly when there is nothing above it. -/
theorem root_eq_rootOr (h : Represents t (plug C S)) (hS : S ≠ leaf ∨ C ≠ []) :
    S.rootOr t.nil = t.root ↔ C = [] := by
  constructor
  · intro e
    by_contra hC
    have hnd := nodup_inorder_plug.mp h.nodup
    have hr : t.root ∈ ctxNodes C := by
      rw [h.root]
      exact rootOr_plug_mem hC
    rw [← e] at hr
    by_cases hl : S = leaf
    · subst hl
      exact (h.place _ (mem_inorder_plug.mpr (.inl hr))).2 rfl
    · exact hnd.2.2 _ hr (rootOr_mem _ hl)
  · rintro rfl
    exact h.root.symm

/-- An operation that writes no links of the tree leaves it as it is. -/
theorem congr (h : Represents t T) (hn : t'.nil = t.nil) (hr : t'.root = t.root)
    (hs : ∀ a, a ∈ T.inorder ∨ a = t.nil → SameLinks t t' a) : Represents t' T := by
  refine ⟨?_, ?_, h.nodup, ?_, ?_, ?_, fun d => ?_⟩
  · rw [hn, hr, h.root]
  · rw [hn]
    exact linked_congr hn (fun a ha => hs a (.inl ha)) h.linked
  · rw [hn]
    exact h.place
  · rw [hn]
    exact h.nilPlace
  · rw [hn, (hs _ (.inr rfl)).2.2, h.nilColor]
  · rw [hn, (hs _ (.inr rfl)).1, h.nilChild]

/-- What an operation that relinks nodes of the tree has to show. -/
theorem of_links (h : Represents t T) (hn : t'.nil = t.nil) (hsub : ∀ a ∈ (plug C S).inorder, a ∈ T.inorder)
    (hnd : (plug C S).inorder.Nodup) (hcol : bstColor t' t.nil = bstColor t t.nil)
    (hch : ∀ d, t'.child d t.nil = t.child d t.nil) (hC : LinkedCtx t' C (S.rootOr t'.nil))
    (hS : Linked t' S (ctxParent t'.nil C)) : Represents t' (plug C S) := by
  have hr := linked_plug.mpr ⟨hC, hS⟩
  refine ⟨hr.1, hr.2, hnd, fun a ha => ?_, ?_, ?_, fun d => ?_⟩
  · rw [hn]
    exact h.place a (hsub a ha)
  · rw [hn]
    exact h.nilPlace
  · rw [hn, hcol, h.nilColor]
  · rw [hn, hch, h.nilChild]

/-- What an operation that only writes links of the nodes has to show. -/
theorem of_split (h : Represents t T) (hk : Keeps (fun a => a ∈ T.inorder) t t')
    (hp : (plug C S).inorder.Perm T.inorder) (hC : LinkedCtx t' C (S.rootOr t'.nil))
    (hS : Linked t' S (ctxParent t'.nil C)) : Represents t' (plug C S) := by
  have hheap : t'.heap t.nil = t.heap t.nil := hk.heap _ fun hm => (h.place _ hm).2 rfl
  have hsame := sameLinks_of_heap hheap
  exact h.of_links hk.nil (fun a ha => hp.mem_iff.mp ha) (hp.nodup_iff.mpr h.nodup) hsame.2.2 hsame.1 hC hS

end Represents

/-! ### Reachability -/

/-- A node that is reachable from the root through child pointers. -/
inductive InTree (t : Bst V) : Addr → Prop
  /-- The root is. -/
  | root : t.root ≠ t.nil → InTree t t.root
  /-- A child of one that is. -/
  | child {a : Addr} (d : Side) : InTree t a → t.child d a ≠ t.nil → InTree t (t.child d a)

/-- The nodes hanging off a pointer, in order. -/
inductive Traversal (t : Bst V) : Addr → List Addr → Prop
  /-- None hang off `nil`. -/
  | nil : Traversal t t.nil []
  /-- Those on the left, the node and those on the right. -/
  | node {a : Addr} {xs ys : List Addr} : a ≠ t.nil → Traversal t (t.child .left a) xs →
      Traversal t (t.child .right a) ys → Traversal t a (xs ++ a :: ys)

variable {t : Bst V} {T : ColorTree Addr}

theorem not_inTree_of_root {a : Addr} (h : t.root = t.nil) : ¬ InTree t a := by
  intro ha
  induction ha with
  | root hr => exact hr h
  | child _ _ _ ih => exact ih

theorem traversal_nil {xs : List Addr} (h : Traversal t t.nil xs) : xs = [] := by
  generalize ha : t.nil = a at h
  cases h with
  | nil => rfl
  | node hn _ _ => exact absurd ha.symm hn

theorem inTree_of_ctx {C : List (Frame Addr)} {x : Addr} (h : LinkedCtx t C x)
    (hC : ∀ a ∈ ctxNodes C, a ≠ t.nil) (hx : x ≠ t.nil) : InTree t x := by
  induction C generalizing x with
  | nil =>
    obtain rfl : t.root = x := h
    exact .root hx
  | cons f C ih =>
    simp only [mem_ctxNodes_cons] at hC
    obtain ⟨hc, -, -, -, -, hC'⟩ := h
    have hf := ih hC' (fun a ha => hC a (.inr (.inr ha))) (hC f.addr (.inl rfl))
    rw [← hc] at hx ⊢
    exact .child f.side hf hx

/-- **The nodes of the tree are those that can be reached.** -/
theorem Represents.inTree_iff (h : Represents t T) {a : Addr} : InTree t a ↔ a ∈ T.inorder := by
  constructor
  · intro ha
    induction ha with
    | root hr =>
      rw [h.root] at hr ⊢
      exact rootOr_mem_of_ne hr
    | child d _ hc ih =>
      obtain ⟨C, c, l, r, rfl⟩ := exists_plug_of_mem ih
      obtain ⟨s, u, e⟩ := node_eq_branch d c l r ‹Addr›
      rw [e] at h ⊢
      rw [h.links.1] at hc ⊢
      exact mem_inorder_plug.mpr (.inr (by simp [rootOr_mem_of_ne hc]))
  · intro ha
    obtain ⟨C, c, l, r, rfl⟩ := exists_plug_of_mem ha
    refine inTree_of_ctx h.split.1 (fun b hb => ?_) (h.place a ha).2
    exact (h.place b (mem_inorder_plug.mpr (.inl hb))).2

theorem traversal_of_linked {p : Addr} (h : Linked t T p) (hn : ∀ a ∈ T.inorder, a ≠ t.nil) :
    Traversal t (T.rootOr t.nil) T.inorder := by
  induction T generalizing p with
  | leaf => exact .nil
  | node c l a r ihl ihr =>
    simp only [inorder_node, List.mem_append, List.mem_cons] at hn
    obtain ⟨h1, h2, -, -, hl, hr⟩ := h
    rw [rootOr_node]
    refine .node (hn a (.inr (.inl rfl))) ?_ ?_
    · rw [h1]
      exact ihl hl fun b hb => hn b (.inl hb)
    · rw [h2]
      exact ihr hr fun b hb => hn b (.inr (.inr hb))

/-- The traversal from the root lists the nodes of the tree. -/
theorem Represents.traversal (h : Represents t T) : Traversal t t.root T.inorder := by
  rw [h.root]
  exact traversal_of_linked h.linked fun a ha => (h.place a ha).2

end FileSync.SearchTree
