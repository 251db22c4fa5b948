import Mathlib.Data.List.Basic
import Mathlib.Tactic.Common

/-!
# Coloured trees and their contexts

Binary trees whose nodes have a colour and a name, as the mathematical side of a
pointer structure: the name of a node is its identity, and what is stored in it
is not part of the tree. A context is the path from a subtree up to the root,
one frame for each ancestor, nearest first; `plug` puts a subtree into it. A
loop that climbs a tree works on a subtree and its context.

Mirrored code works on one side or the other, so trees are also built by side:
`branch d c near a far` has `near` at side `d` and `far` at the other, and every
lemma about a rotation is proved once for both sides.

`Balanced t n` is the red-black property of a subtree (no red node with a red
child, `n` black nodes on every path), `Accepts C n` what a context asks of the
subtree in its hole. `exists_balanced_plug` takes a whole tree apart into the two
and `balanced_plug` puts it together again.
-/

namespace FileSync.Lib

/-- The colours of a red-black tree. -/
inductive Color where
  /-- A red node counts nothing towards the black height. -/
  | red
  /-- A black node counts one. -/
  | black
  deriving DecidableEq, Repr

/-- What a node of this colour adds to the black height. -/
def Color.weight : Color → ℕ
  | .red => 0
  | .black => 1

@[simp] theorem Color.weight_red : Color.red.weight = 0 := rfl

@[simp] theorem Color.weight_black : Color.black.weight = 1 := rfl

theorem Color.eq_red_or_black (c : Color) : c = .red ∨ c = .black := by cases c <;> simp

theorem Color.ne_black_iff {c : Color} : c ≠ .black ↔ c = .red := by cases c <;> simp

theorem Color.ne_red_iff {c : Color} : c ≠ .red ↔ c = .black := by cases c <;> simp

/-- The two sides of a node. -/
inductive Side where
  /-- Towards the smaller keys. -/
  | left
  /-- Towards the larger keys. -/
  | right
  deriving DecidableEq, Repr

/-- The other side. -/
def Side.flip : Side → Side
  | .left => .right
  | .right => .left

@[simp] theorem Side.flip_flip (d : Side) : d.flip.flip = d := by cases d <;> rfl

@[simp] theorem Side.flip_left : Side.left.flip = .right := rfl

@[simp] theorem Side.flip_right : Side.right.flip = .left := rfl

@[simp] theorem Side.flip_ne (d : Side) : d.flip ≠ d := by cases d <;> decide

@[simp] theorem Side.ne_flip (d : Side) : d ≠ d.flip := by cases d <;> decide

theorem Side.eq_or_eq_flip (d e : Side) : e = d ∨ e = d.flip := by cases d <;> cases e <;> simp

/-- A tree of coloured, named nodes. -/
inductive ColorTree (α : Type*) where
  /-- The empty tree. -/
  | leaf
  /-- A node with its left and right subtrees. -/
  | node (c : Color) (l : ColorTree α) (a : α) (r : ColorTree α)

/-- A frame of a context: an ancestor, the side of it the hole is on, and its
subtree on the other side. -/
structure Frame (α : Type*) where
  /-- The side the hole is on. -/
  side : Side
  /-- The colour of the ancestor. -/
  color : Color
  /-- The ancestor. -/
  addr : α
  /-- The subtree on the other side. -/
  sib : ColorTree α

variable {α : Type*}

namespace ColorTree

/-- A node given by side: `near` at side `d`, `far` at the other. -/
def branch (d : Side) (c : Color) (near : ColorTree α) (a : α) (far : ColorTree α) : ColorTree α :=
  match d with
  | .left => .node c near a far
  | .right => .node c far a near

theorem branch_flip (d : Side) (c : Color) (s t : ColorTree α) (a : α) :
    branch d.flip c s a t = branch d c t a s := by
  cases d <;> rfl

/-- A nonempty tree, given by side. -/
theorem node_eq_branch (d : Side) (c : Color) (l r : ColorTree α) (a : α) :
    ∃ near far, node c l a r = branch d c near a far := by
  cases d
  · exact ⟨l, r, rfl⟩
  · exact ⟨r, l, rfl⟩

/-- A node given by one side, given by another. -/
theorem branch_eq_branch (d e : Side) (c : Color) (s t : ColorTree α) (a : α) :
    ∃ s' t', branch d c s a t = branch e c s' a t' := by
  cases d
  · exact node_eq_branch e c s t a
  · exact node_eq_branch e c t s a

theorem branch_ne_leaf {d : Side} {c : Color} {s t : ColorTree α} {a : α} : branch d c s a t ≠ leaf := by
  cases d <;> simp [branch]

theorem eq_leaf_or_branch (d : Side) (t : ColorTree α) :
    t = leaf ∨ ∃ c near a far, t = branch d c near a far := by
  cases t with
  | leaf => exact .inl rfl
  | node c l a r =>
    obtain ⟨near, far, h⟩ := node_eq_branch d c l r a
    exact .inr ⟨c, near, a, far, h⟩

/-- The name of the root, or `nil` for the empty tree. -/
def rootOr (nil : α) : ColorTree α → α
  | leaf => nil
  | node _ _ a _ => a

@[simp] theorem rootOr_leaf (nil : α) : (leaf : ColorTree α).rootOr nil = nil := rfl

@[simp] theorem rootOr_node (nil : α) (c : Color) (l r : ColorTree α) (a : α) :
    (node c l a r).rootOr nil = a := rfl

@[simp] theorem rootOr_branch (nil : α) (d : Side) (c : Color) (s t : ColorTree α) (a : α) :
    (branch d c s a t).rootOr nil = a := by
  cases d <;> rfl

/-- The colour of the root; the empty tree is black. -/
def rootColor : ColorTree α → Color
  | leaf => .black
  | node c _ _ _ => c

@[simp] theorem rootColor_leaf : (leaf : ColorTree α).rootColor = .black := rfl

@[simp] theorem rootColor_node (c : Color) (l r : ColorTree α) (a : α) :
    (node c l a r).rootColor = c := rfl

@[simp] theorem rootColor_branch (d : Side) (c : Color) (s t : ColorTree α) (a : α) :
    (branch d c s a t).rootColor = c := by
  cases d <;> rfl

/-- A tree with a red root is not empty. -/
theorem exists_branch_of_red {t : ColorTree α} (d : Side) (h : t.rootColor = .red) :
    ∃ s a u, t = branch d .red s a u := by
  cases t with
  | leaf => cases h
  | node c l a r =>
    obtain rfl : c = .red := h
    obtain ⟨near, far, h⟩ := node_eq_branch d .red l r a
    exact ⟨near, a, far, h⟩

/-- The nodes from left to right. -/
def inorder : ColorTree α → List α
  | leaf => []
  | node _ l a r => l.inorder ++ a :: r.inorder

@[simp] theorem inorder_leaf : (leaf : ColorTree α).inorder = [] := rfl

@[simp] theorem inorder_node (c : Color) (l r : ColorTree α) (a : α) :
    (node c l a r).inorder = l.inorder ++ a :: r.inorder := rfl

theorem inorder_eq_nil {t : ColorTree α} : t.inorder = [] ↔ t = leaf := by
  cases t <;> simp

@[simp] theorem mem_inorder_branch {d : Side} {c : Color} {s t : ColorTree α} {a x : α} :
    x ∈ (branch d c s a t).inorder ↔ x = a ∨ x ∈ s.inorder ∨ x ∈ t.inorder := by
  cases d
  · simp only [branch, inorder_node, List.mem_append, List.mem_cons]
    tauto
  · simp only [branch, inorder_node, List.mem_append, List.mem_cons]
    tauto

theorem rootOr_mem {t : ColorTree α} (nil : α) (h : t ≠ leaf) : t.rootOr nil ∈ t.inorder := by
  cases t with
  | leaf => exact absurd rfl h
  | node c l a r => simp

theorem rootOr_mem_of_ne {t : ColorTree α} {nil : α} (h : t.rootOr nil ≠ nil) :
    t.rootOr nil ∈ t.inorder := by
  refine rootOr_mem nil ?_
  rintro rfl
  exact h rfl

/-- The number of nodes. -/
def size : ColorTree α → ℕ
  | leaf => 0
  | node _ l _ r => l.size + r.size + 1

@[simp] theorem size_leaf : (leaf : ColorTree α).size = 0 := rfl

@[simp] theorem size_branch (d : Side) (c : Color) (s t : ColorTree α) (a : α) :
    (branch d c s a t).size = s.size + t.size + 1 := by
  cases d
  · rfl
  · simp only [branch, size]; omega

theorem length_inorder (t : ColorTree α) : t.inorder.length = t.size := by
  induction t with
  | leaf => rfl
  | node c l a r ihl ihr => simp [size, ihl, ihr]; omega

/-- No red node has a red child, and every path down has `n` black nodes. -/
def Balanced : ColorTree α → ℕ → Prop
  | leaf, n => n = 0
  | node c l _ r, n =>
    (c = .red → l.rootColor = .black ∧ r.rootColor = .black) ∧
      ∃ m, n = m + c.weight ∧ l.Balanced m ∧ r.Balanced m

@[simp] theorem balanced_leaf {n : ℕ} : (leaf : ColorTree α).Balanced n ↔ n = 0 := Iff.rfl

theorem balanced_branch {d : Side} {c : Color} {s t : ColorTree α} {a : α} {n : ℕ} :
    (branch d c s a t).Balanced n ↔ (c = .red → s.rootColor = .black ∧ t.rootColor = .black) ∧
      ∃ m, n = m + c.weight ∧ s.Balanced m ∧ t.Balanced m := by
  cases d
  · exact Iff.rfl
  · simp only [branch, Balanced, and_comm]

@[simp] theorem balanced_branch_red {d : Side} {s t : ColorTree α} {a : α} {n : ℕ} :
    (branch d .red s a t).Balanced n ↔
      s.rootColor = .black ∧ t.rootColor = .black ∧ s.Balanced n ∧ t.Balanced n := by
  simp [balanced_branch, and_assoc]

@[simp] theorem balanced_branch_black {d : Side} {s t : ColorTree α} {a : α} {n : ℕ} :
    (branch d .black s a t).Balanced n ↔ ∃ m, n = m + 1 ∧ s.Balanced m ∧ t.Balanced m := by
  simp [balanced_branch]

/-- A balanced tree without black nodes has at most one node. -/
theorem exists_branch_of_balanced_zero (d : Side) {t : ColorTree α} (h : t.Balanced 0) (ht : t ≠ leaf) :
    ∃ a, t = branch d .red leaf a leaf := by
  have empty : ∀ s : ColorTree α, s.rootColor = .black → s.Balanced 0 → s = leaf := by
    intro s hc hs
    cases s with
    | leaf => rfl
    | node c l a r =>
      obtain rfl : c = .black := hc
      obtain ⟨-, m, hm, -⟩ := hs
      rw [Color.weight_black] at hm
      omega
  obtain ⟨c, s, a, u, rfl⟩ := (eq_leaf_or_branch d t).resolve_left ht
  obtain ⟨hr, m, hm, hs, hu⟩ := balanced_branch.mp h
  cases c
  · rw [Color.weight_red] at hm
    subst hm
    exact ⟨a, by rw [empty s (hr rfl).1 hs, empty u (hr rfl).2 hu]⟩
  · rw [Color.weight_black] at hm
    omega

/-- A red-black tree: balanced, with a black root. -/
def IsRedBlack (t : ColorTree α) : Prop := t.rootColor = .black ∧ ∃ n, t.Balanced n

end ColorTree

open ColorTree

/-! ### Contexts -/

/-- Fill the hole of a frame. -/
def Frame.fill (f : Frame α) (t : ColorTree α) : ColorTree α := branch f.side f.color t f.addr f.sib

/-- Fill the hole of a context. -/
def plug : List (Frame α) → ColorTree α → ColorTree α
  | [], t => t
  | f :: C, t => plug C (f.fill t)

@[simp] theorem plug_nil (t : ColorTree α) : plug [] t = t := rfl

theorem plug_cons (f : Frame α) (C : List (Frame α)) (t : ColorTree α) :
    plug (f :: C) t = plug C (branch f.side f.color t f.addr f.sib) := rfl

/-- The far subtree of a node, with the node and its near subtree as a frame. -/
theorem plug_far (d : Side) (c : Color) (s t : ColorTree α) (a : α) (C : List (Frame α)) :
    plug (⟨d.flip, c, a, s⟩ :: C) t = plug C (branch d c s a t) := by
  rw [plug_cons, branch_flip]

/-- The near subtree of a node, with the node and its far subtree as a frame. -/
theorem plug_near (d : Side) (c : Color) (s t : ColorTree α) (a : α) (C : List (Frame α)) :
    plug (⟨d, c, a, t⟩ :: C) s = plug C (branch d c s a t) := rfl

theorem plug_append (C D : List (Frame α)) (t : ColorTree α) :
    plug (C ++ D) t = plug D (plug C t) := by
  induction C generalizing t with
  | nil => rfl
  | cons f C ih => exact ih _

/-- The parent of what is in the hole, or `nil` at the top. -/
def ctxParent (nil : α) : List (Frame α) → α
  | [] => nil
  | f :: _ => f.addr

@[simp] theorem ctxParent_nil (nil : α) : ctxParent nil ([] : List (Frame α)) = nil := rfl

@[simp] theorem ctxParent_cons (nil : α) (f : Frame α) (C : List (Frame α)) :
    ctxParent nil (f :: C) = f.addr := rfl

/-- The colour of the parent of what is in the hole; above the root it is black. -/
def ctxColor : List (Frame α) → Color
  | [] => .black
  | f :: _ => f.color

@[simp] theorem ctxColor_nil : ctxColor ([] : List (Frame α)) = .black := rfl

@[simp] theorem ctxColor_cons (f : Frame α) (C : List (Frame α)) : ctxColor (f :: C) = f.color := rfl

/-- The nodes before the hole, from left to right. -/
def before : List (Frame α) → List α
  | [] => []
  | f :: C => before C ++ match f.side with
    | .left => []
    | .right => f.sib.inorder ++ [f.addr]

/-- The nodes after the hole, from left to right. -/
def after : List (Frame α) → List α
  | [] => []
  | f :: C => (match f.side with
    | .left => f.addr :: f.sib.inorder
    | .right => []) ++ after C

theorem inorder_plug (C : List (Frame α)) (t : ColorTree α) :
    (plug C t).inorder = before C ++ t.inorder ++ after C := by
  induction C generalizing t with
  | nil => simp [before, after]
  | cons f C ih =>
    rw [plug_cons, ih]
    rcases f with ⟨d, c, a, s⟩
    cases d <;> simp [branch, before, after]

/-- Nothing is before a hole on the left edge, and only there. -/
theorem before_eq_nil {C : List (Frame α)} : before C = [] ↔ ∀ f ∈ C, f.side = .left := by
  induction C with
  | nil => simp [before]
  | cons f C ih =>
    rcases f with ⟨d, c, a, s⟩
    cases d <;> simp [before, ih]

/-- Nothing is after a hole on the right edge, and only there. -/
theorem after_eq_nil {C : List (Frame α)} : after C = [] ↔ ∀ f ∈ C, f.side = .right := by
  induction C with
  | nil => simp [after]
  | cons f C ih =>
    rcases f with ⟨d, c, a, s⟩
    cases d <;> simp [after, ih]

/-- Trees with the same nodes in order can stand for each other in a context. -/
theorem inorder_plug_congr (C : List (Frame α)) {s t : ColorTree α} (h : s.inorder = t.inorder) :
    (plug C s).inorder = (plug C t).inorder := by
  rw [inorder_plug, inorder_plug, h]

/-- The nodes of a context. -/
def ctxNodes (C : List (Frame α)) : List α := before C ++ after C

@[simp] theorem ctxNodes_nil : ctxNodes ([] : List (Frame α)) = [] := rfl

@[simp] theorem mem_ctxNodes_cons {f : Frame α} {C : List (Frame α)} {x : α} :
    x ∈ ctxNodes (f :: C) ↔ x = f.addr ∨ x ∈ f.sib.inorder ∨ x ∈ ctxNodes C := by
  rcases f with ⟨d, c, a, s⟩
  cases d <;> simp only [ctxNodes, before, after, List.mem_append, List.mem_cons, List.append_nil,
    List.nil_append, List.not_mem_nil, or_false] <;> tauto

theorem ctxParent_mem {nil : α} {C : List (Frame α)} (h : ctxParent nil C ≠ nil) :
    ctxParent nil C ∈ ctxNodes C := by
  cases C with
  | nil => exact absurd rfl h
  | cons f C => simp

theorem ne_ctxParent {nil a : α} {C : List (Frame α)} (ha : a ∉ ctxNodes C) (hn : a ≠ nil) :
    a ≠ ctxParent nil C := by
  rintro rfl
  exact ha (ctxParent_mem hn)

theorem mem_inorder_plug {C : List (Frame α)} {t : ColorTree α} {x : α} :
    x ∈ (plug C t).inorder ↔ x ∈ ctxNodes C ∨ x ∈ t.inorder := by
  rw [inorder_plug, ctxNodes]
  simp only [List.mem_append]
  tauto

/-- In a context that is not empty the root is a node of the context. -/
theorem rootOr_plug_mem {nil : α} {C : List (Frame α)} {t : ColorTree α} (h : C ≠ []) :
    (plug C t).rootOr nil ∈ ctxNodes C := by
  induction C generalizing t with
  | nil => exact absurd rfl h
  | cons f C ih =>
    rw [plug_cons, mem_ctxNodes_cons]
    by_cases hC : C = []
    · subst hC
      simp
    · exact .inr (.inr (ih hC))

theorem plug_branch_ne_leaf {C : List (Frame α)} {d : Side} {c : Color} {s t : ColorTree α} {a : α} :
    plug C (branch d c s a t) ≠ leaf := by
  intro e
  have : a ∈ (plug C (branch d c s a t)).inorder := mem_inorder_plug.mpr (.inr (by simp))
  simp [e] at this

theorem size_plug_le (C : List (Frame α)) (t : ColorTree α) :
    t.size + C.length ≤ (plug C t).size := by
  induction C generalizing t with
  | nil => simp
  | cons f C ih =>
    have := ih (f.fill t)
    rw [plug_cons]
    simp only [Frame.fill, size_branch, List.length_cons] at this ⊢
    omega

/-- Every node of a tree is the root of a subtree in some context. -/
theorem exists_plug_of_mem {t : ColorTree α} {x : α} (h : x ∈ t.inorder) :
    ∃ C c l r, t = plug C (node c l x r) := by
  induction t with
  | leaf => simp at h
  | node c l a r ihl ihr =>
    simp only [inorder_node, List.mem_append, List.mem_cons] at h
    rcases h with h | rfl | h
    · obtain ⟨C, c', l', r', rfl⟩ := ihl h
      exact ⟨C ++ [⟨.left, c, a, r⟩], c', l', r', by rw [plug_append]; rfl⟩
    · exact ⟨[], c, l, r, rfl⟩
    · obtain ⟨C, c', l', r', rfl⟩ := ihr h
      exact ⟨C ++ [⟨.right, c, a, l⟩], c', l', r', by rw [plug_append]; rfl⟩

/-! ### The two ends of a tree -/

/-- The first or the last of a list. -/
def endOf : Side → List α → Option α
  | .left, xs => xs.head?
  | .right, xs => xs.getLast?

theorem endOf_mem {d : Side} {xs : List α} {x : α} (h : endOf d xs = some x) : x ∈ xs := by
  cases d
  · exact List.mem_of_mem_head? h
  · exact List.mem_of_mem_getLast? h

theorem endOf_eq_none {d : Side} {xs : List α} : endOf d xs = none ↔ xs = [] := by
  cases d
  · exact List.head?_eq_none_iff
  · exact List.getLast?_eq_none_iff

/-- Where the nodes next to `x` are: those on side `d` of it. -/
def beyond : Side → List α → List α → List α
  | .left, xs, _ => xs
  | .right, _, ys => ys

/-- Nothing is beyond an end of a list without repetition. -/
theorem endOf_append_cons {d : Side} {xs ys : List α} {x : α} (hnd : (xs ++ x :: ys).Nodup) :
    endOf d (xs ++ x :: ys) = some x ↔ beyond d xs ys = [] := by
  cases d
  · cases xs with
    | nil => simp [endOf, beyond]
    | cons a xs =>
      simp only [endOf, beyond, List.cons_append, List.head?_cons, Option.some.injEq, reduceCtorEq, iff_false]
      rintro rfl
      simp at hnd
  · rcases List.eq_nil_or_concat ys with rfl | ⟨zs, z, rfl⟩
    · simp [endOf, beyond]
    · have e : xs ++ x :: zs.concat z = (xs ++ x :: zs) ++ [z] := by simp
      rw [e] at hnd ⊢
      simp only [endOf, beyond, List.getLast?_concat, Option.some.injEq, List.concat_eq_append,
        List.append_eq_nil_iff, List.cons_ne_nil, and_false, iff_false]
      rintro rfl
      exact (List.nodup_append.mp hnd).2.2 z (by simp) z (by simp) rfl

/-- The end of a tree has an empty side, on the edge of the tree. -/
theorem exists_plug_of_endOf {d : Side} {t : ColorTree α} {x : α} (hnd : t.inorder.Nodup)
    (h : endOf d t.inorder = some x) :
    ∃ C c u, t = plug C (branch d c leaf x u) ∧ ∀ f ∈ C, f.side = d := by
  obtain ⟨C, c, l, r, rfl⟩ := exists_plug_of_mem (endOf_mem h)
  have e : (plug C (node c l x r)).inorder = (before C ++ l.inorder) ++ x :: (r.inorder ++ after C) := by
    rw [inorder_plug]
    simp
  rw [e] at hnd h
  have hb := (endOf_append_cons hnd).mp h
  cases d
  · obtain ⟨h1, h2⟩ := List.append_eq_nil_iff.mp hb
    exact ⟨C, c, r, by rw [inorder_eq_nil.mp h2]; rfl, before_eq_nil.mp h1⟩
  · obtain ⟨h1, h2⟩ := List.append_eq_nil_iff.mp hb
    exact ⟨C, c, l, by rw [inorder_eq_nil.mp h1]; rfl, after_eq_nil.mp h2⟩

/-- A node on the edge of the tree with an empty side is its end. -/
theorem endOf_plug_branch {d : Side} {C : List (Frame α)} {c : Color} {x : α} {u : ColorTree α}
    (hC : ∀ f ∈ C, f.side = d) : endOf d (plug C (branch d c leaf x u)).inorder = some x := by
  rw [inorder_plug]
  cases d
  · simp [before_eq_nil.mpr hC, branch, endOf]
  · simp [after_eq_nil.mpr hC, branch, endOf]

/-- An element put in short of an end leaves the end as it is. -/
theorem endOf_insert (d : Side) (xs ys : List α) (x : α) (h : beyond d xs ys ≠ []) :
    endOf d (xs ++ x :: ys) = endOf d (xs ++ ys) := by
  cases d
  · cases xs with
    | nil => exact absurd rfl h
    | cons a xs => rfl
  · rcases List.eq_nil_or_concat ys with rfl | ⟨zs, z, rfl⟩
    · exact absurd rfl h
    · have e : xs ++ x :: zs.concat z = (xs ++ x :: zs) ++ [z] := by simp
      have e' : xs ++ zs.concat z = (xs ++ zs) ++ [z] := by simp
      rw [e, e', endOf, endOf, List.getLast?_concat, List.getLast?_concat]

/-- If both ends are the same, there is nothing else. -/
theorem endOf_left_eq_right {xs ys : List α} {x z : α} (hnd : (xs ++ z :: ys).Nodup)
    (hl : endOf .left (xs ++ z :: ys) = some x) (hr : endOf .right (xs ++ z :: ys) = some x) :
    xs = [] ∧ ys = [] := by
  obtain ⟨p, q, e⟩ := List.append_of_mem (endOf_mem hl)
  rw [e] at hnd hl hr
  have hp := (endOf_append_cons hnd).mp hl
  have hq := (endOf_append_cons hnd).mp hr
  simp only [beyond] at hp hq
  rw [hp, hq] at e
  cases xs with
  | nil => exact ⟨rfl, by simpa using congrArg List.tail e⟩
  | cons a xs => simp at e

/-- `x` is the child at side `d` of the node `p`. -/
def ChildOf (d : Side) (t : ColorTree α) (p x : α) : Prop :=
  ∃ C c s u, t = plug C (branch d c s p u) ∧ s ≠ leaf ∧ s.rootOr x = x

theorem ChildOf.plug {d : Side} {t : ColorTree α} {p x : α} (h : ChildOf d t p x)
    (C : List (Frame α)) : ChildOf d (plug C t) p x := by
  obtain ⟨D, c, s, u, rfl, hs⟩ := h
  exact ⟨D ++ C, c, s, u, (plug_append D C _).symm, hs⟩

/-! ### Nodes without repetition -/

/-- The nodes of a plugged tree are all different exactly when those of the subtree
are, those of the context are, and the two have none in common. -/
theorem nodup_inorder_plug {C : List (Frame α)} {t : ColorTree α} :
    (plug C t).inorder.Nodup ↔
      (ctxNodes C).Nodup ∧ t.inorder.Nodup ∧ ∀ x ∈ ctxNodes C, x ∉ t.inorder := by
  rw [inorder_plug, ctxNodes]
  simp only [List.nodup_append, List.mem_append]
  grind

theorem nodup_inorder_branch {d : Side} {c : Color} {s t : ColorTree α} {a : α} :
    (branch d c s a t).inorder.Nodup ↔
      a ∉ s.inorder ∧ a ∉ t.inorder ∧ s.inorder.Nodup ∧ t.inorder.Nodup ∧
        ∀ x ∈ s.inorder, x ∉ t.inorder := by
  cases d <;> simp only [branch, inorder_node, List.nodup_append, List.nodup_cons, List.mem_cons] <;> grind

theorem nodup_ctxNodes_cons {f : Frame α} {C : List (Frame α)} :
    (ctxNodes (f :: C)).Nodup ↔
      f.addr ∉ f.sib.inorder ∧ f.addr ∉ ctxNodes C ∧ f.sib.inorder.Nodup ∧ (ctxNodes C).Nodup ∧
        ∀ x ∈ f.sib.inorder, x ∉ ctxNodes C := by
  rcases f with ⟨d, c, a, s⟩
  cases d <;> simp only [ctxNodes, before, after, List.nodup_append, List.nodup_cons, List.mem_append,
    List.mem_cons, List.append_nil, List.nil_append, List.not_mem_nil] <;> grind

/-! ### Balance across a context -/

/-- What a context asks of a subtree in its hole: black height `n`. -/
def Accepts : List (Frame α) → ℕ → Prop
  | [], _ => True
  | f :: C, n =>
    f.sib.Balanced n ∧ (f.color = .red → f.sib.rootColor = .black ∧ ctxColor C = .black) ∧
      Accepts C (n + f.color.weight)

@[simp] theorem accepts_nil {n : ℕ} : Accepts ([] : List (Frame α)) n := trivial

/-- The name of an ancestor does not matter for the balance. -/
theorem accepts_rename {C D : List (Frame α)} {d : Side} {c : Color} {s : ColorTree α} (a b : α) {n : ℕ} :
    Accepts (D ++ ⟨d, c, a, s⟩ :: C) n → Accepts (D ++ ⟨d, c, b, s⟩ :: C) n := by
  induction D generalizing n with
  | nil => exact id
  | cons f D ih =>
    rintro ⟨h1, h2, h3⟩
    refine ⟨h1, fun hf => ⟨(h2 hf).1, ?_⟩, ih h3⟩
    have := (h2 hf).2
    cases D with
    | nil => exact this
    | cons g D => exact this

/-- A balanced subtree in a context that accepts it makes a balanced tree. -/
theorem balanced_plug {C : List (Frame α)} {t : ColorTree α} {n : ℕ} (ht : t.Balanced n)
    (hC : Accepts C n) (hc : t.rootColor = .red → ctxColor C = .black) :
    ∃ m, (plug C t).Balanced m := by
  induction C generalizing t n with
  | nil => exact ⟨n, ht⟩
  | cons f C ih =>
    obtain ⟨hs, hr, hC⟩ := hC
    rw [plug_cons]
    refine ih (n := n + f.color.weight) ?_ hC ?_
    · rw [balanced_branch]
      refine ⟨fun hf => ⟨?_, (hr hf).1⟩, n, rfl, ht, hs⟩
      rcases t.rootColor.eq_red_or_black with h | h
      · have := hc h
        rw [ctxColor_cons, hf] at this
        cases this
      · exact h
    · rw [rootColor_branch]
      exact fun hf => (hr hf).2

/-- A balanced tree, seen as a subtree in a context. -/
theorem exists_balanced_plug {C : List (Frame α)} {t : ColorTree α} {m : ℕ}
    (h : (plug C t).Balanced m) :
    ∃ n, t.Balanced n ∧ Accepts C n ∧ (t.rootColor = .red → ctxColor C = .black) := by
  induction C generalizing t with
  | nil => exact ⟨m, h, trivial, fun _ => rfl⟩
  | cons f C ih =>
    rw [plug_cons] at h
    obtain ⟨n, hb, hC, hc⟩ := ih h
    rw [balanced_branch] at hb
    rw [rootColor_branch] at hc
    obtain ⟨hr, k, rfl, ht, hs⟩ := hb
    refine ⟨k, ht, ⟨hs, fun hf => ⟨(hr hf).2, hc hf⟩, hC⟩, fun htr => ?_⟩
    rw [ctxColor_cons]
    refine Color.ne_red_iff.mp fun hf => ?_
    rw [(hr hf).1] at htr
    cases htr

/-- The colour at the top of a context, `c` being that of the hole. -/
def topColor (c : Color) : List (Frame α) → Color
  | [] => c
  | f :: C => topColor f.color C

@[simp] theorem topColor_nil (c : Color) : topColor c ([] : List (Frame α)) = c := rfl

@[simp] theorem topColor_cons (c : Color) (f : Frame α) (C : List (Frame α)) :
    topColor c (f :: C) = topColor f.color C := rfl

theorem topColor_black {c : Color} {C : List (Frame α)} (h : topColor c C = .black) :
    topColor .black C = .black := by
  cases C with
  | nil => rfl
  | cons f C => exact h

theorem topColor_append_cons (c : Color) (C D : List (Frame α)) (f : Frame α) :
    topColor c (D ++ f :: C) = topColor f.color C := by
  induction D generalizing c with
  | nil => rfl
  | cons g D ih => exact ih g.color

theorem rootColor_plug (C : List (Frame α)) (t : ColorTree α) :
    (plug C t).rootColor = topColor t.rootColor C := by
  induction C generalizing t with
  | nil => rfl
  | cons f C ih => rw [plug_cons, ih, rootColor_branch, topColor_cons]

end FileSync.Lib
