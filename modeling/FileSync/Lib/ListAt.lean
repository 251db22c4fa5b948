import Mathlib.Data.List.Basic
import Mathlib.Logic.Function.Basic
import Mathlib.Tactic.Common

/-!
# Lists in memory

`ListAt next null p xs` says that the nodes `xs` hang off the pointer `p`, each
linked to the next through `next`, and that the last link is `null`. The links
are a function, so the list at a pointer is unique; a write to a node outside
the list leaves it alone (`listAt_congr`), a node is put in after another by
writing two links (`listAt_insert`), and a write to a node hangs another list off it
(`listAt_relink`).

A row is a node with a chain hung off it. `rows` are all nodes of a list of rows;
changing one chain changes them by what that chain gained or lost.
-/

namespace FileSync.Lib

variable {α : Type*}

/-- The nodes `xs` hang off `p`, in order, and the last link is `null`. -/
def ListAt (next : α → α) (null : α) : α → List α → Prop
  | p, [] => p = null
  | p, x :: xs => p = x ∧ x ≠ null ∧ ListAt next null (next x) xs

variable {next next' : α → α} {null : α}

@[simp] theorem listAt_nil {p : α} : ListAt next null p [] ↔ p = null := Iff.rfl

@[simp] theorem listAt_cons {p x : α} {xs : List α} :
    ListAt next null p (x :: xs) ↔ p = x ∧ x ≠ null ∧ ListAt next null (next x) xs := Iff.rfl

theorem listAt_null {xs : List α} : ListAt next null null xs ↔ xs = [] := by
  cases xs with
  | nil => simp
  | cons x xs =>
    simp only [listAt_cons, reduceCtorEq, iff_false]
    rintro ⟨rfl, h, -⟩
    exact h rfl

/-- A pointer that is not `null` is the first node of its list. -/
theorem listAt_of_ne_null {p : α} {xs : List α} (h : ListAt next null p xs) (hp : p ≠ null) :
    ∃ ys, xs = p :: ys ∧ ListAt next null (next p) ys := by
  cases xs with
  | nil => exact absurd h hp
  | cons x xs =>
    obtain ⟨rfl, -, h⟩ := h
    exact ⟨xs, rfl, h⟩

/-- The list at a pointer depends only on the links of its own nodes. -/
theorem listAt_congr {p : α} {xs : List α} (h : ∀ x ∈ xs, next' x = next x)
    (hl : ListAt next null p xs) : ListAt next' null p xs := by
  induction xs generalizing p with
  | nil => exact hl
  | cons x xs ih =>
    obtain ⟨hp, hx, hl⟩ := hl
    refine ⟨hp, hx, ?_⟩
    rw [h x (List.mem_cons_self ..)]
    exact ih (fun y hy => h y (List.mem_cons_of_mem _ hy)) hl

theorem listAt_unique {p : α} {xs ys : List α} (hx : ListAt next null p xs)
    (hy : ListAt next null p ys) : xs = ys := by
  induction xs generalizing p ys with
  | nil =>
    rw [listAt_nil] at hx
    subst hx
    exact (listAt_null.mp hy).symm
  | cons x xs ih =>
    obtain ⟨rfl, hne, hx⟩ := hx
    obtain ⟨zs, rfl, hz⟩ := listAt_of_ne_null hy hne
    rw [ih hx hz]

/-- Two links put a new node into a list after one of its nodes. -/
theorem listAt_insert {p x y : α} {xs ys : List α} (h : ListAt next null p (xs ++ x :: ys))
    (hy : y ≠ null) (hx' : next' x = y) (hy' : next' y = next x)
    (ho : ∀ z ∈ xs ++ ys, next' z = next z) : ListAt next' null p (xs ++ x :: y :: ys) := by
  induction xs generalizing p with
  | nil =>
    obtain ⟨hp, hx, hl⟩ := h
    refine ⟨hp, hx, hx', hy, ?_⟩
    rw [hy']
    exact listAt_congr ho hl
  | cons z xs ih =>
    obtain ⟨hp, hz, hl⟩ := h
    refine ⟨hp, hz, ?_⟩
    rw [ho z (List.mem_cons_self ..)]
    exact ih hl fun w hw => ho w (List.mem_cons_of_mem _ hw)

/-- What hangs off a node of a list. -/
theorem listAt_after {p x : α} {xs ys : List α} (h : ListAt next null p (xs ++ x :: ys)) :
    ListAt next null (next x) ys := by
  induction xs generalizing p with
  | nil => exact h.2.2
  | cons z xs ih => exact ih h.2.2

theorem ne_null_of_listAt {p x : α} {xs : List α} (h : ListAt next null p xs) (hx : x ∈ xs) : x ≠ null := by
  obtain ⟨ys, zs, rfl⟩ := List.append_of_mem hx
  induction ys generalizing p with
  | nil => exact h.2.1
  | cons y ys ih => exact ih h.2.2 (List.mem_append_right _ (List.mem_cons_self ..))

/-- A list that ends has no node twice. -/
theorem nodup_of_listAt {p : α} {xs : List α} (h : ListAt next null p xs) : xs.Nodup := by
  induction xs generalizing p with
  | nil => exact List.nodup_nil
  | cons x xs ih =>
    refine List.nodup_cons.mpr ⟨fun hx => ?_, ih h.2.2⟩
    obtain ⟨ys, zs, rfl⟩ := List.append_of_mem hx
    -- the same list would hang off both
    have hlen := congrArg List.length (listAt_unique h.2.2 (listAt_after h.2.2))
    rw [List.length_append, List.length_cons] at hlen
    omega

/-- Another list is hung off a node, in the place of what came after it. -/
theorem listAt_relink {p x : α} {xs ys zs : List α} (h : ListAt next null p (xs ++ x :: ys))
    (hxs : ∀ z ∈ xs, next' z = next z) (hzs : ListAt next' null (next' x) zs) :
    ListAt next' null p (xs ++ x :: zs) := by
  induction xs generalizing p with
  | nil => exact ⟨h.1, h.2.1, hzs⟩
  | cons z xs ih =>
    obtain ⟨hp, hz, hl⟩ := h
    refine ⟨hp, hz, ?_⟩
    rw [hxs z (List.mem_cons_self ..)]
    exact ih hl fun w hw => hxs w (List.mem_cons_of_mem _ hw)

/-! ### Rows -/

/-- The heads `xs`, each followed by its chain. -/
def rows (chain : α → List α) (xs : List α) : List α := xs.flatMap fun a => a :: chain a

@[simp] theorem rows_nil (chain : α → List α) : rows chain [] = [] := rfl

theorem rows_cons (chain : α → List α) (a : α) (xs : List α) :
    rows chain (a :: xs) = a :: chain a ++ rows chain xs := rfl

theorem rows_append (chain : α → List α) (xs ys : List α) :
    rows chain (xs ++ ys) = rows chain xs ++ rows chain ys := List.flatMap_append

theorem mem_rows {chain : α → List α} {xs : List α} {x : α} :
    x ∈ rows chain xs ↔ ∃ a ∈ xs, x ∈ a :: chain a := List.mem_flatMap

theorem mem_rows_head {chain : α → List α} {xs : List α} {a : α} (h : a ∈ xs) : a ∈ rows chain xs :=
  mem_rows.mpr ⟨a, h, List.mem_cons_self ..⟩

theorem rows_congr {chain chain' : α → List α} {xs : List α} (h : ∀ a ∈ xs, chain' a = chain a) :
    rows chain' xs = rows chain xs := by
  induction xs with
  | nil => rfl
  | cons a xs ih =>
    rw [rows_cons, rows_cons, h a (List.mem_cons_self ..), ih fun b hb => h b (List.mem_cons_of_mem a hb)]

/-- A row without a chain, put among the rows. -/
theorem rows_insert_perm (chain : α → List α) (xs ys : List α) {x : α} (hx : chain x = []) :
    (rows chain (xs ++ x :: ys)).Perm (x :: rows chain (xs ++ ys)) := by
  rw [rows_append, rows_cons, hx, rows_append]
  exact List.perm_middle

/-- One chain is changed: the rows change by what it gained. -/
theorem rows_update_perm [DecidableEq α] {chain : α → List α} {xs ys : List α} {a x : α} (hnd : xs.Nodup)
    (ha : a ∈ xs) (hys : ys.Perm (x :: chain a)) :
    (rows (Function.update chain a ys) xs).Perm (x :: rows chain xs) := by
  obtain ⟨p, q, rfl⟩ := List.append_of_mem ha
  obtain ⟨-, hq, hpq⟩ := List.nodup_append.mp hnd
  have hp' : rows (Function.update chain a ys) p = rows chain p := by
    refine rows_congr fun b hb => Function.update_of_ne ?_ ..
    exact hpq b hb a (List.mem_cons_self ..)
  have hq' : rows (Function.update chain a ys) q = rows chain q := by
    refine rows_congr fun b hb => Function.update_of_ne ?_ ..
    rintro rfl
    exact (List.nodup_cons.mp hq).1 hb
  rw [rows_append, rows_cons, hp', hq', Function.update_self, rows_append, rows_cons]
  have h1 : (a :: ys ++ rows chain q).Perm (x :: (a :: chain a ++ rows chain q)) := by
    have h2 : (a :: ys).Perm (x :: a :: chain a) := (hys.cons a).trans (List.Perm.swap x a (chain a))
    exact h2.append_right (rows chain q)
  exact (h1.append_left (rows chain p)).trans List.perm_middle

end FileSync.Lib
