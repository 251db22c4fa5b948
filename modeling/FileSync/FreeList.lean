import FileSync.Lib.ListAt
import FileSync.Lib.Word
import FileSync.MemoryLayout
import Mathlib.Data.List.Nodup
import Mathlib.Data.Nat.Notation

/-!
# The free list

`free_list.c`: the free slots of a component, linked through the slots
themselves. The link of a slot is the word at its start; what the memory is made
of is left open (`LinkMemory`), so that the same code runs over the nodes of a
tree and over bytes.
-/

namespace FileSync.FreeList

open FileSync.Lib FileSync.MemoryLayout

/-- How the link `obj->next` at an address is read and written. -/
structure LinkMemory (M : Type*) where
  /-- Read `obj->next`. -/
  next : M → Addr → Addr
  /-- Write `obj->next`. -/
  setNext : M → Addr → Addr → M

/-- `jfs_fl_t`. -/
structure Fl where
  /-- The first free slot, or `NULL`. -/
  list : Addr
  /-- The number of free slots. -/
  count : UInt64
  deriving DecidableEq, Repr

variable {M : Type*} (L : LinkMemory M)

/-- The loop of `fl_link_memory`, `n` turns of it from the slot `i` on, the list so
far being `list`. -/
def flLinkFrom (memory objSize : UInt64) : ℕ → ℕ → M → Addr → M × Addr
  | 0, _, m, list => (m, list)
  | n + 1, i, m, list =>
    let obj := memory + UInt64.ofNat i * objSize
    flLinkFrom memory objSize n (i + 1) (L.setNext m obj list) obj

/-- `fl_link_memory`. -/
def flLinkMemory (m : M) (memory objSize objCount : UInt64) : M × Addr :=
  flLinkFrom L memory objSize objCount.toNat 0 m NULL

/-- `jfs_fl_init`. -/
def jfsFlInit (m : M) (component : Component) : Except JfsErr (M × Fl) :=
  if !jfsMlgValidComponent component then .error .badConf
  else
    let (m, list) := flLinkMemory L m component.ptr component.desc.size component.desc.count
    .ok (m, { list := list, count := component.desc.count })

/-- `jfs_fl_alloc`: the slot, or `NULL` when none is free. -/
def jfsFlAlloc (m : M) (fl : Fl) : Addr × Fl :=
  if fl.count = 0 then (NULL, fl)
  else (fl.list, { list := L.next m fl.list, count := fl.count - 1 })

/-- `jfs_fl_free`. -/
def jfsFlFree (m : M) (fl : Fl) (ptr : Addr) : M × Fl :=
  if ptr = NULL then (m, fl)
  else (L.setNext m ptr fl.list, { list := ptr, count := fl.count + 1 })

/-! ### What linking the memory does -/

/-- A link that is written is read back, and the others are as they were. -/
def LawfulLinks : Prop :=
  ∀ m a b x, L.next (L.setNext m a b) x = if x = a then b else L.next m x

/-- The same for links at these addresses only. -/
def LawfulOn (S : List Addr) : Prop :=
  ∀ m, ∀ a ∈ S, ∀ b, ∀ x ∈ S, L.next (L.setNext m a b) x = if x = a then b else L.next m x

/-- `n` slots of a component, from the slot `i` on. -/
def slotsFrom (memory objSize : UInt64) (i n : ℕ) : List Addr :=
  (List.range' i n).map fun j => memory + UInt64.ofNat j * objSize

/-- The slots of a component. -/
def slots (component : Component) : List Addr :=
  slotsFrom component.ptr component.desc.size 0 component.desc.count.toNat

theorem slotsFrom_succ (memory objSize : UInt64) (i n : ℕ) :
    slotsFrom memory objSize i (n + 1) =
      (memory + UInt64.ofNat i * objSize) :: slotsFrom memory objSize (i + 1) n := rfl

theorem mem_slotsFrom {memory objSize a : UInt64} {i n : ℕ} :
    a ∈ slotsFrom memory objSize i n ↔ ∃ j, i ≤ j ∧ j < i + n ∧ a = memory + UInt64.ofNat j * objSize := by
  simp only [slotsFrom, List.mem_map, List.mem_range'_1, and_assoc, eq_comm]

variable {L}

theorem LawfulLinks.lawfulOn (h : LawfulLinks L) (S : List Addr) : LawfulOn L S := fun m a _ b x _ => h m a b x

theorem LawfulOn.mono {S T : List Addr} (h : LawfulOn L T) (hST : S ⊆ T) : LawfulOn L S :=
  fun m a ha b x hx => h m a (hST ha) b x (hST hx)

/-- The loop of `fl_link_memory` puts the slots in front of the list, the last one first. -/
theorem flLinkFrom_listAt {memory objSize : UInt64} {n i : ℕ} {m : M} {list : Addr} {xs : List Addr}
    (hL : LawfulOn L (slotsFrom memory objSize i n ++ xs)) (h : ListAt (L.next m) NULL list xs)
    (hnd : (slotsFrom memory objSize i n ++ xs).Nodup)
    (hne : ∀ a ∈ slotsFrom memory objSize i n, a ≠ NULL) :
    ListAt (L.next (flLinkFrom L memory objSize n i m list).1) NULL
      (flLinkFrom L memory objSize n i m list).2 ((slotsFrom memory objSize i n).reverse ++ xs) := by
  induction n generalizing i m list xs with
  | zero => exact h
  | succ n ih =>
    rw [slotsFrom_succ] at hL hnd hne ⊢
    have hmid : (slotsFrom memory objSize (i + 1) n ++ (memory + UInt64.ofNat i * objSize) :: xs).Nodup :=
      List.nodup_middle.mpr hnd
    have hx : memory + UInt64.ofNat i * objSize ∉ xs := fun hm =>
      (List.nodup_cons.mp hnd).1 (List.mem_append_right _ hm)
    have hself : memory + UInt64.ofNat i * objSize ∈
        (memory + UInt64.ofNat i * objSize) :: slotsFrom memory objSize (i + 1) n ++ xs := List.mem_cons_self ..
    rw [List.reverse_cons, List.append_assoc, List.singleton_append, flLinkFrom]
    refine ih (hL.mono List.perm_middle.subset) ⟨rfl, hne _ (List.mem_cons_self ..), ?_⟩ hmid
      fun a ha => hne a (List.mem_cons_of_mem _ ha)
    rw [hL m _ hself _ _ hself, if_pos rfl]
    refine listAt_congr (fun a ha => ?_) h
    rw [hL m _ hself _ _ (List.mem_append_right _ ha), if_neg]
    rintro rfl
    exact hx ha

/-- Linking the memory keeps what writing links to the slots keeps. -/
theorem flLinkFrom_keeps {P : M → Prop} {memory objSize : UInt64} {n i : ℕ} {m : M} {list : Addr} (h : P m)
    (hP : ∀ m a b, P m → a ∈ slotsFrom memory objSize i n → P (L.setNext m a b)) :
    P (flLinkFrom L memory objSize n i m list).1 := by
  induction n generalizing i m list with
  | zero => exact h
  | succ n ih =>
    rw [slotsFrom_succ] at hP
    rw [flLinkFrom]
    exact ih (hP m _ _ h (List.mem_cons_self ..)) fun m a b hm ha => hP m a b hm (List.mem_cons_of_mem _ ha)

/-! ### Taking slots -/

/-- The free list holds the slots `xs`, in this order. -/
structure Free (L : LinkMemory M) (m : M) (fl : Fl) (xs : List Addr) : Prop where
  list : ListAt (L.next m) NULL fl.list xs
  count : fl.count.toNat = xs.length

variable {m : M} {fl : Fl} {x : Addr} {xs : List Addr}

theorem jfsFlAlloc_nil (h : Free L m fl []) : jfsFlAlloc L m fl = (NULL, fl) := by
  have hcount : fl.count = 0 := UInt64.toNat_inj.mp h.count
  rw [jfsFlAlloc, if_pos hcount]

/-- **`jfs_fl_alloc`** takes the first slot. -/
theorem jfsFlAlloc_cons (h : Free L m fl (x :: xs)) :
    (jfsFlAlloc L m fl).1 = x ∧ Free L m (jfsFlAlloc L m fl).2 xs := by
  obtain ⟨hx, -, hlist⟩ := h.list
  have hlen := h.count
  have hcount : fl.count ≠ 0 := by
    intro e
    rw [e] at hlen
    cases hlen
  rw [jfsFlAlloc, if_neg hcount]
  refine ⟨hx, ?_, ?_⟩
  · rw [hx]
    exact hlist
  · rw [toNat_pred hcount, hlen, List.length_cons, Nat.add_sub_cancel]

/-- `jfs_fl_alloc` is out of slots when it returns `NULL`. -/
theorem jfsFlAlloc_eq_null_iff (h : Free L m fl xs) : (jfsFlAlloc L m fl).1 = NULL ↔ xs = [] := by
  cases xs with
  | nil => rw [jfsFlAlloc_nil h, eq_self, eq_self]
  | cons x xs =>
    rw [(jfsFlAlloc_cons h).1]
    exact iff_of_false h.list.2.1 (List.cons_ne_nil _ _)

/-- Calls of `jfs_fl_alloc`, one after another: the slots, and the free list. -/
def flAllocs (L : LinkMemory M) (m : M) : ℕ → Fl → List Addr × Fl
  | 0, fl => ([], fl)
  | n + 1, fl =>
    let (slot, fl) := jfsFlAlloc L m fl
    let (slots, fl) := flAllocs L m n fl
    (slot :: slots, fl)

/-- All slots are taken, in order. -/
theorem flAllocs_spec (h : Free L m fl xs) :
    (flAllocs L m xs.length fl).1 = xs ∧ Free L m (flAllocs L m xs.length fl).2 [] := by
  induction xs generalizing fl with
  | nil => exact ⟨rfl, h⟩
  | cons x xs ih =>
    obtain ⟨hx, hfree⟩ := jfsFlAlloc_cons h
    obtain ⟨hxs, hend⟩ := ih hfree
    exact ⟨congrArg₂ List.cons hx hxs, hend⟩

/-- **`jfs_fl_free`** puts a slot in front. -/
theorem jfsFlFree_spec (hL : LawfulOn L (x :: xs)) (h : Free L m fl xs) (hx : x ≠ NULL) (hxs : x ∉ xs)
    (hlen : xs.length + 1 < 2 ^ 64) : Free L (jfsFlFree L m fl x).1 (jfsFlFree L m fl x).2 (x :: xs) := by
  rw [jfsFlFree, if_neg hx]
  refine ⟨⟨rfl, hx, ?_⟩, ?_⟩
  · rw [hL m x (List.mem_cons_self ..) _ x (List.mem_cons_self ..), if_pos rfl]
    refine listAt_congr (fun a ha => ?_) h.list
    rw [hL m x (List.mem_cons_self ..) _ a (List.mem_cons_of_mem _ ha), if_neg]
    rintro rfl
    exact hxs ha
  · rw [UInt64.toNat_add, h.count]
    exact Nat.mod_eq_of_lt hlen

end FileSync.FreeList
