import Mathlib.Data.Multiset.AddSub
import Mathlib.Data.Nat.Notation

/-!
# The blocks of a program

What `malloc` has handed out and `free` has not got back (`Heap`). A pointer is `NULL`, a
block, or what memory has that was never written. `Heap.Holds h bs` says that the blocks in
use are those of `bs`, each once, and that so far no pointer was freed or used that does not
point to one of them. With `bs` the blocks that the data of a program own, this is
that nothing is lost, nothing freed twice and nothing used after it.
-/

namespace FileSync.Lib

/-- A block of memory. -/
abbrev Block := ℕ

/-- A pointer to a block. -/
inductive Pointer where
  /-- Never written. -/
  | uninit
  | null
  | block (b : Block)
  deriving DecidableEq, Repr

/-- The block of a pointer. -/
def Pointer.blocks : Pointer → Multiset Block
  | .block b => {b}
  | _ => 0

@[simp] theorem Pointer.blocks_null : Pointer.null.blocks = 0 := rfl

@[simp] theorem Pointer.blocks_uninit : Pointer.uninit.blocks = 0 := rfl

@[simp] theorem Pointer.blocks_block (b : Block) : (Pointer.block b).blocks = {b} := rfl

theorem Pointer.null_ne_uninit : Pointer.null ≠ .uninit := fun e => Pointer.noConfusion e

/-- It points to a block. -/
def Pointer.IsBlock (p : Pointer) : Prop := ∃ b, p = .block b

theorem Pointer.IsBlock.ne_uninit {p : Pointer} (h : p.IsBlock) : p ≠ .uninit := by
  obtain ⟨b, rfl⟩ := h
  exact fun e => Pointer.noConfusion e

theorem Pointer.IsBlock.ne_null {p : Pointer} (h : p.IsBlock) : p ≠ .null := by
  obtain ⟨b, rfl⟩ := h
  exact fun e => Pointer.noConfusion e

/-- The blocks in use. -/
structure Heap where
  live : List Block
  /-- The next block that `malloc` hands out. -/
  next : Block
  /-- A pointer was freed or used that does not point to a block in use. -/
  misused : Bool
  deriving DecidableEq, Repr

namespace Heap

/-- `malloc`. -/
def malloc (h : Heap) : Heap := { h with live := h.next :: h.live, next := h.next + 1 }

/-- `free`. -/
def free (h : Heap) : Pointer → Heap
  | .null => h
  | .uninit => { h with misused := true }
  | .block b => if b ∈ h.live then { h with live := h.live.erase b } else { h with misused := true }

/-- An access through a pointer. -/
def touch (h : Heap) : Pointer → Heap
  | .block b => if b ∈ h.live then h else { h with misused := true }
  | _ => { h with misused := true }

/-- The blocks in use are those of `bs`, each once. -/
structure Holds (h : Heap) (bs : Multiset Block) : Prop where
  live : (h.live : Multiset Block) = bs
  nodup : h.live.Nodup
  fresh : ∀ b ∈ h.live, b < h.next
  sound : h.misused = false

variable {h : Heap} {bs : Multiset Block} {p : Pointer} {b : Block}

theorem Holds.malloc (hh : h.Holds bs) : h.malloc.Holds ({h.next} + bs) := by
  refine ⟨?_, ?_, ?_, hh.sound⟩
  · rw [Heap.malloc, ← Multiset.cons_coe, hh.live]
    rfl
  · exact List.nodup_cons.mpr ⟨fun hm => Nat.lt_irrefl _ (hh.fresh _ hm), hh.nodup⟩
  · intro b hb
    rcases List.mem_cons.mp hb with rfl | hb
    · exact Nat.lt_succ_self _
    · exact Nat.lt_succ_of_lt (hh.fresh b hb)

theorem Holds.mem (hh : h.Holds ((Pointer.block b).blocks + bs)) : b ∈ h.live := by
  rw [← Multiset.mem_coe, hh.live]
  simp

/-- A pointer of the program is freed. -/
theorem Holds.free (hh : h.Holds (p.blocks + bs)) (hp : p ≠ .uninit) : (h.free p).Holds bs := by
  cases p with
  | uninit => exact absurd rfl hp
  | null => simpa [Heap.free] using hh
  | block b =>
    rw [Heap.free, if_pos hh.mem]
    refine ⟨?_, hh.nodup.erase b, fun b' hb' => hh.fresh b' (List.mem_of_mem_erase hb'), hh.sound⟩
    rw [← Multiset.coe_erase, hh.live, Pointer.blocks_block, Multiset.singleton_add, Multiset.erase_cons_head]

/-- A block of the program is used. -/
theorem Holds.touch (hh : h.Holds (p.blocks + bs)) (hp : p.IsBlock) : h.touch p = h := by
  obtain ⟨b, rfl⟩ := hp
  rw [Heap.touch, if_pos hh.mem]

end Heap

end FileSync.Lib
