import Mathlib.Algebra.BigOperators.Group.List.Basic
import Mathlib.Algebra.Order.BigOperators.Group.List
import Mathlib.Algebra.Order.Group.Nat
import FileSync.ThreadSafeSlab.Batch
import FileSync.ThreadSafeSlab.Geometry

/-!
# The pool of slabs

The allocator without the caches: slabs, each with the list of its free objects, some
of them on the active list, the others retired and waiting for their last object
(`Pool`). The objects of mapped slabs that are on no free list are out, in a cache, in a
batch or with a user, and where they are is not the allocator's concern (`Out`). Its
functions take objects out or put them back, and do not touch the links of objects that
are out.
-/

namespace FileSync.ThreadSafeSlab

open FileSync.Lib

variable {conf : SlabConfig} {m m' : Mem} {F F' : Addr → List Addr} {A : List Addr} {S T x : Addr}

/-- A slab with the free objects `free`: the others are used. -/
structure SlabOk (conf : SlabConfig) (next : Addr → Addr) (slab : Slab) (S : Addr) (free : List Addr) : Prop where
  list : ListAt next NULL slab.freeListHead free
  nodup : free.Nodup
  sub : free ⊆ objects conf S
  used : slab.usedCount.toNat + free.length = conf.objPerSlab.toNat

/-- **The pool.** `F` has the free objects of each slab, and `A` is the active list. -/
structure Pool (conf : SlabConfig) (m : Mem) (F : Addr → List Addr) (A : List Addr) : Prop where
  nodup : m.mapped.Nodup
  addr : ∀ S ∈ m.mapped, IsSlabAddr conf S
  slab : ∀ S ∈ m.mapped, SlabOk conf m.next (m.slab S) S (F S)
  active : ListAt (fun S => (m.slab S).next) NULL m.activeListHead A
  active_nodup : A.Nodup
  active_iff : ∀ S, S ∈ A ↔ S ∈ m.mapped ∧ (m.slab S).retiredFlag = false
  total : m.usedObjCount.toNat = (m.mapped.map fun S => (m.slab S).usedCount.toNat).sum

/-- A retired slab has an object that is out: it goes with the last one. -/
def RetiredUsed (m : Mem) : Prop := ∀ S ∈ m.mapped, (m.slab S).retiredFlag = true → (m.slab S).usedCount ≠ 0

/-- The object is out. -/
def Out (conf : SlabConfig) (m : Mem) (F : Addr → List Addr) (x : Addr) : Prop :=
  ∃ S ∈ m.mapped, x ∈ objects conf S ∧ x ∉ F S

/-- Between two states of the pool the objects `taken` have gone out, to a batch that held `B`
before, and the links of the other objects that were out are as they were. -/
structure TakesOut (conf : SlabConfig) (B : List Addr) (m : Mem) (F : Addr → List Addr) (m' : Mem)
    (F' : Addr → List Addr) (taken : List Addr) : Prop where
  out : ∀ x, Out conf m' F' x ↔ Out conf m F x ∨ x ∈ taken
  fresh : ∀ x ∈ taken, ¬ Out conf m F x
  frame : ∀ x, Out conf m F x → x ∉ B → m'.next x = m.next x

theorem TakesOut.refl (conf : SlabConfig) (B : List Addr) (m : Mem) (F : Addr → List Addr) :
    TakesOut conf B m F m F [] := ⟨fun x => by simp, fun x hx => by simp at hx, fun _ _ _ => rfl⟩

theorem TakesOut.trans {m'' : Mem} {F'' : Addr → List Addr} {B xs ys : List Addr} (h : TakesOut conf B m F m' F' xs)
    (h' : TakesOut conf (B ++ xs) m' F' m'' F'' ys) : TakesOut conf B m F m'' F'' (xs ++ ys) := by
  refine ⟨fun x => ?_, fun x hx => ?_, fun x hx hxB => ?_⟩
  · rw [h'.out, h.out, List.mem_append, or_assoc]
  · rcases List.mem_append.mp hx with hx | hx
    · exact h.fresh x hx
    · exact fun ho => h'.fresh x hx ((h.out x).mpr (.inl ho))
  · have hx' : x ∉ B ++ xs := by
      rw [List.mem_append, not_or]
      exact ⟨hxB, fun hxs => h.fresh x hxs hx⟩
    rw [h'.frame x ((h.out x).mpr (.inl hx)) hx', h.frame x hx hxB]

/-- From one state of the pool to another: the invariants are kept. -/
structure Keeps (conf : SlabConfig) (m : Mem) (A : List Addr) (m' : Mem) (F' : Addr → List Addr) (A' : List Addr) :
    Prop where
  pool : Pool conf m' F' A'
  retired : RetiredUsed m → RetiredUsed m'
  counted : m.activeListCount.toNat = A.length → m'.activeListCount.toNat = A'.length

theorem Pool.keeps (h : Pool conf m F A) : Keeps conf m A m F A := ⟨h, id, id⟩

theorem Keeps.trans {m'' : Mem} {F'' : Addr → List Addr} {A' A'' : List Addr} (h : Keeps conf m A m' F' A')
    (h' : Keeps conf m' A' m'' F'' A'') : Keeps conf m A m'' F'' A'' :=
  ⟨h'.pool, h'.retired ∘ h.retired, h'.counted ∘ h.counted⟩

/-! ### Facts about the pool -/

/-- The free lists of two slabs have no object in common. -/
theorem Pool.eq_of_mem (hc : conf.Good) (h : Pool conf m F A) (hS : S ∈ m.mapped) (hT : T ∈ m.mapped)
    (hx : x ∈ F S) (hx' : x ∈ F T) : S = T :=
  eq_of_mem_objects hc (h.addr S hS) (h.addr T hT) ((h.slab S hS).sub hx) ((h.slab T hT).sub hx')

/-- An object that is out is on no free list. -/
theorem Pool.notMem_of_out (hc : conf.Good) (h : Pool conf m F A) (hx : Out conf m F x) (hS : S ∈ m.mapped) :
    x ∉ F S := by
  obtain ⟨T, hT, hobj, hfree⟩ := hx
  intro hmem
  have hST := eq_of_mem_objects hc (h.addr S hS) (h.addr T hT) ((h.slab S hS).sub hmem) hobj
  exact hfree (hST ▸ hmem)

theorem Pool.mapped_of_active (h : Pool conf m F A) (hS : S ∈ A) : S ∈ m.mapped := ((h.active_iff S).mp hS).1

theorem Pool.active_length_le (h : Pool conf m F A) : A.length ≤ m.mapped.length :=
  (h.active_nodup.subperm fun _ hS => h.mapped_of_active hS).length_le

theorem SlabOk.used_le {next : Addr → Addr} {slab : Slab} {free : List Addr} (h : SlabOk conf next slab S free) :
    slab.usedCount.toNat ≤ conf.objPerSlab.toNat := by
  have := h.used
  omega

/-- A slab whose objects are all free has none that is out. -/
theorem SlabOk.mem_of_unused {next : Addr → Addr} {slab : Slab} {free : List Addr}
    (h : SlabOk conf next slab S free) (h0 : slab.usedCount = 0) (hx : x ∈ objects conf S) : x ∈ free := by
  have hlen : (objects conf S).length ≤ free.length := by
    have hused := h.used
    rw [h0, show (0 : UInt64).toNat = 0 from rfl] at hused
    rw [length_objects]
    omega
  exact ((h.nodup.subperm h.sub).perm_of_length_le hlen).mem_iff.mpr hx

theorem sum_map_le {l : List Addr} {f : Addr → ℕ} {n : ℕ} (h : ∀ T ∈ l, f T ≤ n) : (l.map f).sum ≤ l.length * n := by
  have hle := List.sum_le_card_nsmul (l.map f) n fun k hk => by
    obtain ⟨T, hT, rfl⟩ := List.mem_map.mp hk
    exact h T hT
  simpa using hle

/-- One number of a sum is changed. -/
theorem sum_map_congr_of_ne {l : List Addr} (hnd : l.Nodup) (hS : S ∈ l) {f g : Addr → ℕ}
    (h : ∀ T, T ≠ S → g T = f T) : (l.map g).sum + f S = (l.map f).sum + g S := by
  obtain ⟨xs, ys, rfl⟩ := List.append_of_mem hS
  rw [List.nodup_middle, List.nodup_cons, List.mem_append, not_or] at hnd
  have hxs : xs.map g = xs.map f := List.map_congr_left fun T hT => h T fun e => hnd.1.1 (e ▸ hT)
  have hys : ys.map g = ys.map f := List.map_congr_left fun T hT => h T fun e => hnd.1.2 (e ▸ hT)
  simp only [List.map_append, List.map_cons, List.sum_append, List.sum_cons, hxs, hys]
  omega

/-- Links of objects that are not free are changed. -/
theorem Pool.relink {next : Addr → Addr} (h : Pool conf m F A)
    (hnext : ∀ S ∈ m.mapped, ∀ x ∈ F S, next x = m.next x) : Pool conf { m with next := next } F A := by
  refine ⟨h.nodup, h.addr, fun S hS => ?_, h.active, h.active_nodup, h.active_iff, h.total⟩
  have hok := h.slab S hS
  exact ⟨listAt_congr (hnext S hS) hok.list, hok.nodup, hok.sub, hok.used⟩

/-! ### Changes of one slab -/

/-- The memory after a change of one slab. -/
def Mem.change (m : Mem) (S : Addr) (next : Addr → Addr) (slab : Slab) (total : UInt64) : Mem :=
  { m with next := next, slab := Function.update m.slab S slab, usedObjCount := total }

/-- The free objects of one slab, and so its count, are changed. -/
theorem Pool.change {next : Addr → Addr} {slab : Slab} {total : UInt64} {free : List Addr} (h : Pool conf m F A)
    (hS : S ∈ m.mapped) (hlink : slab.next = (m.slab S).next) (hflag : slab.retiredFlag = (m.slab S).retiredFlag)
    (hok : SlabOk conf next slab S free) (hframe : ∀ T ∈ m.mapped, T ≠ S → ∀ x ∈ F T, next x = m.next x)
    (htotal : total.toNat + (m.slab S).usedCount.toNat = m.usedObjCount.toNat + slab.usedCount.toNat) :
    Pool conf (m.change S next slab total) (Function.update F S free) A := by
  have hslab : ∀ T, T ≠ S → (m.change S next slab total).slab T = m.slab T := fun T hT => Function.update_of_ne hT ..
  have hself : (m.change S next slab total).slab S = slab := Function.update_self ..
  have hlinks : (fun T => ((m.change S next slab total).slab T).next) = fun T => (m.slab T).next := by
    funext T
    by_cases hT : T = S
    · rw [hT, hself, hlink]
    · rw [hslab T hT]
  have hflags : ∀ T, ((m.change S next slab total).slab T).retiredFlag = (m.slab T).retiredFlag := by
    intro T
    by_cases hT : T = S
    · rw [hT, hself, hflag]
    · rw [hslab T hT]
  refine ⟨h.nodup, h.addr, fun T hT => ?_, hlinks ▸ h.active, h.active_nodup, fun T => ?_, ?_⟩
  · by_cases hTS : T = S
    · subst hTS
      rw [hself, Function.update_self]
      exact hok
    · rw [hslab T hTS, Function.update_of_ne hTS]
      have hT' := h.slab T hT
      exact ⟨listAt_congr (hframe T hT hTS) hT'.list, hT'.nodup, hT'.sub, hT'.used⟩
  · rw [hflags]
    exact h.active_iff T
  · have hsum := sum_map_congr_of_ne h.nodup hS
      (f := fun T => (m.slab T).usedCount.toNat) (g := fun T => ((m.change S next slab total).slab T).usedCount.toNat)
      fun T hT => by rw [hslab T hT]
    have ht := h.total
    rw [hself] at hsum
    show total.toNat = (m.mapped.map fun T => ((m.change S next slab total).slab T).usedCount.toNat).sum
    omega

/-- What is out after a change of one slab. -/
theorem out_change {next : Addr → Addr} {slab : Slab} {total : UInt64} {free : List Addr} (hc : conf.Good)
    (h : Pool conf m F A) (hS : S ∈ m.mapped) :
    Out conf (m.change S next slab total) (Function.update F S free) x ↔
      if x ∈ objects conf S then x ∉ free else Out conf m F x := by
  split
  · next hx =>
    constructor
    · rintro ⟨T, hT, hxT, hfree⟩
      obtain rfl := eq_of_mem_objects hc (h.addr S hS) (h.addr T hT) hx hxT
      rwa [Function.update_self] at hfree
    · intro hfree
      exact ⟨S, hS, hx, by rwa [Function.update_self]⟩
  · next hx =>
    constructor
    · rintro ⟨T, hT, hxT, hfree⟩
      have hTS : T ≠ S := fun e => hx (e ▸ hxT)
      rw [Function.update_of_ne hTS] at hfree
      exact ⟨T, hT, hxT, hfree⟩
    · rintro ⟨T, hT, hxT, hfree⟩
      have hTS : T ≠ S := fun e => hx (e ▸ hxT)
      exact ⟨T, hT, hxT, by rwa [Function.update_of_ne hTS]⟩

end FileSync.ThreadSafeSlab
