import FileSync.ThreadSafeSlab.System

/-!
# Steps without the mutex

What a thread does without the mutex is made of a few things: links of objects are
written, its cache, its place in the call, and what the users hold. A relation between
states that admits each of these (`Admits`) holds between the states before and after every
such step, whether it fails or not.
-/

namespace FileSync.ThreadSafeSlab

open FileSync.Lib

variable {ι α β : Type} {m m' : Mem}

/-! ### Links of objects -/

/-- Only links of objects are written. -/
structure LinksOnly (m m' : Mem) : Prop where
  slab : m'.slab = m.slab
  mapped : m'.mapped = m.mapped

theorem LinksOnly.refl (m : Mem) : LinksOnly m m := ⟨rfl, rfl⟩

theorem LinksOnly.trans {m'' : Mem} (h : LinksOnly m m') (h' : LinksOnly m' m'') : LinksOnly m m'' :=
  ⟨h'.slab.trans h.slab, h'.mapped.trans h.mapped⟩

theorem linksOnly_assert (p : Bool) : Always LinksOnly (assert p) := by
  cases p with
  | true => exact always_pure LinksOnly.refl ()
  | false => exact always_fail LinksOnly.refl _

theorem linksOnly_deref (p : Addr) : Always LinksOnly (deref p) := by
  unfold deref
  split
  · exact always_fail LinksOnly.refl _
  · exact always_pure LinksOnly.refl ()

theorem linksOnly_getNext (p : Addr) : Always LinksOnly (getNext p) :=
  always_bind LinksOnly.trans (linksOnly_deref p) fun _ =>
    always_bind LinksOnly.trans (always_get LinksOnly.refl) fun _ => always_pure LinksOnly.refl _

theorem linksOnly_setNext (p q : Addr) : Always LinksOnly (setNext p q) :=
  always_bind LinksOnly.trans (linksOnly_deref p) fun _ => always_modify fun _ => ⟨rfl, rfl⟩

theorem linksOnly_loadLoop (n : ℕ) (total : UInt32) (tail : Addr) : Always LinksOnly (loadLoop n total tail) := by
  induction n generalizing total tail with
  | zero => exact always_pure LinksOnly.refl _
  | succ n ih =>
    refine always_bind LinksOnly.trans (linksOnly_getNext tail) fun next => ?_
    split
    · exact always_pure LinksOnly.refl _
    · exact ih _ _

theorem linksOnly_loadHead (b : Batch) (p : Addr) : Always LinksOnly (loadHead b p) := by
  unfold loadHead
  split
  · refine always_bind LinksOnly.trans (linksOnly_assert _) fun _ => ?_
    exact always_bind LinksOnly.trans (linksOnly_assert _) fun _ => always_pure LinksOnly.refl _
  · refine always_bind LinksOnly.trans (linksOnly_getNext _) fun next => ?_
    refine always_bind LinksOnly.trans (linksOnly_assert _) fun _ => ?_
    exact always_bind LinksOnly.trans (linksOnly_setNext _ _) fun _ => always_pure LinksOnly.refl _

theorem linksOnly_tssBatchLoad (b : Batch) (p : Addr) : Always LinksOnly (tssBatchLoad b p) := by
  refine always_bind LinksOnly.trans (linksOnly_assert _) fun _ => ?_
  split
  · exact always_pure LinksOnly.refl _
  · refine always_bind LinksOnly.trans (linksOnly_loadLoop _ _ _) fun ⟨total, tail⟩ => ?_
    refine always_bind LinksOnly.trans (linksOnly_loadHead _ _) fun b => ?_
    refine always_bind LinksOnly.trans (linksOnly_getNext _) fun rest => ?_
    exact always_bind LinksOnly.trans (linksOnly_setNext _ _) fun _ => always_pure LinksOnly.refl _

theorem linksOnly_tssBatchUnload (b : Batch) (p : Addr) : Always LinksOnly (tssBatchUnload b p) := by
  unfold tssBatchUnload
  split
  · exact always_pure LinksOnly.refl _
  · refine always_bind LinksOnly.trans (linksOnly_assert _) fun _ => ?_
    refine always_bind LinksOnly.trans (linksOnly_assert _) fun _ => ?_
    refine always_bind LinksOnly.trans (linksOnly_getNext _) fun next => ?_
    refine always_bind LinksOnly.trans (linksOnly_assert _) fun _ => ?_
    exact always_bind LinksOnly.trans (linksOnly_setNext _ _) fun _ => always_pure LinksOnly.refl _

/-! ### Steps -/

/-- The relation admits what the thread `c` does without the mutex. -/
structure Admits [DecidableEq ι] (c : ι) (R : Sys ι → Sys ι → Prop) : Prop where
  refl : ∀ s, R s s
  trans : ∀ {s t u}, R s t → R t u → R s u
  links : ∀ s m', LinksOnly s.mem m' → R s { s with mem := m' }
  cache : ∀ s cache, R s { s with caches := Function.update s.caches c cache }
  goto : ∀ s pc, (∀ b, pc ≠ .acquired b) → R s { s with pc := Function.update s.pc c pc }
  held : ∀ s l, R s { s with held := l }

namespace Admits

variable [DecidableEq ι] {c : ι} {R : Sys ι → Sys ι → Prop} (h : Admits c R)
include h

theorem onMem {p : Code α} (hp : Always LinksOnly p) : Always R (onMem p : SysCode ι α) := fun s => h.links s _ (hp s.mem)

theorem setCache (cache : Cache) : Always R (setCache c cache) := fun s => h.cache s cache

theorem goto_of_ne {pc : Pc} (hpc : ∀ b, pc ≠ .acquired b) : Always R (FileSync.ThreadSafeSlab.goto c pc) :=
  fun s => h.goto s pc hpc

theorem popObj : Always R (popObj c) := by
  refine always_bind h.trans (always_get h.refl) fun s => ?_
  refine always_bind h.trans (h.onMem (linksOnly_getNext _)) fun next => ?_
  refine always_bind h.trans (h.setCache _) fun _ => ?_
  exact always_modify fun s => h.held s _

theorem unloadBatch (batch : Batch) : Always R (unloadBatch c batch) := by
  refine always_bind h.trans (h.onMem (linksOnly_assert _)) fun _ => ?_
  refine always_bind h.trans (always_get h.refl) fun s => ?_
  refine always_bind h.trans (h.onMem (linksOnly_tssBatchUnload _ _)) fun r => ?_
  refine always_bind h.trans (h.setCache _) fun _ => ?_
  exact h.goto_of_ne (by simp)

theorem allocUnload (batch : Batch) : Always R (allocUnload c batch) :=
  always_bind h.trans (h.unloadBatch batch) fun _ => h.popObj

theorem tssFreeSlowPath (conf : Conf) : Always R (tssFreeSlowPath conf c) := by
  refine always_bind h.trans (always_get h.refl) fun s => ?_
  refine always_bind h.trans (h.onMem (linksOnly_tssBatchLoad _ _)) fun r => ?_
  refine always_bind h.trans (h.onMem (linksOnly_assert _)) fun _ => ?_
  refine always_bind h.trans (h.setCache _) fun _ => ?_
  exact h.goto_of_ne (by simp)

theorem jfsTssFree (conf : Conf) (obj : Addr) : Always R (jfsTssFree conf c obj) := by
  unfold FileSync.ThreadSafeSlab.jfsTssFree
  split
  · exact always_pure h.refl ()
  · refine always_bind h.trans (always_get h.refl) fun s => ?_
    refine always_bind h.trans (h.onMem (linksOnly_setNext _ _)) fun _ => ?_
    refine always_bind h.trans (always_modify fun s => h.held s _) fun _ => ?_
    refine always_bind h.trans (h.setCache _) fun _ => ?_
    split
    · exact h.tssFreeSlowPath conf
    · exact always_pure h.refl ()

theorem jfsTssCacheFullRelease : Always R (jfsTssCacheFullRelease c) := by
  refine always_bind h.trans (always_get h.refl) fun s => ?_
  dsimp only
  split
  · exact always_pure h.refl ()
  · refine always_bind h.trans (h.onMem (linksOnly_tssBatchLoad _ _)) fun r => ?_
    refine always_bind h.trans (h.setCache _) fun _ => ?_
    refine always_bind h.trans (h.onMem (linksOnly_assert _)) fun _ => ?_
    refine always_bind h.trans (h.onMem (linksOnly_assert _)) fun _ => ?_
    exact h.goto_of_ne (by simp)

theorem jfsTssCacheRefresh : Always R (jfsTssCacheRefresh c) := by
  refine always_bind h.trans (always_get h.refl) fun s => ?_
  refine always_bind h.trans (h.onMem (linksOnly_tssBatchLoad _ _)) fun r => ?_
  refine always_bind h.trans (h.setCache _) fun _ => ?_
  refine always_bind h.trans (h.onMem (linksOnly_assert _)) fun _ => ?_
  exact h.goto_of_ne (by simp)

end Admits

/-! ### Steps that give a value -/

variable {s s' : Sys ι}

theorem onMem_eq_ok {p : Code α} {a : α} (h : onMem p s = (.ok a, s')) :
    ∃ m', p s.mem = (.ok a, m') ∧ s' = { s with mem := m' } := by
  rw [onMem, Fallible.zoom_apply, Prod.mk.injEq] at h
  exact ⟨(p s.mem).2, Prod.ext h.1 rfl, h.2.symm⟩

theorem onMem_bind_eq_ok {p : Code α} {f : α → SysCode ι β} {b : β} (h : (onMem p >>= f) s = (.ok b, s')) :
    ∃ a m', p s.mem = (.ok a, m') ∧ f a { s with mem := m' } = (.ok b, s') := by
  obtain ⟨a, s₁, hp, hf⟩ := Fallible.bind_eq_ok.mp h
  obtain ⟨m', hp', rfl⟩ := onMem_eq_ok hp
  exact ⟨a, m', hp', hf⟩

end FileSync.ThreadSafeSlab
