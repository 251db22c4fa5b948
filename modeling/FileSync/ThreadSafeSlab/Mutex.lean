import FileSync.ThreadSafeSlab.Local
import FileSync.ThreadSafeSlab.Safety

/-!
# The mutex

The only step that leaves the mutex locked is the first half of `tss_alloc_slow_path`, and
the only one that is taken with the mutex locked is its second half, which unlocks it and
does not fail. So the mutex is locked exactly while one thread is between the two, and a
call that waits for the mutex waits for one step of that thread (`waits_one_step`).
-/

namespace FileSync.ThreadSafeSlab

open FileSync.Lib

variable {ι : Type} [DecidableEq ι] {α : Type} {conf : Conf} {mmap : Mmap} {s s' : Sys ι} {F : Addr → List Addr}
  {A : List Addr} {O : Place ι → List Addr} {guard : Sys ι → Event ι → Prop}

/-! ### The mutex -/

/-- The mutex is locked by the thread that is in the middle of `tss_alloc_slow_path`, if there is one. -/
def MutexHeld (s : Sys ι) : Prop := ∀ d, s.lock = some d ↔ ∃ b, s.pc d = .acquired b

/-- What the thread `c` does without the mutex, or with it from the locking to the unlocking. -/
structure Unlocked (c : ι) (s s' : Sys ι) : Prop where
  lock : s'.lock = s.lock
  others : ∀ d, d ≠ c → s'.pc d = s.pc d
  out : (∀ b, s.pc c ≠ .acquired b) → ∀ b, s'.pc c ≠ .acquired b

omit [DecidableEq ι] in
theorem Unlocked.refl (c : ι) (s : Sys ι) : Unlocked c s s := ⟨rfl, fun _ _ => rfl, id⟩

omit [DecidableEq ι] in
theorem Unlocked.trans {c : ι} {s t u : Sys ι} (h : Unlocked c s t) (h' : Unlocked c t u) : Unlocked c s u :=
  ⟨h'.lock.trans h.lock, fun d hd => (h'.others d hd).trans (h.others d hd), h'.out ∘ h.out⟩

omit [DecidableEq ι] in
theorem Unlocked.mutexHeld {c : ι} (h : Unlocked c s s') (hs : MutexHeld s) (hc : ∀ b, s.pc c ≠ .acquired b) :
    MutexHeld s' := by
  intro d
  rw [h.lock, hs d]
  by_cases hd : d = c
  · subst hd
    exact ⟨fun ⟨b, e⟩ => absurd e (hc b), fun ⟨b, e⟩ => absurd e (h.out hc b)⟩
  · rw [h.others d hd]

theorem admits_unlocked (c : ι) : Admits c (Unlocked c) where
  refl := Unlocked.refl c
  trans := Unlocked.trans
  links _ _ _ := ⟨rfl, fun _ _ => rfl, id⟩
  cache _ _ := ⟨rfl, fun _ _ => rfl, id⟩
  goto s pc hpc := by
    refine ⟨rfl, fun d hd => Function.update_of_ne hd .., fun _ b => ?_⟩
    show Function.update s.pc c pc c ≠ _
    rw [Function.update_self]
    exact hpc b
  held _ _ := ⟨rfl, fun _ _ => rfl, id⟩

omit [DecidableEq ι] in
theorem unlocked_onMem (c : ι) (p : Code α) : Always (Unlocked c) (onMem p : SysCode ι α) :=
  fun _ => ⟨rfl, fun _ _ => rfl, id⟩

theorem unlocked_releaseBatch (c : ι) (conf : Conf) (batch : Batch) :
    Always (Unlocked c) (releaseBatch conf c batch) := by
  refine always_bind Unlocked.trans (unlocked_onMem c _) fun _ => ?_
  exact (admits_unlocked c).goto_of_ne (by simp)

theorem unlocked_refreshSwap (c : ι) (conf : Conf) (mmap : Mmap) (batch : Batch) :
    Always (Unlocked c) (refreshSwap conf mmap c batch) := by
  refine always_bind Unlocked.trans (unlocked_onMem c _) fun r => ?_
  refine always_bind Unlocked.trans (unlocked_onMem c _) fun _ => ?_
  refine always_bind Unlocked.trans (unlocked_onMem c _) fun ⟨batch, err⟩ => ?_
  dsimp only
  split
  · refine always_bind Unlocked.trans (unlocked_onMem c _) fun _ => ?_
    exact (admits_unlocked c).goto_of_ne (by simp)
  · exact (admits_unlocked c).goto_of_ne (by simp)

/-- `tss_alloc_slow_path` up to the retire test: it leaves with an error and the mutex unlocked, or has
a batch and the mutex. -/
theorem tssAllocSlowPath_lock {c : ι} (h : tssAllocSlowPath conf mmap c s = (.ok (), s')) :
    (s'.lock = none ∧ s'.pc = s.pc) ∨
      (s'.lock = some c ∧ ∃ b, s'.pc = Function.update s.pc c (.acquired b)) := by
  rw [tssAllocSlowPath, setLock, Fallible.modify_bind] at h
  obtain ⟨⟨batch, err⟩, m₁, -, h⟩ := onMem_bind_eq_ok h
  dsimp only at h
  split at h
  · obtain ⟨r, m₂, -, h⟩ := onMem_bind_eq_ok h
    obtain rfl := (Prod.mk.inj h).2
    exact .inl ⟨rfl, rfl⟩
  · obtain rfl := (Prod.mk.inj h).2
    exact .inr ⟨rfl, batch, rfl⟩

/-- The rest of `tss_alloc_slow_path` unlocks the mutex. -/
theorem retireTest_lock {c : ι} {ready : Bool} {b : Batch} (h : retireTest conf c ready b s = (.ok (), s')) :
    s'.lock = none ∧ s'.pc = Function.update s.pc c (.allocating b) := by
  cases ready with
  | false =>
    obtain rfl := (Prod.mk.inj h).2
    exact ⟨rfl, rfl⟩
  | true =>
    rw [retireTest, if_pos rfl] at h
    obtain ⟨u, m₁, -, h⟩ := onMem_bind_eq_ok h
    obtain rfl := (Prod.mk.inj h).2
    exact ⟨rfl, rfl⟩

/-- **The mutex is held as it should be**, after every step. -/
theorem mutexHeld_step {e : Event ι} {code : SysCode ι Unit} (hrun : Runs conf mmap s e code)
    (hok : code s = (.ok (), s')) (hs : MutexHeld s) : MutexHeld s' := by
  cases hrun with
  | @alloc c hpc hlock =>
    rw [jfsTssAlloc, Fallible.get_bind] at hok
    split at hok
    · next hcount =>
      have hfree : ∀ d b, s.pc d ≠ .acquired b := by
        intro d b hd
        have := (hs d).mpr ⟨b, hd⟩
        rw [hlock hcount] at this
        cases this
      rcases tssAllocSlowPath_lock hok with ⟨hl, hp⟩ | ⟨hl, b, hp⟩
      · intro d
        rw [hl, hp]
        constructor
        · intro h
          cases h
        · rintro ⟨b, hd⟩
          exact absurd hd (hfree d b)
      · intro d
        rw [hl, hp]
        by_cases hd : d = c
        · subst hd
          exact ⟨fun _ => ⟨b, Function.update_self ..⟩, fun _ => rfl⟩
        · rw [Function.update_of_ne hd]
          constructor
          · intro h
            exact absurd (Option.some.inj h).symm hd
          · rintro ⟨b, hb⟩
            exact absurd hb (hfree d b)
    · exact ((admits_unlocked c).popObj.of_eq hok).mutexHeld hs (by simp [hpc])
  | @retireTest c b ready hpc =>
    obtain ⟨hl, hp⟩ := retireTest_lock hok
    have hlock : s.lock = some c := (hs c).mpr ⟨b, hpc⟩
    intro d
    rw [hl, hp]
    by_cases hd : d = c
    · subst hd
      simp
    · rw [Function.update_of_ne hd, ← hs d, hlock]
      exact ⟨fun h => (by cases h), fun h => absurd (Option.some.inj h).symm hd⟩
  | @allocUnload c b hpc => exact (((admits_unlocked c).allocUnload b).of_eq hok).mutexHeld hs (by simp [hpc])
  | @free c obj hpc _ => exact (((admits_unlocked c).jfsTssFree conf obj).of_eq hok).mutexHeld hs (by simp [hpc])
  | @fullRelease c hpc => exact ((admits_unlocked c).jfsTssCacheFullRelease.of_eq hok).mutexHeld hs (by simp [hpc])
  | @release c b hpc _ => exact ((unlocked_releaseBatch c conf b).of_eq hok).mutexHeld hs (by simp [hpc])
  | @refresh c hpc => exact ((admits_unlocked c).jfsTssCacheRefresh.of_eq hok).mutexHeld hs (by simp [hpc])
  | @refreshSwap c b hpc _ => exact ((unlocked_refreshSwap c conf mmap b).of_eq hok).mutexHeld hs (by simp [hpc])
  | @refreshUnload c b hpc => exact (((admits_unlocked c).unloadBatch b).of_eq hok).mutexHeld hs (by simp [hpc])
  | explicitRetire _ =>
    obtain ⟨m', -, rfl⟩ := onMem_eq_ok hok
    exact hs
  | write _ =>
    obtain ⟨m', -, rfl⟩ := onMem_eq_ok hok
    exact hs

/-- **The mutex is held as it should be**, in every state that is reached. -/
theorem Reach.mutexHeld (hs : Reach conf mmap guard s) : MutexHeld s := by
  induction hs with
  | initial h =>
    intro d
    rw [h.lock, h.pc d]
    simp
  | step _ _ hrun e ih => exact mutexHeld_step hrun e ih

end FileSync.ThreadSafeSlab
