import FileSync.ThreadSafeSlab.Steps

/-!
# Each object is in one place

In every state that threads reach, in any order of their steps, each object of a mapped
slab is on the free list of its slab, in one cache, in one batch or with the users, and
nowhere else.
-/

namespace FileSync.ThreadSafeSlab

open FileSync.Lib

variable {ι : Type} [DecidableEq ι] {conf : Conf} {mmap : Mmap} {s : Sys ι} {F : Addr → List Addr} {A : List Addr}
  {O : Place ι → List Addr} {guard : Sys ι → Event ι → Prop}

/-! ### Configurations -/

/-- A configuration that passes the assertions, with powers of two. -/
structure AllocatorConfig.Valid (c : AllocatorConfig) : Prop where
  align : IsTwoPow c.objAlign.toNat
  /-- Zero is for the default. -/
  pages : c.pagesPerSlab = 0 ∨ IsTwoPow c.pagesPerSlab.toNat
  asserts : (confInit c).ok = true

theorem AllocatorConfig.Valid.slab {c : AllocatorConfig} (h : c.Valid) : (confInit c).val.slab.Good := by
  refine tssSlabConfigInit_good h.align h.pages ?_
  have hok := h.asserts
  simp only [confInit, Checked.ok_bind, Checked.ok_pure, Bool.and_true, Bool.and_eq_true] at hok
  exact hok.1

theorem AllocatorConfig.Valid.cache {c : AllocatorConfig} (h : c.Valid) : (confInit c).val.cache.Good := by
  have hok := h.asserts
  simp only [confInit, Checked.ok_bind, Checked.ok_pure, Bool.and_true, Bool.and_eq_true, tssCacheConfigInit,
    Checked.ok_assert, decide_eq_true_eq] at hok
  have hdefault : ∀ n : UInt32, 0 < (if n ≠ 0 then n else 32).toNat := by
    intro n
    split
    · next h0 => exact Nat.pos_of_ne_zero fun e => h0 (UInt32.toNat_inj.mp e)
    · decide
  exact ⟨hdefault _, hok.2.1, hdefault _, hok.2.2⟩

/-! ### Runs -/

/-- **What the steps keep holds in every state that is reached.** -/
theorem Reach.induct (hc : conf.slab.Good) (hcc : conf.cache.Good) (hm : mmap.Honest conf.slab)
    {P : Sys ι → List Addr → (Place ι → List Addr) → Prop} (hinit : ∀ s : Sys ι, s.Initial → P s [] fun _ => [])
    (hstep : ∀ s e A O s' F' A' O', guard s e → P s A O → After conf e s A O s' F' A' O' → P s' A' O')
    (hs : Reach conf mmap guard s) : ∃ F A O, Inv conf s F A O ∧ P s A O := by
  induction hs with
  | initial h => exact ⟨_, _, _, inv_initial h, hinit _ h⟩
  | step _ hguard hrun e ih =>
    obtain ⟨F, A, O, hinv, hP⟩ := ih
    rcases yields_step hc hcc hm hinv hrun with ⟨a, s', e', F', A', O', hafter⟩ | ⟨stop, s', e', -⟩
    · rw [e] at e'
      obtain rfl := (Prod.mk.inj e').2
      exact ⟨F', A', O', hafter.inv, hstep _ _ _ _ _ _ _ _ hguard hP hafter⟩
    · rw [e] at e'
      cases e'

theorem Reach.inv (hc : conf.slab.Good) (hcc : conf.cache.Good) (hm : mmap.Honest conf.slab)
    (hs : Reach conf mmap guard s) : ∃ F A O, Inv conf s F A O := by
  obtain ⟨F, A, O, hinv, -⟩ := Reach.induct (P := fun _ _ _ => True) hc hcc hm (fun _ _ => trivial)
    (fun _ _ _ _ _ _ _ _ _ _ _ => trivial) hs
  exact ⟨F, A, O, hinv⟩

/-! ### Objects -/

/-- Each object of a mapped slab is in exactly one place: on the free list `F S` of its slab, or in
one of the places `O`. -/
structure EachInOnePlace (conf : SlabConfig) (s : Sys ι) (F : Addr → List Addr) (O : Place ι → List Addr) : Prop where
  free : ∀ S ∈ s.mem.mapped, ListAt s.mem.next NULL (s.mem.slab S).freeListHead (F S)
  free_nodup : ∀ S ∈ s.mem.mapped, (F S).Nodup
  free_sub : ∀ S ∈ s.mem.mapped, F S ⊆ objects conf S
  cache : ∀ c, ListAt s.mem.next NULL (s.caches c).freeListHead (O (.cache c))
  batch : ∀ c, ListAt s.mem.next NULL (s.pc c).batch.head (O (.batch c))
  users : O .users = s.held
  nodup : ∀ p, (O p).Nodup
  one : ∀ S ∈ s.mem.mapped, ∀ x ∈ objects conf S, (x ∈ F S ∧ ∀ p, x ∉ O p) ∨ (x ∉ F S ∧ ∃! p, x ∈ O p)
  /-- The objects that are used are those that are not on the free list. -/
  used : ∀ S ∈ s.mem.mapped,
    (s.mem.slab S).usedCount.toNat = ((objects conf S).filter fun x => decide (x ∉ F S)).length
  /-- Who has an object has one of a slab that is mapped. -/
  mapped : ∀ p, ∀ x ∈ O p, ∃ S ∈ s.mem.mapped, x ∈ objects conf S

theorem SlabOk.used_eq {conf : SlabConfig} (hc : conf.Good) {next : Addr → Addr} {slab : Slab} {S : Addr}
    {free : List Addr} (hS : IsSlabAddr conf S) (h : SlabOk conf next slab S free) :
    slab.usedCount.toNat = ((objects conf S).filter fun x => decide (x ∉ free)).length := by
  have hperm : ((objects conf S).filter fun x => decide (x ∈ free)).Perm free := by
    refine (List.perm_ext_iff_of_nodup ((nodup_objects hc hS).filter _) h.nodup).mpr fun x => ?_
    rw [List.mem_filter, decide_eq_true_eq]
    exact ⟨And.right, fun hx => ⟨h.sub hx, hx⟩⟩
  have hlen := List.length_eq_length_filter_add (l := objects conf S) fun x => decide (x ∈ free)
  rw [length_objects, hperm.length_eq] at hlen
  have hused := h.used
  simp only [decide_not]
  omega

omit [DecidableEq ι] in
theorem Inv.eachInOnePlace (hc : conf.slab.Good) (h : Inv conf s F A O) : EachInOnePlace conf.slab s F O := by
  refine ⟨fun S hS => (h.pool.slab S hS).list, fun S hS => (h.pool.slab S hS).nodup, fun S hS => (h.pool.slab S hS).sub,
    h.cache, fun c => (h.batch c).list, h.users, h.placed.nodup, fun S hS x hx => ?_,
    fun S hS => (h.pool.slab S hS).used_eq hc (h.pool.addr S hS), fun p x hx => ?_⟩
  · by_cases hfree : x ∈ F S
    · exact .inl ⟨hfree, fun p hp => h.pool.notMem_of_out hc (h.out_of_mem hp) hS hfree⟩
    · obtain ⟨p, hp⟩ := (h.placed.mem x).mp ⟨S, hS, hx, hfree⟩
      exact .inr ⟨hfree, p, hp, fun q hq => h.placed.unique q p x hq hp⟩
  · obtain ⟨S, hS, hobj, -⟩ := h.out_of_mem hx
    exact ⟨S, hS, hobj⟩

/-- **No object is in two places.** In every state that is reached each object of a mapped slab is in
exactly one place, so none is handed out twice, and no slab is unmapped while an object of it is
in a cache or held by a user. No loop of the program is endless. -/
theorem reach_eachInOnePlace {c : AllocatorConfig} (hconf : c.Valid) (hm : mmap.Honest (confInit c).val.slab)
    (hs : Reach (confInit c).val mmap (fun _ _ => True) s) :
    (∃ F O, EachInOnePlace (confInit c).val.slab s F O) ∧ s.held.Nodup ∧
      ∀ e code, Runs (confInit c).val mmap s e code → (code s).1 ≠ .error .turns := by
  obtain ⟨F, A, O, hinv⟩ := Reach.inv hconf.slab hconf.cache hm hs
  have hone := hinv.eachInOnePlace hconf.slab
  refine ⟨⟨F, O, hone⟩, ?_, fun e code hrun hturns => ?_⟩
  · rw [← hone.users]
    exact hone.nodup .users
  · rcases yields_step hconf.slab hconf.cache hm hinv hrun with ⟨a, s', e', -⟩ | ⟨stop, s', e', hstop, -⟩
    · rw [e'] at hturns
      cases hturns
    · rw [e'] at hturns
      exact hstop (Except.error.inj hturns)

/-! ### A small allocator -/

/-- `mmap` at given places, as long as they can be had. -/
def mmapAt (conf : SlabConfig) (place : ℕ → Addr) : Mmap := fun n mapped =>
  if place n ≠ NULL ∧ (place n).toNat % tssPageSize.toNat = 0 ∧ (place n).toNat + 2 * conf.slabSize.toNat ≤ 2 ^ 64 ∧
    (mapped.all fun S => decide (S.toNat + conf.slabSize.toNat ≤ (place n).toNat ∨
      (place n).toNat + 2 * conf.slabSize.toNat ≤ S.toNat)) = true then some (place n) else none

theorem honest_mmapAt (conf : SlabConfig) (place : ℕ → Addr) : (mmapAt conf place).Honest conf := by
  have h : ∀ n mapped raw, mmapAt conf place n mapped = some raw →
      raw ≠ NULL ∧ raw.toNat % tssPageSize.toNat = 0 ∧ raw.toNat + 2 * conf.slabSize.toNat ≤ 2 ^ 64 ∧
        ∀ S ∈ mapped, S.toNat + conf.slabSize.toNat ≤ raw.toNat ∨ raw.toNat + 2 * conf.slabSize.toNat ≤ S.toNat := by
    intro n mapped raw hraw
    unfold mmapAt at hraw
    split at hraw
    · next hok =>
      obtain rfl := Option.some.inj hraw
      refine ⟨hok.1, hok.2.1, hok.2.2.1, fun S hS => ?_⟩
      exact of_decide_eq_true (List.all_eq_true.mp hok.2.2.2 S hS)
    · cases hraw
  exact ⟨fun n l r e => (h n l r e).1, fun n l r e => Nat.dvd_of_mod_eq_zero (h n l r e).2.1,
    fun n l r e => (h n l r e).2.2.1, fun n l r e => (h n l r e).2.2.2⟩

/-- Slabs of one page with three objects, that are retired when one is used. -/
def smallConfig (cacheAcquire : UInt32) : AllocatorConfig :=
  { objSize := 1024, objAlign := 8, retireThreshold := 1, pagesPerSlab := 1, cacheCap := 4,
    cacheAcquire := cacheAcquire, cacheRelease := 1 }

/-- The configuration of the small allocator. -/
def smallConf (cacheAcquire : UInt32) : Conf := (confInit (smallConfig cacheAcquire)).val

/-- `mmap` of the small allocator. -/
def smallMmap : Mmap := mmapAt (smallConf 1).slab fun n => UInt64.ofNat (8192 * (n + 1))

/-- One thread, at the start. -/
def smallStart : Sys Unit :=
  { mem :=
      { next := fun _ => NULL
        slab := fun _ => { usedCount := 0, freeListHead := NULL, next := NULL, retiredFlag := false }
        mapped := []
        mmaps := 0
        activeListHead := NULL
        activeListCount := 0
        usedObjCount := 0 }
    caches := fun _ => { freeListHead := NULL, freeListCount := 0 }
    pc := fun _ => .idle
    lock := none
    held := [] }

theorem initial_smallStart : smallStart.Initial := ⟨rfl, rfl, rfl, rfl, fun _ => rfl, fun _ => rfl, rfl, rfl⟩

/-- The small allocator after the slow path of an allocation up to the retire test, -/
def smallAcquired (n : UInt32) : Sys Unit := (jfsTssAlloc (smallConf n) smallMmap () smallStart).2

/-- after the mutex has been unlocked, -/
def smallUnlocked (n : UInt32) : Sys Unit :=
  (retireTest (smallConf n) () false ((smallAcquired n).pc ()).batch (smallAcquired n)).2

/-- and after the allocation. -/
def smallAllocated (n : UInt32) : Sys Unit := (allocUnload () ((smallUnlocked n).pc ()).batch (smallUnlocked n)).2

/-- The small allocator after an explicit call to retire slabs, in the place of the third step. -/
def smallRetired (n : UInt32) : Sys Unit :=
  (onMem (tssAllocatorRetireSlabs (smallConf n).slab) (smallUnlocked n)).2

theorem Reach.run {guard : Sys ι → Event ι → Prop} {e : Event ι} {code : SysCode ι Unit}
    (h : Reach conf mmap guard s) (hguard : guard s e) (hrun : Runs conf mmap s e code) (hok : (code s).1 = .ok ()) :
    Reach conf mmap guard (code s).2 := .step h hguard hrun (by rw [← hok])

section Small

variable {n : UInt32} (hn : n = 1 ∨ n = 2 ∨ n = 3) {guard : Sys Unit → Event Unit → Prop}
include hn

/-- None of the steps stops. -/
theorem small_steps :
    (confInit (smallConfig n)).ok = true ∧
      (jfsTssAlloc (smallConf n) smallMmap () smallStart).1 = .ok () ∧
      (smallAcquired n).pc () = .acquired ((smallAcquired n).pc ()).batch ∧
      (smallUnlocked n).pc () = .allocating ((smallUnlocked n).pc ()).batch ∧
      (allocUnload () ((smallUnlocked n).pc ()).batch (smallUnlocked n)).1 = .ok () ∧
      (onMem (tssAllocatorRetireSlabs (smallConf n).slab) (smallUnlocked n)).1 = .ok () := by
  rcases hn with rfl | rfl | rfl <;> decide +kernel

theorem smallConfig_valid : (smallConfig n).Valid := ⟨⟨3, rfl⟩, .inr ⟨0, rfl⟩, (small_steps hn).1⟩

theorem reach_smallUnlocked (hguard : guard smallStart (.alloc ()))
    (hguard' : guard (smallAcquired n) (.retireTest () false)) :
    Reach (smallConf n) smallMmap guard (smallUnlocked n) := by
  obtain ⟨-, halloc, hpc, -⟩ := small_steps hn
  have h₁ : Reach (smallConf n) smallMmap guard (smallAcquired n) :=
    (Reach.initial initial_smallStart).run hguard (.alloc rfl fun _ => rfl) halloc
  exact h₁.run hguard' (.retireTest false hpc) rfl

theorem reach_smallAllocated (h : Reach (smallConf n) smallMmap guard (smallUnlocked n))
    (hguard : guard (smallUnlocked n) (.allocUnload ())) : Reach (smallConf n) smallMmap guard (smallAllocated n) := by
  obtain ⟨-, -, -, hpc, hok, -⟩ := small_steps hn
  exact h.run hguard (.allocUnload hpc) hok

theorem reach_smallRetired (h : Reach (smallConf n) smallMmap guard (smallUnlocked n))
    (hguard : guard (smallUnlocked n) .explicitRetire) :
    Reach (smallConf n) smallMmap guard (smallRetired n) ∧ (smallRetired n).lock = none := by
  obtain ⟨-, -, -, -, -, hok⟩ := small_steps hn
  exact ⟨h.run hguard (.explicitRetire rfl) hok, rfl⟩

end Small

/-- An allocation of the small allocator takes two objects, hands one out and leaves the other in the
cache. -/
theorem smallAllocated_two :
    (smallAllocated 2).held = [10272] ∧ (smallAllocated 2).pc () = .idle ∧
      ((smallAllocated 2).caches ()).freeListCount = 1 := by
  decide +kernel

theorem reach_eachInOnePlace_small :
    (smallConfig 2).Valid ∧ smallMmap.Honest (smallConf 2).slab ∧
      Reach (smallConf 2) smallMmap (fun _ _ => True) (smallAllocated 2) ∧ (smallAllocated 2).held = [10272] ∧
      ∃ F O, EachInOnePlace (smallConf 2).slab (smallAllocated 2) F O := by
  have hn : (2 : UInt32) = 1 ∨ (2 : UInt32) = 2 ∨ (2 : UInt32) = 3 := .inr (.inl rfl)
  have hconf := smallConfig_valid hn
  have hm : smallMmap.Honest (smallConf 2).slab := honest_mmapAt ..
  have h : Reach (smallConf 2) smallMmap (fun _ _ => True) (smallAllocated 2) :=
    reach_smallAllocated hn (reach_smallUnlocked hn trivial trivial) trivial
  exact ⟨hconf, hm, h, smallAllocated_two.1, (reach_eachInOnePlace hconf hm h).1⟩

end FileSync.ThreadSafeSlab
