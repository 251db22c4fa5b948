import FileSync.Lib.Places
import FileSync.ThreadSafeSlab.Acquire
import FileSync.ThreadSafeSlab.Release
import FileSync.ThreadSafeSlab.System

/-!
# Who has an object

The objects that are out of the pool are in places: in the cache of a thread, in the
batch of a thread, or with the users (`Place`). The invariant of the system says that
each of them is in exactly one place, and that the caches and the batches are lists
that are linked through their objects (`Inv`). A step of a thread moves objects between
the pool, its cache, its batch and the users.
-/

namespace FileSync.ThreadSafeSlab

open FileSync.Lib

variable {ι : Type} {conf : Conf} {s s' : Sys ι} {F F' : Addr → List Addr} {A A' : List Addr} {c d : ι}

/-- Where an object can be that is on no free list. -/
inductive Place (ι : Type) where
  | cache (c : ι)
  | batch (c : ι)
  | users
  deriving DecidableEq

/-- The batch of a thread, which is empty if it makes no call. -/
def Pc.batch : Pc → Batch
  | .idle => tssBatchInit 0
  | .acquired b | .allocating b | .releasing b | .refreshing b | .refreshed b => b

@[simp] theorem Pc.batch_refreshing (b : Batch) : (Pc.refreshing b).batch = b := rfl

@[simp] theorem Pc.batch_releasing (b : Batch) : (Pc.releasing b).batch = b := rfl

/-- A batch that was acquired has met its target. -/
def Pc.Full (conf : CacheConfig) : Pc → Prop
  | .acquired b | .allocating b | .refreshed b =>
    b.targetCount = conf.cacheAcquire ∧ b.currentCount = conf.cacheAcquire
  | .idle | .releasing _ | .refreshing _ => True

/-- **The invariant.** `O` has the objects that are in each place. -/
structure Inv (conf : Conf) (s : Sys ι) (F : Addr → List Addr) (A : List Addr) (O : Place ι → List Addr) : Prop where
  pool : Pool conf.slab s.mem F A
  retired : RetiredUsed s.mem
  placed : Placed (Out conf.slab s.mem F) O
  cache : ∀ c, ListAt s.mem.next NULL (s.caches c).freeListHead (O (.cache c))
  batch : ∀ c, Holds s.mem.next (s.pc c).batch (O (.batch c))
  users : O .users = s.held
  full : ∀ c, (s.pc c).Full conf.cache

variable {O O' : Place ι → List Addr}

/-- At the start nothing is out. -/
theorem inv_initial (h : s.Initial) : Inv conf s (fun _ => []) [] fun _ => [] := by
  have hout : ∀ x, ¬ Out conf.slab s.mem (fun _ => []) x := by
    rintro x ⟨S, hS, -⟩
    rw [h.mapped] at hS
    cases hS
  refine ⟨⟨?_, ?_, ?_, h.activeListHead, List.nodup_nil, ?_, ?_⟩, ?_, ?_, fun c => ?_, fun c => ?_, h.held.symm,
    fun c => ?_⟩
  · rw [h.mapped]
    exact List.nodup_nil
  · simp [h.mapped]
  · simp [h.mapped]
  · simp [h.mapped]
  · rw [h.mapped, h.usedObjCount]
    rfl
  · intro S hS
    rw [h.mapped] at hS
    cases hS
  · exact ⟨fun _ => List.nodup_nil, fun _ _ x hx => by simp at hx, fun x => by simp [hout x]⟩
  · rw [h.caches c]
    rfl
  · rw [h.pc c]
    exact holds_init ..
  · rw [h.pc c]
    trivial

/-- A thread that makes no call has no batch. -/
theorem Inv.batch_nil (h : Inv conf s F A O) (hpc : s.pc c = .idle) : O (.batch c) = [] := by
  have hb := (h.batch c).list
  rw [hpc] at hb
  exact listAt_null.mp hb

theorem Inv.out_of_mem (h : Inv conf s F A O) {p : Place ι} {x : Addr} (hx : x ∈ O p) : Out conf.slab s.mem F x :=
  h.placed.owned_of_mem hx

theorem Inv.nodup_append (h : Inv conf s F A O) {p q : Place ι} (hpq : p ≠ q) : (O p ++ O q).Nodup := by
  refine List.nodup_append.mpr ⟨h.placed.nodup p, h.placed.nodup q, fun x hx y hy e => ?_⟩
  exact hpq (h.placed.unique p q x hx (e ▸ hy))

/-- **What a thread does leaves the others alone.** It changes its cache, its batch and what the
users hold, and writes to objects that are there or come from the pool. -/
theorem Inv.step (h : Inv conf s F A O) (c : ι) (hpool : Pool conf.slab s'.mem F' A') (hretired : RetiredUsed s'.mem)
    (hplaced : Placed (Out conf.slab s'.mem F') O')
    (hO : ∀ d, d ≠ c → O' (.cache d) = O (.cache d) ∧ O' (.batch d) = O (.batch d))
    (hthreads : ∀ d, d ≠ c → s'.caches d = s.caches d ∧ s'.pc d = s.pc d)
    (hframe : ∀ x, Out conf.slab s.mem F x → x ∉ O (.cache c) → x ∉ O (.batch c) → x ∉ O .users →
      s'.mem.next x = s.mem.next x)
    (hcache : ListAt s'.mem.next NULL (s'.caches c).freeListHead (O' (.cache c)))
    (hbatch : Holds s'.mem.next (s'.pc c).batch (O' (.batch c))) (husers : O' .users = s'.held)
    (hfull : (s'.pc c).Full conf.cache) : Inv conf s' F' A' O' := by
  have hother : ∀ p x, x ∈ O p → p ≠ .cache c → p ≠ .batch c → p ≠ .users → s'.mem.next x = s.mem.next x := by
    intro p x hx h1 h2 h3
    exact hframe x (h.out_of_mem hx) (fun hx' => h1 (h.placed.unique _ _ x hx hx'))
      (fun hx' => h2 (h.placed.unique _ _ x hx hx')) (fun hx' => h3 (h.placed.unique _ _ x hx hx'))
  refine ⟨hpool, hretired, hplaced, fun d => ?_, fun d => ?_, husers, fun d => ?_⟩
  · by_cases hd : d = c
    · exact hd ▸ hcache
    · rw [(hO d hd).1, (hthreads d hd).1]
      refine listAt_congr (fun x hx => hother _ x hx ?_ ?_ ?_) (h.cache d)
      · simpa using hd
      · simp
      · simp
  · by_cases hd : d = c
    · exact hd ▸ hbatch
    · rw [(hO d hd).2, (hthreads d hd).2]
      refine (h.batch d).congr fun x hx => hother _ x hx ?_ ?_ ?_
      · simp
      · simpa using hd
      · simp
  · by_cases hd : d = c
    · exact hd ▸ hfull
    · rw [(hthreads d hd).2]
      exact h.full d

/-- Slabs are retired: nobody who has an object notices. -/
theorem Inv.retire (h : Inv conf s F A O) {m' : Mem} (hr : Retires conf.slab s.mem F A m' A') :
    Inv conf { s with mem := m' } F A' O := by
  refine ⟨hr.pool, hr.retired h.retired, h.placed.congr hr.out, ?_, ?_, h.users, h.full⟩
  · intro c
    show ListAt m'.next _ _ _
    rw [hr.next]
    exact h.cache c
  · intro c
    show Holds m'.next _ _
    rw [hr.next]
    exact h.batch c

/-- Users write to what they hold. -/
theorem Inv.write (hc : conf.slab.Good) (h : Inv conf s F A O) {x : Addr} (hx : x ∈ s.held) (value : Addr) :
    Inv conf { s with mem := { s.mem with next := Function.update s.mem.next x value } } F A O := by
  rw [← h.users] at hx
  have hne : ∀ y, y ≠ x → Function.update s.mem.next x value y = s.mem.next y := fun y hy => Function.update_of_ne hy ..
  have hplace : ∀ p y, y ∈ O p → p ≠ .users → y ≠ x := by
    rintro p y hy hp rfl
    exact hp (h.placed.unique p .users y hy hx)
  refine ⟨h.pool.relink fun S hS y hy => hne y ?_, h.retired, h.placed, ?_, ?_, h.users, h.full⟩
  · rintro rfl
    exact h.pool.notMem_of_out hc (h.out_of_mem hx) hS hy
  · exact fun c => listAt_congr (fun y hy => hne y (hplace _ y hy (by simp))) (h.cache c)
  · exact fun c => (h.batch c).congr fun y hy => hne y (hplace _ y hy (by simp))

/-! ### Moves -/

section Moves

variable [DecidableEq ι] {x : Addr} {L : List Addr} {n : UInt32} {pc : Pc} {b : Batch} {next' : Addr → Addr} {m' : Mem}

/-- A thread goes on with the batch that it has. -/
theorem Inv.goto (h : Inv conf s F A O) (c : ι) (pc : Pc) (hpc : pc.batch = (s.pc c).batch) (hfull : pc.Full conf.cache)
    (lock : Option ι) : Inv conf { s with pc := Function.update s.pc c pc, lock := lock } F A O := by
  refine h.step c h.pool h.retired h.placed (fun _ _ => ⟨rfl, rfl⟩) (fun d hd => ⟨rfl, by simp [hd]⟩)
    (fun _ _ _ _ _ => rfl) (h.cache c) ?_ h.users ?_
  · simpa [hpc] using h.batch c
  · simpa using hfull

/-- The first object of a cache goes to the users. -/
theorem Inv.pop (h : Inv conf s F A O) (hL : O (.cache c) = x :: L) :
    Inv conf { s with
      caches := Function.update s.caches c { freeListHead := s.mem.next x, freeListCount := n }
      held := x :: s.held } F A (Function.update (Function.update O (.cache c) L) .users (x :: s.held)) := by
  have hcache := h.cache c
  rw [hL] at hcache
  refine h.step c h.pool h.retired (h.placed.move (by simp) ?_) ?_ ?_ (fun _ _ _ _ _ => rfl) ?_ ?_ ?_ (h.full c)
  · rw [hL, h.users]
    exact List.perm_middle
  · exact fun d hd => ⟨by simp [hd], by simp⟩
  · exact fun d hd => ⟨by simp [hd], rfl⟩
  · simpa using hcache.2.2
  · simpa using h.batch c
  · simp

/-- An object of the users goes to a cache. -/
theorem Inv.push (hc : conf.slab.Good) (h : Inv conf s F A O) (hx : x ∈ s.held) (hne : x ≠ NULL) :
    Inv conf { s with
      mem := { s.mem with next := Function.update s.mem.next x (s.caches c).freeListHead }
      held := s.held.erase x
      caches := Function.update s.caches c { freeListHead := x, freeListCount := n } } F A
      (Function.update (Function.update O .users (s.held.erase x)) (.cache c) (x :: O (.cache c))) := by
  have hw := h.write hc hx (s.caches c).freeListHead
  refine hw.step c hw.pool hw.retired (hw.placed.move (by simp) ?_) ?_ ?_ (fun _ _ _ _ _ => rfl) ?_ ?_ ?_ (h.full c)
  · rw [h.users]
    exact List.perm_middle.trans ((List.perm_cons_erase hx).symm.append_right _)
  · exact fun d hd => ⟨by simp [hd], by simp⟩
  · exact fun d hd => ⟨by simp [hd], rfl⟩
  · have hcache := hw.cache c
    simpa [hne] using hcache
  · simpa using hw.batch c
  · simp

/-- The state after objects have moved between the cache and the batch of a thread. -/
def Sys.moved (s : Sys ι) (c : ι) (next : Addr → Addr) (freeListHead : Addr) (n : UInt32) (pc : Pc) : Sys ι :=
  { s with
    mem := { s.mem with next := next }
    caches := Function.update s.caches c { freeListHead := freeListHead, freeListCount := n }
    pc := Function.update s.pc c pc }

section Moved

variable {rest : Addr}

@[simp] theorem Sys.moved_next : (s.moved c next' rest n pc).mem.next = next' := rfl

@[simp] theorem Sys.moved_held : (s.moved c next' rest n pc).held = s.held := rfl

@[simp] theorem Sys.moved_caches_self :
    (s.moved c next' rest n pc).caches c = { freeListHead := rest, freeListCount := n } := Function.update_self ..

@[simp] theorem Sys.moved_pc_self : (s.moved c next' rest n pc).pc c = pc := Function.update_self ..

@[simp] theorem Sys.moved_caches_of_ne (hd : d ≠ c) : (s.moved c next' rest n pc).caches d = s.caches d :=
  Function.update_of_ne hd ..

@[simp] theorem Sys.moved_pc_of_ne (hd : d ≠ c) : (s.moved c next' rest n pc).pc d = s.pc d :=
  Function.update_of_ne hd ..

end Moved

/-- Objects go from a cache to a batch. -/
theorem Inv.load (hc : conf.slab.Good) (h : Inv conf s F A O) (hb : O (.batch c) = []) {t : UInt32} {rest : Addr}
    {count : UInt32} (hl : Loaded s.mem.next (tssBatchInit t) [] (O (.cache c)) next' b rest count) (n : UInt32)
    (pc : Pc) (hpc : pc.batch = b) (hfull : pc.Full conf.cache) :
    Inv conf (s.moved c next' rest n pc) F A
      (Function.update
        (Function.update O (.cache c) ((O (.cache c)).drop (loadCount (tssBatchInit t) [] (O (.cache c)))))
        (.batch c) ((O (.cache c)).take (loadCount (tssBatchInit t) [] (O (.cache c))))) := by
  have hframe : ∀ x, x ∉ O (.cache c) → next' x = s.mem.next x := fun x hx => hl.frame x (by simp) hx
  refine h.step c (h.pool.relink fun S hS x hx => hframe x fun hx' => ?_) h.retired (h.placed.move (by simp) ?_) ?_ ?_
    (fun x _ hx _ _ => hframe x hx) ?_ ?_ ?_ ?_
  · exact h.pool.notMem_of_out hc (h.out_of_mem hx') hS hx
  · rw [hb, List.append_nil]
    exact List.perm_append_comm.trans (List.Perm.of_eq (List.take_append_drop ..))
  · exact fun d hd => ⟨by simp [hd], by simp [hd]⟩
  · exact fun d hd => ⟨by simp [hd], by simp [hd]⟩
  · simpa using hl.list
  · simpa [hpc] using hl.batch
  · simpa using h.users
  · simpa using hfull

/-- A batch goes to a cache. -/
theorem Inv.unload (hc : conf.slab.Good) (h : Inv conf s F A O)
    (hl : ListAt next' NULL b.head (O (.batch c) ++ O (.cache c)))
    (hframe : ∀ x, x ∉ O (.batch c) → next' x = s.mem.next x) (n : UInt32) :
    Inv conf (s.moved c next' b.head n .idle) F A
      (Function.update (Function.update O (.batch c) []) (.cache c) (O (.batch c) ++ O (.cache c))) := by
  refine h.step c (h.pool.relink fun S hS x hx => hframe x fun hx' => ?_) h.retired
    (h.placed.move (by simp) (List.Perm.refl _)) ?_ ?_ (fun x _ _ hx _ => hframe x hx) ?_ ?_ ?_ ?_
  · exact h.pool.notMem_of_out hc (h.out_of_mem hx') hS hx
  · exact fun d hd => ⟨by simp [hd], by simp [hd]⟩
  · exact fun d hd => ⟨by simp [hd], by simp [hd]⟩
  · simpa using hl
  · simpa [Pc.batch] using holds_init ..
  · simpa using h.users
  · simp [Pc.Full]

/-- Objects go from the pool to a batch. -/
theorem Inv.acquire (h : Inv conf s F A O) (hb : O (.batch c) = []) {xs : List Addr} (pc : Pc)
    (hk : Keeps conf.slab s.mem A m' F' A') (ht : TakesOut conf.slab [] s.mem F m' F' xs) (hnd : xs.Nodup)
    (hx : Holds m'.next pc.batch xs) (hfull : pc.Full conf.cache) (lock : Option ι) :
    Inv conf { s with mem := m', pc := Function.update s.pc c pc, lock := lock } F' A'
      (Function.update O (.batch c) xs) := by
  refine h.step c hk.pool (hk.retired h.retired) (h.placed.set hnd (fun x hx ho => ?_) fun x => ?_) ?_ ?_
    (fun x ho _ _ _ => ht.frame x ho (by simp)) ?_ ?_ ?_ ?_
  · exact absurd ho (ht.fresh x hx)
  · rw [ht.out, hb, or_comm]
    simp
  · exact fun d hd => ⟨by simp, by simp [hd]⟩
  · exact fun d hd => ⟨rfl, by simp [hd]⟩
  · have hcache := h.cache c
    simp only [ne_eq, reduceCtorEq, not_false_eq_true, Function.update_of_ne]
    exact listAt_congr (fun x hx => ht.frame x (h.out_of_mem hx) (by simp)) hcache
  · simpa using hx
  · simpa using h.users
  · simpa using hfull

/-- The objects of a batch go back to the pool. -/
theorem Inv.release (h : Inv conf s F A O) (hp : PutsBack conf.slab s.mem F A m' F' (O (.batch c))) :
    Inv conf { s with mem := m', pc := Function.update s.pc c .idle } F' A (Function.update O (.batch c) []) := by
  refine h.step c hp.pool hp.retired (h.placed.set List.nodup_nil (by simp) fun x => ?_) ?_ ?_
    (fun x _ _ hx _ => hp.frame x hx) ?_ ?_ ?_ ?_
  · rw [hp.out]
    simp
  · exact fun d hd => ⟨by simp, by simp [hd]⟩
  · exact fun d hd => ⟨rfl, by simp [hd]⟩
  · have hcache := h.cache c
    simp only [ne_eq, reduceCtorEq, not_false_eq_true, Function.update_of_ne]
    refine listAt_congr (fun x hx => hp.frame x fun hx' => ?_) hcache
    simpa using h.placed.unique _ _ x hx hx'
  · simpa [Pc.batch] using holds_init ..
  · simpa using h.users
  · simp [Pc.Full]

end Moves

end FileSync.ThreadSafeSlab
