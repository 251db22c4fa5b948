import FileSync.ThreadSafeSlab.Pool

/-!
# Giving objects back, and retiring slabs

`tss_allocator_batch_release` puts each object of a batch on the free list of its slab;
a retired slab is unmapped with its last object. `tss_allocator_retire_slabs` takes slabs
that are little used off the active list, and unmaps those that are not used at all: no
object that is out changes, so nobody who has one notices. It does not count the slabs
that it unmaps.
-/

namespace FileSync.ThreadSafeSlab

open FileSync.Lib

variable {conf : SlabConfig} {m m' : Mem} {F F' : Addr → List Addr} {A A' B : List Addr} {S T x : Addr}

/-! ### Slabs leave the pool -/

/-- The pool after slabs have left the active list, or the memory: no free list and no count has
changed. -/
theorem Pool.leave (h : Pool conf m F A) (hnext : m'.next = m.next) (hused : m'.usedObjCount = m.usedObjCount)
    (hfree : ∀ T, (m'.slab T).freeListHead = (m.slab T).freeListHead)
    (hcount : ∀ T, (m'.slab T).usedCount = (m.slab T).usedCount) (hmapped : m'.mapped.Sublist m.mapped)
    (hsum : (m'.mapped.map fun T => (m.slab T).usedCount.toNat).sum =
      (m.mapped.map fun T => (m.slab T).usedCount.toNat).sum)
    (hactive : ListAt (fun T => (m'.slab T).next) NULL m'.activeListHead A') (hnd : A'.Nodup)
    (hiff : ∀ T, T ∈ A' ↔ T ∈ m'.mapped ∧ (m'.slab T).retiredFlag = false) : Pool conf m' F A' := by
  refine ⟨h.nodup.sublist hmapped, fun T hT => h.addr T (hmapped.subset hT), fun T hT => ?_, hactive, hnd, hiff, ?_⟩
  · have hok := h.slab T (hmapped.subset hT)
    refine ⟨?_, hok.nodup, hok.sub, ?_⟩
    · rw [hnext, hfree]
      exact hok.list
    · rw [hcount]
      exact hok.used
  · simp only [hcount]
    rw [hsum, hused, h.total]

/-- The sum over the slabs does not change with one that has no used object. -/
theorem sum_map_erase {l : List Addr} {f : Addr → ℕ} (hS : S ∈ l) (h0 : f S = 0) :
    ((l.erase S).map f).sum = (l.map f).sum := by
  have hsum := ((List.perm_cons_erase hS).map f).sum_eq
  rw [List.map_cons, List.sum_cons, h0, Nat.zero_add] at hsum
  exact hsum.symm

/-- Nothing is out of a slab that has no used object. -/
theorem out_erase (h : Pool conf m F A) (hS : S ∈ m.mapped) (h0 : (m.slab S).usedCount = 0)
    (hmapped : m'.mapped = m.mapped.erase S) : Out conf m' F x ↔ Out conf m F x := by
  constructor
  · rintro ⟨T, hT, hx, hfree⟩
    rw [hmapped] at hT
    exact ⟨T, List.mem_of_mem_erase hT, hx, hfree⟩
  · rintro ⟨T, hT, hx, hfree⟩
    refine ⟨T, ?_, hx, hfree⟩
    rw [hmapped, h.nodup.mem_erase_iff]
    refine ⟨?_, hT⟩
    rintro rfl
    exact hfree ((h.slab T hT).mem_of_unused h0 hx)

theorem tssSlabDestroy_apply (hc : conf.Good) (hS : S ≠ NULL) (m : Mem) :
    tssSlabDestroy conf S m = (.ok (), { m with mapped := m.mapped.erase S }) := by
  rw [tssSlabDestroy, if_neg hS, assert_bind (by exact decide_eq_true hc.size_pos)]
  rfl

/-! ### Releasing objects -/

/-- Between two states of the pool the objects `B` have come back; the links of the others are as
they were. -/
structure PutsBack (conf : SlabConfig) (m : Mem) (F : Addr → List Addr) (A : List Addr) (m' : Mem)
    (F' : Addr → List Addr) (B : List Addr) : Prop where
  pool : Pool conf m' F' A
  retired : RetiredUsed m'
  out : ∀ x, Out conf m' F' x ↔ Out conf m F x ∧ x ∉ B
  frame : ∀ x, x ∉ B → m'.next x = m.next x
  counted : m'.activeListCount = m.activeListCount

theorem PutsBack.trans {m'' : Mem} {F'' : Addr → List Addr} {B' : List Addr} (h : PutsBack conf m F A m' F' B)
    (h' : PutsBack conf m' F' A m'' F'' B') : PutsBack conf m F A m'' F'' (B ++ B') := by
  refine ⟨h'.pool, h'.retired, fun x => ?_, fun x hx => ?_, h'.counted.trans h.counted⟩
  · rw [h'.out, h.out, List.mem_append, not_or, and_assoc]
  · rw [List.mem_append, not_or] at hx
    rw [h'.frame x hx.2, h.frame x hx.1]

/-- The slab after an object has come back to it. -/
def Slab.released (slab : Slab) (obj : Addr) : Slab :=
  { slab with freeListHead := obj, usedCount := slab.usedCount - 1 }

/-- The memory after an object has come back to its slab. -/
def Mem.release (m : Mem) (S x : Addr) : Mem :=
  m.change S (Function.update m.next x (m.slab S).freeListHead) ((m.slab S).released x) (m.usedObjCount - 1)

section ReleaseObj

variable (hc : conf.Good) (h : Pool conf m F A) (hS : S ∈ m.mapped) (hx : x ∈ objects conf S) (hxF : x ∉ F S)
include hc h hS hx hxF

/-- The object is free, and not out. -/
theorem Pool.release : Pool conf (m.release S x) (Function.update F S (x :: F S)) A := by
  have hok := h.slab S hS
  have hne : (m.slab S).usedCount ≠ 0 := fun h0 => hxF (hok.mem_of_unused h0 hx)
  have hpred : ((m.slab S).usedCount - 1).toNat = (m.slab S).usedCount.toNat - 1 := toNat_pred hne
  have hpos : (m.slab S).usedCount.toNat ≠ 0 := fun e => hne (UInt64.toNat_inj.mp e)
  have hsum : (m.slab S).usedCount.toNat ≤ m.usedObjCount.toNat := by
    have e := ((List.perm_cons_erase hS).map fun T => (m.slab T).usedCount.toNat).sum_eq
    rw [List.map_cons, List.sum_cons] at e
    rw [h.total, e]
    exact Nat.le_add_right ..
  have htotal : (m.usedObjCount - 1).toNat = m.usedObjCount.toNat - 1 :=
    toNat_pred fun e => hpos (by rw [e] at hsum; exact Nat.le_zero.mp hsum)
  refine h.change hS rfl rfl ⟨⟨rfl, ne_null_of_mem_objects hc (h.addr S hS) hx, ?_⟩, ?_, ?_, ?_⟩ ?_ ?_
  · rw [Function.update_self]
    refine listAt_congr (fun y hy => Function.update_of_ne ?_ ..) hok.list
    rintro rfl
    exact hxF hy
  · exact List.nodup_cons.mpr ⟨hxF, hok.nodup⟩
  · exact List.cons_subset.mpr ⟨hx, hok.sub⟩
  · have hused := hok.used
    show ((m.slab S).usedCount - 1).toNat + _ = _
    rw [List.length_cons, hpred]
    omega
  · intro T hT hTS y hy
    refine Function.update_of_ne ?_ ..
    rintro rfl
    exact hTS (eq_of_mem_objects hc (h.addr T hT) (h.addr S hS) ((h.slab T hT).sub hy) hx)
  · show (m.usedObjCount - 1).toNat + _ = _ + ((m.slab S).usedCount - 1).toNat
    omega

theorem out_release {y : Addr} :
    Out conf (m.release S x) (Function.update F S (x :: F S)) y ↔ Out conf m F y ∧ y ≠ x := by
  rw [Mem.release, out_change hc h hS]
  split
  · next hy =>
    rw [List.mem_cons, not_or, and_comm]
    exact and_congr_left fun _ => ⟨fun hyF => ⟨S, hS, hy, hyF⟩, fun ho => h.notMem_of_out hc ho hS⟩
  · next hy =>
    refine ⟨fun ho => ⟨ho, ?_⟩, And.left⟩
    rintro rfl
    exact hy hx

/-- **`tss_allocator_release_obj`.** -/
theorem tssAllocatorReleaseObj_spec (hr : RetiredUsed m) :
    ∃ m' F', tssAllocatorReleaseObj conf x m = (.ok (), m') ∧ PutsBack conf m F A m' F' [x] := by
  have hSa := h.addr S hS
  have hpool := h.release hc hS hx hxF
  have hout : ∀ y, Out conf (m.release S x) (Function.update F S (x :: F S)) y ↔ Out conf m F y ∧ y ∉ [x] := by
    intro y
    rw [List.mem_singleton]
    exact out_release hc h hS hx hxF
  have hframe : ∀ y, y ∉ [x] → (m.release S x).next y = m.next y :=
    fun y hy => Function.update_of_ne (fun e => hy (List.mem_singleton.mpr e)) ..
  have hself : (m.release S x).slab S = (m.slab S).released x := Function.update_self ..
  have hothers : ∀ T ∈ m.mapped, T ≠ S → ((m.release S x).slab T).retiredFlag = true →
      ((m.release S x).slab T).usedCount ≠ 0 := by
    intro T hT hTS hflag
    rw [show (m.release S x).slab T = m.slab T from Function.update_of_ne hTS ..] at hflag ⊢
    exact hr T hT hflag
  have hrun : tssAllocatorReleaseObj conf x m =
      (if (m.slab S).usedCount - 1 = 0 ∧ (m.slab S).retiredFlag = true then tssSlabDestroy conf S else return ())
        (m.release S x) := by
    rw [tssAllocatorReleaseObj, tssAllocatorFindSlab_eq hc hSa hx, getSlab_bind hSa.ne_null,
      setNext_bind (ne_null_of_mem_objects hc hSa hx), setSlab_bind hSa.ne_null, Fallible.modify_bind]
    rfl
  rw [hrun]
  split
  · next hlast =>
    -- the last object of a retired slab: the slab goes
    have h0 : ((m.release S x).slab S).usedCount = 0 := by
      rw [hself]
      exact hlast.1
    have hSA : S ∉ A := fun hSA => by
      have := ((h.active_iff S).mp hSA).2
      rw [hlast.2] at this
      cases this
    rw [tssSlabDestroy_apply hc hSa.ne_null]
    refine ⟨_, _, rfl, ?_, ?_, fun y => (out_erase hpool hS h0 rfl).trans (hout y), hframe, rfl⟩
    · refine hpool.leave rfl rfl (fun _ => rfl) (fun _ => rfl) (List.erase_sublist ..) ?_ hpool.active
        hpool.active_nodup ?_
      · exact sum_map_erase hS (by rw [h0]; rfl)
      · intro T
        rw [hpool.active_iff T, hpool.nodup.mem_erase_iff]
        refine and_congr_left fun hflag => ⟨fun hT => ⟨?_, hT⟩, And.right⟩
        rintro rfl
        exact hSA ((hpool.active_iff T).mpr ⟨hT, hflag⟩)
    · intro T hT hflag
      obtain ⟨hTS, hT⟩ := (hpool.nodup.mem_erase_iff).mp hT
      exact hothers T hT hTS hflag
  · next hlast =>
    refine ⟨_, _, rfl, hpool, fun T hT hflag => ?_, hout, hframe, rfl⟩
    by_cases hTS : T = S
    · subst hTS
      rw [hself] at hflag ⊢
      exact fun h0 => hlast ⟨h0, hflag⟩
    · exact hothers T hT hTS hflag

end ReleaseObj

theorem releaseLoop_null (conf : SlabConfig) (turns : ℕ) (m : Mem) : releaseLoop conf turns NULL m = (.ok (), m) := by
  rw [releaseLoop.eq_def, if_neg (not_not.mpr rfl)]
  rfl

/-- **The loop of `tss_allocator_batch_release`.** -/
theorem releaseLoop_spec (hc : conf.Good) (h : Pool conf m F A) (hr : RetiredUsed m) {turns : ℕ} {obj : Addr}
    (hl : ListAt m.next NULL obj B) (hnd : B.Nodup) (hout : ∀ x ∈ B, Out conf m F x) (hturns : B.length ≤ turns) :
    ∃ m' F', releaseLoop conf turns obj m = (.ok (), m') ∧ PutsBack conf m F A m' F' B := by
  induction B generalizing m F turns obj with
  | nil =>
    rw [listAt_nil] at hl
    subst hl
    exact ⟨m, F, releaseLoop_null .., h, hr, fun x => by simp, fun _ _ => rfl, rfl⟩
  | cons x B ih =>
    obtain ⟨rfl, hne, hl⟩ := hl
    obtain ⟨hxB, hB⟩ := List.nodup_cons.mp hnd
    obtain ⟨n, rfl⟩ : ∃ n, turns = n + 1 := ⟨turns - 1, by rw [List.length_cons] at hturns; omega⟩
    obtain ⟨S, hS, hx, hxF⟩ := hout obj (List.mem_cons_self ..)
    obtain ⟨m₁, F₁, e₁, hp₁⟩ := tssAllocatorReleaseObj_spec hc h hS hx hxF hr
    have hother : ∀ y ∈ B, y ∉ [obj] := fun y hy hyx => hxB (List.mem_singleton.mp hyx ▸ hy)
    obtain ⟨m₂, F₂, e₂, hp₂⟩ := ih hp₁.pool hp₁.retired (listAt_congr (fun y hy => hp₁.frame y (hother y hy)) hl) hB
      (fun y hy => (hp₁.out y).mpr ⟨hout y (List.mem_cons_of_mem obj hy), hother y hy⟩) (Nat.le_of_succ_le_succ hturns)
    refine ⟨m₂, F₂, ?_, hp₁.trans hp₂⟩
    rw [releaseLoop, if_pos hne, getNext_bind hne, Fallible.bind_of_ok e₁, e₂]

/-- There are no more objects out than the slabs have. -/
theorem Pool.length_le_of_out (hnd : B.Nodup) (hout : ∀ x ∈ B, Out conf m F x) :
    B.length ≤ m.mapped.length * conf.objPerSlab.toNat := by
  have hsub : B ⊆ m.mapped.flatMap (objects conf) := by
    intro x hx
    obtain ⟨S, hS, hxS, -⟩ := hout x hx
    exact List.mem_flatMap.mpr ⟨S, hS, hxS⟩
  have hlen := (hnd.subperm hsub).length_le
  simpa [List.length_flatMap] using hlen

/-- **`tss_allocator_batch_release`**: the objects of the batch are free. -/
theorem tssAllocatorBatchRelease_spec (hc : conf.Good) (h : Pool conf m F A) (hr : RetiredUsed m) {b : Batch}
    (hb : Holds m.next b B) (hnd : B.Nodup) (hout : ∀ x ∈ B, Out conf m F x) :
    ∃ m' F', tssAllocatorBatchRelease conf b m = (.ok (tssBatchInit b.targetCount), m') ∧
      PutsBack conf m F A m' F' B := by
  obtain ⟨m', F', e, hp⟩ := releaseLoop_spec hc h hr hb.list hnd hout (Pool.length_le_of_out hnd hout)
  refine ⟨m', F', ?_, hp⟩
  rw [tssAllocatorBatchRelease, Fallible.get_bind, Fallible.bind_of_ok e]
  rfl

/-- A batch that is empty has nothing to release. -/
theorem tssAllocatorBatchRelease_init (conf : SlabConfig) (n : UInt32) (m : Mem) :
    tssAllocatorBatchRelease conf (tssBatchInit n) m = (.ok (tssBatchInit n), m) := by
  rw [tssAllocatorBatchRelease, Fallible.get_bind]
  exact Fallible.bind_of_ok (releaseLoop_null ..)

/-! ### Retiring slabs -/

/-- Between two states of the pool slabs have left the active list `A`, or the memory: no object has
changed. -/
structure Retires (conf : SlabConfig) (m : Mem) (F : Addr → List Addr) (A : List Addr) (m' : Mem) (A' : List Addr) :
    Prop where
  pool : Pool conf m' F A'
  out : ∀ x, Out conf m' F x ↔ Out conf m F x
  next : m'.next = m.next
  retired : RetiredUsed m → RetiredUsed m'
  used : ∀ T, (m'.slab T).usedCount = (m.slab T).usedCount
  sub : A' ⊆ A
  /-- The counter is right as long as no slab is unmapped. -/
  counted : (∀ S ∈ A, (m.slab S).usedCount ≠ 0) → m.activeListCount.toNat = A.length →
    m'.activeListCount.toNat = A'.length

theorem Pool.retires (h : Pool conf m F A) : Retires conf m F A m A :=
  ⟨h, fun _ => Iff.rfl, rfl, id, fun _ => rfl, fun _ => id, fun _ => id⟩

theorem Retires.trans {m'' : Mem} {A'' : List Addr} (h : Retires conf m F A m' A') (h' : Retires conf m' F A' m'' A'') :
    Retires conf m F A m'' A'' := by
  refine ⟨h'.pool, fun x => (h'.out x).trans (h.out x), h'.next.trans h.next, h'.retired ∘ h.retired,
    fun T => (h'.used T).trans (h.used T), fun T hT => h.sub (h'.sub hT), fun hused hcount => ?_⟩
  refine h'.counted (fun T hT => ?_) (h.counted hused hcount)
  rw [h.used]
  exact hused T (h.sub hT)

/-- `*prev_next` is the slab after those that have been visited. -/
theorem getLink_spec (hl : ListAt (fun S => (m.slab S).next) NULL m.activeListHead (A ++ A')) :
    ∃ p, getLink A.getLast? m = (.ok p, m) ∧ ListAt (fun S => (m.slab S).next) NULL p A' := by
  rcases List.eq_nil_or_concat A with rfl | ⟨C, P, rfl⟩
  · exact ⟨m.activeListHead, rfl, hl⟩
  · rw [List.concat_eq_append, List.append_assoc] at hl
    have hP : P ≠ NULL := ne_null_of_listAt hl (by simp)
    refine ⟨(m.slab P).next, ?_, listAt_after hl⟩
    rw [List.concat_eq_append, List.getLast?_concat, getLink, getSlab_bind hP]
    rfl

/-- The memory but for the links between slabs. -/
structure SameSlabs (m m' : Mem) : Prop where
  next : m'.next = m.next
  mapped : m'.mapped = m.mapped
  activeListCount : m'.activeListCount = m.activeListCount
  usedObjCount : m'.usedObjCount = m.usedObjCount
  slab : ∀ T, ∃ n, m'.slab T = { m.slab T with next := n }

/-- A slab is taken off the active list. -/
theorem setLink_spec {q : Addr} (hl : ListAt (fun S => (m.slab S).next) NULL m.activeListHead (A ++ S :: A'))
    (hnd : (A ++ S :: A').Nodup) (hq : ListAt (fun S => (m.slab S).next) NULL q A') :
    ∃ m', setLink A.getLast? q m = (.ok (), m') ∧ SameSlabs m m' ∧
      ListAt (fun S => (m'.slab S).next) NULL m'.activeListHead (A ++ A') := by
  rcases List.eq_nil_or_concat A with rfl | ⟨C, P, rfl⟩
  · exact ⟨_, rfl, ⟨rfl, rfl, rfl, rfl, fun T => ⟨_, rfl⟩⟩, hq⟩
  · rw [List.concat_eq_append, List.append_assoc] at hl hnd ⊢
    have hP : P ≠ NULL := ne_null_of_listAt hl (by simp)
    have hne : ∀ T, T ∈ C ∨ T ∈ A' → T ≠ P := by
      rw [List.singleton_append, List.nodup_middle, List.nodup_cons] at hnd
      rintro T hT rfl
      exact hnd.1 (List.mem_append.mpr (hT.imp_right (List.mem_cons_of_mem S)))
    have hlink : ∀ T, T ∈ C ∨ T ∈ A' →
        (Function.update m.slab P { m.slab P with next := q } T).next = (m.slab T).next := by
      intro T hT
      rw [Function.update_of_ne (hne T hT)]
    refine ⟨{ m with slab := Function.update m.slab P { m.slab P with next := q } }, ?_, ?_, ?_⟩
    · rw [List.getLast?_concat, setLink, getSlab_bind hP, setSlab_apply hP]
    · refine ⟨rfl, rfl, rfl, rfl, fun T => ?_⟩
      by_cases hT : T = P
      · subst hT
        exact ⟨q, Function.update_self ..⟩
      · exact ⟨_, Function.update_of_ne hT ..⟩
    · refine listAt_relink hl (fun T hT => hlink T (.inl hT)) ?_
      show ListAt _ NULL (Function.update m.slab P { m.slab P with next := q } P).next A'
      rw [Function.update_self]
      exact listAt_congr (fun T hT => hlink T (.inr hT)) hq

section RetireSlab

variable {m₁ : Mem} (h : Pool conf m F (A ++ S :: A')) (hs : SameSlabs m m₁)
  (hl : ListAt (fun S => (m₁.slab S).next) NULL m₁.activeListHead (A ++ A'))
include h hs hl

/-- A slab without used objects is unmapped. -/
theorem Retires.destroy (h0 : (m.slab S).usedCount = 0) :
    Retires conf m F (A ++ S :: A') { m₁ with mapped := m₁.mapped.erase S } (A ++ A') := by
  obtain ⟨hSA, hnd⟩ := List.nodup_cons.mp (List.nodup_middle.mp h.active_nodup)
  have hused : ∀ T, (m₁.slab T).usedCount = (m.slab T).usedCount := fun T => by
    obtain ⟨n, e⟩ := hs.slab T
    rw [e]
  have hflag : ∀ T, (m₁.slab T).retiredFlag = (m.slab T).retiredFlag := fun T => by
    obtain ⟨n, e⟩ := hs.slab T
    rw [e]
  have hS : S ∈ m.mapped := h.mapped_of_active (by simp)
  refine ⟨?_, fun x => out_erase h hS h0 (by rw [hs.mapped]), hs.next, ?_, hused, ?_, ?_⟩
  · refine h.leave hs.next hs.usedObjCount ?_ hused ?_ ?_ hl hnd fun T => ?_
    · intro T
      obtain ⟨n, e⟩ := hs.slab T
      show (m₁.slab T).freeListHead = _
      rw [e]
    · rw [hs.mapped]
      exact List.erase_sublist ..
    · rw [hs.mapped]
      exact sum_map_erase hS (by rw [h0]; rfl)
    · show T ∈ A ++ A' ↔ T ∈ m₁.mapped.erase S ∧ (m₁.slab T).retiredFlag = false
      rw [hs.mapped, hflag, h.nodup.mem_erase_iff, and_assoc, ← h.active_iff T]
      constructor
      · intro hT
        refine ⟨fun e => hSA (e ▸ hT), ?_⟩
        exact ((List.sublist_cons_self S A').append_left A).subset hT
      · rintro ⟨hTS, hT⟩
        rw [List.mem_append, List.mem_cons] at hT
        exact List.mem_append.mpr (hT.imp_right fun hT => hT.resolve_left hTS)
  · intro hr T hT hf
    show (m₁.slab T).usedCount ≠ 0
    rw [hused]
    refine hr T ?_ ((hflag T).symm.trans hf)
    rw [← hs.mapped]
    exact List.mem_of_mem_erase hT
  · exact ((List.sublist_cons_self S A').append_left A).subset
  · exact fun hne _ => absurd h0 (hne S (by simp))

/-- A slab is retired. -/
theorem Retires.retire (h0 : (m.slab S).usedCount ≠ 0) :
    Retires conf m F (A ++ S :: A') { m₁ with
      slab := Function.update m₁.slab S { m.slab S with next := NULL, retiredFlag := true }
      activeListCount := m₁.activeListCount - 1 } (A ++ A') := by
  obtain ⟨hSA, hnd⟩ := List.nodup_cons.mp (List.nodup_middle.mp h.active_nodup)
  have hS : S ∈ m.mapped := h.mapped_of_active (by simp)
  set slab' := Function.update m₁.slab S { m.slab S with next := NULL, retiredFlag := true } with hslab'
  have hself : slab' S = { m.slab S with next := NULL, retiredFlag := true } := Function.update_self ..
  have hother : ∀ T, T ≠ S → slab' T = m₁.slab T := fun T hT => Function.update_of_ne hT ..
  have hfields : ∀ T, (slab' T).usedCount = (m.slab T).usedCount ∧
      (slab' T).freeListHead = (m.slab T).freeListHead := by
    intro T
    by_cases hT : T = S
    · rw [hT, hself]
      exact ⟨rfl, rfl⟩
    · obtain ⟨n, e⟩ := hs.slab T
      rw [hother T hT, e]
      exact ⟨rfl, rfl⟩
  refine ⟨?_, fun x => ?_, hs.next, ?_, fun T => (hfields T).1, ?_, ?_⟩
  · refine h.leave hs.next hs.usedObjCount (fun T => (hfields T).2) (fun T => (hfields T).1) ?_ ?_ ?_ hnd fun T => ?_
    · rw [hs.mapped]
    · rw [hs.mapped]
    · refine listAt_congr (fun T hT => ?_) hl
      have hTS : T ≠ S := fun e => hSA (e ▸ hT)
      show (slab' T).next = _
      rw [hother T hTS]
    · show T ∈ A ++ A' ↔ T ∈ m₁.mapped ∧ (slab' T).retiredFlag = false
      by_cases hT : T = S
      · subst hT
        rw [hself]
        simpa using hSA
      · obtain ⟨n, e⟩ := hs.slab T
        have hmem : T ∈ A ++ A' ↔ T ∈ A ++ S :: A' := by simp [hT]
        rw [hother T hT, e, hs.mapped, hmem, h.active_iff T]
  · constructor
    · rintro ⟨T, hT, hx⟩
      exact ⟨T, hs.mapped ▸ hT, hx⟩
    · rintro ⟨T, hT, hx⟩
      exact ⟨T, hs.mapped.symm ▸ hT, hx⟩
  · intro hr T hT hf
    show (slab' T).usedCount ≠ 0
    rw [(hfields T).1]
    by_cases hTS : T = S
    · exact hTS ▸ h0
    · obtain ⟨n, e⟩ := hs.slab T
      refine hr T (hs.mapped ▸ hT) ?_
      rw [← hf]
      show _ = (slab' T).retiredFlag
      rw [hother T hTS, e]
  · exact ((List.sublist_cons_self S A').append_left A).subset
  · intro _ hcount
    show (m₁.activeListCount - 1).toNat = _
    have hne : m₁.activeListCount ≠ 0 := by
      intro e
      rw [← hs.activeListCount, e] at hcount
      simp at hcount
    rw [toNat_pred hne, hs.activeListCount, hcount]
    simp

end RetireSlab

/-- **The loop of `tss_allocator_retire_slabs`**: `A` has been visited, `A'` is still to be. -/
theorem retireLoop_spec (hc : conf.Good) {turns : ℕ} (h : Pool conf m F (A ++ A')) (hturns : A'.length ≤ turns) :
    ∃ m' A'', retireLoop conf turns A.getLast? m = (.ok (), m') ∧ Retires conf m F (A ++ A') m' A'' := by
  induction A' generalizing m A turns with
  | nil =>
    obtain ⟨p, elink, hp⟩ := getLink_spec h.active
    rw [listAt_nil] at hp
    refine ⟨m, A ++ [], ?_, h.retires⟩
    rw [retireLoop.eq_def, Fallible.bind_of_ok elink, if_neg (not_not.mpr hp)]
    rfl
  | cons S A' ih =>
    obtain ⟨p, elink, rfl, hS, hnext⟩ := getLink_spec h.active
    obtain ⟨n, rfl⟩ : ∃ n, turns = n + 1 := ⟨turns - 1, by rw [List.length_cons] at hturns; omega⟩
    have hn : A'.length ≤ n := Nat.le_of_succ_le_succ hturns
    obtain ⟨m₁, eset, hs, hl⟩ := setLink_spec h.active h.active_nodup hnext
    rw [retireLoop, Fallible.bind_of_ok elink, if_pos hS]
    dsimp only
    rw [getSlab_bind hS]
    split
    · next h0 =>
      have hstep := Retires.destroy h hs hl h0
      obtain ⟨m', A'', e, hrest⟩ := ih hstep.pool hn
      refine ⟨m', A'', ?_, hstep.trans hrest⟩
      rw [Fallible.bind_of_ok eset, Fallible.bind_of_ok (tssSlabDestroy_apply hc hS m₁), e]
    · next h0 =>
      split
      · have hstep := Retires.retire h hs hl h0
        obtain ⟨m', A'', e, hrest⟩ := ih hstep.pool hn
        refine ⟨m', A'', ?_, hstep.trans hrest⟩
        rw [Fallible.bind_of_ok eset, setSlab_bind hS, Fallible.modify_bind]
        exact e
      · rw [List.append_cons] at h ⊢
        obtain ⟨m', A'', e, hrest⟩ := ih h hn
        refine ⟨m', A'', ?_, hrest⟩
        rwa [List.getLast?_concat] at e

/-- **`tss_allocator_retire_slabs`.** -/
theorem tssAllocatorRetireSlabs_spec (hc : conf.Good) (h : Pool conf m F A) :
    ∃ m' A', tssAllocatorRetireSlabs conf m = (.ok (), m') ∧ Retires conf m F A m' A' := by
  rw [tssAllocatorRetireSlabs, Fallible.get_bind]
  exact @retireLoop_spec conf m F [] A hc m.mapped.length h h.active_length_le

end FileSync.ThreadSafeSlab
