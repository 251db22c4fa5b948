import Mathlib.Data.List.Perm.Basic
import FileSync.FreeList
import FileSync.MemoryBlock

/-!
# The free list in bytes

A link takes the first eight bytes of its slot. `jfs_fl_init` accepts slots of any size,
although the file has a `MIN_OBJ_SIZE`: if a slot is smaller than a link, the link of
the last slot goes past the end of the component, and the others are written over.
With slots that have room for a link the links do not meet (`lawfulOn_slots`), and all
slots can be taken.

In `FlRun` slots are taken and given back in any order, and who holds a slot may write
to it.
-/

namespace FileSync.FreeList

open FileSync.Lib FileSync.MemoryLayout FileSync.MemoryBlock

/-- `sizeof(jfs_fl_obj_t)`. -/
def sizeofLink : ℕ := 8

/-- Links in bytes. -/
def byteLinks : LinkMemory Bytes where
  next := loadWord
  setNext := storeWord

variable {c : Component} {m : Bytes} {a x y : Addr} {i j : ℕ}

/-! ### Slots -/

/-- The component as a memory block. -/
def blockOf (c : Component) : Mb := { basePtr := c.ptr, objSize := c.desc.size, capacity := c.desc.count }

theorem fits_blockOf (hvalid : jfsMlgValidComponent c = true) (hmem : InMemory c) : (blockOf c).Fits := by
  have hinit : jfsMbInit c = .ok (blockOf c) := by
    rw [jfsMbInit, hvalid]
    rfl
  exact (jfsMbInit_fits hinit hmem).1

theorem mem_slots : x ∈ slots c ↔ ∃ i < c.desc.count.toNat, x = jfsMbIndex (blockOf c) (UInt64.ofNat i) := by
  rw [slots, mem_slotsFrom]
  simp only [Nat.zero_le, true_and, Nat.zero_add]
  rfl

@[simp] theorem length_slots (c : Component) : (slots c).length = c.desc.count.toNat := by simp [slots, slotsFrom]

/-- Slots are different, or a slot apart. -/
theorem slot_apart (hfits : (blockOf c).Fits) (hi : i < c.desc.count.toNat) (hj : j < c.desc.count.toNat) (hij : i < j) :
    (jfsMbIndex (blockOf c) (UInt64.ofNat i)).toNat + c.desc.size.toNat ≤
      (jfsMbIndex (blockOf c) (UInt64.ofNat j)).toNat := by
  have hle : (i + 1) * c.desc.size.toNat ≤ j * c.desc.size.toNat := Nat.mul_le_mul_right _ hij
  rw [Nat.add_mul, Nat.one_mul] at hle
  rw [hfits.toNat_index hi, hfits.toNat_index hj]
  show c.ptr.toNat + i * c.desc.size.toNat + _ ≤ c.ptr.toNat + j * c.desc.size.toNat
  omega

theorem slots_apart (hfits : (blockOf c).Fits) (hx : x ∈ slots c) (hy : y ∈ slots c) (hne : x ≠ y) :
    x.toNat + c.desc.size.toNat ≤ y.toNat ∨ y.toNat + c.desc.size.toNat ≤ x.toNat := by
  obtain ⟨i, hi, rfl⟩ := mem_slots.mp hx
  obtain ⟨j, hj, rfl⟩ := mem_slots.mp hy
  rcases Nat.lt_trichotomy i j with hij | rfl | hij
  · exact .inl (slot_apart hfits hi hj hij)
  · exact absurd rfl hne
  · exact .inr (slot_apart hfits hj hi hij)

/-- A slot is in the component. -/
theorem slot_within (hfits : (blockOf c).Fits) (hx : x ∈ slots c) :
    c.ptr.toNat ≤ x.toNat ∧ x.toNat + c.desc.size.toNat ≤ c.ptr.toNat + c.desc.count.toNat * c.desc.size.toNat := by
  obtain ⟨i, hi, rfl⟩ := mem_slots.mp hx
  have hle : (i + 1) * c.desc.size.toNat ≤ c.desc.count.toNat * c.desc.size.toNat := Nat.mul_le_mul_right _ hi
  rw [Nat.add_mul, Nat.one_mul] at hle
  rw [hfits.toNat_index hi]
  show c.ptr.toNat ≤ c.ptr.toNat + i * c.desc.size.toNat ∧ c.ptr.toNat + i * c.desc.size.toNat + _ ≤ _
  omega

theorem slot_le (hfits : (blockOf c).Fits) (hx : x ∈ slots c) : x.toNat + c.desc.size.toNat ≤ 2 ^ 64 :=
  Nat.le_trans (slot_within hfits hx).2 hfits.fits

theorem slot_ne_null (hfits : (blockOf c).Fits) (hx : x ∈ slots c) : x ≠ NULL := by
  have hpos : 0 < c.ptr.toNat := hfits.base_pos
  have hle := (slot_within hfits hx).1
  rintro rfl
  exact absurd hle (Nat.not_le.mpr hpos)

theorem nodup_slots (hfits : (blockOf c).Fits) : (slots c).Nodup := by
  refine List.Nodup.map_on (fun i hi j hj e => ?_) (List.nodup_range' ..)
  have hpos : 0 < c.desc.size.toNat := hfits.size_pos
  rw [List.mem_range'_1] at hi hj
  rcases Nat.lt_trichotomy i j with hij | rfl | hij
  · have hlt := slot_apart hfits (by omega) (by omega) hij
    have e' := congrArg UInt64.toNat e
    simp only [jfsMbIndex, blockOf] at hlt
    omega
  · rfl
  · have hlt := slot_apart hfits (by omega) (by omega) hij
    have e' := congrArg UInt64.toNat e
    simp only [jfsMbIndex, blockOf] at hlt
    omega

/-- **With room for a link** in every slot the links do not meet. -/
theorem lawfulOn_slots (hfits : (blockOf c).Fits) (hsize : sizeofLink ≤ c.desc.size.toNat) : LawfulOn byteLinks (slots c) := by
  intro m a ha b x hx
  have hsize' : 8 ≤ c.desc.size.toNat := hsize
  show loadWord (storeWord m a b) x = if x = a then b else loadWord m x
  by_cases hxa : x = a
  · rw [if_pos hxa, hxa, loadWord_storeWord_self]
  · have hends := slot_le hfits ha
    have hends' := slot_le hfits hx
    have hapart := slots_apart hfits ha hx (Ne.symm hxa)
    rw [if_neg hxa]
    apply loadWord_store_of_disjoint
    · rw [length_leBytes]
      omega
    · rw [length_leBytes]
      omega
    · omega

/-! ### Initialisation -/

/-- The address is in the region of the component. -/
def InRegion (c : Component) (a : Addr) : Prop :=
  c.ptr.toNat ≤ a.toNat ∧ a.toNat < c.ptr.toNat + c.desc.size.toNat * c.desc.count.toNat

/-- **What is asked of `jfs_fl_init`**: it writes to no byte outside of the region, and then
`jfs_fl_alloc` returns every slot once before it returns `NULL`. -/
def InitExact (c : Component) : Prop :=
  ∀ m, ∃ m' fl, jfsFlInit byteLinks m c = .ok (m', fl) ∧ (∀ a, ¬ InRegion c a → m' a = m a) ∧
    ((flAllocs byteLinks m' c.desc.count.toNat fl).1.Nodup ∧
      (flAllocs byteLinks m' c.desc.count.toNat fl).1.Perm (slots c)) ∧
    (jfsFlAlloc byteLinks m' (flAllocs byteLinks m' c.desc.count.toNat fl).2).1 = NULL

theorem jfsFlInit_eq (hvalid : jfsMlgValidComponent c = true) (m : Bytes) :
    jfsFlInit byteLinks m c =
      .ok ((flLinkFrom byteLinks c.ptr c.desc.size c.desc.count.toNat 0 m NULL).1,
        { list := (flLinkFrom byteLinks c.ptr c.desc.size c.desc.count.toNat 0 m NULL).2
          count := c.desc.count }) := by
  rw [jfsFlInit, hvalid]
  rfl

theorem valid_of_jfsFlInit {m' : Bytes} {fl : Fl} (hinit : jfsFlInit byteLinks m c = .ok (m', fl)) :
    jfsMlgValidComponent c = true := by
  by_contra hno
  rw [jfsFlInit, if_pos (by simpa using hno)] at hinit
  cases hinit

/-- All slots are linked. -/
theorem free_jfsFlInit (hfits : (blockOf c).Fits) (hsize : sizeofLink ≤ c.desc.size.toNat) {m' : Bytes} {fl : Fl}
    (hinit : jfsFlInit byteLinks m c = .ok (m', fl)) : Free byteLinks m' fl (slots c).reverse := by
  rw [jfsFlInit_eq (valid_of_jfsFlInit hinit), Except.ok.injEq, Prod.mk.injEq] at hinit
  obtain ⟨rfl, rfl⟩ := hinit
  have hslots : slots c ++ [] = slots c := List.append_nil _
  have hlist : ListAt (byteLinks.next (flLinkFrom byteLinks c.ptr c.desc.size c.desc.count.toNat 0 m NULL).1) NULL
      (flLinkFrom byteLinks c.ptr c.desc.size c.desc.count.toNat 0 m NULL).2 ((slots c).reverse ++ []) := by
    refine flLinkFrom_listAt ?_ (listAt_nil.mpr rfl) ?_ fun a ha => slot_ne_null hfits ha
    · exact hslots ▸ lawfulOn_slots hfits hsize
    · exact hslots ▸ nodup_slots hfits
  rw [List.append_nil] at hlist
  exact ⟨hlist, by simp⟩

/-- Only the region is written to. -/
theorem jfsFlInit_frame (hfits : (blockOf c).Fits) (hsize : sizeofLink ≤ c.desc.size.toNat) (ha : ¬ InRegion c a) :
    (flLinkFrom byteLinks c.ptr c.desc.size c.desc.count.toNat 0 m NULL).1 a = m a := by
  refine flLinkFrom_keeps (P := fun m' : Bytes => m' a = m a) rfl fun m' x b hm hx => ?_
  have hsize' : 8 ≤ c.desc.size.toNat := hsize
  obtain ⟨hge, hle⟩ := slot_within hfits hx
  have hend := slot_le hfits hx
  have hout : a.toNat < c.ptr.toNat ∨ c.ptr.toNat + c.desc.count.toNat * c.desc.size.toNat ≤ a.toNat := by
    rw [InRegion, not_and_or, Nat.not_le, Nat.not_lt, Nat.mul_comm] at ha
    exact ha
  show storeWord m' x b a = m a
  rw [storeWord, store_of_outside, hm]
  · rw [length_leBytes]
    omega
  · rw [length_leBytes]
    omega

/-- What is written does not depend on the memory. -/
theorem storeWord_agree {m m' : Bytes} (p w : UInt64) (h : m a = m' a) : storeWord m p w a = storeWord m' p w a := by
  rw [storeWord, store, storeWord, store, h]

theorem flLinkFrom_agree {memory objSize : UInt64} {n i : ℕ} {m m' : Bytes} {list : Addr} (h : m a = m' a) :
    (flLinkFrom byteLinks memory objSize n i m list).1 a = (flLinkFrom byteLinks memory objSize n i m' list).1 a := by
  induction n generalizing i m m' list with
  | zero => exact h
  | succ n ih =>
    rw [flLinkFrom, flLinkFrom]
    exact ih (storeWord_agree _ _ h)

/-- The bytes of a link are written, whatever was there. -/
theorem flLinkFrom_written {memory objSize : UInt64} {n i : ℕ} {list : Addr}
    (hx : x ∈ slotsFrom memory objSize i n) (ha : (a - x).toNat < sizeofLink) (m m' : Bytes) :
    (flLinkFrom byteLinks memory objSize n i m list).1 a = (flLinkFrom byteLinks memory objSize n i m' list).1 a := by
  induction n generalizing i m m' list with
  | zero => cases hx
  | succ n ih =>
    rw [slotsFrom_succ] at hx
    rw [flLinkFrom, flLinkFrom]
    rcases List.mem_cons.mp hx with rfl | hx
    · refine flLinkFrom_agree ?_
      have hlt : (a - (memory + UInt64.ofNat i * objSize)).toNat < (leBytes 8 list.toNat).length := by
        rw [length_leBytes]
        exact ha
      show storeWord m _ _ a = storeWord m' _ _ a
      rw [storeWord, store, storeWord, store, List.getElem?_eq_getElem hlt, Option.getD_some, Option.getD_some]
    · exact ih hx _ _

/-- A link that does not fit into its slot reaches a byte outside of the region: the one after
it, or `NULL` if the region goes past the end of the address space. -/
theorem exists_outside (hvalid : jfsMlgValidComponent c = true) (hsize : c.desc.size.toNat < sizeofLink) :
    ∃ a, ¬ InRegion c a ∧ ∃ x ∈ slots c, (a - x).toNat < sizeofLink := by
  simp only [jfsMlgValidComponent, jfsMlgValidDesc, Bool.and_eq_true, decide_eq_true_eq, bne_iff_ne] at hvalid
  obtain ⟨⟨⟨-, hpos⟩, hcount⟩, hptr⟩ := hvalid
  have hpos' : 0 < c.desc.size.toNat := hpos
  have hcount' : 0 < c.desc.count.toNat := hcount
  have hptr' : 0 < c.ptr.toNat := Nat.pos_of_ne_zero fun e => hptr (UInt64.toNat_inj.mp e)
  have hval : ∀ i < c.desc.count.toNat, (c.ptr + UInt64.ofNat i * c.desc.size).toNat =
      (c.ptr.toNat + i * c.desc.size.toNat) % 2 ^ 64 := by
    intro i hi
    rw [UInt64.toNat_add, UInt64.toNat_mul, UInt64.toNat_ofNat_of_lt' (lt_trans hi c.desc.count.toNat_lt),
      Nat.add_mod_mod]
  have hmul : ∀ i, (i + 1) * c.desc.size.toNat = i * c.desc.size.toNat + c.desc.size.toNat := fun i => Nat.succ_mul ..
  by_cases hmem : c.ptr.toNat + c.desc.count.toNat * c.desc.size.toNat ≤ 2 ^ 64
  · obtain ⟨i, hi⟩ := Nat.exists_eq_succ_of_ne_zero hcount'.ne'
    have hlast := hval i (by omega)
    rw [hi, Nat.succ_eq_add_one, hmul] at hmem
    refine ⟨c.ptr + UInt64.ofNat i * c.desc.size + c.desc.size, ?_, _, mem_slots.mpr ⟨i, by omega, rfl⟩, ?_⟩
    · rw [InRegion, UInt64.toNat_add, hlast, Nat.mul_comm c.desc.size.toNat, hi, Nat.succ_eq_add_one, hmul]
      omega
    · rw [jfsMbIndex, blockOf, UInt64.add_comm, UInt64.add_sub_cancel]
      exact hsize
  · -- the slot at the end of the address space
    have hdiv := Nat.div_add_mod (2 ^ 64 - c.ptr.toNat) c.desc.size.toNat
    have hmod := Nat.mod_lt (2 ^ 64 - c.ptr.toNat) hpos'
    have hlt := c.ptr.toNat_lt
    rw [Nat.mul_comm] at hdiv
    generalize (2 ^ 64 - c.ptr.toNat) / c.desc.size.toNat = i at hdiv
    have hi : i < c.desc.count.toNat := by
      by_contra hi
      have hle := Nat.mul_le_mul_right c.desc.size.toNat (Nat.not_lt.mp hi)
      omega
    refine ⟨NULL, fun h => absurd h.1 (Nat.not_le.mpr hptr'), _, mem_slots.mpr ⟨i, hi, rfl⟩, ?_⟩
    have hx := hval i hi
    rw [jfsMbIndex, blockOf, UInt64.toNat_sub, hx, show (NULL : Addr).toNat = 0 from rfl]
    unfold sizeofLink at hsize ⊢
    omega

/-- **If a link does not fit into a slot** something outside of the region is written. -/
theorem not_initExact (hvalid : jfsMlgValidComponent c = true) (hsize : c.desc.size.toNat < sizeofLink) :
    ¬ InitExact c := by
  intro h
  obtain ⟨a, ha, x, hx, hlink⟩ := exists_outside hvalid hsize
  obtain ⟨m₀, fl₀, hinit₀, hframe₀, -⟩ := h fun _ => 0
  obtain ⟨m₁, fl₁, hinit₁, hframe₁, -⟩ := h fun _ => 1
  rw [jfsFlInit_eq hvalid, Except.ok.injEq, Prod.mk.injEq] at hinit₀ hinit₁
  have hsame : m₀ a = m₁ a := by
    rw [← hinit₀.1, ← hinit₁.1]
    exact flLinkFrom_written hx hlink _ _
  rw [hframe₀ a ha, hframe₁ a ha] at hsame
  exact absurd hsame (by decide)

/-- **When `jfs_fl_init` does what it should**: only if a slot has room for a link, and then
unless the region goes past the end of the address space. -/
theorem initExact_iff (hvalid : jfsMlgValidComponent c = true) :
    (InitExact c → sizeofLink ≤ c.desc.size.toNat) ∧
      (sizeofLink ≤ c.desc.size.toNat → InMemory c → InitExact c) := by
  refine ⟨fun h => ?_, fun hsize hmem m => ?_⟩
  · by_contra hsize
    exact not_initExact hvalid (Nat.not_le.mp hsize) h
  · have hfits := fits_blockOf hvalid hmem
    have hinit := jfsFlInit_eq hvalid m
    have hfree := free_jfsFlInit hfits hsize hinit
    obtain ⟨hslots, hend⟩ := flAllocs_spec hfree
    rw [List.length_reverse, length_slots] at hslots hend
    refine ⟨_, _, hinit, fun a ha => jfsFlInit_frame hfits hsize ha, ?_, ?_⟩
    · rw [hslots]
      exact ⟨List.nodup_reverse.mpr (nodup_slots hfits), List.reverse_perm _⟩
    · rw [jfsFlAlloc_nil hend]

/-- Three slots of two words. -/
def wideSlots : Component := { ptr := 4096, desc := { size := 16, align := 8, count := 3 } }

theorem initExact_wideSlots : InitExact wideSlots :=
  (initExact_iff (by decide)).2 (by decide) (by decide)

/-- Two slots of half a word. -/
def narrowSlots : Component := { ptr := 4096, desc := { size := 4, align := 4, count := 2 } }

/-- The component is accepted, and the link of the second slot goes past its end. -/
theorem not_initExact_narrowSlots :
    jfsMlgValidComponent narrowSlots = true ∧ InMemory narrowSlots ∧ ¬ InitExact narrowSlots :=
  ⟨by decide, by decide, not_initExact (by decide) (by decide)⟩

/-! ### Runs -/

/-- The memory, the free list, and the slots that are held. -/
structure FlState where
  mem : Bytes
  fl : Fl
  held : List Addr

/-- A call, or a write by a holder. -/
inductive FlStep (c : Component) : FlState → FlState → Prop
  | alloc (s : FlState) : FlStep c s
      { s with fl := (jfsFlAlloc byteLinks s.mem s.fl).2
               held := if (jfsFlAlloc byteLinks s.mem s.fl).1 = NULL then s.held
                 else (jfsFlAlloc byteLinks s.mem s.fl).1 :: s.held }
  | write {s : FlState} {x : Addr} {off : ℕ} {bs : List UInt8} : x ∈ s.held → off + bs.length ≤ c.desc.size.toNat →
      FlStep c s { s with mem := store s.mem (x + UInt64.ofNat off) bs }
  | free {s : FlState} {x : Addr} : x ∈ s.held → FlStep c s
      { mem := (jfsFlFree byteLinks s.mem s.fl x).1, fl := (jfsFlFree byteLinks s.mem s.fl x).2
        held := s.held.erase x }

/-- **A run**: the free list is initialised, and then there are calls and writes in any order. -/
inductive FlRun (c : Component) : FlState → Prop
  | init {m m' : Bytes} {fl : Fl} : jfsFlInit byteLinks m c = .ok (m', fl) → FlRun c ⟨m', fl, []⟩
  | step {s s' : FlState} : FlRun c s → FlStep c s s' → FlRun c s'

/-- The free list holds `xs`, and every slot is there or held, once. -/
structure Accounted (c : Component) (s : FlState) (xs : List Addr) : Prop where
  free : Free byteLinks s.mem s.fl xs
  perm : (xs ++ s.held).Perm (slots c)

variable {s s' : FlState} {xs : List Addr}

/-- A write to a slot that is held does not reach a link. -/
theorem free_store {fl : Fl} {off : ℕ} {bs : List UInt8} (hfits : (blockOf c).Fits)
    (hsize : sizeofLink ≤ c.desc.size.toNat) (hx : x ∈ slots c) (hxs : ∀ y ∈ xs, y ∈ slots c ∧ y ≠ x)
    (hoff : off + bs.length ≤ c.desc.size.toNat) (h : Free byteLinks m fl xs) :
    Free byteLinks (store m (x + UInt64.ofNat off) bs) fl xs := by
  cases bs with
  | nil => exact h
  | cons b bs =>
    refine ⟨listAt_congr (fun y hy => ?_) h.list, h.count⟩
    obtain ⟨hy, hne⟩ := hxs y hy
    have hsize' : 8 ≤ c.desc.size.toNat := hsize
    have hends := slot_le hfits hx
    have hends' := slot_le hfits hy
    have hapart := slots_apart hfits hx hy (Ne.symm hne)
    rw [List.length_cons] at hoff
    have hoff64 : off < 2 ^ 64 := by omega
    have hstart : (x + UInt64.ofNat off).toNat = x.toNat + off := by
      rw [UInt64.toNat_add, UInt64.toNat_ofNat_of_lt' hoff64]
      exact Nat.mod_eq_of_lt (by omega)
    apply loadWord_store_of_disjoint
    · rw [hstart, List.length_cons]
      omega
    · rw [hstart, List.length_cons]
      omega
    · omega

/-- **What a step does**: every slot stays free or held. -/
theorem Accounted.step (hfits : (blockOf c).Fits) (hsize : sizeofLink ≤ c.desc.size.toNat) (h : Accounted c s xs)
    (hstep : FlStep c s s') : ∃ xs', Accounted c s' xs' := by
  have hnd : (xs ++ s.held).Nodup := h.perm.nodup_iff.mpr (nodup_slots hfits)
  have hmem : ∀ y ∈ xs ++ s.held, y ∈ slots c := fun y hy => h.perm.subset hy
  cases hstep with
  | alloc =>
    cases xs with
    | nil =>
      refine ⟨[], ?_⟩
      rw [jfsFlAlloc_nil h.free, if_pos rfl]
      exact h
    | cons x xs =>
      obtain ⟨hx, hfree⟩ := jfsFlAlloc_cons h.free
      refine ⟨xs, hfree, ?_⟩
      have hne : x ≠ NULL := slot_ne_null hfits (hmem x (List.mem_cons_self ..))
      show (xs ++ if (jfsFlAlloc byteLinks s.mem s.fl).1 = NULL then s.held
        else (jfsFlAlloc byteLinks s.mem s.fl).1 :: s.held).Perm (slots c)
      rw [hx, if_neg hne]
      exact List.perm_middle.trans h.perm
  | write hx hoff =>
    refine ⟨xs, free_store hfits hsize (hmem _ (List.mem_append_right _ hx)) (fun y hy => ?_) hoff h.free, h.perm⟩
    exact ⟨hmem y (List.mem_append_left _ hy), (List.nodup_append.mp hnd).2.2 y hy _ hx⟩
  | @free x hx =>
    have hslot := hmem x (List.mem_append_right _ hx)
    have hperm : (x :: xs ++ s.held.erase x).Perm (slots c) := by
      refine List.Perm.trans ?_ h.perm
      exact List.perm_middle.symm.trans ((List.perm_cons_erase hx).symm.append_left xs)
    have hsub : x :: xs ⊆ slots c := fun y hy => hperm.subset (List.mem_append_left _ hy)
    have hlen : xs.length + 1 < 2 ^ 64 := by
      have hcount := hperm.length_eq
      have hlt := c.desc.count.toNat_lt
      rw [List.length_append, List.length_cons, length_slots] at hcount
      omega
    have hnotin : x ∉ xs := fun hxs => (List.nodup_append.mp hnd).2.2 x hxs x hx rfl
    exact ⟨x :: xs, jfsFlFree_spec ((lawfulOn_slots hfits hsize).mono hsub) h.free (slot_ne_null hfits hslot) hnotin
      hlen, hperm⟩

theorem FlRun.valid (h : FlRun c s) : jfsMlgValidComponent c = true := by
  induction h with
  | init hinit => exact valid_of_jfsFlInit hinit
  | step _ _ ih => exact ih

/-- What holds in every state of a run. -/
theorem FlRun.accounted (hfits : (blockOf c).Fits) (hsize : sizeofLink ≤ c.desc.size.toNat) (h : FlRun c s) :
    ∃ xs, Accounted c s xs := by
  induction h with
  | init hinit =>
    refine ⟨(slots c).reverse, free_jfsFlInit hfits hsize hinit, ?_⟩
    rw [List.append_nil]
    exact List.reverse_perm _
  | step _ hstep ih =>
    obtain ⟨xs, hxs⟩ := ih
    exact hxs.step hfits hsize hstep

/-- **Every slot is free or held**: in every state of a run the free list ends, it is as long as
the counter says, its slots and the held ones are all slots of the component, each once,
and `jfs_fl_alloc` returns `NULL` exactly if all are held. -/
theorem flRun_accounted (hmem : InMemory c) (hsize : sizeofLink ≤ c.desc.size.toNat) (h : FlRun c s) :
    (∃ xs, ListAt (loadWord s.mem) NULL s.fl.list xs ∧ s.fl.count.toNat = xs.length ∧
        (xs ++ s.held).Nodup ∧ (xs ++ s.held).Perm (slots c)) ∧
      ((jfsFlAlloc byteLinks s.mem s.fl).1 = NULL ↔ ∀ x ∈ slots c, x ∈ s.held) := by
  have hfits := fits_blockOf h.valid hmem
  obtain ⟨xs, hfree, hperm⟩ := h.accounted hfits hsize
  have hnd : (xs ++ s.held).Nodup := hperm.nodup_iff.mpr (nodup_slots hfits)
  refine ⟨⟨xs, hfree.list, hfree.count, hnd, hperm⟩, ?_⟩
  rw [jfsFlAlloc_eq_null_iff hfree]
  refine ⟨fun hnil x hx => ?_, fun hall => List.eq_nil_iff_forall_not_mem.mpr fun x hx => ?_⟩
  · rw [hnil, List.nil_append] at hperm
    exact hperm.mem_iff.mpr hx
  · have hslot := hperm.subset (List.mem_append_left s.held hx)
    exact (List.nodup_append.mp hnd).2.2 x hx x (hall x hslot) rfl

/-- Of three slots the last one is taken first. -/
theorem flRun_accounted_wideSlots : ∃ s, FlRun wideSlots s ∧ s.held = [4128] ∧
    ((jfsFlAlloc byteLinks s.mem s.fl).1 = NULL ↔ ∀ x ∈ slots wideSlots, x ∈ s.held) := by
  have hinit := jfsFlInit_eq (c := wideSlots) (by decide) fun _ => 0
  have hrun := (FlRun.init hinit).step (.alloc _)
  exact ⟨_, hrun, rfl, (flRun_accounted (by decide) (by decide) hrun).2⟩

end FileSync.FreeList
