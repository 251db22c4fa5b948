import Mathlib.Data.List.Nodup
import FileSync.Lib.ListAt
import FileSync.ThreadSafeSlab.Code

/-!
# Batches

`tss_batch_load` takes objects from the front of a list and puts them at the end of the
batch, as many as the batch still needs or the list has; `tss_batch_unload` puts the
whole batch in front of a list. Neither touches the links of other objects.
-/

namespace FileSync.ThreadSafeSlab

open FileSync.Lib

variable {α : Type} {m : Mem} {p q : Addr} {b b' : Batch} {B L : List Addr}

/-! ### Running the program -/

theorem assert_bind {c : Bool} (h : c = true) (f : Unit → Code α) (m : Mem) : (assert c >>= f) m = f () m := by
  rw [h]
  rfl

theorem getNext_bind (h : p ≠ NULL) (f : Addr → Code α) (m : Mem) : (getNext p >>= f) m = f (m.next p) m := by
  have e : getNext p m = (.ok (m.next p), m) := by
    rw [getNext, deref, if_neg h]
    rfl
  exact Fallible.bind_of_ok e

theorem setNext_apply (h : p ≠ NULL) (m : Mem) :
    setNext p q m = (.ok (), { m with next := Function.update m.next p q }) := by
  rw [setNext, deref, if_neg h]
  rfl

theorem setNext_bind (h : p ≠ NULL) (f : Unit → Code α) (m : Mem) :
    (setNext p q >>= f) m = f () { m with next := Function.update m.next p q } :=
  Fallible.bind_of_ok (setNext_apply h m)

theorem getSlab_bind (h : p ≠ NULL) (f : Slab → Code α) (m : Mem) : (getSlab p >>= f) m = f (m.slab p) m := by
  have e : getSlab p m = (.ok (m.slab p), m) := by
    rw [getSlab, deref, if_neg h]
    rfl
  exact Fallible.bind_of_ok e

theorem setSlab_apply (h : p ≠ NULL) (s : Slab) (m : Mem) :
    setSlab p s m = (.ok (), { m with slab := Function.update m.slab p s }) := by
  rw [setSlab, deref, if_neg h]
  rfl

theorem setSlab_bind (h : p ≠ NULL) (s : Slab) (f : Unit → Code α) (m : Mem) :
    (setSlab p s >>= f) m = f () { m with slab := Function.update m.slab p s } :=
  Fallible.bind_of_ok (setSlab_apply h s m)

/-! ### Loading -/

/-- The batch holds the objects `B`. -/
structure Holds (next : Addr → Addr) (b : Batch) (B : List Addr) : Prop where
  list : ListAt next NULL b.head B
  tail : b.tail = B.getLast?.getD NULL
  count : b.currentCount.toNat = B.length

theorem holds_init (next : Addr → Addr) (n : UInt32) : Holds next (tssBatchInit n) [] := ⟨rfl, rfl, rfl⟩

theorem Holds.congr {next next' : Addr → Addr} (h : Holds next b B) (hn : ∀ x ∈ B, next' x = next x) :
    Holds next' b B := ⟨listAt_congr hn h.list, h.tail, h.count⟩

/-- The loop goes on to the last object that is wanted, or to the end of the list. -/
theorem loadLoop_spec {n : ℕ} {total : UInt32} {ys : List Addr} (h : ListAt m.next NULL p (p :: ys)) :
    ∃ zs last ws, p :: ys = zs ++ last :: ws ∧ zs.length = min n ys.length ∧
      loadLoop n total p m = (.ok (total + UInt32.ofNat zs.length, last), m) := by
  induction n generalizing p ys total with
  | zero => exact ⟨[], p, ys, rfl, (Nat.zero_min _).symm, by simp [loadLoop]; rfl⟩
  | succ n ih =>
    obtain ⟨-, hp, hys⟩ := h
    rw [loadLoop, getNext_bind hp]
    cases ys with
    | nil =>
      rw [listAt_nil] at hys
      rw [if_pos hys]
      exact ⟨[], p, [], rfl, (Nat.min_zero _).symm, by simp; rfl⟩
    | cons y ys =>
      obtain ⟨hnext, hy, -⟩ := id hys
      rw [if_neg (by rw [hnext]; exact hy), hnext]
      rw [hnext] at hys
      obtain ⟨zs, last, ws, hsplit, hlen, e⟩ := @ih y (total + 1) ys hys
      refine ⟨p :: zs, last, ws, by rw [hsplit]; rfl, ?_, ?_⟩
      · rw [List.length_cons, List.length_cons, hlen]
        omega
      · have hcount : total + 1 + UInt32.ofNat zs.length = total + UInt32.ofNat (p :: zs).length := by
          rw [List.length_cons, UInt32.ofNat_add, UInt32.add_comm (UInt32.ofNat zs.length), UInt32.add_assoc]
          rfl
        rw [e, hcount]

/-- How many objects are loaded. -/
def loadCount (b : Batch) (B L : List Addr) : ℕ := min (b.targetCount.toNat - B.length) L.length

/-- What `tss_batch_load` does: objects go from the front of the list `L` to the end of the
batch. -/
structure Loaded (next : Addr → Addr) (b : Batch) (B L : List Addr) (next' : Addr → Addr) (b' : Batch) (rest : Addr)
    (count : UInt32) : Prop where
  batch : Holds next' b' (B ++ L.take (loadCount b B L))
  list : ListAt next' NULL rest (L.drop (loadCount b B L))
  count : count.toNat = loadCount b B L
  target : b'.targetCount = b.targetCount
  frame : ∀ x, x ∉ B → x ∉ L → next' x = next x

theorem Holds.eq_append (h : Holds m.next b B) (hb : b.currentCount ≠ 0) : ∃ C, B = C ++ [b.tail] := by
  have hne : B ≠ [] := by
    rintro rfl
    exact hb (UInt32.toNat_inj.mp h.count)
  refine ⟨B.dropLast, ?_⟩
  rw [h.tail, List.getLast?_eq_getLast_of_ne_nil hne, Option.getD_some, List.dropLast_append_getLast hne]

/-- A list is hung off the end of the batch. -/
theorem Holds.hang (h : Holds m.next b B) (hb : b.currentCount ≠ 0) (hl : ListAt m.next NULL p L)
    (hnd : (B ++ L).Nodup) :
    b.tail ≠ NULL ∧ m.next b.tail = NULL ∧ ListAt (Function.update m.next b.tail p) NULL b.head (B ++ L) ∧
      ∀ x, x ∉ B → Function.update m.next b.tail p x = m.next x := by
  obtain ⟨hB, -, hBL⟩ := List.nodup_append.mp hnd
  obtain ⟨C, rfl⟩ := h.eq_append hb
  have hne : ∀ x, x ∈ C ∨ x ∈ L → x ≠ b.tail := by
    rintro x (hx | hx) rfl
    · exact (List.nodup_append.mp hB).2.2 _ hx _ (by simp) rfl
    · exact hBL _ (by simp) _ hx rfl
  refine ⟨ne_null_of_listAt h.list (by simp), listAt_after h.list, ?_, fun x hx => Function.update_of_ne ?_ ..⟩
  · rw [List.append_assoc]
    refine listAt_relink h.list (fun z hz => Function.update_of_ne (hne z (.inl hz)) ..) ?_
    rw [Function.update_self]
    exact listAt_congr (fun z hz => Function.update_of_ne (hne z (.inr hz)) ..) hl
  · rintro rfl
    exact hx (by simp)

theorem loadHead_spec (h : Holds m.next b B) (hl : ListAt m.next NULL p L) (hnd : (B ++ L).Nodup) :
    ∃ next' b', loadHead b p m = (.ok b', { m with next := next' }) ∧ ListAt next' NULL b'.head (B ++ L) ∧
      b'.currentCount = b.currentCount ∧ b'.targetCount = b.targetCount ∧ ∀ x, x ∉ B → next' x = m.next x := by
  unfold loadHead
  split
  · next h0 =>
    have hnil : B = [] := List.length_eq_zero_iff.mp (by rw [← h.count, h0]; rfl)
    subst hnil
    have hhead : b.head = NULL := h.list
    have htail : b.tail = NULL := h.tail
    rw [assert_bind (by simp [hhead]), assert_bind (by simp [htail])]
    exact ⟨m.next, { b with head := p }, rfl, hl, rfl, rfl, fun _ _ => rfl⟩
  · next h0 =>
    obtain ⟨htail, hend, hlist, hframe⟩ := h.hang h0 hl hnd
    rw [getNext_bind htail, assert_bind (by simp [hend]), setNext_bind htail]
    exact ⟨_, b, rfl, hlist, rfl, rfl, hframe⟩

theorem take_drop_of_split {xs ys zs : List α} {x : α} (h : xs = ys ++ x :: zs) :
    xs.take (ys.length + 1) = ys ++ [x] ∧ xs.drop (ys.length + 1) = zs := by
  rw [h, List.append_cons]
  exact ⟨List.take_left' (by simp), List.drop_left' (by simp)⟩

/-- **`tss_batch_load`** does not fail if the batch needs objects. -/
theorem tssBatchLoad_spec (h : Holds m.next b B) (hl : ListAt m.next NULL p L) (hnd : (B ++ L).Nodup)
    (hlt : b.currentCount < b.targetCount) :
    ∃ next' b' rest count, tssBatchLoad b p m = (.ok (b', rest, count), { m with next := next' }) ∧
      Loaded m.next b B L next' b' rest count := by
  obtain ⟨-, hL, hBL⟩ := List.nodup_append.mp hnd
  have hlt' : B.length < b.targetCount.toNat := by
    rw [← h.count]
    exact hlt
  rw [tssBatchLoad, assert_bind (by simpa using hlt)]
  by_cases hp : p = NULL
  · rw [hp, listAt_null] at hl
    subst hl
    rw [if_pos hp]
    exact ⟨m.next, b, p, 0, rfl, by simpa [loadCount] using h, by simpa using hp, by simp [loadCount], rfl,
      fun _ _ _ => rfl⟩
  · obtain ⟨ys, rfl, -⟩ := listAt_of_ne_null hl hp
    rw [if_neg hp]
    have htarget : (b.targetCount - b.currentCount).toNat = b.targetCount.toNat - B.length := by
      rw [UInt32.toNat_sub_of_le _ _ (UInt32.le_of_lt hlt), h.count]
    obtain ⟨zs, last, ws, hsplit, hzs, eloop⟩ := @loadLoop_spec m p ((b.targetCount - b.currentCount).toNat - 1) 1 ys hl
    obtain ⟨next₁, b₁, ehead, hlist, hcur, htar, hframe⟩ := loadHead_spec h hl hnd
    rw [hsplit] at hlist hL hBL
    have hlast : last ≠ NULL := ne_null_of_listAt hlist (by simp)
    have hcount : loadCount b B (p :: ys) = zs.length + 1 := by
      rw [loadCount, List.length_cons, hzs, htarget]
      omega
    have hle : B.length + (zs.length + 1) ≤ b.targetCount.toNat := by
      rw [← hcount, loadCount]
      omega
    have h32 := b.targetCount.toNat_lt
    have htotal : (1 + UInt32.ofNat zs.length).toNat = zs.length + 1 := by
      have hz32 : zs.length < 2 ^ 32 := by omega
      rw [UInt32.toNat_add, UInt32.toNat_ofNat_of_lt' hz32, UInt32.toNat_one]
      omega
    obtain ⟨htake, hdrop⟩ := take_drop_of_split hsplit
    rw [Fallible.bind_of_ok eloop]
    dsimp only
    rw [Fallible.bind_of_ok ehead, getNext_bind hlast, setNext_bind hlast]
    have hne : ∀ x, x ∈ B ∨ x ∈ zs ++ ws → x ≠ last := by
      rw [List.nodup_middle, List.nodup_cons] at hL
      rintro x (hx | hx) rfl
      · exact hBL x hx x (by simp) rfl
      · exact hL.1 hx
    refine ⟨_, _, _, _, rfl, ⟨?_, ?_, ?_⟩, ?_, ?_, htar, ?_⟩
    · rw [hcount, htake, ← List.append_assoc]
      rw [← List.append_assoc] at hlist
      refine listAt_relink hlist (fun z hz => Function.update_of_ne (hne z ?_) ..) (Function.update_self ..)
      exact (List.mem_append.mp hz).imp_right (List.mem_append_left ws)
    · rw [hcount, htake]
      simp
    · rw [hcount, htake]
      show (b₁.currentCount + (1 + UInt32.ofNat zs.length)).toNat = _
      rw [UInt32.toNat_add, hcur, h.count, htotal, Nat.mod_eq_of_lt (by omega)]
      simp
    · rw [hcount, hdrop]
      refine listAt_congr (fun z hz => Function.update_of_ne (hne z ?_) ..) ?_
      · exact .inr (List.mem_append_right zs hz)
      · rw [← List.append_assoc] at hlist
        exact listAt_after hlist
    · rw [hcount, htotal]
    · intro x hx hx'
      rw [hsplit] at hx'
      refine (Function.update_of_ne ?_ ..).trans (hframe x hx)
      rintro rfl
      exact hx' (by simp)

/-- **`tss_batch_unload`** puts the batch in front of the list. -/
theorem tssBatchUnload_spec (h : Holds m.next b B) (hb : b.currentCount ≠ 0) (ht : b.targetCount ≠ 0)
    (hl : ListAt m.next NULL p L) (hnd : (B ++ L).Nodup) :
    ∃ next', tssBatchUnload b p m = (.ok (b.head, b.currentCount), { m with next := next' }) ∧
      ListAt next' NULL b.head (B ++ L) ∧ ∀ x, x ∉ B → next' x = m.next x := by
  have hhead : b.head ≠ NULL := by
    intro e
    have hlist := h.list
    rw [e, listAt_null] at hlist
    subst hlist
    exact hb (UInt32.toNat_inj.mp h.count)
  obtain ⟨htail, hend, hlist, hframe⟩ := h.hang hb hl hnd
  rw [tssBatchUnload, if_neg ht, assert_bind (by simpa using hhead), assert_bind (by simpa using htail),
    getNext_bind htail, assert_bind (by simp [hend]), setNext_bind htail]
  exact ⟨_, rfl, hlist, hframe⟩

end FileSync.ThreadSafeSlab
