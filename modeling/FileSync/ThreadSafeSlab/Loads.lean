import FileSync.ThreadSafeSlab.Batch

/-!
# Several loads and one unload

`tss_allocator_batch_acquire` loads a batch from one slab after another, and the batch is
then unloaded into a cache. On the contents of the batch and the lists a load is `moved`:
objects go from the front of a list to the end of the batch until the target is met. No
object is lost on the way, and none is in two places (`Apart`).
-/

namespace FileSync.ThreadSafeSlab

open FileSync.Lib

variable {ι : Type} [DecidableEq ι]

/-- Loads from the lists with these heads, in some order, as long as the batch needs objects: the
batch and the new heads. -/
def tssBatchLoads : List ι → Batch → (ι → Addr) → Code (Batch × (ι → Addr))
  | [], batch, heads => return (batch, heads)
  | i :: is, batch, heads =>
    if tssBatchMetTarget batch then return (batch, heads)
    else do
      let (batch, rest, _) ← tssBatchLoad batch (heads i)
      tssBatchLoads is batch (Function.update heads i rest)

/-- Loads, and then the batch is unloaded onto another list: the new heads, that of the list it was
unloaded onto, and the number of objects. -/
def loadsThenUnload (is : List ι) (batch : Batch) (heads : ι → Addr) (listHead : Addr) :
    Code ((ι → Addr) × Addr × UInt32) := do
  let (batch, heads) ← tssBatchLoads is batch heads
  let (listHead, unloadCount) ← tssBatchUnload batch listHead
  return (heads, listHead, unloadCount)

/-- Where objects are after loads: a batch with the target `n` and lists. -/
def moved (n : ℕ) : List ι → List Addr → (ι → List Addr) → List Addr × (ι → List Addr)
  | [], B, Ls => (B, Ls)
  | i :: is, B, Ls =>
    moved n is (B ++ (Ls i).take (n - B.length)) (Function.update Ls i ((Ls i).drop (n - B.length)))

/-- No object is in two places, or twice in one. -/
structure Apart (B : List Addr) (Ls : ι → List Addr) : Prop where
  batch : B.Nodup
  list : ∀ i, (Ls i).Nodup
  batchList : ∀ i, B.Disjoint (Ls i)
  lists : ∀ i j, i ≠ j → (Ls i).Disjoint (Ls j)

variable {m : Mem} {b : Batch} {B L M : List Addr} {Ls : ι → List Addr} {heads : ι → Addr} {p : Addr} {n : ℕ}
  {is : List ι}

/-! ### Contents -/

theorem mem_take_or_drop {α : Type} {x : α} {xs : List α} (k : ℕ) : x ∈ xs ↔ x ∈ xs.take k ∨ x ∈ xs.drop k := by
  rw [← List.mem_append, List.take_append_drop]

/-- The target has been met already. -/
theorem moved_of_le (h : n ≤ B.length) : moved n is B Ls = (B, Ls) := by
  induction is with
  | nil => rfl
  | cons i is ih =>
    rw [moved, Nat.sub_eq_zero_of_le h, List.take_zero, List.drop_zero, List.append_nil, Function.update_eq_self]
    exact ih

/-- One load keeps objects apart. -/
theorem Apart.move (h : Apart B Ls) (i : ι) (k : ℕ) :
    Apart (B ++ (Ls i).take k) (Function.update Ls i ((Ls i).drop k)) := by
  have hnd := h.list i
  rw [← List.take_append_drop k (Ls i), List.nodup_append'] at hnd
  obtain ⟨htake, hdrop, hsplit⟩ := hnd
  have hsub : ∀ j, Function.update Ls i ((Ls i).drop k) j ⊆ Ls j :=
    (Function.forall_update_iff Ls fun j L => L ⊆ Ls j).mpr ⟨List.drop_subset .., fun j _ => List.Subset.refl _⟩
  have htaken : ∀ j, ((Ls i).take k).Disjoint (Function.update Ls i ((Ls i).drop k) j) := by
    refine (Function.forall_update_iff Ls fun _ L => ((Ls i).take k).Disjoint L).mpr ⟨hsplit, fun j hj => ?_⟩
    exact List.disjoint_of_subset_left (List.take_subset ..) (h.lists i j (Ne.symm hj))
  refine ⟨?_, ?_, fun j => ?_, fun j₁ j₂ hne => ?_⟩
  · exact List.nodup_append'.mpr ⟨h.batch, htake, List.disjoint_of_subset_right (List.take_subset ..) (h.batchList i)⟩
  · exact (Function.forall_update_iff Ls fun _ L => L.Nodup).mpr ⟨hdrop, fun j _ => h.list j⟩
  · exact List.disjoint_append_left.mpr ⟨List.disjoint_of_subset_right (hsub j) (h.batchList j), htaken j⟩
  · exact List.disjoint_of_subset_left (hsub j₁) (List.disjoint_of_subset_right (hsub j₂) (h.lists j₁ j₂ hne))

/-- Loads keep objects apart. -/
theorem Apart.moved (h : Apart B Ls) : Apart (moved n is B Ls).1 (moved n is B Ls).2 := by
  induction is generalizing B Ls with
  | nil => exact h
  | cons i is ih => exact ih (h.move i _)

/-- **Loads lose no object.** -/
theorem mem_moved {x : Addr} :
    (x ∈ (moved n is B Ls).1 ∨ ∃ i, x ∈ (moved n is B Ls).2 i) ↔ x ∈ B ∨ ∃ i, x ∈ Ls i := by
  induction is generalizing B Ls with
  | nil => exact Iff.rfl
  | cons i is ih =>
    rw [ThreadSafeSlab.moved, ih, List.mem_append, or_assoc, Function.exists_update_iff Ls fun _ L => x ∈ L,
      ← or_assoc (a := x ∈ List.take _ _), ← mem_take_or_drop]
    refine or_congr_right ⟨?_, ?_⟩
    · rintro (hx | ⟨j, -, hx⟩)
      · exact ⟨i, hx⟩
      · exact ⟨j, hx⟩
    · rintro ⟨j, hx⟩
      by_cases hj : j = i
      · exact .inl (hj ▸ hx)
      · exact .inr ⟨j, hj, hx⟩

/-- If there is anything to load, the batch is not empty afterwards. -/
theorem moved_ne_nil (hn : n ≠ 0) (h : B ≠ [] ∨ ∃ i ∈ is, Ls i ≠ []) : (moved n is B Ls).1 ≠ [] := by
  induction is generalizing B Ls with
  | nil => exact h.resolve_right (by simp)
  | cons j is ih =>
    refine ih ?_
    by_cases hB : B = []
    · obtain ⟨i, hi, hLs⟩ := h.resolve_left (not_not.mpr hB)
      rw [hB, List.nil_append, List.length_nil, Nat.sub_zero]
      by_cases hj : Ls j = []
      · have hij : i ≠ j := by
          rintro rfl
          exact hLs hj
        refine .inr ⟨i, (List.mem_cons.mp hi).resolve_left hij, ?_⟩
        rw [Function.update_of_ne hij]
        exact hLs
      · exact .inl (mt List.take_eq_nil_iff.mp (not_or.mpr ⟨hn, hj⟩))
    · exact .inl (List.append_ne_nil_of_left_ne_nil hB _)

/-- A list that has no object in common with the batch and the others. -/
theorem Apart.with (h : Apart (B ++ M) Ls) : Apart ((ThreadSafeSlab.moved n is B Ls).1 ++ M)
    (ThreadSafeSlab.moved n is B Ls).2 := by
  obtain ⟨hB, hM, hBM⟩ := List.nodup_append'.mp h.batch
  have hapart : Apart B Ls := ⟨hB, h.list, fun i => (List.disjoint_append_left.mp (h.batchList i)).1, h.lists⟩
  have hout : ∀ x ∈ M, ¬ (x ∈ (ThreadSafeSlab.moved n is B Ls).1 ∨ ∃ i, x ∈ (ThreadSafeSlab.moved n is B Ls).2 i) := by
    intro x hx hmoved
    rcases mem_moved.mp hmoved with hx' | ⟨i, hx'⟩
    · exact hBM hx' hx
    · exact h.batchList i (List.mem_append_right _ hx) hx'
  have hmoved : Apart (ThreadSafeSlab.moved n is B Ls).1 (ThreadSafeSlab.moved n is B Ls).2 := hapart.moved
  refine ⟨?_, hmoved.list, fun i => ?_, hmoved.lists⟩
  · exact List.nodup_append'.mpr ⟨hmoved.batch, hM, fun x hx hx' => hout x hx' (.inl hx)⟩
  · exact List.disjoint_append_left.mpr ⟨hmoved.batchList i, fun x hx hx' => hout x hx (.inr ⟨i, hx'⟩)⟩

/-! ### The code -/

/-- **A batch is well-formed**: it holds the objects `B`, and not more than its target. -/
structure WellFormed (next : Addr → Addr) (b : Batch) (B : List Addr) : Prop where
  holds : Holds next b B
  le : b.currentCount ≤ b.targetCount

/-- The batch and the lists are in memory. -/
structure InMem (next : Addr → Addr) (b : Batch) (B : List Addr) (heads : ι → Addr) (Ls : ι → List Addr) : Prop where
  batch : WellFormed next b B
  list : ∀ i, ListAt next NULL (heads i) (Ls i)

/-- There is no more to load than is in the list. -/
theorem take_loadCount (b : Batch) (B L : List Addr) :
    L.take (loadCount b B L) = L.take (b.targetCount.toNat - B.length) ∧
      L.drop (loadCount b B L) = L.drop (b.targetCount.toNat - B.length) := by
  rw [loadCount]
  rcases Nat.le_total (b.targetCount.toNat - B.length) L.length with hle | hle
  · rw [Nat.min_eq_left hle]
    exact ⟨rfl, rfl⟩
  · rw [Nat.min_eq_right hle, List.take_length, List.drop_length, List.take_of_length_le hle,
      List.drop_of_length_le hle]
    exact ⟨rfl, rfl⟩

/-- A load. -/
theorem WellFormed.load (h : WellFormed m.next b B) (hl : ListAt m.next NULL p L) (hd : B.Disjoint L)
    (hlt : b.currentCount < b.targetCount) :
    ∃ next' b' rest count, tssBatchLoad b p m = (.ok (b', rest, count), { m with next := next' }) ∧
      Loaded m.next b B L next' b' rest count ∧ WellFormed next' b' (B ++ L.take (loadCount b B L)) := by
  have hnd : (B ++ L).Nodup :=
    List.nodup_append'.mpr ⟨nodup_of_listAt h.holds.list, nodup_of_listAt hl, hd⟩
  obtain ⟨next', b', rest, count, e, hloaded⟩ := tssBatchLoad_spec h.holds hl hnd hlt
  refine ⟨next', b', rest, count, e, hloaded, hloaded.batch, ?_⟩
  have hcount := hloaded.batch.count
  have hB : B.length < b.targetCount.toNat := by
    rw [← h.holds.count]
    exact hlt
  rw [List.length_append, List.length_take, loadCount] at hcount
  rw [UInt32.le_iff_toNat_le, hloaded.target]
  omega

/-- An unload of a batch with objects. -/
theorem WellFormed.unload (h : WellFormed m.next b B) (hne : B ≠ []) (hl : ListAt m.next NULL p L)
    (hd : B.Disjoint L) :
    ∃ next', tssBatchUnload b p m = (.ok (b.head, b.currentCount), { m with next := next' }) ∧
      ListAt next' NULL b.head (B ++ L) ∧ ∀ x, x ∉ B → next' x = m.next x := by
  have hnd : (B ++ L).Nodup :=
    List.nodup_append'.mpr ⟨nodup_of_listAt h.holds.list, nodup_of_listAt hl, hd⟩
  have hlen : 0 < b.currentCount.toNat := by
    rw [h.holds.count]
    exact List.length_pos_iff.mpr hne
  have hcurrent : b.currentCount ≠ 0 := by
    intro e
    rw [e] at hlen
    exact absurd hlen (by decide)
  have htarget : b.targetCount ≠ 0 := by
    intro e
    have hle := UInt32.le_iff_toNat_le.mp h.le
    rw [e] at hle
    exact absurd (Nat.lt_of_lt_of_le hlen hle) (by decide)
  exact tssBatchUnload_spec h.holds hcurrent htarget hl hnd

/-- A load from one of the lists. -/
theorem InMem.load (h : InMem m.next b B heads Ls) (hapart : Apart B Ls) (i : ι)
    (hlt : b.currentCount < b.targetCount) :
    ∃ next' b' rest count, tssBatchLoad b (heads i) m = (.ok (b', rest, count), { m with next := next' }) ∧
      InMem next' b' (B ++ (Ls i).take (b.targetCount.toNat - B.length)) (Function.update heads i rest)
        (Function.update Ls i ((Ls i).drop (b.targetCount.toNat - B.length))) ∧
      b'.targetCount = b.targetCount ∧ ∀ x, x ∉ B → x ∉ Ls i → next' x = m.next x := by
  obtain ⟨next', b', rest, count, e, hloaded, hwf⟩ := h.batch.load (h.list i) (hapart.batchList i) hlt
  obtain ⟨htake, hdrop⟩ := take_loadCount b B (Ls i)
  have hlist := hloaded.list
  rw [htake] at hwf
  rw [hdrop] at hlist
  refine ⟨next', b', rest, count, e, ⟨hwf, fun j => ?_⟩, hloaded.target, hloaded.frame⟩
  by_cases hj : j = i
  · subst hj
    rw [Function.update_self, Function.update_self]
    exact hlist
  · rw [Function.update_of_ne hj, Function.update_of_ne hj]
    refine listAt_congr (fun x hx => hloaded.frame x (fun hB => ?_) fun hi => ?_) (h.list j)
    · exact hapart.batchList j hB hx
    · exact hapart.lists j i hj hx hi

/-- **Loads** move objects as they should. -/
theorem tssBatchLoads_spec (h : InMem m.next b B heads Ls) (hapart : Apart B Ls) (is : List ι) :
    ∃ next' b' heads', tssBatchLoads is b heads m = (.ok (b', heads'), { m with next := next' }) ∧
      InMem next' b' (moved b.targetCount.toNat is B Ls).1 heads' (moved b.targetCount.toNat is B Ls).2 ∧
      b'.targetCount = b.targetCount ∧ ∀ x, x ∉ B → (∀ i, x ∉ Ls i) → next' x = m.next x := by
  induction is generalizing m b B heads Ls with
  | nil => exact ⟨m.next, b, heads, rfl, h, rfl, fun _ _ _ => rfl⟩
  | cons i is ih =>
    by_cases hmet : tssBatchMetTarget b = true
    · have hle : b.targetCount.toNat ≤ B.length := by
        rw [← h.batch.holds.count]
        exact of_decide_eq_true hmet
      rw [tssBatchLoads, if_pos hmet, moved_of_le hle]
      exact ⟨m.next, b, heads, rfl, h, rfl, fun _ _ _ => rfl⟩
    · have hlt : b.currentCount < b.targetCount := by
        rw [tssBatchMetTarget, decide_eq_true_eq] at hmet
        exact UInt32.not_le.mp hmet
      obtain ⟨next₁, b₁, rest, count, e, h₁, htarget₁, hframe₁⟩ := h.load hapart i hlt
      obtain ⟨next', b', heads', e', h', htarget, hframe⟩ :=
        @ih { m with next := next₁ } b₁ _ _ _ h₁ (hapart.move i _)
      rw [htarget₁] at h' htarget
      refine ⟨next', b', heads', ?_, h', htarget, fun x hB hLs => ?_⟩
      · rw [tssBatchLoads, if_neg hmet, Fallible.bind_of_ok e]
        exact e'
      · refine (hframe x ?_ ?_).trans (hframe₁ x hB (hLs i))
        · exact fun hx => (List.mem_append.mp hx).elim hB fun hx => hLs i (List.mem_of_mem_take hx)
        · refine (Function.forall_update_iff Ls fun _ L => x ∉ L).mpr ⟨?_, fun j _ => hLs j⟩
          exact fun hx => hLs i (List.mem_of_mem_drop hx)

/-- Loads and an unload onto a list with the objects `M`. -/
theorem loadsThenUnload_spec (h : InMem m.next b B heads Ls) (hapart : Apart (B ++ M) Ls)
    (hM : ListAt m.next NULL p M) (is : List ι) (hne : (moved b.targetCount.toNat is B Ls).1 ≠ []) :
    ∃ next' heads' list count, loadsThenUnload is b heads p m = (.ok (heads', list, count), { m with next := next' }) ∧
      ListAt next' NULL list ((moved b.targetCount.toNat is B Ls).1 ++ M) ∧
      ∀ i, ListAt next' NULL (heads' i) ((moved b.targetCount.toNat is B Ls).2 i) := by
  obtain ⟨hB, -, hBM⟩ := List.nodup_append'.mp hapart.batch
  have hBLs : ∀ i, B.Disjoint (Ls i) := fun i => (List.disjoint_append_left.mp (hapart.batchList i)).1
  obtain ⟨next₁, b₁, heads', e, h₁, -, hframe⟩ := tssBatchLoads_spec h ⟨hB, hapart.list, hBLs, hapart.lists⟩ is
  have hmoved : Apart ((moved b.targetCount.toNat is B Ls).1 ++ M) (moved b.targetCount.toNat is B Ls).2 := hapart.with
  have hM₁ : ListAt next₁ NULL p M := by
    refine listAt_congr (fun x hx => hframe x (fun hx' => hBM hx' hx) fun i hx' => ?_) hM
    exact hapart.batchList i (List.mem_append_right _ hx) hx'
  obtain ⟨next', e', hlist, hframe'⟩ := @WellFormed.unload { m with next := next₁ } _ _ _ _ h₁.batch hne hM₁
    (List.nodup_append'.mp hmoved.batch).2.2
  refine ⟨next', heads', b₁.head, b₁.currentCount, ?_, hlist, fun i => ?_⟩
  · rw [loadsThenUnload, Fallible.bind_of_ok e]
    exact Fallible.bind_of_ok e'
  · refine listAt_congr (fun x hx => hframe' x fun hx' => ?_) (h₁.list i)
    exact hmoved.batchList i (List.mem_append_left _ hx') hx

/-- **Batches lose and duplicate nothing.** A load moves the first objects of a list to the end
of the batch, as many as it still needs or the list has. An unload puts the batch in front of
a list. After any loads from lists without a common object, and an unload onto another
one, every object is in one of the lists, once. -/
theorem batch_moves (h : WellFormed m.next b B) :
    (∀ p L, ListAt m.next NULL p L → B.Disjoint L → b.currentCount < b.targetCount →
      ∃ next' b' rest count, tssBatchLoad b p m = (.ok (b', rest, count), { m with next := next' }) ∧
        WellFormed next' b' (B ++ L.take (min (b.targetCount.toNat - B.length) L.length)) ∧
        ListAt next' NULL rest (L.drop (min (b.targetCount.toNat - B.length) L.length)) ∧
        count.toNat = min (b.targetCount.toNat - B.length) L.length ∧
        ∀ x, x ∉ B → x ∉ L → next' x = m.next x) ∧
    (∀ p L, ListAt m.next NULL p L → B.Disjoint L → B ≠ [] →
      ∃ next', tssBatchUnload b p m = (.ok (b.head, b.currentCount), { m with next := next' }) ∧
        ListAt next' NULL b.head (B ++ L) ∧ ∀ x, x ∉ B → next' x = m.next x) ∧
    ∀ (heads : ι → Addr) (Ls : ι → List Addr) (p : Addr) (M : List Addr) (is : List ι),
      (∀ i, ListAt m.next NULL (heads i) (Ls i)) → ListAt m.next NULL p M → Apart (B ++ M) Ls →
      (B ≠ [] ∨ ∃ i ∈ is, Ls i ≠ []) → b.targetCount ≠ 0 →
      ∃ next' heads' list count C Ks,
        loadsThenUnload is b heads p m = (.ok (heads', list, count), { m with next := next' }) ∧
        ListAt next' NULL list C ∧ (∀ i, ListAt next' NULL (heads' i) (Ks i)) ∧ Apart C Ks ∧
        ∀ x, (x ∈ C ∨ ∃ i, x ∈ Ks i) ↔ (x ∈ B ∨ x ∈ M ∨ ∃ i, x ∈ Ls i) := by
  refine ⟨fun p L hl hd hlt => ?_, fun p L hl hd hne => h.unload hne hl hd,
    fun heads Ls p M is hLs hM hapart hsome htarget => ?_⟩
  · obtain ⟨next', b', rest, count, e, hloaded, hwf⟩ := h.load hl hd hlt
    exact ⟨next', b', rest, count, e, hwf, hloaded.list, hloaded.count, hloaded.frame⟩
  · have hn : b.targetCount.toNat ≠ 0 := fun e => htarget (UInt32.toNat_inj.mp e)
    obtain ⟨next', heads', list, count, e, hlist, hlists⟩ :=
      loadsThenUnload_spec ⟨h, hLs⟩ hapart hM is (moved_ne_nil hn hsome)
    refine ⟨next', heads', list, count, _, _, e, hlist, hlists, hapart.with, fun x => ?_⟩
    rw [List.mem_append, or_right_comm, mem_moved, or_right_comm, or_assoc]

/-- Memory with two lists, of two objects and of one. -/
def twoLists : Mem := { emptyMem with next := fun x => if x = 4096 then 4104 else NULL }

/-- A batch with the target 2 is loaded from both lists and unloaded onto an empty one. -/
theorem batch_moves_twoLists :
    ∃ next' heads' list count C Ks,
      loadsThenUnload [true, false] (tssBatchInit 2) (fun i => if i then 8192 else 4096) NULL twoLists =
        (.ok (heads', list, count), { twoLists with next := next' }) ∧
      ListAt next' NULL list C ∧ (∀ i, ListAt next' NULL (heads' i) (Ks i)) ∧ Apart C Ks ∧
      ∀ x, (x ∈ C ∨ ∃ i : Bool, x ∈ Ks i) ↔
        (x ∈ [] ∨ x ∈ [] ∨ ∃ i : Bool, x ∈ (if i then [8192] else [4096, 4104] : List Addr)) := by
  have hempty : WellFormed twoLists.next (tssBatchInit 2) [] := ⟨holds_init _ 2, by decide⟩
  refine (batch_moves hempty).2.2 _ (fun i => if i then [8192] else [4096, 4104]) NULL [] _ (fun i => ?_) rfl
    ⟨by decide, fun i => ?_, fun i => List.disjoint_nil_left _, fun i j hij => ?_⟩ (.inr ⟨true, List.mem_cons_self .., by simp⟩)
    (by decide)
  · cases i <;> simp [twoLists, NULL]
  · cases i <;> decide
  · cases i <;> cases j <;> simp_all

end FileSync.ThreadSafeSlab
