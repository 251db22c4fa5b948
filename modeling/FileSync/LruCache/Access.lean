import FileSync.LruCache.Promote

/-!
# One access

What `jfs_lru_access` does to the entries, that are the contents of the slots in use:
the key is resident and its entry is given to `hit` and moved to the front; or it is
not and there is a free slot; or it is not, and the last entry is given to `evict` and
its slot is used again (`Served`). From here on nothing is said about bytes.
-/

namespace FileSync.LruCache

open FileSync.Lib FileSync.MemoryBlock

variable {Key Ctx σ K : Type} {s s' : State Key Ctx σ} {key : Key} {ctx : Ctx} {n i j : ℕ}

/-- The entries, in the order of the slots. -/
def State.entries (s : State Key Ctx σ) : List Slot := slots s.mem s.lru.mb s.lru.count.toNat

@[simp] theorem length_entries (s : State Key Ctx σ) : s.entries.length = s.lru.count.toNat := length_slots ..

/-- The slots are in a piece of memory, and no more of them are in use than there are. -/
structure State.Sound (s : State Key Ctx σ) : Prop where
  fits : s.lru.mb.Fits
  count_le : s.lru.count.toNat ≤ s.lru.mb.capacity.toNat

/-! ### The parts -/

/-- The loop ends at the first slot with the key, or there is none. -/
theorem lruFind_spec (s : State Key Ctx σ) (key : Key) (n i : ℕ) :
    (∃ j, i ≤ j ∧ j < i + n ∧ lruFind s key n (UInt64.ofNat i) = some (UInt64.ofNat j) ∧
      s.lru.fn.cmp key (jfsMbRead s.mem s.lru.mb (UInt64.ofNat j)) = 0) ∨
    lruFind s key n (UInt64.ofNat i) = none ∧
      ∀ j, i ≤ j → j < i + n → s.lru.fn.cmp key (jfsMbRead s.mem s.lru.mb (UInt64.ofNat j)) ≠ 0 := by
  induction n generalizing i with
  | zero => exact .inr ⟨rfl, fun j hj hj' => by omega⟩
  | succ n ih =>
    rw [lruFind]
    split
    · next h => exact .inl ⟨i, le_rfl, by omega, rfl, h⟩
    · next h =>
      have hsucc : UInt64.ofNat i + 1 = UInt64.ofNat (i + 1) := (UInt64.ofNat_add i 1).symm
      rw [hsucc]
      rcases ih (i + 1) with ⟨j, hj, hj', e, hc⟩ | ⟨e, hnone⟩
      · exact .inl ⟨j, by omega, by omega, e, hc⟩
      · refine .inr ⟨e, fun j hj hj' => ?_⟩
        rcases Nat.eq_or_lt_of_le hj with rfl | hlt
        · exact h
        · exact hnone j hlt (by omega)

theorem eraseIdx_slots_succ (m : Bytes) (mb : Mb) (n : ℕ) : (slots m mb (n + 1)).eraseIdx n = slots m mb n := by
  rw [slots_succ, List.eraseIdx_append_of_length_le (by simp)]
  simp

/-- What a callback makes of a slot. -/
def newSlot (f : SlotFn Ctx σ) (ctx : Ctx) (s : State Key Ctx σ) (i : ℕ) : Slot :=
  (f.run ctx (jfsMbRead s.mem s.lru.mb (UInt64.ofNat i)) s.user).1

/-- The state after a callback on slot `i`. -/
def callAt (kind : CallKind) (f : SlotFn Ctx σ) (ctx : Ctx) (s : State Key Ctx σ) (i : ℕ) : State Key Ctx σ :=
  callSlot kind f (jfsMbIndex s.lru.mb (UInt64.ofNat i)) ctx s

theorem calls_callAt (kind : CallKind) (f : SlotFn Ctx σ) (ctx : Ctx) (s : State Key Ctx σ) (i : ℕ) :
    (callAt kind f ctx s i).calls = s.calls ++ [⟨kind, jfsMbIndex s.lru.mb (UInt64.ofNat i),
      jfsMbRead s.mem s.lru.mb (UInt64.ofNat i), newSlot f ctx s i⟩] := rfl

theorem calls_lruPromote (s : State Key Ctx σ) (i : UInt64) : (lruPromote s i).calls = s.calls := rfl

/-- A callback rewrites its slot. -/
theorem slots_callAt (kind : CallKind) (f : SlotFn Ctx σ) (ctx : Ctx) (h : s.lru.mb.Fits)
    (hi : i < s.lru.mb.capacity.toNat) (hn : n ≤ s.lru.mb.capacity.toNat) :
    slots (callAt kind f ctx s i).mem s.lru.mb n = (slots s.mem s.lru.mb n).set i (newSlot f ctx s i) := by
  apply slots_store h hi hn
  rw [f.length_run]
  exact length_jfsMbRead ..

/-- `lru_promote` moves an entry to the front. -/
theorem slots_lruPromote (h : s.lru.mb.Fits) (hi : i < n) (hn : n ≤ s.lru.mb.capacity.toNat) :
    slots (lruPromote s (UInt64.ofNat i)).mem s.lru.mb n =
      jfsMbRead s.mem s.lru.mb (UInt64.ofNat i) :: (slots s.mem s.lru.mb n).eraseIdx i := by
  have hread : ∀ k < n, jfsMbRead (lruPromote s (UInt64.ofNat i)).mem s.lru.mb (UInt64.ofNat k) =
      if k = 0 then jfsMbRead s.mem s.lru.mb (UInt64.ofNat i)
      else if k ≤ i then jfsMbRead s.mem s.lru.mb (UInt64.ofNat (k - 1))
      else jfsMbRead s.mem s.lru.mb (UInt64.ofNat k) := by
    intro k hk
    have hval : ∀ j < n, (UInt64.ofNat j).toNat = j := fun j hj =>
      UInt64.toNat_ofNat_of_lt' (lt_trans (lt_of_lt_of_le hj hn) (UInt64.toNat_lt _))
    have hlt : ∀ j < n, UInt64.ofNat j < s.lru.mb.capacity := fun j hj => by
      rw [UInt64.lt_iff_toNat_lt, hval j hj]
      omega
    split
    · next hk0 =>
      rw [hk0]
      exact jfsMbRead_lruPromote_zero h.fits (hlt i hi)
    · next hk0 =>
      split
      · obtain ⟨j, rfl⟩ := Nat.exists_eq_succ_of_ne_zero hk0
        have hj : UInt64.ofNat j < UInt64.ofNat i := by
          rw [UInt64.lt_iff_toNat_lt, hval i hi, hval j (by omega)]
          omega
        have hsucc : UInt64.ofNat (j + 1) = UInt64.ofNat j + 1 := UInt64.ofNat_add j 1
        rw [hsucc]
        exact jfsMbRead_lruPromote_succ h.fits (hlt i hi) hj
      · refine jfsMbRead_lruPromote_of_gt h.fits (hlt i hi) ?_ (hlt k hk)
        rw [UInt64.lt_iff_toNat_lt, hval i hi, hval k hk]
        omega
  apply List.ext_getElem
  · rw [List.length_cons, List.length_eraseIdx_of_lt (by simpa using hi), length_slots, length_slots]
    omega
  · intro k hk hk'
    rw [length_slots] at hk
    rw [getElem_slots, hread k hk]
    cases k with
    | zero => rfl
    | succ k =>
      rw [if_neg (by omega), List.getElem_cons_succ, List.getElem_eraseIdx]
      split_ifs <;> first | omega | simp

/-- A call on a slot that is then promoted. -/
theorem slots_promote_callAt (kind : CallKind) (f : SlotFn Ctx σ) (ctx : Ctx) (h : s.lru.mb.Fits) (hi : i < n)
    (hn : n ≤ s.lru.mb.capacity.toNat) :
    slots (lruPromote (callAt kind f ctx s i) (UInt64.ofNat i)).mem s.lru.mb n =
      newSlot f ctx s i :: (slots s.mem s.lru.mb n).eraseIdx i := by
  have hset := slots_callAt kind f ctx h (lt_of_lt_of_le hi hn) hn
  have hread : jfsMbRead (callAt kind f ctx s i).mem s.lru.mb (UInt64.ofNat i) = newSlot f ctx s i := by
    have hget := congrArg (·[i]?) hset
    simpa [slots, hi] using hget
  refine (slots_lruPromote (s := callAt kind f ctx s i) h hi hn).trans ?_
  exact congrArg₂ List.cons hread ((congrArg (·.eraseIdx i) hset).trans List.eraseIdx_set_eq)

/-! ### The whole -/

/-- The comparison is 0 for the key of the entry, and for no other. -/
def Matches (keyOf : Slot → Key) (lru : Lru Key Ctx σ) : Prop :=
  ∀ k x, x.length = lru.mb.objSize.toNat → (lru.fn.cmp k x = 0 ↔ keyOf x = k)

/-- What the callbacks must do when this key is accessed with this context: `miss` writes an
entry with the key, and `hit` does not change the key of the entry. -/
structure Honest (keyOf : Slot → Key) (lru : Lru Key Ctx σ) (a : Key × Ctx) : Prop where
  miss : ∀ x w, x.length = lru.mb.objSize.toNat → keyOf (lru.fn.miss.run a.2 x w).1 = a.1
  hit : ∀ x w, x.length = lru.mb.objSize.toNat → keyOf x = a.1 → keyOf (lru.fn.hit.run a.2 x w).1 = a.1

/-- The key is resident: `hit` is called on its slot, and the entry moves to the front. -/
def ServedHit (keyOf : Slot → Key) (s s' : State Key Ctx σ) (key : Key) : Prop :=
  ∃ xs x ys y, s.entries = xs ++ x :: ys ∧ keyOf x = key ∧ keyOf y = key ∧ s'.entries = y :: (xs ++ ys) ∧
    s'.calls = s.calls ++ [⟨.hit, jfsMbIndex s.lru.mb (UInt64.ofNat xs.length), x, y⟩]

/-- It is not, and a slot is free: `miss` fills that. -/
def ServedFill (keyOf : Slot → Key) (s s' : State Key Ctx σ) (key : Key) : Prop :=
  key ∉ s.entries.map keyOf ∧ s.entries.length < s.lru.mb.capacity.toNat ∧
    ∃ x y, keyOf y = key ∧ s'.entries = y :: s.entries ∧
      s'.calls = s.calls ++ [⟨.miss, jfsMbIndex s.lru.mb s.lru.count, x, y⟩]

/-- It is not, and all slots are in use: the last entry, the least recently used one, is given
to `evict`, and then `miss` fills its slot. -/
def ServedReplace (keyOf : Slot → Key) (s s' : State Key Ctx σ) (key : Key) : Prop :=
  key ∉ s.entries.map keyOf ∧ s.entries.length = s.lru.mb.capacity.toNat ∧
    ∃ xs last x y, s.entries = xs ++ [last] ∧ keyOf y = key ∧ s'.entries = y :: xs ∧
      s'.calls = s.calls ++ [⟨.evict, jfsMbIndex s.lru.mb (s.lru.count - 1), last, x⟩,
        ⟨.miss, jfsMbIndex s.lru.mb (s.lru.count - 1), x, y⟩]

/-- What an access does. -/
structure Served (keyOf : Slot → Key) (s s' : State Key Ctx σ) (key : Key) : Prop where
  /-- Of the cache only the count changes. -/
  lru : ∃ count, s'.lru = { s.lru with count := count }
  sound : s'.Sound
  cases : ServedHit keyOf s s' key ∨ ServedFill keyOf s s' key ∨ ServedReplace keyOf s s' key

theorem exists_entries_eq (h : i < s.lru.count.toNat) :
    ∃ xs ys, s.entries = xs ++ jfsMbRead s.mem s.lru.mb (UInt64.ofNat i) :: ys ∧ xs.length = i ∧
      s.entries.eraseIdx i = xs ++ ys := by
  have hlen : i < s.entries.length := by simpa using h
  have hget : s.entries[i] = jfsMbRead s.mem s.lru.mb (UInt64.ofNat i) := getElem_slots
  refine ⟨s.entries.take i, s.entries.drop (i + 1), ?_, ?_, List.eraseIdx_eq_take_drop_succ ..⟩
  · rw [← hget, List.cons_getElem_drop_succ, List.take_append_drop]
  · rw [List.length_take]
    omega

theorem key_notMem_entries {keyOf : Slot → Key} (hm : Matches keyOf s.lru)
    (h : ∀ j, 0 ≤ j → j < 0 + s.lru.count.toNat → s.lru.fn.cmp key (jfsMbRead s.mem s.lru.mb (UInt64.ofNat j)) ≠ 0) :
    key ∉ s.entries.map keyOf := by
  intro hmem
  obtain ⟨x, hx, hk⟩ := List.mem_map.mp hmem
  obtain ⟨j, hj, rfl⟩ := List.mem_map.mp hx
  rw [List.mem_range] at hj
  exact h j (Nat.zero_le j) (by omega) ((hm key _ (length_jfsMbRead ..)).mpr hk)

/-- A hit. -/
theorem servedHit {keyOf : Slot → Key} (hs : s.Sound) (hh : Honest keyOf s.lru (key, ctx))
    (hi : i < s.lru.count.toNat) (hk : keyOf (jfsMbRead s.mem s.lru.mb (UInt64.ofNat i)) = key) :
    Served keyOf s (if UInt64.ofNat i ≠ 0 then lruPromote (callAt .hit s.lru.fn.hit ctx s i) (UInt64.ofNat i)
      else callAt .hit s.lru.fn.hit ctx s i) key := by
  have hcases : ∀ mem, slots mem s.lru.mb s.lru.count.toNat =
      newSlot s.lru.fn.hit ctx s i :: s.entries.eraseIdx i →
      Served keyOf s { callAt .hit s.lru.fn.hit ctx s i with mem := mem } key := by
    intro mem e
    obtain ⟨xs, ys, hxs, hlen, herase⟩ := exists_entries_eq hi
    refine ⟨⟨s.lru.count, rfl⟩, ⟨hs.fits, hs.count_le⟩, .inl ⟨xs, _, ys, _, hxs, hk, ?_, herase ▸ e, ?_⟩⟩
    · exact hh.hit _ _ (length_jfsMbRead ..) hk
    · rw [hlen]
      exact calls_callAt ..
  have hcap := lt_of_lt_of_le hi hs.count_le
  split
  · exact hcases _ (slots_promote_callAt .hit s.lru.fn.hit ctx hs.fits hi hs.count_le)
  · next h0 =>
    have hi64 : i < 2 ^ 64 := hcap.trans (UInt64.toNat_lt _)
    have hzero : i = 0 := by
      have h := congrArg UInt64.toNat (not_not.mp h0)
      rwa [UInt64.toNat_ofNat_of_lt' hi64] at h
    refine hcases _ ((slots_callAt .hit s.lru.fn.hit ctx hs.fits hcap hs.count_le).trans ?_)
    rw [hzero, State.entries]
    cases hl : slots s.mem s.lru.mb s.lru.count.toNat with
    | nil =>
      have hlen := congrArg List.length hl
      rw [length_slots, List.length_nil] at hlen
      omega
    | cons x xs => rfl

/-- A miss, with a free slot. -/
theorem servedFill {keyOf : Slot → Key} (hs : s.Sound) (hh : Honest keyOf s.lru (key, ctx))
    (hk : key ∉ s.entries.map keyOf) (hc : s.lru.count.toNat < s.lru.mb.capacity.toNat) {r : State Key Ctx σ}
    (hr : r = { s with lru := { s.lru with count := s.lru.count + 1 } }) :
    Served keyOf s (lruPromote (callAt .miss s.lru.fn.miss ctx r s.lru.count.toNat) (UInt64.ofNat s.lru.count.toNat))
      key := by
  have hcount : (s.lru.count + 1).toNat = s.lru.count.toNat + 1 := by
    have h64 := s.lru.mb.capacity.toNat_lt
    rw [UInt64.toNat_add]
    exact Nat.mod_eq_of_lt (by simp; omega)
  subst hr
  refine ⟨⟨s.lru.count + 1, rfl⟩, ⟨hs.fits, ?_⟩, .inr (.inl ⟨hk, by simpa using hc,
    jfsMbRead s.mem s.lru.mb (UInt64.ofNat s.lru.count.toNat), newSlot s.lru.fn.miss ctx s s.lru.count.toNat, ?_, ?_, ?_⟩)⟩
  · show (s.lru.count + 1).toNat ≤ _
    rw [hcount]
    exact hc
  · exact hh.miss _ _ (length_jfsMbRead ..)
  · show slots _ s.lru.mb (s.lru.count + 1).toNat = _
    rw [hcount]
    refine (slots_promote_callAt .miss s.lru.fn.miss ctx hs.fits (Nat.lt_succ_self _) hc).trans ?_
    refine congrArg₂ List.cons rfl ?_
    rw [eraseIdx_slots_succ]
    rfl
  · have hidx : jfsMbIndex s.lru.mb (UInt64.ofNat s.lru.count.toNat) = jfsMbIndex s.lru.mb s.lru.count := by
      rw [UInt64.ofNat_toNat]
    rw [calls_lruPromote, calls_callAt, ← hidx]
    rfl

theorem pred_eq_ofNat {c : UInt64} (h : c.toNat = i + 1) : c - 1 = UInt64.ofNat i := by
  rw [← UInt64.ofNat_toNat (x := c), h, UInt64.ofNat_add]
  exact UInt64.add_sub_cancel ..

/-- A miss, with all slots in use. -/
theorem servedReplace {keyOf : Slot → Key} (hs : s.Sound) (hh : Honest keyOf s.lru (key, ctx))
    (hk : key ∉ s.entries.map keyOf) (hi : s.lru.count.toNat = i + 1) (hc : s.lru.mb.capacity.toNat = i + 1)
    {r : State Key Ctx σ} (hr : r = callAt .evict s.lru.fn.evict s.lru.evictCtx s i) :
    Served keyOf s (lruPromote (callAt .miss s.lru.fn.miss ctx r i) (UInt64.ofNat i)) key := by
  have hlast := pred_eq_ofNat hi
  have hset : slots r.mem s.lru.mb (i + 1) = (slots s.mem s.lru.mb (i + 1)).set i _ :=
    hr ▸ slots_callAt .evict s.lru.fn.evict s.lru.evictCtx hs.fits (by omega) hc.ge
  have hread : jfsMbRead r.mem s.lru.mb (UInt64.ofNat i) = newSlot s.lru.fn.evict s.lru.evictCtx s i := by
    have hget := congrArg (·[i]?) hset
    simpa [slots] using hget
  have hentries : s.entries = slots s.mem s.lru.mb i ++ [jfsMbRead s.mem s.lru.mb (UInt64.ofNat i)] := by
    rw [State.entries, hi, slots_succ]
  have hrlru : r.lru = s.lru := by
    rw [hr]
    rfl
  have hrcalls : r.calls = s.calls ++ _ := hr ▸ calls_callAt .evict s.lru.fn.evict s.lru.evictCtx s i
  refine ⟨⟨s.lru.count, ?_⟩, ⟨?_, ?_⟩, .inr (.inr ⟨hk, ?_, _, _, newSlot s.lru.fn.evict s.lru.evictCtx s i,
    newSlot s.lru.fn.miss ctx r i, hentries, ?_, ?_, ?_⟩)⟩
  · exact hrlru
  · exact hrlru ▸ hs.fits
  · exact hrlru ▸ hs.count_le
  · rw [length_entries, hi, hc]
  · exact hh.miss _ _ (by rw [hrlru]; exact length_jfsMbRead ..)
  · show slots _ r.lru.mb r.lru.count.toNat = _
    rw [hrlru, hi]
    have hslots := slots_promote_callAt (s := r) (n := i + 1) (i := i) .miss s.lru.fn.miss ctx (hrlru ▸ hs.fits)
      (by omega) (hrlru ▸ hc.ge)
    rw [hrlru] at hslots
    refine hslots.trans (congrArg₂ List.cons rfl ?_)
    rw [hset, List.eraseIdx_set_eq, eraseIdx_slots_succ]
  · rw [calls_lruPromote, calls_callAt, hrcalls, hrlru, hread, hlast, List.append_assoc]
    rfl

/-- **An access** serves its key, and no assertion fails. -/
theorem jfsLruAccess_spec {keyOf : Slot → Key} (hs : s.Sound) (hcap : 0 < s.lru.mb.capacity.toNat)
    (hm : Matches keyOf s.lru) (hh : Honest keyOf s.lru (key, ctx)) :
    (jfsLruAccess s key ctx).ok = true ∧ Served keyOf s (jfsLruAccess s key ctx).val key := by
  rcases lruFind_spec s key s.lru.count.toNat 0 with ⟨i, -, hi, e, hc⟩ | ⟨e, hnone⟩
  · rw [Nat.zero_add] at hi
    have hk := (hm key _ (length_jfsMbRead ..)).mp hc
    have hrun : jfsLruAccess s key ctx = pure (if UInt64.ofNat i ≠ 0 then
        lruPromote (callAt .hit s.lru.fn.hit ctx s i) (UInt64.ofNat i) else callAt .hit s.lru.fn.hit ctx s i) := by
      rw [jfsLruAccess, show lruFind s key s.lru.count.toNat 0 = some (UInt64.ofNat i) from e]
      rfl
    rw [hrun]
    exact ⟨rfl, servedHit hs hh hi hk⟩
  · have hk := key_notMem_entries hm hnone
    by_cases hc : s.lru.count < s.lru.mb.capacity
    · have hrun : jfsLruAccess s key ctx = pure (lruPromote (callAt .miss s.lru.fn.miss ctx
          { s with lru := { s.lru with count := s.lru.count + 1 } } s.lru.count.toNat)
            (UInt64.ofNat s.lru.count.toNat)) := by
        rw [jfsLruAccess, show lruFind s key s.lru.count.toNat 0 = none from e]
        simp only [if_pos hc, callAt, UInt64.ofNat_toNat]
        refine congrArg (fun i => (pure (lruPromote _ i) : Checked _)) ?_
        exact UInt64.add_sub_cancel ..
      rw [hrun]
      exact ⟨rfl, servedFill hs hh hk hc rfl⟩
    · have heq : s.lru.count = s.lru.mb.capacity := by
        have hle := hs.count_le
        have hge : s.lru.mb.capacity.toNat ≤ s.lru.count.toNat := Nat.not_lt.mp hc
        exact UInt64.toNat_inj.mp (by omega)
      obtain ⟨i, hi⟩ : ∃ i, s.lru.mb.capacity.toNat = i + 1 := ⟨_, (Nat.succ_pred_eq_of_pos hcap).symm⟩
      have hlast := pred_eq_ofNat (heq ▸ hi)
      have hrun : jfsLruAccess s key ctx = (do
          Checked.assert (s.lru.count == s.lru.mb.capacity)
          return lruPromote (callAt .miss s.lru.fn.miss ctx (callAt .evict s.lru.fn.evict s.lru.evictCtx s i) i)
            (UInt64.ofNat i)) := by
        rw [jfsLruAccess, show lruFind s key s.lru.count.toNat 0 = none from e]
        simp only [if_neg hc, hlast]
        apply Checked.ext
        · exact congrArg (lruPromote _) hlast
        · rfl
      rw [hrun]
      exact ⟨by simp [heq], servedReplace hs hh hk (heq ▸ hi) hi rfl⟩

/-- `jfs_lru_free` gives each entry to `evict`, in order. -/
theorem evictFrom_calls {n i : ℕ} (hf : s.lru.mb.Fits) (hi : i + n ≤ s.lru.mb.capacity.toNat) :
    ∃ cs, (evictFrom s n (UInt64.ofNat i)).calls = s.calls ++ cs ∧ (∀ c ∈ cs, c.kind = .evict) ∧
      cs.map Call.before = (List.range' i n).map fun j => jfsMbRead s.mem s.lru.mb (UInt64.ofNat j) := by
  induction n generalizing s i with
  | zero => exact ⟨[], by simp [evictFrom], by simp, by simp⟩
  | succ n ih =>
    have hsucc : UInt64.ofNat i + 1 = UInt64.ofNat (i + 1) := (UInt64.ofNat_add i 1).symm
    obtain ⟨cs, hcalls, hkind, hbefore⟩ := ih (s := callAt .evict s.lru.fn.evict s.lru.evictCtx s i) (i := i + 1) hf
      (by show _ ≤ s.lru.mb.capacity.toNat; omega)
    refine ⟨⟨.evict, jfsMbIndex s.lru.mb (UInt64.ofNat i), jfsMbRead s.mem s.lru.mb (UInt64.ofNat i),
      newSlot s.lru.fn.evict s.lru.evictCtx s i⟩ :: cs, ?_, ?_, ?_⟩
    · rw [evictFrom, hsucc]
      refine hcalls.trans ?_
      rw [calls_callAt, List.append_assoc]
      rfl
    · intro c hc
      rcases List.mem_cons.mp hc with rfl | hc
      · rfl
      · exact hkind c hc
    · rw [List.map_cons, hbefore, List.range'_succ, List.map_cons]
      refine congrArg₂ List.cons rfl (List.map_congr_left fun j hj => ?_)
      rw [List.mem_range'_1] at hj
      refine (jfsMbRead_store hf (by omega) (by omega) ?_).trans (if_neg (by omega))
      rw [SlotFn.length_run]
      exact length_jfsMbRead ..

end FileSync.LruCache
