import FileSync.MemoryLayout
import FileSync.Lib.Packing
import FileSync.Lib.Word

/-!
# What the layout generator lays out

`jfs_mlg_memory_init` packs the struct, the component list, the header and the
component regions one after another. It computes modulo `2 ^ 64` what the packing
of `Lib.Packing` computes exactly (`Tracks`), so it is right as long as the exact
total is less than `2 ^ 64` (`memoryInit_regions`), and goes wrong if it is not
(`memoryInit_sizeSafe_iff`).
-/

namespace FileSync.MemoryLayout

open FileSync.Lib

/-! ### The exact packing -/

/-- What a description asks for. -/
def Desc.extent (d : Desc) : Extent := { size := d.size.toNat * d.count.toNat, align := d.align.toNat }

/-- The description of the struct. -/
def memoryStructDesc : Desc := { size := sizeofMemory, align := alignofMemory, count := 1 }

/-- The description of the component list. -/
def Layout.componentListDesc (L : Layout) : Desc :=
  { size := sizeofComponent, align := alignofComponent, count := L.descriptionsCount }

/-- What is in front of the components. -/
def Layout.front (L : Layout) : List Desc := [memoryStructDesc, L.componentListDesc, L.headerDesc]

/-- The exact size of what is in front of the components and of the components `ds`. -/
def Layout.totalOf (L : Layout) (ds : List Desc) : ℕ := packEnd 0 ((L.front ++ ds).map Desc.extent)

/-- **The exact total size** of a layout. -/
def Layout.total (L : Layout) : ℕ := L.totalOf L.descriptions

/-- The greater of two alignments, as `jfs_mlg_append` keeps it. -/
def maxAlign (a : UInt64) (d : Desc) : UInt64 := if d.align > a then d.align else a

/-- The greatest alignment of a layout. -/
def Layout.align (L : Layout) : UInt64 := (L.front ++ L.descriptions).foldl maxAlign alignofMemory

theorem Layout.toNat_descriptionsCount (L : Layout) : L.descriptionsCount.toNat = L.descriptions.length := by
  rw [Layout.descriptionsCount, UInt64.toNat_ofNat', Nat.mod_eq_of_lt L.length_lt]

theorem memoryStructDesc_extent : memoryStructDesc.extent = ⟨24, 8⟩ := rfl

theorem Layout.componentListDesc_extent (L : Layout) :
    L.componentListDesc.extent = ⟨32 * L.descriptions.length, 8⟩ := by
  rw [← L.toNat_descriptionsCount]
  rfl

/-- Where the packing puts what is in front of the components. -/
theorem Layout.place_front (L : Layout) : place 0 (L.front.map Desc.extent) =
    [⟨⟨24, 8⟩, 0⟩, ⟨⟨32 * L.descriptions.length, 8⟩, 24⟩,
      ⟨L.headerDesc.extent, roundUp (24 + 32 * L.descriptions.length) L.headerDesc.align.toNat⟩] := by
  simp only [Layout.front, List.map_cons, List.map_nil, place_cons, place_nil, memoryStructDesc_extent,
    L.componentListDesc_extent]
  rfl

theorem Layout.totalOf_eq (L : Layout) (ds : List Desc) :
    L.totalOf ds = packEnd (L.totalOf []) (ds.map Desc.extent) := by
  rw [Layout.totalOf, Layout.totalOf, List.map_append, packEnd_append, List.append_nil]

theorem Layout.totalOf_nil (L : Layout) : L.totalOf [] =
    roundUp (24 + 32 * L.descriptions.length) L.headerDesc.extent.align + L.headerDesc.extent.size := by
  simp only [Layout.totalOf, Layout.front, List.append_nil, List.map_cons, List.map_nil, packEnd_cons, packEnd_nil,
    memoryStructDesc_extent, L.componentListDesc_extent]
  rfl

/-! ### Valid descriptions -/

theorem exists_two_pow_of_validAlign {a : UInt64} (h : jfsMlgValidAlign a = true) : ∃ k < 64, a.toNat = 2 ^ k := by
  simp only [jfsMlgValidAlign, Bool.and_eq_true, bne_iff_ne, beq_iff_eq] at h
  exact exists_two_pow_of_and_pred h.1 h.2

theorem validAlign_of_two_pow {a : UInt64} {k : ℕ} (h : a.toNat = 2 ^ k) : jfsMlgValidAlign a = true := by
  obtain ⟨hne, hand⟩ := Nat.ne_zero_and_sub_one_eq_zero_iff_isPowerOfTwo.mpr ⟨k, h⟩
  have h0 : a ≠ 0 := by
    rintro rfl
    exact hne rfl
  simp only [jfsMlgValidAlign, Bool.and_eq_true, bne_iff_ne, beq_iff_eq]
  refine ⟨h0, UInt64.toNat_inj.mp ?_⟩
  rw [UInt64.toNat_and, toNat_pred h0, Nat.and_comm]
  exact hand

theorem validDesc_iff {d : Desc} : jfsMlgValidDesc d = true ↔
    jfsMlgValidAlign d.align = true ∧ 0 < d.size ∧ 0 < d.count := by
  simp only [jfsMlgValidDesc, Bool.and_eq_true, decide_eq_true_eq, and_assoc]

theorem align_pos {d : Desc} (h : jfsMlgValidDesc d = true) : 0 < d.extent.align := by
  obtain ⟨k, -, hk⟩ := exists_two_pow_of_validAlign (validDesc_iff.mp h).1
  show 0 < d.align.toNat
  rw [hk]
  exact Nat.two_pow_pos k

theorem size_pos {d : Desc} (h : jfsMlgValidDesc d = true) : 0 < d.extent.size := by
  obtain ⟨-, hs, hc⟩ := validDesc_iff.mp h
  exact Nat.mul_pos (UInt64.lt_iff_toNat_lt.mp hs) (UInt64.lt_iff_toNat_lt.mp hc)

/-- Of two powers of two the smaller divides the greater. -/
theorem dvd_of_le_of_validAlign {a b : UInt64} (ha : jfsMlgValidAlign a = true) (hb : jfsMlgValidAlign b = true)
    (h : a ≤ b) : a.toNat ∣ b.toNat := by
  obtain ⟨k, -, hk⟩ := exists_two_pow_of_validAlign ha
  obtain ⟨l, -, hl⟩ := exists_two_pow_of_validAlign hb
  rw [UInt64.le_iff_toNat_le, hk, hl, Nat.pow_le_pow_iff_right (by decide)] at h
  rw [hk, hl]
  exact Nat.pow_dvd_pow 2 h

theorem maxAlign_valid {a : UInt64} {d : Desc} (ha : jfsMlgValidAlign a = true) (hd : jfsMlgValidDesc d = true) :
    jfsMlgValidAlign (maxAlign a d) = true ∧ a.toNat ∣ (maxAlign a d).toNat ∧
      d.align.toNat ∣ (maxAlign a d).toNat := by
  have hda := (validDesc_iff.mp hd).1
  unfold maxAlign
  split_ifs with h
  · exact ⟨hda, dvd_of_le_of_validAlign ha hda (UInt64.le_of_lt h), dvd_rfl⟩
  · exact ⟨ha, dvd_rfl, dvd_of_le_of_validAlign hda ha (UInt64.not_lt.mp h)⟩

/-- Every alignment divides the greatest. -/
theorem foldl_maxAlign {a : UInt64} {ds : List Desc} (ha : jfsMlgValidAlign a = true)
    (hds : ∀ d ∈ ds, jfsMlgValidDesc d = true) : a.toNat ∣ (ds.foldl maxAlign a).toNat ∧
      ∀ d ∈ ds, d.align.toNat ∣ (ds.foldl maxAlign a).toNat := by
  induction ds generalizing a with
  | nil => exact ⟨dvd_rfl, by simp⟩
  | cons d ds ih =>
    obtain ⟨hv, h₁, h₂⟩ := maxAlign_valid ha (hds d (List.mem_cons_self ..))
    obtain ⟨h₃, h₄⟩ := ih hv fun x hx => hds x (List.mem_cons_of_mem _ hx)
    refine ⟨h₁.trans h₃, fun x hx => ?_⟩
    rcases List.mem_cons.mp hx with rfl | hx
    · exact h₂.trans h₃
    · exact h₄ x hx

/-! ### Appending -/

/-- `base` is what the code has where the packing has come to `n`: the size modulo
`2 ^ 64`. -/
structure Tracks (base : Desc) (n : ℕ) : Prop where
  size : base.size.toNat = n % 2 ^ 64
  align : jfsMlgValidAlign base.align = true
  count : 0 < base.count

/-- `jfs_mlg_align_size` rounds up modulo `2 ^ 64`. -/
theorem jfsMlgAlignSize_spec {size align : UInt64} {n : ℕ} (hsize : size.toNat = n % 2 ^ 64)
    (ha : jfsMlgValidAlign align = true) :
    (jfsMlgAlignSize size align).val.toNat = roundUp n align.toNat % 2 ^ 64 ∧
      (jfsMlgAlignSize size align).ok = decide (0 < size) := by
  obtain ⟨k, -, hk⟩ := exists_two_pow_of_validAlign ha
  constructor
  · exact toNat_roundUp hsize hk
  · simp [jfsMlgAlignSize, ha]

/-- **`jfs_mlg_append`** does one step of the packing modulo `2 ^ 64`. An assertion fails if
the size has become `0`. -/
theorem jfsMlgAppend_spec {base d : Desc} {n : ℕ} (h : Tracks base n) (hd : jfsMlgValidDesc d = true) :
    Tracks (jfsMlgAppend base d).val.1 (roundUp n d.extent.align + d.extent.size) ∧
      (jfsMlgAppend base d).val.1.align = maxAlign base.align d ∧
        (jfsMlgAppend base d).val.2.toNat = roundUp n d.extent.align % 2 ^ 64 ∧
          ((jfsMlgAppend base d).ok = true ↔ n % 2 ^ 64 ≠ 0) := by
  obtain ⟨hval, hok⟩ := jfsMlgAlignSize_spec h.size (validDesc_iff.mp hd).1
  have hpos : 0 < base.size ↔ n % 2 ^ 64 ≠ 0 := by
    rw [UInt64.lt_iff_toNat_lt, h.size]
    exact Nat.pos_iff_ne_zero
  refine ⟨⟨?_, (maxAlign_valid h.align hd).1, h.count⟩, rfl, hval, ?_⟩
  · show ((jfsMlgAlignSize base.size d.align).val + d.size * d.count).toNat = _
    rw [UInt64.toNat_add, UInt64.toNat_mul, hval]
    exact (Nat.add_mod _ _ _).symm
  · simp only [jfsMlgAppend, Checked.ok_bind, Checked.ok_assert, Checked.ok_pure, hok, hd, Bool.and_eq_true,
      decide_eq_true_eq, validDesc_iff, h.align, h.count, hpos, true_and, and_true, and_self]

/-- The loop over valid descriptions goes through the packing. -/
theorem appendDescriptions_val {base : Desc} {n : ℕ} {ds : List Desc} (h : Tracks base n)
    (hds : ∀ d ∈ ds, jfsMlgValidDesc d = true) :
    ∃ base' offsets, (appendDescriptions base ds).val = .ok (base', offsets) ∧
      Tracks base' (packEnd n (ds.map Desc.extent)) ∧ base'.align = ds.foldl maxAlign base.align ∧
        offsets.map UInt64.toNat = (place n (ds.map Desc.extent)).map fun r => r.start % 2 ^ 64 := by
  induction ds generalizing base n with
  | nil => exact ⟨base, [], rfl, h, rfl, rfl⟩
  | cons d ds ih =>
    have hd := hds d (List.mem_cons_self ..)
    obtain ⟨h₁, halign, hoff, -⟩ := jfsMlgAppend_spec h hd
    obtain ⟨base', offsets, e, h₂, halign', hoffs⟩ := ih h₁ fun x hx => hds x (List.mem_cons_of_mem _ hx)
    refine ⟨base', (jfsMlgAppend base d).val.2 :: offsets, ?_, h₂, ?_, ?_⟩
    · rw [appendDescriptions, hd]
      simp only [Bool.not_true, Bool.false_eq_true, if_false, Checked.val_bind, e]
      rfl
    · rw [halign', halign]
      rfl
    · rw [List.map_cons, hoff, hoffs]
      rfl

/-- The loop gives up at a description that is not valid. -/
theorem appendDescriptions_error {base : Desc} {ds : List Desc} (hds : ∃ d ∈ ds, jfsMlgValidDesc d = false) :
    (appendDescriptions base ds).val = .error .badConf := by
  induction ds generalizing base with
  | nil => simp at hds
  | cons d ds ih =>
    rw [appendDescriptions]
    by_cases hd : jfsMlgValidDesc d = true
    · have hrest : ∃ x ∈ ds, jfsMlgValidDesc x = false := by
        obtain ⟨x, hx, hxv⟩ := hds
        rcases List.mem_cons.mp hx with rfl | hx
        · rw [hd] at hxv
          cases hxv
        · exact ⟨x, hx, hxv⟩
      simp only [hd, Bool.not_true, Bool.false_eq_true, if_false, Checked.val_bind, ih hrest]
      rfl
    · simp only [Bool.not_eq_true] at hd
      simp only [hd, Bool.not_false, if_true]
      rfl

/-- The loop never appends to a size that is `0` modulo `2 ^ 64`. -/
def NeverZero (n : ℕ) (ds : List Desc) : Prop :=
  ∀ pre d post, ds = pre ++ d :: post → (∀ x ∈ pre ++ [d], jfsMlgValidDesc x = true) →
    ¬ 2 ^ 64 ∣ packEnd n (pre.map Desc.extent)

theorem neverZero_nil (n : ℕ) : NeverZero n [] := by
  rintro pre d post e
  simp at e

theorem neverZero_cons {n : ℕ} {d : Desc} {ds : List Desc} (hd : jfsMlgValidDesc d = true) :
    NeverZero n (d :: ds) ↔ ¬ 2 ^ 64 ∣ n ∧ NeverZero (roundUp n d.extent.align + d.extent.size) ds := by
  constructor
  · intro h
    refine ⟨h [] d ds rfl (by simpa using hd), fun pre x post e hx => ?_⟩
    refine h (d :: pre) x post (by rw [e, List.cons_append]) ?_
    rw [List.cons_append]
    exact List.forall_mem_cons.mpr ⟨hd, hx⟩
  · rintro ⟨hn, h⟩ pre x post e hx
    cases pre with
    | nil => exact hn
    | cons y pre =>
      rw [List.cons_append, List.cons.injEq] at e
      obtain ⟨rfl, e⟩ := e
      exact h pre x post e fun z hz => hx z (List.mem_cons_of_mem _ hz)

theorem neverZero_cons_of_invalid {n : ℕ} {d : Desc} {ds : List Desc} (hd : jfsMlgValidDesc d = false) :
    NeverZero n (d :: ds) := by
  intro pre x post e hx
  have hdx : d ∈ pre ++ [x] := by
    cases pre with
    | nil => simp_all
    | cons y pre => simp_all
  rw [hx d hdx] at hd
  cases hd

theorem appendDescriptions_cons_ok {base d : Desc} {ds : List Desc} (hd : jfsMlgValidDesc d = true) :
    (appendDescriptions base (d :: ds)).ok =
      ((jfsMlgAppend base d).ok && (appendDescriptions (jfsMlgAppend base d).val.1 ds).ok) := by
  rw [appendDescriptions, hd]
  simp only [Bool.not_true, Bool.false_eq_true, if_false, Checked.ok_bind]
  cases (appendDescriptions (jfsMlgAppend base d).val.1 ds).val <;> simp

/-- No assertion fails in the loop as long as it never appends to a size that has become
`0`. -/
theorem appendDescriptions_ok {base : Desc} {n : ℕ} {ds : List Desc} (h : Tracks base n) :
    (appendDescriptions base ds).ok = true ↔ NeverZero n ds := by
  induction ds generalizing base n with
  | nil => exact iff_of_true rfl (neverZero_nil n)
  | cons d ds ih =>
    by_cases hd : jfsMlgValidDesc d = true
    · obtain ⟨h₁, -, -, hok⟩ := jfsMlgAppend_spec h hd
      rw [appendDescriptions_cons_ok hd, neverZero_cons hd, Bool.and_eq_true, hok, ih h₁, Nat.dvd_iff_mod_eq_zero]
    · simp only [Bool.not_eq_true] at hd
      refine iff_of_true ?_ (neverZero_cons_of_invalid hd)
      simp [appendDescriptions, hd]

theorem offsets_length {n : ℕ} {ds : List Desc} {offsets : List UInt64}
    (h : offsets.map UInt64.toNat = (place n (ds.map Desc.extent)).map fun r => r.start % 2 ^ 64) :
    offsets.length = ds.length := by
  have hlen := congrArg List.length h
  rw [List.length_map, List.length_map, ← List.length_map (f := Region.toExtent), place_extents,
    List.length_map] at hlen
  exact hlen

/-! ### The whole function -/

/-- The second loop fills in the component list. An assertion fails if an offset is `0`. -/
theorem fillComponents_spec {memory : Addr} {ds : List Desc} {offsets : List UInt64}
    (hlen : offsets.length = ds.length) :
    (fillComponents memory ds offsets).val = List.zipWith (fun d o => ⟨memory + o, d⟩) ds offsets ∧
      ((∀ o ∈ offsets, o.toNat ≠ 0) → (fillComponents memory ds offsets).ok = true) := by
  induction ds generalizing offsets with
  | nil => simp [fillComponents]
  | cons d ds ih =>
    cases offsets with
    | nil => simp at hlen
    | cons o offsets =>
      obtain ⟨hval, hok⟩ := ih (by simpa using hlen)
      constructor
      · simp only [fillComponents, Checked.val_bind, hval, List.zipWith_cons_cons]
        rfl
      · intro h
        have ho : 0 < o := UInt64.lt_iff_toNat_lt.mpr (Nat.pos_of_ne_zero (h o (List.mem_cons_self ..)))
        have hrest := hok fun x hx => h x (List.mem_cons_of_mem _ hx)
        simp [fillComponents, jfsMlgApplyOffset, ho, hrest]

/-- `jfs_mlg_memory_init` from where the offsets of the component list and of the header
are known. -/
def memoryInitFrom (malloc : UInt64 → Bool) (posixMemalign : UInt64 → UInt64 → Option Addr) (layout : Layout)
    (memoryDesc : Desc) (componentListOffset headerOffset : UInt64) : Checked (Except JfsErr Memory) := do
  if !malloc (sizeofUintptr * layout.descriptionsCount) then return .error .sys
  match ← appendDescriptions memoryDesc layout.descriptions with
  | .error e => return .error e
  | .ok (memoryDesc, componentOffsets) =>
    match posixMemalign memoryDesc.align memoryDesc.size with
    | none => return .error .sys
    | some memory =>
      let componentList ← jfsMlgApplyOffset memory componentListOffset
      let header ← jfsMlgApplyOffset memory headerOffset
      let components ← fillComponents memory layout.descriptions componentOffsets
      return .ok { addr := memory, blockSize := memoryDesc.size, componentList := componentList,
                   componentCount := layout.descriptionsCount, header := header,
                   components := components }

theorem jfsMlgMemoryInit_eq {malloc : UInt64 → Bool} {posixMemalign : UInt64 → UInt64 → Option Addr} {L : Layout}
    (hh : jfsMlgValidDesc L.headerDesc = true) :
    jfsMlgMemoryInit malloc posixMemalign L = (do
      let list ← jfsMlgAppend memoryStructDesc L.componentListDesc
      let header ← jfsMlgAppend list.1 L.headerDesc
      memoryInitFrom malloc posixMemalign L header.1 list.2 header.2) := by
  rw [jfsMlgMemoryInit, hh]
  rfl

theorem Layout.componentListDesc_valid {L : Layout} (hne : L.descriptions ≠ []) :
    jfsMlgValidDesc L.componentListDesc = true := by
  refine validDesc_iff.mpr ⟨?_, ?_, ?_⟩
  · show jfsMlgValidAlign alignofComponent = true
    decide
  · show (0 : UInt64) < sizeofComponent
    decide
  · rw [UInt64.lt_iff_toNat_lt]
    show 0 < L.descriptionsCount.toNat
    rw [L.toNat_descriptionsCount]
    exact List.length_pos_of_ne_nil hne

/-- What comes before the loop: no assertion fails if there is a component. -/
theorem front_spec {L : Layout} (hh : jfsMlgValidDesc L.headerDesc = true) (hne : L.descriptions ≠ []) :
    ∃ base headerOffset, Tracks base (L.totalOf []) ∧ base.align = L.front.foldl maxAlign alignofMemory ∧
      headerOffset.toNat = roundUp (24 + 32 * L.descriptions.length) L.headerDesc.align.toNat % 2 ^ 64 ∧
        ∀ malloc posixMemalign, jfsMlgMemoryInit malloc posixMemalign L =
          memoryInitFrom malloc posixMemalign L base 24 headerOffset := by
  have h₀ : Tracks memoryStructDesc 24 := ⟨rfl, by decide, by decide⟩
  obtain ⟨h₁, ha₁, ho₁, hok₁⟩ := jfsMlgAppend_spec h₀ (Layout.componentListDesc_valid hne)
  rw [L.componentListDesc_extent] at h₁ ho₁
  have h24 : roundUp 24 8 = 24 := rfl
  simp only [h24] at h₁ ho₁
  obtain ⟨h₂, ha₂, ho₂, hok₂⟩ := jfsMlgAppend_spec h₁ hh
  refine ⟨(jfsMlgAppend (jfsMlgAppend memoryStructDesc L.componentListDesc).val.1 L.headerDesc).val.1,
    (jfsMlgAppend (jfsMlgAppend memoryStructDesc L.componentListDesc).val.1 L.headerDesc).val.2,
    ?_, ?_, ho₂, fun malloc posixMemalign => ?_⟩
  · rw [L.totalOf_nil]
    exact h₂
  · rw [ha₂, ha₁]
    rfl
  · have hoff : (jfsMlgAppend memoryStructDesc L.componentListDesc).val.2 = 24 := UInt64.toNat_inj.mp ho₁
    rw [jfsMlgMemoryInit_eq hh]
    have ok₁ : (jfsMlgAppend memoryStructDesc L.componentListDesc).ok = true := hok₁.mpr (by decide)
    have ok₂ := hok₂.mpr (by omega)
    apply Checked.ext
    · rw [Checked.val_bind, Checked.val_bind, hoff]
    · rw [Checked.ok_bind, Checked.ok_bind, hoff, ok₁, ok₂, Bool.true_and, Bool.true_and]

/-- The memory at an address, with the header and the components at these offsets. -/
def Layout.memoryAt (L : Layout) (memory : Addr) (size headerOffset : UInt64) (offsets : List UInt64) : Memory :=
  { addr := memory, blockSize := size, componentList := memory + 24, componentCount := L.descriptionsCount
    header := memory + headerOffset
    components := List.zipWith (fun d o => ⟨memory + o, d⟩) L.descriptions offsets }

section From

variable {malloc : UInt64 → Bool} {posixMemalign : UInt64 → UInt64 → Option Addr} {L : Layout} {base : Desc}
  {headerOffset : UInt64} {n : ℕ}

/-- The first allocation fails. -/
theorem memoryInitFrom_sys (hmalloc : malloc (sizeofUintptr * L.descriptionsCount) = false) :
    memoryInitFrom malloc posixMemalign L base 24 headerOffset = ⟨.error .sys, true⟩ := by
  rw [memoryInitFrom, hmalloc]
  rfl

/-- No assertion fails after the first allocation unless one fails before. -/
theorem memoryInitFrom_ok_loop (hmalloc : malloc (sizeofUintptr * L.descriptionsCount) = true)
    (h : (memoryInitFrom malloc posixMemalign L base 24 headerOffset).ok = true) :
    (appendDescriptions base L.descriptions).ok = true := by
  rw [memoryInitFrom, hmalloc] at h
  simp only [Bool.not_true, Bool.false_eq_true, if_false, Checked.ok_bind, Bool.and_eq_true] at h
  exact h.1

/-- A description is not valid. -/
theorem memoryInitFrom_badConf (hmalloc : malloc (sizeofUintptr * L.descriptionsCount) = true)
    (h : ∃ d ∈ L.descriptions, jfsMlgValidDesc d = false) :
    (memoryInitFrom malloc posixMemalign L base 24 headerOffset).val = .error .badConf ∧
      (memoryInitFrom malloc posixMemalign L base 24 headerOffset).ok =
        (appendDescriptions base L.descriptions).ok := by
  rw [memoryInitFrom, hmalloc]
  simp only [Bool.not_true, Bool.false_eq_true, if_false, Checked.val_bind, Checked.ok_bind,
    appendDescriptions_error h, Checked.val_pure, Checked.ok_pure, Bool.and_true, and_self]

/-- Every description is valid: what happens after the loop. -/
theorem memoryInitFrom_valid (malloc : UInt64 → Bool) (posixMemalign : UInt64 → UInt64 → Option Addr)
    (headerOffset : UInt64) (hbase : Tracks base n) (hds : ∀ d ∈ L.descriptions, jfsMlgValidDesc d = true)
    (hmalloc : malloc (sizeofUintptr * L.descriptionsCount) = true) :
    ∃ size offsets, size.toNat = packEnd n (L.descriptions.map Desc.extent) % 2 ^ 64 ∧
      offsets.map UInt64.toNat = (place n (L.descriptions.map Desc.extent)).map (fun r => r.start % 2 ^ 64) ∧
        (memoryInitFrom malloc posixMemalign L base 24 headerOffset).val =
          (match posixMemalign (L.descriptions.foldl maxAlign base.align) size with
          | none => .error .sys
          | some memory => .ok (L.memoryAt memory size headerOffset offsets)) ∧
        (NeverZero n L.descriptions → headerOffset.toNat ≠ 0 → (∀ o ∈ offsets, o.toNat ≠ 0) →
          (memoryInitFrom malloc posixMemalign L base 24 headerOffset).ok = true) := by
  obtain ⟨base', offsets, e, htracks, halign, hoffs⟩ := appendDescriptions_val hbase hds
  have hlen := offsets_length hoffs
  refine ⟨base'.size, offsets, htracks.size, hoffs, ?_, fun hzero hheader hpos => ?_⟩
  · rw [memoryInitFrom, hmalloc]
    simp only [Bool.not_true, Bool.false_eq_true, if_false, Checked.val_bind, e, halign]
    cases posixMemalign (L.descriptions.foldl maxAlign base.align) base'.size with
    | none => rfl
    | some memory =>
      simp only [Checked.val_bind, (fillComponents_spec hlen).1]
      rfl
  · rw [memoryInitFrom, hmalloc]
    simp only [Bool.not_true, Bool.false_eq_true, if_false, Checked.ok_bind, e, halign,
      (appendDescriptions_ok hbase).mpr hzero, Bool.true_and]
    cases posixMemalign (L.descriptions.foldl maxAlign base.align) base'.size with
    | none => rfl
    | some memory =>
      have hh : 0 < headerOffset := UInt64.lt_iff_toNat_lt.mpr (Nat.pos_of_ne_zero hheader)
      simp [jfsMlgApplyOffset, (fillComponents_spec hlen).2 hpos, hh]

end From

/-! ### Layouts that fit -/

/-- **A layout that can be laid out**: its descriptions are valid, there is a component, and
the exact total is a `size_t`. -/
structure Layout.Fits (L : Layout) : Prop where
  header : jfsMlgValidDesc L.headerDesc = true
  nonempty : L.descriptions ≠ []
  valid : ∀ d ∈ L.descriptions, jfsMlgValidDesc d = true
  total : L.total < 2 ^ 64

namespace Layout.Fits

variable {L : Layout}

theorem valid_all (h : L.Fits) : ∀ d ∈ L.front ++ L.descriptions, jfsMlgValidDesc d = true := by
  intro d hd
  simp only [Layout.front, List.cons_append, List.nil_append, List.mem_cons] at hd
  rcases hd with rfl | rfl | rfl | hd
  · rfl
  · exact Layout.componentListDesc_valid h.nonempty
  · exact h.header
  · exact h.valid d hd

theorem extent_pos (h : L.Fits) : ∀ x ∈ (L.front ++ L.descriptions).map Desc.extent, 0 < x.align ∧ 0 < x.size := by
  intro x hx
  obtain ⟨d, hd, rfl⟩ := List.mem_map.mp hx
  exact ⟨MemoryLayout.align_pos (h.valid_all d hd), MemoryLayout.size_pos (h.valid_all d hd)⟩

theorem align_pos (h : L.Fits) : ∀ x ∈ L.descriptions.map Desc.extent, 0 < x.align := by
  intro x hx
  refine (h.extent_pos x ?_).1
  rw [List.map_append]
  exact List.mem_append_right _ hx

/-- The size of what is in front of the components. -/
theorem totalOf_nil_pos (h : L.Fits) : 0 < L.totalOf [] := by
  rw [L.totalOf_nil]
  have := size_pos h.header
  omega

/-- No size of the loop is `0` modulo `2 ^ 64`. -/
theorem neverZero (h : L.Fits) : NeverZero (L.totalOf []) L.descriptions := by
  intro pre d post e _
  have hpos := h.align_pos
  have htotal := h.total
  rw [Layout.total, L.totalOf_eq, e, List.map_append, packEnd_append] at htotal
  rw [e, List.map_append] at hpos
  have h₁ := le_packEnd (n := L.totalOf []) fun x hx => hpos x (List.mem_append_left _ hx)
  have h₂ := le_packEnd (n := packEnd (L.totalOf []) (pre.map Desc.extent))
    fun x hx => hpos x (List.mem_append_right _ hx)
  have h₃ := h.totalOf_nil_pos
  intro hdvd
  have := Nat.le_of_dvd (by omega) hdvd
  omega

/-- The address of the block is aligned for every region. -/
theorem dvd_align (h : L.Fits) : ∀ x ∈ (L.front ++ L.descriptions).map Desc.extent, x.align ∣ L.align.toNat := by
  intro x hx
  obtain ⟨d, hd, rfl⟩ := List.mem_map.mp hx
  exact (foldl_maxAlign (by decide) h.valid_all).2 d hd

/-- Every region lies in the block, and is not empty. -/
theorem mem_regions (h : L.Fits) {r : Region} (hr : r ∈ place 0 ((L.front ++ L.descriptions).map Desc.extent)) :
    r.start < r.stop ∧ r.stop ≤ L.total := by
  have hsize : 0 < r.size := by
    have hm := List.mem_map_of_mem (f := Region.toExtent) hr
    rw [place_extents] at hm
    exact (h.extent_pos _ hm).2
  refine ⟨?_, (place_within (fun x hx => (h.extent_pos x hx).1) r hr).2⟩
  rw [Region.stop]
  omega

end Layout.Fits

/-- The region of a description at an address. -/
def Desc.region (d : Desc) (ptr : Addr) : Region := { d.extent with start := ptr.toNat }

/-- **The regions of the memory**: the struct, the component list, the header and the
components. -/
def Memory.regions (m : Memory) (headerDesc : Desc) : List Region :=
  memoryStructDesc.region m.addr ::
    { size := sizeofComponent, align := alignofComponent, count := m.componentCount : Desc }.region m.componentList ::
      headerDesc.region m.header :: m.components.map fun c => c.desc.region c.ptr

/-- An offset in the block, which does not wrap. -/
theorem region_add {d : Desc} {b o : Addr} {n : ℕ} (ho : o.toNat = n % 2 ^ 64) (hn : b.toNat + n < 2 ^ 64) :
    d.region (b + o) = Region.shift b.toNat { d.extent with start := n } := by
  rw [Nat.mod_eq_of_lt (by omega)] at ho
  simp only [Desc.region, Region.shift, UInt64.toNat_add, ho, Nat.mod_eq_of_lt hn]

theorem components_regions {b : Addr} {n : ℕ} {ds : List Desc} {offsets : List UInt64}
    (hoffs : offsets.map UInt64.toNat = (place n (ds.map Desc.extent)).map fun r => r.start % 2 ^ 64)
    (hfit : ∀ r ∈ place n (ds.map Desc.extent), b.toNat + r.start < 2 ^ 64) :
    (List.zipWith (fun d o => (⟨b + o, d⟩ : Component)) ds offsets).map (fun c => c.desc.region c.ptr) =
      (place n (ds.map Desc.extent)).map (Region.shift b.toNat) := by
  induction ds generalizing n offsets with
  | nil => rfl
  | cons d ds ih =>
    cases offsets with
    | nil => simp at hoffs
    | cons o offsets =>
      simp only [List.map_cons, place_cons, List.cons.injEq] at hoffs
      rw [List.map_cons, place_cons] at hfit
      obtain ⟨hd, hrest⟩ := List.forall_mem_cons.mp hfit
      rw [List.zipWith_cons_cons, List.map_cons, List.map_cons, place_cons, List.map_cons, ih hoffs.2 hrest,
        region_add hoffs.1 hd]

/-- The exact regions: those in front, and those of the components. -/
theorem Layout.place_eq (L : Layout) : place 0 ((L.front ++ L.descriptions).map Desc.extent) =
    place 0 (L.front.map Desc.extent) ++ place (L.totalOf []) (L.descriptions.map Desc.extent) := by
  rw [List.map_append, place_append, Layout.totalOf, List.append_nil]

/-- `jfs_mlg_memory_init` on a layout that fits, once the first allocation has succeeded. -/
theorem memoryInit_of_fits {malloc : UInt64 → Bool} {L : Layout} (posixMemalign : UInt64 → UInt64 → Option Addr)
    (h : L.Fits) (hmalloc : malloc (sizeofUintptr * L.descriptionsCount) = true) :
    ∃ headerOffset offsets,
      headerOffset.toNat = roundUp (24 + 32 * L.descriptions.length) L.headerDesc.align.toNat % 2 ^ 64 ∧
        offsets.map UInt64.toNat =
          (place (L.totalOf []) (L.descriptions.map Desc.extent)).map (fun r => r.start % 2 ^ 64) ∧
        jfsMlgMemoryInit malloc posixMemalign L =
          ⟨match posixMemalign L.align (UInt64.ofNat L.total) with
            | none => .error .sys
            | some memory => .ok (L.memoryAt memory (UInt64.ofNat L.total) headerOffset offsets), true⟩ := by
  obtain ⟨base, headerOffset, htracks, hba, hho, hinit⟩ := front_spec h.header h.nonempty
  obtain ⟨size, offsets, hsize, hoffs, hval, hok⟩ :=
    memoryInitFrom_valid malloc posixMemalign headerOffset htracks h.valid hmalloc
  have halign : L.descriptions.foldl maxAlign base.align = L.align := by
    rw [hba, Layout.align, List.foldl_append]
  have hsize' : size = UInt64.ofNat L.total := by
    rw [← UInt64.toNat_inj, hsize, UInt64.toNat_ofNat', Layout.total, L.totalOf_eq L.descriptions]
  rw [halign, hsize'] at hval
  refine ⟨headerOffset, offsets, hho, hoffs, ?_⟩
  rw [hinit]
  refine Checked.ext hval (hok h.neverZero ?_ ?_)
  · have hm := h.mem_regions (r := ⟨L.headerDesc.extent, roundUp (24 + 32 * L.descriptions.length)
      L.headerDesc.align.toNat⟩) (by rw [L.place_eq, L.place_front]; simp)
    have hle : 24 + 32 * L.descriptions.length ≤ _ := le_roundUp (align_pos h.header)
    have htotal := h.total
    rw [hho, Nat.mod_eq_of_lt (by simp only at hm; omega)]
    exact (lt_of_lt_of_le (by omega) hle).ne'
  · intro o ho
    have hm := List.mem_map_of_mem (f := UInt64.toNat) ho
    rw [hoffs] at hm
    obtain ⟨r, hr, e⟩ := List.mem_map.mp hm
    have hin := h.mem_regions (r := r) (by rw [L.place_eq]; exact List.mem_append_right _ hr)
    have hge := (place_within h.align_pos r hr).1
    have hpos := h.totalOf_nil_pos
    have htotal := h.total
    rw [← e, Nat.mod_eq_of_lt (by omega)]
    omega

/-- The regions of the memory are those of the packing, at the address of the block. -/
theorem Layout.Fits.regions_memoryAt {L : Layout} {b : Addr} {size headerOffset : UInt64} {offsets : List UInt64}
    (h : L.Fits) (hend : b.toNat + L.total ≤ 2 ^ 64)
    (hho : headerOffset.toNat = roundUp (24 + 32 * L.descriptions.length) L.headerDesc.align.toNat % 2 ^ 64)
    (hoffs : offsets.map UInt64.toNat =
      (place (L.totalOf []) (L.descriptions.map Desc.extent)).map fun r => r.start % 2 ^ 64) :
    (L.memoryAt b size headerOffset offsets).regions L.headerDesc =
      (place 0 ((L.front ++ L.descriptions).map Desc.extent)).map (Region.shift b.toNat) := by
  have hfit : ∀ r ∈ place 0 ((L.front ++ L.descriptions).map Desc.extent), b.toNat + r.start < 2 ^ 64 := by
    intro r hr
    have := h.mem_regions hr
    omega
  rw [L.place_eq, L.place_front] at hfit ⊢
  simp only [List.cons_append, List.nil_append, List.forall_mem_cons] at hfit
  obtain ⟨-, hlist, hheader, hrest⟩ := hfit
  have hlistRegion : L.componentListDesc.region (b + 24) =
      Region.shift b.toNat ⟨⟨32 * L.descriptions.length, 8⟩, 24⟩ := by
    rw [← L.componentListDesc_extent]
    exact region_add rfl hlist
  simp only [List.cons_append, List.nil_append, List.map_cons]
  rw [← hlistRegion, ← components_regions hoffs hrest, ← region_add hho hheader]
  rfl

/-- **What `jfs_mlg_memory_init` lays out**: for a layout that fits, and a block that is
aligned as requested and does not wrap, the regions have no byte in common, lie in
the block and are aligned, and the components carry their descriptions. No
assertion fails. -/
theorem memoryInit_regions {malloc : UInt64 → Bool} {posixMemalign : UInt64 → UInt64 → Option Addr} {L : Layout}
    {b : Addr} (h : L.Fits) (hmalloc : malloc (sizeofUintptr * L.descriptionsCount) = true)
    (halloc : posixMemalign L.align (UInt64.ofNat L.total) = some b) (halign : L.align.toNat ∣ b.toNat)
    (hend : b.toNat + L.total ≤ 2 ^ 64) :
    ∃ m, jfsMlgMemoryInit malloc posixMemalign L = ⟨.ok m, true⟩ ∧ m.addr = b ∧
      m.components.map Component.desc = L.descriptions ∧ m.blockSize.toNat = L.total ∧
        (m.regions L.headerDesc).Pairwise Region.Apart ∧ ∀ r ∈ m.regions L.headerDesc,
          r.align ∣ r.start ∧ b.toNat ≤ r.start ∧ r.stop ≤ b.toNat + m.blockSize.toNat := by
  obtain ⟨headerOffset, offsets, hho, hoffs, hinit⟩ := memoryInit_of_fits posixMemalign h hmalloc
  rw [halloc] at hinit
  have hblock : (L.memoryAt b (UInt64.ofNat L.total) headerOffset offsets).blockSize.toNat = L.total := by
    rw [Layout.memoryAt, UInt64.toNat_ofNat', Nat.mod_eq_of_lt h.total]
  refine ⟨_, hinit, rfl, ?_, hblock, ?_⟩
  · have hlen := offsets_length hoffs
    rw [Layout.memoryAt, List.map_zipWith, ← List.map_uncurry_zip_eq_zipWith]
    exact List.map_fst_zip hlen.ge
  · rw [hblock]
    rw [h.regions_memoryAt hend hho hoffs]
    have hpacked := shift_place (n := 0) (fun x hx => (h.extent_pos x hx).1)
      fun x hx => (h.dvd_align x hx).trans halign
    exact hpacked

/-- One component behind a header. -/
def smallLayout : Layout :=
  { descriptions := [⟨40, 16, 3⟩], headerDesc := ⟨5, 1, 1⟩, length_lt := by decide }

/-- The regions of a small layout in a block at 4096. -/
theorem smallLayout_regions :
    ∃ m, jfsMlgMemoryInit (fun _ => true) (fun _ _ => some 4096) smallLayout = ⟨.ok m, true⟩ ∧ m.addr = 4096 ∧
      m.components.map Component.desc = smallLayout.descriptions ∧ m.blockSize.toNat = smallLayout.total ∧
        (m.regions smallLayout.headerDesc).Pairwise Region.Apart ∧ ∀ r ∈ m.regions smallLayout.headerDesc,
          r.align ∣ r.start ∧ 4096 ≤ r.start ∧ r.stop ≤ 4096 + m.blockSize.toNat := by
  have hfits : smallLayout.Fits := ⟨by decide, by decide, by decide, by decide⟩
  exact memoryInit_regions hfits rfl rfl (by decide) (by decide)

/-! ### Layouts that do not fit -/

/-- **What is asked of `jfs_mlg_memory_init` on any layout**: no assertion fails, and it
returns `NULL` with an error set, or a block whose size is the exact total. -/
def SizeSafe (L : Layout) (r : Checked (Except JfsErr Memory)) : Prop :=
  r.ok = true ∧ match r.val with
    | .error e => e ≠ .ok
    | .ok m => m.blockSize.toNat = L.total

instance (L : Layout) (r : Checked (Except JfsErr Memory)) : Decidable (SizeSafe L r) :=
  match r with
  | ⟨.error e, ok⟩ => inferInstanceAs (Decidable (ok = true ∧ e ≠ .ok))
  | ⟨.ok m, ok⟩ => inferInstanceAs (Decidable (ok = true ∧ m.blockSize.toNat = L.total))

/-- The condition under which that is so: the header is not valid, or there is a
component, the exact total is a `size_t` if all descriptions are valid, and a
valid description is never appended to a size that is a multiple of `2 ^ 64`. -/
def Layout.NoWrap (L : Layout) : Prop :=
  jfsMlgValidDesc L.headerDesc = false ∨ L.descriptions ≠ [] ∧
    ((∀ d ∈ L.descriptions, jfsMlgValidDesc d = true) → L.total < 2 ^ 64) ∧
      ∀ pre d post, L.descriptions = pre ++ d :: post → (∀ x ∈ pre ++ [d], jfsMlgValidDesc x = true) →
        ¬ 2 ^ 64 ∣ L.totalOf pre

theorem Layout.neverZero_iff (L : Layout) : NeverZero (L.totalOf []) L.descriptions ↔
    ∀ pre d post, L.descriptions = pre ++ d :: post → (∀ x ∈ pre ++ [d], jfsMlgValidDesc x = true) →
      ¬ 2 ^ 64 ∣ L.totalOf pre := by
  unfold NeverZero
  simp only [← L.totalOf_eq]

/-- An assertion fails on a layout without components. -/
theorem memoryInit_empty {L : Layout} {malloc : UInt64 → Bool} {posixMemalign : UInt64 → UInt64 → Option Addr}
    (hh : jfsMlgValidDesc L.headerDesc = true) (h : L.descriptions = []) :
    (jfsMlgMemoryInit malloc posixMemalign L).ok = false := by
  have hinvalid : jfsMlgValidDesc L.componentListDesc = false := by
    have hc : L.descriptionsCount = 0 := by rw [Layout.descriptionsCount, h]; rfl
    rw [Layout.componentListDesc, hc]
    decide
  rw [jfsMlgMemoryInit_eq hh, Checked.ok_bind]
  simp [jfsMlgAppend, hinvalid]

theorem sizeSafe_error {L : Layout} {e : JfsErr} (he : e ≠ .ok) : SizeSafe L ⟨.error e, true⟩ := ⟨rfl, he⟩

theorem memoryInit_badHeader {L : Layout} {malloc : UInt64 → Bool} {posixMemalign : UInt64 → UInt64 → Option Addr}
    (hh : jfsMlgValidDesc L.headerDesc = false) :
    jfsMlgMemoryInit malloc posixMemalign L = ⟨.error .badConf, true⟩ := by
  rw [jfsMlgMemoryInit, hh]
  rfl

/-- If the allocations succeed and the result is safe, the sizes did not wrap. -/
theorem noWrap_of_sizeSafe {L : Layout} (hh : jfsMlgValidDesc L.headerDesc = true)
    (h : SizeSafe L (jfsMlgMemoryInit (fun _ => true) (fun _ _ => some 4096) L)) : L.NoWrap := by
  have hne : L.descriptions ≠ [] := by
    intro he
    have hok := h.1
    rw [memoryInit_empty hh he] at hok
    cases hok
  obtain ⟨base, headerOffset, htracks, -, -, hinit⟩ := front_spec hh hne
  rw [hinit] at h
  refine .inr ⟨hne, fun hvalid => ?_, ?_⟩
  · obtain ⟨size, offsets, -, -, hval, -⟩ :=
      memoryInitFrom_valid (fun _ => true) (fun _ _ => some 4096) headerOffset htracks hvalid rfl
    have hsafe := h.2
    rw [hval] at hsafe
    have htotal : size.toNat = L.total := hsafe
    rw [← htotal]
    exact size.toNat_lt
  · rw [← L.neverZero_iff, ← appendDescriptions_ok htracks]
    exact memoryInitFrom_ok_loop rfl h.1

/-- **When `jfs_mlg_memory_init` is safe**: on every layout, whatever the allocations do, it
does what is asked of it exactly if the sizes do not wrap. -/
theorem memoryInit_sizeSafe_iff (L : Layout) :
    (∀ malloc posixMemalign, SizeSafe L (jfsMlgMemoryInit malloc posixMemalign L)) ↔ L.NoWrap := by
  by_cases hh : jfsMlgValidDesc L.headerDesc = true
  · refine ⟨fun h => noWrap_of_sizeSafe hh (h _ _), ?_⟩
    rintro (hinv | ⟨hne, htotal, hzero⟩) malloc posixMemalign
    · rw [hh] at hinv
      cases hinv
    obtain ⟨base, headerOffset, htracks, -, -, hinit⟩ := front_spec hh hne
    cases hmalloc : malloc (sizeofUintptr * L.descriptionsCount) with
    | false =>
      rw [hinit, memoryInitFrom_sys hmalloc]
      exact sizeSafe_error (by decide)
    | true =>
      by_cases hvalid : ∀ d ∈ L.descriptions, jfsMlgValidDesc d = true
      · have hfits : L.Fits := ⟨hh, hne, hvalid, htotal hvalid⟩
        obtain ⟨headerOffset', offsets, -, -, e⟩ := memoryInit_of_fits posixMemalign hfits hmalloc
        rw [e]
        cases posixMemalign L.align (UInt64.ofNat L.total) with
        | none => exact sizeSafe_error (by decide)
        | some memory =>
          refine ⟨rfl, ?_⟩
          show (UInt64.ofNat L.total).toNat = L.total
          rw [UInt64.toNat_ofNat', Nat.mod_eq_of_lt hfits.total]
      · have hinvalid : ∃ d ∈ L.descriptions, jfsMlgValidDesc d = false := by simpa using hvalid
        have hloop := (appendDescriptions_ok htracks).mpr (L.neverZero_iff.mpr hzero)
        rw [hinit]
        refine ⟨(memoryInitFrom_badConf hmalloc hinvalid).2.trans hloop, ?_⟩
        rw [(memoryInitFrom_badConf hmalloc hinvalid).1]
        show JfsErr.badConf ≠ .ok
        decide
  · simp only [Bool.not_eq_true] at hh
    refine iff_of_true (fun malloc posixMemalign => ?_) (.inl hh)
    rw [memoryInit_badHeader hh]
    exact sizeSafe_error (by decide)

/-- A layout without components, on which an assertion fails, and one whose size wraps:
`2 ^ 63` bytes twice, for which a block of 64 bytes is returned. -/
theorem memoryInit_not_sizeSafe :
    (∃ L : Layout, L.descriptions = [] ∧
      ¬ SizeSafe L (jfsMlgMemoryInit (fun _ => true) (fun _ _ => some 4096) L)) ∧
    (∃ L : Layout, L.descriptions = [⟨0x8000000000000000, 8, 2⟩] ∧
      ¬ SizeSafe L (jfsMlgMemoryInit (fun _ => true) (fun _ _ => some 4096) L)) := by
  constructor
  · exact ⟨⟨[], ⟨1, 1, 1⟩, by decide⟩, rfl, by decide +kernel⟩
  · exact ⟨⟨[⟨0x8000000000000000, 8, 2⟩], ⟨1, 1, 1⟩, by decide⟩, rfl, by decide +kernel⟩

end FileSync.MemoryLayout
