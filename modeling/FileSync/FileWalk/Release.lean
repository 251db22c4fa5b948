import FileSync.FileWalk.Ownership
import Mathlib.Algebra.Order.BigOperators.Group.List
import Mathlib.Data.Multiset.OrderedMonoid

/-!
# A walk gives back what it takes

Whatever fails, the blocks in use between two steps of a walk are those of its state and
those of the caller.
-/

namespace FileSync.FileWalk

open FileSync.Lib FileSync.FileIo Memory

variable {env : Env} {v : Vars} {B bs : Multiset Block}

/-! ### The variables of a step -/

/-- The variables can be freed. -/
structure Vars.Ok (v : Vars) : Prop where
  state : v.state.IsBlock
  pathVec : VecOk PathOk v.pathVec
  dirVec : VecOk DirOk v.dirVec
  fileVec : v.fileVec.array.Ok OwnedFile.Ok
  path : v.path.ptr ≠ .uninit
  dir : v.dir.Ok

/-- The variables where a directory is read. -/
structure Vars.Reading (v : Vars) : Prop where
  state : v.state.IsBlock
  pathVec : VecOk PathOk v.pathVec
  dirVec : VecOk DirOk v.dirVec
  fileVec : VecOk OwnedFile.Ok v.fileVec
  path : PathOk v.path
  dir : v.dir = .zero

/-- The variables between two steps. -/
structure Vars.Idle (v : Vars) : Prop where
  state : v.state.IsBlock
  pathVec : VecOk PathOk v.pathVec
  dirVec : VecOk DirOk v.dirVec
  fileVec : v.fileVec = .zero
  path : v.path = zeroPath
  dir : v.dir = .zero
  sysDir : v.sysDir = none

theorem OwnedDir.ok_zero : OwnedDir.zero.Ok := ⟨Pointer.null_ne_uninit, rfl, ok_null⟩

theorem Vars.Reading.ok (h : v.Reading) : v.Ok :=
  ⟨h.state, h.pathVec, h.dirVec, h.fileVec.array, h.path.ptr.ne_uninit, h.dir ▸ OwnedDir.ok_zero⟩

theorem Vars.Idle.ok (h : v.Idle) : v.Ok :=
  ⟨h.state, h.pathVec, h.dirVec, h.fileVec ▸ ok_zero, h.path ▸ Pointer.null_ne_uninit, h.dir ▸ OwnedDir.ok_zero⟩

namespace Memory

theorem blocks_fileVec (v : Vars) (vec : OwnedVec OwnedFile) : ({ v with fileVec := vec } : Vars).blocks =
    vec.array.blocks OwnedFile.blocks + ({ v with fileVec := .zero } : Vars).blocks := by
  simp only [Vars.blocks, Owned.blocks, OwnedVec.zero, Pointer.blocks_null, List.map_nil, List.sum_nil]
  abel

theorem blocks_pathVec (v : Vars) (vec : OwnedVec (Owned Path)) : ({ v with pathVec := vec } : Vars).blocks =
    vec.array.blocks pathBlocks + ({ v with pathVec := .zero } : Vars).blocks := by
  simp only [Vars.blocks, Owned.blocks, OwnedVec.zero, Pointer.blocks_null, List.map_nil, List.sum_nil]
  abel

theorem blocks_dirVec (v : Vars) (vec : OwnedVec OwnedDir) : ({ v with dirVec := vec } : Vars).blocks =
    vec.array.blocks OwnedDir.blocks + ({ v with dirVec := .zero } : Vars).blocks := by
  simp only [Vars.blocks, Owned.blocks, OwnedVec.zero, Pointer.blocks_null, List.map_nil, List.sum_nil]
  abel

/-- The blocks of the variables are in use, and those of somebody else, and the files that have been read are
all right. -/
def Files (v : Vars) (B : Multiset Block) (m : Mem) : Prop :=
  ∃ vec, VecOk OwnedFile.Ok vec ∧ At { v with fileVec := vec } (({ v with fileVec := vec } : Vars).blocks + B) m

/-- **The loop of `fw_scan_dir`.** -/
theorem fwScanEntries_triple (ents : List Dirent) (h : VecOk OwnedFile.Ok v.fileVec) :
    Triple (At v (v.blocks + B)) (fwScanEntries env ents) (fun _ => Files v B) (Files v B) := by
  induction ents generalizing v with
  | nil => exact Triple.pure fun m hm => ⟨v.fileVec, h, hm⟩
  | cons ent ents ih =>
    have hfiles : ∀ m, At v (v.blocks + B) m → Files v B m := fun m hm => ⟨v.fileVec, h, hm⟩
    have hblocks : v.blocks + B = v.fileVec.array.blocks OwnedFile.blocks + (({ v with fileVec := .zero } : Vars).blocks + B) := by
      rw [← add_assoc, ← blocks_fileVec v v.fileVec]
    unfold fwScanEntries
    refine Triple.bind ((onStore_same (onSys_triple _)).conseq (fun _ => id) (fun _ _ => id) hfiles) fun _ => ?_
    refine Triple.ite (fun _ => ih h) fun _ => getVars_triple ?_
    rw [onStore_attempt, hblocks]
    refine (onStore_triple (fwHandleDirent_triple ent h)).attempt (fun vec => Triple.lift fun hvec => ?_) fun e => ?_
    · refine setVars_triple.bind fun _ => ?_
      rw [← add_assoc, ← blocks_fileVec]
      exact ih hvec
    · rw [← hblocks]
      refine Triple.ite (fun _ => ?_) fun _ => ?_
      · exact Triple.bind ((onStore_same (onSys_triple _)).conseq (fun _ => id) (fun _ _ => id) hfiles) fun _ => ih h
      · exact (onStore_same (onSys_triple _)).conseq (fun _ => id) (fun _ => hfiles) hfiles

theorem fwScanDir_triple (dir : Dir) (h : VecOk OwnedFile.Ok v.fileVec) :
    Triple (At v (v.blocks + B)) (fwScanDir env dir) (fun _ => Files v B) (Files v B) := by
  have hfiles : ∀ m, At v (v.blocks + B) m → Files v B m := fun m hm => ⟨v.fileVec, h, hm⟩
  refine Triple.bind ((onStore_same (onSys_triple _)).conseq (fun _ => id) (fun _ _ => id) hfiles) fun _ => ?_
  refine (fwScanEntries_triple _ h).bind fun _ => ?_
  rintro m ⟨vec, hvec, hm⟩
  have hpost : ∀ m, At { v with fileVec := vec } (({ v with fileVec := vec } : Vars).blocks + B) m → Files v B m :=
    fun m hm => ⟨vec, hvec, hm⟩
  exact (onStore_same (onSys_triple (readdirEnd env dir))).conseq (fun _ => id) (fun _ => hpost) hpost m hm

/-! ### The paths of the subdirectories -/

theorem pathStrLen_ne_zero {pathStr : CString} (h : pathStr ≠ []) : pathStrLen pathStr ≠ 0 := by
  have hpos := List.length_pos_of_ne_nil h
  unfold pathStrLen
  split_ifs <;> omega

/-- The blocks of the variables and of somebody else are in use, and the paths that are pending are all
right. -/
def Pending (v : Vars) (B : Multiset Block) (m : Mem) : Prop :=
  ∃ vec, VecOk PathOk vec ∧ At { v with pathVec := vec } (({ v with pathVec := vec } : Vars).blocks + B) m

/-- What always fails in the same way. -/
theorem attempt_failWith_triple {α β : Type} {e : JfsErr} {k : Except JfsErr α → OnMem β} {R : β → Mem → Prop} {E : Mem → Prop}
    (h : Triple (At v bs) (k (.error e)) R E) :
    Triple (At v bs) (onStore (onSys (failWith env e)).attempt >>= k) R E := by
  rintro m ⟨hv, hs⟩
  exact h { m with store.world := m.store.world.next env } ⟨hv, hs⟩

theorem attempt_pure_triple {α β : Type} {a : α} {k : Except JfsErr α → OnMem β} {R : β → Mem → Prop} {E : Mem → Prop}
    (h : Triple (At v bs) (k (.ok a)) R E) : Triple (At v bs) (onStore (onSys (pure a)).attempt >>= k) R E := h

/-- One directory of `fw_push_dir_paths`. -/
theorem fwPushDirPath_triple {buf : PathBuf} {dirPath : Owned Path} {name : Owned Name} (h : VecOk PathOk v.pathVec)
    (hpath : PathOk dirPath) (hname : name.ptr.IsBlock) (hple : dirPath.ptr.blocks ≤ v.blocks)
    (hnle : name.ptr.blocks ≤ v.blocks) :
    Triple (At v (v.blocks + B)) (fwPushDirPath env buf dirPath name) (fun _ => Pending v B) (Pending v B) := by
  have hpending : ∀ m, At v (v.blocks + B) m → Pending v B m := fun m hm => ⟨v.pathVec, h, hm⟩
  have hsame : ∀ {α : Type} {c : OnStore α}, Triple (Has (v.blocks + B)) c (fun _ => Has (v.blocks + B)) (Has (v.blocks + B)) →
      Triple (At v (v.blocks + B)) (onStore c) (fun _ => At v (v.blocks + B)) (Pending v B) :=
    fun hc => (onStore_same hc).conseq (fun _ => id) (fun _ _ => id) hpending
  unfold fwPushDirPath
  refine Triple.bind (hsame (touch_triple hpath.ptr (hple.trans (Multiset.le_add_right _ _)))) fun _ => ?_
  refine Triple.bind (hsame (touch_triple hname (hnle.trans (Multiset.le_add_right _ _)))) fun _ => ?_
  by_cases hover : PATH_MAX < dirPath.val.len + name.val.len + 1
  · have hc : jfsFioPathBufCompose env dirPath.val name.val = failWith env .fioPathOverflow := by
      unfold jfsFioPathBufCompose
      dsimp only
      rw [if_neg hpath.len, if_pos hover]
      rfl
    rw [hc]
    refine attempt_failWith_triple ?_
    exact Triple.bind (hsame (onSys_triple _)) fun _ => Triple.pure hpending
  · obtain ⟨composed, hc, hdata⟩ : ∃ buf, jfsFioPathBufCompose env dirPath.val name.val = pure buf ∧ buf.data ≠ [] := by
      refine ⟨⟨dirPath.val.len + name.val.len + 1, (dirPath.val.str ++ slash :: name.val.str).take PATH_MAX⟩, ?_, ?_⟩
      · unfold jfsFioPathBufCompose
        dsimp only
        rw [if_neg hpath.len, if_neg hover]
      · rw [Ne, List.take_eq_nil_iff]
        simp [PATH_MAX]
    rw [hc]
    refine attempt_pure_triple ?_
    refine Triple.bind ((onStore_triple (checkErr_triple (jfsFioPathInit_triple _))).conseq (fun _ => id) (fun _ _ => id)
      hpending) fun path => Triple.lift fun hinit => getVars_triple ?_
    have hok : PathOk path := ⟨hinit.1, hinit.2 ▸ pathStrLen_ne_zero hdata⟩
    have hblocks : pathBlocks path + (v.blocks + B) = v.pathVec.array.blocks pathBlocks +
        (pathBlocks path + (({ v with pathVec := .zero } : Vars).blocks + B)) := by
      have hv : v.blocks = _ := blocks_pathVec v v.pathVec
      rw [hv]
      abel
    rw [hblocks]
    refine (onStore_triple (vectorPush_triple h hok)).attempt (fun vec => Triple.lift fun hvec => ?_) fun e => ?_
    · refine setVars_triple.bind fun _ => Triple.pure fun m hm => ⟨vec, hvec, ?_⟩
      rw [← add_assoc, ← blocks_pathVec] at hm
      exact hm
    · -- the vector has not taken it
      rw [← hblocks]
      refine Triple.bind (onStore_frees (frees_path path hok.ptr.ne_uninit _)) fun _ => ?_
      exact (onStore_same (failWith_triple e)).conseq (fun _ => id) (fun _ => hpending) hpending

theorem le_path (v : Vars) : v.path.ptr.blocks ≤ v.blocks :=
  (Multiset.le_add_left _ _).trans (Multiset.le_add_right _ _)

theorem le_fileVec (v : Vars) : v.fileVec.array.blocks OwnedFile.blocks ≤ v.blocks :=
  (Multiset.le_add_left _ _).trans ((Multiset.le_add_right _ _).trans (Multiset.le_add_right _ _))

theorem le_fileArray (v : Vars) : v.fileVec.array.ptr.blocks ≤ v.blocks :=
  (Multiset.le_add_right _ _).trans (le_fileVec v)

theorem le_file (v : Vars) {file : OwnedFile} (h : file ∈ v.fileVec.array.val) : file.name.ptr.blocks ≤ v.blocks := by
  have hmem : file.blocks ∈ v.fileVec.array.val.map OwnedFile.blocks := List.mem_map_of_mem h
  have hsum : file.blocks ≤ (v.fileVec.array.val.map OwnedFile.blocks).sum := List.le_sum_of_mem hmem
  exact hsum.trans ((Multiset.le_add_left _ _).trans (le_fileVec v))

/-- **The loop of `fw_push_dir_paths`.** -/
theorem fwPushFrom_triple {files : List OwnedFile} {buf : PathBuf} (h : VecOk PathOk v.pathVec) (hpath : PathOk v.path)
    (hfileVec : VecOk OwnedFile.Ok v.fileVec) (hfiles : files ⊆ v.fileVec.array.val) :
    Triple (At v (v.blocks + B)) (fwPushFrom env v.path files buf) (fun _ => Pending v B) (Pending v B) := by
  induction files generalizing v buf with
  | nil => exact Triple.pure fun m hm => ⟨v.pathVec, h, hm⟩
  | cons file files ih =>
    obtain ⟨hfile, hfiles⟩ := List.cons_subset.mp hfiles
    have hpending : ∀ m, At v (v.blocks + B) m → Pending v B m := fun m hm => ⟨v.pathVec, h, hm⟩
    unfold fwPushFrom
    refine getVars_triple ?_
    refine Triple.bind ((onStore_same (touch_triple hfileVec.ptr ?_)).conseq (fun _ => id) (fun _ _ => id) hpending) fun _ => ?_
    · exact (le_fileArray v).trans (Multiset.le_add_right _ _)
    · refine Triple.ite (fun _ => ih h hpath hfileVec hfiles) fun _ => ?_
      refine (fwPushDirPath_triple h hpath (hfileVec.items file hfile) (le_path v) (le_file v hfile)).bind fun buf => ?_
      rintro m ⟨vec, hvec, hm⟩
      exact ih (v := { v with pathVec := vec }) hvec hpath hfileVec hfiles m hm

theorem fwPushDirPaths_triple (h : VecOk PathOk v.pathVec) (hpath : PathOk v.path) (hfileVec : VecOk OwnedFile.Ok v.fileVec) :
    Triple (At v (v.blocks + B)) (fwPushDirPaths env) (fun _ => Pending v B) (Pending v B) :=
  getVars_triple (fwPushFrom_triple h hpath hfileVec (List.Subset.refl _))

/-! ### One step -/

/-- The blocks in use are those of the variables, which are as `C` says, and those of somebody else. -/
def Owns (C : Vars → Prop) (B : Multiset Block) (m : Mem) : Prop := C m.vars ∧ Has (m.vars.blocks + B) m.store

section Owns

variable {C : Vars → Prop}

theorem Owns.of_at (h : C v) (m : Mem) (hm : At v (v.blocks + B) m) : Owns C B m := by
  obtain ⟨rfl, hs⟩ := hm
  exact ⟨h, hs⟩

theorem owns_triple {α : Type} {c : OnMem α} {Q : α → Mem → Prop} {E : Mem → Prop}
    (h : ∀ v, C v → Triple (At v (v.blocks + B)) c Q E) : Triple (Owns C B) c Q E :=
  fun m hm => h m.vars hm.1 m ⟨rfl, hm.2⟩

/-- What a computation on the blocks does where it fails with no block lost. -/
theorem onStore_owns {α : Type} {R : α → Prop} {f : α → Multiset Block} {c : OnStore α} (hv : C v)
    (h : Triple (Has (v.blocks + B)) c (fun a s => R a ∧ Has (f a) s) (Has (v.blocks + B))) :
    Triple (At v (v.blocks + B)) (onStore c) (fun a m => R a ∧ At v (f a) m) (Owns C B) :=
  (onStore_triple h).conseq (fun _ => id) (fun _ _ => id) (Owns.of_at hv)

end Owns

theorem fwDirInit_triple (h : v.Reading) : Triple (At v (v.blocks + B)) (fwDirInit env)
    (fun _ => Owns (fun v' => v'.Ok ∧ v'.dir.path.ptr.IsBlock ∧ v'.fileVec = .zero ∧ v'.path = zeroPath) B) (Owns Vars.Ok B) := by
  have hv : v.blocks + B = v.fileVec.array.blocks OwnedFile.blocks + (({ v with fileVec := .zero } : Vars).blocks + B) := by
    rw [← add_assoc, ← blocks_fileVec v v.fileVec]
  -- the directory has what the vector and the path had
  have hmoved : ∀ files : Owned (List OwnedFile), files.blocks OwnedFile.blocks + (({ v with fileVec := .zero } : Vars).blocks + B) =
      ({ v with fileVec := .zero, path := zeroPath, dir := { path := v.path, files := files, fileCount := v.fileVec.count } } : Vars).blocks
        + B := by
    intro files
    simp only [Vars.blocks, OwnedDir.blocks, h.dir, OwnedDir.zero, zeroPath, pathBlocks, Pointer.blocks_null, Owned.blocks,
      OwnedVec.zero, List.map_nil, List.sum_nil]
    abel
  unfold fwDirInit
  refine getVars_triple (Triple.ite (fun _ => ?_) fun hcount => ?_)
  · rw [hv]
    refine Triple.bind ((onStore_triple (checkErr_triple (vectorToArray_triple h.fileVec))).conseq (fun _ => id) (fun _ _ => id)
      fun m hm => ?_) fun files => Triple.lift fun hfiles => setVars_triple.conseq (fun _ => id) (fun _ m hm => ?_) fun _ => id
    · rw [← hv] at hm
      exact Owns.of_at h.ok m hm
    · rw [hmoved] at hm
      refine Owns.of_at ⟨⟨h.state, h.pathVec, h.dirVec, ok_zero, Pointer.null_ne_uninit, ?_⟩, h.path.ptr, rfl, rfl⟩ m hm
      exact ⟨h.path.ptr.ne_uninit, congrArg List.length hfiles.2.symm, .inl hfiles.1, hfiles.2 ▸ h.fileVec.items⟩
  · have hnil : v.fileVec.array.val = [] := List.eq_nil_of_length_eq_zero (Nat.eq_zero_of_not_pos hcount)
    rw [hv]
    refine Triple.bind (onStore_frees (frees_array frees_file _ h.fileVec.array _)) fun _ =>
      setVars_triple.conseq (fun _ => id) (fun _ m hm => ?_) fun _ => id
    have hnull := hmoved ⟨.null, []⟩
    rw [Owned.blocks, Pointer.blocks_null, List.map_nil, List.sum_nil, add_zero, zero_add] at hnull
    rw [hnull] at hm
    refine Owns.of_at ⟨⟨h.state, h.pathVec, h.dirVec, ok_zero, Pointer.null_ne_uninit, ?_⟩, h.path.ptr, rfl, rfl⟩ m hm
    exact ⟨h.path.ptr.ne_uninit, congrArg List.length hnil, ok_null⟩

/-- A path is taken from the stack, and its directory opened. -/
theorem fwOpen_triple {k : Dir → OnMem Unit} {Q : Unit → Mem → Prop} (hv : v.Idle)
    (hk : ∀ dir, Triple (Owns Vars.Reading B) (k dir) Q (Owns Vars.Ok B)) :
    Triple (At v (v.blocks + B)) (do
      let fileVec ← onStore (fwFileVectorInit env)
      setVars fun v => { v with fileVec := fileVec }
      let v ← getVars
      let (pathVec, path) ← onStore (fwPathVectorPop env v.pathVec)
      setVars fun v => { v with pathVec := pathVec, path := path }
      onStore (touch path.ptr)
      let sysDir ← onStore (onSys (jfsOpendir env path.val.str))
      setVars fun v => { v with sysDir := some sysDir }
      k sysDir) Q (Owns Vars.Ok B) := by
  refine Triple.bind (onStore_owns hv.ok (vectorInit_triple OwnedFile.Ok OwnedFile.blocks _)) fun fileVec => Triple.lift fun hfileVec => ?_
  refine setVars_triple.bind fun _ => getVars_triple ?_
  have hblocks : fileVec.array.blocks OwnedFile.blocks + (v.blocks + B) = fileVec.array.blocks OwnedFile.blocks +
      (({ v with fileVec := .zero } : Vars).blocks + B) := by
    rw [← hv.fileVec]
  have hok : ({ v with fileVec := fileVec } : Vars).Ok :=
    ⟨hv.state, hv.pathVec, hv.dirVec, hfileVec.1.array, hv.ok.path, hv.ok.dir⟩
  have hpop : ({ v with fileVec := fileVec } : Vars).blocks + B = v.pathVec.array.blocks pathBlocks +
      (({ v with fileVec := fileVec, pathVec := .zero } : Vars).blocks + B) := by
    rw [← add_assoc, ← blocks_pathVec { v with fileVec := fileVec } v.pathVec]
  rw [hblocks, ← add_assoc, ← blocks_fileVec, hpop]
  refine Triple.bind ((onStore_triple (fwPathVectorPop_triple hv.pathVec)).conseq (fun _ => id) (fun _ _ => id) fun m hm => ?_)
    fun r => Triple.lift fun hr => ?_
  · rw [← hpop] at hm
    exact Owns.of_at hok m hm
  obtain ⟨pathVec, path⟩ := r
  dsimp only at hr ⊢
  refine setVars_triple.bind fun _ => ?_
  have hreading : ({ v with fileVec := fileVec, pathVec := pathVec, path := path } : Vars).Reading :=
    ⟨hv.state, hr.1, hv.dirVec, hfileVec.1, hr.2, hv.dir⟩
  have hpopped : pathVec.array.blocks pathBlocks + (pathBlocks path +
      (({ v with fileVec := fileVec, pathVec := .zero } : Vars).blocks + B)) =
      ({ v with fileVec := fileVec, pathVec := pathVec, path := path } : Vars).blocks + B := by
    simp only [Vars.blocks, hv.path, zeroPath, pathBlocks, Pointer.blocks_null, Owned.blocks, OwnedVec.zero, List.map_nil,
      List.sum_nil]
    abel
  rw [hpopped]
  refine Triple.bind ((onStore_same (touch_triple hr.2.ptr ?_)).conseq (fun _ => id) (fun _ _ => id) (Owns.of_at hreading.ok))
    fun _ => ?_
  · exact (le_path { v with fileVec := fileVec, pathVec := pathVec, path := path }).trans (Multiset.le_add_right _ _)
  refine Triple.bind ((onStore_same (onSys_triple _)).conseq (fun _ => id) (fun _ _ => id) (Owns.of_at hreading.ok))
    fun sysDir => setVars_triple.bind fun _ => (hk sysDir).pre ?_
  exact Owns.of_at ⟨hv.state, hr.1, hv.dirVec, hfileVec.1, hr.2, hv.dir⟩

theorem fwScanDir_owns (dir : Dir) :
    Triple (Owns Vars.Reading B) (fwScanDir env dir) (fun _ => Owns Vars.Reading B) (Owns Vars.Reading B) := by
  refine owns_triple fun v hv => ?_
  have hfiles : ∀ m, Files v B m → Owns Vars.Reading B m := by
    rintro m ⟨vec, hvec, hm⟩
    exact Owns.of_at ⟨hv.state, hv.pathVec, hv.dirVec, hvec, hv.path, hv.dir⟩ m hm
  exact (fwScanDir_triple dir hv.fileVec).conseq (fun _ => id) (fun _ => hfiles) hfiles

theorem fwPushDirPaths_owns :
    Triple (Owns Vars.Reading B) (fwPushDirPaths env) (fun _ => Owns Vars.Reading B) (Owns Vars.Reading B) := by
  refine owns_triple fun v hv => ?_
  have hpending : ∀ m, Pending v B m → Owns Vars.Reading B m := by
    rintro m ⟨vec, hvec, hm⟩
    exact Owns.of_at ⟨hv.state, hvec, hv.dirVec, hv.fileVec, hv.path, hv.dir⟩ m hm
  exact (fwPushDirPaths_triple hv.pathVec hv.path hv.fileVec).conseq (fun _ => id) (fun _ => hpending) hpending

/-- The directory is recorded. -/
theorem fwRecord_triple (hv : v.Ok) (hdir : v.dir.path.ptr.IsBlock) (hfileVec : v.fileVec = .zero) (hpath : v.path = zeroPath) :
    Triple (At v (v.blocks + B)) (do
      let v ← getVars
      let dirVec ← onStore (fwDirVectorPush env v.dirVec v.dir)
      setVars fun v => { v with dirVec := dirVec, dir := .zero, sysDir := none })
      (fun _ => Owns Vars.Idle B) (Owns Vars.Ok B) := by
  have hpush : v.blocks + B = v.dirVec.array.blocks OwnedDir.blocks + (v.dir.blocks +
      (({ v with dirVec := .zero, dir := .zero } : Vars).blocks + B)) := by
    simp only [Vars.blocks, Owned.blocks, OwnedVec.zero, OwnedDir.blocks, OwnedDir.zero, zeroPath, pathBlocks,
      Pointer.blocks_null, List.map_nil, List.sum_nil]
    abel
  refine getVars_triple ?_
  rw [hpush]
  refine Triple.bind ((onStore_triple (vectorPush_triple hv.dirVec (DirOk.mk hv.dir hdir))).conseq (fun _ => id) (fun _ _ => id) fun m hm => ?_)
    fun dirVec => Triple.lift fun hdirVec => setVars_triple.conseq (fun _ => id) (fun _ m hm => ?_) fun _ => id
  · rw [← hpush] at hm
    exact Owns.of_at hv m hm
  · rw [← add_assoc, ← blocks_dirVec { v with dir := .zero } dirVec] at hm
    exact Owns.of_at ⟨hv.state, hv.pathVec, hdirVec, hfileVec, hpath, rfl, rfl⟩ m hm

/-- `jfs_fw_state_step` up to `cleanup`. -/
theorem fwStep_triple : Triple (Owns Vars.Idle B) (fwStep env) (fun _ => Owns Vars.Idle B) (Owns Vars.Ok B) := by
  have hreading : ∀ m, Owns Vars.Reading B m → Owns Vars.Ok B m := fun m hm => ⟨hm.1.ok, hm.2⟩
  refine owns_triple fun v hv => fwOpen_triple hv fun dir => ?_
  refine Triple.bind ((fwScanDir_owns dir).conseq (fun _ => id) (fun _ _ => id) hreading) fun _ => ?_
  refine Triple.bind (fwPushDirPaths_owns.conseq (fun _ => id) (fun _ _ => id) hreading) fun _ => ?_
  refine Triple.bind (owns_triple fun v hv => fwDirInit_triple hv) fun _ => ?_
  exact owns_triple fun v hv => fwRecord_triple hv.1 hv.2.1 hv.2.2.1 hv.2.2.2

/-- The label `cleanup` of `jfs_fw_state_step`. -/
theorem stepCleanup_triple {E : Mem → Prop} : Triple (Owns Vars.Ok B) stepCleanup (fun _ => Owns Vars.Idle B) E := by
  refine owns_triple fun v hv => getVars_triple ?_
  have hblocks : v.blocks + B = v.fileVec.array.blocks OwnedFile.blocks + (pathBlocks v.path + (v.dir.blocks +
      (({ v with fileVec := .zero, path := zeroPath, dir := .zero, sysDir := none } : Vars).blocks + B))) := by
    simp only [Vars.blocks, Owned.blocks, OwnedVec.zero, OwnedDir.blocks, OwnedDir.zero, zeroPath, pathBlocks,
      Pointer.blocks_null, List.map_nil, List.sum_nil]
    abel
  rw [hblocks]
  refine Triple.bind (onStore_frees (frees_array frees_file _ hv.fileVec _)) fun _ => ?_
  refine Triple.bind (onStore_frees (frees_path _ hv.path _)) fun _ => ?_
  refine Triple.bind (onStore_frees (frees_dir _ hv.dir _)) fun _ => ?_
  refine setVars_triple.conseq (fun _ => id) (fun _ => ?_) fun _ => id
  exact Owns.of_at ⟨hv.state, hv.pathVec, hv.dirVec, rfl, rfl, rfl, rfl⟩

/-- **One step**, whatever it returns. -/
theorem jfsFwStateStep_owns (env : Env) {m : Mem} (h : Owns Vars.Idle B m) :
    Owns Vars.Idle B (jfsFwStateStep env m).mem := by
  unfold jfsFwStateStep
  split_ifs
  · exact h
  · rcases hstep : fwStep env m with ⟨r, m'⟩
    cases r with
    | ok => exact fwStep_triple.ok h hstep
    | error e =>
      have hm' : Owns Vars.Ok B m' := fwStep_triple.error h hstep
      have hcleanup := stepCleanup_triple (E := fun _ => False) m' hm'
      show Owns Vars.Idle B (stepCleanup m').2
      rcases hr : stepCleanup m' with ⟨r, m''⟩
      rw [hr] at hcleanup
      cases r with
      | ok => exact hcleanup
      | error e => exact hcleanup.elim

end Memory

end FileSync.FileWalk
