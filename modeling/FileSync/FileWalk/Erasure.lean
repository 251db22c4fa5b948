import FileSync.FileWalk.Memory
import FileSync.Lib.Erasure

/-!
# A walk without its memory

What is left of the model with blocks if the blocks are forgotten is the model without them: each
function of `FileWalk.Memory` erases to the function of `FileWalk.Code` of the same name.
-/

namespace FileSync.FileWalk

open FileSync.Lib FileSync.FileIo

/-- A file without its block. -/
def OwnedFile.erase (file : OwnedFile) : FwFile := { type := file.type, name := file.name.val, inode := file.inode }

/-- A directory without its blocks. -/
def OwnedDir.erase (dir : OwnedDir) : FwDir :=
  { path := dir.path.val, files := dir.files.val.map OwnedFile.erase, fileCount := dir.fileCount }

/-- A record without its blocks. -/
def OwnedRecord.erase (record : OwnedRecord) : FwRecord :=
  { dirCount := record.dirCount, dirArray := record.dirArray.val.map OwnedDir.erase }

/-- A vector without its blocks. -/
def OwnedVec.erase {α β : Type} (g : α → β) (vec : OwnedVec α) : Vec β :=
  { items := vec.array.val.map g, capacity := vec.capacity }

/-- The state of a walk without its blocks. -/
def Vars.erase (v : Vars) : FwState := { pathVec := v.pathVec.erase Owned.val, dirVec := v.dirVec.erase OwnedDir.erase }

/-- Memory without the blocks. -/
def Mem.erase (m : Mem) : Walk := { world := m.store.world, state := m.vars.erase }

theorem OwnedVec.count_erase {α β : Type} (g : α → β) (vec : OwnedVec α) : (vec.erase g).count = vec.count :=
  List.length_map ..

namespace Memory

variable {env : Env} {s : Store}

/-! ### Blocks, paths and names -/

theorem erases_onSys {α : Type} (c : Sys α) : Erases Store.world (fun a _ => a) s (onSys c) c := by
  rw [Erases, onSys, Fallible.zoom_apply]
  rcases c s.world with ⟨r, w⟩
  cases r with
  | ok a => rfl
  | error e => rfl

theorem erases_checkErr {α β : Type} {f : α → β} {c : OnStore α} {c' : Sys β} (h : Erases Store.world (fun a _ => f a) s c c') :
    Erases Store.world (fun a _ => f a) s (checkErr env c) (FileIo.checkErr env c') := by
  refine h.attempt (fun a s' _ => Erases.pure rfl) fun e s' _ => ?_
  rfl

theorem erases_jfsMalloc : Erases Store.world (fun _ _ => ()) s (jfsMalloc env) (FileIo.jfsMalloc env) :=
  (erases_onSys _).andThen fun _ _ _ => ⟨_, _, rfl, rfl, rfl⟩

theorem erases_jfsRealloc (p : Pointer) : Erases Store.world (fun _ _ => ()) s (jfsRealloc env p) (FileIo.jfsRealloc env) :=
  (erases_onSys _).andThen fun _ _ _ => ⟨_, _, rfl, rfl, rfl⟩

theorem erases_jfsFioPathInit (pathStr : CString) :
    Erases Store.world (fun path _ => path.val) s (jfsFioPathInit env pathStr) (FileIo.jfsFioPathInit env pathStr) := by
  unfold jfsFioPathInit FileIo.jfsFioPathInit
  dsimp only
  refine Erases.ite Iff.rfl (fun _ => rfl) fun _ => ?_
  exact (erases_checkErr erases_jfsMalloc).bind fun _ _ _ => Erases.pure rfl

theorem erases_jfsFioNameInit (nameStr : CString) :
    Erases Store.world (fun name _ => name.val) s (jfsFioNameInit env nameStr) (FileIo.jfsFioNameInit env nameStr) := by
  unfold jfsFioNameInit FileIo.jfsFioNameInit
  refine Erases.ite Iff.rfl (fun _ => rfl) fun _ => ?_
  exact (erases_checkErr erases_jfsMalloc).bind fun _ _ _ => Erases.pure rfl

/-! ### Vectors -/

section Vectors

variable {α β : Type} {g : α → β}

theorem erases_vectorInit (g : α → β) (capacity : ℕ) :
    Erases Store.world (fun vec _ => vec.erase g) s (vectorInit capacity env) (FileWalk.vectorInit capacity env) :=
  (erases_checkErr erases_jfsMalloc).bind fun _ _ _ => Erases.pure rfl

theorem erases_vectorPush (g : α → β) (vec : OwnedVec α) (item : α) : Erases Store.world (fun vec _ => vec.erase g) s
    (vectorPush env vec item) (FileWalk.vectorPush env (vec.erase g) (g item)) := by
  have happend : vec.array.val.map g ++ [g item] = (vec.array.val ++ [item]).map g := by rw [List.map_append]; rfl
  unfold vectorPush FileWalk.vectorPush
  refine Erases.ite (by rw [OwnedVec.count_erase]; rfl) (fun _ => ?_) fun _ => ?_
  · refine (erases_checkErr (erases_jfsRealloc _)).bind fun _ _ _ => Erases.pure ?_
    exact congrArg (Vec.mk · _) happend
  · refine Erases.silent rfl rfl (Erases.pure ?_)
    exact congrArg (Vec.mk · _) happend

theorem erases_vectorToArray (g : α → β) (vec : OwnedVec α) : Erases Store.world (fun array _ => array.val.map g) s
    (vectorToArray env vec) (FileWalk.vectorToArray env (vec.erase g)) := by
  unfold vectorToArray FileWalk.vectorToArray
  refine Erases.ite (by rw [OwnedVec.count_erase]) (fun _ => rfl) fun _ => ?_
  exact (erases_checkErr (erases_jfsRealloc _)).bind fun _ _ _ => Erases.pure rfl

end Vectors

theorem erases_fwPathVectorPop (vec : OwnedVec (Owned Path)) :
    Erases Store.world (fun r _ => (r.1.erase Owned.val, r.2.val)) s (fwPathVectorPop env vec)
      (FileWalk.fwPathVectorPop env (vec.erase Owned.val)) := by
  have hlast : (vec.erase Owned.val).items.getLast? = vec.array.val.getLast?.map Owned.val := List.getLast?_map
  unfold fwPathVectorPop FileWalk.fwPathVectorPop
  rw [hlast]
  cases vec.array.val.getLast? with
  | none => rfl
  | some path =>
    refine Erases.silent rfl rfl (Erases.pure ?_)
    exact congrArg (fun items => (Vec.mk items vec.capacity, path.val)) List.map_dropLast.symm

/-! ### Reading a directory -/

theorem erases_fwFileInit (ent : Dirent) :
    Erases Store.world (fun file _ => file.erase) s (fwFileInit env ent) (FileWalk.fwFileInit env ent) :=
  (erases_checkErr (f := id) (erases_onSys _)).bind fun _ _ _ =>
    (erases_checkErr (erases_jfsFioNameInit _)).bind fun _ _ _ => Erases.pure rfl

theorem erases_fwHandleDirent (ent : Dirent) (vec : OwnedVec OwnedFile) :
    Erases Store.world (fun vec _ => vec.erase OwnedFile.erase) s (fwHandleDirent env ent vec)
      (FileWalk.fwHandleDirent env ent (vec.erase OwnedFile.erase)) := by
  refine (erases_checkErr (erases_fwFileInit ent)).bind fun file _ _ => ?_
  refine (erases_vectorPush OwnedFile.erase vec file).attempt (fun vec _ _ => Erases.pure rfl) fun e _ _ => ?_
  exact Erases.silent rfl rfl rfl

/-- What the library sees of memory. -/
def Mem.world (m : Mem) : World := m.store.world

section Variables

variable {α β : Type} {m m' : Mem}

theorem onStore_vars {c : OnStore α} {r : Except JfsErr α} (h : onStore c m = (r, m')) : m'.vars = m.vars := by
  rw [onStore, Fallible.zoom_apply] at h
  have hm : m' = { m with store := (c m.store).2 } := (congrArg Prod.snd h).symm
  rw [hm]

theorem erases_onStore {f : α → β} {c : OnStore α} {c' : Sys β} (h : Erases Store.world (fun a _ => f a) m.store c c') :
    Erases Mem.world (fun a _ => f a) m (onStore c) c' := by
  rw [Erases, Mem.world, h, onStore, Fallible.zoom_apply]
  rcases c m.store with ⟨r, s⟩
  cases r with
  | ok a => rfl
  | error e => rfl

/-- A computation that leaves the state of the walk as it is. -/
theorem onWorld_of_world {f : α → Mem → β} {k : OnMem α} {c' : Sys β} (h : Erases Mem.world f m k c')
    (hv : (k m).2.vars.erase = m.vars.erase) : Erases Mem.erase f m k (onWorld c') := by
  have hc : c' m.store.world = eraseOutcome Mem.world f (k m) := h
  rw [Erases, FileWalk.onWorld, Fallible.zoom_apply]
  show ((c' m.store.world).1, Walk.mk (c' m.store.world).2 m.vars.erase) = _
  rw [hc]
  rcases hk : k m with ⟨r, m'⟩
  rw [hk] at hv
  cases r with
  | ok a => exact congrArg (fun st => (Except.ok (f a m'), Walk.mk m'.store.world st)) hv.symm
  | error e => exact congrArg (fun st => (Except.error e, Walk.mk m'.store.world st)) hv.symm

theorem erases_onWorld {f : α → β} {c : OnStore α} {c' : Sys β} (h : Erases Store.world (fun a _ => f a) m.store c c') :
    Erases Mem.erase (fun a _ => f a) m (onStore c) (onWorld c') :=
  onWorld_of_world (erases_onStore h) rfl

theorem getVars_erases {τ δ : Type} {π : Mem → τ} {g : α → Mem → δ} {k : Vars → OnMem α} {k' : Fallible τ JfsErr δ}
    (h : Erases π g m (k m.vars) k') : Erases π g m (getVars >>= k) k' := h

end Variables

/-- The loop of `fw_scan_dir`. -/
theorem erases_fwScanEntries (ents : List Dirent) (m : Mem) :
    Erases Mem.world (fun _ m' => m'.vars.fileVec.erase OwnedFile.erase) m (fwScanEntries env ents)
      (FileWalk.fwScanEntries env ents (m.vars.fileVec.erase OwnedFile.erase)) := by
  induction ents generalizing m with
  | nil => exact Erases.pure rfl
  | cons ent ents ih =>
    unfold fwScanEntries FileWalk.fwScanEntries
    refine Erases.bind (erases_onStore (f := id) (erases_onSys _)) fun _ m₁ hm₁ => ?_
    rw [← onStore_vars hm₁]
    refine Erases.ite Iff.rfl (fun _ => ih m₁) fun _ => getVars_erases ?_
    refine Erases.attempt (erases_onStore (erases_fwHandleDirent ent m₁.vars.fileVec)) (fun vec m₂ _ => ?_) fun e m₂ hm₂ => ?_
    · refine Erases.silent rfl rfl ?_
      exact ih { m₂ with vars := { m₂.vars with fileVec := vec } }
    · rw [← onStore_vars hm₂]
      refine Erases.ite Iff.rfl (fun _ => ?_) fun _ => rfl
      refine Erases.bind (erases_onStore (f := id) (erases_onSys _)) fun _ m₃ hm₃ => ?_
      rw [← onStore_vars hm₃]
      exact ih m₃

theorem readdirEnd_bind (dir : Dir) (vec : Vec FwFile) (w : World) : (do
    Fallible.modify fun w => { w with errno := dir.failure.getD w.errno }
    let w ← Fallible.get
    if w.errno ≠ 0 then failWith env .sys
    return vec : Sys (Vec FwFile)) w = (readdirEnd env dir >>= fun _ => pure vec) w := by
  rw [Fallible.modify_bind, Fallible.get_bind]
  by_cases h : dir.failure.getD w.errno = 0
  · have hend : readdirEnd env dir w = (.ok (), { w with errno := dir.failure.getD w.errno }) := by
      rw [readdirEnd, Fallible.modify_bind, Fallible.get_bind, if_neg (not_not.mpr h)]
      rfl
    rw [Fallible.bind_of_ok hend, if_neg (not_not.mpr h)]
  · have hend : readdirEnd env dir w = failWith env .sys { w with errno := dir.failure.getD w.errno } := by
      rw [readdirEnd, Fallible.modify_bind, Fallible.get_bind, if_pos h]
    rw [Fallible.bind_of_error hend, if_pos h]
    rfl

theorem erases_fwScanDir (dir : Dir) (m : Mem) :
    Erases Mem.world (fun _ m' => m'.vars.fileVec.erase OwnedFile.erase) m (fwScanDir env dir)
      (FileWalk.fwScanDir env dir (m.vars.fileVec.erase OwnedFile.erase)) := by
  unfold fwScanDir FileWalk.fwScanDir
  refine Erases.bind (erases_onStore (f := id) (erases_onSys _)) fun _ m₁ hm₁ => ?_
  rw [← onStore_vars hm₁]
  refine (erases_fwScanEntries dir.entries m₁).bind fun _ m₂ _ => ?_
  have hend := erases_onStore (f := id) (m := m₂) (erases_onSys (readdirEnd env dir))
  refine Erases.intro (fun _ m₃ hm₃ => ?_) fun e m₃ hm₃ => ?_
  · rw [readdirEnd_bind, Fallible.bind_of_ok (hend.ok hm₃), onStore_vars hm₃]
    rfl
  · rw [readdirEnd_bind, Fallible.bind_of_error (hend.error hm₃)]

/-! ### What stays as it is -/

/-- What `g` keeps of the variables stays as it is. -/
def Keeps {τ : Type} (g : Vars → τ) (m m' : Mem) : Prop := g m'.vars = g m.vars

section Keeps

variable {τ : Type} {g : Vars → τ}

theorem Keeps.refl (m : Mem) : Keeps g m m := rfl

theorem Keeps.trans {m₁ m₂ m₃ : Mem} (h : Keeps g m₁ m₂) (h' : Keeps g m₂ m₃) : Keeps g m₁ m₃ := Eq.trans h' h

theorem keeps_onStore {α : Type} (c : OnStore α) : Always (Keeps g) (onStore c) := fun _ => rfl

theorem keeps_setVars {f : Vars → Vars} (h : ∀ v, g (f v) = g v) : Always (Keeps g) (setVars f) := fun m => h m.vars

theorem keeps_getVars : Always (Keeps g) getVars := fun _ => rfl

end Keeps

theorem keeps_fwScanEntries (ents : List Dirent) :
    Always (Keeps fun v => (v.erase, v.path)) (fwScanEntries env ents) := by
  induction ents with
  | nil => exact always_pure Keeps.refl _
  | cons ent ents ih =>
    unfold fwScanEntries
    refine always_bind Keeps.trans (keeps_onStore _) fun _ => ?_
    split_ifs
    · exact ih
    refine always_bind Keeps.trans keeps_getVars fun v => always_bind Keeps.trans (keeps_onStore _) fun r => ?_
    cases r with
    | ok vec => exact always_bind Keeps.trans (keeps_setVars fun _ => rfl) fun _ => ih
    | error e =>
      dsimp only
      split_ifs
      · exact always_bind Keeps.trans (keeps_onStore _) fun _ => ih
      · exact keeps_onStore _

theorem keeps_fwScanDir (dir : Dir) : Always (Keeps fun v => (v.erase, v.path)) (fwScanDir env dir) :=
  always_bind Keeps.trans (keeps_onStore _) fun _ => always_bind Keeps.trans (keeps_fwScanEntries _) fun _ => keeps_onStore _

theorem keeps_fwPushDirPath (buf : PathBuf) (dirPath : Owned Path) (name : Owned Name) :
    Always (Keeps fun v => (v.path, v.fileVec)) (fwPushDirPath env buf dirPath name) := by
  unfold fwPushDirPath
  refine always_bind Keeps.trans (keeps_onStore _) fun _ => always_bind Keeps.trans (keeps_onStore _) fun _ =>
    always_bind Keeps.trans (keeps_onStore _) fun r => ?_
  split
  · exact always_bind Keeps.trans (keeps_onStore _) fun _ => always_pure Keeps.refl _
  · refine always_bind Keeps.trans (keeps_onStore _) fun r => ?_
    cases r with
    | ok path => exact keeps_onStore _
    | error e => exact keeps_onStore _
  · refine always_bind Keeps.trans (keeps_onStore _) fun path => always_bind Keeps.trans keeps_getVars fun v =>
      always_bind Keeps.trans (keeps_onStore _) fun r => ?_
    cases r with
    | ok vec => exact always_bind Keeps.trans (keeps_setVars fun _ => rfl) fun _ => always_pure Keeps.refl _
    | error e => exact always_bind Keeps.trans (keeps_onStore _) fun _ => keeps_onStore _

theorem keeps_fwPushFrom (dirPath : Owned Path) (files : List OwnedFile) (buf : PathBuf) :
    Always (Keeps fun v => (v.path, v.fileVec)) (fwPushFrom env dirPath files buf) := by
  induction files generalizing buf with
  | nil => exact always_pure Keeps.refl _
  | cons file files ih =>
    unfold fwPushFrom
    refine always_bind Keeps.trans keeps_getVars fun v => always_bind Keeps.trans (keeps_onStore _) fun _ => ?_
    split_ifs
    · exact ih buf
    · exact always_bind Keeps.trans (keeps_fwPushDirPath buf dirPath file.name) fun buf => ih buf

theorem keeps_fwPushDirPaths : Always (Keeps fun v => (v.path, v.fileVec)) (fwPushDirPaths env) :=
  always_bind Keeps.trans keeps_getVars fun _ => keeps_fwPushFrom _ _ _

theorem keeps_fwDirInit : Always (Keeps Vars.erase) (fwDirInit env) := by
  refine always_bind Keeps.trans keeps_getVars fun v => ?_
  split_ifs
  · exact always_bind Keeps.trans (keeps_onStore _) fun _ => keeps_setVars fun _ => rfl
  · exact always_bind Keeps.trans (keeps_onStore _) fun _ => keeps_setVars fun _ => rfl

/-! ### What is freed goes unseen -/

/-- It does not fail, and the library does not see it. -/
def Silent (c : OnStore Unit) : Prop := ∀ s, ∃ s', c s = (.ok (), s') ∧ s'.world = s.world

theorem silent_bind {c : OnStore Unit} {k : Unit → OnStore Unit} (hc : Silent c) (hk : Silent (k ())) : Silent (c >>= k) := by
  intro s
  obtain ⟨s', hs', hw'⟩ := hc s
  obtain ⟨s'', hs'', hw''⟩ := hk s'
  exact ⟨s'', by rw [Fallible.bind_of_ok hs', hs''], hw''.trans hw'⟩

theorem silent_free (p : Pointer) : Silent (free p) := fun _ => ⟨_, rfl, rfl⟩

theorem silent_touch (p : Pointer) : Silent (touch p) := fun _ => ⟨_, rfl, rfl⟩

theorem silent_pure : Silent (pure ()) := fun s => ⟨s, rfl, rfl⟩

theorem silent_freeEach {α : Type} {freeItem : α → OnStore Unit} (h : ∀ x, Silent (freeItem x)) (p : Pointer) (items : List α) :
    Silent (freeEach freeItem p items) := by
  induction items with
  | nil => exact silent_pure
  | cons x items ih => exact silent_bind (silent_touch p) (silent_bind (h x) ih)

theorem silent_freeArray {α : Type} {freeItem : α → OnStore Unit} (h : ∀ x, Silent (freeItem x)) (array : Owned (List α)) :
    Silent (freeArray freeItem array) := by
  unfold freeArray
  split_ifs
  · exact silent_bind (silent_freeEach h _ _) (silent_free _)
  · exact silent_pure

theorem silent_dirFree (dir : OwnedDir) : Silent (jfsFwDirFree dir) :=
  silent_bind (silent_freeArray (fun _ => silent_free _) _) (silent_free _)

/-- The walk with another store, of which the library sees the same. -/
theorem silent_onStore {c : OnStore Unit} (h : Silent c) (m : Mem) :
    ∃ m', onStore c m = (.ok (), m') ∧ m'.vars = m.vars ∧ Mem.world m' = Mem.world m := by
  obtain ⟨s', hs', hw⟩ := h m.store
  refine ⟨{ m with store := s' }, ?_, rfl, hw⟩
  rw [onStore, Fallible.zoom_apply, hs']

theorem Mem.erase_eq {m m' : Mem} (hv : m'.vars = m.vars) (hw : Mem.world m' = Mem.world m) : m'.erase = m.erase := by
  rw [Mem.erase, Mem.erase, hv]
  exact congrArg (Walk.mk · _) hw

/-! ### One step -/

section CheckErr

variable {α β γ δ : Type} {m : Mem}

theorem onWorld_checkErr_ok {c : Sys β} {w w' : Walk} {b : β} (h : onWorld c w = (.ok b, w')) :
    onWorld (FileIo.checkErr env c) w = (.ok b, w') := by
  rw [onWorld, Fallible.zoom_apply] at h ⊢
  rcases hc : c w.world with ⟨r, u⟩
  rw [hc] at h
  obtain rfl : r = .ok b := congrArg Prod.fst h
  have ha : c.attempt w.world = (.ok (.ok b), u) := by rw [Fallible.attempt_apply, hc]
  rw [FileIo.checkErr, Fallible.bind_of_ok ha]
  exact h

theorem onWorld_checkErr_error {c : Sys β} {w w' : Walk} {e : JfsErr} (h : onWorld c w = (.error e, w')) :
    onWorld (FileIo.checkErr env c) w = onWorld (failWith env e) w' := by
  rw [onWorld, Fallible.zoom_apply] at h
  rcases hc : c w.world with ⟨r, u⟩
  rw [hc] at h
  obtain rfl : r = .error e := congrArg Prod.fst h
  obtain rfl : { w with world := u } = w' := congrArg Prod.snd h
  have ha : c.attempt w.world = (.ok (.error e), u) := by rw [Fallible.attempt_apply, hc]
  rw [onWorld, Fallible.zoom_apply, FileIo.checkErr, Fallible.bind_of_ok ha]
  rfl

/-- Something is freed before `VOID_CHECK_ERR`. -/
theorem attempt_checkErr {f : α → β} {g : γ → Mem → δ} {c : OnMem α} {c' : Sys β} {k : Except JfsErr α → OnMem γ}
    {k' : β → OnWalk δ} (h : Erases Mem.erase (fun a _ => f a) m c (onWorld c'))
    (hok : ∀ a m', c m = (.ok a, m') → Erases Mem.erase g m' (k (.ok a)) (k' (f a)))
    (herror : ∀ e m', c m = (.error e, m') → Erases Mem.erase g m' (k (.error e)) (onWorld (failWith env e) >>= k')) :
    Erases Mem.erase g m (c.attempt >>= k) (onWorld (FileIo.checkErr env c') >>= k') := by
  rcases hr : c m with ⟨r, m'⟩
  have ha : c.attempt m = (.ok r, m') := by rw [Fallible.attempt_apply, hr]
  cases r with
  | ok a =>
    rw [Erases, Fallible.bind_of_ok (onWorld_checkErr_ok (h.ok hr)), Fallible.bind_of_ok ha]
    exact hok a m' hr
  | error e =>
    have hfail : (onWorld (failWith env e) : OnWalk β) m'.erase =
        (.error e, { m'.erase with world := m'.erase.world.next env }) := rfl
    have hk := herror e m' hr
    rw [Erases, Fallible.bind_of_error hfail] at hk
    rw [Erases, Fallible.bind_of_error ((onWorld_checkErr_error (h.error hr)).trans hfail), Fallible.bind_of_ok ha]
    exact hk

end CheckErr

theorem compose_error {path : Path} {name : Name} {w w' : World} {e : JfsErr}
    (h : jfsFioPathBufCompose env path name w = (.error e, w')) : e = .arg ∨ e = .fioPathOverflow := by
  unfold jfsFioPathBufCompose at h
  dsimp only at h
  by_cases hzero : path.len = 0
  · rw [if_pos hzero] at h
    exact .inl (Except.error.inj (congrArg Prod.fst h)).symm
  · rw [if_neg hzero] at h
    by_cases hlong : PATH_MAX < path.len + name.len + 1
    · rw [if_pos hlong] at h
      exact .inr (Except.error.inj (congrArg Prod.fst h)).symm
    · rw [if_neg hlong] at h
      cases h

theorem erases_fwPushDirPath (buf : PathBuf) (dirPath : Owned Path) (name : Owned Name) (m : Mem) :
    Erases Mem.erase (fun buf _ => buf) m (fwPushDirPath env buf dirPath name)
      (FileWalk.fwPushDirPath env buf dirPath.val name.val) := by
  have hcompose : ∀ s : Store, Erases Store.world (fun a _ => a) s (onSys (jfsFioPathBufCompose env dirPath.val name.val))
      (jfsFioPathBufCompose env dirPath.val name.val) := fun s => erases_onSys _
  unfold fwPushDirPath FileWalk.fwPushDirPath
  refine Erases.silent rfl rfl (Erases.silent rfl rfl ?_)
  refine Erases.attempt (erases_onWorld (f := id) (hcompose _)) (fun buf m₁ _ => ?_) fun e m₁ hm₁ => ?_
  · refine Erases.bind (erases_onWorld (erases_checkErr (erases_jfsFioPathInit _))) fun path m₂ _ => getVars_erases ?_
    refine attempt_checkErr (erases_onWorld (erases_vectorPush Owned.val m₂.vars.pathVec path)) (fun vec m₃ hm₃ => ?_)
      fun e m₃ _ => ?_
    · refine Erases.intro (fun a m₄ hm₄ => ?_) fun e m₄ hm₄ => ?_
      · obtain ⟨rfl, rfl⟩ : buf = a ∧ { m₃ with vars := { m₃.vars with pathVec := vec } } = m₄ := by
          cases hm₄
          exact ⟨rfl, rfl⟩
        rfl
      · cases hm₄
    · exact Erases.silent rfl rfl rfl
  · obtain rfl | rfl := compose_error ((erases_onStore (f := id) (hcompose _)).error hm₁)
    · exact Erases.attempt (erases_onWorld (erases_jfsFioPathInit buf.data)) (fun _ _ _ => rfl) fun _ _ _ => rfl
    · exact Erases.bind (erases_onWorld (f := id) (erases_onSys (logErr env))) fun _ _ _ => Erases.pure rfl

theorem erases_fwPushFrom (dirPath : Owned Path) (files : List OwnedFile) (buf : PathBuf) (m : Mem) :
    Erases Mem.erase (fun _ _ => ()) m (fwPushFrom env dirPath files buf)
      (FileWalk.fwPushFrom env dirPath.val (files.map OwnedFile.erase) buf) := by
  induction files generalizing buf m with
  | nil => exact Erases.pure rfl
  | cons file files ih =>
    unfold fwPushFrom
    refine getVars_erases (Erases.silent rfl rfl ?_)
    refine Erases.ite Iff.rfl (fun _ => ih buf _) fun _ => ?_
    exact (erases_fwPushDirPath buf dirPath file.name _).bind fun buf m₁ _ => ih buf m₁

theorem erases_fwPushDirPaths (m : Mem) : Erases Mem.erase (fun _ _ => ()) m (fwPushDirPaths env)
    (FileWalk.fwPushDirPaths env (m.vars.fileVec.erase OwnedFile.erase) m.vars.path.val) :=
  getVars_erases (erases_fwPushFrom _ _ _ m)

theorem erases_fwDirInit (m : Mem) : Erases Mem.world (fun _ m' => m'.vars.dir.erase) m (fwDirInit env)
    (FileWalk.fwDirInit env (m.vars.fileVec.erase OwnedFile.erase) m.vars.path.val) := by
  have hmoved : ∀ (m₁ : Mem) (files : Owned (List OwnedFile)), m₁.vars = m.vars →
      FwDir.mk m.vars.path.val (files.val.map OwnedFile.erase) (m.vars.fileVec.erase OwnedFile.erase).count =
        (OwnedDir.mk m₁.vars.path files m₁.vars.fileVec.count).erase := by
    intro m₁ files hv
    rw [hv, OwnedVec.count_erase]
    rfl
  refine getVars_erases (Erases.ite (by rw [OwnedVec.count_erase]) (fun _ => ?_) fun _ => ?_)
  · refine Erases.bind (erases_onStore (erases_checkErr (erases_vectorToArray OwnedFile.erase m.vars.fileVec)))
      fun files m₁ hm₁ => ?_
    rw [hmoved m₁ files (onStore_vars hm₁)]
    rfl
  · obtain ⟨m₁, hm₁, hv, hw⟩ := silent_onStore (silent_freeArray (fun _ => silent_free _) m.vars.fileVec.array) m
    refine Erases.silent hm₁ hw ?_
    have hnull : FwDir.mk m.vars.path.val [] _ = _ := hmoved m₁ ⟨.null, []⟩ hv
    rw [hnull]
    rfl

/-- `jfs_fw_state_step` from where the directory is open, up to `cleanup`. -/
theorem erases_fwRead (dir : Dir) (m : Mem) : Erases Mem.erase (fun _ _ => ()) m
    (do
      fwScanDir env dir
      fwPushDirPaths env
      fwDirInit env
      let v ← getVars
      let dirVec ← onStore (fwDirVectorPush env v.dirVec v.dir)
      setVars fun v => { v with dirVec := dirVec, dir := .zero, sysDir := none })
    (do
      let fileVec ← onWorld (FileWalk.fwScanDir env dir (m.vars.fileVec.erase OwnedFile.erase))
      FileWalk.fwPushDirPaths env fileVec m.vars.path.val
      let dir ← onWorld (FileWalk.fwDirInit env fileVec m.vars.path.val)
      let s ← Fallible.get
      let dirVec ← onWorld (FileWalk.fwDirVectorPush env s.state.dirVec dir)
      Fallible.modify fun s => { s with state.dirVec := dirVec }) := by
  have hkeeps : ((fwScanDir env dir m).2.vars.erase, (fwScanDir env dir m).2.vars.path) = (m.vars.erase, m.vars.path) :=
    keeps_fwScanDir dir m
  obtain ⟨hstate, hpath⟩ := Prod.mk.inj hkeeps
  refine Erases.bind (onWorld_of_world (erases_fwScanDir dir m) hstate) fun _ m₁ hm₁ => ?_
  rw [hm₁] at hpath
  rw [← hpath]
  refine (erases_fwPushDirPaths m₁).bind fun _ m₂ hm₂ => ?_
  have hkeeps : (m₂.vars.path, m₂.vars.fileVec) = (m₁.vars.path, m₁.vars.fileVec) := keeps_fwPushDirPaths.of_eq hm₂
  obtain ⟨hpath₂, hfileVec⟩ := Prod.mk.inj hkeeps
  rw [← hpath₂, ← hfileVec]
  refine Erases.bind (onWorld_of_world (erases_fwDirInit m₂) (keeps_fwDirInit m₂)) fun _ m₃ _ =>
    getVars_erases (Erases.get ?_)
  exact Erases.bind (erases_onWorld (erases_vectorPush OwnedDir.erase m₃.vars.dirVec m₃.vars.dir)) fun _ _ _ => rfl

/-- `jfs_fw_state_step` up to `cleanup`. -/
theorem erases_fwStep (m : Mem) : Erases Mem.erase (fun _ _ => ()) m (fwStep env) (FileWalk.fwStep env) := by
  unfold fwStep FileWalk.fwStep
  refine Erases.bind (erases_onWorld (erases_vectorInit OwnedFile.erase _)) fun fileVec m₁ hm₁ => ?_
  refine Erases.silent rfl rfl (getVars_erases (Erases.get ?_))
  refine Erases.bind (erases_onWorld (erases_fwPathVectorPop m₁.vars.pathVec)) fun r m₂ hm₂ => ?_
  obtain ⟨pathVec, path⟩ := r
  dsimp only
  refine Erases.bind (f := fun _ _ => ()) rfl fun _ m₃ hm₃ => Erases.silent rfl rfl ?_
  obtain rfl : { m₂ with vars := { m₂.vars with pathVec := pathVec, path := path } } = m₃ := congrArg Prod.snd hm₃
  refine Erases.bind (erases_onWorld (f := id) (erases_onSys (jfsOpendir env path.val.str))) fun sysDir m₄ hm₄ =>
    Erases.silent rfl rfl ?_
  have hvars : m₄.vars = { m₂.vars with pathVec := pathVec, path := path } := onStore_vars hm₄
  have hfileVec : m₄.vars.fileVec = fileVec := by rw [hvars, onStore_vars hm₂]
  have hpath : m₄.vars.path = path := by rw [hvars]
  rw [← hfileVec, ← hpath]
  exact erases_fwRead sysDir { m₄ with vars := { m₄.vars with sysDir := some sysDir } }

/-- The label `cleanup` of `jfs_fw_state_step`. -/
theorem stepCleanup_erase (m : Mem) : (stepCleanup m).2.erase = m.erase := by
  obtain ⟨m₁, hm₁, hv₁, hw₁⟩ := silent_onStore (silent_freeArray (fun _ => silent_free _) m.vars.fileVec.array) m
  obtain ⟨m₂, hm₂, hv₂, hw₂⟩ := silent_onStore (silent_free m.vars.path.ptr) m₁
  obtain ⟨m₃, hm₃, hv₃, hw₃⟩ := silent_onStore (silent_dirFree m.vars.dir) m₂
  have hvars : getVars m = (.ok m.vars, m) := rfl
  have hcleanup : stepCleanup m = setVars (fun v => { v with
      fileVec := .zero, path := zeroPath, dir := .zero, sysDir := none }) m₃ := by
    rw [stepCleanup, Fallible.bind_of_ok hvars]
    exact (Fallible.bind_of_ok hm₁).trans ((Fallible.bind_of_ok hm₂).trans (Fallible.bind_of_ok hm₃))
  rw [hcleanup, ← Mem.erase_eq (hv₃.trans (hv₂.trans hv₁)) (hw₃.trans (hw₂.trans hw₁))]
  rfl

/-- **One step**: what is left of it without the blocks. -/
theorem jfsFwStateStep_erase (env : Env) (m : Mem) : FileWalk.jfsFwStateStep env m.erase =
    { walk := (jfsFwStateStep env m).mem.erase, more := (jfsFwStateStep env m).more, err := (jfsFwStateStep env m).err } := by
  have hcount : ∀ m : Mem, m.erase.state.pathVec.count = m.vars.pathVec.count := fun m => OwnedVec.count_erase _ _
  unfold FileWalk.jfsFwStateStep jfsFwStateStep
  rw [hcount]
  by_cases hzero : m.vars.pathVec.count = 0
  · rw [if_pos hzero, if_pos hzero]
  · rw [if_neg hzero, if_neg hzero]
    rcases hstep : fwStep env m with ⟨r, m'⟩
    cases r with
    | ok u =>
      rw [(erases_fwStep m).ok hstep]
      dsimp only
      rw [hcount]
    | error e =>
      rw [(erases_fwStep m).error hstep]
      dsimp only
      rw [hcount, stepCleanup_erase]

/-! ### A whole walk -/

/-- How the loop ends, without the blocks. -/
def WalkEnd.erase (r : WalkEnd) : FileWalk.WalkEnd := { walk := r.mem.erase, err := r.err, cleanup := r.cleanup }

/-- The loop of `file_walk_test`. -/
theorem walkLoop_erase (env : Env) (fuel : ℕ) (m : Mem) :
    FileWalk.walkLoop env fuel m.erase = (walkLoop env fuel m).map WalkEnd.erase := by
  refine loop_map (fun m m' hturn => ?_) (fun m r hturn => ?_) fuel m
  · rw [FileWalk.walkTurn, jfsFwStateStep_erase]
    unfold walkTurn at hturn
    dsimp only at hturn ⊢
    split_ifs at hturn ⊢ <;> cases hturn
    · rfl
    · rfl
  · rw [FileWalk.walkTurn, jfsFwStateStep_erase]
    unfold walkTurn at hturn
    dsimp only at hturn ⊢
    split_ifs at hturn ⊢ <;> cases hturn
    · rfl
    · rfl

/-- `jfs_fw_state_create` up to `cleanup`. -/
theorem erases_fwCreate (start : Owned Path) (m : Mem) : Erases Mem.world (fun _ m' => m'.vars.erase) m (fwCreate env start)
    (FileWalk.jfsFwStateCreate env start.val) := by
  unfold fwCreate FileWalk.jfsFwStateCreate
  refine Erases.bind (erases_onStore erases_jfsMalloc) fun state m₁ _ => Erases.silent rfl rfl ?_
  refine Erases.bind (erases_onStore (erases_vectorInit Owned.val _)) fun pathVec m₂ _ => Erases.silent rfl rfl ?_
  refine Erases.bind (erases_onStore (erases_vectorInit OwnedDir.erase _)) fun dirVec m₃ _ =>
    Erases.silent rfl rfl (Erases.silent rfl rfl ?_)
  refine Erases.bind (erases_onStore (erases_jfsFioPathInit start.val.str)) fun path m₄ hm₄ => Erases.silent rfl rfl ?_
  refine Erases.bind (erases_onStore (erases_vectorPush Owned.val pathVec path)) fun pathVec m₅ hm₅ => ?_
  have hdirVec : m₅.vars.dirVec = dirVec := by
    rw [onStore_vars hm₅]
    exact congrArg Vars.dirVec (onStore_vars hm₄)
  rw [← hdirVec]
  rfl

theorem jfsFwStateCreate_erase {start : Owned Path} {m : Mem} {st : FwState} {w : World}
    (h : FileWalk.jfsFwStateCreate env start.val m.store.world = (.ok st, w)) :
    ∃ m', jfsFwStateCreate env start m = (.ok (), m') ∧ m'.erase = { world := w, state := st } := by
  rcases hcreate : fwCreate env start m with ⟨r, m'⟩
  have ha : (fwCreate env start).attempt m = (.ok r, m') := by rw [Fallible.attempt_apply, hcreate]
  cases r with
  | ok u =>
    have hplain := (erases_fwCreate start m).ok hcreate
    cases h.symm.trans hplain
    refine ⟨m', ?_, rfl⟩
    rw [jfsFwStateCreate, Fallible.bind_of_ok ha]
    rfl
  | error e =>
    have hplain := (erases_fwCreate start m).error hcreate
    cases h.symm.trans hplain

theorem silent_destroy (m : Mem) : ∃ m', jfsFwStateDestroy m = (.ok (), m') ∧ Mem.world m' = Mem.world m := by
  have hvars : getVars m = (.ok m.vars, m) := rfl
  rw [jfsFwStateDestroy, Fallible.bind_of_ok hvars]
  split_ifs
  · obtain ⟨m₁, hm₁, -, hw₁⟩ := silent_onStore (silent_freeArray (fun _ => silent_free _) m.vars.pathVec.array) m
    obtain ⟨m₂, hm₂, -, hw₂⟩ := silent_onStore (silent_freeArray silent_dirFree m.vars.dirVec.array) m₁
    obtain ⟨m₃, hm₃, -, hw₃⟩ := silent_onStore (silent_free m.vars.state) m₂
    refine ⟨_, (Fallible.bind_of_ok hm₁).trans ((Fallible.bind_of_ok hm₂).trans ((Fallible.bind_of_ok hm₃).trans rfl)), ?_⟩
    exact hw₃.trans (hw₂.trans hw₁)
  · exact ⟨m, rfl, rfl⟩

theorem erases_jfsFwRecordInit (m : Mem) : Erases Mem.world (fun record _ => record.erase) m (jfsFwRecordInit env)
    (FileWalk.jfsFwRecordInit env m.vars.erase) := by
  refine getVars_erases (Erases.ite (by rw [Vars.erase, OwnedVec.count_erase]) (fun _ => rfl) fun _ => ?_)
  refine Erases.bind (erases_onStore (erases_checkErr (erases_vectorToArray OwnedDir.erase m.vars.dirVec))) fun array m₁ hm₁ =>
    Erases.silent rfl rfl ?_
  obtain ⟨m₂, hm₂, hw⟩ := silent_destroy { m₁ with vars := { m₁.vars with dirVec := .zero } }
  refine Erases.silent hm₂ hw (Erases.pure ?_)
  rw [Vars.erase, OwnedVec.count_erase]
  rfl

end Memory

end FileSync.FileWalk
