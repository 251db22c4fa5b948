import FileSync.FileWalk.Plan

/-!
# The effect of a step

What `jfs_fw_state_create` and `jfs_fw_state_step` do in any environment. A step reads a
directory, pushes the subdirectories and records it. It goes through if the directory is
read (`Reads`) and all calls of its plan are served (`fwStep_complete`). If the directory
could not be read, at most the top path is gone (`fwStep_unread`); if a later allocation
fails, some subdirectories have been pushed (`fwStep_interrupted`).
-/

namespace FileSync.FileWalk

open FileSync.Lib FileSync.FileIo

/-! ### Creating the state -/

/-- The state that is created for a string. -/
def createdState (str : CString) : FwState where
  pathVec := { items := [initPath str], capacity := FW_PATH_VECTOR_DEFAULT_CAPACITY }
  dirVec := { items := [], capacity := FW_DIR_VECTOR_DEFAULT_CAPACITY }

theorem does_create (env : Env) {path : Path} (h : pathStrLen path.str ≤ PATH_MAX) :
    Does env (jfsFwStateCreate env path) [.alloc, .alloc, .alloc, .alloc] (createdState path.str) :=
  does_bind (does_allocate env) <| does_bind (does_vectorInit env _) <| does_bind (does_vectorInit env _) <|
    does_bind (does_pathInit env h) <| does_bind (does_vectorPush env _ _) (does_pure env _)

/-! ### Pushing the subdirectories -/

/-- The path that `fw_push_dir_paths` makes for an entry of the directory. -/
def childOf (dirPath : Path) (name : Name) : Path := initPath ((dirPath.str ++ slash :: name.str).take PATH_MAX)

/-- The name of an entry, as it is recorded. -/
def entryName (str : CString) : Name := { len := str.length, str := str }

/-- The paths that are pushed for some entries: subdirectories whose path is not too long. -/
def pushes (dirPath : Path) : List FwFile → List Path
  | [] => []
  | file :: rest =>
    if file.type = .reg ∨ PATH_MAX < dirPath.len + file.name.len + 1 then pushes dirPath rest
    else childOf dirPath file.name :: pushes dirPath rest

/-- The plan of the loop of `fw_push_dir_paths`. A path that is too long is logged twice. -/
def pushPlan (dirPath : Path) : List FwFile → Vec Path → List Call
  | [], _ => []
  | file :: rest, vec =>
    if file.type = .reg then pushPlan dirPath rest vec
    else if PATH_MAX < dirPath.len + file.name.len + 1 then .other :: .other :: pushPlan dirPath rest vec
    else .alloc :: vec.pushPlan ++ pushPlan dirPath rest (vec.pushed (childOf dirPath file.name))

section Pushing

variable {env : Env} {w : World} {dirPath : Path} {files : List FwFile}

/-- The path of an entry is made of the path of the directory, a slash and the name. -/
theorem childOf_eq {name : CString} (hne : name ≠ []) (hslash : slash ∉ name)
    (hlen : (childPath dirPath.str name).length ≤ PATH_MAX) :
    childOf dirPath (entryName name) = pathOf (childPath dirPath.str name) := by
  have hdata : (dirPath.str ++ slash :: name).take PATH_MAX = childPath dirPath.str name := List.take_of_length_le hlen
  rw [childOf, entryName, hdata, initPath, pathStrLen_childPath _ hne hslash, List.take_length]
  rfl

theorem pushes_append (dirPath : Path) (A B : List FwFile) :
    pushes dirPath (A ++ B) = pushes dirPath A ++ pushes dirPath B := by
  induction A with
  | nil => rfl
  | cons file A ih =>
    rw [List.cons_append, pushes, pushes, ih]
    split_ifs
    · rfl
    · rfl

theorem pushPlan_append (dirPath : Path) (A B : List FwFile) (vec : Vec Path) :
    pushPlan dirPath (A ++ B) vec =
      pushPlan dirPath A vec ++ pushPlan dirPath B ((pushes dirPath A).foldl Vec.pushed vec) := by
  induction A generalizing vec with
  | nil => rfl
  | cons file A ih =>
    rw [List.cons_append, pushPlan, pushPlan, pushes]
    by_cases hreg : file.type = .reg
    · rw [if_pos hreg, if_pos hreg, if_pos (.inl hreg), ih]
    · rw [if_neg hreg, if_neg hreg]
      by_cases hlong : PATH_MAX < dirPath.len + file.name.len + 1
      · rw [if_pos hlong, if_pos hlong, if_pos (.inr hlong), ih]
        rfl
      · rw [if_neg hlong, if_neg hlong, if_neg (not_or.mpr ⟨hreg, hlong⟩), ih, List.foldl_cons, List.append_assoc]

/-- A path that is pushed is made from an entry. -/
theorem exists_of_mem_pushes {dirPath p : Path} {files : List FwFile} (h : p ∈ pushes dirPath files) :
    ∃ file ∈ files, file.type ≠ .reg ∧ dirPath.len + file.name.len + 1 ≤ PATH_MAX ∧ p = childOf dirPath file.name := by
  induction files with
  | nil => simp [pushes] at h
  | cons file rest ih =>
    rw [pushes] at h
    by_cases hskip : file.type = .reg ∨ PATH_MAX < dirPath.len + file.name.len + 1
    · rw [if_pos hskip] at h
      obtain ⟨f, hf, hp⟩ := ih h
      exact ⟨f, List.mem_cons_of_mem _ hf, hp⟩
    · rw [if_neg hskip] at h
      rcases List.mem_cons.mp h with rfl | h
      · obtain ⟨hreg, hlong⟩ := not_or.mp hskip
        exact ⟨file, List.mem_cons_self .., hreg, Nat.not_lt.mp hlong, rfl⟩
      · obtain ⟨f, hf, hp⟩ := ih h
        exact ⟨f, List.mem_cons_of_mem _ hf, hp⟩

/-- A subdirectory with a path that is too long is dropped. -/
theorem pushDirPath_long (buf : PathBuf) (st : FwState) {name : Name} (h₀ : dirPath.len ≠ 0)
    (hlong : PATH_MAX < dirPath.len + name.len + 1) :
    fwPushDirPath env buf dirPath name ⟨w, st⟩ = (.ok buf, ⟨(w.next env).next env, st⟩) := by
  have hcompose : jfsFioPathBufCompose env dirPath name w = (.error .fioPathOverflow, w.next env) := by
    unfold jfsFioPathBufCompose
    simp only
    rw [if_neg h₀, if_pos hlong]
    rfl
  exact Fallible.bind_of_ok (onWorld_attempt (s := ⟨w, st⟩) hcompose)

/-- **A subdirectory is pushed**, or nothing is if an allocation fails. -/
theorem pushDirPath_short (env : Env) (w : World) (buf : PathBuf) (st : FwState) {name : Name} (h₀ : dirPath.len ≠ 0)
    (hshort : ¬ PATH_MAX < dirPath.len + name.len + 1) :
    (Served env w.calls (.alloc :: st.pathVec.pushPlan) → ∃ buf', fwPushDirPath env buf dirPath name ⟨w, st⟩ =
        (.ok buf', ⟨after env (.alloc :: st.pathVec.pushPlan : List Call).length w,
          { st with pathVec := st.pathVec.pushed (childOf dirPath name) }⟩)) ∧
      (¬ Served env w.calls (.alloc :: st.pathVec.pushPlan) → ∃ w', fwPushDirPath env buf dirPath name ⟨w, st⟩ =
        (.error .sys, ⟨w', st⟩)) := by
  generalize hbuf : ({ len := dirPath.len + name.len + 1
                       data := (dirPath.str ++ slash :: name.str).take PATH_MAX } : PathBuf) = buf'
  have hcompose : jfsFioPathBufCompose env dirPath name w = (.ok buf', w) := by
    unfold jfsFioPathBufCompose
    simp only
    rw [if_neg h₀, if_neg hshort, hbuf]
    rfl
  have hlen : pathStrLen buf'.data ≤ PATH_MAX := by
    rw [← hbuf]
    exact Nat.le_trans (pathStrLen_le _) (List.length_take_le ..)
  have hpath := does_checkErr (does_pathInit env hlen) w
  have hpush := does_checkErr (does_vectorPush env st.pathVec (childOf dirPath name)) (after env 1 w)
  rw [fwPushDirPath, Fallible.bind_of_ok (onWorld_attempt (s := ⟨w, st⟩) hcompose)]
  constructor
  · rintro ⟨ha, hs⟩
    refine ⟨buf', ?_⟩
    refine (Fallible.bind_of_ok (onWorld_eq (s := ⟨w, st⟩) (hpath.1 ⟨ha, trivial⟩))).trans ?_
    rw [Fallible.get_bind, ← hbuf]
    exact Fallible.bind_of_ok (onWorld_eq (s := ⟨after env 1 w, st⟩) (hpush.1 hs))
  · intro h
    by_cases ha : env.alloc w.calls = true
    · obtain ⟨w', e⟩ := hpush.2 fun hs => h ⟨ha, hs⟩
      refine ⟨w', (Fallible.bind_of_ok (onWorld_eq (s := ⟨w, st⟩) (hpath.1 ⟨ha, trivial⟩))).trans ?_⟩
      rw [Fallible.get_bind, ← hbuf]
      exact Fallible.bind_of_error (onWorld_eq (s := ⟨after env 1 w, st⟩) e)
    · obtain ⟨w', e⟩ := hpath.2 fun hs => ha hs.1
      exact ⟨w', Fallible.bind_of_error (onWorld_eq (s := ⟨w, st⟩) e)⟩

/-- An empty path has no subdirectories: the first one ends the loop. -/
theorem pushFrom_empty (h₀ : dirPath.len = 0) (hdirs : ¬ ∀ file ∈ files, file.type = .reg) (buf : PathBuf)
    (st : FwState) : ∃ e w', fwPushFrom env dirPath files buf ⟨w, st⟩ = (.error e, ⟨w', st⟩) := by
  induction files generalizing buf with
  | nil => simp at hdirs
  | cons file rest ih =>
    rw [fwPushFrom]
    by_cases hreg : file.type = .reg
    · rw [if_pos hreg]
      exact ih (fun h => hdirs (List.forall_mem_cons.mpr ⟨hreg, h⟩)) buf
    · rw [if_neg hreg]
      have hcompose : jfsFioPathBufCompose env dirPath file.name w = (.error .arg, w.next env) := by
        unfold jfsFioPathBufCompose
        rw [if_pos h₀]
        rfl
      obtain ⟨e, w', hpath⟩ : ∃ e w', fwPushDirPath env buf dirPath file.name ⟨w, st⟩ = (.error e, ⟨w', st⟩) := by
        rw [fwPushDirPath, Fallible.bind_of_ok (onWorld_attempt (s := ⟨w, st⟩) hcompose)]
        cases hinit : jfsFioPathInit env buf.data (w.next env) with
        | mk r w₁ =>
          have hattempt := onWorld_attempt (s := ⟨w.next env, st⟩) hinit
          cases r with
          | error e => exact ⟨e, _, Fallible.bind_of_ok hattempt⟩
          | ok path => exact ⟨.arg, _, Fallible.bind_of_ok hattempt⟩
      exact ⟨e, w', Fallible.bind_of_error hpath⟩

/-- One turn of the loop of `fw_push_dir_paths`. -/
theorem pushFrom_cons (env : Env) (w : World) {file : FwFile} (rest : List FwFile)
    (h₀ : dirPath.len = 0 → file.type = .reg) (buf : PathBuf) (st : FwState) :
    (Served env w.calls (pushPlan dirPath [file] st.pathVec) → ∃ buf',
        fwPushFrom env dirPath (file :: rest) buf ⟨w, st⟩ =
          fwPushFrom env dirPath rest buf' ⟨after env (pushPlan dirPath [file] st.pathVec).length w,
            { st with pathVec := (pushes dirPath [file]).foldl Vec.pushed st.pathVec }⟩) ∧
      (¬ Served env w.calls (pushPlan dirPath [file] st.pathVec) → ∃ w',
        fwPushFrom env dirPath (file :: rest) buf ⟨w, st⟩ = (.error .sys, ⟨w', st⟩)) := by
  rw [pushPlan, pushPlan, pushPlan, pushes, pushes, fwPushFrom, List.append_nil]
  by_cases hreg : file.type = .reg
  · rw [if_pos hreg, if_pos hreg, if_pos (.inl hreg)]
    exact ⟨fun _ => ⟨buf, rfl⟩, fun h => absurd trivial h⟩
  · have hne : dirPath.len ≠ 0 := fun h => hreg (h₀ h)
    rw [if_neg hreg, if_neg hreg]
    by_cases hlong : PATH_MAX < dirPath.len + file.name.len + 1
    · rw [if_pos hlong, if_pos (.inr hlong), Fallible.bind_of_ok (pushDirPath_long buf st hne hlong)]
      exact ⟨fun _ => ⟨buf, rfl⟩, fun h => absurd trivial h⟩
    · rw [if_neg hlong, if_neg (not_or.mpr ⟨hreg, hlong⟩)]
      obtain ⟨hok, herr⟩ := pushDirPath_short env w buf st hne hlong
      refine ⟨fun hs => ?_, fun hs => ?_⟩
      · obtain ⟨buf', e⟩ := hok hs
        exact ⟨buf', Fallible.bind_of_ok e⟩
      · obtain ⟨w', e⟩ := herr hs
        exact ⟨w', Fallible.bind_of_error e⟩

/-- **The loop of `fw_push_dir_paths`** pushes all paths if the calls are served. -/
theorem pushFrom_of_served (h₀ : dirPath.len = 0 → ∀ file ∈ files, file.type = .reg) (buf : PathBuf) (st : FwState)
    (hs : Served env w.calls (pushPlan dirPath files st.pathVec)) :
    fwPushFrom env dirPath files buf ⟨w, st⟩ = (.ok (), ⟨after env (pushPlan dirPath files st.pathVec).length w,
      { st with pathVec := (pushes dirPath files).foldl Vec.pushed st.pathVec }⟩) := by
  induction files generalizing buf st w with
  | nil => rfl
  | cons file rest ih =>
    rw [← List.singleton_append, pushPlan_append] at hs ⊢
    rw [pushes_append, List.foldl_append]
    obtain ⟨hfirst, hrest⟩ := served_append.mp hs
    obtain ⟨buf', e⟩ := (pushFrom_cons env w rest (fun h => (List.forall_mem_cons.mp (h₀ h)).1) buf st).1 hfirst
    rw [List.singleton_append, e, List.length_append, after_add]
    refine ih (fun h => (List.forall_mem_cons.mp (h₀ h)).2) buf' _ ?_
    rw [after_calls]
    exact hrest

/-- The loop stops at the first call that is not served. -/
theorem pushFrom_of_not_served (h₀ : dirPath.len = 0 → ∀ file ∈ files, file.type = .reg) (buf : PathBuf)
    (st : FwState) (hs : ¬ Served env w.calls (pushPlan dirPath files st.pathVec)) :
    ∃ A file B w', files = A ++ file :: B ∧ Served env w.calls (pushPlan dirPath A st.pathVec) ∧
      ¬ Served env w.calls (pushPlan dirPath (A ++ [file]) st.pathVec) ∧
        fwPushFrom env dirPath files buf ⟨w, st⟩ =
          (.error .sys, ⟨w', { st with pathVec := (pushes dirPath A).foldl Vec.pushed st.pathVec }⟩) := by
  induction files generalizing buf st w with
  | nil => exact absurd trivial hs
  | cons file rest ih =>
    obtain ⟨hok, herr⟩ := pushFrom_cons env w rest (fun h => (List.forall_mem_cons.mp (h₀ h)).1) buf st
    by_cases hfirst : Served env w.calls (pushPlan dirPath [file] st.pathVec)
    · obtain ⟨buf', e⟩ := hok hfirst
      rw [← List.singleton_append, pushPlan_append, served_append] at hs
      have hrest : ¬ Served env (after env (pushPlan dirPath [file] st.pathVec).length w).calls
          (pushPlan dirPath rest ((pushes dirPath [file]).foldl Vec.pushed st.pathVec)) := by
        rw [after_calls]
        exact fun hrest => hs ⟨hfirst, hrest⟩
      obtain ⟨A, f, B, w', rfl, hA, hf, e'⟩ := ih (fun h => (List.forall_mem_cons.mp (h₀ h)).2) buf'
        { st with pathVec := (pushes dirPath [file]).foldl Vec.pushed st.pathVec } hrest
      rw [after_calls] at hA hf
      refine ⟨file :: A, f, B, w', rfl, ?_, ?_, ?_⟩
      · rw [← List.singleton_append, pushPlan_append, served_append]
        exact ⟨hfirst, hA⟩
      · rw [List.cons_append, ← List.singleton_append, pushPlan_append, served_append]
        exact fun h => hf h.2
      · have hpushes : pushes dirPath (file :: A) = pushes dirPath [file] ++ pushes dirPath A :=
          pushes_append dirPath [file] A
        rw [e, e', hpushes, List.foldl_append]
    · obtain ⟨w', e⟩ := herr hfirst
      exact ⟨[], file, rest, w', rfl, trivial, hfirst, e⟩

end Pushing

/-! ### A step -/

/-- What `fw_file_vector_init` makes. -/
def emptyVec : Vec FwFile := { items := [], capacity := FW_FILE_VECTOR_DEFAULT_CAPACITY }

/-- What is recorded of a directory that could be read. -/
def dirFiles (dir : Dir) : List FwFile := dir.entries.filterMap fileOf

/-- What is recorded of an entry has the entry's name. -/
theorem exists_of_mem_dirFiles {dir : Dir} {file : FwFile} (h : file ∈ dirFiles dir) :
    ∃ ent ∈ dir.entries, fileOf ent = some file ∧ file.name = entryName ent.name := by
  obtain ⟨ent, hent, e⟩ := List.mem_filterMap.mp h
  obtain ⟨-, -, hfile⟩ := fileOf_eq_some e
  exact ⟨ent, hent, e, by rw [hfile]; rfl⟩

/-- The plan of a step up to `fw_push_dir_paths`: `file_vec` is allocated, the directory is
opened and scanned. -/
def readPlan (dir : Dir) : List Call := .alloc :: .other :: scanPlan dir.entries emptyVec

/-- The plan of a step after `fw_push_dir_paths`. -/
def recordPlan (files : List FwFile) (dirVec : Vec FwDir) : List Call :=
  (if files = [] then [] else [.alloc]) ++ dirVec.pushPlan

/-- The plan of a whole step, from where `pathVec` has lost its top path. -/
def stepPlan (dirPath : Path) (dir : Dir) (pathVec : Vec Path) (dirVec : Vec FwDir) : List Call :=
  readPlan dir ++ (pushPlan dirPath (dirFiles dir) pathVec ++ recordPlan (dirFiles dir) dirVec)

/-- **The step reads the directory**: it is opened, every entry is scanned and `errno` is
clear afterwards. If the path is empty, it has no subdirectories. -/
structure Reads (env : Env) (w : World) (dirPath : Path) (dir : Dir) : Prop where
  opened : env.opendir (w.calls + 1) dirPath.str = .ok dir
  scans : ∀ ent ∈ dir.entries, Scans ent
  errno : scanErrno env dir emptyVec (w.calls + 2) = 0
  served : Served env w.calls (readPlan dir)
  subdirs : dirPath.len = 0 → ∀ file ∈ dirFiles dir, file.type = .reg

/-- **Why the directory could not be read**: it cannot be opened, it has an entry that cannot
be scanned, the library fails, or the path is empty. -/
inductive Unread (env : Env) (w : World) (dirPath : Path) : JfsErr → Prop
  | opendir {errno : ℕ} : env.opendir (w.calls + 1) dirPath.str = .error errno → Unread env w dirPath (opendirErr errno)
  | entry {dir : Dir} {e : JfsErr} : env.opendir (w.calls + 1) dirPath.str = .ok dir →
      (¬ ∀ ent ∈ dir.entries, Scans ent) → e = .fwUnknown ∨ e = .fioNameLen ∨ e = .sys → Unread env w dirPath e
  | library {dir : Dir} : env.opendir (w.calls + 1) dirPath.str = .ok dir →
      ¬ (Served env (w.calls + 2) (scanPlan dir.entries emptyVec) ∧ scanErrno env dir emptyVec (w.calls + 2) = 0) →
        Unread env w dirPath .sys
  | path {dir : Dir} {e : JfsErr} : env.opendir (w.calls + 1) dirPath.str = .ok dir →
      (∀ ent ∈ dir.entries, Scans ent) → dirPath.len = 0 → Unread env w dirPath e

/-- The names of all entries that `readdir` gives. -/
def EntryNames (P : CString → Prop) (env : Env) : Prop :=
  ∀ n path dir, env.opendir n path = .ok dir → ∀ ent ∈ dir.entries, P ent.name

/-- The state without its top path. -/
def popped (st : FwState) : FwState := { st with pathVec.items := st.pathVec.items.dropLast }

/-- `jfs_fw_state_step` from where the path has been taken. -/
def fwVisit (env : Env) (fileVec : Vec FwFile) (dirPath : Path) : OnWalk Unit := do
  let sysDir ← onWorld (jfsOpendir env dirPath.str)
  let fileVec ← onWorld (fwScanDir env sysDir fileVec)
  fwPushDirPaths env fileVec dirPath
  let dir ← onWorld (fwDirInit env fileVec dirPath)
  let s ← Fallible.get
  let dirVec ← onWorld (fwDirVectorPush env s.state.dirVec dir)
  Fallible.modify fun s => { s with state.dirVec := dirVec }

/-- `jfs_fw_state_step` from where the directory has been read. -/
def fwRecord (env : Env) (fileVec : Vec FwFile) (dirPath : Path) : OnWalk Unit := do
  fwPushDirPaths env fileVec dirPath
  let dir ← onWorld (fwDirInit env fileVec dirPath)
  let s ← Fallible.get
  let dirVec ← onWorld (fwDirVectorPush env s.state.dirVec dir)
  Fallible.modify fun s => { s with state.dirVec := dirVec }

/-- What a step records. -/
def recorded (dirPath : Path) (files : List FwFile) : FwDir :=
  { path := dirPath, files := files, fileCount := files.length }

section Step

variable {env : Env} {w : World} {st : FwState} {xs : List Path} {top : Path} {dir : Dir}

theorem pathVectorPop_apply {vec : Vec Path} {path : Path} (h : vec.items = xs ++ [path]) :
    fwPathVectorPop env vec w = (.ok ({ vec with items := xs }, path), w) := by
  rw [fwPathVectorPop, h, List.getLast?_concat, List.dropLast_concat]
  rfl

/-- The start of a step: the top path is taken. -/
theorem fwStep_of_alloc (htop : st.pathVec.items = xs ++ [top]) (ha : env.alloc w.calls = true) :
    fwStep env ⟨w, st⟩ = fwVisit env emptyVec top ⟨w.next env, popped st⟩ := by
  have hinit : fwFileVectorInit env w = (.ok emptyVec, w.next env) := (does_vectorInit env _ w).1 ⟨ha, trivial⟩
  have hpop : onWorld (fwPathVectorPop env st.pathVec) ⟨w.next env, st⟩ =
      (.ok ((popped st).pathVec, top), ⟨w.next env, st⟩) := by
    refine onWorld_eq ?_
    rw [pathVectorPop_apply htop, popped, htop, List.dropLast_concat]
  rw [fwStep, Fallible.bind_of_ok (onWorld_eq (s := ⟨w, st⟩) hinit), Fallible.get_bind]
  exact (Fallible.bind_of_ok hpop).trans (Fallible.modify_bind _ _ _)

/-- The directory has been opened. -/
theorem fwVisit_of_opened (hopen : env.opendir w.calls top.str = .ok dir) :
    fwVisit env emptyVec top ⟨w, st⟩ =
      (onWorld (fwScanDir env dir emptyVec) >>= fun fileVec => fwRecord env fileVec top) ⟨w.next env, st⟩ := by
  have hdir : jfsOpendir env top.str w = (.ok dir, w.next env) := by
    rw [jfsOpendir, Fallible.get_bind, Fallible.modify_bind, hopen]
    rfl
  exact Fallible.bind_of_ok (onWorld_eq (s := ⟨w, st⟩) hdir)

/-- **A step that has read the directory** goes on to record it. -/
theorem fwStep_of_reads (htop : st.pathVec.items = xs ++ [top]) (h : Reads env w top dir) :
    ∃ fileVec w', fileVec.items = dirFiles dir ∧ w'.calls = w.calls + (readPlan dir).length ∧
      fwStep env ⟨w, st⟩ = fwRecord env fileVec top ⟨w', popped st⟩ := by
  obtain ⟨ha, hs⟩ := h.served
  obtain ⟨w', hcalls, e⟩ := scanDir_of_served (w := (w.next env).next env) h.scans hs
  rw [show ((w.next env).next env).calls = w.calls + 2 from rfl, if_pos h.errno] at e
  refine ⟨(dirFiles dir).foldl Vec.pushed emptyVec, w', items_foldl_pushed _ _, ?_, ?_⟩
  · rw [hcalls, readPlan, List.length_cons, List.length_cons]
    show w.calls + 1 + 1 + _ = _
    omega
  · rw [fwStep_of_alloc htop ha, fwVisit_of_opened h.opened]
    exact Fallible.bind_of_ok (onWorld_eq (s := ⟨(w.next env).next env, popped st⟩) e)

/-- The directory could not be opened. -/
theorem fwVisit_of_error {errno : ℕ} (st : FwState) (hopen : env.opendir w.calls top.str = .error errno) :
    ∃ w', fwVisit env emptyVec top ⟨w, st⟩ = (.error (opendirErr errno), ⟨w', st⟩) := by
  have hdir : jfsOpendir env top.str w = (.error (opendirErr errno), { w.next env with errno := errno }.next env) := by
    rw [jfsOpendir, Fallible.get_bind, Fallible.modify_bind, hopen]
    rfl
  exact ⟨_, Fallible.bind_of_error (onWorld_eq (s := ⟨w, st⟩) hdir)⟩

/-- **A step that could not read the directory**: nothing is recorded or pushed, and the top
path is gone if `file_vec` could be allocated. -/
theorem fwStep_unread (htop : st.pathVec.items = xs ++ [top]) (h : ¬ ∃ dir, Reads env w top dir) :
    ∃ e w' st', fwStep env ⟨w, st⟩ = (.error e, ⟨w', st'⟩) ∧
      (st' = st ∧ env.alloc w.calls = false ∧ e = .sys ∨ st' = popped st ∧ Unread env w top e) := by
  cases ha : env.alloc w.calls with
  | false =>
    have hnot : ¬ Served env w.calls [.alloc] := fun hs => Bool.false_ne_true (ha.symm.trans hs.1)
    obtain ⟨w', e⟩ := (does_vectorInit (α := FwFile) env FW_FILE_VECTOR_DEFAULT_CAPACITY w).2 hnot
    exact ⟨_, w', st, Fallible.bind_of_error (onWorld_eq (s := ⟨w, st⟩) e), .inl ⟨rfl, rfl, rfl⟩⟩
  | true =>
    rw [fwStep_of_alloc htop ha]
    cases hopen : env.opendir (w.calls + 1) top.str with
    | error errno =>
      obtain ⟨w', e⟩ := fwVisit_of_error (w := w.next env) (popped st) hopen
      exact ⟨_, w', _, e, .inr ⟨rfl, .opendir hopen⟩⟩
    | ok dir =>
      rw [fwVisit_of_opened hopen]
      generalize hw : (w.next env).next env = w₂
      have hcalls : w₂.calls = w.calls + 2 := by rw [← hw]; rfl
      by_cases hscan : ∀ ent ∈ dir.entries, Scans ent
      · by_cases hread : Served env w₂.calls (scanPlan dir.entries emptyVec) ∧ scanErrno env dir emptyVec w₂.calls = 0
        · obtain ⟨w₃, -, e⟩ := scanDir_of_served hscan hread.1
          rw [if_pos hread.2] at e
          rw [Fallible.bind_of_ok (onWorld_eq (s := ⟨w₂, popped st⟩) e)]
          -- all that is left is an empty path with a subdirectory
          rw [hcalls] at hread
          obtain ⟨h₀, hdirs⟩ := Classical.not_imp.mp fun hsub => h ⟨dir, hopen, hscan, hread.2, ⟨ha, hread.1⟩, hsub⟩
          have hpush : ∃ e w', fwPushDirPaths env ((dirFiles dir).foldl Vec.pushed emptyVec) top ⟨w₃, popped st⟩ =
              (.error e, ⟨w', popped st⟩) := by
            rw [fwPushDirPaths, items_foldl_pushed]
            exact pushFrom_empty h₀ hdirs _ _
          obtain ⟨x, w', hx⟩ := hpush
          exact ⟨x, w', _, Fallible.bind_of_error hx, .inr ⟨rfl, .path hopen hscan h₀⟩⟩
        · obtain ⟨w', e⟩ := scanDir_sys hscan hread
          rw [hcalls] at hread
          exact ⟨.sys, w', _, Fallible.bind_of_error (onWorld_eq (s := ⟨w₂, popped st⟩) e),
            .inr ⟨rfl, .library hopen hread⟩⟩
      · obtain ⟨x, w', e, hcases⟩ := scanDir_stops env dir w₂ hscan emptyVec
        exact ⟨x, w', _, Fallible.bind_of_error (onWorld_eq (s := ⟨w₂, popped st⟩) e),
          .inr ⟨rfl, .entry hopen hscan hcases⟩⟩

theorem does_dirInit (env : Env) (vec : Vec FwFile) (path : Path) :
    Does env (fwDirInit env vec path) (if vec.items = [] then [] else [.alloc]) (recorded path vec.items) := by
  unfold fwDirInit
  by_cases hnil : vec.items = []
  · rw [if_pos hnil, if_neg (by rw [Vec.count, hnil]; decide), recorded]
    rw [show vec.count = vec.items.length from rfl, hnil]
    exact does_pure env _
  · have hpos : 0 < vec.count := List.length_pos_iff.mpr hnil
    rw [if_neg hnil, if_pos hpos]
    exact does_bind (does_checkErr (does_vectorToArray env (Nat.ne_of_gt hpos))) (does_pure env _)

/-- What `fwRecord` does after `fw_push_dir_paths`. -/
theorem fwRecord_pushed {fileVec : Vec FwFile} {w₁ : World} {st₁ : FwState}
    (hpush : fwPushDirPaths env fileVec top ⟨w, st⟩ = (.ok (), ⟨w₁, st₁⟩)) :
    (Served env w₁.calls (recordPlan fileVec.items st₁.dirVec) → ∃ w', fwRecord env fileVec top ⟨w, st⟩ =
        (.ok (), ⟨w', { st₁ with dirVec := st₁.dirVec.pushed (recorded top fileVec.items) }⟩)) ∧
      (¬ Served env w₁.calls (recordPlan fileVec.items st₁.dirVec) → ∃ w', fwRecord env fileVec top ⟨w, st⟩ =
        (.error .sys, ⟨w', st₁⟩)) := by
  have hinit := does_dirInit env fileVec top w₁
  rw [fwRecord, Fallible.bind_of_ok hpush, recordPlan, served_append]
  by_cases hs : Served env w₁.calls (if fileVec.items = [] then [] else [.alloc])
  · have hdirs := does_vectorPush env st₁.dirVec (recorded top fileVec.items)
      (after env (if fileVec.items = [] then [] else [.alloc] : List Call).length w₁)
    simp only [after_calls] at hdirs
    rw [Fallible.bind_of_ok (onWorld_eq (s := ⟨w₁, st₁⟩) (hinit.1 hs)), Fallible.get_bind]
    refine ⟨fun h => ⟨_, Fallible.bind_of_ok (onWorld_eq (s := ⟨_, st₁⟩) (hdirs.1 h.2))⟩, fun h => ?_⟩
    obtain ⟨w', e⟩ := hdirs.2 fun h' => h ⟨hs, h'⟩
    exact ⟨w', Fallible.bind_of_error (onWorld_eq (s := ⟨_, st₁⟩) e)⟩
  · obtain ⟨w', e⟩ := hinit.2 hs
    exact ⟨fun h => absurd h.1 hs, fun _ => ⟨w', Fallible.bind_of_error (onWorld_eq (s := ⟨w₁, st₁⟩) e)⟩⟩

/-- **A step whose calls are served** pushes the subdirectories and records the directory. -/
theorem fwStep_complete (htop : st.pathVec.items = xs ++ [top]) (h : Reads env w top dir)
    (hs : Served env w.calls (stepPlan top dir (popped st).pathVec st.dirVec)) :
    ∃ w', fwStep env ⟨w, st⟩ = (.ok (), ⟨w',
      { pathVec := (pushes top (dirFiles dir)).foldl Vec.pushed (popped st).pathVec
        dirVec := st.dirVec.pushed (recorded top (dirFiles dir)) }⟩) := by
  obtain ⟨fileVec, w₁, hitems, hcalls, e⟩ := fwStep_of_reads htop h
  have hsub := h.subdirs
  rw [← hitems] at hsub ⊢
  rw [stepPlan, served_append, ← hcalls, served_append, ← hitems] at hs
  obtain ⟨-, hpush, hrecord⟩ := hs
  rw [← after_calls env] at hrecord
  obtain ⟨w', e'⟩ := (fwRecord_pushed (pushFrom_of_served hsub _ (popped st) hpush)).1 hrecord
  exact ⟨w', e.trans e'⟩

/-- More entries need more calls. -/
theorem served_pushPlan_mono {n : ℕ} {A B : List FwFile} {vec : Vec Path} (h : A <+: B)
    (hs : Served env n (pushPlan top B vec)) : Served env n (pushPlan top A vec) := by
  obtain ⟨C, rfl⟩ := h
  rw [pushPlan_append, served_append] at hs
  exact hs.1

/-- **A step that is interrupted** has pushed the paths of the entries whose calls were
served, and they stay. -/
theorem fwStep_interrupted (htop : st.pathVec.items = xs ++ [top]) (h : Reads env w top dir)
    (hs : ¬ Served env w.calls (stepPlan top dir (popped st).pathVec st.dirVec)) :
    ∃ A w', A <+: dirFiles dir ∧
      (∀ A', A' <+: dirFiles dir →
        (Served env w.calls (readPlan dir ++ pushPlan top A' (popped st).pathVec) ↔ A' <+: A)) ∧
      fwStep env ⟨w, st⟩ = (.error .sys, ⟨w',
        { pathVec := (pushes top A).foldl Vec.pushed (popped st).pathVec, dirVec := st.dirVec }⟩) := by
  obtain ⟨fileVec, w₁, hitems, hcalls, e⟩ := fwStep_of_reads htop h
  have hsub := h.subdirs
  rw [← hitems] at hsub ⊢
  rw [stepPlan, served_append, ← hcalls, served_append, ← hitems] at hs
  simp only [served_append, ← hcalls]
  by_cases hpush : Served env w₁.calls (pushPlan top fileVec.items (popped st).pathVec)
  · -- the directory could not be recorded
    have hrecord : ¬ Served env _ (recordPlan fileVec.items st.dirVec) := fun hrecord => hs ⟨h.served, hpush, hrecord⟩
    rw [← after_calls env] at hrecord
    obtain ⟨w', e'⟩ := (fwRecord_pushed (pushFrom_of_served hsub _ (popped st) hpush)).2 hrecord
    refine ⟨fileVec.items, w', List.prefix_rfl, fun A' hA' => ?_, e.trans e'⟩
    exact iff_of_true ⟨h.served, served_pushPlan_mono hA' hpush⟩ hA'
  · -- a path could not be pushed
    obtain ⟨A, file, B, w', hsplit, hserved, hfile, e'⟩ :=
      pushFrom_of_not_served hsub { len := 0, data := [] } (popped st) hpush
    have hA : A <+: fileVec.items := ⟨file :: B, hsplit.symm⟩
    have hAfile : A ++ [file] <+: fileVec.items := ⟨B, by rw [hsplit, List.append_assoc]; rfl⟩
    refine ⟨A, w', hA, fun A' hA' => ⟨fun hs' => ?_, fun hpre => ?_⟩, e.trans (Fallible.bind_of_error e')⟩
    · refine List.prefix_of_prefix_length_le hA' hA (Nat.not_lt.mp fun hlen => hfile ?_)
      refine served_pushPlan_mono (List.prefix_of_prefix_length_le hAfile hA' ?_) hs'.2
      rw [List.length_append, List.length_singleton]
      exact hlen
    · exact ⟨h.served, served_pushPlan_mono hpre hserved⟩

/-! ### What is returned -/

/-- Nothing is pending: the step returns 1, and nothing has changed. -/
theorem stateStep_nil {s : Walk} (h : s.state.pathVec.items = []) :
    jfsFwStateStep env s = { walk := s, more := true, err := .ok } := by
  have hcount : s.state.pathVec.count = 0 := List.length_eq_zero_iff.mpr h
  rw [jfsFwStateStep, if_pos hcount]

theorem stateStep_ok {s s' : Walk} (hne : s.state.pathVec.items ≠ []) (e : fwStep env s = (.ok (), s')) :
    jfsFwStateStep env s = { walk := s', more := decide (0 < s'.state.pathVec.count), err := .ok } := by
  have hcount : s.state.pathVec.count ≠ 0 := fun h => hne (List.length_eq_zero_iff.mp h)
  rw [jfsFwStateStep, if_neg hcount, e]

theorem stateStep_error {s s' : Walk} {x : JfsErr} (hne : s.state.pathVec.items ≠ [])
    (e : fwStep env s = (.error x, s')) :
    jfsFwStateStep env s = { walk := s', more := decide (s'.state.pathVec.count = 0), err := remapErr x } := by
  have hcount : s.state.pathVec.count ≠ 0 := fun h => hne (List.length_eq_zero_iff.mp h)
  rw [jfsFwStateStep, if_neg hcount, e]

end Step

end FileSync.FileWalk
