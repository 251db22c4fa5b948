import FileSync.FileIo
import FileSync.Lib.Loop

/-!
# The file walk

`file_walk.c`: a walk keeps the paths of the directories that it still has to look
at on a stack (`path_vec`) and the directories that it has looked at in a vector
(`dir_vec`). A step takes a path, reads that directory, pushes the paths of its
subdirectories and records it. The loop is the one of `file_walk_test`.

Memory that is freed is not modelled: a moved or freed value is not used again.
-/

namespace FileSync.FileWalk

open FileSync.Lib FileSync.FileIo

/-! ### The data -/

/-- `jfs_fw_types_t`. -/
inductive FwType
  /-- `JFS_FW_REG`. -/
  | reg
  /-- `JFS_FW_DIR`. -/
  | dir
  deriving DecidableEq, Repr

/-- `jfs_fw_file_t`. -/
structure FwFile where
  /-- What it is. -/
  type : FwType
  /-- Its name. -/
  name : Name
  /-- Its inode. -/
  inode : UInt64
  deriving DecidableEq, Repr

/-- `jfs_fw_dir_t`. -/
structure FwDir where
  /-- Where it is. -/
  path : Path
  /-- What is in it. -/
  files : List FwFile
  /-- The length of `files`. -/
  fileCount : ℕ
  deriving DecidableEq, Repr

/-- `jfs_fw_record_t`. -/
structure FwRecord where
  /-- The length of `dirArray`. -/
  dirCount : ℕ
  /-- The directories. -/
  dirArray : List FwDir
  deriving DecidableEq, Repr

/-- `fw_path_vector_t`, `fw_file_vector_t` and `fw_dir_vector_t`: the entries up to
`count`, and the room there is. -/
structure Vec (α : Type) where
  /-- The entries. -/
  items : List α
  /-- The room. -/
  capacity : ℕ
  deriving DecidableEq, Repr

/-- The field `count`. -/
def Vec.count {α : Type} (vec : Vec α) : ℕ := vec.items.length

/-- `jfs_fw_state_t`. -/
structure FwState where
  /-- The paths that are pending, the top of the stack last. -/
  pathVec : Vec Path
  /-- The directories that have been read. -/
  dirVec : Vec FwDir
  deriving DecidableEq, Repr

/-- A state of the walk and of the library. -/
structure Walk where
  /-- The state of the library. -/
  world : World
  /-- The state of the walk. -/
  state : FwState
  deriving DecidableEq, Repr

/-- A computation on a state of the walk. -/
abbrev OnWalk (α : Type) := Fallible Walk JfsErr α

/-- A computation that only calls the library. -/
def onWorld {α : Type} (m : Sys α) : OnWalk α := m.zoom Walk.world fun s w => { s with world := w }

/-! ### Vectors -/

section Vectors

variable {α : Type}

/-- An empty vector. -/
def vectorInit (capacity : ℕ) (env : Env) : Sys (Vec α) := do
  checkErr env (jfsMalloc env)
  return { items := [], capacity := capacity }

/-- A vector grows to twice its room when it is full. -/
def vectorPush (env : Env) (vec : Vec α) (item : α) : Sys (Vec α) := do
  if vec.capacity ≤ vec.count then
    checkErr env (jfsRealloc env)
    return { items := vec.items ++ [item], capacity := vec.capacity * 2 }
  else
    return { vec with items := vec.items ++ [item] }

/-- The entries of a vector that is not empty. -/
def vectorToArray (env : Env) (vec : Vec α) : Sys (List α) := do
  if vec.count = 0 then failWith env .empty
  checkErr env (jfsRealloc env)
  return vec.items

end Vectors

/-- `FW_PATH_VECTOR_DEFAULT_CAPACITY`. -/
def FW_PATH_VECTOR_DEFAULT_CAPACITY : ℕ := 16

/-- `FW_FILE_VECTOR_DEFAULT_CAPACITY`. -/
def FW_FILE_VECTOR_DEFAULT_CAPACITY : ℕ := 16

/-- `FW_DIR_VECTOR_DEFAULT_CAPACITY`. -/
def FW_DIR_VECTOR_DEFAULT_CAPACITY : ℕ := 16

/-- `fw_path_vector_init`. -/
def fwPathVectorInit : Env → Sys (Vec Path) := vectorInit FW_PATH_VECTOR_DEFAULT_CAPACITY

/-- `fw_file_vector_init`. -/
def fwFileVectorInit : Env → Sys (Vec FwFile) := vectorInit FW_FILE_VECTOR_DEFAULT_CAPACITY

/-- `fw_dir_vector_init`. -/
def fwDirVectorInit : Env → Sys (Vec FwDir) := vectorInit FW_DIR_VECTOR_DEFAULT_CAPACITY

/-- `fw_path_vector_push`. -/
def fwPathVectorPush : Env → Vec Path → Path → Sys (Vec Path) := vectorPush

/-- `fw_file_vector_push`. -/
def fwFileVectorPush : Env → Vec FwFile → FwFile → Sys (Vec FwFile) := vectorPush

/-- `fw_dir_vector_push`. -/
def fwDirVectorPush : Env → Vec FwDir → FwDir → Sys (Vec FwDir) := vectorPush

/-- `fw_file_vector_to_array`. -/
def fwFileVectorToArray : Env → Vec FwFile → Sys (List FwFile) := vectorToArray

/-- `fw_dir_vector_to_array`. -/
def fwDirVectorToArray : Env → Vec FwDir → Sys (List FwDir) := vectorToArray

/-- `fw_path_vector_pop`: the vector without its last entry, and that entry. -/
def fwPathVectorPop (env : Env) (vec : Vec Path) : Sys (Vec Path × Path) :=
  match vec.items.getLast? with
  | none => failWith env .empty
  | some path => return ({ vec with items := vec.items.dropLast }, path)

/-! ### Reading a directory -/

/-- `DT_UNKNOWN`. -/
def DT_UNKNOWN : UInt8 := 0

/-- `DT_DIR`. -/
def DT_DIR : UInt8 := 4

/-- `DT_REG`. -/
def DT_REG : UInt8 := 8

/-- `fw_map_dirent_type`. -/
def fwMapDirentType (env : Env) (entType : UInt8) : Sys FwType :=
  if entType = DT_REG then return .reg
  else if entType = DT_DIR then return .dir
  else if entType = DT_UNKNOWN then failWith env .fwUnknown
  else failWith env .fwUnsupported

/-- `fw_file_init`. -/
def fwFileInit (env : Env) (ent : Dirent) : Sys FwFile := do
  let type ← checkErr env (fwMapDirentType env ent.type)
  let name ← checkErr env (jfsFioNameInit env ent.name)
  return { type := type, name := name, inode := ent.ino }

/-- `fw_handle_dirent`. -/
def fwHandleDirent (env : Env) (ent : Dirent) (vec : Vec FwFile) : Sys (Vec FwFile) := do
  let file ← checkErr env (fwFileInit env ent)
  checkErr env (fwFileVectorPush env vec file)

/-- The names `.` and `..`. -/
def isDot (name : CString) : Bool := name == [46] || name == [46, 46]

/-- The loop of `fw_scan_dir` over the entries that `readdir` gives. -/
def fwScanEntries (env : Env) : List Dirent → Vec FwFile → Sys (Vec FwFile)
  | [], vec => return vec
  | ent :: rest, vec => do
    Fallible.modify (World.next env)
    if isDot ent.name then fwScanEntries env rest vec
    else
      match ← (fwHandleDirent env ent vec).attempt with
      | .ok vec => fwScanEntries env rest vec
      | .error e =>
        if e = .fwUnsupported then
          logErr env
          fwScanEntries env rest vec
        else failWith env e

/-- `fw_scan_dir`. At the end of the directory `readdir` leaves `errno` as it is. -/
def fwScanDir (env : Env) (dir : Dir) (vec : Vec FwFile) : Sys (Vec FwFile) := do
  Fallible.modify fun w => { w with errno := 0 }
  let vec ← fwScanEntries env dir.entries vec
  Fallible.modify fun w => { w with errno := dir.failure.getD w.errno }
  let w ← Fallible.get
  if w.errno ≠ 0 then failWith env .sys
  return vec

/-! ### One step -/

/-- `fw_push_dir_paths` for one directory: the composed path is pushed. If it could not be
composed for another reason than its length, `jfs_fio_path_init` is called all the
same, with the error set. -/
def fwPushDirPath (env : Env) (buf : PathBuf) (dirPath : Path) (name : Name) : OnWalk PathBuf := do
  match ← onWorld (jfsFioPathBufCompose env dirPath name).attempt with
  | .error .fioPathOverflow =>
    onWorld (logErr env)
    return buf
  | .error e =>
    match ← onWorld (jfsFioPathInit env buf.data).attempt with
    | .error e => onWorld (failWith env e)
    | .ok _ => onWorld (failWith env e)
  | .ok buf =>
    let path ← onWorld (checkErr env (jfsFioPathInit env buf.data))
    let s ← Fallible.get
    let pathVec ← onWorld (checkErr env (fwPathVectorPush env s.state.pathVec path))
    Fallible.modify fun s => { s with state.pathVec := pathVec }
    return buf

/-- The loop of `fw_push_dir_paths`. -/
def fwPushFrom (env : Env) (dirPath : Path) : List FwFile → PathBuf → OnWalk Unit
  | [], _ => return ()
  | file :: rest, buf => do
    if file.type = .reg then fwPushFrom env dirPath rest buf
    else
      let buf ← fwPushDirPath env buf dirPath file.name
      fwPushFrom env dirPath rest buf

/-- `fw_push_dir_paths`. -/
def fwPushDirPaths (env : Env) (fileVec : Vec FwFile) (dirPath : Path) : OnWalk Unit :=
  fwPushFrom env dirPath fileVec.items { len := 0, data := [] }

/-- `fw_dir_init`. -/
def fwDirInit (env : Env) (vec : Vec FwFile) (path : Path) : Sys FwDir := do
  if 0 < vec.count then
    let files ← checkErr env (fwFileVectorToArray env vec)
    return { path := path, files := files, fileCount := vec.count }
  else
    return { path := path, files := [], fileCount := vec.count }

/-- `jfs_fw_state_step` where a path is pending, up to `cleanup`. -/
def fwStep (env : Env) : OnWalk Unit := do
  let fileVec ← onWorld (fwFileVectorInit env)
  let s ← Fallible.get
  let (pathVec, dirPath) ← onWorld (fwPathVectorPop env s.state.pathVec)
  Fallible.modify fun s => { s with state.pathVec := pathVec }
  let sysDir ← onWorld (jfsOpendir env dirPath.str)
  let fileVec ← onWorld (fwScanDir env sysDir fileVec)
  fwPushDirPaths env fileVec dirPath
  let dir ← onWorld (fwDirInit env fileVec dirPath)
  let s ← Fallible.get
  let dirVec ← onWorld (fwDirVectorPush env s.state.dirVec dir)
  Fallible.modify fun s => { s with state.dirVec := dirVec }

/-- `REMAP_ERR`, twice. -/
def remapErr (e : JfsErr) : JfsErr :=
  if e = .access then .fwSkip else if e = .invalPath then .fwFail else e

/-- What `jfs_fw_state_step` leaves behind and returns. -/
structure Stepped where
  /-- The state afterwards. -/
  walk : Walk
  /-- The value that is returned, which the caller takes for "go on". -/
  more : Bool
  /-- The error. -/
  err : JfsErr

/-- `jfs_fw_state_step`. On an error it returns whether nothing is pending. -/
def jfsFwStateStep (env : Env) (s : Walk) : Stepped :=
  if s.state.pathVec.count = 0 then { walk := s, more := true, err := .ok }
  else
    match fwStep env s with
    | (.ok (), s) => { walk := s, more := decide (0 < s.state.pathVec.count), err := .ok }
    | (.error e, s) => { walk := s, more := decide (s.state.pathVec.count = 0), err := remapErr e }

/-! ### A whole walk -/

/-- `jfs_fw_state_create`. -/
def jfsFwStateCreate (env : Env) (startPath : Path) : Sys FwState := do
  jfsMalloc env
  let pathVec ← fwPathVectorInit env
  let dirVec ← fwDirVectorInit env
  let newPath ← jfsFioPathInit env startPath.str
  let pathVec ← fwPathVectorPush env pathVec newPath
  return { pathVec := pathVec, dirVec := dirVec }

/-- `jfs_fw_record_init`. -/
def jfsFwRecordInit (env : Env) (state : FwState) : Sys FwRecord := do
  if 0 < state.pathVec.count then failWith env .fwState
  let newDirArray ← checkErr env (fwDirVectorToArray env state.dirVec)
  return { dirCount := state.dirVec.count, dirArray := newDirArray }

/-- How the loop of `file_walk_test` ends: the state, the error, and whether it went to
`cleanup`. -/
structure WalkEnd where
  /-- The state. -/
  walk : Walk
  /-- The error. -/
  err : JfsErr
  /-- Whether it went to `cleanup`. -/
  cleanup : Bool

/-- One turn of the loop of `file_walk_test`. -/
def walkTurn (env : Env) (s : Walk) : Turn Walk WalkEnd :=
  let r := jfsFwStateStep env s
  if r.more then
    if r.err = .fwSkip then .again { r.walk with world := r.walk.world.next env }
    else if r.err ≠ .ok then .leave { walk := r.walk, err := r.err, cleanup := true }
    else .again r.walk
  else .leave { walk := r.walk, err := r.err, cleanup := false }

/-- The loop of `file_walk_test`, for at most `fuel` steps. -/
def walkLoop (env : Env) (fuel : ℕ) (s : Walk) : Option WalkEnd := loop (walkTurn env) fuel s

end FileSync.FileWalk
