import FileSync.FileWalk.Code
import FileSync.Lib.Ledger

/-!
# The memory of a walk

`file_walk.c` and the functions of `file_io.c` it calls, with the blocks that they allocate
and free. Each path, name, array and state has the block it is in; a struct that has
been moved or freed is all 0, as the source leaves it. The variables of a function whose
addresses are passed on are part of the state, since they keep what they have when it fails.

What a walk computes is as in `FileWalk.Code`; what is new is the `Heap`.
-/

namespace FileSync.FileWalk

open FileSync.Lib FileSync.FileIo

/-! ### The data -/

/-- A pointer, and what is in its block. -/
structure Owned (α : Type) where
  ptr : Pointer
  val : α
  deriving DecidableEq, Repr

/-- `jfs_fw_file_t`. -/
structure OwnedFile where
  type : FwType
  name : Owned Name
  inode : UInt64
  deriving DecidableEq, Repr

/-- `jfs_fw_dir_t`. -/
structure OwnedDir where
  path : Owned Path
  files : Owned (List OwnedFile)
  fileCount : ℕ
  deriving DecidableEq, Repr

/-- `jfs_fw_record_t`. -/
structure OwnedRecord where
  dirCount : ℕ
  dirArray : Owned (List OwnedDir)
  deriving DecidableEq, Repr

/-- The three vectors: the array with its entries up to `count`, and the room there is. -/
structure OwnedVec (α : Type) where
  array : Owned (List α)
  capacity : ℕ
  deriving DecidableEq, Repr

/-- The field `count`. -/
def OwnedVec.count {α : Type} (vec : OwnedVec α) : ℕ := vec.array.val.length

/-- All 0. -/
def OwnedVec.zero {α : Type} : OwnedVec α := ⟨⟨.null, []⟩, 0⟩

/-- A vector in memory that was never written. -/
def OwnedVec.uninit {α : Type} : OwnedVec α := ⟨⟨.uninit, []⟩, 0⟩

/-- A path that is all 0. -/
def zeroPath : Owned Path := ⟨.null, ⟨0, []⟩⟩

/-- A directory that is all 0. -/
def OwnedDir.zero : OwnedDir := ⟨zeroPath, ⟨.null, []⟩, 0⟩

/-- The library and the blocks. -/
structure Store where
  world : World
  heap : Heap
  deriving DecidableEq, Repr

/-- The state of the walk, and the variables of the function that runs. -/
structure Vars where
  /-- The pointer to the `jfs_fw_state_t`. -/
  state : Pointer
  pathVec : OwnedVec (Owned Path)
  dirVec : OwnedVec OwnedDir
  fileVec : OwnedVec OwnedFile
  /-- `new_path` of `jfs_fw_state_create`, `dir_path` of `jfs_fw_state_step`. -/
  path : Owned Path
  dir : OwnedDir
  sysDir : Option Dir
  deriving DecidableEq, Repr

/-- All there is. -/
structure Mem where
  store : Store
  vars : Vars
  deriving DecidableEq, Repr

/-- A computation on the library and the blocks. -/
abbrev OnStore (α : Type) := Fallible Store JfsErr α

/-- A computation on memory. -/
abbrev OnMem (α : Type) := Fallible Mem JfsErr α

/-- A computation that only calls the library. -/
def onSys {α : Type} (m : Sys α) : OnStore α := m.zoom Store.world fun s w => { s with world := w }

/-- A computation that leaves the variables as they are. -/
def onStore {α : Type} (m : OnStore α) : OnMem α := m.zoom Mem.store fun m s => { m with store := s }

/-- The variables. -/
def getVars : OnMem Vars := fun m => (.ok m.vars, m)

/-- Assign to variables. -/
def setVars (f : Vars → Vars) : OnMem Unit := Fallible.modify fun m => { m with vars := f m.vars }

namespace Memory

/-- A call followed by `VOID_CHECK_ERR`. -/
def checkErr {α : Type} (env : Env) (m : OnStore α) : OnStore α := do
  match ← m.attempt with
  | .ok a => return a
  | .error e => onSys (failWith env e)

/-! ### Blocks -/

/-- A block that the library has handed out. -/
def newBlock : OnStore Pointer := do
  let s ← Fallible.get
  Fallible.modify fun s => { s with heap := s.heap.malloc }
  return .block s.heap.next

/-- `free`. -/
def free (p : Pointer) : OnStore Unit := Fallible.modify fun s => { s with heap := s.heap.free p }

/-- An access through a pointer. -/
def touch (p : Pointer) : OnStore Unit := Fallible.modify fun s => { s with heap := s.heap.touch p }

/-- `jfs_malloc`. -/
def jfsMalloc (env : Env) : OnStore Pointer := do
  onSys (FileIo.jfsMalloc env)
  newBlock

/-- `jfs_realloc`: the old block goes when there is a new one. -/
def jfsRealloc (env : Env) (p : Pointer) : OnStore Pointer := do
  onSys (FileIo.jfsRealloc env)
  free p
  newBlock

/-! ### Paths, names, files and directories -/

/-- `jfs_fio_path_init`. -/
def jfsFioPathInit (env : Env) (pathStr : CString) : OnStore (Owned Path) := do
  let len := pathStrLen pathStr
  if PATH_MAX < len then onSys (failWith env .fioPathLen)
  let newStr ← checkErr env (jfsMalloc env)
  return { ptr := newStr, val := { len := len, str := pathStr.take len } }

/-- `jfs_fio_path_free`. -/
def jfsFioPathFree (path : Owned Path) : OnStore Unit := free path.ptr

/-- `jfs_fio_name_init`. -/
def jfsFioNameInit (env : Env) (nameStr : CString) : OnStore (Owned Name) := do
  if NAME_MAX < nameStr.length then onSys (failWith env .fioNameLen)
  let newStr ← checkErr env (jfsMalloc env)
  return { ptr := newStr, val := { len := nameStr.length, str := nameStr.take nameStr.length } }

/-- `jfs_fio_name_free`. -/
def jfsFioNameFree (name : Owned Name) : OnStore Unit := free name.ptr

/-- `jfs_fw_file_free`. -/
def jfsFwFileFree (file : OwnedFile) : OnStore Unit := jfsFioNameFree file.name

/-- The loop that frees the entries of an array. -/
def freeEach {α : Type} (freeItem : α → OnStore Unit) (array : Pointer) : List α → OnStore Unit
  | [] => return ()
  | item :: rest => do
    touch array
    freeItem item
    freeEach freeItem array rest

/-- The entries of an array are freed, and then the array. -/
def freeArray {α : Type} (freeItem : α → OnStore Unit) (array : Owned (List α)) : OnStore Unit := do
  if array.ptr ≠ .null then
    freeEach freeItem array.ptr array.val
    free array.ptr

/-- `jfs_fw_dir_free`. -/
def jfsFwDirFree (dir : OwnedDir) : OnStore Unit := do
  freeArray jfsFwFileFree { dir.files with val := dir.files.val.take dir.fileCount }
  jfsFioPathFree dir.path

/-! ### Vectors -/

section Vectors

variable {α : Type}

/-- An empty vector. -/
def vectorInit (capacity : ℕ) (env : Env) : OnStore (OwnedVec α) := do
  let array ← checkErr env (jfsMalloc env)
  return { array := ⟨array, []⟩, capacity := capacity }

/-- A vector is freed with its entries. -/
def vectorFree (freeItem : α → OnStore Unit) (vec : OwnedVec α) : OnStore Unit := freeArray freeItem vec.array

/-- An entry is moved into a vector, which grows to twice its room when it is full. -/
def vectorPush (env : Env) (vec : OwnedVec α) (item : α) : OnStore (OwnedVec α) := do
  if vec.capacity ≤ vec.count then
    let array ← checkErr env (jfsRealloc env vec.array.ptr)
    return { array := ⟨array, vec.array.val ++ [item]⟩, capacity := vec.capacity * 2 }
  else
    touch vec.array.ptr
    return { vec with array := ⟨vec.array.ptr, vec.array.val ++ [item]⟩ }

/-- The array of a vector that is not empty. -/
def vectorToArray (env : Env) (vec : OwnedVec α) : OnStore (Owned (List α)) := do
  if vec.count = 0 then onSys (failWith env .empty)
  let array ← checkErr env (jfsRealloc env vec.array.ptr)
  return { ptr := array, val := vec.array.val }

end Vectors

/-- `fw_path_vector_init`. -/
def fwPathVectorInit : Env → OnStore (OwnedVec (Owned Path)) := vectorInit FW_PATH_VECTOR_DEFAULT_CAPACITY

/-- `fw_file_vector_init`. -/
def fwFileVectorInit : Env → OnStore (OwnedVec OwnedFile) := vectorInit FW_FILE_VECTOR_DEFAULT_CAPACITY

/-- `fw_dir_vector_init`. -/
def fwDirVectorInit : Env → OnStore (OwnedVec OwnedDir) := vectorInit FW_DIR_VECTOR_DEFAULT_CAPACITY

/-- `fw_path_vector_free`. -/
def fwPathVectorFree : OwnedVec (Owned Path) → OnStore Unit := vectorFree jfsFioPathFree

/-- `fw_file_vector_free`. -/
def fwFileVectorFree : OwnedVec OwnedFile → OnStore Unit := vectorFree jfsFwFileFree

/-- `fw_dir_vector_free`. -/
def fwDirVectorFree : OwnedVec OwnedDir → OnStore Unit := vectorFree jfsFwDirFree

/-- `fw_path_vector_push`. -/
def fwPathVectorPush : Env → OwnedVec (Owned Path) → Owned Path → OnStore (OwnedVec (Owned Path)) := vectorPush

/-- `fw_file_vector_push`. -/
def fwFileVectorPush : Env → OwnedVec OwnedFile → OwnedFile → OnStore (OwnedVec OwnedFile) := vectorPush

/-- `fw_dir_vector_push`. -/
def fwDirVectorPush : Env → OwnedVec OwnedDir → OwnedDir → OnStore (OwnedVec OwnedDir) := vectorPush

/-- `fw_file_vector_to_array`. -/
def fwFileVectorToArray : Env → OwnedVec OwnedFile → OnStore (Owned (List OwnedFile)) := vectorToArray

/-- `fw_dir_vector_to_array`. -/
def fwDirVectorToArray : Env → OwnedVec OwnedDir → OnStore (Owned (List OwnedDir)) := vectorToArray

/-- `fw_path_vector_pop`: the vector without its last entry, and that entry. -/
def fwPathVectorPop (env : Env) (vec : OwnedVec (Owned Path)) : OnStore (OwnedVec (Owned Path) × Owned Path) :=
  match vec.array.val.getLast? with
  | none => onSys (failWith env .empty)
  | some path => do
    touch vec.array.ptr
    return ({ vec with array := ⟨vec.array.ptr, vec.array.val.dropLast⟩ }, path)

/-! ### Reading a directory -/

/-- `fw_file_init`. -/
def fwFileInit (env : Env) (ent : Dirent) : OnStore OwnedFile := do
  let type ← checkErr env (onSys (fwMapDirentType env ent.type))
  let name ← checkErr env (jfsFioNameInit env ent.name)
  return { type := type, name := name, inode := ent.ino }

/-- `fw_handle_dirent`. -/
def fwHandleDirent (env : Env) (ent : Dirent) (vec : OwnedVec OwnedFile) : OnStore (OwnedVec OwnedFile) := do
  let file ← checkErr env (fwFileInit env ent)
  match ← (fwFileVectorPush env vec file).attempt with
  | .ok vec => return vec
  | .error e =>
    jfsFwFileFree file
    onSys (failWith env e)

/-- The loop of `fw_scan_dir`. -/
def fwScanEntries (env : Env) : List Dirent → OnMem Unit
  | [] => return ()
  | ent :: rest => do
    onStore (onSys (Fallible.modify (World.next env)))
    if isDot ent.name then fwScanEntries env rest
    else
      let v ← getVars
      match ← onStore (fwHandleDirent env ent v.fileVec).attempt with
      | .ok vec =>
        setVars fun v => { v with fileVec := vec }
        fwScanEntries env rest
      | .error e =>
        if e = .fwUnsupported then
          onStore (onSys (logErr env))
          fwScanEntries env rest
        else onStore (onSys (failWith env e))

/-- The end of `fw_scan_dir`: `readdir` has given `NULL`. -/
def readdirEnd (env : Env) (dir : Dir) : Sys Unit := do
  Fallible.modify fun w => { w with errno := dir.failure.getD w.errno }
  let w ← Fallible.get
  if w.errno ≠ 0 then failWith env .sys

/-- `fw_scan_dir`. -/
def fwScanDir (env : Env) (dir : Dir) : OnMem Unit := do
  onStore (onSys (Fallible.modify fun w => { w with errno := 0 }))
  fwScanEntries env dir.entries
  onStore (onSys (readdirEnd env dir))

/-! ### One step -/

/-- `fw_push_dir_paths` for one directory. If the path cannot be composed because that of the directory
is empty, `jfs_fio_path_init` allocates a string and returns without it, as the error is set. -/
def fwPushDirPath (env : Env) (buf : PathBuf) (dirPath : Owned Path) (name : Owned Name) : OnMem PathBuf := do
  onStore (touch dirPath.ptr)
  onStore (touch name.ptr)
  match ← onStore (onSys (jfsFioPathBufCompose env dirPath.val name.val)).attempt with
  | .error .fioPathOverflow =>
    onStore (onSys (logErr env))
    return buf
  | .error e =>
    match ← onStore (jfsFioPathInit env buf.data).attempt with
    | .error e => onStore (onSys (failWith env e))
    | .ok _ => onStore (onSys (failWith env e))
  | .ok buf =>
    let path ← onStore (checkErr env (jfsFioPathInit env buf.data))
    let v ← getVars
    match ← onStore (fwPathVectorPush env v.pathVec path).attempt with
    | .ok vec =>
      setVars fun v => { v with pathVec := vec }
      return buf
    | .error e =>
      onStore (jfsFioPathFree path)
      onStore (onSys (failWith env e))

/-- The loop of `fw_push_dir_paths`. -/
def fwPushFrom (env : Env) (dirPath : Owned Path) : List OwnedFile → PathBuf → OnMem Unit
  | [], _ => return ()
  | file :: rest, buf => do
    let v ← getVars
    onStore (touch v.fileVec.array.ptr)
    if file.type = .reg then fwPushFrom env dirPath rest buf
    else
      let buf ← fwPushDirPath env buf dirPath file.name
      fwPushFrom env dirPath rest buf

/-- `fw_push_dir_paths`. -/
def fwPushDirPaths (env : Env) : OnMem Unit := do
  let v ← getVars
  fwPushFrom env v.path v.fileVec.array.val { len := 0, data := [] }

/-- `fw_dir_init`. -/
def fwDirInit (env : Env) : OnMem Unit := do
  let v ← getVars
  if 0 < v.fileVec.count then
    let files ← onStore (checkErr env (fwFileVectorToArray env v.fileVec))
    setVars fun v => { v with
      fileVec := .zero, path := zeroPath, dir := { path := v.path, files := files, fileCount := v.fileVec.count } }
  else
    onStore (fwFileVectorFree v.fileVec)
    setVars fun v => { v with
      fileVec := .zero, path := zeroPath, dir := { path := v.path, files := ⟨.null, []⟩, fileCount := v.fileVec.count } }

/-- `jfs_fw_state_step` where a path is pending, up to `cleanup`. -/
def fwStep (env : Env) : OnMem Unit := do
  let fileVec ← onStore (fwFileVectorInit env)
  setVars fun v => { v with fileVec := fileVec }
  let v ← getVars
  let (pathVec, path) ← onStore (fwPathVectorPop env v.pathVec)
  setVars fun v => { v with pathVec := pathVec, path := path }
  onStore (touch path.ptr)
  let sysDir ← onStore (onSys (jfsOpendir env path.val.str))
  setVars fun v => { v with sysDir := some sysDir }
  fwScanDir env sysDir
  fwPushDirPaths env
  fwDirInit env
  let v ← getVars
  let dirVec ← onStore (fwDirVectorPush env v.dirVec v.dir)
  -- and `closedir`
  setVars fun v => { v with dirVec := dirVec, dir := .zero, sysDir := none }

/-- The label `cleanup` of `jfs_fw_state_step`. -/
def stepCleanup : OnMem Unit := do
  let v ← getVars
  onStore (fwFileVectorFree v.fileVec)
  onStore (jfsFioPathFree v.path)
  onStore (jfsFwDirFree v.dir)
  setVars fun v => { v with fileVec := .zero, path := zeroPath, dir := .zero, sysDir := none }

/-- What `jfs_fw_state_step` leaves behind and returns. -/
structure Stepped where
  mem : Mem
  /-- The value that is returned. -/
  more : Bool
  err : JfsErr

/-- `jfs_fw_state_step`. -/
def jfsFwStateStep (env : Env) (m : Mem) : Stepped :=
  if m.vars.pathVec.count = 0 then { mem := m, more := true, err := .ok }
  else
    match fwStep env m with
    | (.ok (), m) => { mem := m, more := decide (0 < m.vars.pathVec.count), err := .ok }
    | (.error e, m) =>
      { mem := (stepCleanup m).2, more := decide (m.vars.pathVec.count = 0), err := remapErr e }

/-! ### A whole walk -/

/-- `jfs_fw_state_create`, up to `cleanup`. The memory of the state is not cleared. -/
def fwCreate (env : Env) (startPath : Owned Path) : OnMem Unit := do
  let state ← onStore (jfsMalloc env)
  setVars fun v => { v with state := state, pathVec := .uninit, dirVec := .uninit }
  let pathVec ← onStore (fwPathVectorInit env)
  setVars fun v => { v with pathVec := pathVec }
  let dirVec ← onStore (fwDirVectorInit env)
  setVars fun v => { v with dirVec := dirVec }
  onStore (touch startPath.ptr)
  let path ← onStore (jfsFioPathInit env startPath.val.str)
  setVars fun v => { v with path := path }
  let pathVec ← onStore (fwPathVectorPush env pathVec path)
  setVars fun v => { v with pathVec := pathVec, path := zeroPath }

/-- `jfs_fw_state_destroy`. -/
def jfsFwStateDestroy : OnMem Unit := do
  let v ← getVars
  if v.state ≠ .null then
    onStore (fwPathVectorFree v.pathVec)
    onStore (fwDirVectorFree v.dirVec)
    onStore (free v.state)
    setVars fun v => { v with state := .null, pathVec := .zero, dirVec := .zero }

/-- The label `cleanup` of `jfs_fw_state_create`. -/
def createCleanup : OnMem Unit := do
  let v ← getVars
  if v.state ≠ .null then
    onStore (fwDirVectorFree v.dirVec)
    onStore (fwPathVectorFree v.pathVec)
    onStore (free v.state)
  onStore (jfsFioPathFree v.path)
  setVars fun v => { v with state := .null, pathVec := .zero, dirVec := .zero, path := zeroPath }

/-- `jfs_fw_state_create`. -/
def jfsFwStateCreate (env : Env) (startPath : Owned Path) : OnMem Unit := do
  match ← (fwCreate env startPath).attempt with
  | .ok () => return ()
  | .error e =>
    createCleanup
    onStore (onSys (failWith env e))

/-- `jfs_fw_record_init`. -/
def jfsFwRecordInit (env : Env) : OnMem OwnedRecord := do
  let v ← getVars
  if 0 < v.pathVec.count then onStore (onSys (failWith env .fwState))
  let newDirArray ← onStore (checkErr env (fwDirVectorToArray env v.dirVec))
  setVars fun v => { v with dirVec := .zero }
  jfsFwStateDestroy
  return { dirCount := v.dirVec.count, dirArray := newDirArray }

/-- `jfs_fw_record_free`. -/
def jfsFwRecordFree (record : OwnedRecord) : OnStore Unit :=
  freeArray jfsFwDirFree { record.dirArray with val := record.dirArray.val.take record.dirCount }

/-! ### `file_walk_test` -/

/-- How the loop of `file_walk_test` ends. -/
structure WalkEnd where
  mem : Mem
  err : JfsErr
  /-- Whether it went to `cleanup`. -/
  cleanup : Bool

/-- One turn of the loop of `file_walk_test`. -/
def walkTurn (env : Env) (m : Mem) : Turn Mem WalkEnd :=
  let r := jfsFwStateStep env m
  if r.more then
    if r.err = .fwSkip then .again { r.mem with store.world := r.mem.store.world.next env }
    else if r.err ≠ .ok then .leave { mem := r.mem, err := r.err, cleanup := true }
    else .again r.mem
  else .leave { mem := r.mem, err := r.err, cleanup := false }

/-- The loop of `file_walk_test`, for at most `fuel` steps. -/
def walkLoop (env : Env) (fuel : ℕ) (m : Mem) : Option WalkEnd := loop (walkTurn env) fuel m

/-- The label `cleanup` of `file_walk_test`. -/
def testCleanup (env : Env) (path : Owned Path) (e : JfsErr) : OnMem Unit := do
  onStore (jfsFioPathFree path)
  jfsFwStateDestroy
  onStore (onSys (failWith env e))

/-- The names of the files of a directory are printed. -/
def printFiles (env : Env) (files : Pointer) : List OwnedFile → OnStore Unit
  | [] => return ()
  | file :: rest => do
    touch files
    touch file.name.ptr
    onSys (logErr env)
    printFiles env files rest

/-- The directories of a record are printed. -/
def printDirs (env : Env) (dirArray : Pointer) : List OwnedDir → OnStore Unit
  | [] => return ()
  | dir :: rest => do
    touch dirArray
    touch dir.path.ptr
    onSys (logErr env)
    printFiles env dir.files.ptr (dir.files.val.take dir.fileCount)
    printDirs env dirArray rest

/-- What `file_walk_test` prints of a record. -/
def printRecord (env : Env) (record : OwnedRecord) : OnStore Unit := do
  printDirs env record.dirArray.ptr (record.dirArray.val.take record.dirCount)
  onSys (logErr env)
  onSys (logErr env)

/-- `file_walk_test` for a start path, from its loop on. -/
def testWalk (env : Env) (verboseFlag : Bool) (fuel : ℕ) (path : Owned Path) (m : Mem) : Option (Except JfsErr Unit × Mem) :=
  match walkLoop env fuel m with
  | none => none
  | some r =>
    if r.cleanup then some (testCleanup env path r.err r.mem)
    else
      match jfsFwRecordInit env r.mem with
      | (.error e, m) => some (testCleanup env path e m)
      | (.ok record, m) =>
        some ((do
          if verboseFlag then onStore (printRecord env record)
          onStore (jfsFwRecordFree record)) m)

/-- `file_walk_test`, with the loop for at most `fuel` steps. `path` is freed at the label `cleanup` only. -/
def fileWalkTest (env : Env) (verboseFlag : Bool) (fuel : ℕ) (pathStr : CString) (m : Mem) :
    Option (Except JfsErr Unit × Mem) :=
  match onStore (jfsFioPathInit env pathStr) m with
  | (.error e, m) => some (testCleanup env zeroPath e m)
  | (.ok path, m) =>
    match jfsFwStateCreate env path m with
    | (.error e, m) => some (testCleanup env path e m)
    | (.ok (), m) => testWalk env verboseFlag fuel path m

end Memory

end FileSync.FileWalk
