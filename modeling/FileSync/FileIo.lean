import FileSync.Error
import FileSync.Lib.Fallible
import Mathlib.Data.Nat.Notation

/-!
# Paths and names

The part of `file_io.c` that makes paths and names, and what it needs of the C
library and of `error.c`. A string is the list of its bytes without the `NUL` at
its end. The library is an environment: it says which allocations succeed, what
every call leaves in `errno`, and what is in a directory.
-/

namespace FileSync.FileIo

open FileSync.Lib

/-- A C string, without the `NUL` at its end. -/
abbrev CString := List UInt8

/-- `PATH_MAX`. -/
def PATH_MAX : ℕ := 4096

/-- `NAME_MAX`. -/
def NAME_MAX : ℕ := 255

/-- The character `/`. -/
def slash : UInt8 := 47

/-- `EACCES`. -/
def EACCES : ℕ := 13

/-- `ENOENT`. -/
def ENOENT : ℕ := 2

/-- `ENOTDIR`. -/
def ENOTDIR : ℕ := 20

/-- `struct dirent`, as far as it is read. -/
structure Dirent where
  /-- The inode number. -/
  ino : UInt64
  /-- The type of the entry. -/
  type : UInt8
  /-- Its name. -/
  name : CString
  deriving DecidableEq, Repr

/-- `DIR`: what `readdir` will give. -/
structure Dir where
  /-- The entries, in order. -/
  entries : List Dirent
  /-- The `errno` with which `readdir` fails after them, if it does. -/
  failure : Option ℕ
  deriving DecidableEq, Repr

/-- The C library and the file system. Calls are numbered. -/
structure Env where
  /-- Whether the allocation with this number succeeds. -/
  alloc : ℕ → Bool
  /-- What the call with this number leaves in `errno`, given what was there. -/
  errno : ℕ → ℕ → ℕ
  /-- The directory that the call with this number opens, or the `errno`. -/
  opendir : ℕ → CString → Except ℕ Dir

/-- The state of the library. -/
structure World where
  /-- The number of the next call. -/
  calls : ℕ
  /-- `errno`. -/
  errno : ℕ
  deriving DecidableEq, Repr

/-- A computation that calls the library. -/
abbrev Sys (α : Type) := Fallible World JfsErr α

/-! ### The library, and `error.c` -/

/-- A call that may change `errno`. -/
def World.next (env : Env) (w : World) : World := { calls := w.calls + 1, errno := env.errno w.calls w.errno }

/-- `printf`, in `LOG_ERR`, `RES_ERR` and `REMAP_ERR`. -/
def logErr (env : Env) : Sys Unit := Fallible.modify (World.next env)

/-- `*err = e` and `VOID_RETURN_ERR`: what `VOID_FAIL_IF` does. -/
def failWith {α : Type} (env : Env) (e : JfsErr) : Sys α := do
  logErr env
  Fallible.fail e

/-- A call followed by `VOID_CHECK_ERR`: the error is logged again, and returned. -/
def checkErr {α : Type} (env : Env) (m : Sys α) : Sys α := do
  match ← m.attempt with
  | .ok a => return a
  | .error e => failWith env e

/-- An allocation, which fails with `JFS_ERR_SYS`. -/
def allocate (env : Env) : Sys Unit := do
  let w ← Fallible.get
  Fallible.modify (World.next env)
  if env.alloc w.calls then return () else failWith env .sys

/-- `jfs_malloc`. -/
def jfsMalloc (env : Env) : Sys Unit := allocate env

/-- `jfs_realloc`. -/
def jfsRealloc (env : Env) : Sys Unit := allocate env

/-- The error for the `errno` of a failed `opendir`. -/
def opendirErr (errno : ℕ) : JfsErr :=
  if errno = ENOENT ∨ errno = ENOTDIR then .invalPath
  else if errno = EACCES then .access
  else .sys

/-- `jfs_opendir`. -/
def jfsOpendir (env : Env) (path : CString) : Sys Dir := do
  let w ← Fallible.get
  Fallible.modify (World.next env)
  match env.opendir w.calls path with
  | .ok dir => return dir
  | .error errno =>
    Fallible.modify fun w => { w with errno := errno }
    failWith env (opendirErr errno)

/-! ### Paths and names -/

/-- `jfs_fio_path_t`. -/
structure Path where
  /-- The length that is kept with the string. -/
  len : ℕ
  /-- The string. -/
  str : CString
  deriving DecidableEq, Repr

/-- `jfs_fio_name_t`. -/
structure Name where
  /-- The length that is kept with the string. -/
  len : ℕ
  /-- The string. -/
  str : CString
  deriving DecidableEq, Repr

/-- `jfs_fio_path_buf_t`, with the string that is in `data`. -/
structure PathBuf where
  /-- The length that is kept with the string. -/
  len : ℕ
  /-- The string. -/
  data : CString
  deriving DecidableEq, Repr

/-- The length without one trailing slash. -/
def pathStrLen (pathStr : CString) : ℕ :=
  if 1 < pathStr.length ∧ pathStr.getLast? = some slash then pathStr.length - 1 else pathStr.length

/-- `jfs_fio_path_init`. -/
def jfsFioPathInit (env : Env) (pathStr : CString) : Sys Path := do
  let len := pathStrLen pathStr
  if PATH_MAX < len then failWith env .fioPathLen
  checkErr env (jfsMalloc env)
  return { len := len, str := pathStr.take len }

/-- `jfs_fio_name_init`. -/
def jfsFioNameInit (env : Env) (nameStr : CString) : Sys Name := do
  if NAME_MAX < nameStr.length then failWith env .fioNameLen
  checkErr env (jfsMalloc env)
  return { len := nameStr.length, str := nameStr.take nameStr.length }

/-- `jfs_fio_path_buf_compose`. `snprintf` writes at most `PATH_MAX` characters. -/
def jfsFioPathBufCompose (env : Env) (path : Path) (name : Name) : Sys PathBuf := do
  if path.len = 0 then failWith env .arg
  let newLen := path.len + name.len + 1
  if PATH_MAX < newLen then failWith env .fioPathOverflow
  return { len := newLen, data := (path.str ++ slash :: name.str).take PATH_MAX }

end FileSync.FileIo
