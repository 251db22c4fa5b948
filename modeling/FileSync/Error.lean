import Mathlib.Tactic.TypeStar

/-!
# Errors

The error values of `error.h`. Functions of the source take a `jfs_err_t *err`
that holds `JFS_OK` on entry and set it when they fail; here a function returns
the value its error variable has afterwards, or `Except JfsErr`.
-/

namespace FileSync

/-- `jfs_err_t`, in the order of `JFS_ERROR_LIST`. -/
inductive JfsErr where
  | ok
  | sys
  | inter
  | again
  | access
  | invalPath
  | arg
  | empty
  | full
  | badConf
  | getaddrinfo
  | lanHostUnreach
  | connectionAbort
  | connectionReset
  | pipe
  | mutexBusy
  | condBusy
  | condTimedOut
  | fioPathLen
  | fioNameLen
  | fioPathOverflow
  | fioFileEnd
  | fwState
  | fwSkip
  | fwFail
  | fwUnsupported
  | fwUnknown
  | nsBadAccept
  | nsBadAddr
  | nsConnectionClose
  | bstBadKey
  deriving DecidableEq, Repr

/-- An address: `uintptr_t`, or a pointer taken as one. -/
abbrev Addr := UInt64

/-- `NULL`. -/
def NULL : Addr := 0

end FileSync
