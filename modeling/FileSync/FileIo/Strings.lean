import FileSync.FileIo
import FileSync.Lib.CString

/-!
# Paths and names in memory

The strings of paths and names are given as lists without the `NUL`, and their lengths are
kept beside them. Here are the bytes: a path is sound if its length is the one that
`strlen` counts and is at most `PATH_MAX`. What `jfs_fio_path_init` and
`jfs_fio_name_init` make is sound, and `jfs_fio_path_buf_compose` writes the whole path
of an entry into its buffer if it reports no error.
-/

namespace FileSync.FileIo

open FileSync.Lib

/-- What `jfs_fio_path_init` makes of a string that is not too long. -/
def initPath (str : CString) : Path := { len := pathStrLen str, str := str.take (pathStrLen str) }

/-- The block that `path->str` points to. -/
def Path.mem (path : Path) : List UInt8 := path.str ++ [0]

/-- The block that `name->str` points to. -/
def Name.mem (name : Name) : List UInt8 := name.str ++ [0]

/-- `buf->data` after `jfs_fio_path_buf_clear`. -/
def clearedData : List UInt8 := List.replicate (PATH_MAX + 1) 0

/-- `buf->data` after `jfs_fio_path_buf_compose`, if it reports no error. -/
def composedData (path : Path) (name : Name) : List UInt8 :=
  writeString clearedData (stringAt path.mem ++ slash :: stringAt name.mem)

/-- **The length of a path is right**, and not too large. -/
structure Path.Sound (path : Path) : Prop where
  noNul : 0 ∉ path.str
  len : path.len = strlen path.mem
  max : path.len ≤ PATH_MAX

/-- **The length of a name is right**, and not too large. -/
structure Name.Sound (name : Name) : Prop where
  noNul : 0 ∉ name.str
  len : name.len = strlen name.mem
  max : name.len ≤ NAME_MAX

/-- **What is composed** is the path, a slash and the name, and the rest of the buffer is
clear. -/
structure Composed (path : Path) (name : Name) (buf : PathBuf) : Prop where
  text : buf.data = path.str ++ slash :: name.str
  data : composedData path name = buf.data ++ List.replicate (PATH_MAX + 1 - buf.len) 0
  terminated : buf.len < PATH_MAX + 1
  len : buf.len = strlen (composedData path name)

/-! ### Lengths -/

theorem length_take_pathStrLen (str : CString) : (str.take (pathStrLen str)).length = pathStrLen str := by
  rw [List.length_take]
  unfold pathStrLen
  split_ifs
  · omega
  · omega

theorem le_pathStrLen (str : CString) : str.length ≤ pathStrLen str + 1 := by
  unfold pathStrLen
  split_ifs
  · omega
  · omega

theorem pathStrLen_le (str : CString) : pathStrLen str ≤ str.length := by
  unfold pathStrLen
  split_ifs
  · omega
  · omega

/-- What has been initialised can be initialised again. -/
theorem pathStrLen_initPath {str : CString} (h : pathStrLen str ≤ PATH_MAX) :
    pathStrLen (initPath str).str ≤ PATH_MAX := by
  refine Nat.le_trans (pathStrLen_le _) ?_
  rw [initPath, length_take_pathStrLen]
  exact h

theorem Path.strlen_mem {path : Path} (h : 0 ∉ path.str) : strlen path.mem = path.str.length := strlen_append h []

theorem Name.strlen_mem {name : Name} (h : 0 ∉ name.str) : strlen name.mem = name.str.length := strlen_append h []

theorem Path.Sound.length {path : Path} (h : path.Sound) : path.len = path.str.length :=
  h.len.trans (Path.strlen_mem h.noNul)

theorem Name.Sound.length {name : Name} (h : name.Sound) : name.len = name.str.length :=
  h.len.trans (Name.strlen_mem h.noNul)

/-- A path or a name that is as long as it says. -/
theorem Path.sound_of_length {path : Path} (hnul : 0 ∉ path.str) (hlen : path.len = path.str.length)
    (hmax : path.len ≤ PATH_MAX) : path.Sound :=
  ⟨hnul, hlen.trans (Path.strlen_mem hnul).symm, hmax⟩

theorem Name.sound_of_length {str : CString} (hnul : 0 ∉ str) (hmax : str.length ≤ NAME_MAX) :
    Name.Sound { len := str.length, str := str } :=
  ⟨hnul, (strlen_append hnul []).symm, hmax⟩

/-! ### Initialising and composing -/

/-- The block that `jfs_fio_path_init` fills is the block of the path, whatever was in it. -/
theorem strlcpy_path {pathStr junk : CString} (hjunk : junk.length = pathStrLen pathStr + 1) :
    writeString junk pathStr = (initPath pathStr).mem := by
  rw [writeString, hjunk, Nat.add_sub_cancel, length_take_pathStrLen, ← hjunk, List.drop_length]
  rfl

/-- The block that `jfs_fio_name_init` fills. -/
theorem strlcpy_name {nameStr junk : CString} (hjunk : junk.length = nameStr.length + 1) :
    writeString junk nameStr = Name.mem { len := nameStr.length, str := nameStr.take nameStr.length } := by
  rw [writeString, hjunk, Nat.add_sub_cancel, List.take_length, ← hjunk, List.drop_length]
  rfl

/-- A path without its slash at the end. -/
theorem sound_initPath {str : CString} (hnul : 0 ∉ str) (h : pathStrLen str ≤ PATH_MAX) : (initPath str).Sound :=
  Path.sound_of_length (fun hmem => hnul (List.mem_of_mem_take hmem)) (length_take_pathStrLen str).symm h

/-- **A composed path that is not too long** is the whole path of the entry. -/
theorem composed_of_ok {env : Env} {path : Path} {name : Name} {w w' : World} {buf : PathBuf} (hpath : path.Sound)
    (hname : name.Sound) (h : jfsFioPathBufCompose env path name w = (.ok buf, w')) : Composed path name buf := by
  have hlen : (path.str ++ slash :: name.str).length = path.len + name.len + 1 := by
    rw [List.length_append, List.length_cons, hpath.length, hname.length]
    omega
  have hnul : 0 ∉ path.str ++ slash :: name.str := by
    rw [List.mem_append, List.mem_cons]
    rintro (hmem | hslash | hmem)
    · exact hpath.noNul hmem
    · exact absurd hslash (by decide)
    · exact hname.noNul hmem
  unfold jfsFioPathBufCompose at h
  simp only at h
  by_cases h₀ : path.len = 0
  · rw [if_pos h₀] at h
    cases h
  by_cases hlong : PATH_MAX < path.len + name.len + 1
  · rw [if_neg h₀, if_pos hlong] at h
    cases h
  rw [if_neg h₀, if_neg hlong] at h
  obtain rfl : _ = buf := Except.ok.inj (congrArg Prod.fst h)
  have htext : (path.str ++ slash :: name.str).take PATH_MAX = path.str ++ slash :: name.str := by
    apply List.take_of_length_le
    rw [hlen]
    exact Nat.not_lt.mp hlong
  have hfits : (path.str ++ slash :: name.str).length < clearedData.length := by
    rw [hlen, clearedData, List.length_replicate]
    omega
  have hdata : composedData path name =
      path.str ++ slash :: name.str ++ 0 :: clearedData.drop (path.len + name.len + 1 + 1) := by
    rw [composedData, show stringAt path.mem = path.str from stringAt_append hpath.noNul [],
      show stringAt name.mem = name.str from stringAt_append hname.noNul [], writeString_of_lt hfits, hlen]
  have hrest : PATH_MAX + 1 - (path.len + name.len + 1) = PATH_MAX + 1 - (path.len + name.len + 1 + 1) + 1 := by
    omega
  refine ⟨htext, ?_, Nat.lt_succ_of_le (Nat.not_lt.mp hlong), ?_⟩
  · rw [hdata, htext, hrest, List.replicate_succ, clearedData, List.drop_replicate]
  · rw [hdata, strlen_append hnul, hlen]

end FileSync.FileIo
