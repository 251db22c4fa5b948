import FileSync.FileWalk.Code
import Mathlib.Tactic.Common

/-!
# Directory trees

What a walk is meant to find, apart from how it does it. A `Listing` is what
`readdir` gives for a directory, with the listings of its subdirectories: a finite
directory tree. `Listing.descendants` are its directories in preorder, the subdirectories
of each directory in reverse order; `Listing.reachable` leaves out those that cannot
be opened and what is below them.

`Listing.visited` are the directories that the walk looks at as long as no error
ends it.
-/

namespace FileSync.FileWalk

open FileSync.Lib FileSync.FileIo

/-- The path of an entry of a directory. -/
def childPath (path name : CString) : CString := path ++ slash :: name

/-- An entry that is a subdirectory. -/
structure IsSubdir (ent : Dirent) : Prop where
  type : ent.type = DT_DIR
  notDot : isDot ent.name = false
  nonempty : ent.name ≠ []
  noSlash : slash ∉ ent.name

/-- What the walk records of an entry: `.`, `..` and everything but regular files and
directories is left out. -/
def fileOf (ent : Dirent) : Option FwFile :=
  if isDot ent.name then none
  else if ent.type = DT_REG then
    some { type := .reg, name := { len := ent.name.length, str := ent.name }, inode := ent.ino }
  else if ent.type = DT_DIR then
    some { type := .dir, name := { len := ent.name.length, str := ent.name }, inode := ent.ino }
  else none

/-- An entry that does not stop `fw_scan_dir`: its type is known, and its name is not too
long if it is a regular file or a directory. -/
def Scans (ent : Dirent) : Prop :=
  isDot ent.name = true ∨
    ent.type ≠ DT_UNKNOWN ∧ (ent.type = DT_REG ∨ ent.type = DT_DIR → ent.name.length ≤ NAME_MAX)

instance (ent : Dirent) : Decidable (Scans ent) := inferInstanceAs (Decidable (_ ∨ _))

section Entries

variable {ent : Dirent} {file : FwFile}

/-- An entry that is recorded is a regular file or a directory. -/
theorem fileOf_eq_some (h : fileOf ent = some file) :
    isDot ent.name = false ∧ (ent.type = DT_REG ∨ ent.type = DT_DIR) ∧
      file = { type := file.type, name := { len := ent.name.length, str := ent.name }, inode := ent.ino } := by
  unfold fileOf at h
  split_ifs at h with hdot hreg hdir
  · rw [← Option.some.inj h]
    exact ⟨by simpa using hdot, .inl hreg, rfl⟩
  · rw [← Option.some.inj h]
    exact ⟨by simpa using hdot, .inr hdir, rfl⟩

theorem fileOf_eq_none (h : fileOf ent = none) (hdot : isDot ent.name = false) :
    ent.type ≠ DT_REG ∧ ent.type ≠ DT_DIR := by
  rw [fileOf, hdot, if_neg Bool.false_ne_true] at h
  split_ifs at h with hreg hdir
  exact ⟨hreg, hdir⟩

/-- What is recorded of an entry that is not a subdirectory is a regular file. -/
theorem type_of_entry (hent : isDot ent.name = true ∨ ent.type ≠ DT_DIR)
    (hfile : fileOf ent = some file) : file.type = .reg := by
  unfold fileOf at hfile
  split_ifs at hfile with hdot hreg hdir
  · rw [← Option.some.inj hfile]
  · exact absurd hdir (hent.resolve_left hdot)

theorem fileOf_subdir (hsub : IsSubdir ent) : fileOf ent =
    some { type := .dir, name := { len := ent.name.length, str := ent.name }, inode := ent.ino } := by
  rw [fileOf, hsub.notDot, if_neg Bool.false_ne_true, hsub.type, if_neg (by decide), if_pos rfl]

end Entries

/-- The path with the right length. -/
def pathOf (str : CString) : Path := { len := str.length, str := str }

/-- **A directory tree**: the entries of a directory in the order of `readdir`, each
subdirectory with its own. `.` and `..` are entries as any other. -/
inductive Listing
  /-- No more entries. -/
  | nil
  /-- An entry that is not a subdirectory. -/
  | entry (ent : Dirent) (h : isDot ent.name = true ∨ ent.type ≠ DT_DIR) (rest : Listing)
  /-- A subdirectory. -/
  | subdir (ent : Dirent) (h : IsSubdir ent) (content rest : Listing)

namespace Listing

/-- The entries of the directory. -/
def dirents : Listing → List Dirent
  | nil => []
  | entry ent _ rest => ent :: rest.dirents
  | subdir ent _ _ rest => ent :: rest.dirents

/-- The entries that are recorded. -/
def files (L : Listing) : List FwFile := L.dirents.filterMap fileOf

/-- No entry stops `fw_scan_dir`. -/
def AllScan (L : Listing) : Prop := ∀ ent ∈ L.dirents, Scans ent

instance (L : Listing) : Decidable L.AllScan := inferInstanceAs (Decidable (∀ ent ∈ L.dirents, Scans ent))

/-- **The directories below the directory at `path`**, with their paths, in preorder. -/
def descendants (path : CString) : Listing → List (CString × Listing)
  | nil => []
  | entry _ _ rest => rest.descendants path
  | subdir ent _ content rest =>
    rest.descendants path ++ (childPath path ent.name, content) :: content.descendants (childPath path ent.name)

/-- The directory and those below it. -/
def all (path : CString) (L : Listing) : List (CString × Listing) := (path, L) :: L.descendants path

variable (denied : CString → Bool)

/-- The directories below the directory at `path` that can be reached through directories
that are not denied. -/
def reachable (path : CString) : Listing → List (CString × Listing)
  | nil => []
  | entry _ _ rest => rest.reachable path
  | subdir ent _ content rest =>
    rest.reachable path ++ if denied (childPath path ent.name) then [] else
      (childPath path ent.name, content) :: content.reachable (childPath path ent.name)

/-- The directories that a walk looks at below the directory at `path`: it drops paths that
are too long, and does not get into those that are denied. -/
def visited (path : CString) : Listing → List (CString × Listing)
  | nil => []
  | entry _ _ rest => rest.visited path
  | subdir ent _ content rest =>
    rest.visited path ++ if PATH_MAX < (childPath path ent.name).length then [] else
      (childPath path ent.name, content) ::
        if denied (childPath path ent.name) then [] else content.visited (childPath path ent.name)

/-- The subdirectories that a step pushes. -/
def kids (path : CString) : Listing → List (CString × Listing)
  | nil => []
  | entry _ _ rest => rest.kids path
  | subdir ent _ content rest =>
    (if PATH_MAX < (childPath path ent.name).length then [] else [(childPath path ent.name, content)]) ++
      rest.kids path

/-- What a walk looks at from one pending directory on. -/
def visitsFrom (d : CString × Listing) : List (CString × Listing) :=
  d :: if denied d.1 then [] else d.2.visited denied d.1

variable {denied}

/-- The walk visits what it has pushed, the last path first. -/
theorem visited_eq (path : CString) (L : Listing) :
    L.visited denied path = (L.kids path).reverse.flatMap (visitsFrom denied) := by
  induction L with
  | nil => rfl
  | entry ent h rest ih => exact ih
  | subdir ent h content rest _ ih =>
    rw [visited, kids, List.reverse_append, List.flatMap_append, ← ih]
    split_ifs with hlen
    · simp
    · simp [visitsFrom, ‹denied _ = _›]
    · simp [visitsFrom, ‹¬ denied _ = _›]

/-- Where all paths are short enough, the directories that the walk visits and that can be
opened are those that can be reached. -/
theorem visited_filter (path : CString) (L : Listing) (h : ∀ d ∈ L.descendants path, d.1.length ≤ PATH_MAX) :
    (L.visited denied path).filter (fun d => !denied d.1) = L.reachable denied path := by
  induction L generalizing path with
  | nil => rfl
  | entry ent _ rest ih => exact ih path h
  | subdir ent _ content rest ihc ih =>
    rw [descendants, List.forall_mem_append, List.forall_mem_cons] at h
    obtain ⟨hrest, hlen, hcontent⟩ := h
    rw [visited, reachable, List.filter_append, ih path hrest, if_neg (Nat.not_lt.mpr hlen)]
    by_cases hd : denied (childPath path ent.name) = true
    · simp [hd]
    · simp [hd, ihc _ hcontent]

theorem visited_subset (path : CString) (L : Listing) : ∀ d ∈ L.visited denied path, d ∈ L.descendants path := by
  induction L generalizing path with
  | nil => simp [visited]
  | entry ent _ rest ih => exact ih path
  | subdir ent _ content rest ihc ih =>
    intro d hd
    rw [visited, List.mem_append] at hd
    rw [descendants, List.mem_append]
    refine hd.imp (ih path d) fun hd => ?_
    split_ifs at hd
    · simp at hd
    · exact List.mem_cons.mpr ((List.mem_cons.mp hd).imp id (by simp))
    · exact List.mem_cons.mpr ((List.mem_cons.mp hd).imp id (ihc _ d))

/-- What is in or below a subdirectory is below the directory. -/
theorem all_kids_subset {path : CString} {L : Listing} {k : CString × Listing} (hk : k ∈ L.kids path) :
    k.1 ≠ [] ∧ ∀ d ∈ k.2.all k.1, d ∈ L.descendants path := by
  induction L with
  | nil => simp [kids] at hk
  | entry ent _ rest ih => exact ih hk
  | subdir ent _ content rest _ ih =>
    rw [kids, List.mem_append] at hk
    rcases hk with hk | hk
    · split_ifs at hk
      · simp at hk
      · rw [List.mem_singleton.mp hk]
        refine ⟨by simp [childPath], fun d hd => ?_⟩
        rw [descendants]
        exact List.mem_append_right _ hd
    · obtain ⟨hne, hall⟩ := ih hk
      refine ⟨hne, fun d hd => ?_⟩
      rw [descendants]
      exact List.mem_append_left _ (hall d hd)

/-- A subdirectory is in the directory. -/
theorem exists_of_mem_kids {path : CString} {L : Listing} {k : CString × Listing} (hk : k ∈ L.kids path) :
    ∃ name, name ≠ [] ∧ k.1 = childPath path name := by
  induction L with
  | nil => simp [kids] at hk
  | entry ent _ rest ih => exact ih hk
  | subdir ent hsub content rest _ ih =>
    rw [kids, List.mem_append] at hk
    rcases hk with hk | hk
    · split_ifs at hk
      · simp at hk
      · rw [List.mem_singleton.mp hk]
        exact ⟨ent.name, hsub.nonempty, rfl⟩
    · exact ih hk

theorem reachable_none (path : CString) (L : Listing) :
    L.reachable (fun _ => false) path = L.descendants path := by
  induction L generalizing path with
  | nil => rfl
  | entry ent _ rest ih => exact ih path
  | subdir ent _ content rest ihc ih => simp [reachable, descendants, ih, ihc]

theorem reachable_sublist (path : CString) (L : Listing) :
    (L.reachable denied path).Sublist (L.descendants path) := by
  induction L generalizing path with
  | nil => exact List.Sublist.refl _
  | entry ent _ rest ih => exact ih path
  | subdir ent _ content rest ihc ih =>
    rw [reachable, descendants]
    refine (ih path).append ?_
    split_ifs
    · exact List.nil_sublist _
    · exact (ihc _).cons_cons _

end Listing

/-- **What is recorded of a directory**: its path and its entries. -/
def dirOf (d : CString × Listing) : FwDir :=
  { path := pathOf d.1, files := d.2.files, fileCount := d.2.files.length }

/-! ### Paths are different -/

/-- No directory has two entries with the same name. -/
def Listing.DistinctNames (L : Listing) : Prop := (L.dirents.map Dirent.name).Nodup

instance (L : Listing) : Decidable L.DistinctNames := inferInstanceAs (Decidable (List.Nodup _))

namespace Listing

/-- A path below a directory goes on with the name of one of its entries. -/
theorem exists_of_mem_descendants {path : CString} {L : Listing} {d : CString × Listing}
    (h : d ∈ L.descendants path) : ∃ name rest, name ∈ L.dirents.map Dirent.name ∧ slash ∉ name ∧
      d.1 = childPath path name ++ rest ∧ (rest = [] ∨ ∃ r, rest = slash :: r) := by
  induction L generalizing path with
  | nil => simp [descendants] at h
  | entry ent _ rest ih =>
    obtain ⟨name, r, hname, hd⟩ := ih h
    exact ⟨name, r, List.mem_cons_of_mem _ hname, hd⟩
  | subdir ent hsub content rest ihc ih =>
    rw [descendants, List.mem_append, List.mem_cons] at h
    rcases h with h | rfl | h
    · obtain ⟨name, r, hname, hd⟩ := ih h
      exact ⟨name, r, List.mem_cons_of_mem _ hname, hd⟩
    · exact ⟨ent.name, [], List.mem_cons_self .., hsub.noSlash, (List.append_nil _).symm, .inl rfl⟩
    · obtain ⟨name, r, -, -, hd, -⟩ := ihc h
      refine ⟨ent.name, slash :: (name ++ r), List.mem_cons_self .., hsub.noSlash, ?_, .inr ⟨_, rfl⟩⟩
      rw [hd, childPath, List.append_assoc, List.cons_append]

/-- A name without a slash is what comes before the first slash. -/
theorem takeWhile_name {name rest : CString} (h : slash ∉ name) (hr : rest = [] ∨ ∃ r, rest = slash :: r) :
    (name ++ rest).takeWhile (fun c => c != slash) = name := by
  have hname : ∀ c ∈ name, (c != slash) = true := by
    intro c hc
    rw [bne_iff_ne]
    rintro rfl
    exact h hc
  rw [List.takeWhile_append_of_pos hname]
  rcases hr with rfl | ⟨r, rfl⟩
  · simp
  · simp

/-- **No path occurs twice** if no directory has two entries with the same name. -/
theorem nodup_descendants {path : CString} {L : Listing} (hL : L.DistinctNames)
    (h : ∀ d ∈ L.descendants path, d.2.DistinctNames) : ((L.descendants path).map Prod.fst).Nodup := by
  induction L generalizing path with
  | nil => exact List.nodup_nil
  | entry ent _ rest ih => exact ih (List.nodup_cons.mp hL).2 h
  | subdir ent hsub content rest ihc ih =>
    obtain ⟨hent, hrest⟩ := List.nodup_cons.mp hL
    rw [descendants, List.forall_mem_append, List.forall_mem_cons] at h
    rw [descendants, List.map_append, List.map_cons, List.nodup_append, List.nodup_cons]
    refine ⟨ih hrest h.1, ⟨?_, ihc h.2.1 h.2.2⟩, ?_⟩
    · -- what is below a directory has a longer path
      rintro hm
      obtain ⟨d, hd, e⟩ := List.mem_map.mp hm
      obtain ⟨name, r, -, -, e', -⟩ := exists_of_mem_descendants hd
      have hlen := congrArg List.length (e.symm.trans e')
      simp only [childPath, List.length_append, List.length_cons] at hlen
      omega
    · rintro q hq q' hq' rfl
      obtain ⟨d, hd, rfl⟩ := List.mem_map.mp hq
      obtain ⟨name, r, hname, hslash, e, hr⟩ := exists_of_mem_descendants hd
      obtain ⟨r', e', hr'⟩ : ∃ r', d.1 = childPath path ent.name ++ r' ∧ (r' = [] ∨ ∃ s, r' = slash :: s) := by
        rcases List.mem_cons.mp hq' with e' | hm
        · exact ⟨[], by rw [e', List.append_nil], .inl rfl⟩
        · obtain ⟨d', hd', e'⟩ := List.mem_map.mp hm
          obtain ⟨name', r', -, -, e'', -⟩ := exists_of_mem_descendants hd'
          exact ⟨slash :: (name' ++ r'), by rw [← e', e'', childPath, List.append_assoc, List.cons_append],
            .inr ⟨_, rfl⟩⟩
      have hcommon := e.symm.trans e'
      simp only [childPath, List.append_assoc, List.cons_append, List.append_cancel_left_eq, List.cons.injEq,
        true_and] at hcommon
      have heq := congrArg (List.takeWhile fun c => c != slash) hcommon
      rw [takeWhile_name hslash hr, takeWhile_name hsub.noSlash hr'] at heq
      rw [heq] at hname
      exact hent hname

/-- No path occurs twice in a tree. -/
theorem nodup_all {path : CString} {L : Listing} (h : ∀ d ∈ L.all path, d.2.DistinctNames) :
    ((L.all path).map Prod.fst).Nodup := by
  rw [all, List.forall_mem_cons] at h
  rw [all, List.map_cons, List.nodup_cons]
  refine ⟨?_, nodup_descendants h.1 h.2⟩
  intro hm
  obtain ⟨d, hd, e⟩ := List.mem_map.mp hm
  obtain ⟨name, r, -, -, e', -⟩ := exists_of_mem_descendants hd
  have hlen := congrArg List.length (e.symm.trans e')
  simp only [childPath, List.length_append, List.length_cons] at hlen
  omega

end Listing

end FileSync.FileWalk
