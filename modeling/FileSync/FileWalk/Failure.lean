import FileSync.FileWalk.Effect

/-!
# Steps that fail

What is left behind when a step fails, and how `fw_scan_dir` finds out that `readdir` has
failed. A step that fails should leave the walk as it was, or without its top path. It
does not if an allocation fails once a subdirectory has been pushed: `cleanup` frees what
the step has made, but the pushed paths stay, although the directory they are in is not
recorded.

`fw_scan_dir` clears `errno` once and tests it when the loop is over. In between are calls
that may set `errno` without failing, so the test is about `readdir` only if none of them
does.
-/

namespace FileSync.FileWalk

open FileSync.Lib FileSync.FileIo

variable {env : Env} {s : Walk}

/-! ### What a failed step leaves behind -/

/-- **What is asked of a step that fails**: nothing is recorded, and `path_vec` is as it
was or has lost its top path. -/
def StepAtomic (env : Env) (s : Walk) : Prop :=
  (jfsFwStateStep env s).err ≠ .ok →
    (jfsFwStateStep env s).walk.state.dirVec = s.state.dirVec ∧
      ((jfsFwStateStep env s).walk.state.pathVec = s.state.pathVec ∨
        (jfsFwStateStep env s).walk.state.pathVec = (popped s.state).pathVec)

/-- **An allocation fails late**: the directory has been read and some of its entries have
been gone through, with a subdirectory among them that is pushed; what is still to be
allocated in this step is not. -/
def LateFailure (env : Env) (s : Walk) : Prop :=
  ∃ top dir A, s.state.pathVec.items.getLast? = some top ∧ Reads env s.world top dir ∧
    A <+: dirFiles dir ∧ pushes top A ≠ [] ∧
    Served env s.world.calls (readPlan dir ++ pushPlan top A (popped s.state).pathVec) ∧
    ¬ Served env s.world.calls (stepPlan top dir (popped s.state).pathVec s.state.dirVec)

theorem pushes_nil_mono {path : Path} {A B : List FwFile} (h : A <+: B) (hB : pushes path B = []) :
    pushes path A = [] := by
  obtain ⟨C, rfl⟩ := h
  rw [pushes_append] at hB
  exact (List.append_eq_nil_iff.mp hB).1

/-- The path of an entry is not the path of the directory. -/
theorem childOf_ne {dirPath : Path} {name : CString} (hne : name ≠ [])
    (hlen : dirPath.len + name.length + 1 ≤ PATH_MAX) :
    childOf dirPath (entryName name) ≠ dirPath := by
  intro e
  have hstr : dirPath.len = dirPath.str.length := by
    rw [← e]
    exact (length_take_pathStrLen _).symm
  have hdata : (dirPath.str ++ slash :: name).take PATH_MAX = dirPath.str ++ slash :: name := by
    apply List.take_of_length_le
    rw [List.length_append, List.length_cons, ← hstr]
    omega
  have hsame : pathStrLen (dirPath.str ++ slash :: name) = dirPath.len := by
    rw [← hdata]
    exact congrArg Path.len e
  have hlen' := le_pathStrLen (dirPath.str ++ slash :: name)
  have hpos := List.length_pos_iff.mpr hne
  rw [hsame, List.length_append, List.length_cons, ← hstr] at hlen'
  omega

/-- A step that is interrupted leaves the paths that it has pushed. -/
theorem pathVec_ne_of_pushes {st : FwState} {xs : List Path} {top : Path} {dir : Dir} {A : List FwFile}
    (htop : st.pathVec.items = xs ++ [top]) (hnames : ∀ ent ∈ dir.entries, ent.name ≠ []) (hA : A <+: dirFiles dir)
    (hpush : pushes top A ≠ []) :
    (pushes top A).foldl Vec.pushed (popped st).pathVec ≠ st.pathVec ∧
      (pushes top A).foldl Vec.pushed (popped st).pathVec ≠ (popped st).pathVec := by
  have hpopped : (popped st).pathVec.items = xs := by
    rw [popped, htop, List.dropLast_concat]
  refine ⟨fun e => ?_, fun e => ?_⟩
  · have hitems := congrArg Vec.items e
    rw [items_foldl_pushed, hpopped, htop, List.append_cancel_left_eq] at hitems
    obtain ⟨file, hfile, -, hlen, hchild⟩ := exists_of_mem_pushes (show top ∈ pushes top A by rw [hitems]; simp)
    obtain ⟨ent, hent, -, hname⟩ := exists_of_mem_dirFiles (hA.subset hfile)
    rw [hname] at hlen hchild
    exact childOf_ne (hnames ent hent) hlen hchild.symm
  · have hitems := congrArg Vec.items e
    rw [items_foldl_pushed] at hitems
    exact hpush (List.self_eq_append_right.mp hitems.symm)

/-- **When a failed step is undone**: in every state and with any failures exactly if no
allocation fails late. -/
theorem stepAtomic_iff (hnames : EntryNames (· ≠ []) env) (s : Walk) : StepAtomic env s ↔ ¬ LateFailure env s := by
  obtain ⟨w, st⟩ := s
  rcases List.eq_nil_or_concat st.pathVec.items with hnil | ⟨xs, top, htop⟩
  · -- nothing is pending
    refine iff_of_true (fun herr => absurd ?_ herr) ?_
    · rw [stateStep_nil (s := ⟨w, st⟩) hnil]
    · rintro ⟨top, dir, A, hlast, -⟩
      rw [hnil] at hlast
      cases hlast
  rw [List.concat_eq_append] at htop
  have hne : st.pathVec.items ≠ [] := by
    rw [htop]
    simp
  have hlast : st.pathVec.items.getLast? = some top := by rw [htop, List.getLast?_concat]
  by_cases hread : ∃ dir, Reads env w top dir
  · obtain ⟨dir, hread⟩ := hread
    by_cases hs : Served env w.calls (stepPlan top dir (popped st).pathVec st.dirVec)
    · -- the step goes through
      obtain ⟨w', e⟩ := fwStep_complete htop hread hs
      refine iff_of_true (fun herr => absurd ?_ herr) ?_
      · rw [stateStep_ok hne e]
      · rintro ⟨top', dir', A, hlast', hread', -, -, -, hs'⟩
        obtain rfl : top = top' := Option.some.inj (hlast.symm.trans hlast')
        obtain rfl : dir = dir' := Except.ok.inj (hread.opened.symm.trans hread'.opened)
        exact hs' hs
    · obtain ⟨A, w', hA, hserved, e⟩ := fwStep_interrupted htop hread hs
      rw [StepAtomic, stateStep_error hne e]
      by_cases hpush : pushes top A = []
      · -- nothing has been pushed
        refine iff_of_true (fun _ => ⟨rfl, .inr ?_⟩) ?_
        · rw [hpush]
          rfl
        · rintro ⟨top', dir', A', hlast', hread', hA', hpush', hserved', -⟩
          obtain rfl : top = top' := Option.some.inj (hlast.symm.trans hlast')
          obtain rfl : dir = dir' := Except.ok.inj (hread.opened.symm.trans hread'.opened)
          exact hpush' (pushes_nil_mono ((hserved A' hA').mp hserved') hpush)
      · refine iff_of_false (fun h => ?_) ?_
        · obtain ⟨hunchanged, hpopped⟩ := pathVec_ne_of_pushes htop (hnames _ _ _ hread.opened) hA hpush
          have herr : remapErr .sys ≠ .ok := by decide
          obtain ⟨-, h | h⟩ := h herr
          · exact hunchanged h
          · exact hpopped h
        · rw [not_not]
          exact ⟨top, dir, A, hlast, hread, hA, hpush, (hserved A hA).mpr List.prefix_rfl, hs⟩
  · -- the directory could not be read
    refine iff_of_true (fun _ => ?_) ?_
    · obtain ⟨x, w', st', e, ⟨rfl, -⟩ | ⟨rfl, -⟩⟩ := fwStep_unread htop hread
      · rw [stateStep_error hne e]
        exact ⟨rfl, .inl rfl⟩
      · rw [stateStep_error hne e]
        exact ⟨rfl, .inr rfl⟩
    · rintro ⟨top', dir', A, hlast', hread', -⟩
      obtain rfl : top = top' := Option.some.inj (hlast.symm.trans hlast')
      exact hread ⟨dir', hread'⟩

/-- The directory `a` with one entry; the allocation with the number `failing` fails. -/
def oneEntryEnv (type : UInt8) (failing : ℕ) : Env where
  alloc n := n != failing
  errno _ e := e
  opendir _ _ := .ok { entries := [⟨1, type, [98]⟩], failure := none }

/-- `a` is pending. -/
def oneEntryWalk : Walk where
  world := { calls := 0, errno := 0 }
  state := { pathVec := { items := [pathOf [97]], capacity := 16 }, dirVec := { items := [], capacity := 16 } }

theorem oneEntryEnv_names (type : UInt8) (failing : ℕ) : EntryNames (· ≠ []) (oneEntryEnv type failing) := by
  rintro n path dir hopen ent hent
  rw [← Except.ok.inj hopen, List.mem_singleton] at hent
  rw [hent]
  exact List.cons_ne_nil _ _

/-- `a/b` is a regular file, and `fw_file_vector_to_array` fails: the path `a` is gone. -/
theorem stepAtomic_regular : (jfsFwStateStep (oneEntryEnv DT_REG 4) oneEntryWalk).err = .sys ∧
    StepAtomic (oneEntryEnv DT_REG 4) oneEntryWalk := by
  refine ⟨by decide, (stepAtomic_iff (oneEntryEnv_names DT_REG 4) oneEntryWalk).mpr ?_⟩
  rintro ⟨top, dir, A, -, hread, hA, hpush, -⟩
  obtain rfl : _ = dir := Except.ok.inj hread.opened
  have hreg : pushes top (dirFiles { entries := [⟨1, DT_REG, [98]⟩], failure := none }) = [] := rfl
  exact hpush (pushes_nil_mono hA hreg)

/-- `a/b` is a directory, and `fw_file_vector_to_array` fails: nothing is recorded, and `a/b`
stays pending. -/
theorem not_stepAtomic_subdir : EntryNames (· ≠ []) (oneEntryEnv DT_DIR 5) ∧
    (∀ n, (oneEntryEnv DT_DIR 5).alloc n = false ↔ n = 5) ∧ ¬ StepAtomic (oneEntryEnv DT_DIR 5) oneEntryWalk := by
  refine ⟨oneEntryEnv_names DT_DIR 5, fun n => ?_, fun h => ?_⟩
  · simp [oneEntryEnv]
  · obtain ⟨-, h | h⟩ := h (by decide)
    · revert h
      decide
    · revert h
      decide

/-! ### Whether `readdir` has failed -/

/-- No function of the library sets `errno` to zero. -/
def ErrnoSticks (env : Env) : Prop := ∀ n e, e ≠ 0 → env.errno n e ≠ 0

theorem errno_after_ne_zero (h : ErrnoSticks env) {n : ℕ} {w : World} (hw : w.errno ≠ 0) :
    (after env n w).errno ≠ 0 := by
  induction n generalizing w with
  | zero => exact hw
  | succ n ih => exact ih (h w.calls w.errno hw)

/-- `errno` is clear after some calls exactly if none of them has set it. -/
theorem errno_after_eq_zero_iff (h : ErrnoSticks env) (n c : ℕ) :
    (after env n { calls := c, errno := 0 }).errno = 0 ↔ ∀ k < n, env.errno (c + k) 0 = 0 := by
  induction n generalizing c with
  | zero => simp [after]
  | succ n ih =>
    by_cases hfirst : env.errno c 0 = 0
    · have hnext : World.next env { calls := c, errno := 0 } = { calls := c + 1, errno := 0 } := by
        rw [World.next, hfirst]
      rw [after, hnext, ih]
      refine ⟨fun hrest k hk => ?_, fun hall k hk => ?_⟩
      · cases k with
        | zero => exact hfirst
        | succ k =>
          rw [show c + (k + 1) = c + 1 + k by omega]
          exact hrest k (by omega)
      · rw [show c + 1 + k = c + (k + 1) by omega]
        exact hall (k + 1) (by omega)
    · refine iff_of_false ?_ fun hall => hfirst (hall 0 (Nat.zero_lt_succ n))
      exact errno_after_ne_zero (w := World.next env { calls := c, errno := 0 }) h hfirst

/-- **What is asked of `fw_scan_dir`**: it fails with `JFS_ERR_SYS` if `readdir` has failed, and
otherwise it has collected the entries that are supported, in order. -/
def ScanReports (env : Env) (dir : Dir) (vec : Vec FwFile) (w : World) : Prop :=
  match dir.failure with
  | some _ => ∃ w', fwScanDir env dir vec w = (.error .sys, w')
  | none => ∃ vec' w', fwScanDir env dir vec w = (.ok vec', w') ∧ vec'.items = vec.items ++ dirFiles dir

/-- **When `fw_scan_dir` tells that `readdir` has failed**: if no allocation fails and no type
is unknown, exactly if `readdir` has failed or no call of the loop has set `errno`. -/
theorem scanReports_iff {dir : Dir} {vec : Vec FwFile} {w : World} (halloc : ∀ n, env.alloc n = true)
    (herrno : ErrnoSticks env) (hunknown : ∀ ent ∈ dir.entries, ent.type ≠ DT_UNKNOWN)
    (hname : ∀ ent ∈ dir.entries, ent.name.length ≤ NAME_MAX) (hfail : dir.failure ≠ some 0) :
    ScanReports env dir vec w ↔
      dir.failure ≠ none ∨ ∀ k < (scanPlan dir.entries vec).length, env.errno (w.calls + k) 0 = 0 := by
  have hscan : ∀ ent ∈ dir.entries, Scans ent := fun ent hent => .inr ⟨hunknown ent hent, fun _ => hname ent hent⟩
  have hserved : Served env w.calls (scanPlan dir.entries vec) := served_of_alloc halloc w.calls _
  obtain ⟨w', -, e⟩ := scanDir_of_served hscan hserved
  rw [← errno_after_eq_zero_iff herrno]
  cases hfailure : dir.failure with
  | some errno =>
    have h₀ : scanErrno env dir vec w.calls ≠ 0 := by
      rw [scanErrno, hfailure]
      exact fun h => hfail (by rw [hfailure, ← h]; rfl)
    rw [if_neg h₀] at e
    rw [ScanReports, hfailure]
    exact iff_of_true ⟨_, e⟩ (.inl (Option.some_ne_none errno))
  | none =>
    have h₀ : scanErrno env dir vec w.calls =
        (after env (scanPlan dir.entries vec).length { calls := w.calls, errno := 0 }).errno := by
      rw [scanErrno, hfailure]
      rfl
    rw [ScanReports, hfailure, ← h₀]
    by_cases hclear : scanErrno env dir vec w.calls = 0
    · rw [if_pos hclear] at e
      exact iff_of_true ⟨_, w', e, items_foldl_pushed _ _⟩ (.inr hclear)
    · rw [if_neg hclear] at e
      refine iff_of_false ?_ (not_or.mpr ⟨not_not.mpr rfl, hclear⟩)
      rintro ⟨vec', w'', e', -⟩
      rw [e] at e'
      cases e'

/-- `DT_LNK`. -/
def DT_LNK : UInt8 := 10

/-- `ENOTTY`, which the first `printf` leaves in `errno` if the output is not a terminal. -/
def ENOTTY : ℕ := 25

/-- The calls with the numbers in `setting` leave `ENOTTY` in `errno`. -/
def printfEnv (setting : ℕ → Bool) : Env where
  alloc _ := true
  errno n e := if setting n then ENOTTY else e
  opendir _ _ := .error ENOENT

theorem printfEnv_sticks (setting : ℕ → Bool) : ErrnoSticks (printfEnv setting) := by
  intro n e he
  show (if setting n then ENOTTY else e) ≠ 0
  split_ifs
  · decide
  · exact he

/-- A regular file and a link, and no call sets `errno`. -/
theorem scanReports_link :
    ScanReports (printfEnv fun _ => false) ⟨[⟨1, DT_REG, [97]⟩, ⟨2, DT_LNK, [98]⟩], none⟩ emptyVec ⟨0, 0⟩ := by
  refine (scanReports_iff (fun _ => rfl) (printfEnv_sticks _) ?_ ?_ ?_).mpr (.inr fun _ _ => rfl)
  · decide
  · decide
  · decide

/-- The message about the link is the first output, and not to a terminal: `fw_scan_dir` fails
although `readdir` has not. -/
theorem not_scanReports_printf : ErrnoSticks (printfEnv fun n => n == 1) ∧
    ¬ ScanReports (printfEnv fun n => n == 1) ⟨[⟨2, DT_LNK, [98]⟩], none⟩ emptyVec ⟨0, 0⟩ := by
  refine ⟨printfEnv_sticks _, ?_⟩
  rintro ⟨vec', w', e, -⟩
  have herr : (fwScanDir (printfEnv fun n => n == 1) ⟨[⟨2, DT_LNK, [98]⟩], none⟩ emptyVec ⟨0, 0⟩).1 =
      .error .sys := rfl
  rw [e] at herr
  cases herr

end FileSync.FileWalk
