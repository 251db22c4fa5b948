import FileSync.FileWalk.Effect
import Mathlib.Data.List.Chain
import Mathlib.Data.List.DropRight

/-!
# The paths of a walk

Which paths and names there can be in a walk, whatever is in the directories and whatever
fails. A path is the start or was made from a path that was pending and the name of an
entry, so what holds of the start and of such a path holds of all (`WalkRun.forall_paths`).

The lengths that are kept are right, and no path is cut (`walkRun_strings`). Slashes are
another matter: `jfs_fio_path_init` takes away one slash at the end and
`jfs_fio_path_buf_compose` always adds one, so the children of `/` begin with two, and
a start with two slashes at its end is not the same when it is initialised again.
-/

namespace FileSync.FileWalk

open FileSync.Lib FileSync.FileIo

variable {P : CString → Prop} {env : Env} {w : World} {st : FwState}

/-! ### Runs -/

/-- **A run of the walk** from a string: a path is made of it, the state is created, and
steps are taken. The library may be another one at each step; `P` holds of the names it
gives. -/
inductive WalkRun (P : CString → Prop) (start : CString) : FwState → Prop
  | create {env : Env} {path : Path} {st : FwState} {w w₁ w₂ : World} :
      jfsFioPathInit env start w = (.ok path, w₁) → jfsFwStateCreate env path w₁ = (.ok st, w₂) → WalkRun P start st
  | step {st : FwState} (env : Env) (w : World) :
      WalkRun P start st → EntryNames P env → WalkRun P start (jfsFwStateStep env ⟨w, st⟩).walk.state

/-- A path that a step makes from a path that is pending. -/
def IsChild (P : CString → Prop) (top p : Path) : Prop :=
  ∃ str, P str ∧ str.length ≤ NAME_MAX ∧ top.len ≠ 0 ∧ top.len + str.length + 1 ≤ PATH_MAX ∧
    p = childOf top (entryName str)

/-- What has been read of a directory. -/
theorem exists_of_reads {top : Path} {dir : Dir} {file : FwFile} (hnames : EntryNames P env) (h : Reads env w top dir)
    (hfile : file ∈ dirFiles dir) : ∃ str, P str ∧ str.length ≤ NAME_MAX ∧ file.name = entryName str := by
  obtain ⟨ent, hent, hsome, hname⟩ := exists_of_mem_dirFiles hfile
  obtain ⟨hdot, htypes, -⟩ := fileOf_eq_some hsome
  obtain ⟨-, hlen⟩ := (h.scans ent hent).resolve_left (by rw [hdot]; exact Bool.false_ne_true)
  exact ⟨ent.name, hnames _ _ _ h.opened ent hent, hlen htypes, hname⟩

theorem isChild_of_mem_pushes {top p : Path} {dir : Dir} {A : List FwFile} (hnames : EntryNames P env)
    (h : Reads env w top dir) (hA : A <+: dirFiles dir) (hp : p ∈ pushes top A) : IsChild P top p := by
  obtain ⟨file, hfile, hreg, hlen, rfl⟩ := exists_of_mem_pushes hp
  obtain ⟨str, hP, hmax, hname⟩ := exists_of_reads hnames h (hA.subset hfile)
  refine ⟨str, hP, hmax, fun h₀ => hreg (h.subdirs h₀ file (hA.subset hfile)), ?_, by rw [hname]⟩
  rw [hname] at hlen
  exact hlen

/-- **What a step does to the paths**: those that are pending afterwards were pending before
or are made from one that was; what is recorded was pending. -/
theorem stateStep_paths (hnames : EntryNames P env) (w : World) (st : FwState) :
    (∀ p ∈ (jfsFwStateStep env ⟨w, st⟩).walk.state.pathVec.items,
        p ∈ st.pathVec.items ∨ ∃ top ∈ st.pathVec.items, IsChild P top p) ∧
      ∀ d ∈ (jfsFwStateStep env ⟨w, st⟩).walk.state.dirVec.items, d ∈ st.dirVec.items ∨ d.path ∈ st.pathVec.items ∧
        ∀ file ∈ d.files, ∃ str, P str ∧ str.length ≤ NAME_MAX ∧ file.name = entryName str := by
  rcases List.eq_nil_or_concat st.pathVec.items with hnil | ⟨xs, top, htop⟩
  · rw [stateStep_nil (s := ⟨w, st⟩) hnil]
    exact ⟨fun p hp => .inl hp, fun d hd => .inl hd⟩
  rw [List.concat_eq_append] at htop
  have hne : st.pathVec.items ≠ [] := by
    rw [htop]
    simp
  have hmem : top ∈ st.pathVec.items := by
    rw [htop]
    simp
  have hpopped : ∀ p ∈ (popped st).pathVec.items, p ∈ st.pathVec.items := fun p hp => List.dropLast_subset _ hp
  by_cases hread : ∃ dir, Reads env w top dir
  · obtain ⟨dir, hread⟩ := hread
    have hpaths : ∀ A, A <+: dirFiles dir → ∀ p ∈ ((pushes top A).foldl Vec.pushed (popped st).pathVec).items,
        p ∈ st.pathVec.items ∨ ∃ top ∈ st.pathVec.items, IsChild P top p := by
      intro A hA p hp
      rw [items_foldl_pushed, List.mem_append] at hp
      rcases hp with hp | hp
      · exact .inl (hpopped p hp)
      · exact .inr ⟨top, hmem, isChild_of_mem_pushes hnames hread hA hp⟩
    by_cases hs : Served env w.calls (stepPlan top dir (popped st).pathVec st.dirVec)
    · obtain ⟨w', e⟩ := fwStep_complete htop hread hs
      rw [stateStep_ok (s := ⟨w, st⟩) hne e]
      refine ⟨hpaths _ List.prefix_rfl, fun d hd => ?_⟩
      rcases List.mem_append.mp hd with hd | hd
      · exact .inl hd
      · rw [List.mem_singleton.mp hd]
        exact .inr ⟨hmem, fun file hfile => exists_of_reads hnames hread hfile⟩
    · obtain ⟨A, w', hA, -, e⟩ := fwStep_interrupted htop hread hs
      rw [stateStep_error (s := ⟨w, st⟩) hne e]
      exact ⟨hpaths A hA, fun d hd => .inl hd⟩
  · obtain ⟨x, w', st', e, ⟨hst, -⟩ | ⟨hst, -⟩⟩ := fwStep_unread htop hread
    · rw [stateStep_error (s := ⟨w, st⟩) hne e, hst]
      exact ⟨fun p hp => .inl hp, fun d hd => .inl hd⟩
    · rw [stateStep_error (s := ⟨w, st⟩) hne e, hst]
      exact ⟨fun p hp => .inl (hpopped p hp), fun d hd => .inl hd⟩

theorem pathInit_of_ok {str : CString} {path : Path} {w' : World} (h : jfsFioPathInit env str w = (.ok path, w')) :
    pathStrLen str ≤ PATH_MAX ∧ path = initPath str := by
  by_cases hlen : pathStrLen str ≤ PATH_MAX
  · exact ⟨hlen, (does_pathInit env hlen).eq_of_ok h⟩
  · unfold jfsFioPathInit at h
    simp only at h
    rw [if_pos (Nat.not_le.mp hlen)] at h
    cases h

/-- The start of a run: the string is initialised twice. -/
theorem createdState_of_ok {start : CString} {path : Path} {w₁ w₂ : World}
    (hinit : jfsFioPathInit env start w = (.ok path, w₁)) (hcreate : jfsFwStateCreate env path w₁ = (.ok st, w₂)) :
    pathStrLen start ≤ PATH_MAX ∧ st = createdState (initPath start).str := by
  obtain ⟨hlen, rfl⟩ := pathInit_of_ok hinit
  exact ⟨hlen, (does_create env (pathStrLen_initPath hlen)).eq_of_ok hcreate⟩

/-- **What holds of the start and of every path that is made from another** holds of all
paths of a run. -/
theorem WalkRun.forall_paths {start : CString} {Q : Path → Prop} {R : Name → Prop}
    (hstart : pathStrLen start ≤ PATH_MAX → Q (initPath (initPath start).str))
    (hchild : ∀ top p, Q top → IsChild P top p → Q p)
    (hname : ∀ str, P str → str.length ≤ NAME_MAX → R (entryName str)) (h : WalkRun P start st) :
    (∀ p ∈ st.pathVec.items, Q p) ∧ ∀ d ∈ st.dirVec.items, Q d.path ∧ ∀ file ∈ d.files, R file.name := by
  induction h with
  | create hinit hcreate =>
    obtain ⟨hlen, rfl⟩ := createdState_of_ok hinit hcreate
    refine ⟨fun p hp => ?_, fun d hd => by cases hd⟩
    rw [List.mem_singleton.mp hp]
    exact hstart hlen
  | step env w _ hnames ih =>
    obtain ⟨hpaths, hdirs⟩ := stateStep_paths hnames w _
    refine ⟨fun p hp => ?_, fun d hd => ?_⟩
    · rcases hpaths p hp with hp | ⟨top, htop, hp⟩
      · exact ih.1 p hp
      · exact hchild top p (ih.1 top htop) hp
    · rcases hdirs d hd with hd | ⟨hpath, hfiles⟩
      · exact ih.2 d hd
      · refine ⟨ih.1 d.path hpath, fun file hfile => ?_⟩
        obtain ⟨str, hP, hmax, e⟩ := hfiles file hfile
        rw [e]
        exact hname str hP hmax

/-! ### Lengths -/

/-- The path of an entry is as long as it says. -/
theorem IsChild.sound {top p : Path} (htop : top.Sound) (h : IsChild (fun str => 0 ∉ str) top p) : p.Sound := by
  obtain ⟨str, hnul, -, -, -, rfl⟩ := h
  refine sound_initPath (fun hmem => ?_) (Nat.le_trans (pathStrLen_le _) (List.length_take_le ..))
  rcases List.mem_append.mp (List.mem_of_mem_take hmem) with hmem | hmem
  · exact htop.noNul hmem
  · rcases List.mem_cons.mp hmem with hslash | hmem
    · exact absurd hslash (by decide)
    · exact hnul hmem

/-- **The lengths of a run are right**: those of every path that is pending or recorded and
of every name that is recorded, and whatever is composed of such a path and a name is
whole. -/
theorem walkRun_strings {start : CString} (hstart : 0 ∉ start) (h : WalkRun (fun str => 0 ∉ str) start st) :
    (∀ p, p ∈ st.pathVec.items ∨ p ∈ st.dirVec.items.map FwDir.path → p.Sound ∧
        ∀ name : Name, name.Sound → ∀ env w buf w',
          jfsFioPathBufCompose env p name w = (.ok buf, w') → Composed p name buf) ∧
      ∀ d ∈ st.dirVec.items, ∀ file ∈ d.files, file.name.Sound := by
  have hinit : pathStrLen start ≤ PATH_MAX → (initPath (initPath start).str).Sound := fun hlen =>
    sound_initPath (sound_initPath hstart hlen).noNul (pathStrLen_initPath hlen)
  obtain ⟨hpaths, hdirs⟩ := h.forall_paths hinit (fun _ _ htop hp => hp.sound htop)
    fun str hnul hmax => Name.sound_of_length hnul hmax
  refine ⟨fun p hp => ?_, fun d hd => (hdirs d hd).2⟩
  have hsound : p.Sound := by
    rcases hp with hp | hp
    · exact hpaths p hp
    · obtain ⟨d, hd, rfl⟩ := List.mem_map.mp hp
      exact (hdirs d hd).1
  exact ⟨hsound, fun name hname env w buf w' hcompose => composed_of_ok hsound hname hcompose⟩

/-- Every directory has one subdirectory `x`. -/
def subdirEnv : Env where
  alloc _ := true
  errno _ e := e
  opendir _ _ := .ok { entries := [⟨1, DT_DIR, [120]⟩], failure := none }

/-- The state after some steps in directories that all have one subdirectory. -/
def subdirState (str : CString) : ℕ → FwState
  | 0 => createdState str
  | n + 1 => (jfsFwStateStep subdirEnv ⟨⟨0, 0⟩, subdirState str n⟩).walk.state

theorem subdirEnv_names (hP : P [120]) : EntryNames P subdirEnv := by
  intro n path dir hopen ent hent
  rw [← Except.ok.inj hopen, List.mem_singleton] at hent
  rw [hent]
  exact hP

theorem walkRun_subdirState (start : CString) (hlen : pathStrLen start ≤ PATH_MAX) (hP : P [120]) (n : ℕ) :
    WalkRun P start (subdirState (initPath start).str n) := by
  have hserved : ∀ n plan, Served subdirEnv n plan := served_of_alloc fun _ => rfl
  induction n with
  | zero =>
    have hinit := (does_pathInit subdirEnv hlen ⟨0, 0⟩).1 (hserved _ _)
    exact .create hinit ((does_create subdirEnv (pathStrLen_initPath hlen) _).1 (hserved _ _))
  | succ n ih => exact .step subdirEnv ⟨0, 0⟩ ih (subdirEnv_names hP)

/-- The run from `a` after one step. -/
theorem walkRun_strings_subdir : (subdirState [97] 1).pathVec.items = [pathOf [97, 47, 120]] ∧
    (pathOf [97, 47, 120]).Sound ∧ ∀ d ∈ (subdirState [97] 1).dirVec.items, ∀ file ∈ d.files, file.name.Sound := by
  have hitems : (subdirState [97] 1).pathVec.items = [pathOf [97, 47, 120]] := by decide
  have hrun : WalkRun (fun str => 0 ∉ str) [97] (subdirState [97] 1) :=
    walkRun_subdirState [97] (by decide) (by decide) 1
  obtain ⟨hpaths, hnames⟩ := walkRun_strings (by decide) hrun
  refine ⟨hitems, (hpaths _ (.inl ?_)).1, hnames⟩
  rw [hitems]
  exact List.mem_singleton.mpr rfl

/-! ### Slashes -/

/-- No component of the path is empty: no two slashes follow each other. -/
def NoEmptyComponent (str : CString) : Prop := str.IsChain fun a b => a ≠ slash ∨ b ≠ slash

/-- **A path in normal form**: no empty component, and no slash at the end but in `/`. -/
def Normal (str : CString) : Prop := NoEmptyComponent str ∧ (str.getLast? = some slash → str = [slash])

/-- Two slashes follow each other at most at the end. -/
def DoubleAtEnd (str : CString) : Prop := NoEmptyComponent (str.rdropWhile fun c => c == slash)

/-- **What is asked of a start**: every path that is recorded in a run is in normal form, and
initialising what has been initialised changes nothing. -/
def WalkNormal (start : CString) : Prop :=
  (∀ st, WalkRun (fun str => str ≠ [] ∧ slash ∉ str) start st → ∀ d ∈ st.dirVec.items, Normal d.path.str) ∧
    ∀ env w path w' env₁ w₁ path₁ w₁', jfsFioPathInit env start w = (.ok path, w') →
      jfsFioPathInit env₁ path.str w₁ = (.ok path₁, w₁') → path₁ = path

/-- A path that can be continued: it does not end in a slash. -/
structure Continues (p : Path) : Prop where
  len : p.len = p.str.length
  noEmpty : NoEmptyComponent p.str
  noSlash : p.str.getLast? ≠ some slash

theorem Continues.normal {p : Path} (h : Continues p) : Normal p.str :=
  ⟨h.noEmpty, fun hlast => absurd hlast h.noSlash⟩

/-- One slash is taken away from the end. -/
theorem initPath_concat_slash {str : CString} (h : str ≠ []) : initPath (str ++ [slash]) = pathOf str := by
  have hpos := List.length_pos_iff.mpr h
  have hlen : pathStrLen (str ++ [slash]) = str.length := by
    rw [pathStrLen, List.length_append, List.length_singleton, if_pos ⟨by omega, List.getLast?_concat⟩,
      Nat.add_sub_cancel]
  rw [initPath, hlen, List.take_left]
  rfl

theorem noEmptyComponent_slash_cons {name : CString} (h : slash ∉ name) (c : UInt8) : NoEmptyComponent (c :: name) := by
  induction name generalizing c with
  | nil => exact List.isChain_singleton c
  | cons a name ih =>
    rw [List.mem_cons, not_or] at h
    exact List.isChain_cons_cons.mpr ⟨.inr (Ne.symm h.1), ih h.2 a⟩

/-- The path of an entry can be continued, too. -/
theorem IsChild.continues {top p : Path} (htop : Continues top)
    (h : IsChild (fun str => str ≠ [] ∧ slash ∉ str) top p) : Continues p := by
  obtain ⟨str, ⟨hne, hslash⟩, -, -, hlen, rfl⟩ := h
  have hmax : (childPath top.str str).length ≤ PATH_MAX := by
    rw [childPath, List.length_append, List.length_cons, ← htop.len]
    omega
  have hlast : (childPath top.str str).getLast? ≠ some slash := by
    obtain ⟨c, hc⟩ := Option.ne_none_iff_exists'.mp (mt List.getLast?_eq_none_iff.mp hne)
    rw [childPath, List.getLast?_append, List.getLast?_cons, hc]
    rintro ⟨⟩
    exact hslash (List.mem_of_getLast? hc)
  rw [childOf_eq hne hslash hmax]
  refine ⟨rfl, ?_, hlast⟩
  refine List.isChain_append.mpr ⟨htop.noEmpty, noEmptyComponent_slash_cons hslash slash, fun a ha b _ => .inl ?_⟩
  rintro rfl
  exact htop.noSlash ha

/-- A start that is neither `/` nor ends in two slashes. -/
theorem continues_initPath {start : CString} (hne : start ≠ []) (hdouble : DoubleAtEnd start)
    (hroot : start ≠ [slash]) (hend : ¬ [slash, slash] <:+ start) : Continues (initPath start) := by
  obtain ⟨l, c, rfl⟩ := (List.eq_nil_or_concat start).resolve_left hne
  rw [List.concat_eq_append] at *
  by_cases hc : c = slash
  · -- one slash is taken away
    subst hc
    obtain ⟨l, a, rfl⟩ := (List.eq_nil_or_concat l).resolve_left fun hl => hroot (by rw [hl]; rfl)
    rw [List.concat_eq_append] at *
    have ha : a ≠ slash := by
      rintro rfl
      exact hend ⟨l, by rw [List.append_assoc]; rfl⟩
    rw [DoubleAtEnd, List.rdropWhile_concat_pos _ _ _ (by simp), List.rdropWhile_concat_neg _ _ _ (by simpa using ha)]
      at hdouble
    rw [initPath_concat_slash (by simp)]
    refine ⟨rfl, hdouble, ?_⟩
    rw [pathOf, List.getLast?_concat]
    rintro ⟨⟩
    exact ha rfl
  · have hlast : (l ++ [c]).getLast? ≠ some slash := by
      rw [List.getLast?_concat]
      rintro ⟨⟩
      exact hc rfl
    rw [DoubleAtEnd, List.rdropWhile_concat_neg _ _ _ (by simpa using hc)] at hdouble
    rw [initPath_eq_pathOf hlast]
    exact ⟨rfl, hdouble, hlast⟩

/-- The child of `/` is `//x`. -/
theorem subdirState_root : ∃ d ∈ (subdirState [slash] 2).dirVec.items, ¬ Normal d.path.str := by
  refine ⟨recorded (pathOf [47, 47, 120]) [⟨.dir, entryName [120], 1⟩], by decide, fun h => ?_⟩
  exact absurd (List.isChain_cons_cons.mp h.1).1 (by decide)

/-- A start that is `/` or ends in two slashes: it is not the same when it is initialised
again, or the walk starts at `/`. -/
theorem initPath_eq_root {start : CString} (h : ¬ (start ≠ [slash] ∧ ¬ [slash, slash] <:+ start))
    (hsame : initPath (initPath start).str = initPath start) : (initPath start).str = [slash] := by
  by_cases hroot : start = [slash]
  · rw [hroot]
    rfl
  · obtain ⟨l, rfl⟩ : [slash, slash] <:+ start := by
      by_contra hend
      exact h ⟨hroot, hend⟩
    have hinit : initPath (l ++ [slash, slash]) = pathOf (l ++ [slash]) := by
      rw [show l ++ [slash, slash] = l ++ [slash] ++ [slash] by simp, initPath_concat_slash (by simp)]
    rw [hinit] at hsame ⊢
    by_cases hl : l = []
    · rw [hl]
      rfl
    · have hlen := congrArg Path.len (hsame.symm.trans (initPath_concat_slash hl))
      simp only [pathOf, List.length_append, List.length_singleton] at hlen
      omega

/-- **When the paths of a walk are in normal form**: exactly if the start is neither `/` nor
ends in two slashes, or is too long for `jfs_fio_path_init`. -/
theorem walkNormal_iff {start : CString} (hne : start ≠ []) (hdouble : DoubleAtEnd start) :
    WalkNormal start ↔ (start ≠ [slash] ∧ ¬ [slash, slash] <:+ start) ∨ PATH_MAX < pathStrLen start := by
  constructor
  · rintro ⟨hwalk, hinit⟩
    refine or_iff_not_imp_right.mpr fun hlen => ?_
    rw [Nat.not_lt] at hlen
    by_contra hcond
    have hserved : ∀ n plan, Served subdirEnv n plan := served_of_alloc fun _ => rfl
    have hsame : initPath (initPath start).str = initPath start :=
      hinit subdirEnv ⟨0, 0⟩ _ _ subdirEnv ⟨0, 0⟩ _ _ ((does_pathInit subdirEnv hlen ⟨0, 0⟩).1 (hserved _ _))
        ((does_pathInit subdirEnv (pathStrLen_initPath hlen) ⟨0, 0⟩).1 (hserved _ _))
    have hrun := walkRun_subdirState (P := fun str => str ≠ [] ∧ slash ∉ str) start hlen (by decide) 2
    rw [initPath_eq_root hcond hsame] at hrun
    obtain ⟨d, hd, hnot⟩ := subdirState_root
    exact hnot (hwalk _ hrun d hd)
  · intro hcond
    have hinit : pathStrLen start ≤ PATH_MAX → Continues (initPath start) := by
      intro hlen
      obtain ⟨hroot, hend⟩ := hcond.resolve_right (Nat.not_lt.mpr hlen)
      exact continues_initPath hne hdouble hroot hend
    have hsame : pathStrLen start ≤ PATH_MAX → initPath (initPath start).str = initPath start := by
      intro hlen
      rw [initPath_eq_pathOf (hinit hlen).noSlash, pathOf, ← (hinit hlen).len]
    refine ⟨fun st hrun d hd => ?_, fun env w path w' env₁ w₁ path₁ w₁' h h₁ => ?_⟩
    · have hstart : pathStrLen start ≤ PATH_MAX → Continues (initPath (initPath start).str) := by
        intro hlen
        rw [hsame hlen]
        exact hinit hlen
      have hpaths := hrun.forall_paths (R := fun _ => True) hstart (fun _ _ htop hp => hp.continues htop)
        fun _ _ _ => trivial
      exact (hpaths.2 d hd).1.normal
    · obtain ⟨hlen, rfl⟩ := pathInit_of_ok h
      obtain ⟨-, rfl⟩ := pathInit_of_ok h₁
      exact hsame hlen

/-- The start `a/`. -/
theorem walkNormal_trailing : WalkNormal [97, 47] := by
  refine (walkNormal_iff (by decide) ?_).mpr (.inl ⟨by decide, by decide⟩)
  exact List.isChain_singleton 97

/-- The start `/`. -/
theorem not_walkNormal_root : [slash] ≠ [] ∧ DoubleAtEnd [slash] ∧ ¬ WalkNormal [slash] := by
  refine ⟨List.cons_ne_nil _ _, List.isChain_nil, fun h => ?_⟩
  obtain ⟨d, hd, hnot⟩ := subdirState_root
  exact hnot (h.1 _ (walkRun_subdirState [slash] (by decide) (by decide) 2) d hd)

end FileSync.FileWalk
