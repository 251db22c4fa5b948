import FileSync.FileWalk.Record

/-!
# Directories at the limit

The kernel takes paths that are shorter than `PATH_MAX`, since its limit counts the `NUL`.
`fw_push_dir_paths` drops paths that are longer than `PATH_MAX`, so a directory whose path
is exactly as long as `PATH_MAX` is pushed and then cannot be opened, which ends the walk.
Nothing else does, in a tree of any depth (`noStepFails_iff`).
-/

namespace FileSync.FileWalk

open FileSync.Lib FileSync.FileIo Listing

variable {env : Env} {w w' : World} {start : Path} {L : Listing} {st : FwState} {s : Walk} {d : CString × Listing}
  {xs : List (CString × Listing)}

/-- `ENAMETOOLONG`. -/
def ENAMETOOLONG : ℕ := 36

/-- The kernel does not take the path. -/
def tooLong (path : CString) : Bool := decide (PATH_MAX ≤ path.length)

/-! ### Paths at the limit -/

/-- A path that is pushed is not longer than `PATH_MAX`. -/
theorem length_le_of_mem_visited {denied : CString → Bool} (path : CString) (L : Listing) :
    ∀ d ∈ L.visited denied path, d.1.length ≤ PATH_MAX := by
  induction L generalizing path with
  | nil => simp [visited]
  | entry ent _ rest ih => exact ih path
  | subdir ent _ content rest ihc ih =>
    intro d hd
    rw [visited, List.mem_append] at hd
    rcases hd with hd | hd
    · exact ih path d hd
    · split_ifs at hd with hlong hdenied
      · cases hd
      · rw [List.mem_singleton.mp hd]
        exact Nat.not_lt.mp hlong
      · rcases List.mem_cons.mp hd with rfl | hd
        · exact Nat.not_lt.mp hlong
        · exact ihc _ d hd

/-- What is below a directory has a longer path. -/
theorem length_lt_of_mem_descendants {path : CString} (h : d ∈ L.descendants path) : path.length < d.1.length := by
  obtain ⟨name, rest, -, -, e, -⟩ := exists_of_mem_descendants h
  rw [e, childPath, List.append_assoc, List.length_append, List.length_append, List.length_cons]
  omega

/-- A walk comes to every directory at the limit. -/
theorem mem_visited_of_length {path : CString} (h : d ∈ L.descendants path) (hlen : d.1.length = PATH_MAX) :
    d ∈ L.visited tooLong path := by
  induction L generalizing path with
  | nil => cases h
  | entry ent _ rest ih => exact ih h
  | subdir ent _ content rest ihc ih =>
    rw [visited, List.mem_append]
    rw [descendants, List.mem_append, List.mem_cons] at h
    rcases h with h | rfl | h
    · exact .inl (ih h)
    · rw [if_neg (by rw [hlen]; exact Nat.lt_irrefl _)]
      exact .inr (List.mem_cons_self ..)
    · -- the directory above is shorter, so it is neither dropped nor refused
      have hlt := length_lt_of_mem_descendants h
      rw [hlen] at hlt
      rw [if_neg (Nat.not_lt.mpr (Nat.le_of_lt hlt)), tooLong, decide_eq_false (Nat.not_le.mpr hlt),
        if_neg Bool.false_ne_true]
      exact .inr (List.mem_cons_of_mem _ (ihc h))

/-- **The walk comes to a path that is too long** exactly if there is one at the limit. -/
theorem exists_tooLong_iff {path : CString} (hshort : path.length < PATH_MAX) (L : Listing) :
    (∃ d ∈ visitsFrom tooLong (path, L), tooLong d.1 = true) ↔ ∃ d ∈ L.all path, d.1.length = PATH_MAX := by
  have hpath : tooLong path = false := decide_eq_false (Nat.not_le.mpr hshort)
  rw [visitsFrom, hpath, if_neg Bool.false_ne_true]
  constructor
  · rintro ⟨d, hd, hlong⟩
    rcases List.mem_cons.mp hd with rfl | hd
    · rw [hpath] at hlong
      cases hlong
    · refine ⟨d, List.mem_cons_of_mem _ (visited_subset path L d hd), ?_⟩
      exact Nat.le_antisymm (length_le_of_mem_visited path L d hd) (of_decide_eq_true hlong)
  · rintro ⟨d, hd, hlen⟩
    rcases List.mem_cons.mp hd with rfl | hd
    · exact absurd hlen (Nat.ne_of_lt hshort)
    · exact ⟨d, List.mem_cons_of_mem _ (mem_visited_of_length hd hlen), decide_eq_true (Nat.le_of_eq hlen.symm)⟩

/-! ### Steps -/

/-- **Only paths that are too long for the kernel are refused.** -/
def HostsShort (env : Env) (d : CString × Listing) : Prop :=
  ∀ x ∈ d.2.all d.1, (x.1.length < PATH_MAX → Opens env x) ∧
    (PATH_MAX ≤ x.1.length → ∀ n, env.opendir n x.1 = .error ENAMETOOLONG)

/-- If the next directory can be opened, no call of its scan leaves `errno` set. -/
def ScanClear (env : Env) (s : Walk) : Prop :=
  ∀ top dir, s.state.pathVec.items.getLast? = some top → env.opendir (s.world.calls + 1) top.str = .ok dir →
    scanErrno env dir emptyVec (s.world.calls + 2) = 0

/-- A step into a directory that can be read goes through. -/
theorem step_short (halloc : ∀ n, env.alloc n = true) (hclear : ScanClear env s) (hd : d.1 ≠ []) (hopen : Opens env d)
    (hscan : d.2.AllScan) (h : Pending s (d :: xs)) :
    ∃ s', fwStep env s = (.ok (), s') ∧ Pending s' ((d.2.kids d.1).reverse ++ xs) := by
  have hread : Reads env s.world (pathOf d.1) { entries := d.2.dirents, failure := none } := by
    refine ⟨hopen _, hscan, ?_, served_of_alloc halloc _ _, fun h₀ => absurd (List.length_eq_zero_iff.mp h₀) hd⟩
    refine hclear (pathOf d.1) _ ?_ (hopen _)
    rw [pending_items h, List.getLast?_concat]
  obtain ⟨s', e, hpend, -⟩ := step_of_reads h hread (served_of_alloc halloc _ _)
  exact ⟨s', e, hpend⟩

/-- A step into a directory at the limit fails. -/
theorem step_long (halloc : ∀ n, env.alloc n = true) (hopen : ∀ n, env.opendir n d.1 = .error ENAMETOOLONG)
    (h : Pending s (d :: xs)) : (jfsFwStateStep env s).err = .sys := by
  obtain ⟨w, st⟩ := s
  have hrefused : env.opendir (w.next env).calls (pathOf d.1).str = .error ENAMETOOLONG := hopen _
  obtain ⟨w', e⟩ := fwVisit_of_error (popped st) hrefused
  rw [← fwStep_of_alloc (pending_items h) (halloc _)] at e
  rw [stateStep_error (pending_ne_nil h) e]
  rfl

/-! ### Whole walks -/

/-- **No step of the walk fails.** -/
def NoStepFails (env : Env) (s : Walk) : Prop :=
  ∀ n s', Goes (walkTurn env) n s s' → (jfsFwStateStep env s').err = .ok

/-- What is pending is part of a tree that can be read, apart from paths that are too long. -/
def ReadyShort (env : Env) (xs : List (CString × Listing)) : Prop :=
  ∀ d ∈ xs, d.1 ≠ [] ∧ HostsShort env d ∧ ∀ x ∈ d.2.all d.1, x.2.AllScan

theorem ReadyShort.kids (h : ReadyShort env (d :: xs)) : ReadyShort env ((d.2.kids d.1).reverse ++ xs) := by
  intro k hk
  rw [List.mem_append, List.mem_reverse] at hk
  rcases hk with hk | hk
  · obtain ⟨hne, hall⟩ := all_kids_subset hk
    obtain ⟨-, hhosts, hscan⟩ := h d (List.mem_cons_self ..)
    exact ⟨hne, fun x hx => hhosts x (List.mem_cons_of_mem _ (hall x hx)),
      fun x hx => hscan x (List.mem_cons_of_mem _ (hall x hx))⟩
  · exact h k (List.mem_cons_of_mem _ hk)

/-- A step into a directory that is not too long. -/
theorem ReadyShort.step (h : ReadyShort env (d :: xs)) (halloc : ∀ n, env.alloc n = true) (hclear : ScanClear env s)
    (hd : tooLong d.1 = false) (hpend : Pending s (d :: xs)) :
    ∃ s', fwStep env s = (.ok (), s') ∧ Pending s' ((d.2.kids d.1).reverse ++ xs) := by
  obtain ⟨hne, hhosts, hscan⟩ := h d (List.mem_cons_self ..)
  have hopen := (hhosts d (List.mem_cons_self ..)).1 (Nat.not_le.mp (of_decide_eq_false hd))
  exact step_short halloc hclear hne hopen (hscan d (List.mem_cons_self ..)) hpend

/-- The walk meets no path that is too long. -/
def MeetsNone (env : Env) (s : Walk) : Prop :=
  ∃ xs, Pending s xs ∧ ReadyShort env xs ∧ ∀ d ∈ xs.flatMap (visitsFrom tooLong), tooLong d.1 = false

/-- What a step keeps as long as no path is too long. -/
theorem MeetsNone.step (halloc : ∀ n, env.alloc n = true) (hclear : ScanClear env s) (h : MeetsNone env s) :
    (jfsFwStateStep env s).err = .ok ∧ ∀ s', walkTurn env s = .again s' → MeetsNone env s' := by
  obtain ⟨xs, hpend, hready, hnone⟩ := h
  cases xs with
  | nil =>
    refine ⟨by rw [stateStep_nil hpend], fun s' hturn => ?_⟩
    rw [turn_empty hpend, Turn.again.injEq] at hturn
    rw [← hturn]
    exact ⟨[], hpend, hready, hnone⟩
  | cons d xs =>
    have hd : tooLong d.1 = false := hnone d (List.mem_cons_self ..)
    obtain ⟨s₁, e, hpend₁⟩ := hready.step halloc hclear hd hpend
    refine ⟨by rw [stateStep_ok (pending_ne_nil hpend) e], fun s' hturn => ?_⟩
    rw [turn_ok hpend e hpend₁] at hturn
    split_ifs at hturn
    obtain rfl : s₁ = s' := Turn.again.inj hturn
    refine ⟨_, hpend₁, hready.kids, fun x hx => hnone x ?_⟩
    rw [visits_kids hd] at hx
    rw [List.flatMap_cons, visitsFrom, List.cons_append]
    exact List.mem_cons_of_mem _ hx

theorem MeetsNone.goes (halloc : ∀ n, env.alloc n = true)
    (hclear : ∀ n s', Goes (walkTurn env) n s s' → ScanClear env s') (h : MeetsNone env s) : NoStepFails env s := by
  intro n s' hgoes
  induction hgoes with
  | here s => exact (h.step halloc (hclear 0 s (.here s))).1
  | turn hturn hrest ih =>
    refine ih (fun m s'' hgoes => hclear (m + 1) s'' (.turn hturn hgoes)) ?_
    exact (h.step halloc (hclear 0 _ (.here _))).2 _ hturn

/-- **A walk comes to every path that is too long**, unless a step has failed before. -/
theorem exists_failing_step {V : List (CString × Listing)} (halloc : ∀ n, env.alloc n = true)
    (hclear : ∀ n s', Goes (walkTurn env) n s s' → ScanClear env s') (hpend : Pending s xs)
    (hready : ReadyShort env xs) (hV : xs.flatMap (visitsFrom tooLong) = V) (hlong : ∃ d ∈ V, tooLong d.1 = true) :
    ∃ n s', Goes (walkTurn env) n s s' ∧ (jfsFwStateStep env s').err = .sys := by
  induction V generalizing s xs with
  | nil =>
    obtain ⟨d, hd, -⟩ := hlong
    cases hd
  | cons d V ih =>
    obtain ⟨ys, rfl, hrest⟩ := exists_of_visits hV
    cases hd : tooLong d.1 with
    | true =>
      obtain ⟨-, hhosts, -⟩ := hready d (List.mem_cons_self ..)
      have hopen := (hhosts d (List.mem_cons_self ..)).2 (of_decide_eq_true hd)
      exact ⟨0, s, .here s, step_long halloc hopen hpend⟩
    | false =>
      obtain ⟨x, hx, hxlong⟩ := hlong
      have hxV : x ∈ V := by
        refine (List.mem_cons.mp hx).resolve_left ?_
        rintro rfl
        rw [hd] at hxlong
        cases hxlong
      obtain ⟨s₁, e, hpend₁⟩ := hready.step halloc (hclear 0 s (.here s)) hd hpend
      have hV₁ : ((d.2.kids d.1).reverse ++ ys).flatMap (visitsFrom tooLong) = V := by
        rw [visits_kids hd, ← hrest]
      have hmore : (d.2.kids d.1).reverse ++ ys ≠ [] := by
        intro hnil
        rw [hnil, List.flatMap_nil] at hV₁
        rw [← hV₁] at hxV
        cases hxV
      have hturn := turn_ok hpend e hpend₁
      rw [if_neg hmore] at hturn
      obtain ⟨n, s', hgoes, herr⟩ := ih (fun m s'' hgoes => hclear (m + 1) s'' (.turn hturn hgoes)) hpend₁
        hready.kids hV₁ ⟨x, hxV, hxlong⟩
      exact ⟨n + 1, s', .turn hturn hgoes, herr⟩

theorem readyShort_start (hstart : start.str ≠ []) (hhosts : HostsShort env (startPath start, L))
    (hscan : ∀ d ∈ L.all (startPath start), d.2.AllScan) : ReadyShort env [(startPath start, L)] := by
  intro d hd
  rw [List.mem_singleton.mp hd]
  exact ⟨startPath_ne_nil hstart, hhosts, hscan⟩

/-- A directory at the limit ends the walk. -/
theorem not_noStepFails_of_length (halloc : ∀ n, env.alloc n = true) (hstart : start.str ≠ [])
    (hshort : (startPath start).length < PATH_MAX) (hhosts : HostsShort env (startPath start, L))
    (hscan : ∀ d ∈ L.all (startPath start), d.2.AllScan) (hcreate : jfsFwStateCreate env start w = (.ok st, w'))
    (hclear : ∀ n s', Goes (walkTurn env) n ⟨w', st⟩ s' → ScanClear env s') (hd : d ∈ L.all (startPath start))
    (hlen : d.1.length = PATH_MAX) : ¬ NoStepFails env ⟨w', st⟩ := by
  intro hno
  obtain ⟨hpend, -⟩ := created (L := L) (Nat.le_of_lt hshort) hcreate
  obtain ⟨n, s', hgoes, herr⟩ := exists_failing_step halloc hclear hpend (readyShort_start hstart hhosts hscan)
    (List.flatMap_singleton ..) ((exists_tooLong_iff hshort L).mpr ⟨d, hd, hlen⟩)
  rw [hno n s' hgoes] at herr
  cases herr

/-- **When no step fails**: in a tree of any depth, if only paths that are too long for the
kernel are refused, exactly if there is no directory whose path is as long as
`PATH_MAX`. -/
theorem noStepFails_iff (halloc : ∀ n, env.alloc n = true) (hstart : start.str ≠ [])
    (hshort : (startPath start).length < PATH_MAX) (hhosts : HostsShort env (startPath start, L))
    (hscan : ∀ d ∈ L.all (startPath start), d.2.AllScan) (hcreate : jfsFwStateCreate env start w = (.ok st, w'))
    (hclear : ∀ n s', Goes (walkTurn env) n ⟨w', st⟩ s' → ScanClear env s') :
    NoStepFails env ⟨w', st⟩ ↔ ∀ d ∈ L.all (startPath start), d.1.length ≠ PATH_MAX := by
  refine ⟨fun hno d hd hlen => ?_, fun hnone => ?_⟩
  · exact not_noStepFails_of_length halloc hstart hshort hhosts hscan hcreate hclear hd hlen hno
  · obtain ⟨hpend, -⟩ := created (L := L) (Nat.le_of_lt hshort) hcreate
    refine MeetsNone.goes halloc hclear ⟨_, hpend, readyShort_start hstart hhosts hscan, fun d hd => ?_⟩
    rw [List.flatMap_singleton] at hd
    by_contra hlong
    rw [Bool.not_eq_false] at hlong
    obtain ⟨x, hx, hlen⟩ := (exists_tooLong_iff hshort L).mp ⟨d, hd, hlong⟩
    exact hnone x hx hlen

/-- The library over a tree when only paths that are too long cannot be opened. -/
def limitEnv (d : CString × Listing) : Env where
  alloc _ := true
  errno _ e := e
  opendir _ path :=
    if tooLong path then .error ENAMETOOLONG
    else
      match (d.2.all d.1).find? fun x => x.1 == path with
      | some x => .ok { entries := x.2.dirents, failure := none }
      | none => .error ENOENT

theorem limitEnv_quiet (d : CString × Listing) : Quiet (limitEnv d) := ⟨fun _ => rfl, fun _ _ => rfl⟩

theorem limitEnv_hosts (h : ∀ x ∈ d.2.all d.1, x.2.DistinctNames) : HostsShort (limitEnv d) d := by
  intro x hx
  refine ⟨fun hshort n => ?_, fun hlong n => ?_⟩
  · have hx' : tooLong x.1 = false := decide_eq_false (Nat.not_le.mpr hshort)
    simp [limitEnv, hx', find?_eq_some_of_nodup (nodup_all h) hx]
  · have hx' : tooLong x.1 = true := decide_eq_true hlong
    simp [limitEnv, hx']

theorem limitEnv_clear (d : CString × Listing) (s : Walk) : ScanClear (limitEnv d) s := by
  intro top dir _ hopen
  have hfailure : dir.failure = none := by
    simp only [limitEnv] at hopen
    split_ifs at hopen
    split at hopen
    · rw [← Except.ok.inj hopen]
    · cases hopen
  exact (limitEnv_quiet d).scanErrno hfailure _ _

/-- The library over the small tree. -/
theorem noStepFails_small : ∃ st w',
    jfsFwStateCreate (limitEnv (startPath smallStart, smallTree)) smallStart ⟨0, 0⟩ = (.ok st, w') ∧
      NoStepFails (limitEnv (startPath smallStart, smallTree)) ⟨w', st⟩ := by
  have hlen : (startPath smallStart).length ≤ PATH_MAX := smallTree_short _ (List.mem_cons_self ..)
  obtain ⟨st, w', hcreate, -⟩ := exists_of_yields (w := ⟨0, 0⟩) (limitEnv_quiet (startPath smallStart, smallTree))
    (yields_create hlen)
  refine ⟨st, w', hcreate, ?_⟩
  refine (noStepFails_iff (fun _ => rfl) smallStart_ne_nil (by decide) (limitEnv_hosts smallTree_names)
    smallTree_scans hcreate fun _ s' _ => limitEnv_clear _ s').mpr ?_
  decide

/-- The path `a/a/…/a` of 4093 characters. -/
def deepStart : Path := pathOf ((List.replicate 2046 [97, 47]).flatten ++ [97])

/-- It has the subdirectory `bb`. -/
def deepTree : Listing := .subdir ⟨1, DT_DIR, [98, 98]⟩ ⟨rfl, rfl, by decide, by decide⟩ .nil .nil

theorem startPath_concat (str : CString) {c : UInt8} (hc : c ≠ slash) : startPath (pathOf (str ++ [c])) = str ++ [c] := by
  have hlast : (str ++ [c]).getLast? ≠ some slash := by
    rw [List.getLast?_concat]
    rintro ⟨⟩
    exact hc rfl
  exact congrArg Path.str (initPath_eq_pathOf hlast)

theorem length_deepStart : (startPath deepStart).length = 4093 := by
  rw [deepStart, startPath_concat _ (by decide), List.length_append, List.length_flatten, List.map_replicate,
    List.sum_replicate_nat]
  rfl

/-- `a/a/…/a/bb` has 4096 characters: it is pushed, and the step into it fails. -/
theorem not_noStepFails_deep : (startPath deepStart).length < PATH_MAX ∧
    HostsShort (limitEnv (startPath deepStart, deepTree)) (startPath deepStart, deepTree) ∧
    (∀ d ∈ deepTree.all (startPath deepStart), d.2.AllScan) ∧
    (∀ s, ScanClear (limitEnv (startPath deepStart, deepTree)) s) ∧ ∃ st w',
      jfsFwStateCreate (limitEnv (startPath deepStart, deepTree)) deepStart ⟨0, 0⟩ = (.ok st, w') ∧
        ¬ NoStepFails (limitEnv (startPath deepStart, deepTree)) ⟨w', st⟩ := by
  have hne : deepStart.str ≠ [] := List.append_ne_nil_of_right_ne_nil _ (List.cons_ne_nil _ _)
  have hlen := length_deepStart
  generalize deepStart = start at hlen hne
  have hshort : (startPath start).length < PATH_MAX := by
    rw [hlen]
    decide
  have hall : ∀ d ∈ deepTree.all (startPath start), d.2 = deepTree ∨ d.2 = .nil := by
    intro d hd
    rcases List.mem_cons.mp hd with rfl | hd
    · exact .inl rfl
    · rw [List.mem_singleton.mp hd]
      exact .inr rfl
  have hscan : ∀ d ∈ deepTree.all (startPath start), d.2.AllScan := by
    intro d hd
    rcases hall d hd with e | e
    · rw [e]
      decide
    · rw [e]
      decide
  have hhosts : HostsShort (limitEnv (startPath start, deepTree)) (startPath start, deepTree) := by
    refine limitEnv_hosts fun d hd => ?_
    rcases hall d hd with e | e
    · rw [e]
      decide
    · rw [e]
      decide
  refine ⟨hshort, hhosts, hscan, limitEnv_clear _, ?_⟩
  obtain ⟨st, w', hcreate, -⟩ := exists_of_yields (w := ⟨0, 0⟩) (limitEnv_quiet (startPath start, deepTree))
    (yields_create (Nat.le_of_lt hshort))
  refine ⟨st, w', hcreate, not_noStepFails_of_length (d := (childPath (startPath start) [98, 98], .nil)) (fun _ => rfl)
    hne hshort hhosts hscan hcreate (fun _ s' _ => limitEnv_clear _ s') ?_ ?_⟩
  · exact List.mem_cons_of_mem _ (List.mem_singleton.mpr rfl)
  · rw [childPath, List.length_append, hlen]
    rfl

end FileSync.FileWalk
