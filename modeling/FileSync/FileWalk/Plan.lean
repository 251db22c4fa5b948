import FileSync.FileIo.Strings
import FileSync.FileWalk.Tree

/-!
# The calls of a computation

Calls of the library are numbered, so which of them a computation makes can be said before
it is run: that is its plan. `Does` says that a computation gives its value if all
allocations of its plan succeed (`Served`), and fails with `JFS_ERR_SYS` otherwise. It is
composed along `>>=`, from an allocation up to the loop of `fw_scan_dir`.
-/

namespace FileSync.FileWalk

open FileSync.Lib FileSync.FileIo

/-! ### Errors -/

section Errors

variable {env : Env} {w : World} {α : Type}

theorem failWith_apply (e : JfsErr) : (failWith env e : Sys α) w = (.error e, w.next env) := rfl

theorem checkErr_ok {m : Sys α} {a : α} {w' : World} (h : m w = (.ok a, w')) : checkErr env m w = (.ok a, w') := by
  have e : m.attempt w = (.ok (.ok a), w') := by rw [Fallible.attempt_apply, h]
  exact Fallible.bind_of_ok e

theorem checkErr_error {m : Sys α} {e : JfsErr} {w' : World} (h : m w = (.error e, w')) :
    checkErr env m w = (.error e, w'.next env) := by
  have e' : m.attempt w = (.ok (.error e), w') := by rw [Fallible.attempt_apply, h]
  exact Fallible.bind_of_ok e'

theorem onWorld_eq {m : Sys α} {s : Walk} {r : Except JfsErr α} {w' : World} (h : m s.world = (r, w')) :
    onWorld m s = (r, { s with world := w' }) := by
  rw [onWorld, Fallible.zoom_apply, h]

theorem onWorld_attempt {m : Sys α} {s : Walk} {r : Except JfsErr α} {w' : World} (h : m s.world = (r, w')) :
    onWorld m.attempt s = (.ok r, { s with world := w' }) := by
  rw [onWorld, Fallible.zoom_apply, Fallible.attempt_apply, h]

end Errors

/-! ### Plans -/

/-- A call of the library. -/
inductive Call
  /-- An allocation. -/
  | alloc
  /-- A call that does not fail. -/
  | other
  deriving DecidableEq, Repr

/-- The allocations of a plan succeed, if its first call has the number `n`. -/
def Served (env : Env) : ℕ → List Call → Prop
  | _, [] => True
  | n, .alloc :: plan => env.alloc n = true ∧ Served env (n + 1) plan
  | n, .other :: plan => Served env (n + 1) plan

instance Served.decide (env : Env) : ∀ n plan, Decidable (Served env n plan)
  | _, [] => inferInstanceAs (Decidable True)
  | n, .alloc :: plan => @instDecidableAnd _ _ _ (Served.decide env (n + 1) plan)
  | n, .other :: plan => Served.decide env (n + 1) plan

/-- The library after some calls. -/
def after (env : Env) : ℕ → World → World
  | 0, w => w
  | n + 1, w => after env n (w.next env)

section Plans

variable {env : Env} {w : World} {n : ℕ} {plan p q : List Call} {α β : Type}

theorem served_append : Served env n (p ++ q) ↔ Served env n p ∧ Served env (n + p.length) q := by
  induction p generalizing n with
  | nil => simp [Served]
  | cons c p ih =>
    have hlen : n + (c :: p).length = n + 1 + p.length := by
      rw [List.length_cons]
      omega
    rw [hlen]
    cases c with
    | alloc => rw [List.cons_append, Served, Served, ih, and_assoc]
    | other => rw [List.cons_append, Served, Served, ih]

theorem served_of_alloc (h : ∀ k, env.alloc k = true) (n : ℕ) (plan : List Call) : Served env n plan := by
  induction plan generalizing n with
  | nil => trivial
  | cons c plan ih =>
    cases c with
    | alloc => exact ⟨h n, ih (n + 1)⟩
    | other => exact ih (n + 1)

theorem after_calls (env : Env) (n : ℕ) (w : World) : (after env n w).calls = w.calls + n := by
  induction n generalizing w with
  | zero => rfl
  | succ n ih =>
    rw [after, ih]
    show w.calls + 1 + n = w.calls + (n + 1)
    omega

theorem after_add (env : Env) (n m : ℕ) (w : World) : after env (n + m) w = after env m (after env n w) := by
  induction n generalizing w with
  | zero => rw [Nat.zero_add, after]
  | succ n ih => rw [Nat.add_right_comm, after, after, ih]

/-! ### What a computation does -/

/-- **The computation makes the calls of the plan** and gives the value, if they are served;
otherwise it fails. -/
def Does (env : Env) (m : Sys α) (plan : List Call) (a : α) : Prop :=
  Decides (fun w => Served env w.calls plan) m (after env plan.length) a .sys

theorem does_pure (env : Env) (a : α) : Does env (pure a) [] a :=
  fun _ => ⟨fun _ => rfl, fun h => absurd trivial h⟩

/-- One computation after another. -/
theorem does_bind {m : Sys α} {f : α → Sys β} {a : α} {b : β} (hm : Does env m p a) (hf : Does env (f a) q b) :
    Does env (m >>= f) (p ++ q) b := by
  intro w
  have h := decides_bind hm hf w
  simp only [after_calls] at h
  simp only [served_append, List.length_append, after_add]
  exact h

theorem does_checkErr {m : Sys α} {a : α} (h : Does env m plan a) : Does env (checkErr env m) plan a := by
  intro w
  refine ⟨fun hs => checkErr_ok ((h w).1 hs), fun hs => ?_⟩
  obtain ⟨w', e⟩ := (h w).2 hs
  exact ⟨_, checkErr_error e⟩

theorem does_allocate (env : Env) : Does env (allocate env) [.alloc] () := by
  intro w
  have hrun : allocate env w =
      (if env.alloc w.calls then (pure () : Sys Unit) else failWith env .sys) (w.next env) := rfl
  constructor
  · intro h
    rw [hrun, if_pos h.1]
    rfl
  · intro h
    rw [hrun, if_neg fun ha => h ⟨ha, trivial⟩]
    exact ⟨_, failWith_apply .sys⟩

end Plans

/-! ### Vectors, paths and names -/

section Vectors

variable {α : Type}

/-- The vector with one entry more. -/
def Vec.pushed (vec : Vec α) (a : α) : Vec α :=
  { items := vec.items ++ [a], capacity := if vec.capacity ≤ vec.count then vec.capacity * 2 else vec.capacity }

/-- The plan of a push. -/
def Vec.pushPlan (vec : Vec α) : List Call := if vec.capacity ≤ vec.count then [.alloc] else []

theorem does_vectorInit (env : Env) (capacity : ℕ) :
    Does env (vectorInit capacity env : Sys (Vec α)) [.alloc] { items := [], capacity := capacity } :=
  does_bind (does_checkErr (does_allocate env)) (does_pure env _)

theorem does_vectorPush (env : Env) (vec : Vec α) (a : α) :
    Does env (vectorPush env vec a) vec.pushPlan (vec.pushed a) := by
  unfold vectorPush Vec.pushPlan Vec.pushed
  by_cases hfull : vec.capacity ≤ vec.count
  · rw [if_pos hfull, if_pos hfull, if_pos hfull]
    exact does_bind (does_checkErr (does_allocate env)) (does_pure env _)
  · rw [if_neg hfull, if_neg hfull, if_neg hfull]
    exact does_pure env _

theorem does_vectorToArray (env : Env) {vec : Vec α} (h : vec.count ≠ 0) :
    Does env (vectorToArray env vec) [.alloc] vec.items := by
  unfold vectorToArray
  rw [if_neg h]
  exact does_bind (does_checkErr (does_allocate env)) (does_pure env _)

theorem items_foldl_pushed (xs : List α) (vec : Vec α) : (xs.foldl Vec.pushed vec).items = vec.items ++ xs := by
  induction xs generalizing vec with
  | nil => exact (List.append_nil _).symm
  | cons x xs ih =>
    rw [List.foldl_cons, ih, Vec.pushed, List.append_assoc]
    rfl

end Vectors

section Strings

/-- The length that `jfs_fio_path_buf_compose` computes. -/
theorem pathOf_len (path name : CString) : (pathOf path).len + name.length + 1 = (childPath path name).length := by
  simp only [childPath, pathOf, List.length_append, List.length_cons]
  omega

/-- A path that ends with a name has no slash at its end. -/
theorem pathStrLen_childPath (path : CString) {name : CString} (hne : name ≠ []) (hs : slash ∉ name) :
    pathStrLen (childPath path name) = (childPath path name).length := by
  refine if_neg ?_
  rintro ⟨-, h⟩
  rw [childPath, List.getLast?_append, List.getLast?_cons] at h
  obtain ⟨c, hc⟩ := Option.ne_none_iff_exists'.mp (mt List.getLast?_eq_none_iff.mp hne)
  simp only [hc, Option.getD_some, Option.some_or, Option.some.injEq] at h
  rw [← h] at hs
  exact hs (List.mem_of_getLast? hc)

/-- A string without a slash at its end is initialised as it is. -/
theorem initPath_eq_pathOf {str : CString} (h : str.getLast? ≠ some slash) : initPath str = pathOf str := by
  have hlen : pathStrLen str = str.length := if_neg fun hslash => h hslash.2
  rw [initPath, hlen, List.take_length]
  rfl

theorem does_nameInit (env : Env) {str : CString} (h : str.length ≤ NAME_MAX) :
    Does env (jfsFioNameInit env str) [.alloc] { len := str.length, str := str } := by
  unfold jfsFioNameInit
  simp only [List.take_length]
  rw [if_neg (Nat.not_lt.mpr h)]
  exact does_bind (does_checkErr (does_allocate env)) (does_pure env _)

theorem does_pathInit (env : Env) {str : CString} (h : pathStrLen str ≤ PATH_MAX) :
    Does env (jfsFioPathInit env str) [.alloc] (initPath str) := by
  unfold jfsFioPathInit
  simp only
  rw [if_neg (Nat.not_lt.mpr h)]
  exact does_bind (does_checkErr (does_allocate env)) (does_pure env _)

end Strings

/-! ### Reading a directory -/

/-- The plan of the loop of `fw_scan_dir`. An entry that is not supported is logged four
times. -/
def scanPlan : List Dirent → Vec FwFile → List Call
  | [], _ => []
  | ent :: rest, vec =>
    match fileOf ent with
    | some file => .other :: .alloc :: vec.pushPlan ++ scanPlan rest (vec.pushed file)
    | none =>
      if isDot ent.name then .other :: scanPlan rest vec
      else .other :: .other :: .other :: .other :: .other :: scanPlan rest vec

/-- What is in `errno` when `fw_scan_dir` tests it, if its first call has the number `n`. -/
def scanErrno (env : Env) (dir : Dir) (vec : Vec FwFile) (n : ℕ) : ℕ :=
  dir.failure.getD (after env (scanPlan dir.entries vec).length { calls := n, errno := 0 }).errno

section Reading

variable {env : Env} {w : World} {ent : Dirent} {file : FwFile}

theorem does_mapDirentType (env : Env) (h : fileOf ent = some file) :
    Does env (fwMapDirentType env ent.type) [] file.type := by
  unfold fileOf at h
  split_ifs at h with hdot hreg hdir
  · rw [fwMapDirentType, if_pos hreg, ← Option.some.inj h]
    exact does_pure env _
  · rw [fwMapDirentType, if_neg hreg, if_pos hdir, ← Option.some.inj h]
    exact does_pure env _

theorem does_handleDirent (env : Env) (vec : Vec FwFile) (hfile : fileOf ent = some file)
    (hlen : ent.name.length ≤ NAME_MAX) :
    Does env (fwHandleDirent env ent vec) (.alloc :: vec.pushPlan) (vec.pushed file) := by
  obtain ⟨-, -, e⟩ := fileOf_eq_some hfile
  have hinit : Does env (fwFileInit env ent) [.alloc] file := by
    rw [e]
    exact does_bind (does_checkErr (does_mapDirentType env hfile))
      (does_bind (does_checkErr (does_nameInit env hlen)) (does_pure env _))
  exact does_bind (does_checkErr hinit) (does_checkErr (does_vectorPush env vec file))

/-- An entry of a type that is neither recorded nor unknown. -/
theorem handleDirent_unsupported {ent : Dirent} (vec : Vec FwFile) (hreg : ent.type ≠ DT_REG)
    (hdir : ent.type ≠ DT_DIR) (hunknown : ent.type ≠ DT_UNKNOWN) :
    fwHandleDirent env ent vec w = (.error .fwUnsupported, ((w.next env).next env).next env) := by
  have htype : fwMapDirentType env ent.type w = (.error .fwUnsupported, w.next env) := by
    rw [fwMapDirentType, if_neg hreg, if_neg hdir, if_neg hunknown]
    rfl
  have hinit : fwFileInit env ent w = (.error .fwUnsupported, (w.next env).next env) :=
    Fallible.bind_of_error (checkErr_error htype)
  exact Fallible.bind_of_error (checkErr_error hinit)

/-- An entry that stops `fw_scan_dir`. -/
theorem handleDirent_stops {ent : Dirent} (vec : Vec FwFile) (h : ¬ Scans ent) :
    ∃ e w', fwHandleDirent env ent vec w = (.error e, w') ∧ (e = .fwUnknown ∨ e = .fioNameLen) := by
  have h' : ¬ (ent.type ≠ DT_UNKNOWN ∧ (ent.type = DT_REG ∨ ent.type = DT_DIR → ent.name.length ≤ NAME_MAX)) :=
    fun h' => h (.inr h')
  have hinit : ∃ e w', fwFileInit env ent w = (.error e, w') ∧ (e = .fwUnknown ∨ e = .fioNameLen) := by
    by_cases hunknown : ent.type = DT_UNKNOWN
    · have htype : fwMapDirentType env ent.type w = (.error .fwUnknown, w.next env) := by
        rw [hunknown]
        rfl
      exact ⟨.fwUnknown, _, Fallible.bind_of_error (checkErr_error htype), .inl rfl⟩
    · obtain ⟨htypes, hlen⟩ : (ent.type = DT_REG ∨ ent.type = DT_DIR) ∧ NAME_MAX < ent.name.length := by
        by_contra hno
        exact h' ⟨hunknown, fun ht => Nat.not_lt.mp fun hl => hno ⟨ht, hl⟩⟩
      obtain ⟨type, htype⟩ : ∃ type, fwMapDirentType env ent.type w = (.ok type, w) := by
        rcases htypes with e | e
        · exact ⟨.reg, by rw [e]; rfl⟩
        · exact ⟨.dir, by rw [e]; rfl⟩
      have hname : jfsFioNameInit env ent.name w = (.error .fioNameLen, w.next env) := by
        unfold jfsFioNameInit
        rw [if_pos hlen]
        rfl
      exact ⟨.fioNameLen, _, (Fallible.bind_of_ok (checkErr_ok htype)).trans
        (Fallible.bind_of_error (checkErr_error hname)), .inr rfl⟩
  obtain ⟨e, w', hinit, he⟩ := hinit
  exact ⟨e, _, Fallible.bind_of_error (checkErr_error hinit), he⟩

/-- An entry that has been handled. -/
theorem scanEntries_ok {ent : Dirent} {rest : List Dirent} {vec vec' : Vec FwFile} {w' : World}
    (hdot : isDot ent.name = false) (h : fwHandleDirent env ent vec (w.next env) = (.ok vec', w')) :
    fwScanEntries env (ent :: rest) vec w = fwScanEntries env rest vec' w' := by
  have hattempt : (fwHandleDirent env ent vec).attempt (w.next env) = (.ok (.ok vec'), w') := by
    rw [Fallible.attempt_apply, h]
  rw [fwScanEntries, hdot, if_neg Bool.false_ne_true, Fallible.modify_bind]
  exact Fallible.bind_of_ok hattempt

/-- An entry that could not be handled: it is left out if its type is not supported, and
ends the loop otherwise. -/
theorem scanEntries_error {ent : Dirent} {rest : List Dirent} {vec : Vec FwFile} {e : JfsErr} {w' : World}
    (hdot : isDot ent.name = false) (h : fwHandleDirent env ent vec (w.next env) = (.error e, w')) :
    fwScanEntries env (ent :: rest) vec w =
      if e = .fwUnsupported then fwScanEntries env rest vec (w'.next env) else (.error e, w'.next env) := by
  have hattempt : (fwHandleDirent env ent vec).attempt (w.next env) = (.ok (.error e), w') := by
    rw [Fallible.attempt_apply, h]
  rw [fwScanEntries, hdot, if_neg Bool.false_ne_true, Fallible.modify_bind]
  refine (Fallible.bind_of_ok hattempt).trans ?_
  by_cases he : e = .fwUnsupported
  · simp only [if_pos he]
    rfl
  · simp only [if_neg he]
    rfl

theorem scanPlan_cons (ent : Dirent) (rest : List Dirent) (vec : Vec FwFile) :
    scanPlan (ent :: rest) vec = scanPlan [ent] vec ++ scanPlan rest ((fileOf ent).toList.foldl Vec.pushed vec) := by
  rw [scanPlan, scanPlan]
  cases fileOf ent with
  | some file => simp [scanPlan]
  | none =>
    split_ifs
    · rfl
    · rfl

/-- One turn of the loop of `fw_scan_dir`, with an entry that does not stop it. -/
theorem scanEntries_cons (env : Env) (w : World) (rest : List Dirent) (vec : Vec FwFile) (hent : Scans ent) :
    (Served env w.calls (scanPlan [ent] vec) → fwScanEntries env (ent :: rest) vec w =
        fwScanEntries env rest ((fileOf ent).toList.foldl Vec.pushed vec)
          (after env (scanPlan [ent] vec).length w)) ∧
      (¬ Served env w.calls (scanPlan [ent] vec) → ∃ w', fwScanEntries env (ent :: rest) vec w = (.error .sys, w')) := by
  rw [scanPlan]
  cases hfile : fileOf ent with
  | some file =>
    obtain ⟨hdot, htypes, -⟩ := fileOf_eq_some hfile
    obtain ⟨-, hlen⟩ := hent.resolve_left (by rw [hdot]; exact Bool.false_ne_true)
    obtain ⟨hok, herr⟩ := does_handleDirent env vec hfile (hlen htypes) (w.next env)
    simp only [scanPlan, List.append_nil]
    refine ⟨fun hs => scanEntries_ok hdot (hok hs), fun hs => ?_⟩
    obtain ⟨w', e⟩ := herr hs
    refine ⟨w'.next env, ?_⟩
    rw [scanEntries_error hdot e, if_neg (by decide)]
  | none =>
    cases hdot : isDot ent.name with
    | true =>
      refine ⟨fun _ => ?_, fun h => absurd trivial h⟩
      rw [fwScanEntries, hdot]
      rfl
    | false =>
      obtain ⟨hunknown, -⟩ := hent.resolve_left (by rw [hdot]; exact Bool.false_ne_true)
      obtain ⟨hreg, hdir⟩ := fileOf_eq_none hfile hdot
      refine ⟨fun _ => ?_, fun h => absurd trivial h⟩
      rw [scanEntries_error hdot (handleDirent_unsupported vec hreg hdir hunknown), if_pos rfl]
      rfl

/-- The loop of `fw_scan_dir` collects the entries that are recorded, in order. -/
theorem does_scanEntries (env : Env) {ents : List Dirent} (hscan : ∀ ent ∈ ents, Scans ent) (vec : Vec FwFile) :
    Does env (fwScanEntries env ents vec) (scanPlan ents vec) ((ents.filterMap fileOf).foldl Vec.pushed vec) := by
  induction ents generalizing vec with
  | nil => exact does_pure env vec
  | cons ent rest ih =>
    obtain ⟨hent, hrest⟩ := List.forall_mem_cons.mp hscan
    have hfiles : (ent :: rest).filterMap fileOf = (fileOf ent).toList ++ rest.filterMap fileOf := by
      cases hfile : fileOf ent with
      | none => rw [List.filterMap_cons_none hfile, Option.toList_none, List.nil_append]
      | some file => rw [List.filterMap_cons_some hfile, Option.toList_some, List.singleton_append]
    intro w
    obtain ⟨hok, herr⟩ := scanEntries_cons env w rest vec hent
    beta_reduce
    rw [scanPlan_cons, served_append, List.length_append, after_add, hfiles, List.foldl_append]
    by_cases hs : Served env w.calls (scanPlan [ent] vec)
    · have h := ih hrest ((fileOf ent).toList.foldl Vec.pushed vec) (after env (scanPlan [ent] vec).length w)
      simp only [after_calls] at h
      rw [hok hs]
      exact ⟨fun h' => h.1 h'.2, fun h' => h.2 fun hrest => h' ⟨hs, hrest⟩⟩
    · exact ⟨fun h => absurd h.1 hs, fun _ => herr hs⟩

/-- An entry that cannot be scanned ends the loop, if nothing else has before. -/
theorem scanEntries_stops {ents : List Dirent} (hscan : ¬ ∀ ent ∈ ents, Scans ent) (vec : Vec FwFile) :
    ∃ e w', fwScanEntries env ents vec w = (.error e, w') ∧ (e = .fwUnknown ∨ e = .fioNameLen ∨ e = .sys) := by
  induction ents generalizing vec w with
  | nil => simp at hscan
  | cons ent rest ih =>
    by_cases hent : Scans ent
    · have hrest : ¬ ∀ ent ∈ rest, Scans ent := fun h => hscan (List.forall_mem_cons.mpr ⟨hent, h⟩)
      obtain ⟨hok, herr⟩ := scanEntries_cons env w rest vec hent
      by_cases hs : Served env w.calls (scanPlan [ent] vec)
      · rw [hok hs]
        exact ih hrest _
      · obtain ⟨w', e⟩ := herr hs
        exact ⟨.sys, w', e, .inr (.inr rfl)⟩
    · have hdot : isDot ent.name = false := by
        by_contra hdot
        exact hent (.inl (by simpa using hdot))
      obtain ⟨e, w', he, hcases⟩ := handleDirent_stops (w := w.next env) vec hent
      refine ⟨e, w'.next env, ?_, hcases.imp id .inl⟩
      rw [scanEntries_error hdot he, if_neg]
      rcases hcases with rfl | rfl
      · decide
      · decide

/-- An entry that cannot be scanned ends `fw_scan_dir`. -/
theorem scanDir_stops (env : Env) (dir : Dir) (w : World) (hscan : ¬ ∀ ent ∈ dir.entries, Scans ent)
    (vec : Vec FwFile) :
    ∃ e w', fwScanDir env dir vec w = (.error e, w') ∧ (e = .fwUnknown ∨ e = .fioNameLen ∨ e = .sys) := by
  obtain ⟨e, w', he, hcases⟩ := scanEntries_stops (w := { w with errno := 0 }) hscan vec
  refine ⟨e, w', ?_, hcases⟩
  rw [fwScanDir, Fallible.modify_bind]
  exact Fallible.bind_of_error he

variable {dir : Dir} {vec : Vec FwFile}

/-- `fw_scan_dir` tests `errno` when the loop is over. -/
theorem scanDir_of_served (hscan : ∀ ent ∈ dir.entries, Scans ent)
    (hs : Served env w.calls (scanPlan dir.entries vec)) :
    ∃ w', w'.calls = w.calls + (scanPlan dir.entries vec).length ∧ fwScanDir env dir vec w =
      if scanErrno env dir vec w.calls = 0 then
        (.ok ((dir.entries.filterMap fileOf).foldl Vec.pushed vec), w')
      else (.error .sys, w'.next env) := by
  have hloop := (does_scanEntries env hscan vec { w with errno := 0 }).1 hs
  generalize hw : after env (scanPlan dir.entries vec).length { w with errno := 0 } = w₁ at hloop
  have hcalls : w₁.calls = w.calls + (scanPlan dir.entries vec).length := by
    rw [← hw, after_calls]
  have herrno : dir.failure.getD w₁.errno = scanErrno env dir vec w.calls := by
    rw [← hw]
    rfl
  refine ⟨{ w₁ with errno := dir.failure.getD w₁.errno }, hcalls, ?_⟩
  rw [fwScanDir, Fallible.modify_bind]
  refine (Fallible.bind_of_ok hloop).trans ?_
  rw [Fallible.modify_bind, Fallible.get_bind]
  simp only [herrno]
  by_cases h₀ : scanErrno env dir vec w.calls = 0
  · rw [if_pos h₀, if_neg (not_not.mpr h₀)]
    rfl
  · rw [if_neg h₀, if_pos h₀]
    rfl

/-- `fw_scan_dir` fails if an allocation fails or `errno` is not clear. -/
theorem scanDir_sys (hscan : ∀ ent ∈ dir.entries, Scans ent)
    (h : ¬ (Served env w.calls (scanPlan dir.entries vec) ∧ scanErrno env dir vec w.calls = 0)) :
    ∃ w', fwScanDir env dir vec w = (.error .sys, w') := by
  by_cases hs : Served env w.calls (scanPlan dir.entries vec)
  · obtain ⟨w', -, e⟩ := scanDir_of_served hscan hs
    rw [if_neg fun herrno => h ⟨hs, herrno⟩] at e
    exact ⟨_, e⟩
  · obtain ⟨w', e⟩ := (does_scanEntries env hscan vec { w with errno := 0 }).2 hs
    refine ⟨w', ?_⟩
    rw [fwScanDir, Fallible.modify_bind]
    exact Fallible.bind_of_error e

end Reading

end FileSync.FileWalk
