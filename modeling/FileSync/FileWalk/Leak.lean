import FileSync.FileWalk.Creation
import FileSync.FileWalk.Erasure

/-!
# What `file_walk_test` leaks

`file_walk_test` creates a walk, runs it and makes a record of it. What it leaves in use is
the block of its path, if it succeeds.
-/

namespace FileSync.FileWalk.Memory

open FileSync.Lib FileSync.FileIo

variable {env : Env} {v : Vars} {B : Multiset Block}

/-! ### What is printed -/

section Print

variable {bs : Multiset Block}

theorem logErr_triple : Triple (Has bs) (onSys (logErr env)) (fun _ => Has bs) fun _ => False := fun _ => id

theorem printFiles_triple {ptr : Pointer} {files : List OwnedFile} (hptr : files ≠ [] → ptr.IsBlock ∧ ptr.blocks ≤ bs)
    (hfiles : ∀ file ∈ files, file.Ok ∧ file.blocks ≤ bs) :
    Triple (Has bs) (printFiles env ptr files) (fun _ => Has bs) fun _ => False := by
  induction files with
  | nil => exact Triple.pure fun _ => id
  | cons file files ih =>
    obtain ⟨hp, hple⟩ := hptr (List.cons_ne_nil _ _)
    obtain ⟨⟨hfile, hfle⟩, hfiles⟩ := List.forall_mem_cons.mp hfiles
    refine (touch_triple hp hple).bind fun _ => (touch_triple hfile hfle).bind fun _ => ?_
    exact logErr_triple.bind fun _ => ih (fun _ => ⟨hp, hple⟩) hfiles

/-- The blocks of an entry of an array are among those of the array. -/
theorem le_blocks {α : Type} {f : α → Multiset Block} {array : Owned (List α)} {x : α} (h : x ∈ array.val) :
    f x ≤ array.blocks f := by
  have hmem : f x ∈ array.val.map f := List.mem_map_of_mem h
  have hsum : f x ≤ (array.val.map f).sum := List.le_sum_of_mem hmem
  exact hsum.trans (Multiset.le_add_left _ _)

theorem printDirs_triple {ptr : Pointer} {dirs : List OwnedDir} (hptr : dirs ≠ [] → ptr.IsBlock ∧ ptr.blocks ≤ bs)
    (hdirs : ∀ dir ∈ dirs, DirOk dir ∧ dir.blocks ≤ bs) :
    Triple (Has bs) (printDirs env ptr dirs) (fun _ => Has bs) fun _ => False := by
  induction dirs with
  | nil => exact Triple.pure fun _ => id
  | cons dir dirs ih =>
    obtain ⟨hp, hple⟩ := hptr (List.cons_ne_nil _ _)
    obtain ⟨⟨hdir, hdle⟩, hdirs⟩ := List.forall_mem_cons.mp hdirs
    have hfiles : dir.files.blocks OwnedFile.blocks ≤ bs := (Multiset.le_add_left _ _).trans hdle
    unfold printDirs
    rw [hdir.count, List.take_length]
    refine (touch_triple hp hple).bind fun _ => ?_
    refine (touch_triple hdir.ptr ((Multiset.le_add_right _ _).trans hdle)).bind fun _ => ?_
    refine logErr_triple.bind fun _ => Triple.bind (printFiles_triple (fun hne => ?_) fun file hfile => ?_) fun _ =>
      ih (fun _ => ⟨hp, hple⟩) hdirs
    · rcases hdir.files.ptr with hblock | ⟨-, hnil⟩
      · exact ⟨hblock, (Multiset.le_add_right _ _).trans hfiles⟩
      · exact absurd hnil hne
    · exact ⟨hdir.files.items file hfile, (le_blocks hfile).trans hfiles⟩

theorem printRecord_triple {record : OwnedRecord} (h : record.Ok) :
    Triple (Has (record.blocks + B)) (printRecord env record) (fun _ => Has (record.blocks + B))
      fun _ => False := by
  unfold printRecord
  rw [h.count, List.take_length]
  refine Triple.bind (printDirs_triple (fun hne => ?_) fun dir hdir => ?_) fun _ =>
    logErr_triple.bind fun _ => logErr_triple
  · rcases h.dirs.ptr with hblock | ⟨-, hnil⟩
    · exact ⟨hblock, (Multiset.le_add_right _ _).trans (Multiset.le_add_right _ _)⟩
    · exact absurd hnil hne
  · exact ⟨h.dirs.items dir hdir, (le_blocks hdir).trans (Multiset.le_add_right _ _)⟩

end Print

/-! ### `file_walk_test` -/

/-- The loop of `file_walk_test`. -/
theorem walkLoop_owns {fuel : ℕ} {m : Mem} {r : WalkEnd} (h : Owns Vars.Idle B m) (hloop : walkLoop env fuel m = some r) :
    Owns Vars.Idle B r.mem := by
  refine loop_keeps (J := Owns Vars.Idle B) (Q := fun r => Owns Vars.Idle B r.mem) ?_ ?_ h hloop
  · intro m m' hm hturn
    have hstep := jfsFwStateStep_owns env hm
    unfold walkTurn at hturn
    dsimp only at hturn
    split_ifs at hturn <;> cases hturn
    · exact hstep
    · exact hstep
  · intro m r hm hturn
    have hstep := jfsFwStateStep_owns env hm
    unfold walkTurn at hturn
    dsimp only at hturn
    split_ifs at hturn <;> cases hturn
    · exact hstep
    · exact hstep

/-- The record is printed and freed. -/
theorem testRecord_triple {record : OwnedRecord} (verboseFlag : Bool) (h : record.Ok) :
    Triple (Owns Vars.Empty (record.blocks + B)) (do
      if verboseFlag then onStore (printRecord env record)
      onStore (jfsFwRecordFree record)) (fun _ => Owns Vars.Empty B) (fun _ => False) := by
  refine owns_triple fun v hv => ?_
  have hfree : Triple (At v (v.blocks + (record.blocks + B))) (onStore (jfsFwRecordFree record)) (fun _ => Owns Vars.Empty B)
      fun _ => False := by
    rw [add_left_comm]
    exact (onStore_frees (frees_record record h _)).conseq (fun _ => id) (fun _ => Owns.of_at hv) fun _ => id
  refine Triple.ite (fun _ => Triple.bind ?_ fun _ => hfree) fun _ => hfree
  rw [add_left_comm]
  exact onStore_frees (printRecord_triple h)

/-- What `file_walk_test` leaves: the block of its path, if it succeeds. -/
def Leaves (B : Multiset Block) (r : Except JfsErr Unit × Mem) : Prop :=
  match r.1 with
  | .ok _ => ∃ b, Owns Vars.Empty ({b} + B) r.2
  | .error _ => Owns Vars.Empty B r.2

/-- `jfs_fio_path_init`, and when it fails. -/
theorem jfsFioPathInit_call (env : Env) (pathStr : CString) (c : ℕ) (bs : Multiset Block) :
    Triple (HasCall c bs) (jfsFioPathInit env pathStr)
      (fun path s => (path.ptr.IsBlock ∧ path.val.str = pathStr.take (pathStrLen pathStr) ∧ pathStrLen pathStr ≤ PATH_MAX ∧
        env.alloc c = true) ∧ HasCall (c + 1) (pathBlocks path + bs) s)
      (fun s => ¬ (pathStrLen pathStr ≤ PATH_MAX ∧ env.alloc c = true) ∧ Has bs s) := by
  unfold jfsFioPathInit
  dsimp only
  refine Triple.ite (fun hlen => ?_) fun hlen => ?_
  · have hfail : Triple (HasCall c bs) (onSys (failWith env .fioPathLen) : OnStore PUnit) (fun _ _ => False) (Has bs) :=
      fun s hs => hs.1
    refine Triple.bind (hfail.conseq (fun _ => id) (fun _ _ => id) fun s hs => ⟨fun h => ?_, hs⟩) fun _ _ hfalse => hfalse.elim
    exact Nat.not_le_of_lt hlen h.1
  · cases halloc : env.alloc c with
    | false =>
      have hfails : Triple (HasCall c bs) (jfsMalloc env) (fun _ _ => False) (Has bs) := jfsMalloc_call_fails halloc
      refine Triple.bind ((checkErr_triple hfails).conseq (fun _ => id) (fun _ _ => id) fun s hs => ⟨fun h => ?_, hs⟩)
        fun _ _ hfalse => hfalse.elim
      exact Bool.false_ne_true h.2
    | true =>
      refine Triple.bind ((checkErr_call (jfsMalloc_call halloc)).conseq (fun _ => id) (fun _ _ => id) fun _ => False.elim)
        fun ptr => Triple.lift fun hptr => Triple.pure fun s hs => ?_
      exact ⟨⟨hptr, rfl, Nat.le_of_not_lt hlen, rfl⟩, hs⟩

section FileWalkTest

variable {verboseFlag : Bool} {fuel : ℕ} {pathStr : CString} {m : Mem} {r : Except JfsErr Unit × Mem}

theorem Leaves.sound (h : Leaves B r) : r.2.store.heap.misused = false := by
  rcases r with ⟨res, m⟩
  cases res with
  | ok a =>
    obtain ⟨b, hb⟩ := h
    exact hb.2.sound
  | error e => exact h.2.sound

end FileWalkTest

/-- No block is in use. -/
def emptyMem : Mem := ⟨⟨⟨0, 0⟩, ⟨[], 0, false⟩⟩, noVars⟩

theorem emptyMem_holds : emptyMem.store.heap.Holds 0 := ⟨rfl, List.nodup_nil, fun _ hb => absurd hb List.not_mem_nil, rfl⟩

section Completes

variable {pathStr : CString} {L : Listing} {m : Mem}

theorem not_exposed (hq : Quiet env) (c : ℕ) : ¬ Exposed env c := by
  rintro ⟨-, h | h⟩
  · exact Bool.false_ne_true (h.symm.trans (hq.alloc _))
  · exact Bool.false_ne_true (h.symm.trans (hq.alloc _))

/-- What comes of a loop that has ended as the loop without the blocks does. -/
theorem testWalk_of_record (verboseFlag : Bool) {path : Owned Path} {r : WalkEnd} {s' : Walk} {record' : FwRecord} {w : World} {fuel : ℕ}
    (hloop : walkLoop env fuel m = some r) (hend : r.erase = { walk := s', err := .ok, cleanup := false })
    (hrecord : FileWalk.jfsFwRecordInit env s'.state s'.world = (.ok record', w))
    (howns : Owns Vars.Idle (pathBlocks path + B) r.mem) :
    ∃ m', testWalk env verboseFlag fuel path m = some (.ok (), m') ∧ Owns Vars.Empty (pathBlocks path + B) m' := by
  have hwalk : r.mem.erase = s' := congrArg FileWalk.WalkEnd.walk hend
  have hcleanup : r.cleanup = false := congrArg FileWalk.WalkEnd.cleanup hend
  rw [← hwalk] at hrecord
  rcases hinit : jfsFwRecordInit env r.mem with ⟨res, m₁⟩
  cases res with
  | error e =>
    have hplain := (erases_jfsFwRecordInit r.mem).error hinit
    cases hrecord.symm.trans hplain
  | ok record =>
    obtain ⟨hok, hm₁⟩ := jfsFwRecordInit_triple.ok howns hinit
    obtain ⟨u, m', hfree, hm'⟩ := ok_of_triple (testRecord_triple verboseFlag hok) hm₁
    refine ⟨m', ?_, hm'⟩
    rw [testWalk, hloop]
    dsimp only
    rw [if_neg (by rw [hcleanup]; exact Bool.false_ne_true), hinit]
    exact congrArg some hfree

/-- `file_walk_test` from its loop on, over a tree. -/
theorem testWalk_completes (verboseFlag : Bool) {path : Owned Path} {m₁ : Mem} {st : FwState} {w w' : World} (hq : Quiet env)
    (hstr : path.val.str ≠ []) (hhosts : Hosts env (fun _ => false) (startPath path.val, L))
    (hscan : ∀ d ∈ L.all (startPath path.val), d.2.AllScan) (hlen : ∀ d ∈ L.all (startPath path.val), d.1.length ≤ PATH_MAX)
    (hcreate : FileWalk.jfsFwStateCreate env path.val w = (.ok st, w')) (herase : m₁.erase = { world := w', state := st })
    (howns : Owns Vars.Idle (pathBlocks path + B) m₁) :
    (∀ fuel < (L.all (startPath path.val)).length, testWalk env verboseFlag fuel path m₁ = none) ∧
      ∀ fuel, (L.all (startPath path.val)).length ≤ fuel → ∃ m', testWalk env verboseFlag fuel path m₁ = some (.ok (), m') ∧
        Owns Vars.Empty (pathBlocks path + B) m' := by
  obtain ⟨s', -, hwalk⟩ := walk_record_reachable hq hstr hhosts hscan hlen (fun _ _ => rfl) hcreate
  rw [Listing.reachable_none] at hwalk
  obtain ⟨hnone, hsome, w'', hrecord⟩ := hwalk
  have hloop := fun fuel => walkLoop_erase env fuel m₁
  rw [herase] at hloop
  constructor
  · intro fuel hfuel
    have hmap := (hloop fuel).symm.trans (hnone fuel hfuel)
    rw [testWalk, Option.map_eq_none_iff.mp hmap]
  · intro fuel hfuel
    have hmap := (hloop fuel).symm.trans (hsome fuel hfuel)
    obtain ⟨r, hr, hend⟩ := Option.map_eq_some_iff.mp hmap
    exact testWalk_of_record verboseFlag hr hend hrecord (walkLoop_owns howns hr)

/-- **`file_walk_test` on a tree**: if nothing fails it ends, once it has made one step for each directory, with no error, and
leaves one block in use. -/
theorem fileWalkTest_completes (verboseFlag : Bool) (hq : Quiet env) (hstr : pathStr ≠ [])
    (hlong : pathStrLen pathStr ≤ PATH_MAX)
    (hhosts : Hosts env (fun _ => false) (startPath (initPath pathStr), L))
    (hscan : ∀ d ∈ L.all (startPath (initPath pathStr)), d.2.AllScan)
    (hlen : ∀ d ∈ L.all (startPath (initPath pathStr)), d.1.length ≤ PATH_MAX)
    (hv : m.vars.Empty) (hB : m.store.heap.Holds B) :
    (∀ fuel < (L.all (startPath (initPath pathStr))).length, fileWalkTest env verboseFlag fuel pathStr m = none) ∧
      ∀ fuel, (L.all (startPath (initPath pathStr))).length ≤ fuel →
        ∃ b m', fileWalkTest env verboseFlag fuel pathStr m = some (.ok (), m') ∧ m'.store.heap.Holds ({b} + B) := by
  have hinit := onStore_frame (v := m.vars) (jfsFioPathInit_call env pathStr m.store.world.calls B)
  rcases hpath : onStore (jfsFioPathInit env pathStr) m with ⟨res, m₁⟩
  cases res with
  | error e =>
    obtain ⟨-, hnot, -⟩ := hinit.error ⟨rfl, hB, rfl⟩ hpath
    exact absurd ⟨hlong, hq.alloc _⟩ hnot
  | ok path =>
    obtain ⟨hvars, ⟨hptr, hval, -, -⟩, hm₁⟩ := hinit.ok ⟨rfl, hB, rfl⟩ hpath
    have hne : path.val.str ≠ [] := by
      rw [hval, Ne, List.take_eq_nil_iff]
      exact not_or.mpr ⟨pathStrLen_ne_zero hstr, hstr⟩
    have hstart : startPath path.val = startPath (initPath pathStr) := by
      rw [startPath, hval]
      rfl
    rw [← hstart] at hhosts hscan hlen ⊢
    obtain ⟨st, w', hplain, -⟩ := exists_of_yields (w := m₁.store.world) hq (yields_create (hlen _ (List.mem_cons_self ..)))
    obtain ⟨m₂, hcreate, herase⟩ := jfsFwStateCreate_erase hplain
    have howns := (jfsFwStateCreate_triple hv hptr (Multiset.le_add_right _ B) hne (not_exposed hq _)).ok ⟨hvars, hm₁⟩ hcreate
    have htest : ∀ fuel, fileWalkTest env verboseFlag fuel pathStr m = testWalk env verboseFlag fuel path m₂ := by
      intro fuel
      rw [fileWalkTest, hpath]
      dsimp only
      rw [hcreate]
    obtain ⟨hnone, hsome⟩ := testWalk_completes verboseFlag hq hne hhosts hscan hlen hplain herase howns
    refine ⟨fun fuel hfuel => (htest fuel).trans (hnone fuel hfuel), fun fuel hfuel => ?_⟩
    obtain ⟨m', hm', hend⟩ := hsome fuel hfuel
    obtain ⟨b, hb⟩ := hptr
    refine ⟨b, m', (htest fuel).trans hm', ?_⟩
    rw [pathBlocks, hb] at hend
    exact (owns_empty hend.1).mp hend

/-- The small tree has three directories. -/
theorem fileWalkTest_completes_small : ∃ b m', fileWalkTest (smallEnv fun _ => false) true 3 smallStart.str emptyMem =
    some (.ok (), m') ∧ m'.store.heap.Holds ({b} + 0) := by
  have hcompletes := fileWalkTest_completes true (smallEnv_quiet fun _ => false) smallStart_ne_nil (by decide)
    (smallEnv_hosts _) smallTree_scans smallTree_short noVars_empty emptyMem_holds
  exact hcompletes.2 3 (by decide)

end Completes

end FileSync.FileWalk.Memory
