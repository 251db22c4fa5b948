import FileSync.FileWalk.Release
import FileSync.FileWalk.Record

/-!
# A walk from its creation to its end

`jfs_fw_state_create` frees pointers that were never written if one of its two vectors cannot be
allocated (`Exposed`). A walk that has been created gives back all that it takes, whatever
its steps do (`walk_releases`).
-/

namespace FileSync.FileWalk

open FileSync.Lib FileSync.FileIo Memory

variable {env : Env} {v : Vars} {B : Multiset Block}

/-- The variables where there is no walk. -/
structure Vars.Empty (v : Vars) : Prop where
  state : v.state = .null
  pathVec : v.pathVec = .zero
  dirVec : v.dirVec = .zero
  fileVec : v.fileVec = .zero
  path : v.path = zeroPath
  dir : v.dir = .zero
  sysDir : v.sysDir = none

/-- The variables where a walk can be destroyed. -/
structure Vars.Done (v : Vars) : Prop where
  state : v.state.IsBlock
  pathVec : v.pathVec.array.Ok PathOk
  dirVec : v.dirVec.array.Ok DirOk
  fileVec : v.fileVec = .zero
  path : v.path = zeroPath
  dir : v.dir = .zero
  sysDir : v.sysDir = none

/-- The variables where the creation of a walk has failed late. -/
structure Vars.Creating (v : Vars) : Prop where
  state : v.state.IsBlock
  pathVec : v.pathVec.array.Ok PathOk
  dirVec : v.dirVec.array.Ok DirOk
  fileVec : v.fileVec = .zero
  path : v.path.ptr ≠ .uninit
  dir : v.dir = .zero
  sysDir : v.sysDir = none

theorem Vars.Idle.done (h : v.Idle) : v.Done :=
  ⟨h.state, h.pathVec.array, h.dirVec.array, h.fileVec, h.path, h.dir, h.sysDir⟩

theorem Vars.Empty.blocks_eq (h : v.Empty) : v.blocks = 0 := by
  rw [Vars.blocks, h.state, h.pathVec, h.dirVec, h.fileVec, h.path, h.dir]
  rfl

namespace Memory

theorem owns_empty {m : Mem} (hv : m.vars.Empty) : Owns Vars.Empty B m ↔ Has B m.store := by
  rw [Owns, hv.blocks_eq, zero_add]
  exact and_iff_right hv

/-! ### The end of a walk -/

theorem jfsFwStateDestroy_triple {E : Mem → Prop} :
    Triple (Owns Vars.Done B) jfsFwStateDestroy (fun _ => Owns Vars.Empty B) E := by
  refine owns_triple fun v hv => getVars_triple ?_
  have hblocks : v.blocks + B = v.pathVec.array.blocks pathBlocks + (v.dirVec.array.blocks OwnedDir.blocks +
      (v.state.blocks + (({ v with state := .null, pathVec := .zero, dirVec := .zero } : Vars).blocks + B))) := by
    simp only [Vars.blocks, Owned.blocks, OwnedVec.zero, Pointer.blocks_null, List.map_nil, List.sum_nil]
    abel
  rw [if_pos hv.state.ne_null, hblocks]
  refine Triple.bind (onStore_frees (frees_array frees_pending _ hv.pathVec _)) fun _ => ?_
  refine Triple.bind (onStore_frees (frees_array frees_recorded _ hv.dirVec _)) fun _ => ?_
  refine Triple.bind (onStore_frees (free_triple hv.state.ne_uninit)) fun _ => ?_
  refine setVars_triple.conseq (fun _ => id) (fun _ => ?_) fun _ => id
  exact Owns.of_at ⟨rfl, rfl, rfl, hv.fileVec, hv.path, hv.dir, hv.sysDir⟩

theorem failWith_at {α : Type} {bs : Multiset Block} {e : JfsErr} {Q : α → Mem → Prop} :
    Triple (At v bs) (onStore (onSys (failWith env e)) : OnMem α) Q (At v bs) := by
  rintro m ⟨hv, hs⟩
  exact ⟨hv, hs⟩

theorem jfsFwRecordInit_triple : Triple (Owns Vars.Idle B) (jfsFwRecordInit env)
    (fun record m => record.Ok ∧ Owns Vars.Empty (record.blocks + B) m) (Owns Vars.Idle B) := by
  refine owns_triple fun v hv => getVars_triple (Triple.ite (fun _ => ?_) fun _ => ?_)
  · have hfail : Triple (At v (v.blocks + B)) (onStore (onSys (failWith env .fwState)) : OnMem Unit) (fun _ _ => False)
        (At v (v.blocks + B)) := failWith_at
    exact Triple.bind (hfail.conseq (fun _ => id) (fun _ _ => id) (Owns.of_at hv)) fun _ _ hfalse => hfalse.elim
  · have hblocks : v.blocks + B = v.dirVec.array.blocks OwnedDir.blocks + (({ v with dirVec := .zero } : Vars).blocks + B) := by
      rw [← add_assoc, ← blocks_dirVec v v.dirVec]
    have hdone : ({ v with dirVec := .zero } : Vars).Done :=
      ⟨hv.state, hv.pathVec.array, ok_zero, hv.fileVec, hv.path, hv.dir, hv.sysDir⟩
    rw [hblocks]
    refine Triple.bind ((onStore_triple (checkErr_triple (vectorToArray_triple hv.dirVec))).conseq (fun _ => id) (fun _ _ => id)
      fun m hm => ?_) fun array => Triple.lift fun harray => setVars_triple.bind fun _ => ?_
    · rw [← hblocks] at hm
      exact Owns.of_at hv m hm
    · rw [add_left_comm]
      refine (jfsFwStateDestroy_triple.pre (Owns.of_at hdone)).bind fun _ => Triple.pure fun m hm => ⟨?_, hm⟩
      exact ⟨congrArg List.length harray.2.symm, .inl harray.1, harray.2 ▸ hv.dirVec.items⟩

/-! ### The start of a walk -/

/-- **The two vectors of a new walk**: the walk can be allocated, counting from the call `c`, and one of its vectors
cannot. -/
def Exposed (env : Env) (c : ℕ) : Prop :=
  env.alloc c = true ∧ (env.alloc (c + 1) = false ∨ env.alloc (c + 2) = false)

/-- The blocks in use, before the call with the number `c`. -/
def HasCall (c : ℕ) (bs : Multiset Block) (s : Store) : Prop := Has bs s ∧ s.world.calls = c

section Calls

variable {c : ℕ} {bs : Multiset Block} {α : Type}

theorem jfsMalloc_call (h : env.alloc c = true) : Triple (HasCall c bs) (jfsMalloc env)
    (fun p s => p.IsBlock ∧ HasCall (c + 1) (p.blocks + bs) s) fun _ => False := by
  rintro s ⟨hs, rfl⟩
  have hsys : FileIo.jfsMalloc env s.world = (.ok (), s.world.next env) := by
    rw [FileIo.jfsMalloc, allocate, Fallible.get_bind, Fallible.modify_bind, if_pos h]
    rfl
  have hok : onSys (FileIo.jfsMalloc env) s = (.ok (), { s with world := s.world.next env }) := by
    rw [onSys, Fallible.zoom_apply, hsys]
  rw [jfsMalloc, Fallible.bind_of_ok hok]
  exact ⟨⟨_, rfl⟩, Heap.Holds.malloc hs, rfl⟩

theorem jfsMalloc_call_fails {Q : Pointer → Store → Prop} (h : env.alloc c = false) :
    Triple (HasCall c bs) (jfsMalloc env) Q (Has bs) := by
  rintro s ⟨hs, rfl⟩
  have hsys : FileIo.jfsMalloc env s.world = (.error .sys, (s.world.next env).next env) := by
    rw [FileIo.jfsMalloc, allocate, Fallible.get_bind, Fallible.modify_bind, h]
    rfl
  have herr : onSys (FileIo.jfsMalloc env) s = (.error .sys, { s with world := (s.world.next env).next env }) := by
    rw [onSys, Fallible.zoom_apply, hsys]
  rw [jfsMalloc, Fallible.bind_of_error herr]
  exact hs

theorem checkErr_call {P : Store → Prop} {k : OnStore α} {Q : α → Store → Prop} (h : Triple P k Q fun _ => False) :
    Triple P (checkErr env k) Q fun _ => False :=
  h.attempt (fun _ => Triple.pure fun _ => id) fun _ _ hfalse => hfalse.elim

theorem vectorInit_call (ok : α → Prop) (f : α → Multiset Block) (capacity : ℕ) (h : env.alloc c = true) :
    Triple (HasCall c bs) (vectorInit capacity env)
      (fun vec s => VecOk ok vec ∧ HasCall (c + 1) (vec.array.blocks f + bs) s) fun _ => False := by
  refine (checkErr_call (jfsMalloc_call h)).bind fun ptr => Triple.lift fun hptr => Triple.pure fun s hs => ?_
  exact ⟨⟨hptr, fun _ hx => absurd hx List.not_mem_nil⟩, by simpa [Owned.blocks, HasCall, Has] using hs⟩

/-- The variables, and the blocks in use before the call with the number `c`. -/
def AtCall (c : ℕ) (v : Vars) (bs : Multiset Block) (m : Mem) : Prop := m.vars = v ∧ HasCall c bs m.store

theorem onStore_call {R : α → Prop} {f : α → Multiset Block} {c' : ℕ} {k : OnStore α} {E : Mem → Prop}
    (h : Triple (HasCall c bs) k (fun a s => R a ∧ HasCall c' (f a) s) fun _ => False) :
    Triple (AtCall c v bs) (onStore k) (fun a m => R a ∧ AtCall c' v (f a) m) E :=
  (onStore_frame h).conseq (fun _ => id) (fun _ _ hm => ⟨hm.2.1, hm.1, hm.2.2⟩) fun _ hm => hm.2.elim

theorem setVars_call {g : Vars → Vars} {E : Mem → Prop} :
    Triple (AtCall c v bs) (setVars g) (fun _ => AtCall c (g v) bs) E := by
  rintro m ⟨rfl, hs⟩
  exact ⟨rfl, hs⟩

end Calls

/-- `jfs_fw_state_create` from where the vectors have been allocated. -/
theorem fwStart_triple {start : Owned Path} {pathVec : OwnedVec (Owned Path)} (hv : v.Idle) (hpathVec : v.pathVec = pathVec)
    (hstart : start.ptr.IsBlock) (hle : start.ptr.blocks ≤ B) (hstr : start.val.str ≠ []) :
    Triple (At v (v.blocks + B)) (do
      onStore (touch start.ptr)
      let path ← onStore (jfsFioPathInit env start.val.str)
      setVars fun v => { v with path := path }
      let pathVec ← onStore (fwPathVectorPush env pathVec path)
      setVars fun v => { v with pathVec := pathVec, path := zeroPath })
      (fun _ => Owns Vars.Idle B) (Owns Vars.Creating B) := by
  subst hpathVec
  have hcreating : v.Creating := ⟨hv.state, hv.pathVec.array, hv.dirVec.array, hv.fileVec, hv.ok.path, hv.dir, hv.sysDir⟩
  refine Triple.bind ((onStore_same (touch_triple hstart ?_)).conseq (fun _ => id) (fun _ _ => id) (Owns.of_at hcreating))
    fun _ => ?_
  · exact hle.trans (Multiset.le_add_left _ _)
  refine Triple.bind (onStore_owns hcreating (jfsFioPathInit_triple _)) fun path => Triple.lift fun hinit => ?_
  have hok : PathOk path := ⟨hinit.1, hinit.2 ▸ pathStrLen_ne_zero hstr⟩
  have hpath : pathBlocks path + (v.blocks + B) = v.pathVec.array.blocks pathBlocks +
      (pathBlocks path + (({ v with pathVec := .zero } : Vars).blocks + B)) := by
    have hvec : v.blocks = _ := blocks_pathVec v v.pathVec
    rw [hvec]
    abel
  have hset : pathBlocks path + (v.blocks + B) = ({ v with path := path } : Vars).blocks + B := by
    simp only [Vars.blocks, hv.path, zeroPath, pathBlocks, Pointer.blocks_null]
    abel
  refine setVars_triple.bind fun _ => ?_
  rw [hpath]
  refine Triple.bind ((onStore_triple (vectorPush_triple hv.pathVec hok)).conseq (fun _ => id) (fun _ _ => id) fun m hm => ?_)
    fun pathVec => Triple.lift fun hpathVec => setVars_triple.conseq (fun _ => id) (fun _ m hm => ?_) fun _ => id
  · rw [← hpath, hset] at hm
    exact Owns.of_at ⟨hv.state, hv.pathVec.array, hv.dirVec.array, hv.fileVec, hok.ptr.ne_uninit, hv.dir, hv.sysDir⟩ m hm
  · have hpushed : pathVec.array.blocks pathBlocks + (({ v with pathVec := .zero } : Vars).blocks + B) =
        ({ v with pathVec := pathVec, path := zeroPath } : Vars).blocks + B := by
      rw [← add_assoc, ← blocks_pathVec v pathVec, ← hv.path]
    rw [hpushed] at hm
    exact Owns.of_at ⟨hv.state, hpathVec, hv.dirVec, hv.fileVec, rfl, hv.dir, hv.sysDir⟩ m hm

/-- `jfs_fw_state_create` up to `cleanup`, where its vectors can be allocated if it can. -/
theorem fwCreate_triple {c : ℕ} {start : Owned Path} (hv : v.Empty) (hstart : start.ptr.IsBlock) (hle : start.ptr.blocks ≤ B)
    (hstr : start.val.str ≠ []) (h : ¬ Exposed env c) : Triple (AtCall c v B) (fwCreate env start)
      (fun _ => Owns Vars.Idle B) (fun m => Owns Vars.Empty B m ∨ Owns Vars.Creating B m) := by
  unfold fwCreate
  cases halloc : env.alloc c with
  | false =>
    have hfails : Triple (HasCall c B) (jfsMalloc env) (fun _ _ => False) (Has B) := jfsMalloc_call_fails halloc
    refine Triple.bind ((onStore_frame hfails).conseq (fun _ => id) (fun _ _ => id) fun m hm => .inl ?_) fun _ _ hm => hm.2.elim
    refine Owns.of_at hv m ?_
    rw [hv.blocks_eq, zero_add]
    exact hm
  | true =>
    have hpathAlloc : env.alloc (c + 1) = true := Bool.eq_true_of_not_eq_false fun e => h ⟨halloc, .inl e⟩
    have hdirAlloc : env.alloc (c + 2) = true := Bool.eq_true_of_not_eq_false fun e => h ⟨halloc, .inr e⟩
    refine Triple.bind (onStore_call (jfsMalloc_call halloc)) fun state => Triple.lift fun hstate => setVars_call.bind fun _ => ?_
    refine Triple.bind (onStore_call (vectorInit_call PathOk pathBlocks _ hpathAlloc)) fun pathVec =>
      Triple.lift fun hpathVec => setVars_call.bind fun _ => ?_
    refine Triple.bind (onStore_call (vectorInit_call DirOk OwnedDir.blocks _ hdirAlloc)) fun dirVec =>
      Triple.lift fun hdirVec => setVars_call.bind fun _ => ?_
    have hidle : ({ v with state := state, pathVec := pathVec, dirVec := dirVec } : Vars).Idle :=
      ⟨hstate, hpathVec, hdirVec, hv.fileVec, hv.path, hv.dir, hv.sysDir⟩
    have hblocks : dirVec.array.blocks OwnedDir.blocks + (pathVec.array.blocks pathBlocks + (state.blocks + B)) =
        ({ v with state := state, pathVec := pathVec, dirVec := dirVec } : Vars).blocks + B := by
      simp only [Vars.blocks, hv.fileVec, hv.path, hv.dir, Owned.blocks, OwnedVec.zero, OwnedDir.blocks, OwnedDir.zero, zeroPath,
        pathBlocks, Pointer.blocks_null, List.map_nil, List.sum_nil]
      abel
    rw [hblocks]
    exact (fwStart_triple hidle rfl hstart hle hstr).conseq (fun m hm => ⟨hm.1, hm.2.1⟩) (fun _ _ => id) fun _ => .inr

/-- The label `cleanup` of `jfs_fw_state_create`, where the vectors have been allocated. -/
theorem createCleanup_triple {E : Mem → Prop} :
    Triple (Owns Vars.Creating B) createCleanup (fun _ => Owns Vars.Empty B) E := by
  refine owns_triple fun v hv => getVars_triple ?_
  have hblocks : v.blocks + B = v.dirVec.array.blocks OwnedDir.blocks + (v.pathVec.array.blocks pathBlocks + (v.state.blocks +
      (pathBlocks v.path + (({ v with state := .null, pathVec := .zero, dirVec := .zero, path := zeroPath } : Vars).blocks + B)))) := by
    simp only [Vars.blocks, Owned.blocks, OwnedVec.zero, zeroPath, pathBlocks, Pointer.blocks_null, List.map_nil, List.sum_nil]
    abel
  rw [if_pos hv.state.ne_null, hblocks]
  refine Triple.bind (onStore_frees (frees_array frees_recorded _ hv.dirVec _)) fun _ => ?_
  refine Triple.bind (onStore_frees (frees_array frees_pending _ hv.pathVec _)) fun _ => ?_
  refine Triple.bind (onStore_frees (free_triple hv.state.ne_uninit)) fun _ => ?_
  refine Triple.bind (onStore_frees (frees_path _ hv.path _)) fun _ => ?_
  refine setVars_triple.conseq (fun _ => id) (fun _ => ?_) fun _ => id
  exact Owns.of_at ⟨rfl, rfl, rfl, hv.fileVec, rfl, hv.dir, hv.sysDir⟩

/-- The label `cleanup` of `jfs_fw_state_create`, where nothing has been allocated. -/
theorem createCleanup_empty {E : Mem → Prop} :
    Triple (Owns Vars.Empty B) createCleanup (fun _ => Owns Vars.Empty B) E := by
  refine owns_triple fun v hv => getVars_triple ?_
  rw [if_neg (not_not.mpr hv.state)]
  have hpath : v.path.ptr = .null := congrArg Owned.ptr hv.path
  have hblocks : v.blocks + B = pathBlocks v.path + (v.blocks + B) := by
    rw [pathBlocks, hpath, Pointer.blocks_null, zero_add]
  rw [hblocks]
  have hne : v.path.ptr ≠ .uninit := hv.path ▸ Pointer.null_ne_uninit
  refine Triple.bind (onStore_frees (frees_path _ hne _)) fun _ => ?_
  refine setVars_triple.conseq (fun _ => id) (fun _ m hm => ?_) fun _ => id
  have hsame : ({ v with state := .null, pathVec := .zero, dirVec := .zero, path := zeroPath } : Vars) = v := by
    rw [← hv.state, ← hv.pathVec, ← hv.dirVec, ← hv.path]
  rw [hsame] at hm
  exact Owns.of_at hv m hm

/-- **`jfs_fw_state_create`**, where its vectors can be allocated if it can. -/
theorem jfsFwStateCreate_triple {c : ℕ} {start : Owned Path} (hv : v.Empty) (hstart : start.ptr.IsBlock)
    (hle : start.ptr.blocks ≤ B) (hstr : start.val.str ≠ []) (h : ¬ Exposed env c) :
    Triple (AtCall c v B) (jfsFwStateCreate env start) (fun _ => Owns Vars.Idle B) (Owns Vars.Empty B) := by
  refine (fwCreate_triple hv hstart hle hstr h).attempt (fun _ => Triple.pure fun _ => id) fun e => ?_
  have hcleanup : Triple (fun m => Owns Vars.Empty B m ∨ Owns Vars.Creating B m) createCleanup (fun _ => Owns Vars.Empty B)
      (Owns Vars.Empty B) := by
    intro m hm
    rcases hm with hm | hm
    · exact createCleanup_empty m hm
    · exact createCleanup_triple m hm
  refine hcleanup.bind fun _ => owns_triple fun v hv => ?_
  exact failWith_at.conseq (fun _ => id) (fun _ _ => id) (Owns.of_at hv)

/-! ### The vectors of a new walk -/

/-- What has been spoiled stays so. -/
def Stays (s s' : Store) : Prop := s.heap.misused = true → s'.heap.misused = true

theorem Stays.refl (s : Store) : Stays s s := id

theorem Stays.trans {s t u : Store} (h : Stays s t) (h' : Stays t u) : Stays s u := h' ∘ h

theorem ok_of_triple {α : Type} {σ : Type} {P : σ → Prop} {k : Fallible σ JfsErr α} {Q : α → σ → Prop}
    (h : Triple P k Q fun _ => False) {s : σ} (hs : P s) : ∃ a s', k s = (.ok a, s') ∧ Q a s' := by
  have hk := h s hs
  rcases hr : k s with ⟨r, s'⟩
  rw [hr] at hk
  cases r with
  | ok a => exact ⟨a, s', rfl, hk⟩
  | error e => exact hk.elim

/-- No walk. -/
def noVars : Vars := ⟨.null, .zero, .zero, .zero, zeroPath, .zero, none⟩

theorem noVars_empty : noVars.Empty := ⟨rfl, rfl, rfl, rfl, rfl, rfl, rfl⟩

end Memory

end FileSync.FileWalk
