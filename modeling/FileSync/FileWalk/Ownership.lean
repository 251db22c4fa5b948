import FileSync.FileWalk.Memory
import FileSync.Lib.Triple
import Mathlib.Algebra.Order.Group.Multiset
import Mathlib.Tactic.Abel

/-!
# Who owns what in a walk

The blocks that the paths, names, files, directories and vectors own, and what each function on them gives and
takes, whatever fails. `Has bs` says that the blocks in use are `bs`.
-/

namespace FileSync.FileWalk

open FileSync.Lib FileSync.FileIo

/-! ### The blocks of the data -/

section Arrays

variable {α : Type}

/-- The blocks of an array and of its entries. -/
def Owned.blocks (f : α → Multiset Block) (array : Owned (List α)) : Multiset Block :=
  array.ptr.blocks + (array.val.map f).sum

/-- An array is `NULL` and has no entries, or it is a block. -/
structure Owned.Ok (ok : α → Prop) (array : Owned (List α)) : Prop where
  ptr : array.ptr.IsBlock ∨ (array.ptr = .null ∧ array.val = [])
  items : ∀ x ∈ array.val, ok x

end Arrays

/-- The block of a path. -/
def pathBlocks (path : Owned Path) : Multiset Block := path.ptr.blocks

/-- A path that is pending. -/
structure PathOk (path : Owned Path) : Prop where
  ptr : path.ptr.IsBlock
  len : path.val.len ≠ 0

/-- The block of a file. -/
def OwnedFile.blocks (file : OwnedFile) : Multiset Block := file.name.ptr.blocks

def OwnedFile.Ok (file : OwnedFile) : Prop := file.name.ptr.IsBlock

/-- The blocks of a directory. -/
def OwnedDir.blocks (dir : OwnedDir) : Multiset Block := pathBlocks dir.path + dir.files.blocks OwnedFile.blocks

structure OwnedDir.Ok (dir : OwnedDir) : Prop where
  path : dir.path.ptr ≠ .uninit
  count : dir.fileCount = dir.files.val.length
  files : dir.files.Ok OwnedFile.Ok

/-- A directory that has been recorded. -/
structure DirOk (dir : OwnedDir) : Prop extends dir.Ok where
  ptr : dir.path.ptr.IsBlock

/-- The blocks of a record. -/
def OwnedRecord.blocks (record : OwnedRecord) : Multiset Block := record.dirArray.blocks OwnedDir.blocks

structure OwnedRecord.Ok (record : OwnedRecord) : Prop where
  count : record.dirCount = record.dirArray.val.length
  dirs : record.dirArray.Ok DirOk

/-- The blocks of all variables. -/
def Vars.blocks (v : Vars) : Multiset Block :=
  v.state.blocks + v.pathVec.array.blocks pathBlocks + v.dirVec.array.blocks OwnedDir.blocks +
    v.fileVec.array.blocks OwnedFile.blocks + pathBlocks v.path + v.dir.blocks

/-! ### Blocks -/

namespace Memory

/-- The blocks in use. -/
def Has (bs : Multiset Block) (s : Store) : Prop := s.heap.Holds bs

variable {env : Env} {bs : Multiset Block} {p : Pointer}

theorem onSys_triple {α : Type} (m : Sys α) : Triple (Has bs) (onSys m) (fun _ => Has bs) (Has bs) :=
  Triple.zoom fun _ _ h => h

theorem failWith_triple {α : Type} {Q : α → Store → Prop} (e : JfsErr) :
    Triple (Has bs) (onSys (failWith env e) : OnStore α) Q (Has bs) := by
  intro s hs
  exact hs

/-- `VOID_FAIL_IF`. -/
theorem failIf_triple {α : Type} {c : Prop} [Decidable c] {k : PUnit → OnStore α} {Q : α → Store → Prop} {e : JfsErr}
    (h : ¬ c → Triple (Has bs) (k ⟨⟩) Q (Has bs)) :
    Triple (Has bs) (if c then onSys (failWith env e) >>= k else k ⟨⟩) Q (Has bs) := by
  refine Triple.ite (fun _ => ?_) h
  exact (failWith_triple (Q := fun _ _ => False) e).bind fun _ _ hfalse => hfalse.elim

theorem checkErr_triple {α : Type} {P : Store → Prop} {m : OnStore α} {Q : α → Store → Prop}
    (h : Triple P m Q (Has bs)) : Triple P (checkErr env m) Q (Has bs) := by
  refine h.attempt (fun a => ?_) fun e => ?_
  · exact Triple.pure fun _ => id
  · exact failWith_triple e

theorem newBlock_triple {E : Store → Prop} :
    Triple (Has bs) newBlock (fun p s => p.IsBlock ∧ Has (p.blocks + bs) s) E := by
  intro s hs
  exact ⟨⟨_, rfl⟩, hs.malloc⟩

theorem free_triple {E : Store → Prop} (hp : p ≠ .uninit) : Triple (Has (p.blocks + bs)) (free p) (fun _ => Has bs) E := by
  intro s hs
  exact hs.free hp

theorem touch_triple {E : Store → Prop} (hp : p.IsBlock) (hle : p.blocks ≤ bs) :
    Triple (Has bs) (touch p) (fun _ => Has bs) E := by
  obtain ⟨rest, rfl⟩ := Multiset.le_iff_exists_add.mp hle
  intro s hs
  have htouch : s.heap.touch p = s.heap := Heap.Holds.touch hs hp
  show Heap.Holds (s.heap.touch p) _
  rw [htouch]
  exact hs

theorem jfsMalloc_triple : Triple (Has bs) (jfsMalloc env) (fun p s => p.IsBlock ∧ Has (p.blocks + bs) s) (Has bs) :=
  (onSys_triple _).bind fun _ => newBlock_triple

theorem jfsRealloc_triple (hp : p ≠ .uninit) : Triple (Has (p.blocks + bs)) (jfsRealloc env p)
    (fun q s => q.IsBlock ∧ Has (q.blocks + bs) s) (Has (p.blocks + bs)) :=
  (onSys_triple _).bind fun _ => (free_triple hp).bind fun _ => newBlock_triple

/-! ### Paths, names, files and directories -/

theorem jfsFioPathInit_triple (pathStr : CString) : Triple (Has bs) (jfsFioPathInit env pathStr)
    (fun path s => (path.ptr.IsBlock ∧ path.val.len = pathStrLen pathStr) ∧ Has (pathBlocks path + bs) s) (Has bs) := by
  unfold jfsFioPathInit
  dsimp only
  refine failIf_triple fun _ => ?_
  refine (checkErr_triple jfsMalloc_triple).bind fun ptr => Triple.lift fun hptr => Triple.pure fun s hs => ?_
  exact ⟨⟨hptr, rfl⟩, hs⟩

theorem jfsFioNameInit_triple (nameStr : CString) : Triple (Has bs) (jfsFioNameInit env nameStr)
    (fun name s => name.ptr.IsBlock ∧ Has (name.ptr.blocks + bs) s) (Has bs) := by
  unfold jfsFioNameInit
  dsimp only
  refine failIf_triple fun _ => ?_
  exact (checkErr_triple jfsMalloc_triple).bind fun ptr => Triple.pure fun s hs => hs

/-- A computation that takes the blocks of its argument and does not fail. -/
def Frees {α : Type} (ok : α → Prop) (f : α → Multiset Block) (freeItem : α → OnStore Unit) : Prop :=
  ∀ x, ok x → ∀ bs, Triple (Has (f x + bs)) (freeItem x) (fun _ => Has bs) fun _ => False

theorem frees_path : Frees (fun path : Owned Path => path.ptr ≠ .uninit) pathBlocks jfsFioPathFree :=
  fun _ h _ => free_triple h

theorem frees_pending : Frees PathOk pathBlocks jfsFioPathFree := fun path h => frees_path path h.ptr.ne_uninit

theorem frees_file : Frees OwnedFile.Ok OwnedFile.blocks jfsFwFileFree := fun _ h _ => free_triple h.ne_uninit

section Arrays

variable {α : Type} {ok : α → Prop} {f : α → Multiset Block} {freeItem : α → OnStore Unit} {array : Owned (List α)}

theorem freeEach_triple (hfree : Frees ok f freeItem) (hp : p.IsBlock) {items : List α} (hitems : ∀ x ∈ items, ok x) :
    Triple (Has ((items.map f).sum + (p.blocks + bs))) (freeEach freeItem p items) (fun _ => Has (p.blocks + bs))
      fun _ => False := by
  induction items with
  | nil => exact Triple.pure fun s hs => by simpa [Has] using hs
  | cons x items ih =>
    rw [List.map_cons, List.sum_cons, add_assoc]
    refine (touch_triple hp ?_).bind fun _ => ?_
    · rw [← add_assoc, add_left_comm]
      exact Multiset.le_add_right _ _
    · refine (hfree x (hitems x (List.mem_cons_self ..)) _).bind fun _ => ?_
      exact ih fun y hy => hitems y (List.mem_cons_of_mem _ hy)

theorem frees_array (hfree : Frees ok f freeItem) : Frees (Owned.Ok ok) (Owned.blocks f) (freeArray freeItem) := by
  intro array h bs
  unfold freeArray Owned.blocks
  rcases h.ptr with hp | ⟨hnull, hnil⟩
  · rw [if_pos hp.ne_null, add_comm array.ptr.blocks, add_assoc]
    exact (freeEach_triple hfree hp h.items).bind fun _ => free_triple hp.ne_uninit
  · rw [if_neg (not_not.mpr hnull), hnull, hnil]
    exact Triple.pure fun s hs => by simpa [Has] using hs

end Arrays

theorem frees_dir : Frees OwnedDir.Ok OwnedDir.blocks jfsFwDirFree := by
  intro dir h bs
  unfold jfsFwDirFree OwnedDir.blocks
  rw [h.count, List.take_length, add_comm (pathBlocks dir.path), add_assoc]
  exact (frees_array frees_file dir.files h.files _).bind fun _ => free_triple h.path

theorem frees_recorded : Frees DirOk OwnedDir.blocks jfsFwDirFree := fun dir h => frees_dir dir h.toOk

theorem frees_record : Frees OwnedRecord.Ok OwnedRecord.blocks jfsFwRecordFree := by
  intro record h bs
  unfold jfsFwRecordFree OwnedRecord.blocks
  rw [h.count, List.take_length]
  exact frees_array frees_recorded record.dirArray h.dirs bs

/-! ### Vectors -/

section Vectors

variable {α : Type} {ok : α → Prop} {f : α → Multiset Block} {vec : OwnedVec α} {item : α}

/-- A vector that has been initialised. -/
structure VecOk (ok : α → Prop) (vec : OwnedVec α) : Prop where
  ptr : vec.array.ptr.IsBlock
  items : ∀ x ∈ vec.array.val, ok x

theorem VecOk.array (h : VecOk ok vec) : vec.array.Ok ok := ⟨.inl h.ptr, h.items⟩

theorem ok_null : Owned.Ok ok ⟨.null, []⟩ := ⟨.inr ⟨rfl, rfl⟩, fun _ hx => absurd hx List.not_mem_nil⟩

theorem ok_zero : (OwnedVec.zero : OwnedVec α).array.Ok ok := ok_null

theorem vectorInit_triple (ok : α → Prop) (f : α → Multiset Block) (capacity : ℕ) : Triple (Has bs) (vectorInit capacity env)
    (fun vec s => (VecOk ok vec ∧ vec.array.val = []) ∧ Has (vec.array.blocks f + bs) s) (Has bs) := by
  refine (checkErr_triple jfsMalloc_triple).bind fun ptr => Triple.lift fun hptr => Triple.pure fun s hs => ?_
  exact ⟨⟨⟨hptr, fun _ hx => absurd hx List.not_mem_nil⟩, rfl⟩, by simpa [Owned.blocks, Has] using hs⟩

theorem vectorPush_triple (h : VecOk ok vec) (hitem : ok item) :
    Triple (Has (vec.array.blocks f + (f item + bs))) (vectorPush env vec item)
      (fun vec s => VecOk ok vec ∧ Has (vec.array.blocks f + bs) s) (Has (vec.array.blocks f + (f item + bs))) := by
  have hitems : ∀ x ∈ vec.array.val ++ [item], ok x := by
    intro x hx
    rcases List.mem_append.mp hx with hx | hx
    · exact h.items x hx
    · rw [List.mem_singleton.mp hx]
      exact hitem
  have hsum : ∀ ptr : Pointer, ptr.blocks + ((vec.array.val.map f).sum + (f item + bs)) =
      Owned.blocks f ⟨ptr, vec.array.val ++ [item]⟩ + bs := by
    intro ptr
    simp only [Owned.blocks, List.map_append, List.map_cons, List.map_nil, List.sum_append, List.sum_cons, List.sum_nil]
    abel
  unfold vectorPush
  refine Triple.ite (fun _ => ?_) fun _ => ?_
  · rw [Owned.blocks, add_assoc]
    refine (checkErr_triple (jfsRealloc_triple h.ptr.ne_uninit)).bind fun ptr => Triple.lift fun hptr =>
      Triple.pure fun s hs => ?_
    exact ⟨⟨hptr, hitems⟩, hsum ptr ▸ hs⟩
  · refine (touch_triple h.ptr ?_).bind fun _ => Triple.pure fun s hs => ?_
    · rw [Owned.blocks, add_assoc]
      exact Multiset.le_add_right _ _
    · rw [Owned.blocks, add_assoc, hsum] at hs
      exact ⟨⟨h.ptr, hitems⟩, hs⟩

theorem vectorToArray_triple (h : VecOk ok vec) : Triple (Has (vec.array.blocks f + bs)) (vectorToArray env vec)
    (fun array s => (array.ptr.IsBlock ∧ array.val = vec.array.val) ∧ Has (array.blocks f + bs) s)
    (Has (vec.array.blocks f + bs)) := by
  unfold vectorToArray
  dsimp only
  refine failIf_triple fun _ => ?_
  rw [Owned.blocks, add_assoc]
  refine (checkErr_triple (jfsRealloc_triple h.ptr.ne_uninit)).bind fun ptr => Triple.lift fun hptr =>
    Triple.pure fun s hs => ?_
  refine ⟨⟨hptr, rfl⟩, ?_⟩
  rw [← add_assoc] at hs
  exact hs

end Vectors

theorem fwPathVectorPop_triple {vec : OwnedVec (Owned Path)} (h : VecOk PathOk vec) :
    Triple (Has (vec.array.blocks pathBlocks + bs)) (fwPathVectorPop env vec)
      (fun r s => (VecOk PathOk r.1 ∧ PathOk r.2) ∧ Has (r.1.array.blocks pathBlocks + (pathBlocks r.2 + bs)) s)
      (Has (vec.array.blocks pathBlocks + bs)) := by
  unfold fwPathVectorPop
  cases hlast : vec.array.val.getLast? with
  | none => exact failWith_triple _
  | some path =>
    have hsplit : vec.array.val.dropLast ++ [path] = vec.array.val := List.dropLast_append_getLast? path hlast
    have hmem : ∀ x ∈ vec.array.val.dropLast ++ [path], PathOk x := by
      intro x hx
      rw [hsplit] at hx
      exact h.items x hx
    have hsum : (vec.array.val.map pathBlocks).sum = (vec.array.val.dropLast.map pathBlocks).sum + pathBlocks path := by
      conv_lhs => rw [← hsplit, List.map_append, List.sum_append]
      simp
    refine (touch_triple h.ptr ?_).bind fun _ => Triple.pure fun s hs => ?_
    · rw [Owned.blocks, add_assoc]
      exact Multiset.le_add_right _ _
    · refine ⟨⟨⟨h.ptr, fun x hx => hmem x (List.mem_append_left _ hx)⟩, hmem path (by simp)⟩, ?_⟩
      have hblocks : vec.array.blocks pathBlocks + bs =
          Owned.blocks pathBlocks ⟨vec.array.ptr, vec.array.val.dropLast⟩ + (pathBlocks path + bs) := by
        rw [Owned.blocks, Owned.blocks, hsum]
        abel
      rwa [hblocks] at hs

/-! ### Reading a directory -/

theorem fwFileInit_triple (ent : Dirent) :
    Triple (Has bs) (fwFileInit env ent) (fun file s => file.Ok ∧ Has (file.blocks + bs) s) (Has bs) :=
  (checkErr_triple (onSys_triple _)).bind fun _ => (checkErr_triple (jfsFioNameInit_triple _)).bind fun _ =>
    Triple.pure fun _ hs => hs

theorem fwHandleDirent_triple (ent : Dirent) {vec : OwnedVec OwnedFile} (h : VecOk OwnedFile.Ok vec) :
    Triple (Has (vec.array.blocks OwnedFile.blocks + bs)) (fwHandleDirent env ent vec)
      (fun vec s => VecOk OwnedFile.Ok vec ∧ Has (vec.array.blocks OwnedFile.blocks + bs) s)
      (Has (vec.array.blocks OwnedFile.blocks + bs)) := by
  refine (checkErr_triple (fwFileInit_triple ent)).bind fun file => Triple.lift fun hfile => ?_
  rw [add_left_comm]
  refine (vectorPush_triple h hfile).attempt (fun vec => Triple.pure fun _ hs => hs) fun e => ?_
  -- the vector has not taken it
  rw [add_left_comm]
  refine Triple.bind ?_ fun _ => failWith_triple e
  exact (frees_file file hfile _).conseq (fun _ => id) (fun _ _ => id) fun _ => False.elim

/-! ### The variables -/

/-- The variables are `v`, and the blocks in use `bs`. -/
def At (v : Vars) (bs : Multiset Block) (m : Mem) : Prop := m.vars = v ∧ Has bs m.store

variable {v : Vars}

/-- The variables stay as they are. -/
theorem onStore_frame {α : Type} {P : Store → Prop} {Q : α → Store → Prop} {E : Store → Prop} {c : OnStore α}
    (h : Triple P c Q E) : Triple (fun m => m.vars = v ∧ P m.store) (onStore c) (fun a m => m.vars = v ∧ Q a m.store)
      (fun m => m.vars = v ∧ E m.store) := by
  rintro m ⟨hv, hs⟩
  have hs' := h m.store hs
  rw [onStore, Fallible.zoom_apply]
  rcases hr : c m.store with ⟨r, s'⟩
  rw [hr] at hs'
  cases r with
  | ok a => exact ⟨hv, hs'⟩
  | error e => exact ⟨hv, hs'⟩

theorem onStore_triple {α : Type} {R : α → Prop} {f : α → Multiset Block} {bs' : Multiset Block} {c : OnStore α}
    (h : Triple (Has bs) c (fun a s => R a ∧ Has (f a) s) (Has bs')) :
    Triple (At v bs) (onStore c) (fun a m => R a ∧ At v (f a) m) (At v bs') :=
  (onStore_frame h).conseq (fun _ => id) (fun _ _ hm => ⟨hm.2.1, hm.1, hm.2.2⟩) fun _ => id

/-- A computation that gives no block, and takes none. -/
theorem onStore_same {α : Type} {c : OnStore α} (h : Triple (Has bs) c (fun _ => Has bs) (Has bs)) :
    Triple (At v bs) (onStore c) (fun _ => At v bs) (At v bs) := onStore_frame h

/-- A computation that only takes blocks. -/
theorem onStore_frees {bs' : Multiset Block} {c : OnStore Unit} {E : Mem → Prop}
    (h : Triple (Has bs) c (fun _ => Has bs') fun _ => False) :
    Triple (At v bs) (onStore c) (fun _ => At v bs') E :=
  (onStore_frame h).conseq (fun _ => id) (fun _ _ => id) fun _ hm => hm.2.elim

theorem onStore_attempt {α : Type} (c : OnStore α) : onStore c.attempt = (onStore c).attempt := rfl

theorem setVars_triple {f : Vars → Vars} {E : Mem → Prop} : Triple (At v bs) (setVars f) (fun _ => At (f v) bs) E := by
  rintro m ⟨rfl, hs⟩
  exact ⟨rfl, hs⟩

theorem getVars_triple {α : Type} {f : Vars → OnMem α} {R : α → Mem → Prop} {E : Mem → Prop}
    (h : Triple (At v bs) (f v) R E) : Triple (At v bs) (getVars >>= f) R E := by
  rintro m ⟨rfl, hs⟩
  exact h m ⟨rfl, hs⟩

end Memory

end FileSync.FileWalk
