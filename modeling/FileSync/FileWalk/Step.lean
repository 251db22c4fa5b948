import FileSync.FileWalk.Effect

/-!
# One step of the walk

What `jfs_fw_state_step` does in a directory tree. Allocations may fail and calls may
leave anything in `errno`; an environment in which none of that happens is `Quiet`.
The lemmas hold in any environment: a function gives what it should, or it fails with
`JFS_ERR_SYS` and the environment is not quiet (`Disturbed`).
-/

namespace FileSync.FileWalk

open FileSync.Lib FileSync.FileIo

/-- No allocation fails, and no call changes `errno`. -/
structure Quiet (env : Env) : Prop where
  alloc : ∀ n, env.alloc n = true
  errno : ∀ n e, env.errno n e = e

/-- A quiet environment has left `errno` as it was. -/
def Calm (env : Env) (w w' : World) : Prop := Quiet env → w'.errno = w.errno

/-- The error of a failure that is not due to the directories. -/
def Disturbed (env : Env) (e : JfsErr) : Prop := ¬ Quiet env ∧ e = .sys

/-- The pending paths, the top of the stack last. -/
def Pending (s : Walk) (xs : List (CString × Listing)) : Prop :=
  s.state.pathVec.items = xs.reverse.map fun d => pathOf d.1

/-- The directory can be opened, whenever it is. -/
def Opens (env : Env) (d : CString × Listing) : Prop :=
  ∀ n, env.opendir n d.1 = .ok { entries := d.2.dirents, failure := none }

/-- The directory cannot be opened, whenever one tries. -/
def Denies (env : Env) (d : CString × Listing) : Prop := ∀ n, env.opendir n d.1 = .error EACCES

variable {env : Env} {w : World} {α : Type}

/-! ### Quiet environments -/

theorem calm_after (env : Env) (n : ℕ) (w : World) : Calm env w (after env n w) := by
  intro hq
  induction n generalizing w with
  | zero => rfl
  | succ n ih => exact (ih (w.next env)).trans (hq.errno _ _)

theorem Quiet.scanErrno {dir : Dir} (hq : Quiet env) (hfailure : dir.failure = none) (vec : Vec FwFile) (n : ℕ) :
    scanErrno env dir vec n = 0 := by
  rw [FileWalk.scanErrno, hfailure]
  exact calm_after env _ _ hq

/-- An environment in which a plan is not served is not quiet. -/
theorem Does.yields {m : Sys α} {plan : List Call} {a : α} (h : Does env m plan a) (w : World) :
    Yields (Disturbed env) m w fun a' _ => a' = a := by
  by_cases hs : Served env w.calls plan
  · exact .inl ⟨a, _, (h w).1 hs, rfl⟩
  · obtain ⟨w', e⟩ := (h w).2 hs
    exact .inr ⟨.sys, w', e, fun hq => hs (served_of_alloc hq.alloc _ _), rfl⟩

/-! ### What is pending -/

/-- `fw_push_dir_paths` pushes the subdirectories whose path is not too long. -/
theorem pushes_files (path : CString) (L : Listing) :
    pushes (pathOf path) L.files = (L.kids path).map fun d => pathOf d.1 := by
  induction L with
  | nil => rfl
  | entry ent hent rest ih =>
    cases hfile : fileOf ent with
    | none =>
      rw [Listing.files, Listing.dirents, List.filterMap_cons_none hfile]
      exact ih
    | some file =>
      have hreg : file.type = .reg := type_of_entry hent hfile
      rw [Listing.files, Listing.dirents, List.filterMap_cons_some hfile, pushes, if_pos (.inl hreg)]
      exact ih
  | subdir ent hsub content rest _ ih =>
    rw [Listing.files, Listing.dirents, List.filterMap_cons_some (fileOf_subdir hsub), pushes, Listing.kids]
    by_cases hlong : PATH_MAX < (childPath path ent.name).length
    · rw [if_pos (.inr (by rw [pathOf_len]; exact hlong)), if_pos hlong]
      exact ih
    · have hskip : ¬ (FwType.dir = .reg ∨ PATH_MAX < (pathOf path).len + ent.name.length + 1) := by
        rw [pathOf_len]
        exact not_or.mpr ⟨by decide, hlong⟩
      rw [if_neg hskip, if_neg hlong, List.map_append, List.map_singleton, List.singleton_append]
      exact congrArg₂ List.cons (childOf_eq hsub.nonempty hsub.noSlash (Nat.not_lt.mp hlong)) ih

variable {s : Walk} {d : CString × Listing} {xs : List (CString × Listing)}

theorem pending_items (h : Pending s (d :: xs)) :
    s.state.pathVec.items = (xs.reverse.map fun d => pathOf d.1) ++ [pathOf d.1] := by
  rw [h, List.reverse_cons, List.map_append]
  rfl

theorem pending_ne_nil (h : Pending s (d :: xs)) : s.state.pathVec.items ≠ [] := by
  rw [pending_items h]
  simp

theorem pending_popped (h : Pending s (d :: xs)) (w : World) : Pending ⟨w, popped s.state⟩ xs := by
  rw [Pending, popped, pending_items h, List.dropLast_concat]

/-! ### A step -/

/-- A directory that has been read is recorded, and its subdirectories are pushed. -/
theorem step_of_reads (h : Pending s (d :: xs))
    (hread : Reads env s.world (pathOf d.1) { entries := d.2.dirents, failure := none })
    (hs : Served env s.world.calls (stepPlan (pathOf d.1) { entries := d.2.dirents, failure := none }
      (popped s.state).pathVec s.state.dirVec)) :
    ∃ s', fwStep env s = (.ok (), s') ∧ Pending s' ((d.2.kids d.1).reverse ++ xs) ∧
      s'.state.dirVec.items = s.state.dirVec.items ++ [dirOf d] := by
  obtain ⟨w', e⟩ := fwStep_complete (pending_items h) hread hs
  refine ⟨_, e, ?_, rfl⟩
  have hfiles : dirFiles { entries := d.2.dirents, failure := none } = d.2.files := rfl
  have hpopped : (popped s.state).pathVec.items = xs.reverse.map fun d => pathOf d.1 := pending_popped h w'
  rw [Pending, items_foldl_pushed, hfiles, pushes_files, hpopped, List.reverse_append, List.reverse_reverse,
    List.map_append]

/-- **A step into a directory that can be read** records it, and pushes its subdirectories. -/
theorem yields_step (hopen : Opens env d) (hscan : d.2.AllScan) (hd : d.1 ≠ []) (h : Pending s (d :: xs)) :
    Yields (Disturbed env) (fwStep env) s fun _ s' => Pending s' ((d.2.kids d.1).reverse ++ xs) ∧
      s'.state.dirVec.items = s.state.dirVec.items ++ [dirOf d] := by
  generalize hdir : ({ entries := d.2.dirents, failure := none } : Dir) = dir
  have hopen' : env.opendir (s.world.calls + 1) (pathOf d.1).str = .ok dir := by
    rw [← hdir]
    exact hopen _
  by_cases hread : Reads env s.world (pathOf d.1) dir
  · by_cases hs : Served env s.world.calls (stepPlan (pathOf d.1) dir (popped s.state).pathVec s.state.dirVec)
    · rw [← hdir] at hread hs
      obtain ⟨s', e, hstep⟩ := step_of_reads h hread hs
      exact .inl ⟨(), s', e, hstep⟩
    · obtain ⟨A, w', -, -, e⟩ := fwStep_interrupted (pending_items h) hread hs
      exact .inr ⟨.sys, _, e, fun hq => hs (served_of_alloc hq.alloc _ _), rfl⟩
  · have hnone : ¬ ∃ dir, Reads env s.world (pathOf d.1) dir := by
      rintro ⟨dir', hread'⟩
      obtain rfl : dir = dir' := Except.ok.inj (hopen'.symm.trans hread'.opened)
      exact hread hread'
    obtain ⟨x, w', st', e, ⟨-, ha, rfl⟩ | ⟨-, hx⟩⟩ := fwStep_unread (pending_items h) hnone
    · exact .inr ⟨.sys, _, e, fun hq => Bool.false_ne_true (ha.symm.trans (hq.alloc _)), rfl⟩
    · refine .inr ⟨x, _, e, ?_⟩
      cases hx with
      | opendir hx => cases hopen'.symm.trans hx
      | entry hx hentry _ =>
        obtain rfl : dir = _ := Except.ok.inj (hopen'.symm.trans hx)
        rw [← hdir] at hentry
        exact absurd hscan hentry
      | library hx hlib =>
        obtain rfl : dir = _ := Except.ok.inj (hopen'.symm.trans hx)
        refine ⟨fun hq => hlib ⟨served_of_alloc hq.alloc _ _, hq.scanErrno ?_ _ _⟩, rfl⟩
        rw [← hdir]
      | path _ _ h₀ => exact absurd (List.length_eq_zero_iff.mp h₀) hd

/-- A step into a directory that is denied: the path is gone, and nothing is recorded. -/
theorem step_denied (hdeny : Denies env d) (h : Pending s (d :: xs)) :
    (∃ s', fwStep env s = (.error .access, s') ∧ Pending s' xs ∧ s'.state.dirVec = s.state.dirVec) ∨
      ∃ e s', fwStep env s = (.error e, s') ∧ Disturbed env e := by
  have hclosed : ∀ dir, env.opendir (s.world.calls + 1) (pathOf d.1).str ≠ .ok dir := by
    intro dir hopen
    cases hopen.symm.trans (hdeny _)
  obtain ⟨x, w', st', e, ⟨-, ha, rfl⟩ | ⟨rfl, hx⟩⟩ := fwStep_unread (pending_items h) fun ⟨dir, hread⟩ =>
    hclosed dir hread.opened
  · exact .inr ⟨.sys, _, e, fun hq => Bool.false_ne_true (ha.symm.trans (hq.alloc _)), rfl⟩
  · refine .inl ⟨_, ?_, pending_popped h w', rfl⟩
    cases hx with
    | opendir hx =>
      obtain rfl : _ = EACCES := Except.error.inj (hx.symm.trans (hdeny _))
      exact e
    | entry hx => exact absurd hx (hclosed _)
    | library hx => exact absurd hx (hclosed _)
    | path hx => exact absurd hx (hclosed _)

/-- A step into a directory with an entry that cannot be scanned. -/
theorem step_stops (hopen : Opens env d) (hscan : ¬ d.2.AllScan) (h : Pending s (d :: xs)) :
    ∃ e s', fwStep env s = (.error e, s') ∧ (e = .fwUnknown ∨ e = .fioNameLen ∨ e = .sys) := by
  have hdir : ∀ dir, env.opendir (s.world.calls + 1) (pathOf d.1).str = .ok dir →
      ¬ ∀ ent ∈ dir.entries, Scans ent := by
    intro dir hx
    rw [← Except.ok.inj ((hopen _).symm.trans hx)]
    exact hscan
  obtain ⟨x, w', st', e, ⟨-, -, rfl⟩ | ⟨-, hx⟩⟩ := fwStep_unread (pending_items h) fun ⟨dir, hread⟩ =>
    hdir dir hread.opened hread.scans
  · exact ⟨.sys, _, e, .inr (.inr rfl)⟩
  · refine ⟨x, _, e, ?_⟩
    cases hx with
    | opendir hx => cases hx.symm.trans (hopen _)
    | entry _ _ hcases => exact hcases
    | library => exact .inr (.inr rfl)
    | path hx hall => exact absurd hall (hdir _ hx)

end FileSync.FileWalk
