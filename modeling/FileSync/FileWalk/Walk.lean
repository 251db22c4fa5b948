import FileSync.FileWalk.Step

/-!
# Whole walks

The loop of `file_walk_test` in a directory tree, some directories of which are
denied. As long as the directories that it visits can be read it goes on
(`walk_goes`), so what happens depends on the first one that cannot. On an error
`jfs_fw_state_step` returns the opposite of what it should: if a directory is denied
while others are pending the loop ends, and if it was the last one the loop goes on
for ever, since a step with nothing pending returns 1.
-/

namespace FileSync.FileWalk

open FileSync.Lib FileSync.FileIo Listing

variable {env : Env} {denied : CString → Bool} {s : Walk} {d : CString × Listing} {xs : List (CString × Listing)}

/-! ### One turn -/

theorem pending_count (h : Pending s xs) : s.state.pathVec.count = xs.length := by
  rw [Vec.count, h, List.length_map, List.length_reverse]

/-- Nothing is pending: the loop goes on. -/
theorem turn_empty (h : Pending s []) : walkTurn env s = .again s := by
  simp [walkTurn, stateStep_nil h]

/-- An error that is neither about access nor about a path that is not there ends the
loop. -/
theorem turn_error {s' : Walk} {e : JfsErr} (h : Pending s (d :: xs)) (he : fwStep env s = (.error e, s'))
    (hcases : e = .fwUnknown ∨ e = .fioNameLen ∨ e = .sys) : ∃ r, walkTurn env s = .leave r := by
  have hremap : remapErr e ≠ .fwSkip ∧ remapErr e ≠ .ok := by
    rcases hcases with rfl | rfl | rfl
    · decide
    · decide
    · decide
  simp only [walkTurn, stateStep_error (pending_ne_nil h) he, if_neg hremap.1, if_pos hremap.2]
  split_ifs
  · exact ⟨_, rfl⟩
  · exact ⟨_, rfl⟩

/-- A step that goes through ends the loop if nothing is pending then. -/
theorem turn_ok {s' : Walk} {ys : List (CString × Listing)} (h : Pending s (d :: xs)) (e : fwStep env s = (.ok (), s'))
    (hpend : Pending s' ys) :
    walkTurn env s = if ys = [] then .leave { walk := s', err := .ok, cleanup := false } else .again s' := by
  have hcount := pending_count hpend
  simp only [walkTurn, stateStep_ok (pending_ne_nil h) e]
  by_cases hnil : ys = []
  · rw [hnil] at hcount
    simp [hnil, hcount]
  · have hpos : 0 < s'.state.pathVec.count := by
      rw [hcount]
      exact List.length_pos_iff.mpr hnil
    simp [hnil, hpos]

/-- A turn into a directory that can be read. -/
theorem turn_open (hopen : Opens env d) (hscan : d.2.AllScan) (hd : d.1 ≠ []) (h : Pending s (d :: xs)) :
    (∃ s', Pending s' ((d.2.kids d.1).reverse ++ xs) ∧
        s'.state.dirVec.items = s.state.dirVec.items ++ [dirOf d] ∧
          walkTurn env s = if (d.2.kids d.1).reverse ++ xs = [] then
            .leave { walk := s', err := .ok, cleanup := false } else .again s') ∨
      ¬ Quiet env ∧ ∃ r, walkTurn env s = .leave r := by
  rcases yields_step hopen hscan hd h with ⟨_, s', e, hpend, hdirs⟩ | ⟨x, s', e, hx⟩
  · exact .inl ⟨s', hpend, hdirs, turn_ok h e hpend⟩
  · exact .inr ⟨hx.1, turn_error h e (.inr (.inr hx.2))⟩

/-- A turn into a directory that is denied. -/
theorem turn_denied (hdeny : Denies env d) (h : Pending s (d :: xs)) :
    (∃ s', Pending s' xs ∧ s'.state.dirVec = s.state.dirVec ∧
        walkTurn env s = if xs = [] then .again s' else .leave { walk := s', err := .fwSkip, cleanup := false }) ∨
      ¬ Quiet env ∧ ∃ r, walkTurn env s = .leave r := by
  rcases step_denied hdeny h with ⟨s', e, hpend, hdirs⟩ | ⟨x, s', e, hx⟩
  · have hcount := pending_count hpend
    by_cases hnil : xs = []
    · refine .inl ⟨{ s' with world := s'.world.next env }, hpend, hdirs, ?_⟩
      rw [hnil] at hcount
      simp [walkTurn, stateStep_error (pending_ne_nil h) e, hnil, hcount, remapErr]
    · refine .inl ⟨s', hpend, hdirs, ?_⟩
      have hlen := List.length_pos_iff.mpr hnil
      simp [walkTurn, stateStep_error (pending_ne_nil h) e, hnil, hcount, remapErr]
  · exact .inr ⟨hx.1, turn_error h e (.inr (.inr hx.2))⟩

/-- A turn into a directory with an entry that cannot be scanned. -/
theorem turn_stops (hopen : Opens env d) (hscan : ¬ d.2.AllScan) (h : Pending s (d :: xs)) :
    ∃ r, walkTurn env s = .leave r := by
  obtain ⟨e, s', he, hcases⟩ := step_stops hopen hscan h
  exact turn_error h he hcases

/-! ### Through a tree -/

/-- The environment hosts the tree: the directories that are denied cannot be opened, and
the others have these entries. -/
def Hosts (env : Env) (denied : CString → Bool) (d : CString × Listing) : Prop :=
  ∀ x ∈ d.2.all d.1, (denied x.1 = true → Denies env x) ∧ (denied x.1 = false → Opens env x)

/-- What is pending is part of a tree that the environment hosts. -/
def Ready (env : Env) (denied : CString → Bool) (xs : List (CString × Listing)) : Prop :=
  ∀ d ∈ xs, d.1 ≠ [] ∧ Hosts env denied d

theorem Ready.kids (h : Ready env denied (d :: xs)) : Ready env denied ((d.2.kids d.1).reverse ++ xs) := by
  intro k hk
  rw [List.mem_append, List.mem_reverse] at hk
  rcases hk with hk | hk
  · obtain ⟨hne, hall⟩ := all_kids_subset hk
    exact ⟨hne, fun x hx => (h d (List.mem_cons_self ..)).2 x (List.mem_cons_of_mem _ (hall x hx))⟩
  · exact h k (List.mem_cons_of_mem _ hk)

/-- A turn after which the loop goes on, with a path pending: that path has been taken, and
some of its subdirectories have been pushed. -/
theorem turn_again {s' : Walk} (h : Pending s (d :: xs)) (hready : Ready env denied (d :: xs))
    (hturn : walkTurn env s = .again s') :
    ∃ ks, Pending s' (ks ++ xs) ∧ Ready env denied (ks ++ xs) ∧ ∀ k ∈ ks, k ∈ d.2.kids d.1 := by
  obtain ⟨hne, hhosts⟩ := hready d (List.mem_cons_self ..)
  have hd := hhosts d (List.mem_cons_self ..)
  cases hdenied : denied d.1 with
  | true =>
    rcases turn_denied (hd.1 hdenied) h with ⟨s₁, hpend, -, hturn'⟩ | ⟨-, r, hturn'⟩
    · rw [hturn] at hturn'
      split_ifs at hturn'
      obtain rfl : s' = s₁ := Turn.again.inj hturn'
      exact ⟨[], hpend, fun x hx => hready x (List.mem_cons_of_mem _ hx), by simp⟩
    · rw [hturn] at hturn'
      cases hturn'
  | false =>
    by_cases hscan : d.2.AllScan
    · rcases turn_open (hd.2 hdenied) hscan hne h with ⟨s₁, hpend, -, hturn'⟩ | ⟨-, r, hturn'⟩
      · rw [hturn] at hturn'
        split_ifs at hturn'
        obtain rfl : s' = s₁ := Turn.again.inj hturn'
        exact ⟨_, hpend, hready.kids, fun k hk => List.mem_reverse.mp hk⟩
      · rw [hturn] at hturn'
        cases hturn'
    · obtain ⟨r, hturn'⟩ := turn_stops (hd.2 hdenied) hscan h
      rw [hturn] at hturn'
      cases hturn'

/-- Wherever the loop comes to, what is pending is part of the tree. -/
theorem exists_of_goes {n : ℕ} {s' : Walk} (h : Pending s xs) (hready : Ready env denied xs)
    (hgoes : Goes (walkTurn env) n s s') : ∃ ys, Pending s' ys ∧ Ready env denied ys := by
  induction hgoes generalizing xs with
  | here s => exact ⟨xs, h, hready⟩
  | turn hturn _ ih =>
    cases xs with
    | nil =>
      rw [turn_empty h, Turn.again.injEq] at hturn
      rw [hturn] at h
      exact ih h hready
    | cons d xs =>
      obtain ⟨ks, hpend, hready', -⟩ := turn_again h hready hturn
      exact ih hpend hready'

/-- What comes next in a walk is the top of the stack. -/
theorem exists_of_visits {V : List (CString × Listing)} (h : xs.flatMap (visitsFrom denied) = d :: V) :
    ∃ ys, xs = d :: ys ∧ V = (if denied d.1 then [] else d.2.visited denied d.1) ++
      ys.flatMap (visitsFrom denied) := by
  cases xs with
  | nil => simp at h
  | cons x ys =>
    rw [List.flatMap_cons, visitsFrom, List.cons_append, List.cons.injEq] at h
    obtain ⟨rfl, rfl⟩ := h
    exact ⟨ys, rfl, rfl⟩

theorem visits_eq_nil (h : xs.flatMap (visitsFrom denied) = []) : xs = [] := by
  cases xs with
  | nil => rfl
  | cons x ys => simp [visitsFrom] at h

theorem visits_kids {ys : List (CString × Listing)} (hd : denied d.1 = false) :
    ((d.2.kids d.1).reverse ++ ys).flatMap (visitsFrom denied) =
      (if denied d.1 then [] else d.2.visited denied d.1) ++ ys.flatMap (visitsFrom denied) := by
  rw [List.flatMap_append, ← visited_eq, hd, if_neg Bool.false_ne_true]

/-- **A walk goes through the directories that can be read**, as long as something comes
after them, and records them. -/
theorem walk_goes {A B : List (CString × Listing)} (h : Pending s xs) (hready : Ready env denied xs)
    (hV : xs.flatMap (visitsFrom denied) = A ++ B) (hA : ∀ d ∈ A, denied d.1 = false ∧ d.2.AllScan)
    (hB : B ≠ []) :
    (∃ s' ys, Goes (walkTurn env) A.length s s' ∧ Pending s' ys ∧ Ready env denied ys ∧
        ys.flatMap (visitsFrom denied) = B ∧ s'.state.dirVec.items = s.state.dirVec.items ++ A.map dirOf) ∨
      ¬ Quiet env ∧ ∃ n r, walkLoop env n s = some r := by
  induction A generalizing s xs with
  | nil => exact .inl ⟨s, xs, .here s, h, hready, hV, (List.append_nil _).symm⟩
  | cons d A ih =>
    obtain ⟨⟨hopen, hscan⟩, hA⟩ := List.forall_mem_cons.mp hA
    rw [List.cons_append] at hV
    obtain ⟨ys, rfl, hrest⟩ := exists_of_visits hV
    obtain ⟨hne, hhosts⟩ := hready d (List.mem_cons_self ..)
    rcases turn_open ((hhosts d (List.mem_cons_self ..)).2 hopen) hscan hne h with
      ⟨s₁, hpend, hdirs, hturn⟩ | ⟨hq, r, hturn⟩
    · have hV₁ : ((d.2.kids d.1).reverse ++ ys).flatMap (visitsFrom denied) = A ++ B := by
        rw [visits_kids hopen, ← hrest]
      have hmore : (d.2.kids d.1).reverse ++ ys ≠ [] := by
        intro hnil
        rw [hnil, List.flatMap_nil] at hV₁
        exact hB (List.append_eq_nil_iff.mp hV₁.symm).2
      rw [if_neg hmore] at hturn
      rcases ih hpend hready.kids hV₁ hA with ⟨s', zs, hgoes, hpend', hready', hV', hdirs'⟩ | ⟨hq, n, r, hr⟩
      · refine .inl ⟨s', zs, .turn hturn hgoes, hpend', hready', hV', ?_⟩
        rw [hdirs', hdirs, List.append_assoc]
        rfl
      · refine .inr ⟨hq, n + 1, r, ?_⟩
        rw [walkLoop, loop_again hturn]
        exact hr
    · exact .inr ⟨hq, 1, r, loop_leave hturn 0⟩

/-- The last directory of a walk. -/
theorem exists_of_last_visit (h : xs.flatMap (visitsFrom denied) = [d]) :
    xs = [d] ∧ (denied d.1 = false → d.2.kids d.1 = []) := by
  obtain ⟨ys, rfl, hrest⟩ := exists_of_visits h
  obtain ⟨hvisited, hys⟩ := List.append_eq_nil_iff.mp hrest.symm
  refine ⟨by rw [visits_eq_nil hys], fun hd => ?_⟩
  rw [hd, if_neg Bool.false_ne_true, visited_eq] at hvisited
  exact List.reverse_eq_nil_iff.mp (visits_eq_nil hvisited)

/-- **Every directory that is visited can be read**: the loop ends after one step for each,
with nothing pending, and they have been recorded. -/
theorem walk_complete {V : List (CString × Listing)} (h : Pending s xs) (hready : Ready env denied xs)
    (hV : xs.flatMap (visitsFrom denied) = V) (hne : V ≠ [])
    (hopen : ∀ d ∈ V, denied d.1 = false ∧ d.2.AllScan) :
    (∃ s', Pending s' [] ∧ s'.state.dirVec.items = s.state.dirVec.items ++ V.map dirOf ∧
        (∀ n, n < V.length → walkLoop env n s = none) ∧
          ∀ n, V.length ≤ n → walkLoop env n s = some { walk := s', err := .ok, cleanup := false }) ∨
      ¬ Quiet env ∧ ∃ n r, walkLoop env n s = some r := by
  obtain ⟨A, d, rfl⟩ : ∃ A d, V = A ++ [d] := ⟨V.dropLast, V.getLast hne, (List.dropLast_concat_getLast hne).symm⟩
  obtain ⟨hA, hd⟩ := List.forall_mem_append.mp hopen
  obtain ⟨hdopen, hdscan⟩ := hd d (List.mem_singleton.mpr rfl)
  rcases walk_goes h hready hV hA (List.cons_ne_nil _ _) with ⟨s₁, ys, hgoes, hpend, hready₁, hV₁, hdirs⟩ | hend
  · obtain ⟨rfl, hkids⟩ := exists_of_last_visit hV₁
    obtain ⟨hdne, hhosts⟩ := hready₁ d (List.mem_singleton.mpr rfl)
    rcases turn_open ((hhosts d (List.mem_cons_self ..)).2 hdopen) hdscan hdne hpend with
      ⟨s', hpend', hdirs', hturn⟩ | ⟨hq, r, hturn⟩
    · rw [hkids hdopen] at hpend' hturn
      refine .inl ⟨s', hpend', ?_, fun n hn => ?_, fun n hn => ?_⟩
      · rw [hdirs', hdirs, List.map_append, List.append_assoc]
        rfl
      · rw [List.length_append, List.length_singleton] at hn
        exact loop_goes_none hgoes (Nat.le_of_lt_succ hn)
      · refine loop_mono ?_ hn
        rw [List.length_append, List.length_singleton, loop_goes hgoes, loop_leave hturn]
    · refine .inr ⟨hq, A.length + 1, r, ?_⟩
      rw [walkLoop, loop_goes hgoes, loop_leave hturn]
  · exact .inr hend

/-- **The last directory is denied**: the loop goes on for ever. -/
theorem walk_stuck {A : List (CString × Listing)} (h : Pending s xs) (hready : Ready env denied xs)
    (hV : xs.flatMap (visitsFrom denied) = A ++ [d]) (hA : ∀ d ∈ A, denied d.1 = false ∧ d.2.AllScan)
    (hd : denied d.1 = true) (hq : Quiet env) (n : ℕ) : walkLoop env n s = none := by
  rcases walk_goes h hready hV hA (List.cons_ne_nil _ _) with ⟨s₁, ys, hgoes, hpend, hready₁, hV₁, -⟩ | ⟨hnq, -⟩
  · obtain ⟨rfl, -⟩ := exists_of_last_visit hV₁
    obtain ⟨-, hhosts⟩ := hready₁ d (List.mem_singleton.mpr rfl)
    rcases turn_denied ((hhosts d (List.mem_cons_self ..)).1 hd) hpend with ⟨s', hpend', -, hturn⟩ | ⟨hnq, -⟩
    · rw [if_pos rfl] at hturn
      have hforever : ∀ m, loop (walkTurn env) m s' = none :=
        loop_eq_none (J := fun s => Pending s []) (fun s hs => ⟨s, turn_empty hs, hs⟩) hpend'
      by_cases hn : n ≤ A.length
      · exact loop_goes_none hgoes hn
      · obtain ⟨m, rfl⟩ : ∃ m, n = A.length + (m + 1) := ⟨n - A.length - 1, by omega⟩
        rw [walkLoop, loop_goes hgoes, loop_again hturn]
        exact hforever m
    · exact absurd hq hnq
  · exact absurd hq hnq

/-- **A directory is denied while others are pending**: the loop ends, and they are still
pending. -/
theorem walk_cut {A B : List (CString × Listing)} (h : Pending s xs) (hready : Ready env denied xs)
    (hV : xs.flatMap (visitsFrom denied) = A ++ d :: B) (hA : ∀ d ∈ A, denied d.1 = false ∧ d.2.AllScan)
    (hd : denied d.1 = true) (hB : B ≠ []) :
    (∃ s' ys, Pending s' ys ∧ ys ≠ [] ∧
        walkLoop env (A.length + 1) s = some { walk := s', err := .fwSkip, cleanup := false }) ∨
      ¬ Quiet env ∧ ∃ n r, walkLoop env n s = some r := by
  rcases walk_goes h hready hV hA (List.cons_ne_nil _ _) with ⟨s₁, ys, hgoes, hpend, hready₁, hV₁, -⟩ | hend
  · obtain ⟨zs, rfl, hrest⟩ := exists_of_visits hV₁
    rw [hd, if_pos rfl, List.nil_append] at hrest
    have hzs : zs ≠ [] := by
      rintro rfl
      exact hB hrest
    obtain ⟨-, hhosts⟩ := hready₁ d (List.mem_cons_self ..)
    rcases turn_denied ((hhosts d (List.mem_cons_self ..)).1 hd) hpend with ⟨s', hpend', -, hturn⟩ | ⟨hq, r, hturn⟩
    · rw [if_neg hzs] at hturn
      refine .inl ⟨s', zs, hpend', hzs, ?_⟩
      rw [walkLoop, loop_goes hgoes, loop_leave hturn]
    · refine .inr ⟨hq, A.length + 1, r, ?_⟩
      rw [walkLoop, loop_goes hgoes, loop_leave hturn]
  · exact .inr hend

/-- A directory has an entry that cannot be scanned: the loop ends. -/
theorem walk_stops {A B : List (CString × Listing)} (h : Pending s xs) (hready : Ready env denied xs)
    (hV : xs.flatMap (visitsFrom denied) = A ++ d :: B) (hA : ∀ d ∈ A, denied d.1 = false ∧ d.2.AllScan)
    (hd : denied d.1 = false) (hscan : ¬ d.2.AllScan) : ∃ n r, walkLoop env n s = some r := by
  rcases walk_goes h hready hV hA (List.cons_ne_nil _ _) with ⟨s₁, ys, hgoes, hpend, hready₁, hV₁, -⟩ | ⟨-, hend⟩
  · obtain ⟨zs, rfl, -⟩ := exists_of_visits hV₁
    obtain ⟨-, hhosts⟩ := hready₁ d (List.mem_cons_self ..)
    obtain ⟨r, hturn⟩ := turn_stops ((hhosts d (List.mem_cons_self ..)).2 hd) hscan hpend
    refine ⟨A.length + 1, r, ?_⟩
    rw [walkLoop, loop_goes hgoes, loop_leave hturn]
  · exact hend

end FileSync.FileWalk
