import FileSync.FileWalk.Walk

/-!
# What a walk records

`jfs_fw_state_create`, the loop of `file_walk_test` and `jfs_fw_record_init` over a
directory tree. If every directory can be opened the record is the tree
(`walk_record`). If some are denied, whether the record is what can be reached
(`walkRecords_iff`) and whether the loop ends at all (`walkEnds_iff`) depends on where
in the order of the walk they are.
-/

namespace FileSync.FileWalk

open FileSync.Lib FileSync.FileIo Listing

variable {env : Env} {denied : CString → Bool} {w w' : World} {start : Path} {L : Listing} {st : FwState}

/-- The path of the start directory: a slash at its end is dropped. -/
def startPath (start : Path) : CString := start.str.take (pathStrLen start.str)

theorem startPath_ne_nil (h : start.str ≠ []) : startPath start ≠ [] := by
  have hlen := List.length_pos_iff.mpr h
  intro e
  have hzero := congrArg List.length e
  rw [startPath, List.length_take, List.length_nil] at hzero
  unfold pathStrLen at hzero
  split_ifs at hzero
  · omega
  · omega

theorem pathOf_startPath (start : Path) : pathOf (startPath start) = initPath start.str := by
  rw [startPath, pathOf, length_take_pathStrLen]
  rfl

theorem pathStrLen_start (hlen : (startPath start).length ≤ PATH_MAX) : pathStrLen start.str ≤ PATH_MAX := by
  rw [startPath, length_take_pathStrLen] at hlen
  exact hlen

/-- `jfs_fw_state_create`: the start directory is pending. -/
theorem yields_create (hlen : (startPath start).length ≤ PATH_MAX) :
    Yields (Disturbed env) (jfsFwStateCreate env start) w fun st _ => st = createdState start.str :=
  (does_create env (pathStrLen_start hlen)).yields w

/-- In a quiet environment nothing goes wrong. -/
theorem exists_of_yields {α : Type} {m : Sys α} {Q : α → World → Prop} (hq : Quiet env)
    (h : Yields (Disturbed env) m w Q) : ∃ a w', m w = (.ok a, w') ∧ Q a w' := by
  rcases h with h | ⟨e, w', -, hd⟩
  · exact h
  · exact absurd hq hd.1

/-- A walk that has been created. -/
theorem created (hlen : (startPath start).length ≤ PATH_MAX) (h : jfsFwStateCreate env start w = (.ok st, w')) :
    Pending ⟨w', st⟩ [(startPath start, L)] ∧ st.dirVec.items = [] := by
  obtain rfl : st = _ := (does_create env (pathStrLen_start hlen)).eq_of_ok h
  refine ⟨?_, rfl⟩
  show [initPath start.str] = [pathOf (startPath start)]
  rw [pathOf_startPath]

/-- `jfs_fw_record_init` once nothing is pending. -/
theorem yields_recordInit {s : Walk} {ds : List FwDir} (h : Pending s []) (hds : s.state.dirVec.items = ds)
    (hne : ds ≠ []) : Yields (Disturbed env) (jfsFwRecordInit env s.state) w fun record _ =>
      record = { dirCount := ds.length, dirArray := ds } := by
  have hpath : ¬ 0 < s.state.pathVec.count := by
    rw [pending_count h]
    simp
  have hdirs : s.state.dirVec.count = ds.length := congrArg List.length hds
  have hpos : s.state.dirVec.count ≠ 0 := by
    rw [hdirs]
    exact mt List.length_eq_zero_iff.mp hne
  have hdoes : Does env (jfsFwRecordInit env s.state) [.alloc] { dirCount := ds.length, dirArray := ds } := by
    unfold jfsFwRecordInit
    rw [if_neg hpath, ← hdirs, ← hds]
    exact does_bind (does_checkErr (does_vectorToArray env hpos)) (does_pure env _)
  exact hdoes.yields w

/-! ### An environment for a tree -/

/-- A quiet environment that hosts a tree. -/
def hostEnv (denied : CString → Bool) (d : CString × Listing) : Env where
  alloc _ := true
  errno _ e := e
  opendir _ path :=
    if denied path then .error EACCES
    else
      match (d.2.all d.1).find? fun x => x.1 == path with
      | some x => .ok { entries := x.2.dirents, failure := none }
      | none => .error ENOENT

theorem hostEnv_quiet (denied : CString → Bool) (d : CString × Listing) : Quiet (hostEnv denied d) :=
  ⟨fun _ => rfl, fun _ _ => rfl⟩

/-- An entry is found by its key if no key occurs twice. -/
theorem find?_eq_some_of_nodup {α : Type} {xs : List (CString × α)} (h : (xs.map Prod.fst).Nodup)
    {x : CString × α} (hx : x ∈ xs) : (xs.find? fun y => y.1 == x.1) = some x := by
  induction xs with
  | nil => simp at hx
  | cons y ys ih =>
    rw [List.map_cons, List.nodup_cons] at h
    rcases List.mem_cons.mp hx with rfl | hx
    · simp
    · have hne : y.1 ≠ x.1 := fun e => h.1 (e ▸ List.mem_map_of_mem hx)
      rw [List.find?_cons_of_neg (by simpa using hne)]
      exact ih h.2 hx

theorem hostEnv_hosts {d : CString × Listing} (h : ((d.2.all d.1).map Prod.fst).Nodup) :
    Hosts (hostEnv denied d) denied d := by
  intro x hx
  refine ⟨fun hd n => ?_, fun hd n => ?_⟩
  · simp [hostEnv, hd]
  · simp [hostEnv, hd, find?_eq_some_of_nodup h hx]

/-- The directory `a` with the entries `.`, `f`, `x` and `y`, of which `x` and `y` are
directories. -/
def smallTree : Listing :=
  .entry ⟨1, DT_DIR, [46]⟩ (.inl rfl) <| .entry ⟨2, DT_REG, [102]⟩ (.inr (by decide)) <|
    .subdir ⟨3, DT_DIR, [120]⟩ ⟨rfl, rfl, by decide, by decide⟩ .nil <|
      .subdir ⟨4, DT_DIR, [121]⟩ ⟨rfl, rfl, by decide, by decide⟩ .nil .nil

/-- The path `a`. -/
def smallStart : Path := { len := 1, str := [97] }

/-- The library when the paths in `denied` cannot be opened. -/
def smallEnv (denied : CString → Bool) : Env := hostEnv denied (startPath smallStart, smallTree)

theorem smallEnv_quiet (denied : CString → Bool) : Quiet (smallEnv denied) := hostEnv_quiet _ _

theorem smallEnv_hosts (denied : CString → Bool) :
    Hosts (smallEnv denied) denied (startPath smallStart, smallTree) := hostEnv_hosts (by decide)

theorem smallTree_scans : ∀ d ∈ smallTree.all (startPath smallStart), d.2.AllScan := by decide

theorem smallTree_names : ∀ d ∈ smallTree.all (startPath smallStart), d.2.DistinctNames := by decide

theorem smallTree_short : ∀ d ∈ smallTree.all (startPath smallStart), d.1.length ≤ PATH_MAX := by decide

theorem smallStart_ne_nil : smallStart.str ≠ [] := List.cons_ne_nil _ _

/-! ### Every directory can be opened -/

theorem ready_start (hstart : start.str ≠ []) (h : Hosts env denied (startPath start, L)) :
    Ready env denied [(startPath start, L)] := by
  intro d hd
  rw [List.mem_singleton.mp hd]
  exact ⟨startPath_ne_nil hstart, h⟩

theorem visits_start (hopen : denied (startPath start) = false) :
    [(startPath start, L)].flatMap (visitsFrom denied) = (startPath start, L) :: L.visited denied (startPath start) := by
  rw [List.flatMap_singleton, visitsFrom, hopen, if_neg Bool.false_ne_true]

/-- Where nothing that is visited is denied, it is what can be reached. -/
theorem visited_eq_reachable {path : CString} (hlen : ∀ d ∈ L.all path, d.1.length ≤ PATH_MAX)
    (h : ∀ d ∈ L.visited denied path, denied d.1 = false) : L.visited denied path = L.reachable denied path := by
  rw [← visited_filter path L fun d hd => hlen d (List.mem_cons_of_mem _ hd), List.filter_eq_self.mpr]
  intro d hd
  rw [h d hd]
  rfl

/-- The walk of a tree in which everything that is visited can be read. -/
theorem walk_record_reachable (hq : Quiet env) (hstart : start.str ≠ [])
    (hhosts : Hosts env denied (startPath start, L)) (hscan : ∀ d ∈ L.all (startPath start), d.2.AllScan)
    (hlen : ∀ d ∈ L.all (startPath start), d.1.length ≤ PATH_MAX)
    (hopen : ∀ d ∈ (startPath start, L) :: L.visited denied (startPath start), denied d.1 = false)
    (hcreate : jfsFwStateCreate env start w = (.ok st, w')) :
    ∃ s', Pending s' [] ∧
      (∀ n, n < ((startPath start, L) :: L.reachable denied (startPath start)).length →
        walkLoop env n ⟨w', st⟩ = none) ∧
      (∀ n, ((startPath start, L) :: L.reachable denied (startPath start)).length ≤ n →
        walkLoop env n ⟨w', st⟩ = some { walk := s', err := .ok, cleanup := false }) ∧
      ∃ w'', jfsFwRecordInit env s'.state s'.world =
        (.ok { dirCount := ((startPath start, L) :: L.reachable denied (startPath start)).length
               dirArray := ((startPath start, L) :: L.reachable denied (startPath start)).map dirOf }, w'') := by
  obtain ⟨hstartOpen, hvisited⟩ := List.forall_mem_cons.mp hopen
  have hV := visits_start (L := L) hstartOpen
  rw [visited_eq_reachable hlen hvisited] at hV
  have hread : ∀ d ∈ (startPath start, L) :: L.reachable denied (startPath start),
      denied d.1 = false ∧ d.2.AllScan := by
    rw [← visited_eq_reachable hlen hvisited]
    intro d hd
    refine ⟨hopen d hd, hscan d ?_⟩
    exact List.mem_cons.mpr ((List.mem_cons.mp hd).imp id (visited_subset _ _ d))
  obtain ⟨hpend, hdirs⟩ := created (L := L) (hlen _ (List.mem_cons_self ..)) hcreate
  rcases walk_complete hpend (ready_start hstart hhosts) hV (List.cons_ne_nil _ _) hread with
    ⟨s', hpend', hdirs', hnone, hsome⟩ | ⟨hnq, -⟩
  · rw [hdirs, List.nil_append] at hdirs'
    obtain ⟨record, w'', e, rfl⟩ := exists_of_yields (w := s'.world) hq
      (yields_recordInit hpend' hdirs' (by simp))
    refine ⟨s', hpend', hnone, hsome, w'', ?_⟩
    rw [e, List.length_map]
  · exact absurd hq hnq

/-- **A walk records the tree**: if every directory can be opened and nothing else fails,
the loop ends after one step for each directory, and the record has them in
preorder, none of them twice. -/
theorem walk_record (hq : Quiet env) (hstart : start.str ≠ [])
    (hhosts : Hosts env (fun _ => false) (startPath start, L))
    (hscan : ∀ d ∈ L.all (startPath start), d.2.AllScan)
    (hnames : ∀ d ∈ L.all (startPath start), d.2.DistinctNames)
    (hlen : ∀ d ∈ L.all (startPath start), d.1.length ≤ PATH_MAX) (w : World) :
    ((L.all (startPath start)).map Prod.fst).Nodup ∧ ∃ st w', jfsFwStateCreate env start w = (.ok st, w') ∧
      ∃ s', (∀ n, n < (L.all (startPath start)).length → walkLoop env n ⟨w', st⟩ = none) ∧
        (∀ n, (L.all (startPath start)).length ≤ n →
          walkLoop env n ⟨w', st⟩ = some { walk := s', err := .ok, cleanup := false }) ∧
        ∃ w'', jfsFwRecordInit env s'.state s'.world =
          (.ok { dirCount := (L.all (startPath start)).length
                 dirArray := (L.all (startPath start)).map dirOf }, w'') := by
  obtain ⟨st, w', hcreate, -⟩ := exists_of_yields (w := w) hq (yields_create (hlen _ (List.mem_cons_self ..)))
  refine ⟨nodup_all hnames, st, w', hcreate, ?_⟩
  obtain ⟨s', -, hwalk⟩ := walk_record_reachable hq hstart hhosts hscan hlen (fun _ _ => rfl) hcreate
  rw [reachable_none] at hwalk
  exact ⟨s', hwalk⟩

/-- The record of the small tree. -/
theorem walk_record_small : ∃ st w' s' w'',
    jfsFwStateCreate (smallEnv fun _ => false) smallStart ⟨0, 0⟩ = (.ok st, w') ∧
      walkLoop (smallEnv fun _ => false) 3 ⟨w', st⟩ = some { walk := s', err := .ok, cleanup := false } ∧
      jfsFwRecordInit (smallEnv fun _ => false) s'.state s'.world =
        (.ok { dirCount := 3, dirArray := (smallTree.all (startPath smallStart)).map dirOf }, w'') := by
  obtain ⟨-, st, w', hcreate, s', -, hsome, w'', hrecord⟩ := walk_record (smallEnv_quiet _) smallStart_ne_nil
    (smallEnv_hosts _) smallTree_scans smallTree_names smallTree_short ⟨0, 0⟩
  exact ⟨st, w', s', w'', hcreate, hsome 3 (by decide), hrecord⟩

/-! ### Some are denied -/

/-- **What a walk should have recorded when its loop has ended**: nothing is pending, and
the record is what can be reached through directories that are not denied, none of
them twice. -/
def WalkRecords (env : Env) (denied : CString → Bool) (d : CString × Listing) (s : Walk) : Prop :=
  s.state.pathVec.items = [] ∧ ((d :: d.2.reachable denied d.1).map Prod.fst).Nodup ∧
    ∃ w, jfsFwRecordInit env s.state s.world =
      (.ok { dirCount := (d :: d.2.reachable denied d.1).length
             dirArray := (d :: d.2.reachable denied d.1).map dirOf }, w)

/-- A list has a first entry of a kind, or none. -/
theorem exists_first {α : Type} (P : α → Prop) (V : List α) :
    (∀ d ∈ V, P d) ∨ ∃ A d B, V = A ++ d :: B ∧ (∀ x ∈ A, P x) ∧ ¬ P d := by
  induction V with
  | nil => exact .inl (by simp)
  | cons d V ih =>
    by_cases hd : P d
    · rcases ih with h | ⟨A, x, B, rfl, hA, hx⟩
      · exact .inl (List.forall_mem_cons.mpr ⟨hd, h⟩)
      · exact .inr ⟨d :: A, x, B, rfl, List.forall_mem_cons.mpr ⟨hd, hA⟩, hx⟩
    · exact .inr ⟨[], d, V, rfl, by simp, hd⟩

/-- **When a walk records what it should**: in every tree, and whichever directories but
the start are denied, exactly if none of them is denied before the last that it
visits. -/
theorem walkRecords_iff (hq : Quiet env) (hstart : start.str ≠ [])
    (hhosts : Hosts env denied (startPath start, L)) (hscan : ∀ d ∈ L.all (startPath start), d.2.AllScan)
    (hnames : ∀ d ∈ L.all (startPath start), d.2.DistinctNames)
    (hlen : ∀ d ∈ L.all (startPath start), d.1.length ≤ PATH_MAX) (hopen : denied (startPath start) = false)
    (hcreate : jfsFwStateCreate env start w = (.ok st, w')) :
    (∀ n e, walkLoop env n ⟨w', st⟩ = some e → WalkRecords env denied (startPath start, L) e.walk) ↔
      ∀ d ∈ ((startPath start, L) :: L.visited denied (startPath start)).dropLast, denied d.1 = false := by
  have hV := visits_start (L := L) hopen
  have hready := ready_start hstart hhosts
  obtain ⟨hpend, -⟩ := created (L := L) (hlen _ (List.mem_cons_self ..)) hcreate
  have hnodup : (((startPath start, L) :: L.reachable denied (startPath start)).map Prod.fst).Nodup :=
    (nodup_all hnames).sublist (((reachable_sublist _ L).cons_cons _).map _)
  have hread : ∀ d ∈ (startPath start, L) :: L.visited denied (startPath start), d.2.AllScan := by
    intro d hd
    exact hscan d (List.mem_cons.mpr ((List.mem_cons.mp hd).imp id (visited_subset _ _ d)))
  rcases exists_first (fun d => denied d.1 = false)
      ((startPath start, L) :: L.visited denied (startPath start)) with hall | ⟨A, d, B, hsplit, hA, hd⟩
  · -- nothing that is visited is denied
    refine iff_of_true ?_ fun d hd => hall d (List.dropLast_subset _ hd)
    obtain ⟨s', hpend', hnone, hsome, hrecord⟩ :=
      walk_record_reachable hq hstart hhosts hscan hlen hall hcreate
    intro n e he
    rcases Nat.lt_or_ge n ((startPath start, L) :: L.reachable denied (startPath start)).length with hn | hn
    · rw [hnone n hn] at he
      cases he
    · rw [hsome n hn] at he
      rw [← Option.some.inj he]
      exact ⟨hpend', hnodup, hrecord⟩
  · rw [hsplit] at hV hread ⊢
    have hA' : ∀ x ∈ A, denied x.1 = false ∧ x.2.AllScan :=
      fun x hx => ⟨hA x hx, hread x (List.mem_append_left _ hx)⟩
    simp only [Bool.not_eq_false] at hd
    cases B with
    | nil =>
      refine iff_of_true ?_ (by rw [List.dropLast_concat]; exact hA)
      intro n e he
      rw [walk_stuck hpend hready hV hA' hd hq n] at he
      cases he
    | cons b B =>
      apply iff_of_false
      · intro hrec
        rcases walk_cut hpend hready hV hA' hd (List.cons_ne_nil b B) with ⟨s', ys, hpend', hys, hloop⟩ | ⟨hnq, -⟩
        · have hnil := (hrec _ _ hloop).1
          rw [hpend', List.map_eq_nil_iff, List.reverse_eq_nil_iff] at hnil
          exact hys hnil
        · exact hnq hq
      · intro hall
        have hmem : d ∈ (A ++ d :: b :: B).dropLast := by
          rw [List.dropLast_append_cons, List.dropLast_cons_cons]
          simp
        rw [hall d hmem] at hd
        cases hd

/-- A walk of the small tree that has been created. -/
theorem exists_smallCreate (denied : CString → Bool) : ∃ st w',
    jfsFwStateCreate (smallEnv denied) smallStart ⟨0, 0⟩ = (.ok st, w') ∧
      Pending ⟨w', st⟩ [(startPath smallStart, smallTree)] := by
  have hlen : (startPath smallStart).length ≤ PATH_MAX := smallTree_short _ (List.mem_cons_self ..)
  obtain ⟨st, w', hcreate, -⟩ := exists_of_yields (w := ⟨0, 0⟩) (smallEnv_quiet denied) (yields_create hlen)
  exact ⟨st, w', hcreate, (created hlen hcreate).1⟩

/-- The small tree if nothing is denied. -/
theorem walkRecords_small : ∃ st w',
    jfsFwStateCreate (smallEnv fun _ => false) smallStart ⟨0, 0⟩ = (.ok st, w') ∧
      ∀ n e, walkLoop (smallEnv fun _ => false) n ⟨w', st⟩ = some e →
        WalkRecords (smallEnv fun _ => false) (fun _ => false) (startPath smallStart, smallTree) e.walk := by
  obtain ⟨st, w', hcreate, -⟩ := exists_smallCreate fun _ => false
  refine ⟨st, w', hcreate, ?_⟩
  exact (walkRecords_iff (smallEnv_quiet _) smallStart_ne_nil (smallEnv_hosts _) smallTree_scans smallTree_names
    smallTree_short rfl hcreate).mpr fun _ _ => rfl

/-- `a/y` is denied while `a/x` is pending: the loop ends after two steps. -/
theorem walkRecords_cut :
    Hosts (smallEnv fun p => p == [97, 47, 121]) (fun p => p == [97, 47, 121]) (startPath smallStart, smallTree) ∧
      Quiet (smallEnv fun p => p == [97, 47, 121]) ∧ ∃ st w' e,
        jfsFwStateCreate (smallEnv fun p => p == [97, 47, 121]) smallStart ⟨0, 0⟩ = (.ok st, w') ∧
        walkLoop (smallEnv fun p => p == [97, 47, 121]) 2 ⟨w', st⟩ = some e ∧
        ¬ WalkRecords (smallEnv fun p => p == [97, 47, 121]) (fun p => p == [97, 47, 121])
          (startPath smallStart, smallTree) e.walk := by
  have hhosts := smallEnv_hosts fun p => p == [97, 47, 121]
  refine ⟨hhosts, smallEnv_quiet _, ?_⟩
  obtain ⟨st, w', hcreate, hpend⟩ := exists_smallCreate fun p => p == [97, 47, 121]
  have hV : [(startPath smallStart, smallTree)].flatMap (visitsFrom fun p => p == [97, 47, 121]) =
      [(startPath smallStart, smallTree)] ++ ([97, 47, 121], .nil) :: [([97, 47, 120], .nil)] := rfl
  have hA : ∀ d ∈ [(startPath smallStart, smallTree)], (d.1 == [97, 47, 121]) = false ∧ d.2.AllScan := by decide
  rcases walk_cut hpend (ready_start smallStart_ne_nil hhosts) hV hA rfl (List.cons_ne_nil _ _) with
    ⟨s', ys, hpend', hys, hloop⟩ | ⟨hq, -⟩
  · refine ⟨st, w', _, hcreate, hloop, fun hrec => ?_⟩
    have hnil := hrec.1
    rw [hpend', List.map_eq_nil_iff, List.reverse_eq_nil_iff] at hnil
    exact hys hnil
  · exact absurd (smallEnv_quiet _) hq

/-! ### Whether the loop ends -/

/-- The path on top of the stack has been taken: what is pending afterwards are the others,
and paths below it. -/
def Consumes (s s' : Walk) : Prop :=
  ∃ rest top pushed, s.state.pathVec.items = rest ++ [top] ∧ s'.state.pathVec.items = rest ++ pushed ∧
    ∀ p ∈ pushed, ∃ name, name ≠ [] ∧ p.str = childPath top.str name

/-- **What is asked of the loop**: it ends, and wherever it has come to, a step after which
it goes on has taken a path that was pending. -/
def WalkEnds (env : Env) (s : Walk) : Prop :=
  (∃ n e, walkLoop env n s = some e) ∧
    ∀ n s' s'', Goes (walkTurn env) n s s' → walkTurn env s' = .again s'' → Consumes s' s''

theorem consumes_turn {s s' : Walk} {d : CString × Listing} {xs : List (CString × Listing)}
    (h : Pending s (d :: xs)) (hready : Ready env denied (d :: xs)) (hturn : walkTurn env s = .again s') :
    Consumes s s' := by
  obtain ⟨ks, hpend, -, hks⟩ := turn_again h hready hturn
  refine ⟨xs.reverse.map fun d => pathOf d.1, pathOf d.1, ks.reverse.map fun d => pathOf d.1, ?_, ?_, ?_⟩
  · rw [h, List.reverse_cons, List.map_append]
    rfl
  · rw [hpend, List.reverse_append, List.map_append]
  · intro p hp
    obtain ⟨k, hk, rfl⟩ := List.mem_map.mp hp
    exact exists_of_mem_kids (hks k (List.mem_reverse.mp hk))

/-- A loop that ends never comes to a step with nothing pending. -/
theorem walkEnds_of_loop {s : Walk} {xs : List (CString × Listing)} {n : ℕ} {e : WalkEnd} (hpend : Pending s xs)
    (hready : Ready env denied xs) (h : walkLoop env n s = some e) : WalkEnds env s := by
  refine ⟨⟨n, e, h⟩, fun m s' s'' hgoes hturn => ?_⟩
  obtain ⟨ys, hpend', hready'⟩ := exists_of_goes hpend hready hgoes
  cases ys with
  | nil =>
    obtain ⟨k, hk⟩ := exists_loop_of_goes hgoes h
    rw [loop_eq_none (J := fun s => Pending s []) (fun s hs => ⟨s, turn_empty hs, hs⟩) hpend' k] at hk
    cases hk
  | cons d ys => exact consumes_turn hpend' hready' hturn

/-- The walk gets stuck: it reads everything that it visits but the last directory, and
that one is denied. -/
def Stuck (denied : CString → Bool) (d : CString × Listing) : Prop :=
  (∀ x ∈ (visitsFrom denied d).dropLast, denied x.1 = false ∧ x.2.AllScan) ∧
    ∀ x ∈ (visitsFrom denied d).getLast?, denied x.1 = true

/-- The loop ends unless the walk gets stuck, whatever else fails. -/
theorem walkEnds_of_not_stuck (hstart : start.str ≠ []) (hlen : (startPath start).length ≤ PATH_MAX)
    (hhosts : Hosts env denied (startPath start, L)) (hcreate : jfsFwStateCreate env start w = (.ok st, w'))
    (hstuck : ¬ Stuck denied (startPath start, L)) : WalkEnds env ⟨w', st⟩ := by
  obtain ⟨hpend, -⟩ := created (L := L) hlen hcreate
  have hready := ready_start hstart hhosts
  have hV : [(startPath start, L)].flatMap (visitsFrom denied) = visitsFrom denied (startPath start, L) :=
    List.flatMap_singleton ..
  obtain ⟨n, e, h⟩ : ∃ n e, walkLoop env n ⟨w', st⟩ = some e := by
    rcases exists_first (fun d => denied d.1 = false ∧ d.2.AllScan) (visitsFrom denied (startPath start, L)) with
      hall | ⟨A, d, B, hsplit, hA, hd⟩
    · rcases walk_complete hpend hready hV (List.cons_ne_nil _ _) hall with ⟨s', -, -, -, hsome⟩ | ⟨-, hend⟩
      · exact ⟨_, _, hsome _ (Nat.le_refl _)⟩
      · exact hend
    · rw [hsplit] at hV
      cases hdenied : denied d.1 with
      | false => exact walk_stops hpend hready hV hA hdenied fun hscan => hd ⟨hdenied, hscan⟩
      | true =>
        have hB : B ≠ [] := by
          rintro rfl
          refine hstuck ⟨?_, ?_⟩
          · rw [hsplit, List.dropLast_concat]
            exact hA
          · rw [hsplit, List.getLast?_concat]
            rintro x ⟨⟩
            exact hdenied
        rcases walk_cut hpend hready hV hA hdenied hB with ⟨s', ys, -, -, hloop⟩ | ⟨-, hend⟩
        · exact ⟨_, _, hloop⟩
        · exact hend
  exact walkEnds_of_loop hpend hready h

/-- **When the loop ends**: for every tree and whichever of its directories are denied, it
ends in every environment exactly if the walk does not get stuck. -/
theorem walkEnds_iff (hstart : start.str ≠ []) (hlen : (startPath start).length ≤ PATH_MAX)
    (hnames : ∀ d ∈ L.all (startPath start), d.2.DistinctNames) :
    (∀ env w st w', Hosts env denied (startPath start, L) → jfsFwStateCreate env start w = (.ok st, w') →
      WalkEnds env ⟨w', st⟩) ↔ ¬ Stuck denied (startPath start, L) := by
  refine ⟨fun h hstuck => ?_, fun hstuck env w st w' hhosts hcreate =>
    walkEnds_of_not_stuck hstart hlen hhosts hcreate hstuck⟩
  have hq := hostEnv_quiet denied (startPath start, L)
  have hhosts : Hosts (hostEnv denied (startPath start, L)) denied (startPath start, L) :=
    hostEnv_hosts (nodup_all hnames)
  obtain ⟨st, w', hcreate, -⟩ := exists_of_yields (w := ⟨0, 0⟩) hq (yields_create hlen)
  obtain ⟨⟨n, e, hloop⟩, -⟩ := h _ _ st w' hhosts hcreate
  obtain ⟨hpend, -⟩ := created (L := L) hlen hcreate
  have hne : visitsFrom denied (startPath start, L) ≠ [] := List.cons_ne_nil _ _
  have hV : [(startPath start, L)].flatMap (visitsFrom denied) =
      (visitsFrom denied (startPath start, L)).dropLast ++ [(visitsFrom denied (startPath start, L)).getLast hne] := by
    rw [List.flatMap_singleton, List.dropLast_concat_getLast]
  have hlast := hstuck.2 _ (List.getLast?_eq_some_getLast hne)
  rw [walk_stuck hpend (ready_start hstart hhosts) hV hstuck.1 hlast hq n] at hloop
  cases hloop

/-- The loop ends with the small tree if nothing is denied. -/
theorem walkEnds_small : ∃ st w',
    jfsFwStateCreate (smallEnv fun _ => false) smallStart ⟨0, 0⟩ = (.ok st, w') ∧
      WalkEnds (smallEnv fun _ => false) ⟨w', st⟩ := by
  obtain ⟨st, w', hcreate, -⟩ := exists_smallCreate fun _ => false
  refine ⟨st, w', hcreate, ?_⟩
  refine (walkEnds_iff smallStart_ne_nil (smallTree_short _ (List.mem_cons_self ..)) smallTree_names).mpr ?_
    (smallEnv fun _ => false) ⟨0, 0⟩ st w' (smallEnv_hosts _) hcreate
  intro hstuck
  exact Bool.false_ne_true (hstuck.2 _ rfl)

/-- `a/x`, the last directory of the small tree, is denied: the loop does not end. -/
theorem walkEnds_stuck :
    Hosts (smallEnv fun p => p == [97, 47, 120]) (fun p => p == [97, 47, 120]) (startPath smallStart, smallTree) ∧
      ∃ st w', jfsFwStateCreate (smallEnv fun p => p == [97, 47, 120]) smallStart ⟨0, 0⟩ = (.ok st, w') ∧
        ¬ WalkEnds (smallEnv fun p => p == [97, 47, 120]) ⟨w', st⟩ := by
  have hhosts := smallEnv_hosts fun p => p == [97, 47, 120]
  refine ⟨hhosts, ?_⟩
  obtain ⟨st, w', hcreate, hpend⟩ := exists_smallCreate fun p => p == [97, 47, 120]
  have hV : [(startPath smallStart, smallTree)].flatMap (visitsFrom fun p => p == [97, 47, 120]) =
      [(startPath smallStart, smallTree), ([97, 47, 121], .nil)] ++ [([97, 47, 120], .nil)] := rfl
  have hA : ∀ d ∈ [(startPath smallStart, smallTree), ([97, 47, 121], .nil)],
      (d.1 == [97, 47, 120]) = false ∧ d.2.AllScan := by decide
  refine ⟨st, w', hcreate, fun hends => ?_⟩
  obtain ⟨⟨n, e, hloop⟩, -⟩ := hends
  rw [walk_stuck hpend (ready_start smallStart_ne_nil hhosts) hV hA rfl (smallEnv_quiet _) n] at hloop
  cases hloop

end FileSync.FileWalk
