import FileSync.Lib.Recency
import FileSync.LruCache.Access

/-!
# Runs of accesses

After any sequence of accesses the entries have the most recently accessed keys, as
many as there are slots, in the order of their last access (`Tracks`), and the calls
made so far tell what the entries are: a `miss` brings an entry in, each `hit` gets it
as the call before left it, and `evict` gets it once (`life`). `jfs_lru_free` gives all
that is left to `evict`.
-/

namespace FileSync.LruCache

open FileSync.Lib FileSync.MemoryLayout FileSync.MemoryBlock

variable {Key Ctx σ : Type} [DecidableEq Key] {keyOf : Slot → Key} {s s' : State Key Ctx σ} {key k : Key} {ctx : Ctx}
  {ks : List Key}

/-! ### The life of an entry -/

/-- What a call does to the entry of the key `k`, if there is one. A call that cannot be, such
as a second `evict` of the same entry, has no result. -/
def lifeStep (keyOf : Slot → Key) (k : Key) (entry : Option Slot) (c : Call) : Option (Option Slot) :=
  match c.kind with
  | .miss => if keyOf c.after = k then if entry = none then some (some c.after) else none else some entry
  | .hit => if keyOf c.before = k then if entry = some c.before then some (some c.after) else none else some entry
  | .evict => if keyOf c.before = k then if entry = some c.before then some none else none else some entry

/-- The entry of the key `k` after the calls. There is a result if the calls about `k` are a
`miss` that brings an entry in, any number of `hit`s of that entry, an `evict` of it, then
another `miss`, and so on. -/
def life (keyOf : Slot → Key) (k : Key) (calls : List Call) : Option (Option Slot) :=
  calls.foldlM (lifeStep keyOf k) none

/-- The keys that have been brought in. -/
def broughtIn (keyOf : Slot → Key) (calls : List Call) : List Key :=
  (calls.filter (·.kind = .miss)).map fun c => keyOf c.after

/-- The keys of the entries that have been given to `evict`. -/
def evicted (keyOf : Slot → Key) (calls : List Call) : List Key :=
  (calls.filter (·.kind = .evict)).map fun c => keyOf c.before

theorem life_append (calls cs : List Call) :
    life keyOf k (calls ++ cs) = (life keyOf k calls).bind fun entry => cs.foldlM (lifeStep keyOf k) entry :=
  List.foldlM_append

/-- Every `miss` but that of an entry that is still there has had its `evict`. -/
theorem count_of_foldlM_lifeStep {calls : List Call} {entry entry' : Option Slot}
    (h : calls.foldlM (lifeStep keyOf k) entry = some entry') :
    (broughtIn keyOf calls).count k + entry.toList.length = (evicted keyOf calls).count k + entry'.toList.length := by
  induction calls generalizing entry with
  | nil =>
    obtain rfl : entry = entry' := Option.some.inj h
    rfl
  | cons c calls ih =>
    rw [List.foldlM_cons] at h
    obtain ⟨entry₁, e, h⟩ := Option.bind_eq_some_iff.mp h
    have hrest := ih h
    unfold lifeStep at e
    -- each callback, on the entry of `k` or on another one
    cases hkind : c.kind with
    | hit =>
      simp only [hkind] at e
      split_ifs at e <;> cases e <;> simp_all [broughtIn, evicted]
    | miss =>
      simp only [hkind] at e
      split_ifs at e <;> cases e <;> simp_all [broughtIn, evicted]
    | evict =>
      simp only [hkind] at e
      split_ifs at e <;> cases e <;> simp_all [broughtIn, evicted]
      omega

theorem perm_of_life {calls : List Call} (h : ∀ k, life keyOf k calls = some none) :
    (broughtIn keyOf calls).Perm (evicted keyOf calls) := by
  rw [List.perm_iff_count]
  intro k
  simpa using count_of_foldlM_lifeStep (h k)

/-! ### The invariant -/

/-- The entry of a key. -/
def entryOf (keyOf : Slot → Key) (xs : List Slot) (k : Key) : Option Slot := xs.find? fun x => keyOf x = k

/-- The cache after accesses of the keys `ks`. -/
structure Tracks (keyOf : Slot → Key) (s : State Key Ctx σ) (ks : List Key) : Prop where
  sound : s.Sound
  capacity_pos : 0 < s.lru.mb.capacity.toNat
  keys : s.entries.map keyOf = (recency ks).take s.lru.mb.capacity.toNat
  life : ∀ k, life keyOf k s.calls = some (entryOf keyOf s.entries k)

theorem Tracks.nodup (h : Tracks keyOf s ks) : (s.entries.map keyOf).Nodup := by
  rw [h.keys]
  exact (nodup_recency ks).sublist (List.take_sublist ..)

theorem entryOf_cons (x : Slot) (xs : List Slot) (k : Key) :
    entryOf keyOf (x :: xs) k = if keyOf x = k then some x else entryOf keyOf xs k := by
  rw [entryOf, List.find?_cons]
  by_cases h : keyOf x = k <;> simp [h, entryOf]

theorem entryOf_append (xs ys : List Slot) (k : Key) :
    entryOf keyOf (xs ++ ys) k = (entryOf keyOf xs k).or (entryOf keyOf ys k) := List.find?_append

theorem entryOf_eq_none {xs : List Slot} (h : k ∉ xs.map keyOf) : entryOf keyOf xs k = none := by
  rw [entryOf, List.find?_eq_none]
  intro x hx hk
  exact h (List.mem_map.mpr ⟨x, hx, by simpa using hk⟩)

/-- The first entry with a key, where keys are different. -/
theorem entryOf_middle {xs ys : List Slot} {x : Slot} (h : ((xs ++ x :: ys).map keyOf).Nodup) :
    entryOf keyOf (xs ++ x :: ys) k = if keyOf x = k then some x else entryOf keyOf (xs ++ ys) k := by
  rw [entryOf_append, entryOf_cons, entryOf_append]
  split
  · next hk =>
    rw [List.map_append, List.map_cons, List.nodup_middle, List.nodup_cons, List.mem_append, not_or] at h
    rw [entryOf_eq_none (hk ▸ h.1.1), Option.none_or]
  · rfl

/-- The keys after an access. -/
theorem keys_of_served (h : Tracks keyOf s ks) (hs : Served keyOf s s' key) :
    s'.entries.map keyOf = (recency (ks ++ [key])).take s.lru.mb.capacity.toNat := by
  have hkeys := h.keys
  obtain ⟨n, hn⟩ : ∃ n, s.lru.mb.capacity.toNat = n + 1 := ⟨_, (Nat.succ_pred_eq_of_pos h.capacity_pos).symm⟩
  have hlen := congrArg List.length hkeys
  rw [List.length_map, List.length_take, hn] at hlen
  rcases hs.cases with ⟨xs, x, ys, y, he, hx, hy, he', -⟩ | ⟨hkey, hlt, x, y, hy, he', -⟩ |
    ⟨hkey, hfull, xs, last, x, y, he, hy, he', -⟩
  · have hnodup := h.nodup
    rw [he, List.map_append, List.map_cons, hx] at hkeys hnodup
    have hmem : key ∈ (recency ks).take s.lru.mb.capacity.toNat := by
      rw [← hkeys]
      simp
    rw [List.nodup_middle, List.nodup_cons, List.mem_append, not_or] at hnodup
    rw [take_recency_of_mem hmem, ← hkeys, he', List.map_cons, hy, List.map_append,
      List.erase_append_right _ hnodup.1.1, List.erase_cons_head]
  · rw [hkeys, hn] at hkey
    have hle : (recency ks).length ≤ n := by omega
    rw [hn, take_recency_of_notMem hkey, he', List.map_cons, hy, hkeys, List.take_of_length_le (by omega),
      List.take_of_length_le hle]
  · rw [hkeys, hn] at hkey
    have hxs : (xs.map keyOf).length = n := by
      rw [he, hn] at hfull
      simpa using hfull
    rw [hn, he, List.map_append] at hkeys
    have htake := congrArg (List.take n) hkeys
    rw [List.take_left' hxs, List.take_take, min_eq_left (Nat.le_succ n)] at htake
    rw [hn, take_recency_of_notMem hkey, he', List.map_cons, hy, htake]

/-- The entries after an access. -/
theorem life_of_served (h : Tracks keyOf s ks) (hs : Served keyOf s s' key) (k : Key) :
    LruCache.life keyOf k s'.calls = some (entryOf keyOf s'.entries k) := by
  have hnodup := h.nodup
  rcases hs.cases with ⟨xs, x, ys, y, he, hx, hy, he', hcalls⟩ | ⟨hkey, -, x, y, hy, he', hcalls⟩ |
    ⟨hkey, -, xs, last, x, y, he, hy, he', hcalls⟩
  · rw [he] at hnodup
    rw [hcalls, life_append, h.life, Option.bind_some, he', he, entryOf_middle hnodup, entryOf_cons]
    by_cases hk : key = k <;> simp [lifeStep, hx, hy, hk]
  · rw [hcalls, life_append, h.life, Option.bind_some, he', entryOf_cons]
    by_cases hk : key = k
    · rw [entryOf_eq_none (hk ▸ hkey)]
      simp [lifeStep, hy, hk]
    · simp [lifeStep, hy, hk]
  · rw [he] at hnodup hkey
    have hlast : keyOf last ≠ key := fun e => hkey (by simp [e])
    have hxs : key ∉ xs.map keyOf := fun hm => hkey (by simp [hm])
    rw [hcalls, life_append, h.life, Option.bind_some, he', he, entryOf_middle hnodup, entryOf_cons, List.append_nil]
    by_cases hk : key = k
    · rw [entryOf_eq_none (hk ▸ hxs)]
      simp [lifeStep, hy, hk, hk ▸ hlast]
    · by_cases hkl : keyOf last = k
      · rw [List.map_append, List.map_cons, List.nodup_middle, List.nodup_cons, List.mem_append, not_or] at hnodup
        rw [entryOf_eq_none (hkl ▸ hnodup.1.1)]
        simp [lifeStep, hy, hk, hkl]
      · simp [lifeStep, hy, hk, hkl]

/-- **An access keeps the invariant.** -/
theorem Tracks.served (h : Tracks keyOf s ks) (hs : Served keyOf s s' key) : Tracks keyOf s' (ks ++ [key]) := by
  obtain ⟨count, hlru⟩ := hs.lru
  have hcap : s'.lru.mb.capacity = s.lru.mb.capacity := by rw [hlru]
  refine ⟨hs.sound, ?_, ?_, life_of_served h hs⟩
  · rw [hcap]
    exact h.capacity_pos
  · rw [hcap]
    exact keys_of_served h hs

/-! ### Runs -/

omit [DecidableEq Key] in
theorem accessRun_append (s : State Key Ctx σ) (as : List (Key × Ctx)) (a : Key × Ctx) :
    accessRun s (as ++ [a]) = accessRun s as >>= fun s => jfsLruAccess s a.1 a.2 := by
  induction as generalizing s with
  | nil =>
    apply Checked.ext
    · rfl
    · simp [accessRun]
  | cons b as ih =>
    apply Checked.ext
    · simp [accessRun, ih]
    · simp [accessRun, ih, Bool.and_assoc]

/-- The callbacks do what they must for every access of the run. -/
structure HonestRun (keyOf : Slot → Key) (lru : Lru Key Ctx σ) (as : List (Key × Ctx)) : Prop where
  cmp : Matches keyOf lru
  access : ∀ a ∈ as, Honest keyOf lru a

/-- **A run keeps the invariant**, and no assertion fails. -/
theorem Tracks.run {as : List (Key × Ctx)} (h : Tracks keyOf s ks) (hh : HonestRun keyOf s.lru as) :
    (accessRun s as).ok = true ∧ Tracks keyOf (accessRun s as).val (ks ++ as.map Prod.fst) ∧
      ∃ count, (accessRun s as).val.lru = { s.lru with count := count } := by
  induction as generalizing s ks with
  | nil =>
    rw [List.map_nil, List.append_nil]
    exact ⟨rfl, h, s.lru.count, rfl⟩
  | cons a as ih =>
    obtain ⟨hok, hs⟩ := jfsLruAccess_spec h.sound h.capacity_pos hh.cmp (hh.access a (by simp))
    obtain ⟨count, hlru⟩ := hs.lru
    have hh' : HonestRun keyOf (jfsLruAccess s a.1 a.2).val.lru as := by
      rw [hlru]
      exact ⟨hh.cmp, fun b hb => ⟨(hh.access b (by simp [hb])).miss, (hh.access b (by simp [hb])).hit⟩⟩
    obtain ⟨hok', htracks, count', hlru'⟩ := ih (h.served hs) hh'
    refine ⟨?_, ?_, count', ?_⟩
    · simp [accessRun, hok, hok']
    · rw [List.map_cons, List.append_cons]
      exact htracks
    · simp only [accessRun, Checked.val_bind, hlru', hlru]

/-! ### The end -/

theorem foldlM_lifeStep_evict {cs : List Call} {xs : List Slot} (hkind : ∀ c ∈ cs, c.kind = .evict)
    (hbefore : cs.map Call.before = xs) (hnodup : (xs.map keyOf).Nodup) (k : Key) :
    cs.foldlM (lifeStep keyOf k) (entryOf keyOf xs k) = some none := by
  induction cs generalizing xs with
  | nil =>
    subst hbefore
    rfl
  | cons c cs ih =>
    subst hbefore
    rw [List.map_cons, List.map_cons, List.nodup_cons] at hnodup
    rw [List.map_cons, entryOf_cons, List.foldlM_cons]
    have hc := hkind c (by simp)
    have hrest := ih (fun c hc => hkind c (by simp [hc])) rfl hnodup.2
    by_cases hk : keyOf c.before = k
    · have hnone := entryOf_eq_none (hk ▸ hnodup.1)
      rw [hnone] at hrest
      simp [lifeStep, hc, hk, hrest]
    · simp [lifeStep, hc, hk, hrest]

/-- After `jfs_lru_free` there are no entries. -/
theorem Tracks.free (h : Tracks keyOf s ks) (k : Key) : LruCache.life keyOf k (jfsLruFree s).calls = some none := by
  obtain ⟨cs, hcalls, hkind, hbefore⟩ := evictFrom_calls (s := s) (n := s.lru.count.toNat) (i := 0) h.sound.fits
    (by have := h.sound.count_le; omega)
  have hentries : cs.map Call.before = s.entries := by
    rw [hbefore, State.entries, slots, List.range_eq_range']
  rw [jfsLruFree, show (0 : UInt64) = UInt64.ofNat 0 from rfl, hcalls, life_append, h.life, Option.bind_some]
  exact foldlM_lifeStep_evict hkind hentries h.nodup k

/-! ### From initialisation on -/

/-- The cache as `jfs_lru_init` leaves it. -/
def initial (lru : Lru Key Ctx σ) (mem : Bytes) (user : σ) : State Key Ctx σ :=
  { lru := lru, mem := mem, user := user, calls := [] }

theorem tracks_initial {conf : Conf Key Ctx σ} {lru : Lru Key Ctx σ} (hinit : jfsLruInit conf = .ok lru)
    (hmem : InMemory conf.component) (mem : Bytes) (user : σ) :
    Tracks keyOf (initial lru mem user) [] ∧ lru.mb.capacity = conf.component.desc.count := by
  unfold jfsLruInit at hinit
  split at hinit
  · cases hinit
  · split at hinit
    · cases hinit
    · next mb hmb =>
      cases hinit
      obtain ⟨hfits, hcap, hpos⟩ := jfsMbInit_fits hmb hmem
      exact ⟨⟨⟨hfits, Nat.zero_le _⟩, hpos, List.take_nil.symm, fun k => rfl⟩, hcap⟩

/-- The entries have the `n` most recently accessed keys, or all if there are fewer, the latest
first. -/
def Recent (keyOf : Slot → Key) (n : ℕ) (s : State Key Ctx σ) (ks : List Key) : Prop :=
  s.entries.map keyOf = (recency ks).take n ∧ s.lru.count.toNat = min n ks.dedup.length

theorem Tracks.recent (h : Tracks keyOf s ks) : Recent keyOf s.lru.mb.capacity.toNat s ks := by
  refine ⟨h.keys, ?_⟩
  have hlen := congrArg List.length h.keys
  rwa [List.length_map, length_entries, List.length_take, length_recency] at hlen

/-- **The cache over a whole run.** After each access the entries have the most recent keys, in
order. The access has called `hit` on the slot of a resident key, and otherwise `miss`,
after `evict` of the last entry if all slots are in use. At the end each entry has been
given to `evict` once. -/
theorem accessRun_recency {conf : Conf Key Ctx σ} {lru : Lru Key Ctx σ} (hinit : jfsLruInit conf = .ok lru)
    (hmem : InMemory conf.component) (mem : Bytes) (user : σ) (as : List (Key × Ctx)) (hh : HonestRun keyOf lru as) :
    (accessRun (initial lru mem user) as).ok = true ∧
    (∀ pre a post, as = pre ++ a :: post →
      Served keyOf (accessRun (initial lru mem user) pre).val (accessRun (initial lru mem user) (pre ++ [a])).val a.1 ∧
      Recent keyOf lru.mb.capacity.toNat (accessRun (initial lru mem user) (pre ++ [a])).val
        ((pre ++ [a]).map Prod.fst)) ∧
    (∀ k, life keyOf k (jfsLruFree (accessRun (initial lru mem user) as).val).calls = some none) ∧
    (broughtIn keyOf (jfsLruFree (accessRun (initial lru mem user) as).val).calls).Perm
      (evicted keyOf (jfsLruFree (accessRun (initial lru mem user) as).val).calls) := by
  have h₀ : Tracks keyOf (initial lru mem user) [] := (tracks_initial hinit hmem mem user).1
  obtain ⟨hok, h, -⟩ := h₀.run hh
  refine ⟨hok, ?_, h.free, perm_of_life h.free⟩
  intro pre a post has
  have hpre : HonestRun keyOf lru pre := ⟨hh.cmp, fun b hb => hh.access b (by simp [has, hb])⟩
  have hmid : HonestRun keyOf lru (pre ++ [a]) := by
    refine ⟨hh.cmp, fun b hb => hh.access b ?_⟩
    rw [has, List.append_cons]
    exact List.mem_append_left _ hb
  obtain ⟨-, h₁, c₁, hlru₁⟩ := h₀.run hpre
  obtain ⟨-, h₂, c₂, hlru₂⟩ := h₀.run hmid
  constructor
  · rw [accessRun_append]
    have ha := hh.access a (by simp [has])
    refine (jfsLruAccess_spec h₁.sound h₁.capacity_pos ?_ ?_).2
    · rw [hlru₁]
      exact hh.cmp
    · rw [hlru₁]
      exact ⟨ha.miss, ha.hit⟩
  · have hr := h₂.recent
    rw [hlru₂] at hr
    exact hr

/-- The callbacks of a cache of bytes: the entry of a key is the key, and that is also the
context of its accesses. -/
def byteFn : Fn UInt8 UInt8 Unit where
  cmp := fun k x => if x.head? = some k then 0 else 1
  hit := ⟨fun _ x w => (x, w), fun _ _ _ => rfl⟩
  miss := ⟨fun k x w => (x.set 0 k, w), fun _ _ _ => List.length_set⟩
  evict := ⟨fun _ x w => (x, w), fun _ _ _ => rfl⟩

/-- A cache of `n` bytes at address 4096. -/
def byteConf (n : UInt64) : Conf UInt8 UInt8 Unit where
  component := { ptr := 4096, desc := { size := 1, align := 1, count := n } }
  cmp := some byteFn.cmp
  hit := some byteFn.hit
  miss := some byteFn.miss
  evict := some byteFn.evict
  evictCtx := 0

/-- What `jfs_lru_init` makes of it. -/
def byteLru (n : UInt64) : Lru UInt8 UInt8 Unit where
  mb := { basePtr := 4096, objSize := 1, capacity := n }
  count := 0
  fn := byteFn
  evictCtx := 0

theorem byteLru_honest (n : UInt64) (keys : List UInt8) :
    HonestRun (fun x => x.headD 0) (byteLru n) (keys.map fun k => (k, k)) := by
  have hone : ∀ x : Slot, x.length = (byteLru n).mb.objSize.toNat → ∃ b, x = [b] := fun x hx =>
    List.length_eq_one_iff.mp hx
  refine ⟨fun k x hx => ?_, fun a ha => ⟨fun x w hx => ?_, fun x w hx hk => hk⟩⟩
  · obtain ⟨b, rfl⟩ := hone x hx
    simp [byteLru, byteFn]
  · obtain ⟨b, rfl⟩ := hone x hx
    obtain ⟨k, -, rfl⟩ := List.mem_map.mp ha
    rfl

/-- Two slots and three keys. -/
theorem accessRun_recency_bytes :
    jfsLruInit (byteConf 2) = .ok (byteLru 2) ∧
    (accessRun (initial (byteLru 2) 0 ()) ([1, 2, 1, 3].map fun k => (k, k))).ok = true ∧
    (∀ pre a post, ([1, 2, 1, 3].map fun k => (k, k)) = pre ++ a :: post →
      Served (fun x => x.headD 0) (accessRun (initial (byteLru 2) 0 ()) pre).val
        (accessRun (initial (byteLru 2) 0 ()) (pre ++ [a])).val a.1 ∧
      Recent (fun x => x.headD 0) 2 (accessRun (initial (byteLru 2) 0 ()) (pre ++ [a])).val
        ((pre ++ [a]).map Prod.fst)) := by
  have hinit : jfsLruInit (byteConf 2) = .ok (byteLru 2) := rfl
  obtain ⟨hok, hstep, -⟩ := accessRun_recency hinit (by decide) 0 () _ (byteLru_honest 2 [1, 2, 1, 3])
  exact ⟨hinit, hok, hstep⟩

end FileSync.LruCache
