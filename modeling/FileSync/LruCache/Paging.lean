import FileSync.Lib.Paging
import FileSync.LruCache.Runs

/-!
# How often the cache misses

The calls of `miss` in a run are the accesses that `Lib.missed` says, so what holds of
keeping the most recent keys holds of the cache: a larger cache never misses more, and no other
cache, whatever it evicts, misses much less (`accessRun_competitive`).
-/

namespace FileSync.LruCache

open FileSync.Lib FileSync.MemoryLayout FileSync.MemoryBlock

variable {Key Ctx σ : Type} [DecidableEq Key] {keyOf : Slot → Key} {s s' : State Key Ctx σ} {key : Key} {ks : List Key}

omit [DecidableEq Key] in
theorem broughtIn_append (calls cs : List Call) :
    broughtIn keyOf (calls ++ cs) = broughtIn keyOf calls ++ broughtIn keyOf cs := by
  simp [broughtIn]

/-- The keys that an access brings in. -/
theorem broughtIn_of_served (h : Tracks keyOf s ks) (hs : Served keyOf s s' key) :
    broughtIn keyOf s'.calls =
      broughtIn keyOf s.calls ++ if key ∈ (recency ks).take s.lru.mb.capacity.toNat then [] else [key] := by
  rw [← h.keys]
  rcases hs.cases with ⟨xs, x, ys, y, he, hx, hy, he', hcalls⟩ | ⟨hkey, -, x, y, hy, he', hcalls⟩ |
    ⟨hkey, -, xs, last, x, y, he, hy, he', hcalls⟩
  · have hmem : key ∈ s.entries.map keyOf := by simp [he, hx]
    rw [hcalls, broughtIn_append, if_pos hmem]
    rfl
  · rw [hcalls, broughtIn_append, if_neg hkey]
    simp [broughtIn, hy]
  · rw [hcalls, broughtIn_append, if_neg hkey]
    simp [broughtIn, hy]

/-- The keys that a run brings in. -/
theorem Tracks.broughtIn_run {as : List (Key × Ctx)} (h : Tracks keyOf s ks) (hh : HonestRun keyOf s.lru as) :
    broughtIn keyOf (accessRun s as).val.calls =
      broughtIn keyOf s.calls ++ missed s.lru.mb.capacity.toNat ks (as.map Prod.fst) := by
  induction as generalizing s ks with
  | nil => simp [accessRun, missed]
  | cons a as ih =>
    obtain ⟨-, hs⟩ := jfsLruAccess_spec h.sound h.capacity_pos hh.cmp (hh.access a (by simp))
    obtain ⟨count, hlru⟩ := hs.lru
    have hh' : HonestRun keyOf (jfsLruAccess s a.1 a.2).val.lru as := by
      rw [hlru]
      exact ⟨hh.cmp, fun b hb => ⟨(hh.access b (by simp [hb])).miss, (hh.access b (by simp [hb])).hit⟩⟩
    have hrest := ih (h.served hs) hh'
    rw [hlru] at hrest
    rw [accessRun, Checked.val_bind, hrest, broughtIn_of_served h hs, List.map_cons, missed, List.append_assoc]

/-- The keys that a cache brings in from its initialisation on. -/
theorem broughtIn_accessRun {conf : Conf Key Ctx σ} {lru : Lru Key Ctx σ} (hinit : jfsLruInit conf = .ok lru)
    (hmem : InMemory conf.component) (mem : Bytes) (user : σ) {as : List (Key × Ctx)} (hh : HonestRun keyOf lru as) :
    broughtIn keyOf (accessRun (initial lru mem user) as).val.calls =
      missed lru.mb.capacity.toNat [] (as.map Prod.fst) :=
  (tracks_initial hinit hmem mem user).1.broughtIn_run hh

/-- **No other cache misses much less.** On any accesses, with `n` slots, the cache calls `miss` at
most `n / (n - m + 1)` times as often as any way to serve these accesses with `m ≤ n` slots, apart
from the `n` calls that fill it. The other one may evict what it likes, and may know all
accesses to come. -/
theorem accessRun_competitive {conf : Conf Key Ctx σ} {lru : Lru Key Ctx σ} (hinit : jfsLruInit conf = .ok lru)
    (hmem : InMemory conf.component) (mem : Bytes) (user : σ) {as : List (Key × Ctx)} (hh : HonestRun keyOf lru as)
    {m : ℕ} (hm : m ≤ lru.mb.capacity.toNat) {plan : List (Key × Finset Key)} (hplan : Serves m ∅ plan)
    (hkeys : plan.map Prod.fst = as.map Prod.fst) :
    (lru.mb.capacity.toNat + 1 - m) * (broughtIn keyOf (accessRun (initial lru mem user) as).val.calls).length ≤
      lru.mb.capacity.toNat * faults ∅ plan + (lru.mb.capacity.toNat + 1 - m) * lru.mb.capacity.toNat := by
  rw [broughtIn_accessRun hinit hmem mem user hh, ← hkeys]
  exact missed_competitive hm hplan

/-- Three keys in turn, and two slots. -/
def inTurn : List UInt8 := [1, 2, 3, 1, 2, 3]

/-- What another cache keeps: it misses four times. -/
def keptInTurn : List (UInt8 × Finset UInt8) :=
  [(1, {1}), (2, {1, 2}), (3, {1, 3}), (1, {1, 3}), (2, {2, 3}), (3, {2, 3})]

theorem accessRun_competitive_bytes :
    (broughtIn (fun x => x.headD 0) (accessRun (initial (byteLru 2) 0 ()) (inTurn.map fun k => (k, k))).val.calls).length ≤
      2 * faults ∅ keptInTurn + 2 := by
  have hinit : jfsLruInit (byteConf 2) = .ok (byteLru 2) := rfl
  have hserves : Serves 2 ∅ keptInTurn := by
    simp only [Serves, keptInTurn]
    decide
  have h := accessRun_competitive hinit (by decide) 0 () (byteLru_honest 2 inTurn) le_rfl hserves rfl
  have hcap : (byteLru 2).mb.capacity.toNat = 2 := rfl
  simpa [hcap] using h

/-- **A larger cache never misses more**: on the same accesses, the keys that it brings in are among
those that the smaller one brings in, in the same order. -/
theorem accessRun_larger {Ctx' σ' : Type} {keyOf' : Slot → Key} {conf : Conf Key Ctx σ} {lru : Lru Key Ctx σ}
    (hinit : jfsLruInit conf = .ok lru) (hmem : InMemory conf.component) (mem : Bytes) (user : σ)
    {conf' : Conf Key Ctx' σ'} {lru' : Lru Key Ctx' σ'} (hinit' : jfsLruInit conf' = .ok lru')
    (hmem' : InMemory conf'.component) (mem' : Bytes) (user' : σ') {as : List (Key × Ctx)} (hh : HonestRun keyOf lru as)
    {bs : List (Key × Ctx')} (hh' : HonestRun keyOf' lru' bs) (hkeys : as.map Prod.fst = bs.map Prod.fst)
    (hle : lru.mb.capacity ≤ lru'.mb.capacity) :
    (broughtIn keyOf' (accessRun (initial lru' mem' user') bs).val.calls).Sublist
      (broughtIn keyOf (accessRun (initial lru mem user) as).val.calls) := by
  rw [broughtIn_accessRun hinit hmem mem user hh, broughtIn_accessRun hinit' hmem' mem' user' hh', hkeys]
  exact missed_sublist (UInt64.le_iff_toNat_le.mp hle)

theorem accessRun_larger_bytes :
    (broughtIn (fun x => x.headD 0) (accessRun (initial (byteLru 3) 0 ()) (inTurn.map fun k => (k, k))).val.calls).Sublist
      (broughtIn (fun x => x.headD 0) (accessRun (initial (byteLru 2) 0 ()) (inTurn.map fun k => (k, k))).val.calls) := by
  have hinit : jfsLruInit (byteConf 2) = .ok (byteLru 2) := rfl
  have hinit' : jfsLruInit (byteConf 3) = .ok (byteLru 3) := rfl
  exact accessRun_larger hinit (by decide) 0 () hinit' (by decide) 0 () (byteLru_honest 2 inTurn)
    (byteLru_honest 3 inTurn) rfl (by decide)

end FileSync.LruCache
