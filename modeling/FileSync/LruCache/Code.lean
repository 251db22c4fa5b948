import FileSync.Lib.Checked
import FileSync.MemoryBlock

/-!
# The LRU cache

`lru_cache.c`: entries in the slots of a memory block, the most recently used one in
slot 0. An access looks for its key in the slots, one after another, and calls `hit` on
the slot it finds; otherwise it takes a slot, after `evict` if none is free, and calls
`miss` to fill it. The slot is then promoted: the ones before it move up by one, and it
becomes slot 0.

A callback gets a slot and a context. It may write to the slot and nowhere else in the
block, and it may read and change a state of the user's that the cache does not see.
Each call is recorded, with the contents of the slot before and after it.
-/

namespace FileSync.LruCache

open FileSync.Lib FileSync.MemoryLayout FileSync.MemoryBlock

/-- The bytes of a slot. -/
abbrev Slot := List UInt8

/-- `jfs_lru_slot_fn`, over contexts `Ctx` and a state `σ` of the user's. -/
structure SlotFn (Ctx σ : Type) where
  /-- The new contents of the slot, and the new state. -/
  run : Ctx → Slot → σ → Slot × σ
  /-- A slot keeps its size. -/
  length_run : ∀ ctx s w, (run ctx s w).1.length = s.length

/-- `jfs_lru_fn_t`. -/
structure Fn (Key Ctx σ : Type) where
  /-- Compares a key with a slot. -/
  cmp : Key → Slot → Int
  /-- Called on the slot of a key that has been found. -/
  hit : SlotFn Ctx σ
  /-- Called on a slot to fill it. -/
  miss : SlotFn Ctx σ
  /-- Called on a slot before it is given up. -/
  evict : SlotFn Ctx σ

/-- `jfs_lru_conf_t`. The functions are pointers that may be `NULL`. -/
structure Conf (Key Ctx σ : Type) where
  /-- Where the slots are. -/
  component : Component
  /-- The comparison. -/
  cmp : Option (Key → Slot → Int)
  /-- The callback for a hit. -/
  hit : Option (SlotFn Ctx σ)
  /-- The callback for a miss. -/
  miss : Option (SlotFn Ctx σ)
  /-- The callback for an eviction. -/
  evict : Option (SlotFn Ctx σ)
  /-- The context of `evict`. -/
  evictCtx : Ctx

/-- `jfs_lru_t`. -/
structure Lru (Key Ctx σ : Type) where
  /-- The slots. -/
  mb : Mb
  /-- How many of them have an entry. -/
  count : UInt64
  /-- The callbacks. -/
  fn : Fn Key Ctx σ
  /-- The context of `evict`. -/
  evictCtx : Ctx

/-- The callbacks. -/
inductive CallKind where
  | hit
  | miss
  | evict
  deriving DecidableEq, Repr

/-- A call of a callback. -/
structure Call where
  /-- Which callback. -/
  kind : CallKind
  /-- The slot. -/
  slot : Addr
  /-- Its contents before the call. -/
  before : Slot
  /-- Its contents after it. -/
  after : Slot
  deriving DecidableEq, Repr

/-- The cache, the memory, the state of the user's, and the calls so far. -/
structure State (Key Ctx σ : Type) where
  /-- The cache. -/
  lru : Lru Key Ctx σ
  /-- The memory. -/
  mem : Bytes
  /-- The user's state. -/
  user : σ
  /-- The calls, in order. -/
  calls : List Call

variable {Key Ctx σ : Type}

/-- `jfs_lru_make_desc`. -/
def jfsLruMakeDesc (objSize objAlign objCount : UInt64) : Except JfsErr Desc :=
  let desc : Desc := { align := objAlign, size := objSize, count := objCount + 1 }
  if !jfsMlgValidDesc desc then .error .arg else .ok desc

/-- `lru_valid_fn`: the functions, if none of them is `NULL`. -/
def lruValidFn (conf : Conf Key Ctx σ) : Option (Fn Key Ctx σ) := do
  return { cmp := ← conf.cmp, evict := ← conf.evict, hit := ← conf.hit, miss := ← conf.miss }

/-- `jfs_lru_init`. -/
def jfsLruInit (conf : Conf Key Ctx σ) : Except JfsErr (Lru Key Ctx σ) :=
  match lruValidFn conf with
  | none => .error .badConf
  | some fn =>
    match jfsMbInit conf.component with
    | .error e => .error e
    | .ok mb => .ok { mb := mb, count := 0, fn := fn, evictCtx := conf.evictCtx }

/-- Call a callback on a slot. -/
def callSlot (kind : CallKind) (f : SlotFn Ctx σ) (slot : Addr) (ctx : Ctx) (s : State Key Ctx σ) : State Key Ctx σ :=
  let before := load s.mem slot s.lru.mb.objSize.toNat
  let (after, user) := f.run ctx before s.user
  { s with mem := store s.mem slot after, user := user, calls := s.calls ++ [⟨kind, slot, before, after⟩] }

/-- `lru_promote`. -/
def lruPromote (s : State Key Ctx σ) (index : UInt64) : State Key Ctx σ :=
  let tempSlot := jfsMbRead s.mem s.lru.mb index
  let mem := jfsMbRemap s.mem s.lru.mb 1 0 index
  { s with mem := jfsMbWrite mem s.lru.mb tempSlot 0 }

/-- The loop of `jfs_lru_access`: the first of `n` slots from `i` on that has the key. -/
def lruFind (s : State Key Ctx σ) (key : Key) : ℕ → UInt64 → Option UInt64
  | 0, _ => none
  | n + 1, i => if s.lru.fn.cmp key (jfsMbRead s.mem s.lru.mb i) = 0 then some i else lruFind s key n (i + 1)

/-- `jfs_lru_access`. -/
def jfsLruAccess (s : State Key Ctx σ) (key : Key) (userCtx : Ctx) : Checked (State Key Ctx σ) :=
  match lruFind s key s.lru.count.toNat 0 with
  | some i =>
    let s := callSlot .hit s.lru.fn.hit (jfsMbIndex s.lru.mb i) userCtx s
    return if i ≠ 0 then lruPromote s i else s
  | none => do
    let (slot, s) ←
      if s.lru.count < s.lru.mb.capacity then
        pure (jfsMbIndex s.lru.mb s.lru.count, { s with lru := { s.lru with count := s.lru.count + 1 } })
      else do
        Checked.assert (s.lru.count == s.lru.mb.capacity)
        let slot := jfsMbIndex s.lru.mb (s.lru.count - 1)
        pure (slot, callSlot .evict s.lru.fn.evict slot s.lru.evictCtx s)
    let s := callSlot .miss s.lru.fn.miss slot userCtx s
    return lruPromote s (s.lru.count - 1)

/-- The loop of `jfs_lru_free` over `n` slots from `i` on. -/
def evictFrom (s : State Key Ctx σ) : ℕ → UInt64 → State Key Ctx σ
  | 0, _ => s
  | n + 1, i => evictFrom (callSlot .evict s.lru.fn.evict (jfsMbIndex s.lru.mb i) s.lru.evictCtx s) n (i + 1)

/-- `jfs_lru_free`. -/
def jfsLruFree (s : State Key Ctx σ) : State Key Ctx σ := evictFrom s s.lru.count.toNat 0

/-- A sequence of calls of `jfs_lru_access`. -/
def accessRun (s : State Key Ctx σ) : List (Key × Ctx) → Checked (State Key Ctx σ)
  | [] => return s
  | (key, userCtx) :: rest => do
    let s ← jfsLruAccess s key userCtx
    accessRun s rest

end FileSync.LruCache
