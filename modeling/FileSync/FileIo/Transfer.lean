import FileSync.Error
import FileSync.Lib.Bytes
import FileSync.Lib.Loop

/-!
# Reading and writing

`jfs_fio_write` and `jfs_fio_read` of `file_io.c`, over `jfs_write` and `jfs_read` of
`error.c`: loops around a system call that may transfer a part of what is asked for, be
interrupted, or fail. The calls are numbered, and a schedule says what each of them
does. The totals are natural numbers, since they do not exceed the size.

A call that is interrupted sets `*err` to `JFS_ERR_INTER`, and a call that succeeds leaves
`*err` as it is. The loops go round again without resetting it, so after one interruption
every later transfer is thrown away and the loop never ends. They do what they should
exactly if no call is interrupted (`writesAll_iff`, `readsAll_iff`).
-/

namespace FileSync.FileIo

open FileSync.Lib

/-- `EINTR`. -/
def EINTR : ℕ := 4

/-- `EAGAIN`. -/
def EAGAIN : ℕ := 11

/-- `EPIPE`. -/
def EPIPE : ℕ := 32

/-- What the system calls do, one after another: transfer that many bytes, or as many as
they can if these are fewer, or fail with an `errno`. -/
abbrev Schedule := ℕ → Except ℕ ℕ

/-- `jfs_read`: the value, and the error. -/
def jfsRead (err : JfsErr) : Except ℕ ℕ → ℕ × JfsErr
  | .ok status => (status, err)
  | .error errno => (0, if errno = EAGAIN then .again else if errno = EINTR then .inter else .sys)

/-- `jfs_write`: the value, and the error. -/
def jfsWrite (err : JfsErr) : Except ℕ ℕ → ℕ × JfsErr
  | .ok status => (status, err)
  | .error errno =>
    (0, if errno = EAGAIN then .again else if errno = EINTR then .inter else if errno = EPIPE then .pipe else .sys)

/-- A call of `jfs_fio_write`. -/
structure Writing where
  /-- `total_written`, which is what is returned. -/
  totalWritten : ℕ
  /-- `*err`. -/
  err : JfsErr
  /-- The number of calls of `write` so far. -/
  calls : ℕ
  /-- The bytes that have reached the descriptor. -/
  sink : List UInt8
  deriving DecidableEq, Repr

/-- A turn of the loop of `jfs_fio_write`. -/
def writeTurn (sched : Schedule) (m : Bytes) (buf size : UInt64) (s : Writing) : Turn Writing Writing :=
  if s.totalWritten < size.toNat then
    let status := (sched s.calls).map fun k => min k (size.toNat - s.totalWritten)
    let (written, err) := jfsWrite s.err status
    let s := { s with
      err := err
      calls := s.calls + 1
      sink := s.sink ++ load m (buf + UInt64.ofNat s.totalWritten) written }
    if err = .inter then .again s
    else if err ≠ .ok then .leave s
    else .again { s with totalWritten := s.totalWritten + written }
  else .leave s

/-- `jfs_fio_write`, for at most `fuel` turns of its loop. -/
def jfsFioWrite (fuel : ℕ) (sched : Schedule) (m : Bytes) (buf size : UInt64) (err : JfsErr) : Option Writing :=
  loop (writeTurn sched m buf size) fuel { totalWritten := 0, err := err, calls := 0, sink := [] }

/-- A call of `jfs_fio_read`. -/
structure Reading where
  /-- `total_read`, which is what is returned. -/
  totalRead : ℕ
  /-- `*err`. -/
  err : JfsErr
  /-- The number of calls of `read` so far. -/
  calls : ℕ
  /-- The memory. -/
  mem : Bytes
  /-- How many bytes have been taken from the source. -/
  taken : ℕ

/-- A turn of the loop of `jfs_fio_read`. At the end of the source `read` returns 0. -/
def readTurn (sched : Schedule) (source : List UInt8) (buf size : UInt64) (s : Reading) : Turn Reading Reading :=
  if s.totalRead < size.toNat then
    let status := (sched s.calls).map fun k => min k (min (size.toNat - s.totalRead) (source.length - s.taken))
    let (read, err) := jfsRead s.err status
    let s := { s with
      err := err
      calls := s.calls + 1
      mem := store s.mem (buf + UInt64.ofNat s.totalRead) ((source.drop s.taken).take read)
      taken := s.taken + read }
    if err = .inter then .again s
    else if err ≠ .ok then .leave s
    else if read = 0 then .leave { s with err := .fioFileEnd }
    else .again { s with totalRead := s.totalRead + read }
  else .leave s

/-- `jfs_fio_read`, for at most `fuel` turns of its loop. -/
def jfsFioRead (fuel : ℕ) (sched : Schedule) (source : List UInt8) (m : Bytes) (buf size : UInt64) (err : JfsErr) :
    Option Reading :=
  loop (readTurn sched source buf size) fuel { totalRead := 0, err := err, calls := 0, mem := m, taken := 0 }

/-! ### Schedules -/

/-- **The schedules of partial transfers and interruptions**: a call transfers at least one
byte, or fails with `EINTR`. -/
structure Partial (sched : Schedule) : Prop where
  pos : ∀ i k, sched i = .ok k → 0 < k
  intr : ∀ i errno, sched i = .error errno → errno = EINTR

/-- The bytes that a call can transfer. -/
def amount : Except ℕ ℕ → ℕ
  | .ok k => k
  | .error _ => 0

/-- The bytes that the first `i` calls can transfer. -/
def offered (sched : Schedule) (i : ℕ) : ℕ := ((List.range i).map fun j => amount (sched j)).sum

theorem offered_succ (sched : Schedule) (i : ℕ) : offered sched (i + 1) = offered sched i + amount (sched i) := by
  simp [offered, List.range_succ]

theorem offered_mono (sched : Schedule) {i j : ℕ} (h : i ≤ j) : offered sched i ≤ offered sched j := by
  induction j, h using Nat.le_induction with
  | base => exact Nat.le_refl _
  | succ j _ ih =>
    rw [offered_succ]
    omega

variable {sched : Schedule} {source : List UInt8} {m : Bytes} {buf size : UInt64}

/-! ### Writing -/

/-- **What `jfs_fio_write` should do**: it ends, and returns the size without an error, and the
bytes of the buffer have reached the descriptor once and in order. -/
def WritesAll (sched : Schedule) (m : Bytes) (buf size : UInt64) : Prop :=
  ∃ fuel r, jfsFioWrite fuel sched m buf size .ok = some r ∧ r.totalWritten = size.toNat ∧ r.err = .ok ∧
    r.sink = load m buf size.toNat

/-- A call of `write` that succeeds, with no error before it. -/
theorem writeTurn_ok {s : Writing} {k : ℕ} (hlt : s.totalWritten < size.toNat) (herr : s.err = .ok)
    (hk : sched s.calls = .ok k) : writeTurn sched m buf size s = .again
      { totalWritten := s.totalWritten + min k (size.toNat - s.totalWritten)
        err := .ok
        calls := s.calls + 1
        sink := s.sink ++
          load m (buf + UInt64.ofNat s.totalWritten) (min k (size.toNat - s.totalWritten)) } := by
  simp [writeTurn, hlt, herr, hk, Except.map, jfsWrite]

/-- A call that is interrupted, or any call after that: nothing is counted, and the error
stays. -/
theorem writeTurn_inter (m : Bytes) (buf : UInt64) {s : Writing} (hsched : Partial sched) (hlt : s.totalWritten < size.toNat)
    (h : s.err = .inter ∨ sched s.calls = .error EINTR) : ∃ s', writeTurn sched m buf size s = .again s' ∧
      s'.totalWritten = s.totalWritten ∧ s'.err = .inter := by
  have herr : (jfsWrite s.err ((sched s.calls).map fun k => min k (size.toNat - s.totalWritten))).2 = .inter := by
    cases hk : sched s.calls with
    | error errno =>
      rw [hsched.intr _ _ hk]
      rfl
    | ok k => exact h.resolve_right (by simp [hk])
  unfold writeTurn
  rw [if_pos hlt]
  simp only [herr, if_true]
  exact ⟨_, rfl, rfl, rfl⟩

/-- **An interruption before everything has been written**: the loop does not end. -/
theorem fioWrite_stuck (hsched : Partial sched) {i : ℕ} (hi : sched i = .error EINTR)
    (hlt : offered sched i < size.toNat) (fuel : ℕ) : jfsFioWrite fuel sched m buf size .ok = none := by
  -- until the call `i` the error is `JFS_OK`, and at most what was offered has been written
  refine loop_eq_none (J := fun s => s.totalWritten < size.toNat ∧
    (s.err = .inter ∨ s.err = .ok ∧ s.calls ≤ i ∧ s.totalWritten ≤ offered sched s.calls)) ?_ ?_ fuel
  · rintro s ⟨htotal, hcase⟩
    by_cases hinter : s.err = .inter ∨ sched s.calls = .error EINTR
    · obtain ⟨s', hturn, htotal', herr⟩ := writeTurn_inter m buf hsched htotal hinter
      exact ⟨s', hturn, htotal'.symm ▸ htotal, .inl herr⟩
    · obtain ⟨hne, hcall⟩ := not_or.mp hinter
      obtain ⟨herr, hcalls, hle⟩ := hcase.resolve_left hne
      have hlt' : s.calls < i := Nat.lt_of_le_of_ne hcalls fun e => hcall (e ▸ hi)
      cases hk : sched s.calls with
      | error errno =>
        rw [hsched.intr _ _ hk] at hk
        exact absurd hk hcall
      | ok k =>
        have hnext := offered_succ sched s.calls
        rw [hk, amount] at hnext
        have hbound : offered sched (s.calls + 1) ≤ offered sched i := offered_mono sched hlt'
        refine ⟨_, writeTurn_ok htotal herr hk, ?_, .inr ⟨rfl, hlt', ?_⟩⟩
        · show s.totalWritten + _ < _
          omega
        · show s.totalWritten + _ ≤ offered sched (s.calls + 1)
          omega
  · exact ⟨Nat.zero_lt_of_lt hlt, .inr ⟨rfl, Nat.zero_le i, Nat.zero_le _⟩⟩

/-- Without an interruption so far: what has been written is what was offered, up to the size,
and `n` bytes are left. -/
structure Writing.Exact (sched : Schedule) (m : Bytes) (buf size : UInt64) (n : ℕ) (s : Writing) : Prop where
  err : s.err = .ok
  total : s.totalWritten = min (offered sched s.calls) size.toNat
  sink : s.sink = load m buf s.totalWritten
  left : n = size.toNat - s.totalWritten

theorem writeTurn_exact (hsched : Partial sched) (hintr : ∀ i, sched i = .error EINTR → size.toNat ≤ offered sched i)
    (n : ℕ) (s : Writing) (h : s.Exact sched m buf size n) :
    TurnOk (Writing.Exact sched m buf size)
      (fun r => r.totalWritten = size.toNat ∧ r.err = .ok ∧ r.sink = load m buf size.toNat) n
      (writeTurn sched m buf size s) := by
  obtain ⟨herr, htotal, hsink, hleft⟩ := h
  by_cases hlt : s.totalWritten < size.toNat
  · cases hk : sched s.calls with
    | error errno =>
      rw [hsched.intr _ _ hk] at hk
      have hoffered := hintr _ hk
      omega
    | ok k =>
      have hpos := hsched.pos _ _ hk
      have hnext := offered_succ sched s.calls
      rw [hk, amount] at hnext
      rw [writeTurn_ok hlt herr hk]
      refine ⟨_, ?_, rfl, ?_, ?_, rfl⟩
      · show size.toNat - (s.totalWritten + _) < n
        omega
      · show s.totalWritten + _ = min (offered sched (s.calls + 1)) _
        omega
      · rw [hsink, ← load_add]
  · rw [writeTurn, if_neg hlt]
    have hall : s.totalWritten = size.toNat := by omega
    exact ⟨hall, herr, hall ▸ hsink⟩

/-- **When `jfs_fio_write` writes its buffer**: for every buffer, every size and every schedule of
partial writes and interruptions, exactly if no call is interrupted before the calls
have been offered the whole buffer. -/
theorem writesAll_iff (hsched : Partial sched) : WritesAll sched m buf size ↔
    ∀ i, sched i = .error EINTR → size.toNat ≤ offered sched i := by
  constructor
  · rintro ⟨fuel, r, hr, -⟩ i hi
    by_contra hlt
    rw [fioWrite_stuck hsched hi (Nat.lt_of_not_le hlt)] at hr
    cases hr
  · intro hintr
    have hstart : Writing.Exact sched m buf size size.toNat ⟨0, .ok, 0, []⟩ := ⟨rfl, by simp [offered], rfl, rfl⟩
    obtain ⟨r, hr, hwritten⟩ := loop_of_bound (writeTurn_exact hsched hintr) hstart (Nat.lt_succ_self _)
    exact ⟨_, r, hr, hwritten⟩

/-- One byte at a time, without an interruption. -/
def byteByByte : Schedule := fun _ => .ok 1

/-- One byte at a time, but the first call is interrupted. -/
def interruptedOnce : Schedule := fun i => if i = 0 then .error EINTR else .ok 1

theorem byteByByte_valid : Partial byteByByte := ⟨fun _ _ h => Except.ok.inj h ▸ Nat.one_pos, fun _ _ h => by cases h⟩

theorem interruptedOnce_valid : Partial interruptedOnce := by
  constructor
  · intro i k h
    unfold interruptedOnce at h
    split_ifs at h
    exact Except.ok.inj h ▸ Nat.one_pos
  · intro i errno h
    unfold interruptedOnce at h
    split_ifs at h
    exact (Except.error.inj h).symm

theorem writesAll_byteByByte : WritesAll byteByByte (fun _ => 7) 4096 3 :=
  (writesAll_iff byteByByte_valid).mpr fun _ h => by cases h

/-- The first call is interrupted: nothing is ever counted. -/
theorem not_writesAll_interruptedOnce : Partial interruptedOnce ∧ (∀ i, interruptedOnce (i + 1) = .ok 1) ∧
    ¬ WritesAll interruptedOnce (fun _ => 7) 4096 3 := by
  refine ⟨interruptedOnce_valid, fun _ => rfl, ?_⟩
  rintro ⟨fuel, r, hr, -⟩
  rw [fioWrite_stuck interruptedOnce_valid (i := 0) rfl (by decide)] at hr
  cases hr

/-! ### Reading -/

/-- **What `jfs_fio_read` should do**: it ends; the bytes that it has taken from the source are
those that it has stored from the start of the buffer on, as many as it returns; and
it returns the size without an error, or the end of the source with
`JFS_ERR_FIO_FILE_END`. -/
def ReadsAll (sched : Schedule) (source : List UInt8) (m : Bytes) (buf size : UInt64) : Prop :=
  ∃ fuel r, jfsFioRead fuel sched source m buf size .ok = some r ∧ r.taken = r.totalRead ∧
    load r.mem buf r.totalRead = source.take r.totalRead ∧
      (r.totalRead = size.toNat ∧ r.err = .ok ∨
        r.totalRead < size.toNat ∧ r.totalRead = source.length ∧ r.err = .fioFileEnd)

/-- The bytes that a call of `read` gets that is not interrupted. -/
def Reading.gets (source : List UInt8) (size : UInt64) (s : Reading) (k : ℕ) : ℕ :=
  min k (min (size.toNat - s.totalRead) (source.length - s.taken))

/-- A call of `read` that succeeds, with no error before it. -/
theorem readTurn_ok {s : Reading} {k : ℕ} (hlt : s.totalRead < size.toNat) (herr : s.err = .ok)
    (hk : sched s.calls = .ok k) : readTurn sched source buf size s =
      let mem := store s.mem (buf + UInt64.ofNat s.totalRead) ((source.drop s.taken).take (s.gets source size k))
      if s.gets source size k = 0 then
        .leave ⟨s.totalRead, .fioFileEnd, s.calls + 1, mem, s.taken + s.gets source size k⟩
      else .again ⟨s.totalRead + s.gets source size k, .ok, s.calls + 1, mem, s.taken + s.gets source size k⟩ := by
  simp [readTurn, hlt, herr, hk, Except.map, jfsRead, Reading.gets]

/-- A call that is interrupted, or any call after that: nothing is counted, and the error
stays. -/
theorem readTurn_inter (source : List UInt8) (buf : UInt64) {s : Reading} (hsched : Partial sched) (hlt : s.totalRead < size.toNat)
    (h : s.err = .inter ∨ sched s.calls = .error EINTR) : ∃ s', readTurn sched source buf size s = .again s' ∧
      s'.totalRead = s.totalRead ∧ s'.err = .inter := by
  have herr : (jfsRead s.err ((sched s.calls).map (s.gets source size))).2 = .inter := by
    cases hk : sched s.calls with
    | error errno =>
      rw [hsched.intr _ _ hk]
      rfl
    | ok k => exact h.resolve_right (by simp [hk])
  unfold Reading.gets at herr
  unfold readTurn
  rw [if_pos hlt]
  simp only [herr, if_true]
  exact ⟨_, rfl, rfl, rfl⟩

/-- The interruption of the call `i` comes too late to do harm: the buffer is full by then, or
an earlier call has found the end of the source. -/
def AfterEnd (sched : Schedule) (source : List UInt8) (size : UInt64) (i : ℕ) : Prop :=
  size.toNat ≤ source.length ∧ size.toNat ≤ offered sched i ∨ ∃ j < i, source.length ≤ offered sched j

/-- **An interruption that is not too late**: the loop does not end. -/
theorem fioRead_stuck (hsched : Partial sched) {i : ℕ} (hi : sched i = .error EINTR)
    (hlate : ¬ AfterEnd sched source size i) (fuel : ℕ) : jfsFioRead fuel sched source m buf size .ok = none := by
  obtain ⟨hsize, hend⟩ := not_or.mp hlate
  push Not at hend
  have hpos : 0 < size.toNat := by omega
  -- until the call `i` the error is `JFS_OK`, and the end of the source has not been found
  refine loop_eq_none (J := fun s => s.totalRead < size.toNat ∧ (s.err = .inter ∨ s.err = .ok ∧ s.calls ≤ i ∧
    s.totalRead ≤ offered sched s.calls ∧ s.totalRead ≤ source.length ∧ s.taken = s.totalRead)) ?_ ?_ fuel
  · rintro s ⟨htotal, hcase⟩
    by_cases hinter : s.err = .inter ∨ sched s.calls = .error EINTR
    · obtain ⟨s', hturn, htotal', herr⟩ := readTurn_inter source buf hsched htotal hinter
      exact ⟨s', hturn, htotal'.symm ▸ htotal, .inl herr⟩
    · obtain ⟨hne, hcall⟩ := not_or.mp hinter
      obtain ⟨herr, hcalls, hle, hsource, htaken⟩ := hcase.resolve_left hne
      have hlt : s.calls < i := Nat.lt_of_le_of_ne hcalls fun e => hcall (e ▸ hi)
      cases hk : sched s.calls with
      | error errno =>
        rw [hsched.intr _ _ hk] at hk
        exact absurd hk hcall
      | ok k =>
        have hnext := offered_succ sched s.calls
        rw [hk, amount] at hnext
        have hbound : offered sched (s.calls + 1) ≤ offered sched i := offered_mono sched hlt
        have hk0 := hsched.pos _ _ hk
        have hmore := hend _ hlt
        have hgets : s.gets source size k = min k (min (size.toNat - s.totalRead) (source.length - s.taken)) := rfl
        have hsome : s.gets source size k ≠ 0 := by omega
        rw [readTurn_ok htotal herr hk]
        simp only [if_neg hsome]
        refine ⟨_, rfl, ?_, .inr ⟨rfl, hlt, ?_, ?_, ?_⟩⟩
        · show s.totalRead + _ < _
          omega
        · show s.totalRead + _ ≤ offered sched (s.calls + 1)
          omega
        · show s.totalRead + _ ≤ _
          omega
        · show s.taken + _ = s.totalRead + _
          omega
  · exact ⟨hpos, .inr ⟨rfl, Nat.zero_le i, Nat.zero_le _, Nat.zero_le _, rfl⟩⟩

/-- Without an interruption so far: what has been read is what was offered, up to the size and
the end of the source, which no call has found, and `n` bytes are left. -/
structure Reading.Exact (sched : Schedule) (source : List UInt8) (buf size : UInt64) (n : ℕ) (s : Reading) :
    Prop where
  err : s.err = .ok
  total : s.totalRead = min (offered sched s.calls) (min size.toNat source.length)
  taken : s.taken = s.totalRead
  stored : load s.mem buf s.totalRead = source.take s.totalRead
  noEnd : ∀ j < s.calls, offered sched j < source.length
  left : n = size.toNat - s.totalRead

theorem readTurn_exact (hsched : Partial sched) (hintr : ∀ i, sched i = .error EINTR → AfterEnd sched source size i)
    (n : ℕ) (s : Reading) (h : s.Exact sched source buf size n) :
    TurnOk (Reading.Exact sched source buf size)
      (fun r => r.taken = r.totalRead ∧ load r.mem buf r.totalRead = source.take r.totalRead ∧
        (r.totalRead = size.toNat ∧ r.err = .ok ∨
          r.totalRead < size.toNat ∧ r.totalRead = source.length ∧ r.err = .fioFileEnd)) n
      (readTurn sched source buf size s) := by
  obtain ⟨herr, htotal, htaken, hstored, hnoEnd, hleft⟩ := h
  by_cases hlt : s.totalRead < size.toNat
  · cases hk : sched s.calls with
    | error errno =>
      rw [hsched.intr _ _ hk] at hk
      rcases hintr _ hk with ⟨h₁, h₂⟩ | ⟨j, hj, hend⟩
      · omega
      · have := hnoEnd j hj
        omega
    | ok k =>
      have hpos := hsched.pos _ _ hk
      have hnext := offered_succ sched s.calls
      rw [hk, amount] at hnext
      have hgets : s.gets source size k = min k (min (size.toNat - s.totalRead) (source.length - s.taken)) := rfl
      have hlen : ((source.drop s.taken).take (s.gets source size k)).length = s.gets source size k := by
        rw [List.length_take, List.length_drop]
        omega
      have hsize := size.toNat_lt
      have hfits : s.totalRead + ((source.drop s.taken).take (s.gets source size k)).length ≤ 2 ^ 64 := by omega
      have hload := load_store_append (m := s.mem) (p := buf) hfits
      rw [hlen, hstored, htaken, ← List.take_add] at hload
      rw [readTurn_ok hlt herr hk]
      by_cases hnone : s.gets source size k = 0
      · simp only [if_pos hnone]
        refine ⟨by rw [hnone]; exact htaken, ?_, .inr ⟨hlt, by show s.totalRead = _; omega, rfl⟩⟩
        rw [hnone] at hload ⊢
        rw [htaken]
        exact hload
      · simp only [if_neg hnone]
        refine ⟨_, ?_, rfl, ?_, ?_, ?_, ?_, rfl⟩
        · show size.toNat - (s.totalRead + _) < n
          omega
        · show s.totalRead + _ = min (offered sched (s.calls + 1)) _
          omega
        · show s.taken + _ = s.totalRead + _
          omega
        · rw [htaken]
          exact hload
        · intro j hj
          have hle := offered_mono sched (Nat.le_of_lt_succ hj)
          omega
  · rw [readTurn, if_neg hlt]
    exact ⟨htaken, hstored, .inl ⟨by omega, herr⟩⟩

/-- **When `jfs_fio_read` reads what there is**: for every source, every size and every schedule of
partial reads and interruptions, exactly if every interruption comes too late. -/
theorem readsAll_iff (hsched : Partial sched) : ReadsAll sched source m buf size ↔
    ∀ i, sched i = .error EINTR → AfterEnd sched source size i := by
  constructor
  · rintro ⟨fuel, r, hr, -⟩ i hi
    by_contra hlate
    rw [fioRead_stuck hsched hi hlate] at hr
    cases hr
  · intro hintr
    have hstart : Reading.Exact sched source buf size size.toNat ⟨0, .ok, 0, m, 0⟩ :=
      ⟨rfl, by simp [offered], rfl, rfl, fun j hj => absurd hj (Nat.not_lt_zero j), rfl⟩
    obtain ⟨r, hr, hread⟩ := loop_of_bound (readTurn_exact hsched hintr) hstart (Nat.lt_succ_self _)
    exact ⟨_, r, hr, hread⟩

/-- Two bytes are asked for, and there are three; or there is one. -/
theorem readsAll_byteByByte : ReadsAll byteByByte [1, 2, 3] (fun _ => 0) 4096 2 ∧
    ReadsAll byteByByte [1] (fun _ => 0) 4096 2 := by
  have hintr : ∀ i, byteByByte i ≠ .error EINTR := fun _ h => by cases h
  constructor
  · exact (readsAll_iff byteByByte_valid).mpr fun i h => absurd h (hintr i)
  · exact (readsAll_iff byteByByte_valid).mpr fun i h => absurd h (hintr i)

/-- The first call is interrupted: the bytes are read, and thrown away. -/
theorem not_readsAll_interruptedOnce : Partial interruptedOnce ∧ (∀ i, interruptedOnce (i + 1) = .ok 1) ∧
    ¬ ReadsAll interruptedOnce [1, 2, 3] (fun _ => 0) 4096 2 := by
  refine ⟨interruptedOnce_valid, fun _ => rfl, ?_⟩
  rintro ⟨fuel, r, hr, -⟩
  have hlate : ¬ AfterEnd interruptedOnce [1, 2, 3] 2 0 := by
    rintro (⟨-, h⟩ | ⟨j, hj, -⟩)
    · exact absurd h (by decide)
    · exact Nat.not_lt_zero j hj
  rw [fioRead_stuck interruptedOnce_valid (i := 0) rfl hlate] at hr
  cases hr

end FileSync.FileIo
