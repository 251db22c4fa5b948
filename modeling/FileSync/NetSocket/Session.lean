import FileSync.NetSocket.Resources

/-!
# The server and the daemon together

The two programs run side by side, each taking a step when one of its system calls
returns, in any order. What the system calls return depends on the other side: `connect`
succeeds once the server listens, `accept` once the daemon has connected, `recv` gives
what the other side has sent, or 0 once that has been read and the other side has shut
down or closed its end. Of what is sent no more than `cap` bytes are on their way.
Any of them may also be interrupted or fail.

The records are `struct test_data`, whose bytes are what is sent.
-/

namespace FileSync.NetSocket

/-! ### The connection -/

/-- One direction of the connection. -/
structure Chan where
  /-- The bytes that have entered it. -/
  wire : List UInt8
  /-- How many of them have been delivered. -/
  taken : ℕ
  /-- No more will enter. -/
  fin : Bool
  deriving DecidableEq

namespace Chan

/-- `send` accepts `k` bytes of a buffer, after `total` of them. -/
def put (c : Chan) (cap : ℕ) (buf : List UInt8) (total k : ℕ) : Option Chan :=
  if 0 < k ∧ total + k ≤ buf.length ∧ c.wire.length + k ≤ c.taken + cap then
    some { c with wire := c.wire ++ (buf.drop total).take k }
  else none

/-- `recv` delivers bytes into a buffer with some room, or the end of the stream. -/
def get (c : Chan) (room : ℕ) (bs : List UInt8) : Option Chan :=
  if bs = [] then
    if c.fin ∧ c.taken = c.wire.length then some c else none
  else if bs.length ≤ room ∧ bs = (c.wire.drop c.taken).take bs.length then
    some { c with taken := c.taken + bs.length }
  else none

end Chan

/-- What the return of a system call does to what goes out and what comes in, if it can return so. -/
def Proc.exchange (cap : ℕ) (buf : List UInt8) (p : Proc) (o i : Chan) : Stmt → Answer → Option (Chan × Chan)
  | .send _, .sent (.ok k) => (o.put cap buf (p.total.getD 0).toNat k.toNat).map fun o => (o, i)
  | .recv _, .received (.ok bs) | .drain _, .received (.ok bs) =>
    (i.get (sizeofTestData - (p.total.getD 0).toNat) bs).map fun i => (o, i)
  | .shutdown _, .status (.ok _) => some ({ o with fin := true }, i)
  -- the other side sees the end of the stream when the descriptor is closed
  | .close .client, _ | .destroy .client, _ => some ({ o with fin := o.fin || p.client.shape = .opened }, i)
  | _, _ => some (o, i)

/-- The two sides. -/
inductive Party where
  | server
  | daemon
  deriving DecidableEq, Repr

/-- The two programs and what is between them. -/
structure Session where
  server : Proc
  daemon : Proc
  /-- The server listens. -/
  listening : Bool
  /-- The daemon has connected. -/
  connected : Bool
  toServer : Chan
  toDaemon : Chan
  deriving DecidableEq

/-- What the two sides send. -/
structure Records where
  server : TestData
  daemon : TestData

namespace Session

/-- The state of a side. -/
def proc (s : Session) : Party → Proc
  | .server => s.server
  | .daemon => s.daemon

/-- Its program. -/
def program (d : Records) : Party → Program
  | .server => serverRun d.server
  | .daemon => daemonRun d.daemon

/-- What goes out from a side. -/
def out (s : Session) : Party → Chan
  | .server => s.toDaemon
  | .daemon => s.toServer

/-- What comes in. -/
def inc (s : Session) : Party → Chan
  | .server => s.toServer
  | .daemon => s.toDaemon

def setOut (s : Session) (c : Chan) : Party → Session
  | .server => { s with toDaemon := c }
  | .daemon => { s with toServer := c }

def setInc (s : Session) (c : Chan) : Party → Session
  | .server => { s with toServer := c }
  | .daemon => { s with toDaemon := c }

def setProc (s : Session) (p : Proc) : Party → Session
  | .server => { s with server := p }
  | .daemon => { s with daemon := p }

/-- What the return of a system call does to the making of the connection, if it can return so. -/
def meet (s : Session) : Stmt → Answer → Option Session
  | .listen _, .status (.ok _) => some { s with listening := true }
  | .connect _, .status (.ok _) => if s.listening then some { s with connected := true } else none
  | .accept _ _, .accepted (.ok _) => if s.connected then some s else none
  | _, _ => some s

/-- A step of one side. -/
def step (cap : ℕ) (d : Records) (s : Session) (x : Party) (a : Answer) : Option Session := do
  let p := s.proc x
  let p' ← p.step (program d x) a
  let (o, i) ← p.exchange cap (program d x).data.bytes (s.out x) (s.inc x) (p.stmt (program d x)) a
  let s' ← s.meet (p.stmt (program d x)) a
  return ((s'.setOut o x).setInc i x).setProc p' x

/-- A run. -/
def run (cap : ℕ) (d : Records) : Session → List (Party × Answer) → Option Session
  | s, [] => some s
  | s, e :: es => (s.step cap d e.1 e.2).bind fun s' => run cap d s' es

/-- Both programs start. -/
def initial : Session where
  server := .start .ok
  daemon := .start .ok
  listening := false
  connected := false
  toServer := ⟨[], 0, false⟩
  toDaemon := ⟨[], 0, false⟩

end Session

/-! ### The records -/

/-- The text of a record ends where its `NUL` is, and there is room for it. -/
structure TestData.Fits (d : TestData) : Prop where
  nul : 0 ∉ d.str
  room : d.str.length < strSize

theorem readInt_intBytes (n : Int32) : readInt (intBytes n) = n := by
  have hlt : n.toUInt32.toNat < 256 ^ 4 := n.toUInt32.toNat_lt
  rw [readInt, intBytes, Lib.leNat_leBytes, Nat.mod_eq_of_lt hlt, UInt32.ofNat_toNat, Int32.toInt32_toUInt32]

theorem TestData.Fits.length_bytes {d : TestData} (h : d.Fits) : d.bytes.length = sizeofTestData := by
  have hroom := h.room
  simp only [TestData.bytes, intBytes, List.length_append, Lib.length_leBytes, List.length_replicate, sizeofTestData]
  omega

/-- What `print_test_data` reads is what was sent. -/
theorem readTestData_bytes {d : TestData} (h : d.Fits) : readTestData d.bytes = d := by
  obtain ⟨n, hn⟩ : ∃ n, strSize - d.str.length = n + 1 := ⟨strSize - d.str.length - 1, by have := h.room; omega⟩
  have hlen : ∀ n, (intBytes n).length = 4 := fun n => by simp [intBytes]
  have hdrop : ∀ n k, 4 ≤ k → (intBytes n).drop k = [] :=
    fun n k hk => List.drop_eq_nil_of_le (by rw [hlen]; exact hk)
  have hnul := h.nul
  rcases d with ⟨a, b, c, str⟩
  simp only [readTestData, TestData.bytes, TestData.mk.injEq] at hn hnul ⊢
  rw [hn, List.replicate_succ]
  simp [List.drop_append, hlen, hdrop, readInt_intBytes, Lib.stringAt_append hnul]

end FileSync.NetSocket
