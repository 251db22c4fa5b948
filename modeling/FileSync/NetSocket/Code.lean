import Mathlib.Algebra.Group.Nat.Defs
import Mathlib.Data.List.Basic
import FileSync.Error

/-!
# Sending and receiving

`jfs_ns_socket_send` and `jfs_ns_socket_recv` of `net_socket.c`, over `jfs_send` and
`jfs_recv` of `error.c`. Each is a loop around a system call that may transfer a part
of what is left of the buffer, be interrupted, or fail. A turn of the loop is a function
of what the system call returns.

Two peers are joined by a stream of bytes. One of them sends buffers, one call after
another, the other receives into buffers. A step of the system is the start of a call,
up to its first system call, or the return of a system call, with what follows up to the
next one. The steps of the peers may come in any order.
-/

namespace FileSync.NetSocket

/-- The values of `errno` that are told apart. -/
inductive Errno where
  | again
  | connReset
  | intr
  | pipe
  | other
  deriving DecidableEq, Repr

/-- What a system call returns: a number of bytes, or -1 with `errno` set. -/
abbrev Status := Except Errno UInt64

/-- `jfs_recv`: the value, and the error, that is `JFS_OK` on entry. -/
def jfsRecv : Status → UInt64 × JfsErr
  | .ok status => (status, .ok)
  | .error .again => (0, .again)
  | .error .intr => (0, .inter)
  | .error _ => (0, .sys)

/-- `jfs_send`: the value, and the error, that is `JFS_OK` on entry. -/
def jfsSend : Status → UInt64 × JfsErr
  | .ok status => (status, .ok)
  | .error .again => (0, .again)
  | .error .connReset => (0, .connectionReset)
  | .error .intr => (0, .inter)
  | .error .pipe => (0, .pipe)
  | .error .other => (0, .sys)

/-- How a turn of a loop ends. -/
inductive Next where
  /-- With another system call, after `total` bytes. -/
  | again (total : UInt64)
  /-- The function returns. -/
  | ret (value : UInt64) (err : JfsErr)
  deriving DecidableEq, Repr

/-- The head of both loops, and the `return` after them. -/
def loopHead (bufSize total : UInt64) : Next := if total < bufSize then .again total else .ret total .ok

/-- A turn of the loop of `jfs_ns_socket_recv`. -/
def recvTurn (bufSize totalReceived : UInt64) (status : Status) : Next :=
  let (sizeReceived, err) := jfsRecv status
  if err = .inter then loopHead bufSize totalReceived
  else if err ≠ .ok then .ret totalReceived err
  else if sizeReceived = 0 then .ret totalReceived .nsConnectionClose
  else loopHead bufSize (totalReceived + sizeReceived)

/-- A turn of the loop of `jfs_ns_socket_send`. -/
def sendTurn (bufSize totalSent : UInt64) (status : Status) : Next :=
  let (sizeSent, err) := jfsSend status
  if err = .inter then loopHead bufSize totalSent
  else if err ≠ .ok then .ret totalSent err
  else loopHead bufSize (totalSent + sizeSent)

/-! ### The peers -/

/-- A call in its loop. -/
structure Running where
  /-- The buffer on entry. -/
  entry : List UInt8
  /-- The buffer now. -/
  buf : List UInt8
  /-- `total_sent` or `total_received`. -/
  total : UInt64
  deriving DecidableEq

/-- A call that has returned. -/
structure Done where
  /-- The buffer on entry. -/
  entry : List UInt8
  /-- The buffer on return. -/
  buf : List UInt8
  /-- The value. -/
  value : UInt64
  /-- The error. -/
  err : JfsErr
  deriving DecidableEq

/-- A peer: the buffers of the calls to come, the call it is in, and the calls that have
returned. -/
structure Peer where
  todo : List (List UInt8)
  running : Option Running
  done : List Done
  deriving DecidableEq

/-- Go on with the call, or return from it. -/
def Peer.settle (p : Peer) (entry buf : List UInt8) : Next → Peer
  | .again total => { p with running := some ⟨entry, buf, total⟩ }
  | .ret value err => { p with running := none, done := p.done ++ [⟨entry, buf, value, err⟩] }

/-- The size of a buffer, as it is passed to the functions. -/
def sizeOf (buf : List UInt8) : UInt64 := UInt64.ofNat buf.length

/-- Start the next call, with `total` 0. -/
def Peer.call (p : Peer) : Option Peer :=
  match p.running, p.todo with
  | none, buf :: rest => some ({ p with todo := rest }.settle buf buf (loopHead (sizeOf buf) 0))
  | _, _ => none

/-! ### The system -/

/-- The two peers and the stream: the bytes that have entered it, and how many of them have
been delivered. -/
structure System where
  sender : Peer
  receiver : Peer
  wire : List UInt8
  taken : ℕ
  deriving DecidableEq

/-- A step. -/
inductive Event where
  /-- The sender calls `jfs_ns_socket_send` for the next buffer. -/
  | sendCall
  /-- Its `send` returns. -/
  | sendReturns (status : Status)
  /-- The receiver calls `jfs_ns_socket_recv` for the next buffer. -/
  | recvCall
  /-- Its `recv` returns. -/
  | recvReturns (status : Status)

/-- The bytes that enter the stream. `send` is given the rest of the buffer and accepts at least
one byte, or fails. -/
def accepted (r : Running) : Status → Option (List UInt8)
  | .error _ => some []
  | .ok k => if 0 < k.toNat ∧ r.total.toNat + k.toNat ≤ r.buf.length then some ((r.buf.drop r.total.toNat).take k.toNat)
    else none

/-- The bytes that are delivered. `recv` has room for the rest of the buffer and gives at least
one byte, or 0 for a closed connection, or fails. -/
def delivered (wire : List UInt8) (taken : ℕ) (r : Running) : Status → Option (List UInt8)
  | .error _ => some []
  | .ok k => if r.total.toNat + k.toNat ≤ r.buf.length ∧ taken + k.toNat ≤ wire.length then
      some ((wire.drop taken).take k.toNat) else none

/-- Write bytes at an offset in a buffer. -/
def overwrite (buf : List UInt8) (off : ℕ) (bs : List UInt8) : List UInt8 :=
  buf.take off ++ bs ++ buf.drop (off + bs.length)

/-- A step of the system, if it can be taken. -/
def step (s : System) : Event → Option System
  | .sendCall => do
    let sender ← s.sender.call
    return { s with sender := sender }
  | .sendReturns status => do
    let r ← s.sender.running
    let bs ← accepted r status
    return { s with sender := s.sender.settle r.entry r.buf (sendTurn (sizeOf r.buf) r.total status)
                    wire := s.wire ++ bs }
  | .recvCall => do
    let receiver ← s.receiver.call
    return { s with receiver := receiver }
  | .recvReturns status => do
    let r ← s.receiver.running
    let bs ← delivered s.wire s.taken r status
    return { s with receiver := s.receiver.settle r.entry (overwrite r.buf r.total.toNat bs)
                                  (recvTurn (sizeOf r.buf) r.total status)
                    taken := s.taken + bs.length }

/-- A run. -/
def run : System → List Event → Option System
  | s, [] => some s
  | s, e :: es => (step s e).bind fun s' => run s' es

/-- Before the first call: the messages to send, and the buffers to receive into. -/
def initial (msgs bufs : List (List UInt8)) : System where
  sender := { todo := msgs, running := none, done := [] }
  receiver := { todo := bufs, running := none, done := [] }
  wire := []
  taken := 0

end FileSync.NetSocket
