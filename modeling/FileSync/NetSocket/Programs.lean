import FileSync.Lib.Bytes
import FileSync.Lib.CString
import FileSync.NetSocket.Code

/-!
# The two programs

`run` of `server.c` and of `daemon.c`, over the functions of `net_socket.c` that make and
end connections. Both are straight lines of calls, with a jump to the label `cleanup`
after each one that can fail, and a loop at the end that receives until the other side
has no more to send. So a program is the list of its statements, and a position in it.

A step is the return of a system call, with what follows up to the next one. What the
system call returns is an `Answer`; a statement takes answers of its own kind only. The
operating system keeps account of what it has handed out, and of the calls that were
given a descriptor that is not open.
-/

namespace FileSync.NetSocket

open FileSync.Lib

/-! ### What the programs exchange -/

/-- `struct test_data`, with the text of `str` up to the `NUL`. -/
structure TestData where
  a : Int32
  b : Int32
  c : Int32
  str : List UInt8
  deriving DecidableEq

/-- The bytes of an `int`. -/
def intBytes (n : Int32) : List UInt8 := leBytes 4 n.toUInt32.toNat

/-- The `int` with these bytes. -/
def readInt (bs : List UInt8) : Int32 := (UInt32.ofNat (leNat bs)).toInt32

/-- The size of `str`. -/
def strSize : ℕ := 100

/-- `sizeof(struct test_data)`. -/
def sizeofTestData : ℕ := 4 + 4 + 4 + strSize

/-- The bytes of a `struct test_data` whose initialiser is this: what is left of `str` is 0. -/
def TestData.bytes (d : TestData) : List UInt8 :=
  intBytes d.a ++ intBytes d.b ++ intBytes d.c ++ (d.str ++ List.replicate (strSize - d.str.length) 0)

/-- What `print_test_data` reads. -/
def readTestData (bs : List UInt8) : TestData where
  a := readInt (bs.take 4)
  b := readInt ((bs.drop 4).take 4)
  c := readInt ((bs.drop 8).take 4)
  str := stringAt (bs.drop 12)

/-- What the programs print, apart from the errors. -/
inductive Output where
  | connected
  | data (d : TestData)
  | safeShutdown
  | unsafeShutdown
  deriving DecidableEq

/-! ### Sockets -/

/-- A file descriptor. -/
abbrev Fd := ℕ

/-- `AF_INET`. -/
def afInet : UInt16 := 2

/-- `sizeof(struct sockaddr_in)`. -/
def sizeofSockaddrIn : ℕ := 16

/-- `struct sockaddr_in`. -/
structure SockAddr where
  family : UInt16
  port : UInt16
  addr : UInt32
  deriving DecidableEq

/-- All 0. -/
def SockAddr.zero : SockAddr := ⟨0, 0, 0⟩

/-- `jfs_ns_socket_t`; a descriptor that is -1 is `none`. -/
structure Sock where
  fd : Option Fd
  addr : SockAddr
  deriving DecidableEq

/-- A variable of type `jfs_ns_socket_t *`. Each points to a socket of its own. -/
inductive Ptr where
  /-- Never assigned. -/
  | uninit
  | null
  | live (sock : Sock)
  deriving DecidableEq

/-- What the operating system and `malloc` have handed out: the open descriptors, and the
number of blocks. -/
structure Os where
  fds : List Fd
  blocks : ℕ
  /-- A call was given a descriptor that is not open. -/
  misused : Bool
  deriving DecidableEq

namespace Os

/-- A system call on a descriptor. -/
def use (os : Os) : Option Fd → Os
  | some fd => if fd ∈ os.fds then os else { os with misused := true }
  | none => { os with misused := true }

/-- A new descriptor. -/
def opened (os : Os) (fd : Fd) : Os := { os with fds := fd :: os.fds }

/-- `close`. -/
def close (os : Os) (fd : Fd) : Os := { os.use (some fd) with fds := os.fds.erase fd }

/-- `malloc` has given a block. -/
def malloc (os : Os) : Os := { os with blocks := os.blocks + 1 }

/-- `free`. -/
def free (os : Os) : Os := { os with blocks := os.blocks - 1 }

end Os

/-- The values of `errno` that `jfs_accept` and `jfs_connect` tell apart. -/
inductive SockErrno where
  | again
  | connAborted
  | connRefused
  | hostDown
  | hostUnreach
  | intr
  | netUnreach
  | noNet
  | noProtoOpt
  | opNotSupp
  | proto
  | timedOut
  | other
  deriving DecidableEq, Repr

/-- The error of `jfs_accept`. -/
def jfsAccept : SockErrno → JfsErr
  | .connAborted => .connectionAbort
  | .proto | .noProtoOpt | .hostDown | .noNet | .hostUnreach | .opNotSupp | .netUnreach | .again => .again
  | .intr => .inter
  | _ => .sys

/-- The error of `jfs_connect`. -/
def jfsConnect : SockErrno → JfsErr
  | .again => .again
  | .connRefused | .timedOut | .netUnreach => .lanHostUnreach
  | .intr => .inter
  | _ => .sys

/-- The errors of `getaddrinfo`. -/
inductive GaiError where
  | again
  | fail
  | noName
  | system
  | other
  deriving DecidableEq, Repr

/-- The error of `jfs_getaddrinfo`. -/
def jfsGetaddrinfo : GaiError → JfsErr
  | .again => .again
  | .fail | .noName => .lanHostUnreach
  | .system => .sys
  | .other => .getaddrinfo

/-- What the code reads of a `struct addrinfo`. -/
structure AddrInfo where
  family : UInt16
  addrlen : ℕ
  addr : SockAddr
  deriving DecidableEq

/-- What `accept` gives: the descriptor, the address and its length. -/
structure Accepted where
  fd : Fd
  addr : SockAddr
  addrlen : ℕ
  deriving DecidableEq

/-- The error of `jfs_socket`, `jfs_bind`, `jfs_listen`, `jfs_shutdown` and `jfs_close`, for which
all values of `errno` are the same. -/
def jfsSys {α : Type} : Except SockErrno α → JfsErr
  | .ok _ => .ok
  | .error _ => .sys

/-- `htons` on a little-endian machine. -/
def htons (port : UInt16) : UInt16 := (port <<< 8) ||| (port >>> 8)

/-- `jfs_ns_socket_create`, with the error on entry. -/
def jfsNsSocketCreate (err : JfsErr) (allocated : Bool) : Ptr × JfsErr :=
  if allocated = false then (.null, .sys)
  else if err ≠ .ok then (.null, err)
  else (.live ⟨none, .zero⟩, .ok)

/-- `jfs_ns_socket_open`. -/
def jfsNsSocketOpen (sock : Sock) : Except SockErrno Fd → Sock
  | .ok fd => { sock with fd := some fd }
  | .error _ => sock

/-- `jfs_ns_socket_close`. -/
def jfsNsSocketClose (os : Os) (sock : Sock) (status : Except SockErrno Unit) : Os × Sock × JfsErr :=
  match sock.fd with
  | none => (os, sock, .ok)
  | some fd => (os.close fd, { sock with fd := none }, jfsSys status)

/-- `jfs_ns_socket_destroy` of a pointer to a socket. -/
def jfsNsSocketDestroy (os : Os) (sock : Sock) : Os :=
  match sock.fd with
  | none => os.free
  | some fd => (os.close fd).free

/-- `jfs_ns_socket_set_ip`, with what `inet_pton` makes of the address. -/
def jfsNsSocketSetIp (sock : Sock) (serverPort : UInt16) (addr : Option UInt32) : Sock × JfsErr :=
  if serverPort ≤ 1024 then (sock, .arg)
  else
    match addr with
    | none => (sock, .arg)
    | some addr => ({ sock with addr := ⟨afInet, htons serverPort, addr⟩ }, .ok)

/-- `jfs_ns_socket_set_hostname`, with what `getaddrinfo` makes of the name. -/
def jfsNsSocketSetHostname (sock : Sock) (serverPort : UInt16) (info : Except GaiError AddrInfo) :
    Sock × JfsErr :=
  if serverPort ≤ 1024 then (sock, .arg)
  else
    match info with
    | .error e => (sock, jfsGetaddrinfo e)
    | .ok info =>
      if info.family ≠ afInet ∨ info.addrlen ≠ sizeofSockaddrIn then (sock, .nsBadAddr)
      else ({ sock with addr := info.addr }, .ok)

/-- The check of `jfs_ns_socket_accept` on what it has accepted. -/
def badAccept (c : Accepted) : Prop := c.addr.family ≠ afInet ∨ c.addrlen ≠ sizeofSockaddrIn

instance (c : Accepted) : Decidable (badAccept c) := inferInstanceAs (Decidable (_ ∨ _))

/-! ### Statements -/

/-- The pointer variables. -/
inductive Var where
  | server
  | client
  deriving DecidableEq, Repr

/-- The statements of `run`, each with the check of the error after it. -/
inductive Stmt where
  | create (v : Var)
  | opens (v : Var)
  | setIp (v : Var) (port : UInt16)
  | setHostname (v : Var) (port : UInt16)
  | bind (v : Var)
  | listen (v : Var)
  | accept (dst src : Var)
  | connect (v : Var)
  /-- `printf("connected\n")`. -/
  | say
  | send (v : Var)
  | recv (v : Var)
  /-- `print_test_data`. -/
  | print
  | shutdown (v : Var)
  /-- The loop that receives until the connection is closed. -/
  | drain (v : Var)
  | close (v : Var)
  | destroy (v : Var)
  | ret
  deriving DecidableEq, Repr

/-- The code, the position of the label `cleanup` in it, and `send_data`. -/
structure Program where
  code : List Stmt
  cleanup : ℕ
  data : TestData

/-- `SERV_PORT`. -/
def servPort : UInt16 := 20727

/-- `run` of `server.c`. -/
def serverRun (data : TestData) : Program where
  code := [.create .server, .opens .server, .setIp .server servPort, .bind .server, .listen .server,
    .accept .client .server, .recv .client, .print, .send .client, .shutdown .client, .drain .client,
    .close .client, .destroy .client, .destroy .server, .ret,
    -- cleanup:
    .destroy .server, .destroy .client, .ret]
  cleanup := 15
  data := data

/-- `run` of `daemon.c`. -/
def daemonRun (data : TestData) : Program where
  code := [.create .client, .opens .client, .setHostname .client servPort, .connect .client, .say,
    .send .client, .recv .client, .print, .shutdown .client, .drain .client,
    .close .client, .destroy .client, .ret,
    -- cleanup:
    .destroy .client, .ret]
  cleanup := 13
  data := data

/-- What the server sends. -/
def serverData : TestData := ⟨85, 69, 42, "uma musume: pretty derby".toUTF8.toList⟩

/-- What the daemon sends. -/
def daemonData : TestData := ⟨727, 76, 2, "hi from over there".toUTF8.toList⟩

/-! ### Running a program -/

/-- The state of a program. -/
structure Proc where
  pc : ℕ
  /-- `*err`. -/
  err : JfsErr
  server : Ptr
  client : Ptr
  /-- `accept_sock` of a call of `jfs_ns_socket_accept`. -/
  accepting : Option Sock
  /-- `total_sent` or `total_received` of a call of `jfs_ns_socket_send` or `jfs_ns_socket_recv`. -/
  total : Option UInt64
  /-- `recv_data`. -/
  recvData : List UInt8
  out : List Output
  os : Os
  /-- A pointer was used that points to no socket. -/
  undef : Bool
  deriving DecidableEq

/-- What a system call returns. -/
inductive Answer where
  /-- There is no system call, or its result is not looked at. -/
  | go
  | malloc (allocated : Bool)
  | socket (r : Except SockErrno Fd)
  | pton (r : Option UInt32)
  | addrinfo (r : Except GaiError AddrInfo)
  | status (r : Except SockErrno Unit)
  | accepted (r : Except SockErrno Accepted)
  | sent (r : Status)
  | received (r : Except Errno (List UInt8))

namespace Proc

/-- A pointer variable. -/
def ptr (p : Proc) : Var → Ptr
  | .server => p.server
  | .client => p.client

/-- Assign to a pointer variable. -/
def set (p : Proc) (x : Ptr) : Var → Proc
  | .server => { p with server := x }
  | .client => { p with client := x }

/-- `GOTO_IF_ERR(cleanup)` after a statement. -/
def check (prog : Program) (p : Proc) (err : JfsErr) : Proc :=
  { p with err := err, pc := if err = .ok then p.pc + 1 else prog.cleanup }

/-- Print something. -/
def prints (p : Proc) (o : Output) : Proc := { p with out := p.out ++ [o] }

/-- Use the socket that a variable points to. -/
def deref (p : Proc) (v : Var) (f : Sock → Option Proc) : Option Proc :=
  match p.ptr v with
  | .live sock => f sock
  | _ => some { p with undef := true }

/-- Go on with a transfer, or return from it. -/
def settle (p : Proc) (next : Next) (ret : Proc → JfsErr → Proc) : Proc :=
  match next with
  | .again total => { p with total := some total }
  | .ret _ err => ret { p with total := none } err

/-- What `recv` has put into the buffer. -/
def fill (p : Proc) (total : UInt64) : Except Errno (List UInt8) → Proc
  | .ok bs => { p with recvData := overwrite p.recvData total.toNat bs }
  | .error _ => p

/-- The turn of `jfs_ns_socket_recv` in the two statements that receive. -/
def recvd (p : Proc) (sock : Sock) (total : UInt64) (r : Except Errno (List UInt8)) (ret : Proc → JfsErr → Proc) :
    Proc :=
  ({ p with os := p.os.use sock.fd }.fill total r).settle
    (recvTurn (UInt64.ofNat sizeofTestData) total (r.map sizeOf)) ret

/-- `jfs_ns_socket_accept` after `accept` has returned. -/
def accepted (prog : Program) (p : Proc) (dst : Var) : Except SockErrno Accepted → Proc
  | .error e =>
    let sock : Sock := ⟨none, .zero⟩
    if jfsAccept e = .inter then { p with accepting := some sock }
    else ({ p with accepting := none, os := jfsNsSocketDestroy p.os sock }.set .null dst).check prog (jfsAccept e)
  | .ok c =>
    let sock : Sock := ⟨some c.fd, c.addr⟩
    let p := { p with accepting := none, os := p.os.opened c.fd }
    if badAccept c then
      ({ p with os := jfsNsSocketDestroy p.os sock }.set .null dst).check prog .nsBadAccept
    else (p.set (.live sock) dst).check prog .ok

/-- What follows a call of `jfs_ns_socket_recv` in the loop at the end. -/
def drained (prog : Program) (p : Proc) (err : JfsErr) : Proc :=
  if err = .nsConnectionClose then (p.prints .safeShutdown).check prog .ok
  else if err ≠ .ok then (p.prints .unsafeShutdown).check prog err
  else p.prints (.data (readTestData p.recvData))

/-- A statement, when a system call returns. A new descriptor is none of those that are open, and
`recv` gives no more than there is room for. -/
def exec (prog : Program) (p : Proc) : Stmt → Answer → Option Proc
  | .create v, .malloc allocated =>
    let (x, err) := jfsNsSocketCreate p.err allocated
    let os := if allocated then p.os.malloc else p.os
    some (({ p with os := os }.set x v).check prog err)
  | .opens v, .socket r => p.deref v fun sock =>
    match r with
    | .ok fd => if fd ∈ p.os.fds then none
      else some (({ p with os := p.os.opened fd }.set (.live (jfsNsSocketOpen sock r)) v).check prog .ok)
    | .error _ => some (p.check prog (jfsSys r))
  | .setIp v port, .pton r => p.deref v fun sock =>
    let (sock, err) := jfsNsSocketSetIp sock port r
    some ((p.set (.live sock) v).check prog err)
  | .setHostname v port, .addrinfo r => p.deref v fun sock =>
    let (sock, err) := jfsNsSocketSetHostname sock port r
    some ((p.set (.live sock) v).check prog err)
  | .bind v, .status r => p.deref v fun sock => some ({ p with os := p.os.use sock.fd }.check prog (jfsSys r))
  | .listen v, .status r => p.deref v fun sock => some ({ p with os := p.os.use sock.fd }.check prog (jfsSys r))
  | .accept dst _, .malloc allocated =>
    match p.accepting, jfsNsSocketCreate p.err allocated with
    | none, (.live sock, _) => some { p with os := p.os.malloc, accepting := some sock }
    | none, (x, err) => some ((p.set x dst).check prog err)
    | some _, _ => none
  | .accept dst src, .accepted r => p.deref src fun sock =>
    match p.accepting, r with
    | none, _ => none
    | some _, .ok c => if c.fd ∈ p.os.fds then none
      else some ({ p with os := p.os.use sock.fd }.accepted prog dst r)
    | some _, .error _ => some ({ p with os := p.os.use sock.fd }.accepted prog dst r)
  | .connect v, .status r => p.deref v fun sock =>
    let p := { p with os := p.os.use sock.fd }
    match r with
    | .ok _ => some (p.check prog .ok)
    | .error e => some (if jfsConnect e = .inter then p else p.check prog (jfsConnect e))
  | .say, .go => some ((p.prints .connected).check prog .ok)
  | .send _, .go =>
    if p.total = none then some (p.settle (loopHead (UInt64.ofNat sizeofTestData) 0) (check prog)) else none
  | .send v, .sent r => p.deref v fun sock => do
    let total ← p.total
    return { p with os := p.os.use sock.fd }.settle (sendTurn (UInt64.ofNat sizeofTestData) total r) (check prog)
  | .recv _, .go =>
    if p.total = none then some (p.settle (loopHead (UInt64.ofNat sizeofTestData) 0) (check prog)) else none
  | .recv v, .received r => p.deref v fun sock => do
    let total ← p.total
    return p.recvd sock total r (check prog)
  | .print, .go => some ((p.prints (.data (readTestData p.recvData))).check prog .ok)
  | .shutdown v, .status r => p.deref v fun sock => some ({ p with os := p.os.use sock.fd }.check prog (jfsSys r))
  | .drain _, .go =>
    if p.total = none then some (p.settle (loopHead (UInt64.ofNat sizeofTestData) 0) (drained prog)) else none
  | .drain v, .received r => p.deref v fun sock => do
    let total ← p.total
    return p.recvd sock total r (drained prog)
  | .close v, .status r =>
    match p.ptr v with
    | .uninit => some { p with undef := true }
    | .null => some (p.check prog .ok)
    | .live sock =>
      -- its error is reported and reset
      let (os, sock, _) := jfsNsSocketClose p.os sock r
      some (({ p with os := os }.set (.live sock) v).check prog .ok)
  | .destroy v, .go =>
    match p.ptr v with
    | .uninit => some { p with undef := true }
    | .null => some { p with pc := p.pc + 1 }
    | .live sock => some { ({ p with os := jfsNsSocketDestroy p.os sock }.set .null v) with pc := p.pc + 1 }
  | _, _ => none

/-- The statement it is in. -/
def stmt (prog : Program) (p : Proc) : Stmt := (prog.code[p.pc]?).getD .ret

/-- A step, unless the program has returned or anything can happen. -/
def step (prog : Program) (p : Proc) (a : Answer) : Option Proc :=
  if p.undef then none else p.exec prog (p.stmt prog) a

/-- A run, over the answers it is given. -/
def run (prog : Program) : Proc → List Answer → Option Proc
  | p, [] => some p
  | p, a :: as => (p.step prog a).bind fun p' => run prog p' as

/-- The start of `run`, with the error on entry. -/
def start (err : JfsErr) : Proc where
  pc := 0
  err := err
  server := .uninit
  client := .uninit
  accepting := none
  total := none
  recvData := List.replicate sizeofTestData 0
  out := []
  os := ⟨[], 0, false⟩
  undef := false

end Proc

end FileSync.NetSocket
