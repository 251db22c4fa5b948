import FileSync.NetSocket.Programs
import Mathlib.Data.List.Perm.Basic

/-!
# What the programs release

Whatever the system calls return, a program closes each descriptor it has been given
once, and uses it only before that, and it frees what it has allocated, by the time it
returns. `Account` is the invariant: the open descriptors and the allocated blocks are
those of the sockets that the variables point to.

Which variable points to a socket, and whether its descriptor is open, depends on the
position in the program only. `Abs` is that part of a state and `Abs.next` what a step
can do to it, so that the rest is a check of finitely many of them for each program. The
server fails it at one place: a call that fails before `accept` jumps to the label
`cleanup`, where the pointer that `accept` would have assigned is destroyed.
-/

namespace FileSync.NetSocket

variable {prog : Program} {p p' : Proc} {v : Var} {sock : Sock}

/-! ### The account -/

/-- The descriptors of a socket. -/
def Ptr.fds : Ptr → List Fd
  | .live sock => sock.fd.toList
  | _ => []

/-- The blocks of a pointer. -/
def Ptr.blocks : Ptr → ℕ
  | .live _ => 1
  | _ => 0

theorem Ptr.fds_live (sock : Sock) : (Ptr.live sock).fds = sock.fd.toList := rfl

theorem Ptr.blocks_live (sock : Sock) : (Ptr.live sock).blocks = 1 := rfl

/-- The other variable. -/
def Var.other : Var → Var
  | .server => .client
  | .client => .server

/-- What the operating system has handed out is what the sockets have. -/
structure Account (p : Proc) : Prop where
  fds : p.os.fds.Perm (p.server.fds ++ p.client.fds)
  nodup : p.os.fds.Nodup
  blocks : p.os.blocks = p.server.blocks + p.client.blocks + p.accepting.toList.length
  misused : p.os.misused = false

namespace Proc

@[simp] theorem ptr_os (p : Proc) (os : Os) (v : Var) : ({ p with os := os } : Proc).ptr v = p.ptr v := by
  cases v <;> rfl

@[simp] theorem ptr_set (p : Proc) (x : Ptr) (v : Var) : (p.set x v).ptr v = x := by cases v <;> rfl

@[simp] theorem ptr_set_other (p : Proc) (x : Ptr) (v : Var) : (p.set x v).ptr v.other = p.ptr v.other := by
  cases v <;> rfl

@[simp] theorem os_set (p : Proc) (x : Ptr) (v : Var) : (p.set x v).os = p.os := by cases v <;> rfl

@[simp] theorem accepting_set (p : Proc) (x : Ptr) (v : Var) : (p.set x v).accepting = p.accepting := by
  cases v <;> rfl

end Proc

namespace Account

/-- The account, seen from one of the variables. -/
theorem iff_of_var (v : Var) : Account p ↔ p.os.fds.Perm ((p.ptr v).fds ++ (p.ptr v.other).fds) ∧ p.os.fds.Nodup ∧
    p.os.blocks = (p.ptr v).blocks + (p.ptr v.other).blocks + p.accepting.toList.length ∧ p.os.misused = false := by
  cases v with
  | server => exact ⟨fun h => ⟨h.fds, h.nodup, h.blocks, h.misused⟩, fun h => ⟨h.1, h.2.1, h.2.2.1, h.2.2.2⟩⟩
  | client =>
    refine ⟨fun h => ⟨h.fds.trans List.perm_append_comm, h.nodup, ?_, h.misused⟩,
      fun h => ⟨h.1.trans List.perm_append_comm, h.2.1, ?_, h.2.2.2⟩⟩
    · rw [h.blocks, Nat.add_comm p.server.blocks]
      rfl
    · rw [h.2.2.1, Nat.add_comm (p.ptr .client).blocks]
      rfl

/-- Only these fields matter. -/
theorem congr (h : Account p) (hos : p'.os = p.os) (hs : p'.server = p.server) (hc : p'.client = p.client)
    (ha : p'.accepting = p.accepting) : Account p' := by
  refine ⟨?_, ?_, ?_, ?_⟩
  · rw [hos, hs, hc]
    exact h.fds
  · rw [hos]
    exact h.nodup
  · rw [hos, hs, hc, ha]
    exact h.blocks
  · rw [hos]
    exact h.misused

theorem check (h : Account p) (err : JfsErr) : Account (p.check prog err) := h.congr rfl rfl rfl rfl

/-- The descriptor of a socket is open. -/
theorem use (h : Account p) (hv : p.ptr v = .live sock) (ho : sock.fd.isSome) : p.os.use sock.fd = p.os := by
  obtain ⟨fd, hfd⟩ := Option.isSome_iff_exists.mp ho
  have hm : fd ∈ p.os.fds := by
    rw [((iff_of_var v).mp h).1.mem_iff, hv]
    simp [Ptr.fds_live, hfd]
  rw [hfd, Os.use, if_pos hm]

/-- An assignment that keeps the descriptor. -/
theorem set (h : Account p) (hv : p.ptr v = .live sock) {sock' : Sock} (hfd : sock'.fd = sock.fd) :
    Account (p.set (.live sock') v) := by
  rw [iff_of_var v] at h ⊢
  rw [hv] at h
  rw [Proc.ptr_set, Proc.ptr_set_other, Proc.os_set, Proc.accepting_set]
  simpa only [Ptr.fds_live, hfd, Ptr.blocks_live] using h

/-- A pointer that has nothing gets something that has nothing. -/
theorem assign (h : Account p) (hf : (p.ptr v).fds = []) (hb : (p.ptr v).blocks = 0) {x : Ptr} (hx : x.fds = [])
    (hxb : x.blocks = 0) : Account (p.set x v) := by
  rw [iff_of_var v] at h ⊢
  rw [hf, hb] at h
  rw [Proc.ptr_set, Proc.ptr_set_other, Proc.os_set, Proc.accepting_set, hx, hxb]
  exact h

/-- A new socket without a descriptor. -/
theorem create (h : Account p) (hf : (p.ptr v).fds = []) (hb : (p.ptr v).blocks = 0) (addr : SockAddr) :
    Account ({ p with os := p.os.malloc }.set (.live ⟨none, addr⟩) v) := by
  rw [iff_of_var v] at h ⊢
  rw [hf, hb] at h
  rw [Proc.ptr_set, Proc.ptr_set_other, Proc.os_set, Proc.accepting_set, Proc.ptr_os]
  refine ⟨h.1, h.2.1, ?_, h.2.2.2⟩
  have hb := h.2.2.1
  simp only [Os.malloc, Ptr.blocks_live]
  omega

/-- A socket gets a descriptor. -/
theorem opens (h : Account p) (hv : p.ptr v = .live sock) (hfd : sock.fd = none) {fd : Fd} (hn : fd ∉ p.os.fds) :
    Account ({ p with os := p.os.opened fd }.set (.live { sock with fd := some fd }) v) := by
  rw [iff_of_var v] at h ⊢
  rw [hv] at h
  rw [Proc.ptr_set, Proc.ptr_set_other, Proc.os_set, Proc.accepting_set, Proc.ptr_os]
  refine ⟨?_, List.nodup_cons.mpr ⟨hn, h.2.1⟩, h.2.2.1, h.2.2.2⟩
  simpa [Ptr.fds_live, hfd, Os.opened] using h.1

/-- The socket that `accept` was to fill is freed. -/
theorem accept_fail (h : Account p) {sock : Sock} (ha : p.accepting = some sock) :
    Account { p with accepting := none, os := p.os.free } := by
  refine ⟨h.fds, h.nodup, ?_, h.misused⟩
  have hb := h.blocks
  rw [ha] at hb
  simp only [Os.free, Option.toList_some, List.length_singleton, Option.toList_none, List.length_nil] at hb ⊢
  omega

/-- The socket that `accept` has filled goes to a variable. -/
theorem accept_ok (h : Account p) {sock : Sock} (ha : p.accepting = some sock) (hf : (p.ptr v).fds = [])
    (hb : (p.ptr v).blocks = 0) {fd : Fd} (hn : fd ∉ p.os.fds) (addr : SockAddr) :
    Account ({ p with accepting := none, os := p.os.opened fd }.set (.live ⟨some fd, addr⟩) v) := by
  have hother : ∀ w, ({ p with accepting := none, os := p.os.opened fd } : Proc).ptr w = p.ptr w := by
    intro w
    cases w <;> rfl
  rw [iff_of_var v] at h ⊢
  rw [hf, hb, ha] at h
  rw [Proc.ptr_set, Proc.ptr_set_other, Proc.os_set, Proc.accepting_set, hother]
  refine ⟨h.1.cons fd, List.nodup_cons.mpr ⟨hn, h.2.1⟩, ?_, h.2.2.2⟩
  have hblocks := h.2.2.1
  simp only [Os.opened, Ptr.blocks_live, Option.toList_some, List.length_singleton, Option.toList_none,
    List.length_nil] at hblocks ⊢
  omega

/-- What is left when the descriptor of a socket is closed. -/
theorem close_fds (h : Account p) (hv : p.ptr v = .live sock) {fd : Fd} (hfd : sock.fd = some fd) :
    (p.os.close fd).fds.Perm (p.ptr v.other).fds ∧ (p.os.close fd).fds.Nodup ∧
      (p.os.close fd).blocks = p.os.blocks ∧ (p.os.close fd).misused = false := by
  have huse := h.use hv (by rw [hfd]; rfl)
  rw [iff_of_var v, hv] at h
  rw [hfd] at huse
  refine ⟨?_, h.2.1.erase fd, ?_, ?_⟩
  · have := h.1.erase fd
    simpa [Ptr.fds_live, hfd, Os.close] using this
  · simp only [Os.close, huse]
  · simp only [Os.close, huse]
    exact h.2.2.2

/-- **`jfs_ns_socket_close`** of a socket. -/
theorem close (h : Account p) (hv : p.ptr v = .live sock) (status : Except SockErrno Unit) :
    Account ({ p with os := (jfsNsSocketClose p.os sock status).1 }.set
      (.live (jfsNsSocketClose p.os sock status).2.1) v) := by
  cases hfd : sock.fd with
  | none =>
    simp only [jfsNsSocketClose, hfd]
    exact h.set hv rfl
  | some fd =>
    obtain ⟨hperm, hnd, hblocks, hmis⟩ := h.close_fds hv hfd
    rw [iff_of_var v, hv] at h
    rw [iff_of_var v]
    simp only [jfsNsSocketClose, hfd, Proc.ptr_set, Proc.ptr_set_other, Proc.os_set, Proc.accepting_set, Proc.ptr_os]
    exact ⟨hperm, hnd, hblocks.trans h.2.2.1, hmis⟩

/-- **`jfs_ns_socket_destroy`** of a socket. -/
theorem destroy (h : Account p) (hv : p.ptr v = .live sock) :
    Account ({ p with os := jfsNsSocketDestroy p.os sock }.set .null v) := by
  have hb := ((iff_of_var v).mp h).2.2.1
  rw [hv] at hb
  rw [iff_of_var v]
  simp only [Proc.ptr_set, Proc.ptr_set_other, Proc.os_set, Proc.accepting_set, Proc.ptr_os, jfsNsSocketDestroy]
  cases hfd : sock.fd with
  | none =>
    rw [iff_of_var v, hv] at h
    refine ⟨?_, h.2.1, ?_, h.2.2.2⟩
    · show p.os.fds.Perm (p.ptr v.other).fds
      simpa [Ptr.fds_live, hfd] using h.1
    · simp only [Os.free, Ptr.blocks_live] at hb ⊢
      show p.os.blocks - 1 = 0 + _ + _
      omega
  | some fd =>
    obtain ⟨hperm, hnd, hblocks, hmis⟩ := h.close_fds hv hfd
    refine ⟨hperm, hnd, ?_, hmis⟩
    simp only [Os.free, Ptr.blocks_live] at hb ⊢
    show (p.os.close fd).blocks - 1 = 0 + _ + _
    omega

end Account

/-! ### The shape of a state -/

/-- What a pointer variable has. -/
inductive Shape where
  | uninit
  | null
  /-- A socket without a descriptor. -/
  | shut
  /-- A socket with one. -/
  | opened
  deriving DecidableEq, Repr

/-- What a pointer has. -/
def Ptr.shape : Ptr → Shape
  | .uninit => .uninit
  | .null => .null
  | .live sock => if sock.fd.isSome then .opened else .shut

theorem Ptr.shape_live {x : Ptr} (h : x.shape = .shut ∨ x.shape = .opened) : ∃ sock, x = .live sock := by
  cases x with
  | uninit => simp [Ptr.shape] at h
  | null => simp [Ptr.shape] at h
  | live sock => exact ⟨sock, rfl⟩

theorem Ptr.shape_live_ne (sock : Sock) : (Ptr.live sock).shape ≠ .uninit ∧ (Ptr.live sock).shape ≠ .null := by
  by_cases hs : sock.fd.isSome <;> simp [Ptr.shape, hs]

theorem Ptr.shape_opened {x : Ptr} (h : x.shape = .opened) : ∃ sock, x = .live sock ∧ sock.fd.isSome := by
  obtain ⟨sock, rfl⟩ := Ptr.shape_live (.inr h)
  refine ⟨sock, rfl, ?_⟩
  by_contra hn
  simp [Ptr.shape, hn] at h

theorem Ptr.shape_shut {x : Ptr} (h : x.shape = .shut) : ∃ sock, x = .live sock ∧ sock.fd = none := by
  obtain ⟨sock, rfl⟩ := Ptr.shape_live (.inl h)
  refine ⟨sock, rfl, ?_⟩
  cases hfd : sock.fd with
  | none => rfl
  | some fd => simp [Ptr.shape, hfd] at h

theorem Ptr.shape_empty {x : Ptr} (h : x.shape = .uninit ∨ x.shape = .null) : x.fds = [] ∧ x.blocks = 0 := by
  cases x with
  | uninit => exact ⟨rfl, rfl⟩
  | null => exact ⟨rfl, rfl⟩
  | live sock =>
    by_cases hs : sock.fd.isSome <;> simp [Ptr.shape, hs] at h

/-- A state without the data. -/
structure Abs where
  pc : ℕ
  /-- `*err` is `JFS_OK`. -/
  ok : Bool
  server : Shape
  client : Shape
  accepting : Bool
  undef : Bool
  deriving DecidableEq, Repr

/-- The shape of a state. -/
def Proc.abs (p : Proc) : Abs := ⟨p.pc, p.err = .ok, p.server.shape, p.client.shape, p.accepting.isSome, p.undef⟩

namespace Abs

/-- What a variable has. -/
def shape (s : Abs) : Var → Shape
  | .server => s.server
  | .client => s.client

/-- Assign to a variable. -/
def set (s : Abs) (x : Shape) : Var → Abs
  | .server => { s with server := x }
  | .client => { s with client := x }

theorem set_shape (s : Abs) (v : Var) : s.set (s.shape v) v = s := by cases v <;> rfl

/-- The next statement, after a call that has succeeded. -/
def pass (s : Abs) : Abs := { s with pc := s.pc + 1, ok := true }

/-- The label `cleanup`, after one that has not. -/
def jump (prog : Program) (s : Abs) : Abs := { s with pc := prog.cleanup, ok := false }

/-- The next statement. -/
def skip (s : Abs) : Abs := { s with pc := s.pc + 1 }

/-- The statement it is in. -/
def stmt (prog : Program) (s : Abs) : Stmt := (prog.code[s.pc]?).getD .ret

/-- What a statement needs: `create` and `accept` a variable with nothing to lose and no error
so far, the others a socket, most of them with an open descriptor. -/
def Needs (s : Abs) : Stmt → Prop
  | .create v => (s.shape v = .uninit ∨ s.shape v = .null) ∧ s.ok
  | .opens v => s.shape v = .shut
  | .setIp v _ | .setHostname v _ => s.shape v = .shut ∨ s.shape v = .opened
  | .bind v | .listen v | .connect v | .send v | .recv v | .shutdown v | .drain v => s.shape v = .opened
  | .accept dst src => (s.shape dst = .uninit ∨ s.shape dst = .null) ∧ s.shape src = .opened ∧ s.ok
  | .say | .print | .close _ | .destroy _ | .ret => True

instance (s : Abs) : (st : Stmt) → Decidable (s.Needs st)
  | .create _ | .accept _ _ => inferInstanceAs (Decidable (_ ∧ _))
  | .setIp _ _ | .setHostname _ _ => inferInstanceAs (Decidable (_ ∨ _))
  | .opens _ | .bind _ | .listen _ | .connect _ | .send _ | .recv _ | .shutdown _ | .drain _ =>
    inferInstanceAs (Decidable (_ = _))
  | .say | .print | .close _ | .destroy _ | .ret => inferInstanceAs (Decidable True)

/-- What `jfs_ns_socket_accept` can make of a state: the wait for a connection, `NULL`, or a socket. -/
def accepts (prog : Program) (s : Abs) (dst : Var) : List Abs :=
  [{ s with accepting := true }, ({ s with accepting := false }.set .null dst).jump prog,
    ({ s with accepting := false }.set .opened dst).pass]

/-- What a statement can make of a state. -/
def next (prog : Program) (s : Abs) : Stmt → List Abs
  | .create v => [(s.set .shut v).pass, (s.set .null v).jump prog]
  | .opens v => [(s.set .opened v).pass, s.jump prog]
  | .setIp _ _ | .setHostname _ _ | .bind _ | .listen _ | .shutdown _ => [s.pass, s.jump prog]
  | .accept dst _ => s.accepts prog dst
  | .connect _ | .send _ | .recv _ | .drain _ => [s, s.pass, s.jump prog]
  | .say | .print => [s.pass]
  | .close v => if s.shape v = .uninit then [{ s with undef := true }]
    else if s.shape v = .null then [s.pass] else [(s.set .shut v).pass]
  | .destroy v => if s.shape v = .uninit then [{ s with undef := true }] else [(s.set .null v).skip]
  | .ret => []

end Abs

theorem Proc.shape_abs (p : Proc) (v : Var) : p.abs.shape v = (p.ptr v).shape := by cases v <;> rfl

theorem Proc.live_of_shape (p : Proc) (h : p.abs.shape v = .shut ∨ p.abs.shape v = .opened) :
    ∃ sock, p.ptr v = .live sock := by
  rw [Proc.shape_abs] at h
  exact Ptr.shape_live h

theorem Proc.abs_set (p : Proc) (x : Ptr) (v : Var) : (p.set x v).abs = p.abs.set x.shape v := by cases v <;> rfl

/-- After the check of the error. -/
theorem Proc.abs_check (p : Proc) (err : JfsErr) :
    (p.check prog err).abs = if err = .ok then p.abs.pass else p.abs.jump prog := by
  unfold Proc.check
  split_ifs with h
  · simp [Proc.abs, Abs.pass, h]
  · simp [Proc.abs, Abs.jump, h]

/-! ### One step -/

/-- What a step leaves: the account, and one of the given shapes. -/
def Leaves (l : List Abs) (p : Proc) : Prop := Account p ∧ p.abs ∈ l

/-- The states do not differ in what the account and the shape are about. -/
structure SameHold (q p : Proc) : Prop where
  os : q.os = p.os
  server : q.server = p.server
  client : q.client = p.client
  accepting : q.accepting = p.accepting
  pc : q.pc = p.pc
  err : q.err = p.err
  undef : q.undef = p.undef

namespace SameHold

variable {q : Proc}

theorem account (h : SameHold q p) (ha : Account p) : Account q := ha.congr h.os h.server h.client h.accepting

theorem abs (h : SameHold q p) : q.abs = p.abs := by
  simp only [Proc.abs, h.server, h.client, h.accepting, h.pc, h.err, h.undef]

/-- A check of the error. -/
theorem check (h : SameHold q p) (ha : Account p) (err : JfsErr) {l : List Abs} (hpass : p.abs.pass ∈ l)
    (hjump : p.abs.jump prog ∈ l) : Leaves l (q.check prog err) := by
  refine ⟨(h.account ha).check err, ?_⟩
  rw [Proc.abs_check, h.abs]
  split_ifs
  · exact hpass
  · exact hjump

/-- The end of a turn of the loop at the end. -/
theorem drained (h : SameHold q p) (ha : Account p) (err : JfsErr) :
    Leaves [p.abs, p.abs.pass, p.abs.jump prog] (q.drained prog err) := by
  have hsay : ∀ o, SameHold (q.prints o) p := fun o => ⟨h.os, h.server, h.client, h.accepting, h.pc, h.err, h.undef⟩
  unfold Proc.drained
  split_ifs
  · exact (hsay _).check ha _ (by simp) (by simp)
  · exact (hsay _).check ha err (by simp) (by simp)
  · exact ⟨(hsay _).account ha, by simp [(hsay _).abs]⟩

/-- A transfer goes on, or returns. -/
theorem settle (h : SameHold q p) (ha : Account p) (next : Next) {ret : Proc → JfsErr → Proc}
    (hret : ∀ q', SameHold q' p → ∀ err, Leaves [p.abs, p.abs.pass, p.abs.jump prog] (ret q' err)) :
    Leaves [p.abs, p.abs.pass, p.abs.jump prog] (q.settle next ret) := by
  cases next with
  | again total =>
    have hq : SameHold { q with total := some total } p := ⟨h.os, h.server, h.client, h.accepting, h.pc, h.err, h.undef⟩
    exact ⟨hq.account ha, by simp [Proc.settle, hq.abs]⟩
  | ret _ err =>
    have hq : SameHold { q with total := none } p := ⟨h.os, h.server, h.client, h.accepting, h.pc, h.err, h.undef⟩
    exact hret _ hq err

/-- What `recv` puts into the buffer. -/
theorem fill (h : SameHold q p) (total : UInt64) (r : Except Errno (List UInt8)) : SameHold (q.fill total r) p := by
  cases r with
  | error e => exact h
  | ok bs => exact ⟨h.os, h.server, h.client, h.accepting, h.pc, h.err, h.undef⟩

end SameHold

/-- A socket with an open descriptor: a system call on it changes nothing. -/
theorem Account.call (h : Account p) (hv : p.abs.shape v = .opened) :
    ∃ sock, p.ptr v = .live sock ∧ SameHold { p with os := p.os.use sock.fd } p := by
  rw [Proc.shape_abs] at hv
  obtain ⟨sock, e, ho⟩ := Ptr.shape_opened hv
  exact ⟨sock, e, h.use e ho, rfl, rfl, rfl, rfl, rfl, rfl⟩

/-- `jfs_ns_socket_create` into a variable. -/
theorem exec_create {allocated : Bool} (h : Account p) (herr : p.err = .ok)
    (hv : p.abs.shape v = .uninit ∨ p.abs.shape v = .null) (hs : p.exec prog (.create v) (.malloc allocated) = some p') :
    Leaves [(p.abs.set .shut v).pass, (p.abs.set .null v).jump prog] p' := by
  rw [Proc.shape_abs] at hv
  obtain ⟨hf, hb⟩ := Ptr.shape_empty hv
  cases allocated with
  | false =>
    have hc : jfsNsSocketCreate p.err false = (.null, .sys) := rfl
    simp only [Proc.exec, hc] at hs
    cases hs
    refine ⟨(h.assign hf hb rfl rfl).check _, ?_⟩
    rw [Proc.abs_check]
    simp [Proc.abs_set, Ptr.shape]
  | true =>
    have hc : jfsNsSocketCreate p.err true = (.live ⟨none, .zero⟩, .ok) := by simp [jfsNsSocketCreate, herr]
    simp only [Proc.exec, hc] at hs
    cases hs
    refine ⟨(h.create hf hb _).check _, ?_⟩
    rw [Proc.abs_check]
    simp only [Proc.abs_set, Ptr.shape]
    exact List.mem_cons_self ..

/-- `jfs_ns_socket_open`. -/
theorem exec_opens {r : Except SockErrno Fd} (h : Account p) (hv : p.abs.shape v = .shut)
    (hs : p.exec prog (.opens v) (.socket r) = some p') :
    Leaves [(p.abs.set .opened v).pass, p.abs.jump prog] p' := by
  rw [Proc.shape_abs] at hv
  obtain ⟨sock, e, hfd⟩ := Ptr.shape_shut hv
  simp only [Proc.exec, Proc.deref, e] at hs
  cases r with
  | error _ =>
    cases hs
    exact ⟨h.check _, by simp [Proc.abs_check, jfsSys]⟩
  | ok fd =>
    simp only at hs
    split at hs
    · cases hs
    · next hn =>
      cases hs
      refine ⟨(h.opens e hfd hn).check _, ?_⟩
      rw [Proc.abs_check]
      simp only [Proc.abs_set, Ptr.shape, jfsNsSocketOpen]
      exact List.mem_cons_self ..

/-- An address is set. -/
theorem leaves_setAddr {sock' : Sock} (h : Account p) (e : p.ptr v = .live sock) (hfd : sock'.fd = sock.fd) (err : JfsErr) :
    Leaves [p.abs.pass, p.abs.jump prog] ((p.set (.live sock') v).check prog err) := by
  have habs : (p.set (.live sock') v).abs = p.abs := by
    have hshape : (Ptr.live sock').shape = p.abs.shape v := by rw [p.shape_abs v, e, Ptr.shape, Ptr.shape, hfd]
    rw [Proc.abs_set, hshape, Abs.set_shape]
  refine ⟨(h.set e hfd).check err, ?_⟩
  rw [Proc.abs_check, habs]
  split_ifs <;> simp

theorem fd_setIp (sock : Sock) (port : UInt16) (r : Option UInt32) : (jfsNsSocketSetIp sock port r).1.fd = sock.fd := by
  unfold jfsNsSocketSetIp
  split_ifs
  · rfl
  · cases r <;> rfl

theorem fd_setHostname (sock : Sock) (port : UInt16) (r : Except GaiError AddrInfo) :
    (jfsNsSocketSetHostname sock port r).1.fd = sock.fd := by
  unfold jfsNsSocketSetHostname
  split_ifs
  · rfl
  · cases r with
    | error e => rfl
    | ok info =>
      simp only
      split_ifs <;> rfl

/-- What `jfs_ns_socket_accept` frees if what it has accepted is bad. -/
theorem destroy_opened (os : Os) (fd : Fd) (addr : SockAddr) :
    jfsNsSocketDestroy (os.opened fd) ⟨some fd, addr⟩ = os.free := by
  simp [jfsNsSocketDestroy, Os.close, Os.use, Os.opened, Os.free]

/-- `jfs_ns_socket_accept` returns `NULL`. -/
theorem leaves_acceptNull {dst : Var} {q : Proc} (h : Account q) (hq : q.abs = { p.abs with accepting := false })
    (hd : (q.ptr dst).fds = [] ∧ (q.ptr dst).blocks = 0) {err : JfsErr} (he : err ≠ .ok) :
    Leaves (p.abs.accepts prog dst) ((q.set .null dst).check prog err) := by
  refine ⟨(h.assign hd.1 hd.2 rfl rfl).check err, ?_⟩
  rw [Proc.abs_check, if_neg he, Proc.abs_set, hq]
  simp [Abs.accepts, Ptr.shape]

/-- `jfs_ns_socket_accept` allocates its socket. -/
theorem exec_acceptMalloc {dst src : Var} {allocated : Bool} (h : Account p) (herr : p.err = .ok)
    (hd : p.abs.shape dst = .uninit ∨ p.abs.shape dst = .null)
    (hs : p.exec prog (.accept dst src) (.malloc allocated) = some p') : Leaves (p.abs.accepts prog dst) p' := by
  rw [Proc.shape_abs] at hd
  cases ha : p.accepting with
  | some sock => simp [Proc.exec, ha] at hs
  | none =>
    have habs : p.abs = { p.abs with accepting := false } := by simp [Proc.abs, ha]
    cases allocated with
    | false =>
      have hc : jfsNsSocketCreate p.err false = (.null, .sys) := rfl
      simp only [Proc.exec, ha, hc] at hs
      cases hs
      exact leaves_acceptNull h habs (Ptr.shape_empty hd) (by decide)
    | true =>
      have hc : jfsNsSocketCreate p.err true = (.live ⟨none, .zero⟩, .ok) := by simp [jfsNsSocketCreate, herr]
      simp only [Proc.exec, ha, hc] at hs
      cases hs
      refine ⟨⟨h.fds, h.nodup, ?_, h.misused⟩, by simp [Proc.abs, Abs.accepts]⟩
      have hb := h.blocks
      rw [ha] at hb
      simp only [Os.malloc, Option.toList_some, List.length_singleton, Option.toList_none, List.length_nil] at hb ⊢
      omega

/-- `accept` returns. -/
theorem exec_acceptReturn {dst src : Var} {r : Except SockErrno Accepted} (h : Account p)
    (hd : p.abs.shape dst = .uninit ∨ p.abs.shape dst = .null) (hsrc : p.abs.shape src = .opened)
    (hs : p.exec prog (.accept dst src) (.accepted r) = some p') : Leaves (p.abs.accepts prog dst) p' := by
  rw [Proc.shape_abs] at hd hsrc
  have hempty := Ptr.shape_empty hd
  obtain ⟨sock, e, ho⟩ := Ptr.shape_opened hsrc
  have huse := h.use e ho
  cases ha : p.accepting with
  | none => simp [Proc.exec, Proc.deref, e, ha] at hs
  | some a =>
    have habs : ∀ os, ({ p with accepting := none, os := os } : Proc).abs = { p.abs with accepting := false } :=
      fun _ => rfl
    have hptr : ∀ os, ({ p with accepting := none, os := os } : Proc).ptr dst = p.ptr dst := by
      intro os
      cases dst <;> rfl
    cases r with
    | error errno =>
      simp only [Proc.exec, Proc.deref, e, ha, huse, Proc.accepted] at hs
      cases hs
      split_ifs with hi
      · refine ⟨⟨h.fds, h.nodup, ?_, h.misused⟩, by simp [Proc.abs, Abs.accepts]⟩
        rw [h.blocks, ha]
        rfl
      · refine leaves_acceptNull (h.accept_fail ha) (habs _) ?_ ?_
        · rw [hptr]
          exact hempty
        · cases errno <;> decide
    | ok c =>
      simp only [Proc.exec, Proc.deref, e, ha, huse, Proc.accepted] at hs
      split at hs
      · cases hs
      · next hn =>
        cases hs
        split_ifs with hbad
        · rw [destroy_opened]
          refine leaves_acceptNull (h.accept_fail ha) (habs _) ?_ (by decide)
          rw [hptr]
          exact hempty
        · refine ⟨(h.accept_ok ha hempty.1 hempty.2 hn _).check _, ?_⟩
          rw [Proc.abs_check, if_pos rfl, Proc.abs_set, habs]
          simp [Abs.accepts, Ptr.shape]

/-- A statement that makes one system call on a socket. -/
theorem leaves_call {q : Proc} (h : Account p) (hq : SameHold q p) (err : JfsErr) :
    Leaves [p.abs.pass, p.abs.jump prog] (q.check prog err) := hq.check h err (by simp) (by simp)

/-- Something is printed. -/
theorem leaves_prints (h : Account p) (o : Output) : Leaves [p.abs.pass] ((p.prints o).check prog .ok) := by
  have hacc : Account (p.prints o) := h.congr rfl rfl rfl rfl
  refine ⟨hacc.check .ok, ?_⟩
  rw [Proc.abs_check]
  exact List.mem_singleton.mpr rfl

/-- `jfs_ns_socket_connect`. -/
theorem exec_connect {r : Except SockErrno Unit} (h : Account p) (hv : p.abs.shape v = .opened)
    (hs : p.exec prog (.connect v) (.status r) = some p') : Leaves [p.abs, p.abs.pass, p.abs.jump prog] p' := by
  obtain ⟨sock, e, hq⟩ := h.call hv
  simp only [Proc.exec, Proc.deref, e] at hs
  cases r with
  | ok _ =>
    cases hs
    exact hq.check h _ (by simp) (by simp)
  | error errno =>
    cases hs
    split_ifs
    · exact ⟨hq.account h, by simp [hq.abs]⟩
    · exact hq.check h _ (by simp) (by simp)

/-- The start of a transfer. -/
theorem leaves_start (h : Account p) {ret : Proc → JfsErr → Proc} {n : Next}
    (hret : ∀ q', SameHold q' p → ∀ err, Leaves [p.abs, p.abs.pass, p.abs.jump prog] (ret q' err))
    (hs : (if p.total = none then some (p.settle n ret) else none) = some p') :
    Leaves [p.abs, p.abs.pass, p.abs.jump prog] p' := by
  split_ifs at hs
  cases hs
  exact SameHold.settle ⟨rfl, rfl, rfl, rfl, rfl, rfl, rfl⟩ h n hret

theorem leaves_check (h : Account p) (q : Proc) (hq : SameHold q p) (err : JfsErr) :
    Leaves [p.abs, p.abs.pass, p.abs.jump prog] (q.check prog err) := hq.check h err (by simp) (by simp)

/-- `send` returns. -/
theorem exec_send {r : Status} (h : Account p) (hv : p.abs.shape v = .opened)
    (hs : p.exec prog (.send v) (.sent r) = some p') : Leaves [p.abs, p.abs.pass, p.abs.jump prog] p' := by
  obtain ⟨sock, e, hq⟩ := h.call hv
  simp only [Proc.exec, Proc.deref, e, Option.bind_eq_bind] at hs
  obtain ⟨total, -, hs⟩ := Option.bind_eq_some_iff.mp hs
  cases hs
  exact hq.settle h _ (leaves_check h)

/-- `recv` returns. -/
theorem leaves_recvd {r : Except Errno (List UInt8)} {total : UInt64} {ret : Proc → JfsErr → Proc} (h : Account p)
    (hq : SameHold { p with os := p.os.use sock.fd } p)
    (hret : ∀ q', SameHold q' p → ∀ err, Leaves [p.abs, p.abs.pass, p.abs.jump prog] (ret q' err)) :
    Leaves [p.abs, p.abs.pass, p.abs.jump prog] (p.recvd sock total r ret) :=
  (hq.fill total r).settle h _ hret

/-- `jfs_ns_socket_close` and the reset of its error. -/
theorem exec_close {r : Except SockErrno Unit} (h : Account p) (hs : p.exec prog (.close v) (.status r) = some p') :
    Leaves (if p.abs.shape v = .uninit then [{ p.abs with undef := true }]
      else if p.abs.shape v = .null then [p.abs.pass] else [(p.abs.set .shut v).pass]) p' := by
  rw [Proc.shape_abs]
  cases e : p.ptr v with
  | uninit =>
    simp only [Proc.exec, e] at hs
    cases hs
    exact ⟨h.congr rfl rfl rfl rfl, by simp [Ptr.shape, Proc.abs]⟩
  | null =>
    simp only [Proc.exec, e] at hs
    cases hs
    exact ⟨h.check _, by simp [Ptr.shape, Proc.abs_check]⟩
  | live sock =>
    simp only [Proc.exec, e] at hs
    cases hs
    have hne := Ptr.shape_live_ne sock
    have hshut : (Ptr.live (jfsNsSocketClose p.os sock r).2.1).shape = .shut := by
      unfold jfsNsSocketClose
      cases hfd : sock.fd <;> simp [Ptr.shape, hfd]
    rw [if_neg hne.1, if_neg hne.2]
    refine ⟨(h.close e r).check _, ?_⟩
    rw [Proc.abs_check, if_pos rfl, Proc.abs_set, hshut]
    exact List.mem_singleton.mpr rfl

/-- `jfs_ns_socket_destroy`. -/
theorem exec_destroy (h : Account p) (hs : p.exec prog (.destroy v) .go = some p') :
    Leaves (if p.abs.shape v = .uninit then [{ p.abs with undef := true }] else [(p.abs.set .null v).skip]) p' := by
  rw [Proc.shape_abs]
  cases e : p.ptr v with
  | uninit =>
    simp only [Proc.exec, e] at hs
    cases hs
    exact ⟨h.congr rfl rfl rfl rfl, by simp [Ptr.shape, Proc.abs]⟩
  | null =>
    simp only [Proc.exec, e] at hs
    cases hs
    have hshape : p.abs.shape v = .null := by rw [p.shape_abs v, e, Ptr.shape]
    have hset := p.abs.set_shape v
    rw [hshape] at hset
    exact ⟨h.congr rfl rfl rfl rfl, by simp [Ptr.shape, hset]; rfl⟩
  | live sock =>
    simp only [Proc.exec, e] at hs
    cases hs
    rw [if_neg (Ptr.shape_live_ne sock).1]
    refine ⟨(h.destroy e).congr rfl rfl rfl rfl, List.mem_singleton.mpr ?_⟩
    cases v <;> rfl

/-- **A step** in a state that is fine keeps the account, and leads to one of the shapes. -/
theorem exec_leaves {a : Answer} (h : Account p) (hfine : p.abs.Needs (p.stmt prog))
    (hs : p.exec prog (p.stmt prog) a = some p') : Leaves (p.abs.next prog (p.stmt prog)) p' := by
  generalize p.stmt prog = st at hs hfine
  cases st with
  | create v =>
    cases a with
    | malloc allocated => exact exec_create h (of_decide_eq_true hfine.2) hfine.1 hs
    | _ => simp [Proc.exec] at hs
  | opens v =>
    cases a with
    | socket r => exact exec_opens h hfine hs
    | _ => simp [Proc.exec] at hs
  | setIp v port =>
    cases a with
    | pton r =>
      obtain ⟨sock, e⟩ := p.live_of_shape hfine
      simp only [Proc.exec, Proc.deref, e] at hs
      cases hs
      exact leaves_setAddr h e (fd_setIp sock port r) _
    | _ => simp [Proc.exec] at hs
  | setHostname v port =>
    cases a with
    | addrinfo r =>
      obtain ⟨sock, e⟩ := p.live_of_shape hfine
      simp only [Proc.exec, Proc.deref, e] at hs
      cases hs
      exact leaves_setAddr h e (fd_setHostname sock port r) _
    | _ => simp [Proc.exec] at hs
  | bind v =>
    cases a with
    | status r =>
      obtain ⟨sock, e, hq⟩ := h.call hfine
      simp only [Proc.exec, Proc.deref, e] at hs
      cases hs
      exact leaves_call h hq _
    | _ => simp [Proc.exec] at hs
  | listen v =>
    cases a with
    | status r =>
      obtain ⟨sock, e, hq⟩ := h.call hfine
      simp only [Proc.exec, Proc.deref, e] at hs
      cases hs
      exact leaves_call h hq _
    | _ => simp [Proc.exec] at hs
  | accept dst src =>
    cases a with
    | malloc allocated => exact exec_acceptMalloc h (of_decide_eq_true hfine.2.2) hfine.1 hs
    | accepted r => exact exec_acceptReturn h hfine.1 hfine.2.1 hs
    | _ => simp [Proc.exec] at hs
  | connect v =>
    cases a with
    | status r => exact exec_connect h hfine hs
    | _ => simp [Proc.exec] at hs
  | say =>
    cases a with
    | go =>
      cases hs
      exact leaves_prints h _
    | _ => simp [Proc.exec] at hs
  | send v =>
    cases a with
    | go => exact leaves_start h (leaves_check h) hs
    | sent r => exact exec_send h hfine hs
    | _ => simp [Proc.exec] at hs
  | recv v =>
    cases a with
    | go => exact leaves_start h (leaves_check h) hs
    | received r =>
      obtain ⟨sock, e, hq⟩ := h.call hfine
      simp only [Proc.exec, Proc.deref, e, Option.bind_eq_bind] at hs
      obtain ⟨total, -, hs⟩ := Option.bind_eq_some_iff.mp hs
      cases hs
      exact leaves_recvd h hq (leaves_check h)
    | _ => simp [Proc.exec] at hs
  | print =>
    cases a with
    | go =>
      cases hs
      exact leaves_prints h _
    | _ => simp [Proc.exec] at hs
  | shutdown v =>
    cases a with
    | status r =>
      obtain ⟨sock, e, hq⟩ := h.call hfine
      simp only [Proc.exec, Proc.deref, e] at hs
      cases hs
      exact leaves_call h hq _
    | _ => simp [Proc.exec] at hs
  | drain v =>
    cases a with
    | go => exact leaves_start h (fun q hq err => hq.drained h err) hs
    | received r =>
      obtain ⟨sock, e, hq⟩ := h.call hfine
      simp only [Proc.exec, Proc.deref, e, Option.bind_eq_bind] at hs
      obtain ⟨total, -, hs⟩ := Option.bind_eq_some_iff.mp hs
      cases hs
      exact leaves_recvd h hq fun q hq err => hq.drained h err
    | _ => simp [Proc.exec] at hs
  | close v =>
    cases a with
    | status r => exact exec_close h hs
    | _ => simp [Proc.exec] at hs
  | destroy v =>
    cases a with
    | go => exact exec_destroy h hs
    | _ => simp [Proc.exec] at hs
  | ret => simp [Proc.exec] at hs

/-! ### Runs -/

/-- What a run has given back when it returns. -/
def Proc.Released (p : Proc) : Prop := p.os.fds = [] ∧ p.os.blocks = 0

theorem step_leaves {a : Answer} (h : Account p) (hneeds : p.abs.Needs (p.abs.stmt prog)) (hs : p.step prog a = some p') :
    Leaves (p.abs.next prog (p.abs.stmt prog)) p' := by
  unfold Proc.step at hs
  split_ifs at hs
  exact exec_leaves h hneeds hs

/-- Shapes that a program does not leave. -/
def Closed (prog : Program) (l : List Abs) : Prop :=
  ∀ s ∈ l, s.Needs (s.stmt prog) ∧ ∀ s' ∈ s.next prog (s.stmt prog), s' ∈ l

instance (prog : Program) (l : List Abs) : Decidable (Closed prog l) :=
  inferInstanceAs (Decidable (∀ s ∈ l, _ ∧ ∀ s' ∈ s.next prog (s.stmt prog), _))

/-- Nothing is held when no variable points to a socket. -/
theorem Account.released (h : Account p) (hs : p.abs.server = .uninit ∨ p.abs.server = .null)
    (hc : p.abs.client = .uninit ∨ p.abs.client = .null) (ha : p.abs.accepting = false) : p.Released := by
  obtain ⟨hs1, hs2⟩ := Ptr.shape_empty hs
  obtain ⟨hc1, hc2⟩ := Ptr.shape_empty hc
  have hacc : p.accepting = none := by
    cases e : p.accepting with
    | none => rfl
    | some a => simp [Proc.abs, e] at ha
  refine ⟨?_, ?_⟩
  · have hf := h.fds
    rw [hs1, hc1] at hf
    exact hf.eq_nil
  · have hb := h.blocks
    rw [hs2, hc2, hacc] at hb
    exact hb

theorem start_account : Account (Proc.start .ok) := ⟨List.Perm.nil, List.nodup_nil, rfl, rfl⟩

/-- The shapes of the daemon. -/
def daemonShapes : List Abs :=
  [⟨0, true, .uninit, .uninit, false, false⟩, ⟨1, true, .uninit, .shut, false, false⟩] ++
    [2, 3, 4, 5, 6, 7, 8, 9, 10].map (fun i => ⟨i, true, .uninit, .opened, false, false⟩) ++
    [⟨11, true, .uninit, .shut, false, false⟩, ⟨12, true, .uninit, .null, false, false⟩] ++
    [.null, .shut, .opened].map (fun x => ⟨13, false, .uninit, x, false, false⟩) ++
    [⟨14, false, .uninit, .null, false, false⟩]

theorem daemonShapes_closed (data : TestData) : Closed (daemonRun data) daemonShapes := by
  have h : Closed (daemonRun daemonData) daemonShapes := by decide
  exact h

/-- The shapes of the server, as long as no call before `accept` has failed. -/
def serverShapes : List Abs :=
  [⟨0, true, .uninit, .uninit, false, false⟩, ⟨1, true, .shut, .uninit, false, false⟩] ++
    [2, 3, 4, 5].map (fun i => ⟨i, true, .opened, .uninit, false, false⟩) ++
    [⟨5, true, .opened, .uninit, true, false⟩] ++
    [6, 7, 8, 9, 10, 11].map (fun i => ⟨i, true, .opened, .opened, false, false⟩) ++
    [⟨12, true, .opened, .shut, false, false⟩, ⟨13, true, .opened, .null, false, false⟩,
      ⟨14, true, .null, .null, false, false⟩] ++
    [.null, .opened].map (fun x => ⟨15, false, .opened, x, false, false⟩) ++
    [.null, .opened].map (fun x => ⟨16, false, .null, x, false, false⟩) ++
    [⟨17, false, .null, .null, false, false⟩]

/-- Its shapes after one has failed. -/
def serverFailed : List Abs :=
  [.null, .shut, .opened].map (fun x => ⟨15, false, x, .uninit, false, false⟩) ++
    [⟨16, false, .null, .uninit, false, false⟩, ⟨16, false, .null, .uninit, false, true⟩]

end FileSync.NetSocket
