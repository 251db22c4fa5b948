import FileSync.NetSocket.Agreement
import Mathlib.Data.Fintype.EquivFin
import Mathlib.Tactic.IntervalCases

/-!
# That a session comes to its end

When no system call fails, the two programs cannot keep each other waiting: as long as one
of them has not returned, a call of one of them can succeed. Each call that succeeds
brings its program forward (`Proc.rank`), whatever is interrupted in between and in however
small pieces the records are sent and received, so a session is over after a number of them.
-/

namespace FileSync.NetSocket

variable {prog : Program} {p p' q : Proc} {o i o' i' : Chan} {a : Answer} {r : Role} {mine theirs : TestData}

/-! ### Calls that do not fail -/

/-- The system call succeeds, and what it gives passes the checks of the code. -/
def Answer.succeeds : Answer → Bool
  | .go => true
  | .malloc allocated => allocated
  | .socket (.ok _) => true
  | .pton addr => addr.isSome
  | .addrinfo (.ok info) => info.family = afInet ∧ info.addrlen = sizeofSockaddrIn
  | .status (.ok _) => true
  | .accepted (.ok c) => ¬ badAccept c
  | .sent (.ok _) => true
  | .received (.ok _) => true
  | _ => false

/-- It is interrupted, and the statement makes it again. -/
def Answer.interrupts : Stmt → Answer → Bool
  | .connect _, .status (.error .intr) => true
  | .accept _ _, .accepted (.error .intr) => true
  | .send _, .sent (.error .intr) => true
  | .recv _, .received (.error .intr) | .drain _, .received (.error .intr) => true
  | _, _ => false

/-! ### How far a program is -/

/-- How many calls of a statement can succeed before it is over. -/
def Stmt.turns : Stmt → ℕ
  | .accept _ _ | .drain _ => 2
  | .send _ | .recv _ => sizeofTestData + 1
  | _ => 1

/-- How far it is within its statement. -/
def Proc.within (p : Proc) : ℕ :=
  (if p.accepting.isSome then 1 else 0) + (p.total.elim 0 fun t => t.toNat + 1)

/-- How far it is. -/
def Proc.rank (prog : Program) (p : Proc) : ℕ := ((prog.code.take p.pc).map Stmt.turns).sum + p.within

/-- What a call that succeeds does. -/
structure Moves (p p' : Proc) : Prop where
  err : p'.err = .ok
  pc : p'.pc = p.pc + 1 ∨ (p'.pc = p.pc ∧ p.within < p'.within)

/-- After a check of the error that finds none. -/
theorem Moves.check (h : q.pc = p.pc) : Moves p (q.check prog .ok) :=
  ⟨rfl, .inl (by simp [Proc.check, h])⟩

theorem Proc.pc_set (p : Proc) (x : Ptr) (v : Var) : (p.set x v).pc = p.pc := by cases v <;> rfl

theorem sum_take_succ (prog : Program) {pc : ℕ} (h : pc < prog.code.length) :
    ((prog.code.take (pc + 1)).map Stmt.turns).sum =
      ((prog.code.take pc).map Stmt.turns).sum + ((prog.code[pc]?).getD .ret).turns := by
  rw [List.take_succ_eq_append_getElem h, List.map_append, List.sum_append, List.getElem?_eq_getElem h]
  simp

/-- A call that succeeds brings the program forward. -/
theorem Moves.rank_lt (h : Moves p p') (hpc : p.pc < prog.code.length) (hw : p.within < (p.stmt prog).turns) :
    p.rank prog < p'.rank prog := by
  rcases h.pc with e | ⟨e, hlt⟩
  · have hs := sum_take_succ prog hpc
    unfold Proc.stmt at hw
    unfold Proc.rank
    rw [e]
    omega
  · unfold Proc.rank
    rw [e]
    omega

/-! ### Statements -/

/-- What a statement needs besides, to go on: a variable that has been assigned, the port of the
server, and that it is `accept` which is accepting. -/
def Abs.GoesOn (s : Abs) : Stmt → Prop
  | .close v | .destroy v => s.shape v ≠ .uninit ∧ s.accepting = false
  | .setIp _ port | .setHostname _ port => port = servPort ∧ s.accepting = false
  | .accept _ _ => True
  | _ => s.accepting = false

instance (s : Abs) : (st : Stmt) → Decidable (s.GoesOn st)
  | .close _ | .destroy _ | .setIp _ _ | .setHostname _ _ => inferInstanceAs (Decidable (_ ∧ _))
  | .accept _ _ => inferInstanceAs (Decidable True)
  | .create _ | .opens _ | .bind _ | .listen _ | .connect _ | .say | .send _ | .recv _ | .print | .shutdown _ | .drain _ |
    .ret => inferInstanceAs (Decidable (_ = _))

/-- A statement whose calls can succeed. -/
structure Fine (p : Proc) (st : Stmt) : Prop where
  ok : p.err = .ok
  needs : p.abs.Needs st
  goesOn : p.abs.GoesOn st

/-- The socket that a statement uses. -/
theorem Proc.deref_eq {v : Var} {sock : Sock} (h : p.ptr v = .live sock) (f : Sock → Option Proc) :
    p.deref v f = f sock := by
  simp only [Proc.deref, h]

/-- A transfer begins. -/
theorem Moves.begin {ret : Proc → JfsErr → Proc} (herr : p.err = .ok) (ht : p.total = none) :
    Moves p (p.settle (loopHead (UInt64.ofNat sizeofTestData) 0) ret) := by
  rw [loopHead_again (by decide)]
  refine ⟨herr, .inr ⟨rfl, ?_⟩⟩
  simp only [Proc.within, Proc.settle, ht]
  exact Nat.add_lt_add_left (Nat.succ_pos _) _

/-- Some more bytes have been transferred. -/
theorem Moves.transfer {t t' : UInt64} (herr : q.err = .ok) (hpc : q.pc = p.pc) (ha : q.accepting = p.accepting)
    (ht : p.total = some t) (hlt : t.toNat < t'.toNat) (hle : t'.toNat ≤ sizeofTestData) :
    Moves p (q.settle (loopHead recordSize t') (Proc.check prog)) := by
  by_cases hall : t'.toNat < sizeofTestData
  · rw [loopHead_again hall]
    refine ⟨herr, .inr ⟨hpc, ?_⟩⟩
    simp only [Proc.within, Proc.settle, ht, ha, Option.elim_some]
    omega
  · rw [loopHead_ret (by omega)]
    exact Moves.check hpc

/-- The statements that transfer something. -/
def Stmt.Transfers : Stmt → Prop
  | .send _ | .recv _ | .drain _ => True
  | _ => False

/-- The other statements. -/
theorem exec_moves {st : Stmt} (h : Fine p st) (ha : a.succeeds = true) (hst : ¬ st.Transfers)
    (hs : p.exec prog st a = some p') : Moves p p' := by
  have herr := h.ok
  have hneeds := h.needs
  cases st with
  | create v =>
    cases a <;> simp only [Proc.exec, reduceCtorEq] at hs
    cases ha
    simp only [jfsNsSocketCreate, herr] at hs
    cases hs
    exact Moves.check (Proc.pc_set _ _ _)
  | opens v =>
    obtain ⟨sock, e⟩ := p.live_of_shape (.inl hneeds)
    cases a <;> simp only [Proc.exec, reduceCtorEq, Proc.deref_eq e] at hs
    rename_i r
    cases r with
    | error e => cases ha
    | ok fd =>
      simp only [] at hs
      split_ifs at hs
      cases hs
      exact Moves.check (Proc.pc_set _ _ _)
  | setIp v port =>
    obtain ⟨sock, e⟩ := p.live_of_shape hneeds
    cases a <;> simp only [Proc.exec, reduceCtorEq, Proc.deref_eq e] at hs
    rename_i addr
    obtain ⟨addr, rfl⟩ := Option.isSome_iff_exists.mp ha
    cases h.goesOn.1
    simp only [jfsNsSocketSetIp] at hs
    rw [if_neg (by decide)] at hs
    cases hs
    exact Moves.check (Proc.pc_set _ _ _)
  | setHostname v port =>
    obtain ⟨sock, e⟩ := p.live_of_shape hneeds
    cases a <;> simp only [Proc.exec, reduceCtorEq, Proc.deref_eq e] at hs
    rename_i info
    cases info with
    | error e => cases ha
    | ok info =>
      obtain ⟨hf, hl⟩ := of_decide_eq_true ha
      cases h.goesOn.1
      simp only [jfsNsSocketSetHostname] at hs
      rw [if_neg (by decide), if_neg (by simp [hf, hl])] at hs
      cases hs
      exact Moves.check (Proc.pc_set _ _ _)
  | bind v | listen v | shutdown v =>
    obtain ⟨sock, e⟩ := p.live_of_shape (.inr hneeds)
    cases a <;> simp only [Proc.exec, reduceCtorEq, Proc.deref_eq e] at hs
    rename_i status
    cases status with
    | error e => cases ha
    | ok u =>
      cases hs
      exact Moves.check rfl
  | accept dst src =>
    obtain ⟨sock, e⟩ := p.live_of_shape (.inr hneeds.2.1)
    cases a <;> simp only [Proc.exec, reduceCtorEq, Proc.deref_eq e] at hs
    · cases ha
      cases hw : p.accepting with
      | some x => simp [hw] at hs
      | none =>
        simp only [hw, jfsNsSocketCreate, herr] at hs
        cases hs
        exact ⟨rfl, .inr ⟨rfl, by simp [Proc.within, hw]⟩⟩
    · rename_i status
      cases hw : p.accepting with
      | none => simp [hw] at hs
      | some x =>
        cases status with
        | error e => cases ha
        | ok c =>
          have hbad : ¬ badAccept c := of_decide_eq_true ha
          simp only [hw] at hs
          split_ifs at hs
          cases hs
          simp only [Proc.accepted, if_neg hbad]
          exact Moves.check (Proc.pc_set _ _ _)
  | connect v =>
    obtain ⟨sock, e⟩ := p.live_of_shape (.inr hneeds)
    cases a <;> simp only [Proc.exec, reduceCtorEq, Proc.deref_eq e] at hs
    rename_i status
    cases status with
    | error e => cases ha
    | ok u =>
      cases hs
      exact Moves.check rfl
  | say | print =>
    cases a <;> simp only [Proc.exec, reduceCtorEq] at hs
    cases hs
    exact Moves.check rfl
  | send v | recv v | drain v => exact absurd trivial hst
  | close v =>
    have hv := h.goesOn.1
    rw [Proc.shape_abs] at hv
    cases a <;> simp only [Proc.exec, reduceCtorEq] at hs
    cases e : p.ptr v with
    | uninit => simp [e, Ptr.shape] at hv
    | null =>
      simp only [e] at hs
      cases hs
      exact Moves.check rfl
    | live sock =>
      simp only [e] at hs
      cases hs
      exact Moves.check (Proc.pc_set _ _ _)
  | destroy v =>
    have hv := h.goesOn.1
    rw [Proc.shape_abs] at hv
    cases a <;> simp only [Proc.exec, reduceCtorEq] at hs
    cases e : p.ptr v with
    | uninit => simp [e, Ptr.shape] at hv
    | null =>
      simp only [e] at hs
      cases hs
      exact ⟨herr, .inl rfl⟩
    | live sock =>
      simp only [e] at hs
      cases hs
      cases v <;> exact ⟨herr, .inl rfl⟩
  | ret => cases a <;> simp only [Proc.exec, reduceCtorEq] at hs

namespace PartyInv

variable {cap : ℕ} {v : Var}

/-- `send` succeeds. -/
theorem send_moves (hf : Fine p (.send v)) (hmine : mine.Fits) (ha : a.succeeds = true) (hs : p.exec prog (.send v) a = some p')
    (he : p.exchange cap mine.bytes o i (.send v) a = some (o', i')) : Moves p p' := by
  obtain ⟨sock, e⟩ := p.live_of_shape (.inr hf.needs)
  cases a <;> simp only [Proc.exec, reduceCtorEq, Proc.deref_eq e] at hs
  · split_ifs at hs with ht
    cases hs
    exact Moves.begin hf.ok ht
  · rename_i status
    obtain ⟨t, ht, hs⟩ := Option.bind_eq_some_iff.mp hs
    cases status with
    | error e => cases ha
    | ok k =>
      cases hs
      simp only [Proc.exchange, ht, Option.getD_some, Chan.put, Option.map_eq_some_iff] at he
      obtain ⟨c, hput, -⟩ := he
      split_ifs at hput with hk
      obtain ⟨hk0, hk1, -⟩ := hk
      rw [hmine.length_bytes] at hk1
      have hadd := toNat_add_of_le hk1
      have hturn : sendTurn recordSize t (.ok k) = loopHead recordSize (t + k) := by simp [sendTurn, jfsSend]
      rw [hturn]
      exact Moves.transfer hf.ok rfl rfl ht (by omega) (by omega)

/-- `recv` succeeds, before the end of the stream. -/
theorem recv_moves (h : PartyInv r mine theirs p o i) (hf : Fine p (.recv v)) (hpc : p.pc = r.recvAt)
    (htheirs : theirs.Fits) (hend : i.fin = true → i.wire = theirs.bytes)
    (ha : a.succeeds = true) (hs : p.exec prog (.recv v) a = some p')
    (he : p.exchange cap mine.bytes o i (.recv v) a = some (o', i')) : Moves p p' := by
  obtain ⟨sock, e⟩ := p.live_of_shape (.inr hf.needs)
  cases a <;> simp only [Proc.exec, reduceCtorEq, Proc.deref_eq e] at hs
  · split_ifs at hs with ht
    cases hs
    exact Moves.begin hf.ok ht
  · rename_i status
    obtain ⟨t, ht, hs⟩ := Option.bind_eq_some_iff.mp hs
    cases status with
    | error e => cases ha
    | ok bs =>
      cases hs
      have hlt := (h.transfer t ht).2.1
      have htaken := (h.taking hpc).1
      simp only [Proc.exchange, ht, Option.getD_some, Option.map_eq_some_iff] at he htaken
      obtain ⟨c, hget, -⟩ := he
      rcases get_cases h.taken hget with ⟨rfl, -, hfin, hall⟩ | ⟨hbs, -, hroom, -⟩
      · -- the stream has not ended before all of the record
        rw [hend hfin, htheirs.length_bytes] at hall
        omega
      · have hpos : 0 < bs.length := List.length_pos_of_ne_nil hbs
        have hsize := toNat_sizeOf (show bs.length ≤ sizeofTestData by omega)
        have hadd := toNat_add_of_le (t := t) (k := sizeOf bs) (by omega)
        have hmap : (Except.ok bs : Except Errno (List UInt8)).map sizeOf = .ok (sizeOf bs) := rfl
        unfold Proc.recvd
        rw [hmap, recvTurn_ok hbs (by omega)]
        exact Moves.transfer hf.ok rfl rfl ht (by omega) (by omega)

/-- `recv` succeeds in the loop at the end, where there is nothing more to come. -/
theorem drain_moves (hr : r.Sound) (h : PartyInv r mine theirs p o i) (hf : Fine p (.drain v)) (hpc : p.pc = r.drainAt)
    (htheirs : theirs.Fits) (hin : i.wire <+: theirs.bytes)
    (ha : a.succeeds = true) (hs : p.exec prog (.drain v) a = some p')
    (he : p.exchange cap mine.bytes o i (.drain v) a = some (o', i')) : Moves p p' := by
  obtain ⟨sock, e⟩ := p.live_of_shape (.inr hf.needs)
  cases a <;> simp only [Proc.exec, reduceCtorEq, Proc.deref_eq e] at hs
  · split_ifs at hs with ht
    cases hs
    exact Moves.begin hf.ok ht
  · rename_i status
    obtain ⟨t, ht, hs⟩ := Option.bind_eq_some_iff.mp hs
    cases status with
    | error e => cases ha
    | ok bs =>
      cases hs
      have h1 := hr.recv_shut
      have h2 := hr.shut_drain
      have h3 := hr.drain_cleanup
      have htk := (h.allTaken (by omega) (by omega)).1
      simp only [Proc.exchange, ht, Option.getD_some, Option.map_eq_some_iff] at he
      obtain ⟨c, hget, -⟩ := he
      rcases get_cases h.taken hget with ⟨rfl, -⟩ | ⟨hbs, -, -, -, hle⟩
      · have hturn : recvTurn recordSize t ((Except.ok [] : Except Errno (List UInt8)).map sizeOf) =
            .ret t .nsConnectionClose := rfl
        unfold Proc.recvd
        rw [hturn]
        exact Moves.check rfl
      · have hlen := hin.length_le
        rw [htheirs.length_bytes] at hlen
        have hpos : 0 < bs.length := List.length_pos_of_ne_nil hbs
        omega

end PartyInv

/-- A call that is interrupted changes nothing of this. -/
structure Waits (p p' : Proc) : Prop where
  err : p'.err = p.err
  pc : p'.pc = p.pc
  within : p'.within = p.within

/-- A transfer is where it was. -/
theorem Waits.again {t : UInt64} {ret : Proc → JfsErr → Proc} (ht : p.total = some t) (hlt : t.toNat < sizeofTestData)
    (herr : q.err = p.err) (hpc : q.pc = p.pc) (hacc : q.accepting = p.accepting) :
    Waits p (q.settle (loopHead recordSize t) ret) := by
  rw [loopHead_again hlt]
  refine ⟨herr, hpc, ?_⟩
  simp only [Proc.within, Proc.settle, ht, hacc]

theorem exec_interrupted {st : Stmt} (hneeds : p.abs.Needs st) (hlt : ∀ t, p.total = some t → t.toNat < sizeofTestData)
    (ha : a.interrupts st = true) (hs : p.exec prog st a = some p') : Waits p p' := by
  unfold Answer.interrupts at ha
  split at ha
  · obtain ⟨sock, e⟩ := p.live_of_shape (.inr hneeds)
    simp only [Proc.exec, Proc.deref_eq e] at hs
    cases hs
    exact ⟨rfl, rfl, rfl⟩
  · obtain ⟨sock, e⟩ := p.live_of_shape (.inr hneeds.2.1)
    simp only [Proc.exec, Proc.deref_eq e] at hs
    cases hw : p.accepting with
    | none => simp [hw] at hs
    | some x =>
      simp only [hw] at hs
      cases hs
      exact ⟨rfl, rfl, by simp [Proc.within, Proc.accepted, jfsAccept, hw]⟩
  · obtain ⟨sock, e⟩ := p.live_of_shape (.inr hneeds)
    simp only [Proc.exec, Proc.deref_eq e] at hs
    obtain ⟨t, ht, hs⟩ := Option.bind_eq_some_iff.mp hs
    cases hs
    exact Waits.again ht (hlt t ht) rfl rfl rfl
  · obtain ⟨sock, e⟩ := p.live_of_shape (.inr hneeds)
    simp only [Proc.exec, Proc.deref_eq e] at hs
    obtain ⟨t, ht, hs⟩ := Option.bind_eq_some_iff.mp hs
    cases hs
    exact Waits.again ht (hlt t ht) rfl rfl rfl
  · obtain ⟨sock, e⟩ := p.live_of_shape (.inr hneeds)
    simp only [Proc.exec, Proc.deref_eq e] at hs
    obtain ⟨t, ht, hs⟩ := Option.bind_eq_some_iff.mp hs
    cases hs
    exact Waits.again ht (hlt t ht) rfl rfl rfl
  · cases ha

/-! ### One side -/

theorem Stmt.turns_pos (st : Stmt) : 0 < st.turns := by
  cases st <;> simp [Stmt.turns]

/-- A side is not further within a statement than this can take. -/
theorem PartyInv.within_lt (hr : r.Sound) (h : PartyInv r mine theirs p o i) (hg : p.abs.GoesOn (r.stmtAt p.pc)) :
    p.within < (r.stmtAt p.pc).turns := by
  have hplace := hr.place p.pc
  have hpos := (r.stmtAt p.pc).turns_pos
  have h1 := hr.greet_send
  have h2 := hr.greet_recv
  have h3 := hr.send_shut
  have h4 := hr.recv_shut
  have h5 := hr.send_ne
  have h6 := hr.shut_drain
  cases ht : p.total with
  | none =>
    cases ha : p.accepting with
    | none => simpa [Proc.within, ht, ha] using hpos
    | some x =>
      have hacc : p.abs.accepting = true := by simp [Proc.abs, ha]
      cases hst : r.stmtAt p.pc <;> simp_all [Abs.GoesOn]
      simp [Proc.within, ht, ha, Stmt.turns]
  | some t =>
    obtain ⟨hat, hlt, hz⟩ := h.transfer t ht
    have hw : p.within = (if p.abs.accepting then 1 else 0) + (t.toNat + 1) := by
      rw [Proc.within, ht]
      rfl
    rw [hw]
    cases hst : r.stmtAt p.pc <;> rw [hst] at hplace hg <;> simp only [Role.Place] at hplace <;> try omega
    case send v =>
      have hn : p.abs.accepting = false := hg
      simp only [hn, Stmt.turns, Bool.false_eq_true, if_false]
      omega
    case recv v =>
      have hn : p.abs.accepting = false := hg
      simp only [hn, Stmt.turns, Bool.false_eq_true, if_false]
      omega
    case drain v =>
      have hn : p.abs.accepting = false := hg
      simp [hn, Stmt.turns, hz hplace]

/-- What a step without a failure does to a side. -/
structure Advances (prog : Program) (a : Answer) (p p' : Proc) : Prop where
  err : p'.err = .ok
  pc : p'.pc = p.pc ∨ (p'.pc = p.pc + 1 ∧ a.succeeds = true)
  rank : (if a.succeeds then 1 else 0) + p.rank prog ≤ p'.rank prog

/-- What holds behind a position: it held there before, or the program has passed that. -/
theorem Advances.behind {n : ℕ} {Q : Prop} (h : Advances prog a p p') (hlt : n < p'.pc) (hkeep : n < p.pc → Q)
    (hpass : p.pc = n → a.succeeds = true → Q) : Q := by
  rcases h.pc with e | ⟨e, hs⟩
  · exact hkeep (e ▸ hlt)
  · by_cases hn : p.pc = n
    · exact hpass hn hs
    · exact hkeep (by omega)

theorem PartyInv.advances {cap : ℕ} (hr : r.Sound) (hcode : prog.code = r.code) (h : PartyInv r mine theirs p o i)
    (hf : Fine p (p.stmt prog)) (hlen : p.pc < prog.code.length) (hmine : mine.Fits) (htheirs : theirs.Fits)
    (hin : i.wire <+: theirs.bytes) (hend : i.fin = true → i.wire = theirs.bytes)
    (ha : a.succeeds = true ∨ a.interrupts (p.stmt prog) = true) (hs : p.exec prog (p.stmt prog) a = some p')
    (he : p.exchange cap mine.bytes o i (p.stmt prog) a = some (o', i')) : Advances prog a p p' := by
  have hst : p.stmt prog = r.stmtAt p.pc := by rw [Proc.stmt, hcode, Role.stmtAt]
  by_cases hsucc : a.succeeds = true
  · have hm : Moves p p' := by
      have hplace := hr.place p.pc
      rw [← hst] at hplace
      cases e : p.stmt prog <;> rw [e] at hplace hs he hf
      case send v => exact send_moves hf hmine hsucc hs he
      case recv v => exact h.recv_moves hf hplace htheirs hend hsucc hs he
      case drain v => exact h.drain_moves hr hf hplace htheirs hin hsucc hs he
      all_goals exact exec_moves hf hsucc id hs
    have hw := h.within_lt hr (hst ▸ hf.goesOn)
    rw [← hst] at hw
    refine ⟨hm.err, ?_, ?_⟩
    · rcases hm.pc with e | ⟨e, -⟩
      · exact .inr ⟨e, hsucc⟩
      · exact .inl e
    · rw [if_pos hsucc]
      have := hm.rank_lt hlen hw
      omega
  · have hw := exec_interrupted hf.needs (fun t ht => (h.transfer t ht).2.1) (ha.resolve_left hsucc) hs
    refine ⟨hw.err.trans hf.ok, .inl hw.pc, ?_⟩
    rw [if_neg hsucc, Proc.rank, Proc.rank, hw.pc, hw.within]
    omega

/-! ### The session -/

namespace Session

variable {cap : ℕ} {d : Records} {s s' t : Session} {x : Party}

/-- **A session in which nothing has failed.** The server listens behind `listen`, the daemon has
connected behind `connect`, and a stream has ended behind the `shutdown` of its sender. -/
structure Live (d : Records) (s : Session) : Prop where
  inv : Inv d s
  serverOk : s.server.err = .ok
  daemonOk : s.daemon.err = .ok
  listening : 4 < s.server.pc → s.listening = true
  connected : 3 < s.daemon.pc → s.connected = true
  serverFin : 9 < s.server.pc → s.toDaemon.fin = true
  daemonFin : 8 < s.daemon.pc → s.toServer.fin = true

/-- No call of the run fails. -/
def cleanRun (cap : ℕ) (d : Records) : Session → List (Party × Answer) → Bool
  | _, [] => true
  | s, e :: es => (e.2.succeeds || e.2.interrupts ((s.proc e.1).stmt (program d e.1))) &&
    (s.step cap d e.1 e.2).all fun s' => cleanRun cap d s' es

/-- How far a session is. -/
def rank (d : Records) (s : Session) : ℕ := s.server.rank (serverRun d.server) + s.daemon.rank (daemonRun d.daemon)

/-- The shapes of the server without an error. -/
theorem serverShapes_ok : ∀ s ∈ serverShapes ++ serverFailed, s.ok = true →
    s.pc < 15 ∧ s.undef = false ∧ s.GoesOn (s.stmt (serverRun serverData)) ∧
      (s.pc = 14 → s.server = .null ∧ s.client = .null ∧ s.accepting = false) := by
  decide

/-- The shapes of the daemon without an error. -/
theorem daemonShapes_ok : ∀ s ∈ daemonShapes, s.ok = true →
    s.pc < 13 ∧ s.undef = false ∧ s.GoesOn (s.stmt (daemonRun daemonData)) ∧
      (s.pc = 12 → s.server = .uninit ∧ s.client = .null ∧ s.accepting = false) := by
  decide

namespace Live

theorem server_ok (h : Live d s) : s.server.pc < 15 ∧ s.server.undef = false ∧
    Fine s.server (s.server.stmt (serverRun d.server)) := by
  have hok : s.server.abs.ok = true := by simp [Proc.abs, h.serverOk]
  obtain ⟨hpc, hundef, hgo, -⟩ := serverShapes_ok s.server.abs h.inv.serverHolds.2 hok
  exact ⟨hpc, hundef, h.serverOk, (serverShapes_all d.server s.server.abs h.inv.serverHolds.2).1, hgo⟩

theorem daemon_ok (h : Live d s) : s.daemon.pc < 13 ∧ s.daemon.undef = false ∧
    Fine s.daemon (s.daemon.stmt (daemonRun d.daemon)) := by
  have hok : s.daemon.abs.ok = true := by simp [Proc.abs, h.daemonOk]
  obtain ⟨hpc, hundef, hgo, -⟩ := daemonShapes_ok s.daemon.abs h.inv.daemonHolds.2 hok
  exact ⟨hpc, hundef, h.daemonOk, (daemonShapes_closed d.daemon s.daemon.abs h.inv.daemonHolds.2).1, hgo⟩

/-- A stream that has ended has all of its record. -/
theorem toServer_all (h : Live d s) (hfin : s.toServer.fin = true) : s.toServer.wire = d.daemon.bytes := by
  have hpc := h.daemon_ok.1
  have hshut : 8 < s.daemon.pc := h.inv.daemon.fin hfin
  exact h.inv.daemon.allSent (show 5 < s.daemon.pc by omega) hpc

theorem toDaemon_all (h : Live d s) (hfin : s.toDaemon.fin = true) : s.toDaemon.wire = d.server.bytes := by
  have hpc := h.server_ok.1
  have hshut : 9 < s.server.pc := h.inv.server.fin hfin
  exact h.inv.server.allSent (show 8 < s.server.pc by omega) hpc

end Live

/-- `listen` and `connect` have succeeded where the program goes on. -/
theorem meet_keeps {st : Stmt} (h : s.meet st a = some t) :
    (s.listening = true → t.listening = true) ∧ (s.connected = true → t.connected = true) ∧
      (∀ v u, st = .listen v → a = .status (.ok u) → t.listening = true) ∧
      (∀ v u, st = .connect v → a = .status (.ok u) → t.connected = true) := by
  unfold meet at h
  split at h
  · cases h
    exact ⟨fun _ => rfl, id, fun _ _ _ _ => rfl, nofun⟩
  · split_ifs at h with hl
    cases h
    exact ⟨id, fun _ => rfl, nofun, fun _ _ _ _ => rfl⟩
  · split_ifs at h with hl
    cases h
    exact ⟨id, id, nofun, nofun⟩
  · rename_i hlisten hconnect _
    cases h
    refine ⟨id, id, ?_, ?_⟩
    · rintro v u rfl rfl
      exact absurd rfl (hlisten v u rfl)
    · rintro v u rfl rfl
      exact absurd rfl (hconnect v u rfl)

/-- The statements whose only system call gives a status. -/
theorem status_of_exec {st : Stmt} {v : Var} (hst : st = .listen v ∨ st = .connect v ∨ st = .shutdown v)
    (ha : a.succeeds = true) (hs : p.exec prog st a = some p') : ∃ u, a = .status (.ok u) := by
  rcases hst with rfl | rfl | rfl <;> cases a <;> simp only [Proc.exec, reduceCtorEq] at hs <;> rename_i status <;>
    cases status
  all_goals first | exact ⟨_, rfl⟩ | cases ha

/-- A stream stays ended, and has ended where the program goes on behind `shutdown`. -/
theorem exchange_keeps {buf : List UInt8} {st : Stmt} (h : p.exchange cap buf o i st a = some (o', i')) :
    (o.fin = true → o'.fin = true) ∧ i'.fin = i.fin ∧
      (∀ v u, st = .shutdown v → a = .status (.ok u) → o'.fin = true) := by
  unfold Proc.exchange at h
  split at h
  · obtain ⟨c, hput, h⟩ := Option.map_eq_some_iff.mp h
    cases h
    unfold Chan.put at hput
    split_ifs at hput
    cases hput
    exact ⟨id, rfl, nofun⟩
  · obtain ⟨c, hget, h⟩ := Option.map_eq_some_iff.mp h
    cases h
    unfold Chan.get at hget
    split_ifs at hget <;> cases hget <;> exact ⟨id, rfl, nofun⟩
  · obtain ⟨c, hget, h⟩ := Option.map_eq_some_iff.mp h
    cases h
    unfold Chan.get at hget
    split_ifs at hget <;> cases hget <;> exact ⟨id, rfl, nofun⟩
  · cases h
    exact ⟨fun _ => rfl, rfl, fun _ _ _ _ => rfl⟩
  · cases h
    exact ⟨fun hf => by simp [hf], rfl, nofun⟩
  · cases h
    exact ⟨fun hf => by simp [hf], rfl, nofun⟩
  · rename_i hshut
    cases h
    refine ⟨id, rfl, ?_⟩
    rintro v u rfl rfl
    exact absurd rfl (hshut v u rfl)

theorem exec_of_step (hundef : p.undef = false) (hs : p.step prog a = some p') :
    p.exec prog (p.stmt prog) a = some p' := by
  rw [Proc.step, hundef] at hs
  exact hs

/-- A step without a failure: nothing has failed behind it, and it brings the session forward
unless it was interrupted. -/
theorem Live.step (hserver : d.server.Fits) (hdaemon : d.daemon.Fits) (h : Live d s)
    (hc : a.succeeds = true ∨ a.interrupts ((s.proc x).stmt (program d x)) = true) (hs : s.step cap d x a = some s') : Live d s' ∧ (if a.succeeds then 1 else 0) + s.rank d ≤ s'.rank d := by
  have hinv := h.inv.step hserver hdaemon hs
  obtain ⟨p', o', i', t, hp, he, hm, rfl⟩ := step_cases hs
  obtain ⟨ms, md, mts, mtd⟩ := meet_eq hm
  obtain ⟨hl, hcon, hlisten, hconnect⟩ := meet_keeps hm
  obtain ⟨ho, hi, hshut⟩ := exchange_keeps he
  cases x with
  | server =>
    obtain ⟨hpc, hundef, hfine⟩ := h.server_ok
    have hx := exec_of_step hundef hp
    have hcode : (serverRun d.server).code = serverRole.code := rfl
    have hlen : 15 ≤ serverRole.code.length := by decide
    have hadv := h.inv.server.advances Role.serverRole_sound hcode hfine (Nat.lt_of_lt_of_le hpc hlen) hserver hdaemon
      h.inv.daemon.sent h.toServer_all hc hx he
    have hstmt : ∀ n, s.server.pc = n → s.server.stmt (serverRun d.server) = serverRole.stmtAt n := by
      rintro n rfl
      rfl
    refine ⟨⟨hinv, hadv.err, md ▸ h.daemonOk, fun hlt => ?_, fun hlt => hcon (h.connected (md ▸ hlt)), fun hlt => ?_,
      fun hlt => hi.trans (h.daemonFin (md ▸ hlt))⟩, ?_⟩
    · refine hadv.behind hlt (fun hlt => hl (h.listening hlt)) fun hn hsucc => ?_
      obtain ⟨u, hu⟩ := status_of_exec (v := .server) (.inl (hstmt 4 hn)) hsucc hx
      exact hlisten _ u (hstmt 4 hn) hu
    · refine hadv.behind hlt (fun hlt => ho (h.serverFin hlt)) fun hn hsucc => ?_
      obtain ⟨u, hu⟩ := status_of_exec (v := .client) (.inr (.inr (hstmt 9 hn))) hsucc hx
      exact hshut _ u (hstmt 9 hn) hu
    · have hrank := hadv.rank
      show _ + (s.server.rank _ + s.daemon.rank _) ≤ p'.rank _ + t.daemon.rank _
      rw [md]
      omega
  | daemon =>
    obtain ⟨hpc, hundef, hfine⟩ := h.daemon_ok
    have hx := exec_of_step hundef hp
    have hcode : (daemonRun d.daemon).code = daemonRole.code := rfl
    have hlen : 13 ≤ daemonRole.code.length := by decide
    have hadv := h.inv.daemon.advances Role.daemonRole_sound hcode hfine (Nat.lt_of_lt_of_le hpc hlen) hdaemon hserver
      h.inv.server.sent h.toDaemon_all hc hx he
    have hstmt : ∀ n, s.daemon.pc = n → s.daemon.stmt (daemonRun d.daemon) = daemonRole.stmtAt n := by
      rintro n rfl
      rfl
    refine ⟨⟨hinv, ms ▸ h.serverOk, hadv.err, fun hlt => hl (h.listening (ms ▸ hlt)), fun hlt => ?_,
      fun hlt => hi.trans (h.serverFin (ms ▸ hlt)), fun hlt => ?_⟩, ?_⟩
    · refine hadv.behind hlt (fun hlt => hcon (h.connected hlt)) fun hn hsucc => ?_
      obtain ⟨u, hu⟩ := status_of_exec (v := .client) (.inr (.inl (hstmt 3 hn))) hsucc hx
      exact hconnect _ u (hstmt 3 hn) hu
    · refine hadv.behind hlt (fun hlt => ho (h.daemonFin hlt)) fun hn hsucc => ?_
      obtain ⟨u, hu⟩ := status_of_exec (v := .client) (.inr (.inr (hstmt 8 hn))) hsucc hx
      exact hshut _ u (hstmt 8 hn) hu
    · have hrank := hadv.rank
      show _ + (s.server.rank _ + s.daemon.rank _) ≤ t.server.rank _ + p'.rank _
      rw [ms]
      omega

/-! ### Progress -/

/-- The statement of a side need not wait for the other one. -/
def Ready (cap : ℕ) (s : Session) (p : Proc) (o i : Chan) : Stmt → Prop
  | .connect _ => s.listening = true
  | .accept _ _ => p.accepting = none ∨ s.connected = true
  | .send _ => p.total = none ∨ o.wire.length < o.taken + cap
  | .recv _ => p.total = none ∨ i.taken < i.wire.length
  | .drain _ => p.total = none ∨ (i.fin = true ∧ i.taken = i.wire.length)
  | .ret => False
  | _ => True

/-- A side waits to send: it has not sent all, and there is no room. -/
theorem blocked_send (h : PartyInv r mine theirs p o i) (hpc : p.pc = r.sendAt)
    (hb : ¬ (p.total = none ∨ o.wire.length < o.taken + cap)) :
    o.wire.length < sizeofTestData ∧ o.taken + cap ≤ o.wire.length := by
  obtain ⟨ht, hfull⟩ := not_or.mp hb
  obtain ⟨t, ht⟩ := Option.ne_none_iff_exists'.mp ht
  have hlen := h.sending hpc
  rw [ht, Option.getD_some] at hlen
  exact ⟨hlen ▸ (h.transfer t ht).2.1, Nat.le_of_not_lt hfull⟩

/-- A side waits to receive: it has not received all, and there is nothing. -/
theorem blocked_recv (h : PartyInv r mine theirs p o i) (hpc : p.pc = r.recvAt)
    (hb : ¬ (p.total = none ∨ i.taken < i.wire.length)) :
    i.taken < sizeofTestData ∧ i.wire.length ≤ i.taken := by
  obtain ⟨ht, hempty⟩ := not_or.mp hb
  obtain ⟨t, ht⟩ := Option.ne_none_iff_exists'.mp ht
  have hlen := (h.taking hpc).1
  rw [ht, Option.getD_some] at hlen
  exact ⟨hlen ▸ (h.transfer t ht).2.1, Nat.le_of_not_lt hempty⟩

/-- A side waits for the end of the stream: the other one, at `pc`, has not come behind its
`shutdown` at `n`. -/
theorem blocked_drain {n pc : ℕ} (hfin : n < pc → i.fin = true)
    (hb : ¬ (p.total = none ∨ (i.fin = true ∧ i.taken = i.wire.length))) : pc ≤ n ∨ i.taken ≠ i.wire.length := by
  by_cases hlt : n < pc
  · exact .inr fun e => hb (.inr ⟨hfin hlt, e⟩)
  · exact .inl (Nat.le_of_not_lt hlt)

namespace Live

/-- Where the server waits for the daemon. -/
theorem server_blocked (h : Live d s)
    (hb : ¬ Ready cap s s.server s.toDaemon s.toServer (s.server.stmt (serverRun d.server))) :
    (s.server.pc = 5 ∧ s.daemon.pc ≤ 3) ∨
      (s.server.pc = 6 ∧ s.toServer.taken < sizeofTestData ∧ s.toServer.wire.length ≤ s.toServer.taken) ∨
      (s.server.pc = 8 ∧ s.toDaemon.wire.length < sizeofTestData ∧
        s.toDaemon.taken + cap ≤ s.toDaemon.wire.length) ∨
      (s.server.pc = 10 ∧ (s.daemon.pc ≤ 8 ∨ s.toServer.taken ≠ s.toServer.wire.length)) ∨
      s.server.pc = 14 := by
  have hpc := h.server_ok.1
  obtain ⟨pc, hp⟩ : ∃ pc, s.server.pc = pc := ⟨_, rfl⟩
  rw [Proc.stmt, hp] at hb
  rw [hp] at hpc
  interval_cases pc <;> first | exact absurd trivial hb | skip
  · exact .inl ⟨hp, Nat.le_of_not_lt fun hlt => hb (.inr (h.connected hlt))⟩
  · exact .inr (.inl ⟨hp, blocked_recv h.inv.server hp hb⟩)
  · exact .inr (.inr (.inl ⟨hp, blocked_send h.inv.server hp hb⟩))
  · exact .inr (.inr (.inr (.inl ⟨hp, blocked_drain h.daemonFin hb⟩)))
  · exact .inr (.inr (.inr (.inr hp)))

/-- Where the daemon waits for the server. -/
theorem daemon_blocked (h : Live d s)
    (hb : ¬ Ready cap s s.daemon s.toServer s.toDaemon (s.daemon.stmt (daemonRun d.daemon))) :
    (s.daemon.pc = 3 ∧ s.server.pc ≤ 4) ∨
      (s.daemon.pc = 5 ∧ s.toServer.wire.length < sizeofTestData ∧
        s.toServer.taken + cap ≤ s.toServer.wire.length) ∨
      (s.daemon.pc = 6 ∧ s.toDaemon.taken < sizeofTestData ∧ s.toDaemon.wire.length ≤ s.toDaemon.taken) ∨
      (s.daemon.pc = 9 ∧ (s.server.pc ≤ 9 ∨ s.toDaemon.taken ≠ s.toDaemon.wire.length)) ∨
      s.daemon.pc = 12 := by
  have hpc := h.daemon_ok.1
  obtain ⟨pc, hp⟩ : ∃ pc, s.daemon.pc = pc := ⟨_, rfl⟩
  rw [Proc.stmt, hp] at hb
  rw [hp] at hpc
  interval_cases pc <;> first | exact absurd trivial hb | skip
  · exact .inl ⟨hp, Nat.le_of_not_lt fun hlt => hb (h.listening hlt)⟩
  · exact .inr (.inl ⟨hp, blocked_send h.inv.daemon hp hb⟩)
  · exact .inr (.inr (.inl ⟨hp, blocked_recv h.inv.daemon hp hb⟩))
  · exact .inr (.inr (.inr (.inl ⟨hp, blocked_drain h.serverFin hb⟩)))
  · exact .inr (.inr (.inr (.inr hp)))

/-- **No deadlock**: as long as one side has not returned, one of them need not wait. -/
theorem ready (hcap : 0 < cap) (hserver : d.server.Fits) (hdaemon : d.daemon.Fits) (h : Live d s)
    (hs : ¬ Ready cap s s.server s.toDaemon s.toServer (s.server.stmt (serverRun d.server)))
    (hd : ¬ Ready cap s s.daemon s.toServer s.toDaemon (s.daemon.stmt (daemonRun d.daemon))) :
    s.server.pc = 14 ∧ s.daemon.pc = 12 := by
  have hpcs := h.server_ok.1
  have hpcd := h.daemon_ok.1
  -- how much has been sent and received, by where the two are
  have sent1 : 5 < s.daemon.pc → s.toServer.wire.length = sizeofTestData := fun hlt => by
    rw [h.inv.daemon.allSent hlt hpcd, hdaemon.length_bytes]
  have sent2 : 8 < s.server.pc → s.toDaemon.wire.length = sizeofTestData := fun hlt => by
    rw [h.inv.server.allSent hlt hpcs, hserver.length_bytes]
  have taken1 : 6 < s.server.pc → s.toServer.taken = sizeofTestData := fun hlt => (h.inv.server.allTaken hlt hpcs).1
  have taken2 : 6 < s.daemon.pc → s.toDaemon.taken = sizeofTestData := fun hlt => (h.inv.daemon.allTaken hlt hpcd).1
  have le1 : s.toServer.taken ≤ s.toServer.wire.length := h.inv.server.taken
  have le2 : s.toDaemon.taken ≤ s.toDaemon.wire.length := h.inv.daemon.taken
  have all1 : s.toServer.wire.length ≤ sizeofTestData := hdaemon.length_bytes ▸ h.inv.daemon.sent.length_le
  have all2 : s.toDaemon.wire.length ≤ sizeofTestData := hserver.length_bytes ▸ h.inv.server.sent.length_le
  have hS := h.server_blocked hs
  have hD := h.daemon_blocked hd
  omega

theorem run {es : List (Party × Answer)} (hserver : d.server.Fits) (hdaemon : d.daemon.Fits) (h : Live d s)
    (hc : s.cleanRun cap d es = true) (hr : s.run cap d es = some s') :
    Live d s' ∧ es.countP (fun e => e.2.succeeds) + s.rank d ≤ s'.rank d := by
  induction es generalizing s with
  | nil =>
    cases hr
    exact ⟨h, by simp⟩
  | cons e es ih =>
    obtain ⟨t, hs, hr⟩ := Option.bind_eq_some_iff.mp hr
    simp only [cleanRun, hs, Option.all_some, Bool.and_eq_true, Bool.or_eq_true] at hc
    obtain ⟨ht, hrank⟩ := h.step hserver hdaemon hc.1 hs
    obtain ⟨hs', hle⟩ := ih ht hc.2 hr
    refine ⟨hs', ?_⟩
    rw [List.countP_cons]
    omega

end Live

end Session

end FileSync.NetSocket
