import FileSync.NetSocket.Exchange
import FileSync.NetSocket.Session
import Mathlib.Data.List.Infix

/-!
# One side of the session

What one of the two programs has sent, received and printed by the time it is at a
position in its code (`PartyInv`), and that each of its steps keeps this, whatever its
system calls return. Both programs send one record, receive one, print it, shut down and
wait for the end of the stream, in an order of their own; a `Role` says where each of
them does what, and the proofs are for any role whose layout is sound.
-/

namespace FileSync.NetSocket

/-! ### Where the statements are -/

/-- The layout of a program: what it says first and where, and where it sends, receives, shuts
down and goes into the loop at the end. -/
structure Role where
  code : List Stmt
  cleanup : ℕ
  greet : List Output
  greetAt : ℕ
  sendAt : ℕ
  recvAt : ℕ
  shutAt : ℕ
  drainAt : ℕ

/-- The layout of the server. -/
def serverRole : Role := ⟨(serverRun serverData).code, 15, [], 0, 8, 6, 9, 10⟩

/-- The layout of the daemon. -/
def daemonRole : Role := ⟨(daemonRun daemonData).code, 13, [.connected], 4, 5, 6, 8, 9⟩

namespace Role

/-- The statement at a position. -/
def stmtAt (r : Role) (pc : ℕ) : Stmt := (r.code[pc]?).getD .ret

/-- The position is one for such a statement. -/
def Place (r : Role) (pc : ℕ) : Stmt → Prop
  | .send _ => pc = r.sendAt
  | .recv _ => pc = r.recvAt
  | .print => pc = r.recvAt + 1
  | .say => pc = r.greetAt ∧ r.greet = [.connected]
  | .shutdown _ => pc = r.shutAt
  | .drain _ => pc = r.drainAt
  | .close _ | .destroy _ | .ret => r.drainAt < pc
  | _ => pc < r.sendAt ∧ pc < r.recvAt ∧ (r.greet = [] ∨ pc < r.greetAt)

instance (r : Role) (pc : ℕ) : (st : Stmt) → Decidable (r.Place pc st)
  | .send _ | .recv _ | .print | .shutdown _ | .drain _ => inferInstanceAs (Decidable (_ = _))
  | .say => inferInstanceAs (Decidable (_ ∧ _))
  | .close _ | .destroy _ | .ret => inferInstanceAs (Decidable (_ < _))
  | .create _ | .opens _ | .setIp _ _ | .setHostname _ _ | .bind _ | .listen _ | .accept _ _ | .connect _ =>
    inferInstanceAs (Decidable (_ ∧ _))

/-- The layout is right, and in this order. -/
structure Sound (r : Role) : Prop where
  place : ∀ pc, r.Place pc (r.stmtAt pc)
  greet_safe : .safeShutdown ∉ r.greet
  greet_send : r.greetAt < r.sendAt
  greet_recv : r.greetAt < r.recvAt
  send_shut : r.sendAt < r.shutAt
  recv_shut : r.recvAt + 1 < r.shutAt
  send_ne : r.sendAt ≠ r.recvAt ∧ r.sendAt ≠ r.recvAt + 1
  shut_drain : r.shutAt < r.drainAt
  drain_cleanup : r.drainAt < r.cleanup

/-- Behind the end of the code there is nothing but `ret`. -/
theorem place_of_lt {r : Role} (h : ∀ pc < r.code.length, r.Place pc (r.stmtAt pc)) (hd : r.drainAt < r.code.length)
    (pc : ℕ) : r.Place pc (r.stmtAt pc) := by
  by_cases hpc : pc < r.code.length
  · exact h pc hpc
  · rw [stmtAt, List.getElem?_eq_none (Nat.le_of_not_lt hpc)]
    exact lt_of_lt_of_le hd (Nat.le_of_not_lt hpc)

theorem serverRole_sound : serverRole.Sound :=
  ⟨place_of_lt (by decide) (by decide), by decide, by decide, by decide, by decide, by decide, by decide, by decide, by decide⟩

theorem daemonRole_sound : daemonRole.Sound :=
  ⟨place_of_lt (by decide) (by decide), by decide, by decide, by decide, by decide, by decide, by decide, by decide, by decide⟩

/-- What has been printed when the program is at a position before `cleanup`. -/
def said (r : Role) (theirs : TestData) (pc : ℕ) : List Output :=
  (if r.greetAt < pc then r.greet else []) ++ ((if r.recvAt + 1 < pc then [.data theirs] else []) ++
    if r.drainAt < pc then [.safeShutdown] else [])

end Role

/-! ### Statements that neither transfer nor print -/

variable {prog : Program} {p p' q : Proc} {o i o' i' : Chan} {a : Answer}

/-- The statements that transfer something or print something. -/
def Stmt.Talks : Stmt → Prop
  | .say | .send _ | .recv _ | .print | .drain _ => True
  | _ => False

/-- The states do not differ in what has been transferred and printed. -/
structure Mute (q p : Proc) : Prop where
  pc : q.pc = p.pc
  total : q.total = p.total
  recvData : q.recvData = p.recvData
  out : q.out = p.out

theorem Mute.refl (p : Proc) : Mute p p := ⟨rfl, rfl, rfl, rfl⟩

theorem Mute.set (h : Mute q p) (x : Ptr) (v : Var) : Mute (q.set x v) p := by
  cases v
  · exact ⟨h.pc, h.total, h.recvData, h.out⟩
  · exact ⟨h.pc, h.total, h.recvData, h.out⟩

/-- What such a statement does: it stays, goes on or jumps. -/
structure Quiet (prog : Program) (p p' : Proc) : Prop where
  total : p'.total = p.total
  recvData : p'.recvData = p.recvData
  out : p'.out = p.out
  pc : p'.pc = p.pc ∨ p'.pc = p.pc + 1 ∨ p'.pc = prog.cleanup

theorem Mute.quiet (h : Mute q p) : Quiet prog p q := ⟨h.total, h.recvData, h.out, .inl h.pc⟩

theorem Mute.check (h : Mute q p) (err : JfsErr) : Quiet prog p (q.check prog err) := by
  refine ⟨h.total, h.recvData, h.out, .inr ?_⟩
  unfold Proc.check
  split_ifs
  · exact .inl (by rw [h.pc])
  · exact .inr rfl

/-- A statement that uses a socket. -/
theorem quiet_deref {v : Var} {f : Sock → Option Proc} (hf : ∀ sock, f sock = some p' → Quiet prog p p')
    (hs : p.deref v f = some p') : Quiet prog p p' := by
  unfold Proc.deref at hs
  split at hs
  · exact hf _ hs
  · cases hs
    exact Mute.quiet ⟨rfl, rfl, rfl, rfl⟩

theorem quiet_accepted {dst : Var} (hq : Mute q p) (r : Except SockErrno Accepted) :
    Quiet prog p (q.accepted prog dst r) := by
  have hmute : ∀ os acc, Mute { q with os := os, accepting := acc } p :=
    fun _ _ => ⟨hq.pc, hq.total, hq.recvData, hq.out⟩
  cases r with
  | error e =>
    simp only [Proc.accepted]
    split_ifs
    · exact (hmute q.os _).quiet
    · exact ((hmute _ none).set _ _).check _
  | ok c =>
    simp only [Proc.accepted]
    split_ifs
    · exact ((hmute _ none).set _ _).check _
    · exact ((hmute _ none).set _ _).check _

theorem exec_quiet {st : Stmt} (hst : ¬ st.Talks) (hs : p.exec prog st a = some p') : Quiet prog p p' := by
  have hos : ∀ os, Mute { p with os := os } p := fun _ => ⟨rfl, rfl, rfl, rfl⟩
  cases st with
  | say | send _ | recv _ | print | drain _ => exact absurd trivial hst
  | create v =>
    cases a with
    | malloc allocated =>
      cases hs
      exact ((hos _).set _ _).check _
    | _ => simp [Proc.exec] at hs
  | opens v =>
    cases a with
    | socket r =>
      refine quiet_deref (fun sock hs => ?_) hs
      cases r with
      | error _ =>
        cases hs
        exact (Mute.refl p).check _
      | ok fd =>
        simp only at hs
        split_ifs at hs
        cases hs
        exact ((hos _).set _ _).check _
    | _ => simp [Proc.exec] at hs
  | setIp v port =>
    cases a with
    | pton r =>
      refine quiet_deref (fun sock hs => ?_) hs
      cases hs
      exact ((Mute.refl p).set _ _).check _
    | _ => simp [Proc.exec] at hs
  | setHostname v port =>
    cases a with
    | addrinfo r =>
      refine quiet_deref (fun sock hs => ?_) hs
      cases hs
      exact ((Mute.refl p).set _ _).check _
    | _ => simp [Proc.exec] at hs
  | bind v | listen v | shutdown v =>
    cases a with
    | status r =>
      refine quiet_deref (fun sock hs => ?_) hs
      cases hs
      exact (hos _).check _
    | _ => simp [Proc.exec] at hs
  | connect v =>
    cases a with
    | status r =>
      refine quiet_deref (fun sock hs => ?_) hs
      cases r with
      | ok _ =>
        cases hs
        exact (hos _).check _
      | error e =>
        cases hs
        split_ifs
        · exact (hos _).quiet
        · exact (hos _).check _
    | _ => simp [Proc.exec] at hs
  | accept dst src =>
    cases a with
    | malloc allocated =>
      simp only [Proc.exec] at hs
      split at hs
      · cases hs
        exact Mute.quiet ⟨rfl, rfl, rfl, rfl⟩
      · cases hs
        exact ((Mute.refl p).set _ _).check _
      · cases hs
    | accepted r =>
      refine quiet_deref (fun sock hs => ?_) hs
      split at hs
      · cases hs
      · split_ifs at hs
        cases hs
        exact quiet_accepted (hos _) _
      · cases hs
        exact quiet_accepted (hos _) _
    | _ => simp [Proc.exec] at hs
  | close v =>
    cases a with
    | status r =>
      simp only [Proc.exec] at hs
      split at hs
      · cases hs
        exact Mute.quiet ⟨rfl, rfl, rfl, rfl⟩
      · cases hs
        exact (Mute.refl p).check _
      · cases hs
        exact ((hos _).set _ _).check _
    | _ => simp [Proc.exec] at hs
  | destroy v =>
    cases a with
    | go =>
      simp only [Proc.exec] at hs
      split at hs
      · cases hs
        exact Mute.quiet ⟨rfl, rfl, rfl, rfl⟩
      · cases hs
        exact ⟨rfl, rfl, rfl, .inr (.inl rfl)⟩
      · next sock _ =>
        cases hs
        have hm := (hos (jfsNsSocketDestroy p.os sock)).set .null v
        exact ⟨hm.total, hm.recvData, hm.out, .inr (.inl rfl)⟩
    | _ => simp [Proc.exec] at hs
  | ret => simp [Proc.exec] at hs

/-! ### What a side has done -/

variable {r : Role} {mine theirs : TestData}

namespace Role

/-- A statement that does not talk is at none of the places where the others are. -/
theorem Sound.away (h : r.Sound) {pc : ℕ} (hst : ¬ (r.stmtAt pc).Talks) :
    pc ≠ r.sendAt ∧ pc ≠ r.recvAt ∧ pc ≠ r.recvAt + 1 ∧ pc ≠ r.drainAt ∧ (r.greet = [] ∨ pc ≠ r.greetAt) := by
  have hp := h.place pc
  have h1 := h.greet_send
  have h2 := h.greet_recv
  have h3 := h.send_shut
  have h4 := h.recv_shut
  have h5 := h.shut_drain
  have hcases : (pc < r.sendAt ∧ pc < r.recvAt ∧ (r.greet = [] ∨ pc < r.greetAt)) ∨ r.shutAt ≤ pc ∧ pc ≠ r.drainAt := by
    cases hs : r.stmtAt pc <;> rw [hs] at hp hst
    case say | send | recv | print | drain => exact absurd trivial hst
    case shutdown => exact .inr ⟨Nat.le_of_eq hp.symm, by rw [show pc = r.shutAt from hp]; omega⟩
    case close | destroy | ret => exact .inr ⟨Nat.le_of_lt (lt_trans h5 hp), Nat.ne_of_gt hp⟩
    all_goals exact .inl hp
  rcases hcases with ⟨hs, hv, hg⟩ | ⟨hs, hd⟩
  · exact ⟨by omega, by omega, by omega, by omega, hg.imp id Nat.ne_of_lt⟩
  · exact ⟨by omega, by omega, by omega, hd, .inr (by omega)⟩

/-- Before the end of the loop the shutdown has not been safe. -/
theorem Sound.not_safe (h : r.Sound) {pc : ℕ} (hpc : pc ≤ r.drainAt) : .safeShutdown ∉ r.said theirs pc := by
  have hd : ¬ r.drainAt < pc := Nat.not_lt.mpr hpc
  have hg := h.greet_safe
  unfold said
  split_ifs <;> simp [hg]

/-- Nothing is printed at such a place. -/
theorem said_succ {pc : ℕ} (hp : pc ≠ r.recvAt + 1) (hd : pc ≠ r.drainAt) (hg : r.greet = [] ∨ pc ≠ r.greetAt) :
    r.said theirs (pc + 1) = r.said theirs pc := by
  have h1 : (r.recvAt + 1 < pc + 1) = (r.recvAt + 1 < pc) := by simp only [eq_iff_iff]; omega
  have h2 : (r.drainAt < pc + 1) = (r.drainAt < pc) := by simp only [eq_iff_iff]; omega
  rcases hg with hg | hg
  · simp only [said, hg, ite_self, h1, h2]
  · have h3 : (r.greetAt < pc + 1) = (r.greetAt < pc) := by simp only [eq_iff_iff]; omega
    simp only [said, h1, h2, h3]

end Role

/-- What a program prints that receives the record `d` and nothing else, in any run. -/
def Printed (greet : List Output) (d : TestData) (out : List Output) : Prop :=
  out <+: greet ++ [.data d, .safeShutdown] ∨ out = greet ++ [.data d, .unsafeShutdown]

theorem printed_said (r : Role) (theirs : TestData) (hr : r.Sound) (pc : ℕ) : Printed r.greet theirs (r.said theirs pc) := by
  have h1 := hr.greet_recv
  have h2 := hr.recv_shut
  have h3 := hr.shut_drain
  left
  unfold Role.said
  split_ifs
  · exact List.prefix_refl _
  · exact (List.prefix_append_right_inj r.greet).mpr ⟨[.safeShutdown], rfl⟩
  · omega
  · exact (List.prefix_append_right_inj r.greet).mpr List.nil_prefix
  · omega
  · omega
  · omega
  · exact List.nil_prefix

/-- What a side has sent, received and printed, with the direction `o` that goes out from it and
the direction `i` that comes in. -/
structure PartyInv (r : Role) (mine theirs : TestData) (p : Proc) (o i : Chan) : Prop where
  sent : o.wire <+: mine.bytes
  unsent : p.pc < r.sendAt → o.wire = []
  sending : p.pc = r.sendAt → o.wire.length = (p.total.getD 0).toNat
  allSent : r.sendAt < p.pc → p.pc < r.cleanup → o.wire = mine.bytes
  fin : o.fin = true → r.shutAt < p.pc
  room : p.recvData.length = sizeofTestData
  taken : i.taken ≤ i.wire.length
  untaken : p.pc < r.recvAt → i.taken = 0
  taking : p.pc = r.recvAt → i.taken = (p.total.getD 0).toNat ∧ p.recvData.take i.taken = i.wire.take i.taken
  allTaken : r.recvAt < p.pc → p.pc < r.cleanup → i.taken = sizeofTestData ∧ p.recvData = theirs.bytes
  transfer : ∀ t, p.total = some t → (p.pc = r.sendAt ∨ p.pc = r.recvAt ∨ p.pc = r.drainAt) ∧
    t.toNat < sizeofTestData ∧ (p.pc = r.drainAt → t = 0)
  said : p.pc < r.cleanup → p.out = r.said theirs p.pc
  printed : Printed r.greet theirs p.out
  safe : .safeShutdown ∈ p.out → i.fin = true ∧ i.taken = i.wire.length

namespace PartyInv

/-- What else there is in a state does not matter. -/
theorem congr (h : PartyInv r mine theirs p o i) (hq : Mute q p) : PartyInv r mine theirs q o i := by
  obtain ⟨hpc, htotal, hrecv, hout⟩ := hq
  refine ⟨h.sent, ?_, ?_, ?_, ?_, ?_, h.taken, ?_, ?_, ?_, ?_, ?_, ?_, ?_⟩ <;> simp only [hpc, htotal, hrecv, hout]
  exacts [h.unsent, h.sending, h.allSent, h.fin, h.room, h.untaken, h.taking, h.allTaken, h.transfer, h.said, h.printed,
    h.safe]

/-- A jump to `cleanup`. -/
theorem jump (hr : r.Sound) (h : PartyInv r mine theirs p o i) (hq : q.total = none) (hrecv : q.recvData.length = sizeofTestData)
    (hpc : q.pc = r.cleanup) (hp : Printed r.greet theirs q.out)
    (hs : .safeShutdown ∈ q.out → i.fin = true ∧ i.taken = i.wire.length) : PartyInv r mine theirs q o i := by
  have h1 := hr.send_shut
  have h2 := hr.recv_shut
  have h3 := hr.shut_drain
  have h4 := hr.drain_cleanup
  refine ⟨h.sent, ?_, ?_, ?_, ?_, hrecv, h.taken, ?_, ?_, ?_, ?_, ?_, hp, hs⟩ <;> rw [hpc]
  · intro hlt
    omega
  · intro he
    omega
  · intro _ hlt
    omega
  · intro _
    omega
  · intro hlt
    omega
  · intro he
    omega
  · intro _ hlt
    omega
  · intro t ht
    rw [hq] at ht
    cases ht
  · intro hlt
    omega

/-- On to the next statement: what has been sent and received by then. -/
theorem advance (o' i' : Chan) (h : PartyInv r mine theirs p o i) (hpc : q.pc = p.pc + 1) (hq : q.total = none)
    (hroom : q.recvData.length = sizeofTestData) (hpre : o'.wire <+: mine.bytes)
    (hwire : if p.pc = r.sendAt then o'.wire = mine.bytes else o'.wire = o.wire)
    (htake : if p.pc = r.recvAt then i'.taken = sizeofTestData ∧ q.recvData = theirs.bytes
      else i'.taken = i.taken ∧ q.recvData = p.recvData)
    (htaken : i'.taken ≤ i'.wire.length) (hfin : o'.fin = true → r.shutAt < q.pc)
    (hsaid : p.pc + 1 < r.cleanup → q.out = r.said theirs (p.pc + 1)) (hprinted : Printed r.greet theirs q.out)
    (hsafe : .safeShutdown ∈ q.out → i'.fin = true ∧ i'.taken = i'.wire.length) : PartyInv r mine theirs q o' i' := by
  have hnone : (q.total.getD 0).toNat = 0 := by
    rw [hq]
    rfl
  refine ⟨hpre, ?_, ?_, ?_, hfin, hroom, htaken, ?_, ?_, ?_, ?_, ?_, hprinted, hsafe⟩ <;> rw [hpc]
  · intro hlt
    rw [if_neg (by omega)] at hwire
    rw [hwire, h.unsent (by omega)]
  · intro he
    rw [if_neg (by omega)] at hwire
    rw [hwire, h.unsent (by omega), hnone]
    rfl
  · intro hgt hlt
    by_cases he : p.pc = r.sendAt
    · rwa [if_pos he] at hwire
    · rw [if_neg he] at hwire
      rw [hwire, h.allSent (by omega) (by omega)]
  · intro hlt
    rw [if_neg (by omega)] at htake
    rw [htake.1, h.untaken (by omega)]
  · intro he
    rw [if_neg (by omega)] at htake
    rw [htake.1, h.untaken (by omega), hnone]
    exact ⟨rfl, by simp⟩
  · intro hgt hlt
    by_cases he : p.pc = r.recvAt
    · rwa [if_pos he] at htake
    · rw [if_neg he] at htake
      rw [htake.1, htake.2]
      exact h.allTaken (by omega) (by omega)
  · intro t ht
    rw [hq] at ht
    cases ht
  · exact hsaid

/-- A statement that neither transfers nor prints. -/
theorem quiet (hr : r.Sound) (h : PartyInv r mine theirs p o i) (hc : prog.cleanup = r.cleanup)
    (hst : ¬ (r.stmtAt p.pc).Talks) (hq : Quiet prog p p') (hwire : o'.wire = o.wire)
    (hfin : o'.fin = true → r.shutAt < p'.pc) : PartyInv r mine theirs p' o' i := by
  obtain ⟨hs, hv, hpr, hd, hg⟩ := hr.away hst
  have hnone : p.total = none := by
    refine Option.eq_none_iff_forall_not_mem.mpr fun t ht => ?_
    rcases (h.transfer t ht).1 with e | e | e
    · exact hs e
    · exact hv e
    · exact hd e
  rcases hq.pc with hpc | hpc | hpc
  · have h' := h.congr ⟨hpc, hq.total, hq.recvData, hq.out⟩
    exact { h' with
      sent := hwire ▸ h'.sent, unsent := hwire ▸ h'.unsent, sending := hwire ▸ h'.sending
      allSent := hwire ▸ h'.allSent, fin := hfin }
  · refine h.advance o' i hpc (hq.total.trans hnone) (hq.recvData ▸ h.room) (hwire ▸ h.sent) (by rw [if_neg hs, hwire])
      (by rw [if_neg hv]; exact ⟨rfl, hq.recvData⟩) h.taken hfin (fun hlt => ?_) (hq.out ▸ h.printed) (hq.out ▸ h.safe)
    rw [hq.out, h.said (by omega), Role.said_succ hpr hd hg]
  · have h' := h.jump hr (q := p') (by rw [hq.total, hnone]) (by rw [hq.recvData]; exact h.room) (hpc.trans hc)
      (by rw [hq.out]; exact h.printed) (by rw [hq.out]; exact h.safe)
    exact { h' with
      sent := hwire ▸ h'.sent, unsent := hwire ▸ h'.unsent, sending := hwire ▸ h'.sending
      allSent := hwire ▸ h'.allSent, fin := hfin }

/-- A transfer starts. -/
theorem start (h : PartyInv r mine theirs p o i) (hpc : p.pc = r.sendAt ∨ p.pc = r.recvAt ∨ p.pc = r.drainAt)
    (hq : p.total = none) : PartyInv r mine theirs { p with total := some 0 } o i := by
  have hsend := h.sending
  have htake := h.taking
  rw [hq] at hsend htake
  exact { h with
    sending := hsend, taking := htake
    transfer := by
      rintro t ⟨⟩
      exact ⟨hpc, by decide, fun _ => rfl⟩ }

/-- Some more bytes have been sent. -/
theorem put (prog : Program) (o' : Chan) {t t' : UInt64} {k : ℕ} (hr : r.Sound) (h : PartyInv r mine theirs p o i)
    (hpc : p.pc = r.sendAt) (ht : p.total = some t) (hlen : mine.bytes.length = sizeofTestData) (hk : t.toNat + k ≤ sizeofTestData)
    (ht' : t'.toNat = t.toNat + k) (hwire : o'.wire = o.wire ++ (mine.bytes.drop t.toNat).take k) (hfin : o'.fin = o.fin) :
    (t'.toNat < sizeofTestData → PartyInv r mine theirs { p with total := some t' } o' i) ∧
      (t'.toNat = sizeofTestData → PartyInv r mine theirs ({ p with total := none }.check prog .ok) o' i) := by
  have hw := h.sending hpc
  rw [ht, Option.getD_some] at hw
  have ho : o.wire = mine.bytes.take t.toNat := by
    rw [← hw]
    exact List.prefix_iff_eq_take.mp h.sent
  have ho' : o'.wire = mine.bytes.take (t.toNat + k) := by
    rw [hwire, ho, List.take_add]
  have hlen' : o'.wire.length = t.toNat + k := by
    rw [ho', List.length_take, hlen]
    omega
  have hnofin : o'.fin ≠ true := by
    intro hf
    have := h.fin (hfin ▸ hf)
    have := hr.send_shut
    omega
  have hne := hr.send_ne
  refine ⟨fun hlt => ?_, fun heq => ?_⟩
  · exact { h with
      sent := ho' ▸ List.take_prefix _ _
      unsent := fun hlt => absurd hpc (Nat.ne_of_lt hlt)
      sending := fun _ => by rw [hlen', ← ht']; rfl
      allSent := fun hgt _ => absurd hpc (Nat.ne_of_gt hgt)
      fin := fun hf => absurd hf hnofin
      taking := fun he => absurd (hpc.symm.trans he) hne.1
      transfer := by
        rintro u ⟨⟩
        have hd := lt_trans hr.send_shut hr.shut_drain
        exact ⟨.inl hpc, hlt, fun he => absurd (hpc.symm.trans he) (Nat.ne_of_lt hd)⟩ }
  · have hall : o'.wire = mine.bytes := by
      rw [ho', ← ht', heq, ← hlen, List.take_length]
    refine h.advance o' i rfl rfl h.room (hall ▸ List.prefix_refl _) (by rw [if_pos hpc, hall]) ?_ h.taken
      (fun hf => absurd hf hnofin) (fun hlt => ?_) h.printed h.safe
    · rw [if_neg (by rw [hpc]; exact hne.1)]
      exact ⟨rfl, rfl⟩
    · show p.out = _
      have h1 := hr.send_shut
      have h2 := hr.shut_drain
      have h3 := hr.greet_send
      rw [h.said (by omega), Role.said_succ (by omega) (by omega) (.inr (by omega))]

/-- Some more bytes have been received. -/
theorem get (prog : Program) {t t' : UInt64} {bs : List UInt8} (hr : r.Sound) (h : PartyInv r mine theirs p o i)
    (hpc : p.pc = r.recvAt) (ht : p.total = some t) (hlen : theirs.bytes.length = sizeofTestData) (hin : i.wire <+: theirs.bytes)
    (hk : t.toNat + bs.length ≤ sizeofTestData) (ht' : t'.toNat = t.toNat + bs.length)
    (hbs : bs = (i.wire.drop i.taken).take bs.length) (hle : i.taken + bs.length ≤ i.wire.length) :
    (t'.toNat < sizeofTestData → PartyInv r mine theirs
        { p with recvData := overwrite p.recvData t.toNat bs, total := some t' } o { i with taken := i.taken + bs.length }) ∧
      (t'.toNat = sizeofTestData → PartyInv r mine theirs
        ({ p with recvData := overwrite p.recvData t.toNat bs, total := none }.check prog .ok) o
          { i with taken := i.taken + bs.length }) := by
  obtain ⟨htk, hdata⟩ := h.taking hpc
  rw [ht, Option.getD_some] at htk
  have hfit : t.toNat + bs.length ≤ p.recvData.length := by rw [h.room]; exact hk
  have hroom : (overwrite p.recvData t.toNat bs).length = sizeofTestData := by
    rw [length_overwrite hfit, h.room]
  have htake : (overwrite p.recvData t.toNat bs).take (t.toNat + bs.length) = i.wire.take (t.toNat + bs.length) := by
    rw [take_overwrite hfit, List.take_add, ← htk, hdata, ← hbs]
  have h1 := hr.recv_shut
  have h2 := hr.shut_drain
  have h3 := hr.drain_cleanup
  have hnosafe : .safeShutdown ∉ p.out := by
    rw [h.said (by omega)]
    exact hr.not_safe (by omega)
  refine ⟨fun hlt => ?_, fun heq => ?_⟩
  · exact { h with
      room := hroom
      taken := hle
      untaken := fun hlt => absurd hpc (Nat.ne_of_lt hlt)
      taking := fun _ => ⟨by simp only [Option.getD_some]; omega, by simpa only [htk] using htake⟩
      allTaken := fun hgt _ => absurd hpc (Nat.ne_of_gt hgt)
      sending := fun he => absurd (he.symm.trans hpc) hr.send_ne.1
      transfer := by
        rintro u ⟨⟩
        exact ⟨.inr (.inl hpc), hlt, fun he => absurd (hpc.symm.trans he) (by omega)⟩
      safe := fun hs => absurd hs hnosafe }
  · -- all of it: what has been delivered is a prefix of the record, and as long
    have hwire : i.wire = theirs.bytes := hin.eq_of_length_le (by omega)
    have hall : overwrite p.recvData t.toNat bs = theirs.bytes := by
      rw [← ht', heq, ← hroom, List.take_length, hroom] at htake
      rw [htake, hwire, ← hlen, List.take_length]
    have hg := hr.greet_recv
    refine h.advance o { i with taken := i.taken + bs.length } rfl rfl hroom h.sent ?_ ?_ hle ?_ (fun hlt => ?_)
      h.printed fun hs => absurd hs hnosafe
    · rw [if_neg (by rw [hpc]; exact hr.send_ne.1.symm)]
    · rw [if_pos hpc]
      exact ⟨by simp only; omega, hall⟩
    · intro hf
      have := h.fin hf
      omega
    · show p.out = _
      rw [h.said (by omega), Role.said_succ (by omega) (by omega) (.inr (by omega))]

/-- Something is printed where it is to be printed. -/
theorem prints {x : Output} (hr : r.Sound) (h : PartyInv r mine theirs p o i) (hs : p.pc ≠ r.sendAt) (hv : p.pc ≠ r.recvAt)
    (hd : p.pc < r.drainAt) (htotal : p.total = none) (hx : r.said theirs p.pc ++ [x] = r.said theirs (p.pc + 1)) :
    PartyInv r mine theirs ((p.prints x).check prog .ok) o i := by
  have hcl := hr.drain_cleanup
  have hout : p.out ++ [x] = r.said theirs (p.pc + 1) := by rw [h.said (by omega), hx]
  refine h.advance o i rfl htotal h.room h.sent (by rw [if_neg hs]) (by rw [if_neg hv]; exact ⟨rfl, rfl⟩)
    h.taken (fun hf => Nat.lt_succ_of_lt (h.fin hf)) (fun _ => hout) ?_ fun hsafe => ?_
  · show Printed r.greet theirs (p.out ++ [x])
    rw [hout]
    exact printed_said r theirs hr _
  · have hsafe' : .safeShutdown ∈ p.out ++ [x] := hsafe
    rw [hout] at hsafe'
    exact absurd hsafe' (hr.not_safe hd)

/-- `printf("connected\n")`. -/
theorem say (hr : r.Sound) (h : PartyInv r mine theirs p o i) (hpc : p.pc = r.greetAt) (hg : r.greet = [.connected]) :
    PartyInv r mine theirs ((p.prints .connected).check prog .ok) o i := by
  have h1 := hr.greet_send
  have h2 := hr.greet_recv
  have h3 := hr.recv_shut
  have h4 := hr.shut_drain
  refine h.prints hr (by omega) (by omega) (by omega) ?_ ?_
  · refine Option.eq_none_iff_forall_not_mem.mpr fun t ht => ?_
    have := (h.transfer t ht).1
    omega
  · simp only [Role.said, hg, hpc]
    rw [if_neg (by omega), if_neg (by omega), if_neg (by omega), if_pos (by omega), if_neg (by omega), if_neg (by omega)]
    rfl

/-- `print_test_data` after the record has been received. -/
theorem print (hr : r.Sound) (h : PartyInv r mine theirs p o i) (hf : theirs.Fits) (hpc : p.pc = r.recvAt + 1) :
    PartyInv r mine theirs ((p.prints (.data (readTestData p.recvData))).check prog .ok) o i := by
  have h1 := hr.greet_recv
  have h2 := hr.send_ne
  have h3 := hr.recv_shut
  have h4 := hr.shut_drain
  have h5 := hr.drain_cleanup
  rw [(h.allTaken (by omega) (by omega)).2, readTestData_bytes hf]
  refine h.prints hr (by omega) (by omega) (by omega) ?_ ?_
  · refine Option.eq_none_iff_forall_not_mem.mpr fun t ht => ?_
    have := (h.transfer t ht).1
    omega
  · simp only [Role.said, hpc]
    rw [if_pos (by omega), if_neg (by omega), if_neg (by omega), if_pos (by omega), if_pos (by omega), if_neg (by omega)]
    simp

/-- The end of the stream in the loop at the end. -/
theorem drainedSafe (hr : r.Sound) (h : PartyInv r mine theirs p o i) (hpc : p.pc = r.drainAt) (hfin : i.fin = true)
    (hall : i.taken = i.wire.length) :
    PartyInv r mine theirs (({ p with total := none } : Proc).drained prog .nsConnectionClose) o i := by
  have h1 := hr.greet_recv
  have h2 := hr.send_shut
  have h3 := hr.recv_shut
  have h4 := hr.shut_drain
  have h5 := hr.drain_cleanup
  have hout : p.out ++ [.safeShutdown] = r.said theirs (p.pc + 1) := by
    rw [h.said (by omega)]
    simp only [Role.said, hpc]
    rw [if_pos (by omega), if_pos (by omega), if_neg (by omega), if_pos (by omega), if_pos (by omega), if_pos (by omega)]
    simp
  refine h.advance o i rfl rfl h.room h.sent (by rw [if_neg (by omega)])
    (by rw [if_neg (by omega)]; exact ⟨rfl, rfl⟩) h.taken (fun hf => Nat.lt_succ_of_lt (h.fin hf)) (fun _ => hout) ?_
    fun _ => ⟨hfin, hall⟩
  show Printed r.greet theirs (p.out ++ [.safeShutdown])
  rw [hout]
  exact printed_said r theirs hr _

/-- A call that fails in the loop at the end. -/
theorem drainedUnsafe {err : JfsErr} (hr : r.Sound) (h : PartyInv r mine theirs p o i) (hc : prog.cleanup = r.cleanup)
    (hpc : p.pc = r.drainAt) (herr : err ≠ .ok) (hne : err ≠ .nsConnectionClose) :
    PartyInv r mine theirs (({ p with total := none } : Proc).drained prog err) o i := by
  have h1 := hr.greet_recv
  have h3 := hr.recv_shut
  have h4 := hr.shut_drain
  have h5 := hr.drain_cleanup
  have hsaid : p.out = r.greet ++ [.data theirs] := by
    rw [h.said (by omega)]
    simp only [Role.said, hpc]
    rw [if_pos (by omega), if_pos (by omega), if_neg (by omega)]
    rfl
  rw [Proc.drained, if_neg hne, if_pos herr]
  refine h.jump hr rfl h.room ?_ ?_ ?_
  · rw [Proc.check, if_neg herr, hc]
  · show Printed r.greet theirs (p.out ++ [.unsafeShutdown])
    right
    rw [hsaid]
    simp
  · show .safeShutdown ∈ p.out ++ [.unsafeShutdown] → _
    rw [hsaid]
    have hg := hr.greet_safe
    simp [hg]

end PartyInv

/-! ### One step of a side -/

/-- The size that is passed to the functions that transfer. -/
abbrev recordSize : UInt64 := UInt64.ofNat sizeofTestData

theorem loopHead_again {t : UInt64} (h : t.toNat < sizeofTestData) : loopHead recordSize t = .again t := by
  have hlt : t < recordSize := UInt64.lt_iff_toNat_lt.mpr h
  rw [loopHead, if_pos hlt]

theorem loopHead_ret {t : UInt64} (h : t.toNat = sizeofTestData) : loopHead recordSize t = .ret t .ok := by
  have hlt : ¬ t < recordSize := by
    rw [UInt64.lt_iff_toNat_lt, h]
    decide
  rw [loopHead, if_neg hlt]

/-- A `send` that is interrupted is made again, one that fails ends the transfer. -/
theorem sendTurn_error {t : UInt64} (e : Errno) :
    sendTurn recordSize t (.error e) = loopHead recordSize t ∨
      ∃ err, err ≠ .ok ∧ sendTurn recordSize t (.error e) = .ret t err := by
  cases e
  case intr => exact .inl rfl
  all_goals exact .inr ⟨_, by decide, rfl⟩

/-- A `recv` that is interrupted is made again, one that fails ends the transfer. -/
theorem recvTurn_error {t : UInt64} (e : Errno) :
    recvTurn recordSize t (.error e) = loopHead recordSize t ∨
      ∃ err, err ≠ .ok ∧ err ≠ .nsConnectionClose ∧ recvTurn recordSize t (.error e) = .ret t err := by
  cases e
  case intr => exact .inl rfl
  all_goals exact .inr ⟨_, by decide, by decide, rfl⟩

theorem toNat_add_of_le {t k : UInt64} (h : t.toNat + k.toNat ≤ sizeofTestData) : (t + k).toNat = t.toNat + k.toNat := by
  rw [UInt64.toNat_add]
  refine Nat.mod_eq_of_lt (lt_of_le_of_lt h ?_)
  decide

/-- What a step of a side leaves of the direction that goes out: it only grows, and not after
its end. -/
structure Chan.Grows (o o' : Chan) : Prop where
  taken : o'.taken = o.taken
  wire : o.wire <+: o'.wire
  fin : o.fin = true → o'.wire = o.wire ∧ o'.fin = true

/-- What it leaves of the direction that comes in. -/
structure Chan.Reads (i i' : Chan) : Prop where
  wire : i'.wire = i.wire
  fin : i'.fin = i.fin

theorem Chan.Grows.refl (o : Chan) : o.Grows o := ⟨rfl, List.prefix_refl _, fun h => ⟨rfl, h⟩⟩

theorem Chan.Reads.refl (i : Chan) : i.Reads i := ⟨rfl, rfl⟩

/-- What a side has after a step, and what it leaves to the other side. -/
structure Stepped (r : Role) (mine theirs : TestData) (o i : Chan) (p' : Proc) (o' i' : Chan) : Prop where
  inv : PartyInv r mine theirs p' o' i'
  grows : o.Grows o'
  reads : i.Reads i'

/-- The directions are as they were. -/
theorem PartyInv.stepped (h : PartyInv r mine theirs p' o i) : Stepped r mine theirs o i p' o i := ⟨h, .refl o, .refl i⟩

namespace PartyInv

/-- A call of `send` returns. -/
theorem sendReturn {cap : ℕ} {t : UInt64} {status : Status} {v : Var} (hr : r.Sound) (h : PartyInv r mine theirs p o i)
    (hc : prog.cleanup = r.cleanup) (hmine : mine.Fits) (hpc : p.pc = r.sendAt) (ht : p.total = some t) (hq : Mute q p)
    (he : p.exchange cap mine.bytes o i (.send v) (.sent status) = some (o', i')) :
    Stepped r mine theirs o i (q.settle (sendTurn recordSize t status) (Proc.check prog)) o' i' := by
  have hlt := (h.transfer t ht).2.1
  cases status with
  | error e =>
    cases he
    rcases sendTurn_error (t := t) e with ht' | ⟨err, herr, ht'⟩
    · rw [ht', loopHead_again hlt]
      exact (h.congr (q := { q with total := some t }) ⟨hq.pc, ht.symm, hq.recvData, hq.out⟩).stepped
    · rw [ht']
      refine (h.jump hr rfl ?_ ?_ ?_ ?_).stepped
      · exact hq.recvData ▸ h.room
      · simp only [Proc.settle, Proc.check]
        rw [if_neg herr, hc]
      · exact hq.out ▸ h.printed
      · exact hq.out ▸ h.safe
  | ok k =>
    simp only [Proc.exchange, ht, Option.getD_some, Chan.put, Option.map_eq_some_iff] at he
    obtain ⟨c, hput, he⟩ := he
    cases he
    split_ifs at hput with hk
    cases hput
    obtain ⟨hk0, hk1, -⟩ := hk
    rw [hmine.length_bytes] at hk1
    have hadd := toNat_add_of_le hk1
    obtain ⟨hmore, hdone⟩ := h.put prog { o with wire := o.wire ++ (mine.bytes.drop t.toNat).take k.toNat }
      hr hpc ht hmine.length_bytes hk1 hadd rfl rfl
    have hgrows : o.Grows { o with wire := o.wire ++ (mine.bytes.drop t.toNat).take k.toNat } := by
      refine ⟨rfl, List.prefix_append _ _, fun hf => ?_⟩
      have h1 := h.fin hf
      have h2 := hr.send_shut
      omega
    have hturn : sendTurn recordSize t (.ok k) = loopHead recordSize (t + k) := rfl
    rw [hturn]
    by_cases hall : (t + k).toNat < sizeofTestData
    · rw [loopHead_again hall]
      exact ⟨(hmore hall).congr ⟨hq.pc, rfl, hq.recvData, hq.out⟩, hgrows, .refl i⟩
    · have heq : (t + k).toNat = sizeofTestData := by omega
      rw [loopHead_ret heq]
      refine ⟨(hdone heq).congr ⟨?_, rfl, hq.recvData, hq.out⟩, hgrows, .refl i⟩
      simp only [Proc.settle, Proc.check, if_true, hq.pc]

/-- What `recv` can give: the end of the stream, or some of it. -/
theorem get_cases {c c' : Chan} {room : ℕ} {bs : List UInt8} (hc : c.taken ≤ c.wire.length) (h : c.get room bs = some c') :
    (bs = [] ∧ c' = c ∧ c.fin = true ∧ c.taken = c.wire.length) ∨
      (bs ≠ [] ∧ c' = { c with taken := c.taken + bs.length } ∧ bs.length ≤ room ∧
        bs = (c.wire.drop c.taken).take bs.length ∧ c.taken + bs.length ≤ c.wire.length) := by
  unfold Chan.get at h
  split_ifs at h with hbs hfin hroom
  · cases h
    exact .inl ⟨hbs, rfl, hfin.1, hfin.2⟩
  · cases h
    refine .inr ⟨hbs, rfl, hroom.1, hroom.2, ?_⟩
    have hlen := congrArg List.length hroom.2
    rw [List.length_take, List.length_drop] at hlen
    omega

/-- The bytes that a `recv` gives, as the number that it returns. -/
theorem toNat_sizeOf {bs : List UInt8} (h : bs.length ≤ sizeofTestData) : (sizeOf bs).toNat = bs.length := by
  rw [sizeOf, UInt64.toNat_ofNat']
  refine Nat.mod_eq_of_lt (lt_of_le_of_lt h ?_)
  decide

/-- A `recv` that gives something. -/
theorem recvTurn_ok {t : UInt64} {bs : List UInt8} (hbs : bs ≠ []) (h : bs.length ≤ sizeofTestData) :
    recvTurn recordSize t (.ok (sizeOf bs)) = loopHead recordSize (t + sizeOf bs) := by
  have hpos : 0 < bs.length := List.length_pos_of_ne_nil hbs
  have hsize := toNat_sizeOf h
  have hne : sizeOf bs ≠ 0 := by
    intro e
    rw [e] at hsize
    exact absurd hsize (Nat.ne_of_lt hpos)
  simp [recvTurn, jfsRecv, hne]

/-- A call of `recv` returns. -/
theorem recvReturn {cap : ℕ} {t : UInt64} {res : Except Errno (List UInt8)} {v : Var} (hr : r.Sound)
    (h : PartyInv r mine theirs p o i) (hc : prog.cleanup = r.cleanup) (htheirs : theirs.Fits) (hin : i.wire <+: theirs.bytes)
    (hpc : p.pc = r.recvAt) (ht : p.total = some t) (hq : Mute q p)
    (he : p.exchange cap mine.bytes o i (.recv v) (.received res) = some (o', i')) :
    Stepped r mine theirs o i ((q.fill t res).settle (recvTurn recordSize t (res.map sizeOf)) (Proc.check prog)) o' i' := by
  have hlt := (h.transfer t ht).2.1
  cases res with
  | error e =>
    cases he
    have hmap : (Except.error e : Except Errno (List UInt8)).map sizeOf = .error e := rfl
    rw [hmap]
    rcases recvTurn_error (t := t) e with ht' | ⟨err, herr, -, ht'⟩
    · rw [ht', loopHead_again hlt]
      exact (h.congr (q := { q with total := some t }) ⟨hq.pc, ht.symm, hq.recvData, hq.out⟩).stepped
    · rw [ht']
      refine (h.jump hr rfl (hq.recvData ▸ h.room) ?_ (hq.out ▸ h.printed) (hq.out ▸ h.safe)).stepped
      simp only [Proc.settle, Proc.check, Proc.fill]
      rw [if_neg herr, hc]
  | ok bs =>
    simp only [Proc.exchange, ht, Option.getD_some, Option.map_eq_some_iff] at he
    obtain ⟨c, hget, he⟩ := he
    cases he
    have hmap : (Except.ok bs : Except Errno (List UInt8)).map sizeOf = .ok (sizeOf bs) := rfl
    rw [hmap]
    rcases get_cases h.taken hget with ⟨rfl, rfl, -, -⟩ | ⟨hbs, rfl, hroom, htake, hle⟩
    · -- the connection is closed too early
      have hturn : recvTurn recordSize t (.ok (sizeOf [])) = .ret t .nsConnectionClose := rfl
      rw [hturn]
      refine (h.jump hr rfl ?_ ?_ (hq.out ▸ h.printed) (hq.out ▸ h.safe)).stepped
      · show (overwrite q.recvData t.toNat []).length = _
        rw [hq.recvData, length_overwrite, h.room]
        rw [h.room, List.length_nil]
        omega
      · simp only [Proc.settle, Proc.check, Proc.fill]
        rw [if_neg (by decide), hc]
    · have hsize := toNat_sizeOf (show bs.length ≤ sizeofTestData by omega)
      have hadd := toNat_add_of_le (t := t) (k := sizeOf bs) (by omega)
      rw [hsize] at hadd
      obtain ⟨hmore, hdone⟩ := h.get prog hr hpc ht htheirs.length_bytes hin (by omega) hadd htake hle
      rw [recvTurn_ok hbs (by omega)]
      have hover : overwrite q.recvData t.toNat bs = overwrite p.recvData t.toNat bs := by rw [hq.recvData]
      by_cases hall : (t + sizeOf bs).toNat < sizeofTestData
      · rw [loopHead_again hall]
        exact ⟨(hmore hall).congr ⟨hq.pc, rfl, hover, hq.out⟩, .refl o, rfl, rfl⟩
      · have heq : (t + sizeOf bs).toNat = sizeofTestData := by omega
        rw [loopHead_ret heq]
        refine ⟨(hdone heq).congr ⟨?_, rfl, hover, hq.out⟩, .refl o, rfl, rfl⟩
        simp only [Proc.settle, Proc.check, Proc.fill, if_true, hq.pc]

/-- A call of `recv` in the loop at the end returns. There is nothing more to come. -/
theorem drainReturn {cap : ℕ} {t : UInt64} {res : Except Errno (List UInt8)} {v : Var} (hr : r.Sound)
    (h : PartyInv r mine theirs p o i) (hc : prog.cleanup = r.cleanup) (htheirs : theirs.Fits) (hin : i.wire <+: theirs.bytes)
    (hpc : p.pc = r.drainAt) (ht : p.total = some t) (hq : Mute q p)
    (he : p.exchange cap mine.bytes o i (.drain v) (.received res) = some (o', i')) :
    Stepped r mine theirs o i ((q.fill t res).settle (recvTurn recordSize t (res.map sizeOf)) (Proc.drained prog)) o' i' := by
  have hlt := (h.transfer t ht).2.1
  have h1 := hr.recv_shut
  have h2 := hr.shut_drain
  have h3 := hr.drain_cleanup
  have htk := (h.allTaken (by omega) (by omega)).1
  have hq' : Mute { q with total := p.total } p := ⟨hq.pc, rfl, hq.recvData, hq.out⟩
  cases res with
  | error e =>
    cases he
    have hmap : (Except.error e : Except Errno (List UInt8)).map sizeOf = .error e := rfl
    rw [hmap]
    rcases recvTurn_error (t := t) e with ht' | ⟨err, herr, hne, ht'⟩
    · rw [ht', loopHead_again hlt]
      exact (h.congr (q := { q with total := some t }) ⟨hq.pc, ht.symm, hq.recvData, hq.out⟩).stepped
    · rw [ht']
      exact ((h.congr hq').drainedUnsafe hr hc (hq.pc.trans hpc) herr hne).stepped
  | ok bs =>
    simp only [Proc.exchange, ht, Option.getD_some, Option.map_eq_some_iff] at he
    obtain ⟨c, hget, he⟩ := he
    cases he
    rcases get_cases h.taken hget with ⟨rfl, rfl, hfin, hall⟩ | ⟨hbs, -, -, -, hle⟩
    · have hturn : recvTurn recordSize t ((Except.ok [] : Except Errno (List UInt8)).map sizeOf) =
          .ret t .nsConnectionClose := rfl
      rw [hturn]
      have hover : overwrite q.recvData t.toNat [] = q.recvData := by simp [overwrite]
      have hfill : ({ q.fill t (.ok []) with total := none } : Proc) = { ({ q with total := p.total } : Proc) with total := none } := by
        simp only [Proc.fill, hover]
      show Stepped r mine theirs _ _ (({ q.fill t (.ok []) with total := none } : Proc).drained prog .nsConnectionClose) _ _
      rw [hfill]
      exact ((h.congr hq').drainedSafe hr (hq.pc.trans hpc) hfin hall).stepped
    · have hlen := hin.length_le
      rw [htheirs.length_bytes] at hlen
      have hpos : 0 < bs.length := List.length_pos_of_ne_nil hbs
      omega

/-- Where a call starts, it goes into its loop. -/
theorem begin {ret : Proc → JfsErr → Proc} (h : PartyInv r mine theirs p o i)
    (hpc : p.pc = r.sendAt ∨ p.pc = r.recvAt ∨ p.pc = r.drainAt)
    (hs : (if p.total = none then some (p.settle (loopHead recordSize 0) ret) else none) = some p') :
    Stepped r mine theirs o i p' o i := by
  split_ifs at hs with hq
  cases hs
  rw [loopHead_again (by decide)]
  exact (h.start hpc hq).stepped

/-- What a statement that does not talk does to the two directions: it ends the one that goes out,
at most. -/
theorem exchange_quiet {cap : ℕ} {buf : List UInt8} {st : Stmt} (hst : ¬ st.Talks)
    (he : p.exchange cap buf o i st a = some (o', i')) :
    i' = i ∧ o'.wire = o.wire ∧ o'.taken = o.taken ∧ (o.fin = true → o'.fin = true) ∧
      (o'.fin = true → o.fin = true ∨ (∃ v u, st = .shutdown v ∧ a = .status (.ok u)) ∨ st = .close .client ∨
        st = .destroy .client) := by
  unfold Proc.exchange at he
  split at he
  case h_1 | h_2 | h_3 => exact absurd trivial hst
  case h_4 v u =>
    cases he
    exact ⟨rfl, rfl, rfl, fun _ => rfl, fun _ => .inr (.inl ⟨v, u, rfl, rfl⟩)⟩
  case h_5 =>
    cases he
    exact ⟨rfl, rfl, rfl, fun hf => by simp [hf], fun _ => .inr (.inr (.inl rfl))⟩
  case h_6 =>
    cases he
    exact ⟨rfl, rfl, rfl, fun hf => by simp [hf], fun _ => .inr (.inr (.inr rfl))⟩
  case h_7 =>
    cases he
    exact ⟨rfl, rfl, rfl, id, .inl⟩

/-- **A step of a side** keeps what it has sent, received and printed right. -/
theorem step {cap : ℕ} (hr : r.Sound) (hcode : prog.code = r.code) (hc : prog.cleanup = r.cleanup) (hd : prog.data = mine)
    (hmine : mine.Fits) (htheirs : theirs.Fits) (hin : i.wire <+: theirs.bytes) (hacc : Account p)
    (hneeds : p.abs.Needs (p.stmt prog)) (h : PartyInv r mine theirs p o i) (hs : p.step prog a = some p')
    (he : p.exchange cap prog.data.bytes o i (p.stmt prog) a = some (o', i')) : Stepped r mine theirs o i p' o' i' := by
  unfold Proc.step at hs
  split_ifs at hs
  have hst : p.stmt prog = r.stmtAt p.pc := by rw [Proc.stmt, Role.stmtAt, hcode]
  have hplace := hr.place p.pc
  have hos : ∀ sock : Sock, Mute { p with os := p.os.use sock.fd } p := fun _ => ⟨rfl, rfl, rfl, rfl⟩
  rw [hst] at hs he hneeds
  rw [hd] at he
  by_cases htalks : (r.stmtAt p.pc).Talks
  · cases hstmt : r.stmtAt p.pc <;> rw [hstmt] at hs he hneeds hplace htalks
    case say =>
      cases a with
      | go =>
        cases hs
        cases he
        exact (h.say hr hplace.1 hplace.2).stepped
      | _ => simp [Proc.exec] at hs
    case print =>
      cases a with
      | go =>
        cases hs
        cases he
        exact (h.print hr htheirs hplace).stepped
      | _ => simp [Proc.exec] at hs
    case send v =>
      cases a with
      | go =>
        cases he
        exact h.begin (.inl hplace) hs
      | sent status =>
        obtain ⟨sock, e, -⟩ := hacc.call hneeds
        simp only [Proc.exec, Proc.deref, e, Option.bind_eq_bind] at hs
        obtain ⟨t, ht, hs⟩ := Option.bind_eq_some_iff.mp hs
        cases hs
        exact h.sendReturn hr hc hmine hplace ht (hos sock) he
      | _ => simp [Proc.exec] at hs
    case recv v =>
      cases a with
      | go =>
        cases he
        exact h.begin (.inr (.inl hplace)) hs
      | received res =>
        obtain ⟨sock, e, -⟩ := hacc.call hneeds
        simp only [Proc.exec, Proc.deref, e, Option.bind_eq_bind] at hs
        obtain ⟨t, ht, hs⟩ := Option.bind_eq_some_iff.mp hs
        cases hs
        exact h.recvReturn hr hc htheirs hin hplace ht (hos sock) he
      | _ => simp [Proc.exec] at hs
    case drain v =>
      cases a with
      | go =>
        cases he
        exact h.begin (.inr (.inr hplace)) hs
      | received res =>
        obtain ⟨sock, e, -⟩ := hacc.call hneeds
        simp only [Proc.exec, Proc.deref, e, Option.bind_eq_bind] at hs
        obtain ⟨t, ht, hs⟩ := Option.bind_eq_some_iff.mp hs
        cases hs
        exact h.drainReturn hr hc htheirs hin hplace ht (hos sock) he
      | _ => simp [Proc.exec] at hs
    all_goals exact absurd htalks id
  · have hq := exec_quiet htalks hs
    obtain ⟨rfl, hwire, htaken, hmono, hfin⟩ := exchange_quiet htalks he
    have h1 := hr.shut_drain
    have h2 := hr.drain_cleanup
    have hpc : r.shutAt < p.pc → r.shutAt < p'.pc := by
      intro hlt
      rcases hq.pc with e | e | e <;> omega
    refine ⟨h.quiet hr hc htalks hq hwire fun hf => ?_, ⟨htaken, ?_, fun hf => ⟨hwire, hmono hf⟩⟩, .refl _⟩
    · rcases hfin hf with hf | ⟨v, u, hstmt, rfl⟩ | hstmt | hstmt
      · exact hpc (h.fin hf)
      · rw [hstmt] at hs hneeds hplace
        obtain ⟨sock, e, -⟩ := hacc.call hneeds
        simp only [Proc.exec, Proc.deref, e, jfsSys] at hs
        cases hs
        show r.shutAt < p.pc + 1
        rw [show p.pc = r.shutAt from hplace]
        omega
      · rw [hstmt] at hplace
        exact hpc (lt_trans h1 hplace)
      · rw [hstmt] at hplace
        exact hpc (lt_trans h1 hplace)
    · rw [hwire]

end PartyInv

end FileSync.NetSocket
