import FileSync.NetSocket.Code

/-!
# What arrives

Whatever the system calls transfer and however the steps of the peers are interleaved,
the stream is what the calls of the sender have put in, one after the other: of each
call the first bytes of its buffer, as many as it returns. And the buffers of the
receiver are filled from the stream in the same way, and not written beyond what is
returned. If the calls of both peers have succeeded so far, the buffers have the
messages.
-/

namespace FileSync.NetSocket

variable {msgs bufs all : List (List UInt8)} {s s' : System} {p : Peer} {entry buf bs : List UInt8} {total : UInt64}
  {r : Running} {status : Status}

/-! ### One turn -/

/-- How a turn can end after `total` bytes: at the head of the loop, or with an error. -/
inductive Reaches (bufSize total : UInt64) : Next → Prop
  | head : Reaches bufSize total (loopHead bufSize total)
  | fail {err : JfsErr} : err ≠ .ok → Reaches bufSize total (.ret total err)

theorem length_accepted {k : UInt64} (h : accepted r (.ok k) = some bs) : bs.length = k.toNat := by
  simp only [accepted] at h
  split at h
  · next hk =>
    cases h
    rw [List.length_take, List.length_drop]
    omega
  · cases h

theorem length_delivered {wire : List UInt8} {taken : ℕ} {k : UInt64}
    (h : delivered wire taken r (.ok k) = some bs) : bs.length = k.toNat := by
  simp only [delivered] at h
  split at h
  · next hk =>
    cases h
    rw [List.length_take, List.length_drop]
    omega
  · cases h

/-- The bytes that `send` accepts are the next ones of the buffer. -/
theorem accepted_spec (hr : r.total.toNat ≤ r.buf.length) (h : accepted r status = some bs) :
    r.total.toNat + bs.length ≤ r.buf.length ∧ bs = (r.buf.drop r.total.toNat).take bs.length := by
  cases status with
  | error e =>
    cases h
    exact ⟨hr, rfl⟩
  | ok k =>
    have hlen := length_accepted h
    simp only [accepted] at h
    split at h
    · next hk =>
      cases h
      rw [hlen]
      exact ⟨hk.2, rfl⟩
    · cases h

/-- The bytes that `recv` delivers are the next ones of the stream. -/
theorem delivered_spec {wire : List UInt8} {taken : ℕ} (hr : r.total.toNat ≤ r.buf.length)
    (ht : taken ≤ wire.length) (h : delivered wire taken r status = some bs) :
    r.total.toNat + bs.length ≤ r.buf.length ∧ taken + bs.length ≤ wire.length ∧
      bs = (wire.drop taken).take bs.length := by
  cases status with
  | error e =>
    cases h
    exact ⟨hr, ht, rfl⟩
  | ok k =>
    have hlen := length_delivered h
    simp only [delivered] at h
    split at h
    · next hk =>
      cases h
      rw [hlen]
      exact ⟨hk.1, hk.2, rfl⟩
    · cases h

theorem sendTurn_reaches {bufSize : UInt64} (h : accepted r status = some bs) :
    Reaches bufSize (total + UInt64.ofNat bs.length) (sendTurn bufSize total status) := by
  cases status with
  | error e =>
    cases h
    have hzero : total + UInt64.ofNat ([] : List UInt8).length = total := UInt64.add_zero total
    rw [hzero]
    cases e with
    | intr => exact .head
    | again | connReset | pipe | other => exact .fail (by decide)
  | ok k =>
    rw [length_accepted h, UInt64.ofNat_toNat]
    exact .head

theorem recvTurn_reaches {wire : List UInt8} {taken : ℕ} {bufSize : UInt64}
    (h : delivered wire taken r status = some bs) :
    Reaches bufSize (total + UInt64.ofNat bs.length) (recvTurn bufSize total status) := by
  cases status with
  | error e =>
    cases h
    have hzero : total + UInt64.ofNat ([] : List UInt8).length = total := UInt64.add_zero total
    rw [hzero]
    cases e with
    | intr => exact .head
    | again | connReset | pipe | other => exact .fail (by decide)
  | ok k =>
    rw [length_delivered h, UInt64.ofNat_toNat]
    by_cases hk : k = 0
    · subst hk
      rw [UInt64.add_zero]
      exact .fail (by decide)
    · have hturn : recvTurn bufSize total (.ok k) = loopHead bufSize (total + k) := by simp [recvTurn, jfsRecv, hk]
      rw [hturn]
      exact .head

/-! ### One peer -/

/-- The first `total` bytes of the buffer have been transferred, and the rest of it is as it was
on entry. -/
structure Fits (entry buf : List UInt8) (total : UInt64) : Prop where
  length : buf.length = entry.length
  total_le : total.toNat ≤ buf.length
  rest : buf.drop total.toNat = entry.drop total.toNat
  size_lt : buf.length < 2 ^ 64

/-- The part of the buffer that a call has transferred. -/
def Done.piece (d : Done) : List UInt8 := d.buf.take d.value.toNat

/-- A call that has returned: it has transferred the whole buffer if there is no error. -/
structure Done.Fine (d : Done) : Prop where
  fits : Fits d.entry d.buf d.value
  ok : d.err = .ok → d.value.toNat = d.buf.length

/-- All that a peer has transferred. -/
def Peer.moved (p : Peer) : List UInt8 :=
  (p.done.map Done.piece).flatten ++ p.running.elim [] fun r => r.buf.take r.total.toNat

/-- The calls of a peer are for the buffers `all`, in order, and each has kept to its buffer. -/
structure Peer.Sound (all : List (List UInt8)) (p : Peer) : Prop where
  bufs : p.done.map Done.entry ++ (p.running.toList.map Running.entry ++ p.todo) = all
  done : ∀ d ∈ p.done, d.Fine
  running : ∀ r ∈ p.running, Fits r.entry r.buf r.total

/-- After a turn the peer is in its loop or has returned. -/
theorem Peer.Sound.settle {n : Next} (hbufs : p.done.map Done.entry ++ entry :: p.todo = all)
    (hdone : ∀ d ∈ p.done, d.Fine) (hfits : Fits entry buf total) (hn : Reaches (sizeOf buf) total n) :
    (p.settle entry buf n).Sound all ∧
      (p.settle entry buf n).moved = (p.done.map Done.piece).flatten ++ buf.take total.toNat := by
  have hret : ∀ err, (err = .ok → total.toNat = buf.length) →
      (p.settle entry buf (.ret total err)).Sound all ∧
        (p.settle entry buf (.ret total err)).moved = (p.done.map Done.piece).flatten ++ buf.take total.toNat := by
    intro err herr
    refine ⟨⟨?_, ?_, ?_⟩, ?_⟩
    · simpa [Peer.settle] using hbufs
    · intro d hd
      rcases List.mem_append.mp hd with hd | hd
      · exact hdone d hd
      · rw [List.mem_singleton.mp hd]
        exact ⟨hfits, herr⟩
    · intro r hr
      cases hr
    · simp [Peer.settle, Peer.moved, Done.piece]
  cases hn with
  | fail herr => exact hret _ fun e => absurd e herr
  | head =>
    unfold loopHead
    split
    · refine ⟨⟨?_, hdone, ?_⟩, ?_⟩
      · simpa [Peer.settle] using hbufs
      · intro r hr
        cases hr
        exact hfits
      · simp [Peer.settle, Peer.moved]
    · next hge =>
      refine hret .ok fun _ => ?_
      have hsize : (sizeOf buf).toNat = buf.length := UInt64.toNat_ofNat_of_lt' hfits.size_lt
      have hle : (sizeOf buf).toNat ≤ total.toNat := Nat.not_lt.mp hge
      have := hfits.total_le
      omega

theorem Fits.toNat_add (h : Fits entry buf total) {n : ℕ} (hn : total.toNat + n ≤ buf.length) :
    (total + UInt64.ofNat n).toNat = total.toNat + n := by
  have hlt := h.size_lt
  have hn64 : n < 2 ^ 64 := by omega
  rw [UInt64.toNat_add, UInt64.toNat_ofNat_of_lt' hn64]
  exact Nat.mod_eq_of_lt (by omega)

/-- More of the buffer has been sent. -/
theorem Fits.advance (h : Fits entry buf total) {n : ℕ} (hn : total.toNat + n ≤ buf.length) :
    Fits entry buf (total + UInt64.ofNat n) := by
  have hadd := h.toNat_add hn
  refine ⟨h.length, ?_, ?_, h.size_lt⟩
  · rw [hadd]
    exact hn
  · rw [hadd, ← List.drop_drop, ← List.drop_drop, h.rest]

theorem length_overwrite {off : ℕ} (h : off + bs.length ≤ buf.length) : (overwrite buf off bs).length = buf.length := by
  simp only [overwrite, List.length_append, List.length_take, List.length_drop]
  omega

theorem take_overwrite {off : ℕ} (h : off + bs.length ≤ buf.length) :
    (overwrite buf off bs).take (off + bs.length) = buf.take off ++ bs := by
  have hlen : (buf.take off ++ bs).length = off + bs.length := by
    rw [List.length_append, List.length_take]
    omega
  exact List.take_left' hlen

theorem drop_overwrite {off : ℕ} (h : off + bs.length ≤ buf.length) :
    (overwrite buf off bs).drop (off + bs.length) = buf.drop (off + bs.length) := by
  have hlen : (buf.take off ++ bs).length = off + bs.length := by
    rw [List.length_append, List.length_take]
    omega
  exact List.drop_left' hlen

/-- More of the buffer has been received. -/
theorem Fits.overwrite (h : Fits entry buf total) (hn : total.toNat + bs.length ≤ buf.length) :
    Fits entry (overwrite buf total.toNat bs) (total + UInt64.ofNat bs.length) := by
  have hadd := h.toNat_add hn
  have hlen := length_overwrite hn
  refine ⟨hlen.trans h.length, ?_, ?_, ?_⟩
  · rw [hadd, hlen]
    exact hn
  · rw [hadd, drop_overwrite hn, ← List.drop_drop, ← List.drop_drop, h.rest]
  · rw [hlen]
    exact h.size_lt

theorem exists_of_call {p' : Peer} (h : p.call = some p') :
    ∃ buf rest, p.running = none ∧ p.todo = buf :: rest ∧
      p' = { p with todo := rest }.settle buf buf (loopHead (sizeOf buf) 0) := by
  unfold Peer.call at h
  split at h
  · next buf rest hrun htodo =>
    cases h
    exact ⟨buf, rest, hrun, htodo, rfl⟩
  · cases h

/-- The start of a call transfers nothing. -/
theorem Peer.Sound.call {p' : Peer} (h : p.Sound all) (hall : ∀ b ∈ all, b.length < 2 ^ 64) (hc : p.call = some p') :
    p'.Sound all ∧ p'.moved = p.moved := by
  obtain ⟨buf, rest, hrun, htodo, rfl⟩ := exists_of_call hc
  have hbufs := h.bufs
  rw [hrun, htodo] at hbufs
  have hlt : buf.length < 2 ^ 64 := hall buf (by simp [← hbufs])
  have hfits : Fits buf buf 0 := ⟨rfl, Nat.zero_le _, rfl, hlt⟩
  obtain ⟨hsound, hmoved⟩ := Peer.Sound.settle (p := { p with todo := rest }) hbufs h.done hfits .head
  refine ⟨hsound, hmoved.trans ?_⟩
  simp [Peer.moved, hrun]

/-! ### The system -/

/-- The buffers of the calls are as they were on entry. -/
def Peer.Kept (p : Peer) : Prop := (∀ d ∈ p.done, d.buf = d.entry) ∧ ∀ r ∈ p.running, r.buf = r.entry

theorem Peer.Kept.settle (h : p.Kept) (hb : buf = entry) (n : Next) : (p.settle entry buf n).Kept := by
  cases n with
  | again total =>
    refine ⟨h.1, fun r hr => ?_⟩
    cases hr
    exact hb
  | ret value err =>
    refine ⟨fun d hd => ?_, fun r hr => by cases hr⟩
    rcases List.mem_append.mp hd with hd | hd
    · exact h.1 d hd
    · rw [List.mem_singleton.mp hd]
      exact hb

theorem Peer.Kept.moved (h : p.Kept) : p.moved = (p.done.map fun d => d.entry.take d.value.toNat).flatten ++
    p.running.elim [] fun r => r.entry.take r.total.toNat := by
  have hdone : p.done.map Done.piece = p.done.map fun d => d.entry.take d.value.toNat := by
    apply List.map_congr_left
    intro d hd
    rw [Done.piece, h.1 d hd]
  rw [Peer.moved, hdone]
  cases hr : p.running with
  | none => rfl
  | some r =>
    rw [Option.elim_some, Option.elim_some, h.2 r hr]

/-- **The invariant.** The stream is what the sender has transferred, and what has been delivered
of it is what the receiver has. -/
structure Inv (msgs bufs : List (List UInt8)) (s : System) : Prop where
  sender : s.sender.Sound msgs
  kept : s.sender.Kept
  receiver : s.receiver.Sound bufs
  wire : s.wire = s.sender.moved
  taken_le : s.taken ≤ s.wire.length
  received : s.wire.take s.taken = s.receiver.moved

/-- A return of `send`. -/
theorem Inv.sendReturns (h : Inv msgs bufs s) (hs : step s (.sendReturns status) = some s') : Inv msgs bufs s' := by
  obtain ⟨r, hr, hs⟩ := Option.bind_eq_some_iff.mp hs
  obtain ⟨bs, hbs, hs⟩ := Option.bind_eq_some_iff.mp hs
  cases hs
  have hfits := h.sender.running r hr
  obtain ⟨hle, hnext⟩ := accepted_spec hfits.total_le hbs
  have hbufs := h.sender.bufs
  rw [hr] at hbufs
  obtain ⟨hsound, hmoved⟩ := Peer.Sound.settle hbufs h.sender.done (hfits.advance hle) (sendTurn_reaches hbs)
  have hwire : s.wire = (s.sender.done.map Done.piece).flatten ++ r.buf.take r.total.toNat := by
    rw [h.wire, Peer.moved, hr]
    rfl
  refine ⟨hsound, h.kept.settle (h.kept.2 r hr) _, h.receiver, ?_, ?_, ?_⟩
  · rw [hmoved, hfits.toNat_add hle, List.take_add, ← hnext, ← List.append_assoc, ← hwire]
  · rw [List.length_append]
    exact Nat.le_trans h.taken_le (Nat.le_add_right ..)
  · rw [List.take_append_of_le_length h.taken_le]
    exact h.received

/-- A return of `recv`. -/
theorem Inv.recvReturns (h : Inv msgs bufs s) (hs : step s (.recvReturns status) = some s') : Inv msgs bufs s' := by
  obtain ⟨r, hr, hs⟩ := Option.bind_eq_some_iff.mp hs
  obtain ⟨bs, hbs, hs⟩ := Option.bind_eq_some_iff.mp hs
  cases hs
  have hfits := h.receiver.running r hr
  obtain ⟨hle, htaken, hnext⟩ := delivered_spec hfits.total_le h.taken_le hbs
  have hbufs := h.receiver.bufs
  rw [hr] at hbufs
  have hreach : Reaches (sizeOf (overwrite r.buf r.total.toNat bs)) (r.total + UInt64.ofNat bs.length)
      (recvTurn (sizeOf r.buf) r.total status) := by
    rw [sizeOf, length_overwrite hle]
    exact recvTurn_reaches hbs
  obtain ⟨hsound, hmoved⟩ := Peer.Sound.settle hbufs h.receiver.done (hfits.overwrite hle) hreach
  have hreceived : s.wire.take s.taken = (s.receiver.done.map Done.piece).flatten ++ r.buf.take r.total.toNat := by
    rw [h.received, Peer.moved, hr]
    rfl
  refine ⟨h.sender, h.kept, hsound, h.wire, htaken, ?_⟩
  rw [hmoved, hfits.toNat_add hle, take_overwrite hle, ← List.append_assoc, ← hreceived, List.take_add, ← hnext]

/-- **A step keeps the invariant.** -/
theorem Inv.step {e : Event} (hsize : ∀ b ∈ msgs ++ bufs, b.length < 2 ^ 64) (h : Inv msgs bufs s)
    (hs : step s e = some s') : Inv msgs bufs s' := by
  cases e with
  | sendReturns status => exact h.sendReturns hs
  | recvReturns status => exact h.recvReturns hs
  | sendCall =>
    obtain ⟨p', hc, hs⟩ := Option.bind_eq_some_iff.mp hs
    cases hs
    obtain ⟨hsound, hmoved⟩ := h.sender.call (fun b hb => hsize b (List.mem_append_left _ hb)) hc
    refine ⟨hsound, ?_, h.receiver, h.wire.trans hmoved.symm, h.taken_le, h.received⟩
    obtain ⟨buf, rest, -, -, rfl⟩ := exists_of_call hc
    exact Peer.Kept.settle (p := { s.sender with todo := rest }) h.kept rfl _
  | recvCall =>
    obtain ⟨p', hc, hs⟩ := Option.bind_eq_some_iff.mp hs
    cases hs
    obtain ⟨hsound, hmoved⟩ := h.receiver.call (fun b hb => hsize b (List.mem_append_right _ hb)) hc
    exact ⟨h.sender, h.kept, hsound, h.wire, h.taken_le, h.received.trans hmoved.symm⟩

theorem Inv.initial (msgs bufs : List (List UInt8)) : Inv msgs bufs (initial msgs bufs) := by
  refine ⟨⟨rfl, ?_, ?_⟩, ⟨?_, ?_⟩, ⟨rfl, ?_, ?_⟩, rfl, Nat.le_refl 0, rfl⟩ <;> simp [NetSocket.initial]

/-- A run keeps the invariant. -/
theorem Inv.run {es : List Event} (hsize : ∀ b ∈ msgs ++ bufs, b.length < 2 ^ 64) (h : Inv msgs bufs s)
    (hs : run s es = some s') : Inv msgs bufs s' := by
  induction es generalizing s with
  | nil =>
    cases hs
    exact h
  | cons e es ih =>
    obtain ⟨s₁, hstep, hrun⟩ := Option.bind_eq_some_iff.mp hs
    exact ih (h.step hsize hstep) hrun

/-! ### What the peers see -/

/-- What holds whenever the peers have got so far. -/
structure Exchanged (msgs bufs : List (List UInt8)) (s : System) : Prop where
  /-- If the first `n` calls of both peers have succeeded, the buffers have the messages. -/
  messages : ∀ n, n ≤ s.sender.done.length → n ≤ s.receiver.done.length →
    (∀ d ∈ s.sender.done.take n, d.err = .ok) → (∀ d ∈ s.receiver.done.take n, d.err = .ok) →
      (s.receiver.done.take n).map Done.buf = msgs.take n
  /-- The calls of the sender are for the messages, -/
  sends : s.sender.done.map Done.entry = msgs.take s.sender.done.length
  /-- and what has entered the stream is of each the first bytes, as many as the call has returned,
  and the first bytes of the message that is being sent. -/
  wire : s.wire = (s.sender.done.map fun d => d.entry.take d.value.toNat).flatten ++
    s.sender.running.elim [] fun r => r.entry.take r.total.toNat
  /-- The calls of the receiver are for the buffers. -/
  recvs : s.receiver.done.map Done.entry = bufs.take s.receiver.done.length
  /-- Each has stored the next bytes of the stream at the start of its buffer, as many as it has
  returned, -/
  received : s.wire.take s.taken = (s.receiver.done.map fun d => d.buf.take d.value.toNat).flatten ++
    s.receiver.running.elim [] fun r => r.buf.take r.total.toNat
  /-- and none after them. -/
  rest : ∀ d ∈ s.receiver.done, d.value.toNat ≤ d.buf.length ∧ d.buf.drop d.value.toNat = d.entry.drop d.value.toNat

theorem Peer.Sound.entries (h : p.Sound all) : p.done.map Done.entry = all.take p.done.length := by
  rw [← h.bufs]
  exact (List.take_left' (List.length_map _)).symm

/-- Calls that have succeeded have transferred their buffers. -/
theorem Peer.Sound.flatten_take (h : p.Sound all) {n : ℕ} (hok : ∀ d ∈ p.done.take n, d.err = .ok) :
    ((p.done.take n).map Done.buf).flatten <+: p.moved := by
  have hpiece : (p.done.take n).map Done.buf = (p.done.take n).map Done.piece := by
    apply List.map_congr_left
    intro d hd
    have hfine := (h.done d (List.mem_of_mem_take hd)).ok (hok d hd)
    rw [Done.piece, hfine, List.take_length]
  rw [hpiece, Peer.moved]
  refine List.IsPrefix.trans ?_ (List.prefix_append ..)
  conv_rhs => rw [← List.take_append_drop n p.done, List.map_append, List.flatten_append]
  exact List.prefix_append ..

/-- Two ways to cut the start of a list into pieces of the same sizes give the same pieces. -/
theorem eq_of_flatten_prefix {α : Type} {w : List α} {xs ys : List (List α)}
    (hlen : xs.map List.length = ys.map List.length) (hx : xs.flatten <+: w) (hy : ys.flatten <+: w) : xs = ys := by
  have hflat : xs.flatten.length = ys.flatten.length := by rw [List.length_flatten, List.length_flatten, hlen]
  rw [List.eq_iff_flatten_eq]
  exact ⟨(List.prefix_of_prefix_length_le hx hy (Nat.le_of_eq hflat)).eq_of_length hflat, hlen⟩

theorem Inv.messages (h : Inv msgs bufs s) (hsizes : bufs.map List.length = msgs.map List.length) {n : ℕ}
    (hn : n ≤ s.sender.done.length) (hn' : n ≤ s.receiver.done.length) (hok : ∀ d ∈ s.sender.done.take n, d.err = .ok)
    (hok' : ∀ d ∈ s.receiver.done.take n, d.err = .ok) : (s.receiver.done.take n).map Done.buf = msgs.take n := by
  have hsent : (s.sender.done.take n).map Done.buf = msgs.take n := by
    have hentry : (s.sender.done.take n).map Done.buf = (s.sender.done.take n).map Done.entry :=
      List.map_congr_left fun d hd => h.kept.1 d (List.mem_of_mem_take hd)
    rw [hentry, List.map_take, h.sender.entries, List.take_take, Nat.min_eq_left hn]
  have hlen : ((s.receiver.done.take n).map Done.buf).map List.length = (msgs.take n).map List.length := by
    have hentry : ((s.receiver.done.take n).map Done.buf).map List.length =
        ((s.receiver.done.take n).map Done.entry).map List.length := by
      rw [List.map_map, List.map_map]
      exact List.map_congr_left fun d hd => (h.receiver.done d (List.mem_of_mem_take hd)).fits.length
    rw [hentry, List.map_take, h.receiver.entries, List.take_take, Nat.min_eq_left hn', List.map_take, hsizes,
      List.map_take]
  refine eq_of_flatten_prefix (w := s.wire) hlen ?_ ?_
  · refine (h.receiver.flatten_take hok').trans ?_
    rw [← h.received]
    exact List.take_prefix ..
  · rw [← hsent, h.wire]
    exact h.sender.flatten_take hok

/-- **Every exchange.** Messages are sent and received into buffers of the same sizes. After any
sequence of steps, with any partial transfers, interruptions and errors, what has been
sent and received is as it should be. -/
theorem run_exchanged {es : List Event} (hsizes : bufs.map List.length = msgs.map List.length)
    (hsize : ∀ b ∈ msgs, b.length < 2 ^ 64) (hrun : run (initial msgs bufs) es = some s) : Exchanged msgs bufs s := by
  have hall : ∀ b ∈ msgs ++ bufs, b.length < 2 ^ 64 := by
    intro b hb
    rcases List.mem_append.mp hb with hb | hb
    · exact hsize b hb
    · have hmem : b.length ∈ msgs.map List.length := hsizes ▸ List.mem_map_of_mem hb
      obtain ⟨a, ha, hab⟩ := List.mem_map.mp hmem
      exact hab ▸ hsize a ha
  have h := (Inv.initial msgs bufs).run hall hrun
  constructor
  · intro n hn hn' hok hok'
    exact h.messages hsizes hn hn' hok hok'
  · exact h.sender.entries
  · rw [h.wire, h.kept.moved]
  · exact h.receiver.entries
  · exact h.received
  · intro d hd
    have hfits := (h.receiver.done d hd).fits
    exact ⟨hfits.total_le, hfits.rest⟩

/-- The return of `send` and `recv` with a part of a message, with an interruption, with an
error and with a closed connection. -/
def partialReturns : List Event :=
  [.sendCall, .sendReturns (.ok 2), .recvCall, .recvReturns (.error .intr), .recvReturns (.ok 1), .sendReturns (.ok 1),
    .recvReturns (.ok 2), .sendCall, .sendReturns (.ok 1), .sendReturns (.error .pipe), .recvCall, .recvReturns (.ok 1),
    .recvReturns (.ok 0)]

theorem run_exchanged_partial : ∃ s, run (initial [[1, 2, 3], [4, 5]] [[0, 0, 0], [7, 8]]) partialReturns = some s ∧
    Exchanged [[1, 2, 3], [4, 5]] [[0, 0, 0], [7, 8]] s ∧
      s.receiver.done = [⟨[0, 0, 0], [1, 2, 3], 3, .ok⟩, ⟨[7, 8], [4, 8], 1, .nsConnectionClose⟩] := by
  have hsome : (run (initial [[1, 2, 3], [4, 5]] [[0, 0, 0], [7, 8]]) partialReturns).map (fun s => s.receiver.done) =
      some [⟨[0, 0, 0], [1, 2, 3], 3, .ok⟩, ⟨[7, 8], [4, 8], 1, .nsConnectionClose⟩] := by decide +kernel
  obtain ⟨s, hrun, hdone⟩ := Option.map_eq_some_iff.mp hsome
  exact ⟨s, hrun, run_exchanged (by decide) (by decide) hrun, hdone⟩

end FileSync.NetSocket
