import FileSync.NetSocket.Party

/-!
# What the two sides agree on

Whatever fails, a program prints the record that the other one has sent and no other, and
it prints "safe shutdown" only after it has read all that the other side had to send.
-/

namespace FileSync.NetSocket

variable {prog : Program} {p p' q : Proc} {o i o' i' : Chan} {a : Answer} {r : Role} {mine theirs : TestData}

/-! ### The session -/

/-- A step of the other side. -/
theorem PartyInv.other (h : PartyInv r mine theirs p o i) (hg : i.Grows i') (hrd : o.Reads o') :
    PartyInv r mine theirs p o' i' := by
  have hw := hrd.wire
  have htake : i'.wire.take i.taken = i.wire.take i.taken := by
    obtain ⟨rest, hrest⟩ := hg.wire
    rw [← hrest, List.take_append_of_le_length h.taken]
  refine ⟨hw ▸ h.sent, hw ▸ h.unsent, hw ▸ h.sending, hw ▸ h.allSent, ?_, h.room, ?_, ?_, ?_, ?_, h.transfer, h.said,
    h.printed, ?_⟩
  · rw [hrd.fin]
    exact h.fin
  · rw [hg.taken]
    exact le_trans h.taken hg.wire.length_le
  · rw [hg.taken]
    exact h.untaken
  · rw [hg.taken, htake]
    exact h.taking
  · rw [hg.taken]
    exact h.allTaken
  · intro hs
    obtain ⟨hf, hall⟩ := h.safe hs
    obtain ⟨hwire, hfin⟩ := hg.fin hf
    exact ⟨hfin, by rw [hg.taken, hwire, hall]⟩

namespace Session

variable {cap : ℕ} {d : Records} {s s' : Session} {x : Party}

/-- **The invariant of a session**, whatever fails: each side has sent, received and printed what
it has by now, and holds its sockets. -/
structure Inv (d : Records) (s : Session) : Prop where
  server : PartyInv serverRole d.server d.daemon s.server s.toDaemon s.toServer
  daemon : PartyInv daemonRole d.daemon d.server s.daemon s.toServer s.toDaemon
  serverHolds : Leaves (serverShapes ++ serverFailed) s.server
  daemonHolds : Leaves daemonShapes s.daemon

theorem serverShapes_all (data : TestData) : Closed (serverRun data) (serverShapes ++ serverFailed) := by
  have h : Closed (serverRun serverData) (serverShapes ++ serverFailed) := by decide
  exact h

/-- The making of the connection changes nothing else. -/
theorem meet_eq {st : Stmt} {a : Answer} (h : s.meet st a = some s') :
    s'.server = s.server ∧ s'.daemon = s.daemon ∧ s'.toServer = s.toServer ∧ s'.toDaemon = s.toDaemon := by
  unfold meet at h
  split at h
  · cases h
    exact ⟨rfl, rfl, rfl, rfl⟩
  · split_ifs at h
    cases h
    exact ⟨rfl, rfl, rfl, rfl⟩
  · split_ifs at h
    cases h
    exact ⟨rfl, rfl, rfl, rfl⟩
  · cases h
    exact ⟨rfl, rfl, rfl, rfl⟩

/-- A step taken apart. -/
theorem step_cases (h : s.step cap d x a = some s') :
    ∃ p' o' i' t, (s.proc x).step (program d x) a = some p' ∧
      (s.proc x).exchange cap (program d x).data.bytes (s.out x) (s.inc x) ((s.proc x).stmt (program d x)) a = some (o', i') ∧
      s.meet ((s.proc x).stmt (program d x)) a = some t ∧ s' = ((t.setOut o' x).setInc i' x).setProc p' x := by
  simp only [step, Option.bind_eq_bind] at h
  obtain ⟨p', hp, h⟩ := Option.bind_eq_some_iff.mp h
  obtain ⟨⟨o', i'⟩, he, h⟩ := Option.bind_eq_some_iff.mp h
  obtain ⟨t, hm, h⟩ := Option.bind_eq_some_iff.mp h
  cases h
  exact ⟨p', o', i', t, hp, he, hm, rfl⟩

theorem Inv.step (hserver : d.server.Fits) (hdaemon : d.daemon.Fits) (h : Inv d s) (hs : s.step cap d x a = some s') :
    Inv d s' := by
  obtain ⟨p', o', i', t, hp, he, hm, rfl⟩ := step_cases hs
  obtain ⟨ms, md, mts, mtd⟩ := meet_eq hm
  cases x with
  | server =>
    obtain ⟨hneeds, hnext⟩ := serverShapes_all d.server s.server.abs h.serverHolds.2
    obtain ⟨hacc, hmem⟩ := step_leaves h.serverHolds.1 hneeds hp
    have hcode : (serverRun d.server).code = serverRole.code := rfl
    obtain ⟨hinv, hgrows, hreads⟩ := h.server.step Role.serverRole_sound hcode rfl rfl hserver hdaemon h.daemon.sent
      h.serverHolds.1 hneeds hp he
    exact ⟨hinv, md ▸ h.daemon.other hgrows hreads, ⟨hacc, hnext _ hmem⟩, md ▸ h.daemonHolds⟩
  | daemon =>
    obtain ⟨hneeds, hnext⟩ := daemonShapes_closed d.daemon s.daemon.abs h.daemonHolds.2
    obtain ⟨hacc, hmem⟩ := step_leaves h.daemonHolds.1 hneeds hp
    have hcode : (daemonRun d.daemon).code = daemonRole.code := rfl
    obtain ⟨hinv, hgrows, hreads⟩ := h.daemon.step Role.daemonRole_sound hcode rfl rfl hdaemon hserver h.server.sent
      h.daemonHolds.1 hneeds hp he
    exact ⟨ms ▸ h.server.other hgrows hreads, hinv, ms ▸ h.serverHolds, ⟨hacc, hnext _ hmem⟩⟩

/-- The start. -/
theorem partyInv_start (hr : r.Sound) :
    PartyInv r mine theirs (.start .ok) ⟨[], 0, false⟩ ⟨[], 0, false⟩ := by
  have h1 := hr.greet_send
  have h2 := hr.send_shut
  have hpos : 0 < r.sendAt := by omega
  refine ⟨List.nil_prefix, fun _ => rfl, fun _ => rfl, fun hlt => ?_, nofun, List.length_replicate, le_rfl, fun _ => rfl,
    fun _ => ⟨rfl, rfl⟩, fun hlt => ?_, nofun, fun _ => ?_, .inl List.nil_prefix, fun hs => ?_⟩
  · exact absurd hlt (Nat.not_lt_zero _)
  · exact absurd hlt (Nat.not_lt_zero _)
  · simp [Proc.start, Role.said]
  · simp [Proc.start] at hs

theorem inv_initial (d : Records) : Inv d initial :=
  ⟨partyInv_start Role.serverRole_sound, partyInv_start Role.daemonRole_sound,
    ⟨start_account, by decide⟩, ⟨start_account, by decide⟩⟩

theorem Inv.run {es : List (Party × Answer)} (hserver : d.server.Fits) (hdaemon : d.daemon.Fits) (h : Inv d s)
    (hr : s.run cap d es = some s') : Inv d s' := by
  induction es generalizing s with
  | nil =>
    cases hr
    exact h
  | cons e es ih =>
    obtain ⟨t, hs, hr⟩ := Option.bind_eq_some_iff.mp hr
    exact ih (h.step hserver hdaemon hs) hr

end Session

/-- **The two sides agree**, in every order of their steps and whatever fails: each prints the
record that the other one sends and no other, at most once, and prints "safe
shutdown" only when the other side has ended its stream and all of it has been read. -/
theorem session_agreement {cap : ℕ} {d : Records} (hserver : d.server.Fits) (hdaemon : d.daemon.Fits)
    {es : List (Party × Answer)} {s : Session} (h : Session.initial.run cap d es = some s) :
    Printed [] d.daemon s.server.out ∧ Printed [.connected] d.server s.daemon.out ∧
      (.safeShutdown ∈ s.server.out → s.toServer.fin = true ∧ s.toServer.taken = s.toServer.wire.length) ∧
      (.safeShutdown ∈ s.daemon.out → s.toDaemon.fin = true ∧ s.toDaemon.taken = s.toDaemon.wire.length) := by
  have hinv := (Session.inv_initial d).run hserver hdaemon h
  exact ⟨hinv.server.printed, hinv.daemon.printed, hinv.server.safe, hinv.daemon.safe⟩

/-- What the two programs send. -/
def sourceRecords : Records := ⟨serverData, daemonData⟩

theorem serverData_fits : serverData.Fits := ⟨by decide +kernel, by decide +kernel⟩

theorem daemonData_fits : daemonData.Fits := ⟨by decide +kernel, by decide +kernel⟩

/-- A session in which the first `recv` of the server is interrupted. -/
def exchanged : List (Party × Answer) :=
  [(.server, .malloc true), (.daemon, .malloc true), (.server, .socket (.ok 3)), (.daemon, .socket (.ok 3)),
    (.server, .pton (some 0)), (.server, .status (.ok ())), (.server, .status (.ok ())),
    (.daemon, .addrinfo (.ok ⟨afInet, sizeofSockaddrIn, ⟨afInet, htons servPort, 0⟩⟩)), (.daemon, .status (.ok ())),
    (.server, .malloc true), (.server, .accepted (.ok ⟨4, ⟨afInet, 0, 0⟩, sizeofSockaddrIn⟩)), (.server, .go),
    (.server, .received (.error .intr)), (.daemon, .go), (.daemon, .go), (.daemon, .sent (.ok 100)),
    (.server, .received (.ok (daemonData.bytes.take 60))), (.daemon, .sent (.ok 12)),
    (.server, .received (.ok (daemonData.bytes.drop 60))), (.server, .go), (.server, .go), (.server, .sent (.ok 112)),
    (.daemon, .go), (.daemon, .received (.ok serverData.bytes)), (.daemon, .go), (.daemon, .status (.ok ())),
    (.server, .status (.ok ())), (.server, .go), (.server, .received (.ok [])), (.daemon, .go),
    (.daemon, .received (.ok [])), (.server, .status (.ok ())), (.server, .go), (.server, .go),
    (.daemon, .status (.ok ())), (.daemon, .go)]

theorem session_agreement_exchanged : ∃ s, Session.initial.run 112 sourceRecords exchanged = some s ∧
    Printed [] daemonData s.server.out ∧ Printed [.connected] serverData s.daemon.out ∧
      .safeShutdown ∈ s.server.out ∧ s.toServer.fin = true ∧ s.toServer.taken = s.toServer.wire.length := by
  obtain ⟨s, hs⟩ : ∃ s, Session.initial.run 112 sourceRecords exchanged = some s :=
    Option.isSome_iff_exists.mp (by decide +kernel)
  obtain ⟨hserver, hdaemon, hsafe, -⟩ := session_agreement serverData_fits daemonData_fits hs
  have hout : ((Session.initial.run 112 sourceRecords exchanged).map fun s => decide (.safeShutdown ∈ s.server.out)) =
      some true := by decide +kernel
  rw [hs] at hout
  have hmem := of_decide_eq_true (Option.some.inj hout)
  exact ⟨s, hs, hserver, hdaemon, hmem, hsafe hmem⟩

end FileSync.NetSocket
