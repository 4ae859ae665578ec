import PqTunnel.Manager.Deadlines

/-! What one call tells its driver about the handshake or session that the client manager holds:
it goes on, or it ends and the call returns its Closed event. -/
namespace PqTunnel.ClientSessionManager

variable {T : CryptoTypes} {P : Primitives T} {m m' : ClientSessionManager T} {now : ℕ}

/-- What is held is still held, and a confirmed session is still confirmed. -/
structure GoesOn (m m' : ClientSessionManager T) : Prop where
  sid : m'.heldSid = m.heldSid
  ready : m.ready = true → m'.ready = true
  queue : m'.pendingClosed = m.pendingClosed

/-- What is held under the id is let go. -/
structure Ends (sid : SessionId) (m m' : ClientSessionManager T) : Prop where
  sid : m.heldSid = some sid
  hs : m'.hs = none
  session : m'.session = none
  ready : m'.ready = false
  queue : m'.pendingClosed = m.pendingClosed

/-- The event of a call tells whether what is held goes on. -/
def Tells (m : ClientSessionManager T) (ev : ManagerEvent) (m' : ClientSessionManager T) : Prop :=
  match ev with
  | .closed sid _ => Ends sid m m'
  | _ => GoesOn m m'

/-- A failed call ends nothing. -/
def Relays (m : ClientSessionManager T) (r : ClientStep T) : Prop :=
  match r.1 with
  | .ok ev => Tells m ev r.2
  | .error _ => GoesOn m r.2

/-- A session is confirmed only while it is held. -/
def ReadyHeld (m : ClientSessionManager T) : Prop := m.ready = true → m.session ≠ none

theorem GoesOn.refl (m : ClientSessionManager T) : GoesOn m m := ⟨rfl, id, rfl⟩

variable {m'' : ClientSessionManager T}

theorem GoesOn.trans (h : GoesOn m m') (h' : GoesOn m' m'') : GoesOn m m'' :=
  ⟨h'.sid.trans h.sid, fun hr => h'.ready (h.ready hr), h'.queue.trans h.queue⟩

theorem GoesOn.ends {sid : SessionId} (h : GoesOn m m') (h' : Ends sid m' m'') : Ends sid m m'' :=
  ⟨h.sid.symm.trans h'.sid, h'.hs, h'.session, h'.ready, h'.queue.trans h.queue⟩

theorem GoesOn.tells {ev : ManagerEvent} (h : GoesOn m m')
    (h' : Tells m' ev m'') : Tells m ev m'' := by
  cases ev with
  | closed sid reason => exact h.ends h'
  | _ => exact h.trans h'

theorem Ends.goesOn {sid : SessionId} (h : Ends sid m m') (hhs : m''.hs = m'.hs)
    (hsession : m''.session = m'.session) (hready : m''.ready = m'.ready)
    (hqueue : m''.pendingClosed = m'.pendingClosed) : Ends sid m m'' :=
  ⟨h.sid, hhs.trans h.hs, hsession.trans h.session, hready.trans h.ready, hqueue.trans h.queue⟩

section Session

variable {session : WireSession}

theorem teardown_ends (hidle : m.hs = none) (hget : m.session = some session) (now : ℕ)
    (sendClose : Bool) : Ends session.sessionId m (m.teardown P now sendClose).2 := by
  have hdown := teardown_tornDown (P := P) hget now sendClose
  exact ⟨heldSid_of_session hidle hget, hdown.hs.trans hidle, hdown.session, hdown.ready,
    hdown.pendingClosed⟩

theorem goesOn_session (session' : WireSession) (hidle : m.hs = none)
    (hget : m.session = some session) (hsid : session'.sessionId = session.sessionId)
    (hhs : m'.hs = m.hs) (hsession : m'.session = some session')
    (hready : m.ready = true → m'.ready = true) (hqueue : m'.pendingClosed = m.pendingClosed) :
    GoesOn m m' := by
  refine ⟨?_, hready, hqueue⟩
  rw [heldSid_of_session (hhs.trans hidle) hsession, heldSid_of_session hidle hget, hsid]

theorem goesOn_rekeyed (hidle : m.hs = none) (hget : m.session = some session) :
    GoesOn m { m with session := some { session with state := .rekey } } :=
  goesOn_session { session with state := .rekey } hidle hget rfl rfl rfl id rfl

theorem goesOn_probe {probe : Option WirePacket} (hone : OneLive m)
    (h : m.buildProbe P = (probe, m')) : GoesOn m m' := by
  have hidle : ∀ {session}, m.session = some session → m.hs = none :=
    fun hget => hone.resolve_right (by simp [hget])
  cases probed_of_eq h with
  | sent session packet session' hget henc =>
    have hid := congrArg WireSession.sessionId (WireSession.encrypt_ok henc).2
    exact goesOn_session session' (hidle hget) hget hid rfl rfl id rfl
  | spent session hget => exact goesOn_rekeyed (hidle hget) hget
  | unsent => exact .refl m

end Session

section Handshake

variable {hs hs' : ClientHandshake T}

theorem ReadyHeld.handshaking (h : ReadyHeld m) (hfree : m.session = none) : m.ready ≠ true :=
  fun hready => h hready hfree

theorem goesOn_withMachine (hget : m.hs = some hs) (hsid : hs'.sid = hs.sid)
    (r : Except (Fault HandshakeV2Error) (ClientEvent T)) : GoesOn m (m.withMachine hs' r) := by
  refine ⟨?_, id, rfl⟩
  rw [heldSid_of_machine hget, ← hsid]
  exact heldSid_of_machine rfl

theorem goesOn_adopting (hheld : Held P m) (hready : ReadyHeld m) (hget : m.hs = some hs)
    {packets : List WirePacket} {outcome : HandshakeOutcome T} {session : WireSession}
    (hstep : MachineStep P hs (.ok (.m3Sent packets outcome)) hs')
    (hnew : WireSession.established P .client outcome = .ok session) (now : ℕ) :
    GoesOn m (m.adopting packets outcome session now) := by
  have hout := ((hstep.frame (hheld.machine hs hget)).outcome packets outcome rfl).1
  obtain ⟨-, hsid, -⟩ := WireSession.established_ok hnew
  refine ⟨?_, fun hr => absurd hr (hready.handshaking (hheld.session_none hget)), rfl⟩
  rw [heldSid_of_machine hget, heldSid_of_session rfl rfl, hsid, hout]

theorem Does.relays {c : Call T} {r : ClientStep T} (h : Does P m c r) (hheld : Held P m)
    (hready : ReadyHeld m) (hbegin : ∀ draws kemSk xSk now, c ≠ .beginHandshake draws kemSk xSk now)
    (hclose : ∀ now, c ≠ .close now) : Relays m r := by
  have hidle : ∀ {session}, m.session = some session → m.hs = none :=
    fun hget => hheld.oneLive.resolve_right (by simp [hget])
  have hread : ∀ {pkt session}, Reads m pkt session → pkt.sid = (session.decrypt P pkt).2.sessionId ∧
      ∀ m', m'.hs = m.hs → m'.session = some (session.decrypt P pkt).2 →
        (m.ready = true → m'.ready = true) → m'.pendingClosed = m.pendingClosed → GoesOn m m' := by
    intro pkt session hread
    obtain ⟨st, w, hframe, -⟩ := session.decrypt_frame (P := P) pkt
    have hid : (session.decrypt P pkt).2.sessionId = session.sessionId := by rw [hframe]
    exact ⟨hread.sid.trans hid.symm, fun _ => goesOn_session _ (hidle hread.get) hread.get hid⟩
  cases h with
  | idle _ r hr => cases hr <;> exact .refl m
  | drew | began => exact absurd rfl (hbegin _ _ _ _)
  | stepped _ hs hs' r _ _ hget hstep _ hr =>
    have hkept := goesOn_withMachine hget (hstep.frame (hheld.machine hs hget)).sid r
    rcases hr with hr | ⟨_, -, rfl⟩
    · cases hr <;> exact hkept
    · exact hkept
  | timedOut _ hs hget =>
    have hfree := hheld.session_none hget
    exact ⟨heldSid_of_machine hget, rfl, hfree,
      Bool.eq_false_iff.mpr (hready.handshaking hfree), rfl⟩
  | doubled _ _ _ _ _ hget hbusy => simp [hheld.session_none hget] at hbusy
  | adopted _ _ _ _ _ _ _ _ _ hget _ hstep _ hnew hbuild =>
    exact (goesOn_adopting hheld hready hget hstep hnew _).trans (goesOn_probe (Or.inl rfl) hbuild)
  | resent _ _ _ _ hbuild =>
    have hgo : GoesOn m { m with m3Attempts := m.m3Attempts + 1 } := ⟨rfl, id, rfl⟩
    exact hgo.trans (goesOn_probe hheld.oneLive hbuild)
  | sent _ session _ _ _ session' _ hget henc =>
    have hid := congrArg WireSession.sessionId (WireSession.encrypt_ok henc).2
    exact goesOn_session session' (hidle hget) hget hid rfl rfl id rfl
  | spent _ session _ _ _ hget =>
    have hends := teardown_ends (P := P)
      (m := { m with session := some { session with state := .rekey } }) (hidle hget) rfl c.time true
    exact (goesOn_rekeyed (hidle hget) hget).ends hends
  | unread _ _ _ _ _ _ hr hplain =>
    have hgo := (hread hr).2 { m with session := some _ } rfl rfl id rfl
    cases hplain <;> exact hgo
  | read _ src _ _ session _ ev hr _ _ hev =>
    have hgo := (hread hr).2 (m.heard _ src) rfl rfl (fun _ => rfl) rfl
    rcases hev with rfl | rfl <;> exact hgo
  | hungUp _ src _ now _ _ hr =>
    have hgo := (hread hr).2 (m.heard _ src) rfl rfl (fun _ => rfl) rfl
    rw [(hread hr).1]
    exact hgo.ends (teardown_ends (P := P) (m := m.heard _ src) (hidle hr.get) rfl now false)
  | died _ _ _ now _ hr =>
    have hgo := (hread hr).2 { m with session := some _ } rfl rfl id rfl
    rw [(hread hr).1]
    exact hgo.ends (teardown_ends (P := P) (m := { m with session := some _ }) (hidle hr.get) rfl
      now true)
  | closed now => exact absurd rfl (hclose now)
  | _ => exact ⟨rfl, id, rfl⟩

end Handshake

section Slots

/-- The event of a slot, if there is one, tells whether what is held goes on. -/
def Slips (m : ClientSessionManager T) (r : Option ManagerEvent × ClientSessionManager T) : Prop :=
  match r.1 with
  | some ev => Tells m ev r.2
  | none => GoesOn m r.2

theorem Tells.paced {ev : ManagerEvent} (h : Tells m ev m') (last : Option ℕ) :
    Tells m ev { m' with lastSlotAt := last } := by
  cases ev with
  | closed sid reason => exact Ends.goesOn h rfl rfl rfl rfl
  | _ => exact GoesOn.trans h ⟨rfl, id, rfl⟩

theorem slips_takeSlot (hheld : Held P m) (hready : ReadyHeld m) (now clock : ℕ) :
    Slips m (m.takeSlot P now clock) := by
  have hslot := takeSlot_slot (P := P) m now clock
  have hgo : GoesOn m ((m.expireQueued now).2.probing now) := ⟨rfl, id, rfl⟩
  generalize m.takeSlot P now clock = res at hslot ⊢
  cases hslot with
  | shut => exact .refl m
  | flushed _ q rest r _ _ hdoes =>
    have hgo : GoesOn m { (m.expireQueued now).2 with outQueue := rest } := ⟨rfl, id, rfl⟩
    have hrelays := hdoes.relays ⟨hheld.oneLive, hheld.machine⟩ hready (by simp) (by simp)
    obtain ⟨r, m'⟩ := r
    cases r with
    | ok ev => exact Tells.paced (hgo.tells hrelays) _
    | error e => exact (hgo.trans hrelays).trans ⟨rfl, id, rfl⟩
  | drained => exact ⟨rfl, id, rfl⟩
  | unsent _ _ _ _ _ hbuild => exact hgo.trans (goesOn_probe hheld.oneLive hbuild)
  | probed _ _ _ _ _ _ hbuild =>
    exact (hgo.trans (goesOn_probe hheld.oneLive hbuild)).trans ⟨rfl, id, rfl⟩

/-- Events that report no end. -/
def Uneventful (evs : List ManagerEvent) : Prop := ∀ ev ∈ evs, ∀ sid reason, ev ≠ .closed sid reason

/-- A tick lets at most one thing go, and says so once. -/
inductive Ticked (m : ClientSessionManager T) :
    List ManagerEvent × ClientSessionManager T → Prop where
  | goesOn (evs : List ManagerEvent) (m' : ClientSessionManager T) (hevs : Uneventful evs)
      (hgo : GoesOn m m') : Ticked m (evs, m')
  | ends (before after : List ManagerEvent) (sid : SessionId) (reason : CloseReason)
      (m' : ClientSessionManager T) (hbefore : Uneventful before) (hafter : Uneventful after)
      (hends : Ends sid m m') : Ticked m (before ++ .closed sid reason :: after, m')

theorem tick_ticked (hone : OneLive m) (hready : ReadyHeld m) (hqueue : m.pendingClosed = [])
    (now : ℕ) : Ticked m (m.tick P now) := by
  have henforced := enforced_cases (P := P) hone now
  have hevs := tick_events (P := P) m now
  rw [henforced.pendingClosed, hqueue, List.append_nil, List.append_assoc] at hevs
  have hrest : Uneventful ((m.enforced P now).2.lostReport now ++
      (retransmitCloses P (m.enforced P now).2.pendingCloses now).1) := by
    intro ev hmem sid reason
    rcases List.mem_append.mp hmem with hmem | hmem
    · unfold lostReport at hmem
      split_ifs at hmem
      · rw [List.mem_singleton.mp hmem]
        simp
      · cases hmem
    · obtain ⟨pkt, peer, rfl⟩ := retransmitCloses_sends hmem
      simp
  have hleft : ∀ m', (m.enforced P now).2 = m' → (m.tick P now).2.hs = m'.hs ∧
      (m.tick P now).2.session = m'.session ∧ (m.tick P now).2.ready = m'.ready := by
    rintro m' rfl
    exact ⟨rfl, rfl, rfl⟩
  have hclosed : (m.tick P now).2.pendingClosed = m.pendingClosed := by rw [hqueue]; rfl
  have hpair : m.tick P now = ((m.tick P now).1, (m.tick P now).2) := rfl
  generalize hr : m.enforced P now = r at henforced
  rw [hr] at hevs hleft hrest
  rw [hpair, hevs]
  obtain ⟨hhs, hsession, hready'⟩ := hleft r.2 rfl
  cases henforced with
  | kept =>
    refine .goesOn _ _ hrest ⟨?_, fun hr => hready'.trans hr, hclosed⟩
    rw [heldSid, heldSid, sessionId, sessionId, hhs, hsession]
  | gaveUp hs hget hfree =>
    refine .ends [] _ _ _ _ (fun ev hmem => absurd hmem List.not_mem_nil) hrest
      ⟨heldSid_of_machine hget, hhs, hsession.trans hfree, hready'.trans ?_, hclosed⟩
    exact Bool.eq_false_iff.mpr (hready.handshaking hfree)
  | closed session reason hidle hget =>
    have hends := teardown_ends (P := P) hidle hget now true
    rw [List.append_assoc]
    refine .ends _ _ _ _ _ ?_ hrest
      ⟨hends.sid, hhs.trans hends.hs, hsession.trans hends.session, hready'.trans hends.ready,
        hclosed⟩
    intro ev hmem sid reason
    rcases teardown_closes (P := P) hget now true with ⟨hev, -⟩ | ⟨_, _, -, hev, -⟩
    · rw [hev] at hmem
      cases hmem
    · rw [hev] at hmem
      rw [List.mem_singleton.mp hmem]
      simp

end Slots

section Invariant

theorem Act.readyHeld {evs : List ManagerEvent} (hact : Act P now m evs m') (h : ReadyHeld m) :
    ReadyHeld m' := by
  cases hact with
  | quiet _ _ _ hsame => rwa [ReadyHeld, hsame.ready, hsame.session]
  | began | adopted => exact fun hready => by cases hready
  | touched | sent => exact fun _ hnone => by cases hnone
  | ended _ session _ sendClose _ hget =>
    intro hready
    rw [(teardown_tornDown (P := P) hget now sendClose).ready] at hready
    cases hready
  | closedByUser _ session _ hget =>
    intro hready
    rw [(teardown_tornDown (P := P) hget now true).ready] at hready
    cases hready
  | _ => exact h

theorem ReadyHeld.call (hheld : Held P m) (h : ReadyHeld m) (c : Call T) :
    ReadyHeld (call P m c).2 :=
  (call_trace hheld c).keeps (fun h hact => hact.readyHeld h) h

end Invariant

end PqTunnel.ClientSessionManager
