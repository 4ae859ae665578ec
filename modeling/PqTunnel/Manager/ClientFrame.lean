import PqTunnel.Manager.ClientEstablish

/-! What the calls of the client manager leave alone: the outbound queue, the unanswered liveness
rounds, and the events about either. -/
namespace PqTunnel.ClientSessionManager
open ServerSessionManager (returned)

variable {T : CryptoTypes} {P : Primitives T} {m m' : ClientSessionManager T}

/-- The queue, the count of what was dropped from it, and the pace of the slots. -/
def backlog (m : ClientSessionManager T) : List QueuedPayload × ℕ × Option ℕ × SessionLimits :=
  (m.outQueue, m.droppedOutbound, m.lastSlotAt, m.limits)

/-- The counts that events report. -/
def dropCounts (evs : List ManagerEvent) : List ℕ :=
  evs.filterMap fun
    | .outboundDropped n => some n
    | _ => none

theorem dropCounts_append (evs evs' : List ManagerEvent) :
    dropCounts (evs ++ evs') = dropCounts evs ++ dropCounts evs' := List.filterMap_append ..

def lostPeers (evs : List ManagerEvent) : List SessionId :=
  evs.filterMap fun
    | .closed sid .peerUnresponsive => some sid
    | _ => none

theorem lostPeers_append (evs evs' : List ManagerEvent) :
    lostPeers (evs ++ evs') = lostPeers evs ++ lostPeers evs' := List.filterMap_append ..

/-- The unanswered rounds are cleared, or they and the session stay. -/
def KeepsRounds (m m' : ClientSessionManager T) : Prop :=
  m'.roundsUnanswered = 0 ∨ m'.roundsUnanswered = m.roundsUnanswered ∧ m'.sessionId = m.sessionId

theorem KeepsRounds.refl (m : ClientSessionManager T) : KeepsRounds m m := Or.inr ⟨rfl, rfl⟩

/-- A step that leaves the queue alone, keeps the unanswered rounds or clears them, and reports
neither a drop nor a lost peer. -/
structure Bystands (m : ClientSessionManager T) (r : ClientStep T) : Prop where
  backlog : r.2.backlog = m.backlog
  rounds : KeepsRounds m r.2
  drops : dropCounts (returned r.1) = []
  lost : lostPeers (returned r.1) = []

theorem Bystands.still {r : ClientStep T} (hback : r.2.backlog = m.backlog)
    (hrounds : r.2.roundsUnanswered = m.roundsUnanswered) (hsession : r.2.sessionId = m.sessionId)
    (hdrops : dropCounts (returned r.1) = []) (hlost : lostPeers (returned r.1) = []) :
    Bystands m r := ⟨hback, Or.inr ⟨hrounds, hsession⟩, hdrops, hlost⟩

theorem Plain.bystands {r : Except (Fault ManagerError) ManagerEvent} (hr : Plain m r)
    (hback : m'.backlog = m.backlog) (hrounds : m'.roundsUnanswered = m.roundsUnanswered)
    (hsid : m'.sessionId = m.sessionId) : Bystands m (r, m') := by
  cases hr <;> exact .still hback hrounds hsid rfl rfl

theorem sessionId_eq {s s' : WireSession} (hget : m.session = some s)
    (hget' : m'.session = some s') (hid : s'.sessionId = s.sessionId) :
    m'.sessionId = m.sessionId := by
  rw [sessionId, sessionId, hget, hget', Option.map_some, Option.map_some, hid]

theorem backlog_teardown {session : WireSession} (hget : m.session = some session) (now : ℕ)
    (sendClose : Bool) :
    (m.teardown P now sendClose).2.backlog = m.backlog ∧
      (m.teardown P now sendClose).2.roundsUnanswered = 0 := by
  obtain ⟨_, _, heq | ⟨_, _, -, heq⟩⟩ := teardown_cases (P := P) hget now sendClose <;> rw [heq] <;>
    exact ⟨rfl, rfl⟩

theorem backlog_probe {probe : Option WirePacket} (h : m.buildProbe P = (probe, m')) :
    m'.backlog = m.backlog ∧ m'.roundsUnanswered = m.roundsUnanswered ∧
      m'.sessionId = m.sessionId ∧ m'.ready = m.ready := by
  cases probed_of_eq h with
  | sent session packet session' hget henc =>
    obtain ⟨-, rfl⟩ := WireSession.encrypt_ok henc
    exact ⟨rfl, rfl, sessionId_eq hget rfl rfl, rfl⟩
  | spent session hget => exact ⟨rfl, rfl, sessionId_eq hget rfl rfl, rfl⟩
  | unsent => exact ⟨rfl, rfl, rfl, rfl⟩

theorem Does.bystands {c : Call T} {r : ClientStep T} (h : Does P m c r)
    (happ : ∀ payload now, c ≠ .appOutbound payload now) : Bystands m r := by
  cases h with
  | idle _ r hr | drew _ _ _ _ _ _ r hr => exact hr.bystands rfl rfl rfl
  | stepped _ _ _ _ r' _ _ _ _ hr =>
    rcases hr with hr | ⟨_, -, rfl⟩
    · exact hr.bystands rfl rfl rfl
    · exact .still rfl rfl rfl rfl rfl
  | adopted _ _ _ _ _ _ _ _ _ _ _ _ _ _ hbuild =>
    obtain ⟨hback, hrounds, -⟩ := backlog_probe hbuild
    exact ⟨hback, Or.inl hrounds, rfl, rfl⟩
  | resent _ _ _ _ hbuild =>
    obtain ⟨hback, hrounds, hsid, -⟩ := backlog_probe hbuild
    exact .still hback hrounds hsid rfl rfl
  | sent _ _ _ _ _ _ _ hget henc =>
    obtain ⟨-, rfl⟩ := WireSession.encrypt_ok henc
    exact .still rfl rfl (sessionId_eq hget rfl rfl) rfl rfl
  | spent | died =>
    exact ⟨(backlog_teardown rfl _ true).1, Or.inl (backlog_teardown rfl _ true).2, rfl, rfl⟩
  | queued payload now | refused payload now => exact absurd rfl (happ payload now)
  | unread pkt _ _ _ session r hread hr =>
    obtain ⟨st, w, hframe, -⟩ := session.decrypt_frame (P := P) pkt
    exact hr.bystands rfl rfl (sessionId_eq hread.get rfl (by rw [hframe]))
  | read _ _ _ _ _ _ ev _ _ _ hev =>
    rcases hev with rfl | rfl <;> exact ⟨rfl, Or.inl rfl, rfl, rfl⟩
  | hungUp =>
    exact ⟨(backlog_teardown rfl _ false).1, Or.inl (backlog_teardown rfl _ false).2, rfl, rfl⟩
  | closed now session hget =>
    obtain ⟨hback, hzero⟩ := backlog_teardown (P := P) hget now true
    rcases teardown_closes (P := P) hget now true with ⟨hev, -⟩ | ⟨_, _, -, hev, -⟩ <;> rw [hev] <;>
      exact ⟨hback, Or.inl hzero, rfl, rfl⟩
  | _ => exact .still rfl rfl rfl rfl rfl

theorem bystands_sendEncrypted (m : ClientSessionManager T) (msgType : MessageType)
    (payload : Bytes) (now : ℕ) : Bystands m (m.sendEncrypted P msgType payload now) :=
  (does_sendEncrypted m (c := .tunOutbound payload now) rfl msgType payload).bystands (by simp)

/-- The calls that touch neither the queue nor the liveness probes. -/
theorem bystands_call {c : Call T} (happ : ∀ payload now, c ≠ .appOutbound payload now)
    (hslot : ∀ now clock, c ≠ .takeSlot now clock) (htick : ∀ now, c ≠ .tick now) :
    (call P m c).2.backlog = m.backlog ∧ KeepsRounds m (call P m c).2 ∧
      dropCounts (call P m c).1 = [] ∧ lostPeers (call P m c).1 = [] := by
  rcases call_does P m c with ⟨t, clock, rfl⟩ | ⟨now, rfl⟩ | ⟨r, hdoes, hcall, -⟩
  · exact absurd rfl (hslot t clock)
  · exact absurd rfl (htick now)
  · rw [hcall]
    have h := hdoes.bystands happ
    exact ⟨h.backlog, h.rounds, h.drops, h.lost⟩

end PqTunnel.ClientSessionManager
