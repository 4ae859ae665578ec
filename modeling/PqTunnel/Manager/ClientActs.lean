import PqTunnel.Manager.ClientSteps

/-! Everything a call can do to the handshake and the session of the client manager, as a sequence
of acts. -/
namespace PqTunnel.ClientSessionManager
open Transition
open ServerSessionManager (returned)

variable {T : CryptoTypes}

/-- The two managers differ only in what paces retransmissions, probes and slots, in the buffered
payloads and in the remembered session ids. -/
structure Same (m m' : ClientSessionManager T) : Prop where
  cfg : m'.cfg = m.cfg
  limits : m'.limits = m.limits
  hs : m'.hs = m.hs
  session : m'.session = m.session
  ready : m'.ready = m.ready
  peer : m'.peer = m.peer
  hsStarted : m'.hsStarted = m.hsStarted
  preparedAt : m'.preparedAt = m.preparedAt
  rearmRequested : m'.rearmRequested = m.rearmRequested
  pendingClosed : m'.pendingClosed = m.pendingClosed
  pendingCloses : m'.pendingCloses = m.pendingCloses
  encrypted : m'.encrypted = m.encrypted
  begun : m'.begun = m.begun
  outcomes : m'.outcomes = m.outcomes

def Silent (evs : List ManagerEvent) : Prop := ∀ ev ∈ evs, ev.notice = none

/-- The acts of which the calls at one time consist, with the events each one gives. -/
inductive Act (P : Primitives T) (now : ℕ) (m : ClientSessionManager T) :
    List ManagerEvent → ClientSessionManager T → Prop where
  | quiet (evs : List ManagerEvent) (m' : ClientSessionManager T) (hevs : Silent evs)
      (hsame : Same m m') : Act P now m evs m'
  | began (evs : List ManagerEvent) (sid : SessionId) (kemSk : T.KemSk) (xSk : T.XSk)
      (hs : ClientHandshake T) (hevs : Silent evs) (hidle : m.hs = none) (hfree : m.session = none)
      (hnew : ClientHandshake.new P m.cfg sid kemSk xSk = .ok hs) :
      Act P now m evs
        { m with
          hs := some hs
          hsStarted := some now
          ready := false
          peer := m.cfg.serverAddr
          rearmRequested := false
          begun := m.begun + 1 }
  | stepped (evs : List ManagerEvent) (hs hs' : ClientHandshake T)
      (r : Except (Fault HandshakeV2Error) (ClientEvent T)) (hevs : Silent evs)
      (hget : m.hs = some hs) (hstep : MachineStep P hs r hs') :
      Act P now m evs (m.withMachine hs' r)
  | timedOut (hs : ClientHandshake T) (hget : m.hs = some hs) :
      Act P now m [.closed hs.sid .handshakeTimeout] m.dropHandshake
  | adopted (hs hs' : ClientHandshake T) (packets : List WirePacket)
      (outcome : HandshakeOutcome T) (session : WireSession) (hget : m.hs = some hs)
      (hfree : m.session = none) (hstep : MachineStep P hs (.ok (.m3Sent packets outcome)) hs')
      (hnew : WireSession.established P .client outcome = .ok session) :
      Act P now m []
        { m with
          session := some session
          hs := none
          hsStarted := none
          ready := false
          preparedAt := some now
          m3Frags := packets
          m3Attempts := 0
          m3Exhausted := false
          roundsUnanswered := 0
          nextProbeAt := some (now + m.limits.livenessProbeInterval)
          outcomes := m.outcomes ++ [(m.begun, outcome)] }
  | touched (session : WireSession) (st : ProtocolState) (w : ReplayWindow) (ready : Bool)
      (rounds : ℕ) (peer : SocketAddr) (hget : m.session = some session) :
      Act P now m []
        { m with
          session := some { session with
            state := st, cipher := { session.cipher with replay := w } }
          ready
          roundsUnanswered := rounds
          peer }
  | sent (evs : List ManagerEvent) (session : WireSession) (msgType : MessageType)
      (payload : Bytes) (packet : WirePacket) (session' : WireSession) (hevs : Silent evs)
      (hget : m.session = some session)
      (henc : session.encrypt P msgType payload = (.ok packet, session')) :
      Act P now m evs
        { m with
          session := some session'
          encrypted := m.encrypted ++ session.sealing (.ok packet) }
  | ended (evs : List ManagerEvent) (session : WireSession) (reason : CloseReason)
      (sendClose : Bool) (hevs : Silent evs) (hget : m.session = some session) :
      Act P now m (evs ++ [.closed session.sessionId reason]) (m.teardown P now sendClose).2
  | closedByUser (evs : List ManagerEvent) (session : WireSession) (hevs : Silent evs)
      (hget : m.session = some session) :
      Act P now m evs
        { (m.teardown P now true).2 with
          pendingClosed := m.pendingClosed ++ [.closed session.sessionId .userClosed] }
  | flushed : Act P now m (m.pendingClosed ++ (retransmitCloses P m.pendingCloses now).1)
      { m with
        pendingClosed := []
        pendingCloses := (retransmitCloses P m.pendingCloses now).2.1
        encrypted := m.encrypted ++ (retransmitCloses P m.pendingCloses now).2.2 }

/-- The acts but for the adoption of a session and the flush that ends a tick. -/
inductive Deed (P : Primitives T) (now : ℕ) (m : ClientSessionManager T) :
    List ManagerEvent → ClientSessionManager T → Prop where
  | quiet (evs : List ManagerEvent) (m' : ClientSessionManager T) (hevs : Silent evs)
      (hsame : Same m m') : Deed P now m evs m'
  | began (evs : List ManagerEvent) (sid : SessionId) (kemSk : T.KemSk) (xSk : T.XSk)
      (hs : ClientHandshake T) (hevs : Silent evs) (hidle : m.hs = none) (hfree : m.session = none)
      (hnew : ClientHandshake.new P m.cfg sid kemSk xSk = .ok hs) :
      Deed P now m evs
        { m with
          hs := some hs
          hsStarted := some now
          ready := false
          peer := m.cfg.serverAddr
          rearmRequested := false
          begun := m.begun + 1 }
  | stepped (evs : List ManagerEvent) (hs hs' : ClientHandshake T)
      (r : Except (Fault HandshakeV2Error) (ClientEvent T)) (hevs : Silent evs)
      (hget : m.hs = some hs) (hstep : MachineStep P hs r hs') :
      Deed P now m evs (m.withMachine hs' r)
  | timedOut (hs : ClientHandshake T) (hget : m.hs = some hs) :
      Deed P now m [.closed hs.sid .handshakeTimeout] m.dropHandshake
  | touched (session : WireSession) (st : ProtocolState) (w : ReplayWindow) (ready : Bool)
      (rounds : ℕ) (peer : SocketAddr) (hget : m.session = some session) :
      Deed P now m []
        { m with
          session := some { session with
            state := st, cipher := { session.cipher with replay := w } }
          ready
          roundsUnanswered := rounds
          peer }
  | sent (evs : List ManagerEvent) (session : WireSession) (msgType : MessageType)
      (payload : Bytes) (packet : WirePacket) (session' : WireSession) (hevs : Silent evs)
      (hget : m.session = some session)
      (henc : session.encrypt P msgType payload = (.ok packet, session')) :
      Deed P now m evs
        { m with
          session := some session'
          encrypted := m.encrypted ++ session.sealing (.ok packet) }
  | ended (evs : List ManagerEvent) (session : WireSession) (reason : CloseReason)
      (sendClose : Bool) (hevs : evs = (m.teardown P now sendClose).1.toList ∨ evs = [])
      (hget : m.session = some session) :
      Deed P now m (evs ++ [.closed session.sessionId reason]) (m.teardown P now sendClose).2
  | closedByUser (session : WireSession) (hget : m.session = some session) :
      Deed P now m (m.teardown P now true).1.toList
        { (m.teardown P now true).2 with
          pendingClosed := m.pendingClosed ++ [.closed session.sessionId .userClosed] }

/-- A handshake that succeeds leaves a session in place of its machine, and a probe goes out. -/
inductive Adopts (P : Primitives T) (now : ℕ) (m : ClientSessionManager T)
    (evs : List ManagerEvent) (m' : ClientSessionManager T) : Prop where
  | mk (hs hs' : ClientHandshake T) (packets : List WirePacket)
      (outcome : HandshakeOutcome T) (session : WireSession) (m₁ : ClientSessionManager T)
      (hget : m.hs = some hs) (hfree : m.session = none)
      (hstep : MachineStep P hs (.ok (.m3Sent packets outcome)) hs')
      (hnew : WireSession.established P .client outcome = .ok session)
      (hadopt : Act P now m [] m₁) (hsession : m₁.session = some session)
      (hsince : m₁.preparedAt = some now) (hcloses : m₁.pendingCloses = m.pendingCloses)
      (hlimits : m₁.limits = m.limits) (hprobe : Trace (Deed P now) m₁ evs m')
      (hkept : m' = (m₁.buildProbe P).2)

/-- The manager holds no handshake machine beside a session. -/
def OneLive (m : ClientSessionManager T) : Prop := m.hs = none ∨ m.session = none

section Traces

variable {P : Primitives T} {m m' : ClientSessionManager T} {now : ℕ} {session : WireSession}
  {evs : List ManagerEvent}

theorem Same.refl (m : ClientSessionManager T) : Same m m :=
  ⟨rfl, rfl, rfl, rfl, rfl, rfl, rfl, rfl, rfl, rfl, rfl, rfl, rfl, rfl⟩

theorem silent_nil : Silent [] := nofun

theorem silent_singleton {e : ManagerEvent} (h : e.notice = none) : Silent [e] := by
  intro e' hmem
  rwa [List.mem_singleton.mp hmem]

theorem teardown_silent (hget : m.session = some session) (now : ℕ) (sendClose : Bool) :
    Silent (m.teardown P now sendClose).1.toList := by
  obtain ⟨_, _, heq | ⟨_, _, -, heq⟩⟩ := teardown_cases (P := P) hget now sendClose <;> rw [heq]
  · exact silent_nil
  · exact silent_singleton rfl

theorem Deed.act (h : Deed P now m evs m') : Act P now m evs m' := by
  cases h with
  | quiet _ _ hevs hsame => exact .quiet evs m' hevs hsame
  | began _ sid kemSk xSk hs hevs hidle hfree hnew =>
    exact .began evs sid kemSk xSk hs hevs hidle hfree hnew
  | stepped _ hs hs' r hevs hget hstep => exact .stepped evs hs hs' r hevs hget hstep
  | timedOut hs hget => exact .timedOut hs hget
  | touched session st w ready rounds peer hget =>
    exact .touched session st w ready rounds peer hget
  | sent _ session msgType payload packet session' hevs hget henc =>
    exact .sent evs session msgType payload packet session' hevs hget henc
  | ended evs session reason sendClose hevs hget =>
    have hsilent : Silent evs := by
      rcases hevs with rfl | rfl
      · exact teardown_silent hget now sendClose
      · exact silent_nil
    exact .ended evs session reason sendClose hsilent hget
  | closedByUser session hget =>
    exact .closedByUser _ session (teardown_silent hget now true) hget

theorem freshSid_same (m : ClientSessionManager T) (draws : List (Except String SessionId)) :
    Same m (m.freshSid draws).2 := by
  rcases m.freshSid_cases draws with ⟨_, heq, -⟩ | ⟨_, -, -, heq⟩ <;> rw [heq] <;>
    constructor <;> rfl

theorem Trace.quiet {m'' : ClientSessionManager T} {evs' : List ManagerEvent}
    (hsame : Same m m') (htrace : Trace (Deed P now) m' evs' m'') :
    Trace (Deed P now) m evs' m'' :=
  (Trace.single (Deed.quiet [] m' silent_nil hsame)).trans htrace

theorem Trace.thenQuiet {m'' : ClientSessionManager T} (htrace : Trace (Deed P now) m evs m')
    (hsame : Same m' m'') : Trace (Deed P now) m evs m'' := by
  have hboth := htrace.trans (.single (Deed.quiet [] m'' silent_nil hsame))
  rwa [List.append_nil] at hboth

theorem Deed.rekeyed (hget : m.session = some session) :
    Deed P now m [] { m with session := some { session with state := .rekey } } :=
  .touched session .rekey session.cipher.replay m.ready m.roundsUnanswered m.peer hget

theorem buildProbe_trace {probe : Option WirePacket} (hbuild : m.buildProbe P = (probe, m'))
    (hevs : Silent evs) : Trace (Deed P now) m evs m' := by
  have hquiet : Deed P now m evs m := .quiet evs m hevs (.refl m)
  cases probed_of_eq hbuild with
  | sent session packet session' hget henc =>
    exact .single (.sent evs session _ _ packet session' hevs hget henc)
  | spent session hget =>
    have htrace := (Trace.single hquiet).trans (.single (.rekeyed hget))
    rwa [List.append_nil] at htrace
  | unsent => exact .single hquiet

/-- What a teardown does: the session is gone, and its first Close packet is out and will be
retransmitted unless it could not be encrypted or was not wanted. -/
structure TornDown (P : Primitives T) (now : ℕ) (m : ClientSessionManager T)
    (ending : WireSession) (m' : ClientSessionManager T) : Prop where
  cfg : m'.cfg = m.cfg
  limits : m'.limits = m.limits
  hs : m'.hs = m.hs
  session : m'.session = none
  ready : m'.ready = false
  peer : m'.peer = m.peer
  hsStarted : m'.hsStarted = m.hsStarted
  preparedAt : m'.preparedAt = none
  rearmRequested : m'.rearmRequested = true
  pendingClosed : m'.pendingClosed = m.pendingClosed
  begun : m'.begun = m.begun
  outcomes : m'.outcomes = m.outcomes
  closes : m'.pendingCloses = m.pendingCloses ∧ m'.encrypted = m.encrypted ∨
    ∃ packet closing, ending.encrypt P .close closeSlot = (.ok packet, closing) ∧
      m'.pendingCloses = m.pendingCloses ++
        [⟨closing, m.peer, closeRetransmitTotal - 1, now + closeRetransmitBase⟩] ∧
      m'.encrypted = m.encrypted ++ ending.sealing (.ok packet)

theorem teardown_tornDown (hget : m.session = some session) (now : ℕ) (sendClose : Bool) :
    TornDown P now m session (m.teardown P now sendClose).2 := by
  obtain ⟨_, _, heq | ⟨packet, closing, henc, heq⟩⟩ :=
    teardown_cases (P := P) hget now sendClose <;> rw [heq]
  · exact ⟨rfl, rfl, rfl, rfl, rfl, rfl, rfl, rfl, rfl, rfl, rfl, rfl, Or.inl ⟨rfl, rfl⟩⟩
  · exact ⟨rfl, rfl, rfl, rfl, rfl, rfl, rfl, rfl, rfl, rfl, rfl, rfl,
      Or.inr ⟨packet, closing, henc, rfl, rfl⟩⟩

theorem teardown_closes (hget : m.session = some session) (now : ℕ) (sendClose : Bool) :
    ((m.teardown P now sendClose).1 = none ∧
      (m.teardown P now sendClose).2.pendingCloses = m.pendingCloses) ∨
    ∃ packet closing, session.encrypt P .close closeSlot = (.ok packet, closing) ∧
      (m.teardown P now sendClose).1 = some (.sendPacket packet m.peer) ∧
      (m.teardown P now sendClose).2.pendingCloses = m.pendingCloses ++
        [⟨closing, m.peer, closeRetransmitTotal - 1, now + closeRetransmitBase⟩] := by
  obtain ⟨_, _, heq | ⟨packet, closing, henc, heq⟩⟩ :=
    teardown_cases (P := P) hget now sendClose <;> rw [heq]
  · exact Or.inl ⟨rfl, rfl⟩
  · exact Or.inr ⟨packet, closing, henc, rfl, rfl⟩

theorem closeIf_of_free (hfree : m.session = none) (passed : Bool) (reason : CloseReason) :
    m.closeIf P passed reason now = ([], m) := by
  unfold closeIf
  split_ifs
  · simp [closeNow, sessionId, hfree]
  · rfl

variable (m)

theorem closeIf_cases (passed : Bool) (reason : CloseReason) (now : ℕ) :
    (m.closeIf P passed reason now = ([], m) ∧ (m.session = none ∨ passed = false)) ∨
      ∃ session, m.session = some session ∧ passed = true ∧ m.closeIf P passed reason now =
        ((m.teardown P now true).1.toList ++ [.closed session.sessionId reason],
          (m.teardown P now true).2) := by
  cases passed with
  | false => exact Or.inl ⟨rfl, Or.inr rfl⟩
  | true =>
    cases hget : m.session with
    | none => exact Or.inl ⟨closeIf_of_free hget true reason, Or.inl rfl⟩
    | some session =>
      refine Or.inr ⟨session, rfl, rfl, ?_⟩
      simp [closeIf, closeNow, sessionId, hget]

theorem expireHandshake_cases (now : ℕ) :
    m.expireHandshake now = ([], m) ∨ ∃ hs, m.hs = some hs ∧
      m.expireHandshake now = ([.closed hs.sid .handshakeTimeout], m.dropHandshake) := by
  unfold expireHandshake
  split
  · exact Or.inl rfl
  · rename_i hs hget
    split_ifs
    · exact Or.inr ⟨hs, hget, rfl⟩
    · exact Or.inl rfl

/-- The manager just before a tick flushes its queues. -/
def beforeFlush (P : Primitives T) (m : ClientSessionManager T) (now : ℕ) :
    ClientSessionManager T :=
  let m₁ := (m.expireHandshake now).2
  let m₂ := (m₁.closeIf P (m₁.lifetimePassed now) .lifetimeCap now).2
  let m₃ := (m₂.closeIf P (m₂.confirmDeadlinePassed now) .notConfirmed now).2
  let m₄ := (m₃.closeIf P m₃.peerUnresponsive .peerUnresponsive now).2
  (m₄.expireQueued now).2

/-- A tick first does what its deadlines ask for and then flushes the queues: a relation that holds
of the end of a handshake and of a session holds up to the flush. -/
theorem beforeFlush_rule
    {R : ClientSessionManager T → List ManagerEvent → ClientSessionManager T → Prop}
    (hrefl : ∀ m, R m [] m)
    (htrans : ∀ {m₁ m₂ m₃ evs evs'}, R m₁ evs m₂ → R m₂ evs' m₃ → R m₁ (evs ++ evs') m₃)
    (hdrop : ∀ m hs, m.hs = some hs → R m [.closed hs.sid .handshakeTimeout] m.dropHandshake)
    (hend : ∀ m session reason, m.session = some session →
      R m ((m.teardown P now true).1.toList ++ [.closed session.sessionId reason])
        (m.teardown P now true).2)
    (hlost : ∀ m evs, evs = [] ∨ (∃ n, evs = [.outboundDropped n]) →
      R m evs (m.expireQueued now).2) (m : ClientSessionManager T) :
    ∃ evs, R m evs (m.beforeFlush P now) ∧
      (m.tick P now).1 = evs ++ ((m.beforeFlush P now).pendingClosed ++
        (retransmitCloses P (m.beforeFlush P now).pendingCloses now).1) := by
  have hexpire : R m (m.expireHandshake now).1 (m.expireHandshake now).2 := by
    rcases m.expireHandshake_cases now with heq | ⟨hs, hget, heq⟩ <;> rw [heq]
    · exact hrefl m
    · exact hdrop m hs hget
  have hclose : ∀ m passed reason,
      R m (m.closeIf P passed reason now).1 (m.closeIf P passed reason now).2 := by
    intro m passed reason
    rcases m.closeIf_cases (P := P) passed reason now with ⟨heq, -⟩ | ⟨session, hget, -, heq⟩ <;>
      rw [heq]
    · exact hrefl m
    · exact hend m session reason hget
  let m₁ := (m.expireHandshake now).2
  let m₂ := (m₁.closeIf P (m₁.lifetimePassed now) .lifetimeCap now).2
  let m₃ := (m₂.closeIf P (m₂.confirmDeadlinePassed now) .notConfirmed now).2
  let m₄ := (m₃.closeIf P m₃.peerUnresponsive .peerUnresponsive now).2
  have hreport := hlost m₄ (if 0 < (m₄.expireQueued now).1 then
    [ManagerEvent.outboundDropped (m₄.expireQueued now).2.droppedOutbound] else []) (by
      split_ifs
      · exact Or.inr ⟨_, rfl⟩
      · exact Or.inl rfl)
  have hchain := htrans hexpire <| htrans (hclose m₁ (m₁.lifetimePassed now) .lifetimeCap) <|
    htrans (hclose m₂ (m₂.confirmDeadlinePassed now) .notConfirmed) <|
    htrans (hclose m₃ m₃.peerUnresponsive .peerUnresponsive) hreport
  refine ⟨_, hchain, ?_⟩
  simp only [← List.append_assoc]
  rfl

theorem beforeFlush_trace (now : ℕ) :
    ∃ evs, Trace (Deed P now) m evs (m.beforeFlush P now) ∧
      (m.tick P now).1 = evs ++ ((m.beforeFlush P now).pendingClosed ++
        (retransmitCloses P (m.beforeFlush P now).pendingCloses now).1) := by
  refine beforeFlush_rule .refl .trans (fun m hs hget => .single (.timedOut hs hget))
    (fun m session reason hget => .single (.ended _ session reason true (Or.inl rfl) hget))
    (fun m evs hevs => ?_) m
  apply Trace.single
  apply Deed.quiet _ _ _ (by constructor <;> rfl)
  rcases hevs with rfl | ⟨n, rfl⟩
  · exact silent_nil
  · exact silent_singleton rfl

theorem tick_trace (now : ℕ) : Trace (Act P now) m (m.tick P now).1 (m.tick P now).2 := by
  obtain ⟨evs, htrace, hevs⟩ := beforeFlush_trace (P := P) m now
  rw [hevs]
  exact (htrace.mono Deed.act).trans (.single .flushed)

variable {m}

/-- The handshake machine of a manager comes from its constructor, and no session stands beside
it. -/
structure Held (P : Primitives T) (m : ClientSessionManager T) : Prop where
  oneLive : OneLive m
  machine : ∀ hs, m.hs = some hs → ClientHandshake.Ok P (fun _ _ => True) hs

theorem Plain.returned {r : Except (Fault ManagerError) ManagerEvent} (h : Plain m r) :
    returned r = [] := by
  cases h <;> rfl

theorem Adopts.trace (h : Adopts P now m evs m') : Trace (Act P now) m evs m' := by
  obtain ⟨_, _, _, _, _, _, _, _, _, _, hadopt, _, _, _, _, hprobe, _⟩ := h
  exact (Trace.single hadopt).trans (hprobe.mono Deed.act)

theorem Held.session_none (h : Held P m) {hs : ClientHandshake T} (hget : m.hs = some hs) :
    m.session = none := by
  rcases h.oneLive with hnone | hnone
  · rw [hget] at hnone
    cases hnone
  · exact hnone

/-- What a call does adopts a session, or it is a sequence of deeds. -/
theorem Does.deeds {c : Call T} {r : ClientStep T} (hdoes : Does P m c r) (h : Held P m) :
    c.machine = true ∧ Adopts P c.time m (returned r.1) r.2 ∨
      Trace (Deed P c.time) m (returned r.1) r.2 := by
  have hread : ∀ {pkt session}, Reads m pkt session → ∀ ready rounds peer,
      Deed P c.time m [] { m with
        session := some (session.decrypt P pkt).2, ready, roundsUnanswered := rounds, peer } ∧
      pkt.sid = (session.decrypt P pkt).2.sessionId := by
    intro pkt session hread ready rounds peer
    obtain ⟨st, w, hframe, -⟩ := session.decrypt_frame (P := P) pkt
    rw [hframe]
    exact ⟨.touched session st w ready rounds peer hread.get, hread.sid⟩
  cases hdoes with
  | adopted _ hs hs' packets outcome session probe m' hc hget hfree hstep _ hnew hbuild =>
    exact Or.inl ⟨hc, .mk hs hs' packets outcome session _ hget hfree hstep hnew
      (.adopted hs hs' packets outcome session hget hfree hstep hnew) rfl rfl rfl rfl
      (buildProbe_trace hbuild (silent_singleton (e := .send _ _) rfl)) (congrArg Prod.snd hbuild).symm⟩
  | idle _ r hr =>
    rw [hr.returned]
    exact Or.inr (.refl m)
  | drew _ _ _ _ _ _ r hr =>
    rw [hr.returned]
    exact Or.inr (.single (.quiet [] _ silent_nil (by constructor <;> rfl)))
  | began _ _ xSk _ usedOrder usedSids sid sk hs _ _ hidle hfree hnew =>
    have hsame : Same m { m with usedOrder, usedSids } := by constructor <;> rfl
    exact Or.inr (Trace.quiet hsame
      (.single (.began [_] sid sk xSk hs (silent_singleton rfl) hidle hfree hnew)))
  | stepped _ hs hs' r r' _ hget hstep _ hr =>
    rcases hr with hr | ⟨packets, -, rfl⟩
    · rw [hr.returned]
      exact Or.inr (.single (.stepped [] hs hs' r silent_nil hget hstep))
    · exact Or.inr (.single (.stepped [_] hs hs' r (silent_singleton rfl) hget hstep))
  | timedOut _ hs hget hstep =>
    exact Or.inr ((Trace.single (Deed.stepped [] hs hs _ silent_nil hget (Or.inr hstep))).trans
      (.single (.timedOut hs rfl)))
  | doubled _ hs _ _ _ hget hbusy => simp [h.session_none hget] at hbusy
  | gaveUp | queued => exact Or.inr (.single (.quiet [] _ silent_nil (by constructor <;> rfl)))
  | resent _ probe m' _ hbuild =>
    have hsame : Same m { m with m3Attempts := m.m3Attempts + 1 } := by constructor <;> rfl
    exact Or.inr (Trace.quiet hsame (buildProbe_trace hbuild (silent_singleton (e := .send _ _) rfl)))
  | sent _ session msgType payload packet session' _ hget henc =>
    exact Or.inr (.single
      (.sent _ session msgType payload packet session' (silent_singleton rfl) hget henc))
  | spent _ session _ _ _ hget =>
    exact Or.inr ((Trace.single (Deed.rekeyed hget)).trans
      (.single (.ended [] { session with state := .rekey } _ true (Or.inr rfl) rfl)))
  | refused =>
    exact Or.inr (.single (.quiet [_] _ (silent_singleton rfl) (by constructor <;> rfl)))
  | unread pkt _ _ _ session r hr hplain =>
    rw [hplain.returned]
    exact Or.inr (.single (hread hr m.ready m.roundsUnanswered m.peer).1)
  | read pkt src _ _ session inner ev hr _ _ hev =>
    have hopen := (hread hr true 0 src).1
    refine Or.inr ((Trace.single hopen).trans (.single (.quiet (returned (.ok ev)) _ ?_ (.refl _))))
    rcases hev with rfl | rfl
    · exact silent_nil
    · exact silent_singleton rfl
  | hungUp pkt src _ _ session _ hr =>
    obtain ⟨hopen, hsid⟩ := hread hr true 0 src
    rw [hsid]
    exact Or.inr ((Trace.single hopen).trans (.single (.ended [] _ _ _ (Or.inr rfl) rfl)))
  | died pkt _ _ _ session hr =>
    obtain ⟨hopen, hsid⟩ := hread hr m.ready m.roundsUnanswered m.peer
    rw [hsid]
    exact Or.inr ((Trace.single hopen).trans (.single (.ended [] _ _ _ (Or.inr rfl) rfl)))
  | closed now session hget =>
    have hclosed : Deed P now m _ _ := .closedByUser session hget
    have hevs : returned (.ok ((m.teardown P now true).1.getD .none) :
        Except (Fault ManagerError) ManagerEvent) = (m.teardown P now true).1.toList := by
      rcases teardown_closes (P := P) hget now true with ⟨hev, -⟩ | ⟨_, _, -, hev, -⟩ <;>
        rw [hev] <;> rfl
    rw [(teardown_tornDown hget now true).pendingClosed, hevs]
    exact Or.inr (.single hclosed)

theorem returned_eventOf (r : Except (Fault ManagerError) ManagerEvent) :
    (some (eventOf r)).toList.flatMap (·.toList) = returned r := by
  cases r <;> simp [eventOf, returned, ManagerEvent.toList]

theorem takeSlot_trace (h : Held P m) (t now : ℕ) :
    Trace (Deed P now) m ((m.takeSlot P t now).1.toList.flatMap (·.toList))
      (m.takeSlot P t now).2 := by
  have hexpire : Same m (m.expireQueued t).2 := by constructor <;> rfl
  have hprobing : Same m ((m.expireQueued t).2.probing t) := by constructor <;> rfl
  have hslot := takeSlot_slot (P := P) m t now
  generalize m.takeSlot P t now = res at hslot ⊢
  cases hslot with
  | shut => exact .refl m
  | flushed _ q rest r hqueue _ hdoes =>
    have hsame : Same m { (m.expireQueued t).2 with outQueue := rest } := by constructor <;> rfl
    rw [returned_eventOf]
    rcases hdoes.deeds ⟨h.oneLive, h.machine⟩ with ⟨hrun, -⟩ | htrace
    · cases hrun
    · exact Trace.thenQuiet (Trace.quiet hsame htrace) (by constructor <;> rfl)
  | drained => exact .single (.quiet [] _ silent_nil hexpire)
  | unsent _ _ _ m' _ hbuild => exact Trace.quiet hprobing (buildProbe_trace hbuild silent_nil)
  | probed _ _ _ packet m' _ hbuild =>
    exact Trace.thenQuiet (Trace.quiet hprobing (buildProbe_trace hbuild (silent_singleton rfl)))
      (by constructor <;> rfl)

/-- Every call but a tick adopts a session, or it is a sequence of deeds. -/
theorem call_deeds (h : Held P m) {c : Call T} (htick : ∀ now, c ≠ .tick now) :
    Adopts P c.time m (call P m c).1 (call P m c).2 ∨
      Trace (Deed P c.time) m (call P m c).1 (call P m c).2 := by
  rcases call_does P m c with ⟨t, clock, rfl⟩ | ⟨now, rfl⟩ | ⟨r, hdoes, hcall, -⟩
  · exact Or.inr (takeSlot_trace h t clock)
  · exact absurd rfl (htick now)
  · rw [hcall]
    exact (hdoes.deeds h).imp_left And.right

/-- Every call of a manager is a sequence of acts at the time of the call. -/
theorem call_trace (h : Held P m) (c : Call T) :
    Trace (Act P c.time) m (call P m c).1 (call P m c).2 := by
  by_cases htick : ∃ now, c = .tick now
  · obtain ⟨now, rfl⟩ := htick
    exact tick_trace m now
  · rcases call_deeds h (fun now hc => htick ⟨now, hc⟩) with hadopts | hdeeds
    · exact hadopts.trace
    · exact hdeeds.mono Deed.act

end Traces

end PqTunnel.ClientSessionManager
