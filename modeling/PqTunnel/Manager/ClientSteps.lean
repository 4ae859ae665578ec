import PqTunnel.Handshake.ClientSteps
import PqTunnel.Manager.Client
import PqTunnel.Manager.ServerActs

/-! The calls of the client manager, and all that one of them can do. -/
namespace PqTunnel.ClientSessionManager
open ServerSessionManager (returned)
open WireSession (Enc enc_encrypt enc_cover)

variable {T : CryptoTypes}

inductive Call (T : CryptoTypes) where
  | beginHandshake (draws : List.Vector (Except String SessionId) 8)
      (kemSk : Except CryptoError T.KemSk) (xSk : T.XSk) (now : ℕ)
  | datagram (pkt : WirePacket) (src : SocketAddr) (rand : T.KemRand) (now : ℕ)
  | onTimer (now : ℕ)
  | takeSlot (now clock : ℕ)
  | appOutbound (payload : Bytes) (now : ℕ)
  | tunOutbound (payload : Bytes) (now : ℕ)
  | coverPacket (fill : Except String Payload) (now : ℕ)
  | close (now : ℕ)
  | tick (now : ℕ)

def Call.time : Call T → ℕ
  | .beginHandshake _ _ _ now => now
  | .datagram _ _ _ now => now
  | .onTimer now => now
  | .takeSlot _ clock => clock
  | .appOutbound _ now => now
  | .tunOutbound _ now => now
  | .coverPacket _ now => now
  | .close now => now
  | .tick now => now

def call (P : Primitives T) (m : ClientSessionManager T) :
    Call T → List ManagerEvent × ClientSessionManager T
  | .beginHandshake draws kemSk xSk now =>
    let r := m.beginHandshake P draws kemSk xSk now
    (returned r.1, r.2)
  | .datagram pkt src rand now =>
    let r := m.handleDatagram P pkt src rand now
    (returned r.1, r.2)
  | .onTimer now =>
    let r := m.onTimer P now
    (returned r.1, r.2)
  | .takeSlot now clock =>
    let r := m.takeSlot P now clock
    (r.1.toList.flatMap (·.toList), r.2)
  | .appOutbound payload now =>
    let r := m.appOutbound P payload now
    (returned r.1, r.2)
  | .tunOutbound payload now =>
    let r := m.tunOutbound P payload now
    (returned r.1, r.2)
  | .coverPacket fill now =>
    let r := m.coverPacket P fill now
    (returned r.1, r.2)
  | .close now =>
    let r := m.close P now
    (returned r.1, r.2)
  | .tick now => m.tick P now

def run (P : Primitives T) (m : ClientSessionManager T) (calls : List (Call T)) :
    ClientSessionManager T :=
  calls.foldl (fun m c => (call P m c).2) m

theorem run_append (P : Primitives T) (m : ClientSessionManager T) (calls calls' : List (Call T)) :
    run P m (calls ++ calls') = run P (run P m calls) calls' := List.foldl_append ..

theorem run_snoc (P : Primitives T) (m : ClientSessionManager T) (calls : List (Call T))
    (c : Call T) : run P m (calls ++ [c]) = (call P (run P m calls) c).2 := run_append ..

def MachineStep (P : Primitives T) (hs : ClientHandshake T)
    (r : Except (Fault HandshakeV2Error) (ClientEvent T)) (hs' : ClientHandshake T) : Prop :=
  (∃ pkt rand, hs.handleDatagram P pkt rand = (r, hs')) ∨ hs.onTimer = (r, hs')

def errorOf {ε α : Type} : Except ε α → Option ε
  | .error e => some e
  | .ok _ => none

def fault (P : Primitives T) (m : ClientSessionManager T) : Call T → Option (Fault ManagerError)
  | .beginHandshake draws kemSk xSk now => errorOf (m.beginHandshake P draws kemSk xSk now).1
  | .datagram pkt src rand now => errorOf (m.handleDatagram P pkt src rand now).1
  | .onTimer now => errorOf (m.onTimer P now).1
  | .takeSlot _ _ => none
  | .appOutbound payload now => errorOf (m.appOutbound P payload now).1
  | .tunOutbound payload now => errorOf (m.tunOutbound P payload now).1
  | .coverPacket fill now => errorOf (m.coverPacket P fill now).1
  | .close now => errorOf (m.close P now).1
  | .tick _ => none

/-- The retransmission timer sends the M3 again, and a probe with it. -/
def resendsM3 (m : ClientSessionManager T) : Bool :=
  m.hs.isNone && m.session.isSome && !m.ready && !m.m3Exhausted &&
    decide (m.m3Attempts < m.cfg.m3MaxAttempts)

/-- The call may run the handshake machine. -/
def Call.machine : Call T → Bool
  | .datagram pkt _ _ _ => isHandshakeFragment pkt
  | .onTimer _ => true
  | _ => false

/-- The call may encrypt a payload or a cover. -/
def Call.sends : Call T → Bool
  | .takeSlot _ _ => true
  | .appOutbound _ _ => true
  | .tunOutbound _ _ => true
  | .coverPacket _ _ => true
  | _ => false

/-- Nothing to report: no event, or an error that does not blame the state of an established
session. -/
inductive Plain (m : ClientSessionManager T) : Except (Fault ManagerError) ManagerEvent → Prop where
  | none : Plain m (.ok .none)
  | failed (e : Fault ManagerError)
      (h : (∀ s, m.session = some s → s.state = .established) →
        ∀ a b, e ≠ .err (.session (.wrongState a b))) : Plain m (.error e)

/-- What the builder of probes does. -/
inductive Probed (P : Primitives T) (m : ClientSessionManager T) :
    Option WirePacket × ClientSessionManager T → Prop where
  | sent (session packet session') (hget : m.session = some session)
      (henc : session.encrypt P .handshake (Control.slot Control.probe) = (.ok packet, session')) :
      Probed P m (some packet, m.stored session (.ok packet, session'))
  | spent (session) (hget : m.session = some session)
      (henc : session.encrypt P .handshake (Control.slot Control.probe) =
        (.error .rekeyRequired, { session with state := .rekey })) :
      Probed P m (none, { m with session := some { session with state := .rekey } })
  | unsent : Probed P m (none, m)

/-- The manager with a new session in place of the handshake that gave the outcome. -/
def adopting (m : ClientSessionManager T) (packets : List WirePacket)
    (outcome : HandshakeOutcome T) (session : WireSession) (now : ℕ) : ClientSessionManager T :=
  { m with
    session := some session
    hs := none
    hsStarted := none
    ready := false
    preparedAt := some now
    m3Frags := packets
    m3Attempts := 0
    m3Exhausted := false
    roundsUnanswered := 0
    nextProbeAt := some (now + m.limits.livenessProbeInterval)
    outcomes := m.outcomes ++ [(m.begun, outcome)] }

/-- The manager that has read a packet of its peer. -/
def heard (m : ClientSessionManager T) (session : WireSession) (src : SocketAddr) :
    ClientSessionManager T :=
  { m with session := some session, ready := true, roundsUnanswered := 0, peer := src }

/-- The packet is one of the data path and goes to the session. -/
structure Reads (m : ClientSessionManager T) (pkt : WirePacket) (session : WireSession) : Prop where
  data : isHandshakeFragment pkt = false
  get : m.session = some session
  sid : pkt.sid = session.sessionId

/-- All that a call can do, but for the slots and the ticks. -/
inductive Does (P : Primitives T) (m : ClientSessionManager T) : Call T → ClientStep T → Prop where
  | idle (c r) (hr : Plain m r) : Does P m c (r, m)
  | drew (draws kemSk xSk now usedOrder usedSids r) (hr : Plain m r) :
      Does P m (.beginHandshake draws kemSk xSk now) (r, { m with usedOrder, usedSids })
  | began (draws kemSk xSk now usedOrder usedSids sid sk hs) (hdraw : .ok sid ∈ draws.toList)
      (hunused : sid ∉ m.usedSids) (hidle : m.hs = none) (hfree : m.session = none)
      (hnew : ClientHandshake.new P m.cfg sid sk xSk = .ok hs) :
      Does P m (.beginHandshake draws kemSk xSk now)
        (.ok (.send hs.m1Frags m.cfg.serverAddr),
          { m with
            usedOrder
            usedSids
            hs := some hs
            hsStarted := some now
            ready := false
            peer := m.cfg.serverAddr
            rearmRequested := false
            begun := m.begun + 1 })
  | stepped (c hs hs' r r') (hc : c.machine = true) (hget : m.hs = some hs)
      (hstep : MachineStep P hs r hs')
      (hkept : ∀ packets outcome, r = .ok (.m3Sent packets outcome) →
        outcome.sessionId ∈ m.retiredSids ∨
          ∃ e, WireSession.established P .client outcome = .error e)
      (hr : Plain m r' ∨ ∃ packets, r = .ok (.emit packets) ∧
        r' = .ok (.send packets m.cfg.serverAddr)) : Does P m c (r', m.withMachine hs' r)
  | timedOut (now hs) (hget : m.hs = some hs) (hstep : hs.onTimer = (.error (.err .timeout), hs)) :
      Does P m (.onTimer now) (.ok (.closed hs.sid .handshakeTimeout),
        (m.withMachine hs (.error (.err .timeout))).dropHandshake)
  | doubled (c hs hs' r) (hc : c.machine = true) (hget : m.hs = some hs)
      (hbusy : m.session.isSome) : Does P m c (.ok .none, (m.withMachine hs' r).dropHandshake)
  | adopted (c hs hs' packets outcome session probe m') (hc : c.machine = true)
      (hget : m.hs = some hs) (hfree : m.session = none)
      (hstep : MachineStep P hs (.ok (.m3Sent packets outcome)) hs')
      (hunretired : outcome.sessionId ∉ m.retiredSids)
      (hnew : WireSession.established P .client outcome = .ok session)
      (hbuild : (m.adopting packets outcome session c.time).buildProbe P = (probe, m')) :
      Does P m c (.ok (.send (packets ++ probe.toList) m'.cfg.serverAddr), m')
  | gaveUp (now) : Does P m (.onTimer now) (.ok .none, { m with m3Exhausted := true })
  | resent (now probe m') (hdue : m.resendsM3 = true)
      (hbuild : buildProbe P { m with m3Attempts := m.m3Attempts + 1 } = (probe, m')) :
      Does P m (.onTimer now) (.ok (.send (m'.m3Frags ++ probe.toList) m'.cfg.serverAddr), m')
  | sent (c session msgType payload packet session') (hc : c.sends = true)
      (hget : m.session = some session)
      (henc : session.encrypt P msgType payload = (.ok packet, session')) :
      Does P m c (.ok (.sendPacket packet m.peer), m.stored session (.ok packet, session'))
  | spent (c session msgType payload) (hc : c.sends = true) (hget : m.session = some session)
      (henc : session.encrypt P msgType payload =
        (.error .rekeyRequired, { session with state := .rekey })) :
      Does P m c (.ok (.closed session.sessionId .nonceExhausted),
        (teardown P { m with session := some { session with state := .rekey } } c.time true).2)
  | queued (payload now outQueue) (hfree : m.session = none) :
      Does P m (.appOutbound payload now) (.ok .none, { m with outQueue })
  | refused (payload now droppedOutbound) (hfree : m.session = none) :
      Does P m (.appOutbound payload now)
        (.ok (.outboundDropped droppedOutbound), { m with droppedOutbound })
  | unread (pkt src rand now session r) (hread : Reads m pkt session) (hr : Plain m r)
      (hfail : ∀ inner, (session.decrypt P pkt).1 ≠ .ok inner)
      (hlive : ∀ reason, dataResult (session.decrypt P pkt).1 ≠ .ok (.sessionDead reason)) :
      Does P m (.datagram pkt src rand now)
        (r, { m with session := some (session.decrypt P pkt).2 })
  | read (pkt src rand now session inner ev) (hread : Reads m pkt session)
      (hopen : (session.decrypt P pkt).1 = .ok inner) (hmore : inner.msgType ≠ .close)
      (hev : ev = .none ∨ ev = .appData pkt.sid inner) :
      Does P m (.datagram pkt src rand now) (.ok ev, m.heard (session.decrypt P pkt).2 src)
  | hungUp (pkt src rand now session inner) (hread : Reads m pkt session)
      (hopen : (session.decrypt P pkt).1 = .ok inner) (hclose : inner.msgType = .close) :
      Does P m (.datagram pkt src rand now) (.ok (.closed pkt.sid .peerClosed),
        ((m.heard (session.decrypt P pkt).2 src).teardown P now false).2)
  | died (pkt src rand now session) (hread : Reads m pkt session)
      (hdead : dataResult (session.decrypt P pkt).1 = .ok (.sessionDead .nonceExhausted)) :
      Does P m (.datagram pkt src rand now) (.ok (.closed pkt.sid .nonceExhausted),
        (teardown P { m with session := some (session.decrypt P pkt).2 } now true).2)
  | closed (now session) (hget : m.session = some session) :
      Does P m (.close now) (.ok ((m.teardown P now true).1.getD .none),
        { (m.teardown P now true).2 with
          pendingClosed := (m.teardown P now true).2.pendingClosed ++
            [.closed session.sessionId .userClosed] })

section Does

variable {P : Primitives T} {m m' : ClientSessionManager T} {session : WireSession}

theorem stored_error (m : ClientSessionManager T) (session session' : WireSession)
    (e : SessionError) :
    m.stored session (.error e, session') = { m with session := some session' } := by
  rw [stored, WireSession.sealing, List.append_nil]

theorem with_session (hget : m.session = some session) :
    { m with session := some session } = m := by rw [← hget]

theorem buildProbe_probed (m : ClientSessionManager T) : Probed P m (m.buildProbe P) := by
  unfold buildProbe
  cases hget : m.session with
  | none => exact .unsent
  | some session =>
    have henc := enc_encrypt (P := P) session .handshake (Control.slot Control.probe)
    dsimp only
    generalize hr : session.encrypt P .handshake (Control.slot Control.probe) = r at henc ⊢
    cases henc with
    | sent _ _ packet session' => exact .sent session packet session' hget hr
    | spent =>
      rw [stored_error]
      exact .spent session hget hr
    | failed e =>
      rw [stored_error, with_session hget]
      exact .unsent

theorem probed_of_eq {probe : Option WirePacket} (h : m.buildProbe P = (probe, m')) :
    Probed P m (probe, m') := h ▸ buildProbe_probed m

theorem does_afterEncrypt {c : Call T} (hc : c.sends = true) (hget : m.session = some session)
    {r : Except SessionError WirePacket × WireSession} (h : Enc P session r) :
    Does P m c (m.afterEncrypt P session c.time r) := by
  cases h with
  | sent msgType payload packet s' henc => exact .sent c session msgType payload packet s' hc hget henc
  | spent msgType payload henc =>
    rw [afterEncrypt, stored_error]
    exact .spent c session msgType payload hc hget henc
  | failed e hne hstate =>
    have hback : m.afterEncrypt P session c.time (.error e, session) =
        (.error (.err (.session e)), m) := by
      rw [afterEncrypt, stored_error, with_session hget]
      cases e with
      | rekeyRequired => exact absurd rfl hne
      | _ => rfl
    rw [hback]
    refine .idle c _ (.failed _ fun hsteady a b he => hstate (hsteady session hget) a b ?_)
    simpa using he

variable (m)

theorem does_sendEncrypted {c : Call T} (hc : c.sends = true) (msgType : MessageType)
    (payload : Bytes) : Does P m c (m.sendEncrypted P msgType payload c.time) := by
  unfold sendEncrypted
  cases hget : m.session with
  | none => exact .idle c _ (.failed _ (by simp))
  | some session => exact does_afterEncrypt hc hget (enc_encrypt ..)

theorem does_coverPacket (fill : Except String Payload) (now : ℕ) :
    Does P m (.coverPacket fill now) (m.coverPacket P fill now) := by
  unfold coverPacket
  cases hget : m.session with
  | none => exact .idle _ _ (.failed _ (by simp))
  | some session => exact does_afterEncrypt (c := .coverPacket fill now) rfl hget (enc_cover ..)

theorem does_tunOutbound (payload : Bytes) (now : ℕ) :
    Does P m (.tunOutbound payload now) (m.tunOutbound P payload now) := by
  unfold tunOutbound
  split_ifs
  · exact .idle _ _ (.failed _ (by simp [wrongPayloadLen]))
  · exact .idle _ _ .none
  · exact does_sendEncrypted m (c := .tunOutbound payload now) rfl .tunData payload

theorem does_appOutbound (payload : Bytes) (now : ℕ) :
    Does P m (.appOutbound payload now) (m.appOutbound P payload now) := by
  unfold appOutbound
  split_ifs with hlen hfree
  · exact .idle _ _ (.failed _ (by simp [wrongPayloadLen]))
  · unfold enqueue
    split_ifs
    · exact .refused payload now _ (Option.isNone_iff_eq_none.mp hfree)
    · exact .queued payload now _ (Option.isNone_iff_eq_none.mp hfree)
  · exact does_sendEncrypted m (c := .appOutbound payload now) rfl .data _

theorem does_close (now : ℕ) : Does P m (.close now) (m.close P now) := by
  unfold close sessionId
  cases hget : m.session with
  | none => exact .idle _ _ .none
  | some session => exact .closed now session hget

theorem dataResult_dead {opened : Except SessionError InnerPlaintext} {reason : CloseReason}
    (h : dataResult opened = .ok (.sessionDead reason)) : reason = .nonceExhausted := by
  unfold dataResult at h
  split at h <;> cases h <;> rfl

theorem dataResult_payload {r : Except SessionError InnerPlaintext} {inner : InnerPlaintext}
    (h : dataResult r = .ok (.payload inner)) : r = .ok inner := by
  unfold dataResult at h
  split at h <;> cases h
  rfl

theorem dataResult_error {e e' : SessionError} (h : dataResult (.error e) = .error e') :
    e' = e := by
  unfold dataResult at h
  split at h <;> cases h
  rename_i heq
  exact (Except.error.inj heq).symm

theorem does_onDataPacket {pkt : WirePacket} (src : SocketAddr) (rand : T.KemRand) (now : ℕ)
    (hdata : isHandshakeFragment pkt = false) :
    Does P m (.datagram pkt src rand now) (m.onDataPacket P pkt src now) := by
  unfold onDataPacket
  cases hget : m.session with
  | none => exact .idle _ _ .none
  | some session =>
    dsimp only
    split_ifs with hne
    · exact .idle _ _ .none
    · have hread : Reads m pkt session := ⟨hdata, hget, not_not.mp hne⟩
      cases hopen : (session.decrypt P pkt).1 with
      | ok inner =>
        dsimp only [dataResult]
        split <;> rename_i htype
        · exact .read pkt src rand now session inner _ hread hopen (by simp [htype]) (Or.inr rfl)
        · exact .read pkt src rand now session inner _ hread hopen (by simp [htype]) (Or.inr rfl)
        · exact .hungUp pkt src rand now session inner hread hopen htype
        · exact .read pkt src rand now session inner _ hread hopen (by simp [htype]) (Or.inl rfl)
        · exact .read pkt src rand now session inner _ hread hopen (by simp [htype]) (Or.inl rfl)
      | error e =>
        have hfail : ∀ inner, (session.decrypt P pkt).1 ≠ .ok inner := by simp [hopen]
        split <;> rename_i hres
        · rename_i e'
          refine .unread pkt src rand now session _ hread (.failed _ fun hsteady a b he => ?_) hfail
            (by simp [hopen, hres])
          obtain rfl := dataResult_error hres
          rcases session.decrypt_established (P := P) (hsteady session hget) pkt with
            ⟨inner, heq, -⟩ | heq | ⟨c, heq, -⟩
          · exact hfail inner heq
          · rw [hopen] at heq
            cases heq
            cases hres
          · rw [hopen] at heq
            cases heq
            simp at he
        · exact absurd (hopen.trans (dataResult_payload hres)) (hfail _)
        · obtain rfl := dataResult_dead hres
          exact .died pkt src rand now session hread (hopen ▸ hres)
        · rename_i hdead
          refine .unread pkt src rand now session _ hread .none hfail fun reason h => ?_
          rw [hopen] at h
          exact hdead reason (Except.ok.inj (hres.symm.trans h))

variable {m}

theorem plain_liftHandshake (e : Fault HandshakeV2Error) :
    Plain m (liftHandshake (.error e) : Except (Fault ManagerError) ManagerEvent) := by
  cases e <;> exact .failed _ (by simp)

theorem does_onM3Sent {c : Call T} {hs hs' : ClientHandshake T} {packets : List WirePacket}
    {outcome : HandshakeOutcome T} (hc : c.machine = true) (hget : m.hs = some hs)
    (hstep : MachineStep P hs (.ok (.m3Sent packets outcome)) hs') :
    Does P m c ((m.withMachine hs' (.ok (.m3Sent packets outcome))).onM3Sent P packets outcome
      c.time) := by
  unfold onM3Sent
  have hkept : (outcome.sessionId ∈ m.retiredSids ∨
      ∃ e, WireSession.established P .client outcome = .error e) →
      ∀ packets' outcome', Except.ok (ClientEvent.m3Sent packets outcome) =
        (.ok (.m3Sent packets' outcome') : Except (Fault HandshakeV2Error) (ClientEvent T)) →
      outcome'.sessionId ∈ m.retiredSids ∨
        ∃ e, WireSession.established P .client outcome' = .error e := by
    rintro h _ _ ⟨⟩
    exact h
  split_ifs with hbusy hretired
  · exact .doubled c hs hs' _ hc hget hbusy
  · exact .stepped c hs hs' _ _ hc hget hstep (hkept (Or.inl hretired)) (Or.inl .none)
  · split
    · rename_i e hnew
      refine .stepped c hs hs' _ _ hc hget hstep (hkept (Or.inr ⟨e, hnew⟩))
        (Or.inl (.failed _ fun _ a b he => ?_))
      unfold WireSession.established at hnew
      split at hnew <;> cases hnew
      simp at he
    · rename_i session hnew
      have hfree : m.session = none := by simpa [withMachine] using hbusy
      exact .adopted c hs hs' packets outcome session _ _ hc hget hfree hstep hretired
        hnew rfl

variable (m)

theorem does_handleDatagram (pkt : WirePacket) (src : SocketAddr) (rand : T.KemRand) (now : ℕ) :
    Does P m (.datagram pkt src rand now) (m.handleDatagram P pkt src rand now) := by
  unfold handleDatagram
  split_ifs with hfrag
  · cases hget : m.hs with
    | none => exact .idle _ _ .none
    | some hs =>
      dsimp only
      generalize hres : hs.handleDatagram P pkt rand = r
      obtain ⟨r, hs'⟩ := r
      have hstep : MachineStep P hs r hs' := Or.inl ⟨pkt, rand, hres⟩
      cases r with
      | error e => exact .stepped _ hs hs' _ _ hfrag hget hstep (by simp) (Or.inl (plain_liftHandshake e))
      | ok ev =>
        cases ev with
        | emit packets => exact .stepped _ hs hs' _ _ hfrag hget hstep (by simp) (Or.inr ⟨_, rfl, rfl⟩)
        | m3Sent packets outcome =>
          exact does_onM3Sent (c := .datagram pkt src rand now) hfrag hget hstep
        | none => exact .stepped _ hs hs' _ _ hfrag hget hstep (by simp) (Or.inl .none)
  · exact does_onDataPacket m src rand now (Bool.eq_false_iff.mpr hfrag)

theorem does_onTimer (now : ℕ) : Does P m (.onTimer now) (m.onTimer P now) := by
  unfold onTimer
  split
  · rename_i hs hget
    dsimp only
    generalize hres : hs.onTimer = r
    obtain ⟨r, hs'⟩ := r
    have hstep : MachineStep P hs r hs' := Or.inr hres
    cases r with
    | ok ev =>
      cases ev with
      | emit packets => exact .stepped _ hs hs' _ _ rfl hget hstep (by simp) (Or.inr ⟨_, rfl, rfl⟩)
      | m3Sent packets outcome => exact does_onM3Sent (c := .onTimer now) rfl hget hstep
      | none => exact .stepped _ hs hs' _ _ rfl hget hstep (by simp) (Or.inl .none)
    | error e =>
      dsimp only
      split
      · rename_i heq
        cases heq
      · rename_i heq
        cases heq
      · rename_i heq
        cases heq
      · rename_i heq
        cases heq
        have hsame : hs' = hs := by
          rcases hs.onTimer_cases with heq | ⟨_, _, _, heq⟩ | ⟨_, _, _, _, heq⟩ <;>
            rw [hres] at heq <;> cases heq
          rfl
        subst hsame
        exact .timedOut now hs' hget hres
      · exact .stepped _ hs hs' _ _ rfl hget hstep (by simp) (Or.inl (plain_liftHandshake _))
  · rename_i hget
    split_ifs with hquiet hspent
    · exact .idle _ _ .none
    · exact .gaveUp now
    · refine .resent now _ _ ?_ rfl
      simp only [Bool.or_eq_true, not_or, Bool.not_eq_true] at hquiet
      simp [resendsM3, hget, ← Option.not_isNone, hquiet.1.1, hquiet.1.2, hquiet.2,
        not_le.mp hspent]

theorem retireSid_eq (sid : SessionId) :
    ∃ retiredOrder retiredSids, m.retireSid sid = { m with retiredOrder, retiredSids } := by
  unfold retireSid
  split_ifs
  · exact ⟨_, _, rfl⟩
  · exact ⟨_, _, rfl⟩

variable {m}

/-- The manager that has let its session go. -/
def ended (m : ClientSessionManager T) (retiredOrder retiredSids : List SessionId) :
    ClientSessionManager T :=
  { m with
    session := none
    ready := false
    preparedAt := none
    m3Frags := []
    m3Attempts := 0
    m3Exhausted := true
    nextProbeAt := none
    roundsUnanswered := 0
    rearmRequested := true
    retiredOrder
    retiredSids }

theorem teardown_cases (hget : m.session = some session) (now : ℕ) (sendClose : Bool) :
    ∃ order sids, m.teardown P now sendClose = (none, m.ended order sids) ∨
      ∃ packet closing, session.encrypt P .close closeSlot = (.ok packet, closing) ∧
        m.teardown P now sendClose = (some (.sendPacket packet m.peer),
          { m.ended order sids with
            pendingCloses := m.pendingCloses ++
              [⟨closing, m.peer, closeRetransmitTotal - 1, now + closeRetransmitBase⟩]
            encrypted := m.encrypted ++ session.sealing (.ok packet) }) := by
  unfold teardown
  rw [hget]
  dsimp only
  obtain ⟨order, sids, heq⟩ := retireSid_eq (m.ended m.retiredOrder m.retiredSids) session.sessionId
  rw [ended] at heq
  rw [heq]
  refine ⟨order, sids, ?_⟩
  split_ifs
  · exact Or.inl rfl
  · split
    · exact Or.inl rfl
    · rename_i packet closing henc
      exact Or.inr ⟨packet, closing, henc, rfl⟩

/-- The manager that remembers a drawn id. -/
def remembering (m : ClientSessionManager T) (sid : SessionId) : ClientSessionManager T :=
  { m with
    usedOrder := (forgetOldest sidHistoryCap (m.usedOrder ++ [sid]) (sid :: m.usedSids)).1
    usedSids := (forgetOldest sidHistoryCap (m.usedOrder ++ [sid]) (sid :: m.usedSids)).2 }

theorem freshSid_cases (m : ClientSessionManager T) (draws : List (Except String SessionId)) :
    (∃ e, m.freshSid draws = (.error e, m) ∧ ((∃ e', e = .handshake e') ∨
      e = .invalidState "could not draw a fresh session identifier")) ∨
    ∃ sid, .ok sid ∈ draws ∧ sid ∉ m.usedSids ∧ m.freshSid draws = (.ok sid, m.remembering sid) := by
  induction draws with
  | nil => exact Or.inl ⟨_, rfl, Or.inr rfl⟩
  | cons draw draws ih =>
    cases draw with
    | error e => exact Or.inl ⟨_, rfl, Or.inl ⟨_, rfl⟩⟩
    | ok sid =>
      rw [freshSid]
      split_ifs with hused
      · rcases ih with ih | ⟨sid, hmem, hrest⟩
        · exact Or.inl ih
        · exact Or.inr ⟨sid, List.mem_cons_of_mem _ hmem, hrest⟩
      · exact Or.inr ⟨sid, List.mem_cons_self, hused, rfl⟩

theorem does_beginHandshake (m : ClientSessionManager T)
    (draws : List.Vector (Except String SessionId) 8) (kemSk : Except CryptoError T.KemSk)
    (xSk : T.XSk) (now : ℕ) :
    Does P m (.beginHandshake draws kemSk xSk now) (m.beginHandshake P draws kemSk xSk now) := by
  unfold beginHandshake
  split_ifs with hbusy
  · exact .idle _ _ (.failed _ (by simp))
  · obtain ⟨hidle, hfree⟩ : m.hs = none ∧ m.session = none := by simpa using hbusy
    rcases m.freshSid_cases draws.toList with ⟨e, heq, hwhy⟩ | ⟨sid, hmem, hunused, heq⟩ <;> rw [heq]
    · exact .idle _ _ (.failed _ fun _ a b he => by rcases hwhy with ⟨_, rfl⟩ | rfl <;> cases he)
    · dsimp only
      split
      · exact .drew draws kemSk xSk now _ _ _ (plain_liftHandshake _)
      · rename_i hs hnew
        unfold newHandshake at hnew
        split at hnew
        · cases hnew
        · split at hnew
          · cases hnew
          · exact .began draws _ xSk now _ _ sid _ hs hmem hunused hidle hfree hnew

/-- A call takes a slot, is a tick, or does one of the things above. -/
theorem call_does (P : Primitives T) (m : ClientSessionManager T) (c : Call T) :
    (∃ t clock, c = .takeSlot t clock) ∨ (∃ now, c = .tick now) ∨
      ∃ r, Does P m c r ∧ call P m c = (returned r.1, r.2) ∧ fault P m c = errorOf r.1 := by
  cases c with
  | beginHandshake draws kemSk xSk now =>
    exact Or.inr (Or.inr ⟨_, does_beginHandshake m draws kemSk xSk now, rfl, rfl⟩)
  | datagram pkt src rand now =>
    exact Or.inr (Or.inr ⟨_, does_handleDatagram m pkt src rand now, rfl, rfl⟩)
  | onTimer now => exact Or.inr (Or.inr ⟨_, does_onTimer m now, rfl, rfl⟩)
  | takeSlot t clock => exact Or.inl ⟨t, clock, rfl⟩
  | appOutbound payload now => exact Or.inr (Or.inr ⟨_, does_appOutbound m payload now, rfl, rfl⟩)
  | tunOutbound payload now => exact Or.inr (Or.inr ⟨_, does_tunOutbound m payload now, rfl, rfl⟩)
  | coverPacket fill now => exact Or.inr (Or.inr ⟨_, does_coverPacket m fill now, rfl, rfl⟩)
  | close now => exact Or.inr (Or.inr ⟨_, does_close m now, rfl, rfl⟩)
  | tick now => exact Or.inr (Or.inl ⟨now, rfl⟩)

end Does

section Slots

variable {P : Primitives T} {m m' : ClientSessionManager T}

/-- There is a session and the last slot is far enough back. -/
def SlotOpen (m : ClientSessionManager T) (now : ℕ) : Prop :=
  m.session.isSome ∧ m.lastSlotAt.all fun last => decide (m.limits.slotInterval ≤ now - last)

instance (m : ClientSessionManager T) (now : ℕ) : Decidable (m.SlotOpen now) :=
  inferInstanceAs (Decidable (_ ∧ _))

/-- The slot at `t` goes to a liveness probe: it is open, no payload waits, and a probe is due. -/
def probeSlot (m : ClientSessionManager T) (t : ℕ) : Bool :=
  m.session.isSome && !(m.lastSlotAt.any fun last => decide (t - last < m.limits.slotInterval)) &&
    (m.expireQueued t).2.outQueue.isEmpty && m.nextProbeAt.any fun due => decide (due ≤ t)

def eventOf {ε : Type} : Except ε ManagerEvent → ManagerEvent
  | .ok ev => ev
  | .error _ => .none

/-- The manager that waits for the next round of probes. -/
def probing (m : ClientSessionManager T) (t : ℕ) : ClientSessionManager T :=
  { m with nextProbeAt := some (t + m.limits.livenessProbeInterval) }

/-- The manager that has sent a probe; a round counts only on a confirmed session. -/
def counted (m : ClientSessionManager T) : ClientSessionManager T :=
  { m with
    roundsUnanswered :=
      if m.ready then saturatingAddU32 m.roundsUnanswered 1 else m.roundsUnanswered }

/-- All that a slot can do. -/
inductive Slot (P : Primitives T) (m : ClientSessionManager T) (t clock : ℕ) :
    Option ManagerEvent × ClientSessionManager T → Prop where
  | shut (hshut : ¬ m.SlotOpen t) : Slot P m t clock (none, m)
  | flushed (hopen : m.SlotOpen t) (q rest r)
      (hqueue : (m.expireQueued t).2.outQueue = q :: rest)
      (hsend : sendEncrypted P { (m.expireQueued t).2 with outQueue := rest } .data
        (padSlot (q.payload.take payloadLen)) clock = r)
      (hdoes : Does P { (m.expireQueued t).2 with outQueue := rest } (.takeSlot t clock) r)
      (htake : m.takeQueuedPayload P t clock = (some (eventOf r.1), r.2)) :
      Slot P m t clock (some (eventOf r.1), { r.2 with lastSlotAt := some t })
  | drained (hopen : m.SlotOpen t) (hempty : (m.expireQueued t).2.outQueue = [])
      (htake : m.takeQueuedPayload P t clock = (none, (m.expireQueued t).2))
      (hprobe : (m.expireQueued t).2.takeProbe P t = (none, (m.expireQueued t).2))
      (hearly : m.nextProbeAt.all fun due => decide (t < due)) :
      Slot P m t clock (none, (m.expireQueued t).2)
  | unsent (hopen : m.SlotOpen t) (hempty : (m.expireQueued t).2.outQueue = [])
      (hslot : m.probeSlot t = true) (m')
      (htake : m.takeQueuedPayload P t clock = (none, (m.expireQueued t).2))
      (hbuild : ((m.expireQueued t).2.probing t).buildProbe P = (none, m'))
      (hprobe : (m.expireQueued t).2.takeProbe P t = (none, m')) : Slot P m t clock (none, m')
  | probed (hopen : m.SlotOpen t) (hempty : (m.expireQueued t).2.outQueue = [])
      (hslot : m.probeSlot t = true) (packet m')
      (htake : m.takeQueuedPayload P t clock = (none, (m.expireQueued t).2))
      (hbuild : ((m.expireQueued t).2.probing t).buildProbe P = (some packet, m'))
      (hprobe : (m.expireQueued t).2.takeProbe P t =
        (some (.sendPacket packet m'.peer), m'.counted)) :
      Slot P m t clock (some (.sendPacket packet m'.peer), { m'.counted with lastSlotAt := some t })

theorem slotOpen_iff (m : ClientSessionManager T) (t : ℕ) :
    m.SlotOpen t ↔ m.session.isSome = true ∧
      (m.lastSlotAt.any fun last => decide (t - last < m.limits.slotInterval)) = false := by
  rw [SlotOpen]
  cases m.lastSlotAt with
  | none | some last => simp

variable {t : ℕ}

theorem takeSlot_flush {clock : ℕ} {ev : ManagerEvent} (h : m.SlotOpen t)
    (htake : m.takeQueuedPayload P t clock = (some ev, m')) :
    m.takeSlot P t clock = (some ev, { m' with lastSlotAt := some t }) := by
  obtain ⟨hsome, hpace⟩ := (m.slotOpen_iff t).mp h
  simp only [takeSlot, ← Option.not_isSome, hsome, Bool.not_true, hpace, Bool.false_eq_true,
    if_false, htake]

theorem takeSlot_probe {m'' : ClientSessionManager T} {clock : ℕ} {ev : Option ManagerEvent}
    (h : m.SlotOpen t) (htake : m.takeQueuedPayload P t clock = (none, m'))
    (hprobe : m'.takeProbe P t = (ev, m'')) :
    m.takeSlot P t clock = (ev, if ev.isSome then { m'' with lastSlotAt := some t } else m'') := by
  obtain ⟨hsome, hpace⟩ := (m.slotOpen_iff t).mp h
  simp only [takeSlot, ← Option.not_isSome, hsome, Bool.not_true, hpace, Bool.false_eq_true,
    if_false, htake, hprobe]
  cases ev with
  | none | some ev => simp

theorem takeQueuedPayload_empty (h : (m.expireQueued t).2.outQueue = []) (clock : ℕ) :
    m.takeQueuedPayload P t clock = (none, (m.expireQueued t).2) := by
  simp only [takeQueuedPayload, h]

theorem takeQueuedPayload_flush {q : QueuedPayload} {rest : List QueuedPayload}
    (h : (m.expireQueued t).2.outQueue = q :: rest) (clock : ℕ) {r : ClientStep T}
    (hr : sendEncrypted P { (m.expireQueued t).2 with outQueue := rest } .data
      (padSlot (q.payload.take payloadLen)) clock = r) :
    m.takeQueuedPayload P t clock = (some (eventOf r.1), r.2) := by
  simp only [takeQueuedPayload, h, hr]
  obtain ⟨r, m'⟩ := r
  cases r <;> rfl

theorem takeProbe_early (h : m.nextProbeAt.all fun due => decide (t < due)) :
    m.takeProbe P t = (none, m) := by
  unfold takeProbe
  split
  · rfl
  · rename_i due hdue
    rw [hdue, Option.all_some, decide_eq_true_iff] at h
    rw [if_pos h]

theorem takeProbe_builds (h : (m.nextProbeAt.any fun due => decide (due ≤ t)) = true)
    {packet : Option WirePacket} (hbuild : (m.probing t).buildProbe P = (packet, m')) :
    m.takeProbe P t = (packet.map (.sendPacket · m'.peer),
      if packet.isSome then m'.counted else m') := by
  obtain ⟨due, hdue, hle⟩ := (Option.any_eq_true ..).mp h
  rw [probing] at hbuild
  simp only [takeProbe, hdue, if_neg (not_lt.mpr (of_decide_eq_true hle)), hbuild]
  cases packet with
  | none => simp
  | some packet =>
    simp only [Option.map_some, Option.isSome_some, if_true, counted]
    split_ifs <;> rfl

theorem takeSlot_slot (m : ClientSessionManager T) (t clock : ℕ) :
    Slot P m t clock (m.takeSlot P t clock) := by
  by_cases hopen : m.SlotOpen t
  · obtain ⟨hsome, hpace⟩ := (m.slotOpen_iff t).mp hopen
    cases hqueue : (m.expireQueued t).2.outQueue with
    | cons q rest =>
      have htake := takeQueuedPayload_flush (P := P) hqueue clock rfl
      rw [takeSlot_flush hopen htake]
      exact .flushed hopen q rest _ hqueue rfl
        (does_sendEncrypted _ (c := .takeSlot t clock) rfl .data _) htake
    | nil =>
      have htake := takeQueuedPayload_empty (P := P) hqueue clock
      cases hdue : m.nextProbeAt.any fun due => decide (due ≤ t) with
      | false =>
        have hearly : m.nextProbeAt.all fun due => decide (t < due) := by
          cases hnext : m.nextProbeAt with
          | none => rfl
          | some due => simpa [hnext] using hdue
        have hprobe := takeProbe_early (P := P) (m := (m.expireQueued t).2) hearly
        rw [takeSlot_probe hopen htake hprobe]
        exact .drained hopen hqueue htake hprobe hearly
      | true =>
        have hslot : m.probeSlot t = true := by
          simp only [probeSlot, hsome, hpace, hqueue, hdue, List.isEmpty_nil, Bool.not_false,
            Bool.and_self]
        obtain ⟨⟨packet, m'⟩, hbuild⟩ : ∃ r, ((m.expireQueued t).2.probing t).buildProbe P = r :=
          ⟨_, rfl⟩
        have hprobe := takeProbe_builds (m := (m.expireQueued t).2) hdue hbuild
        rw [takeSlot_probe hopen htake hprobe]
        cases packet with
        | none => exact .unsent hopen hqueue hslot m' htake hbuild hprobe
        | some packet => exact .probed hopen hqueue hslot packet m' htake hbuild hprobe
  · have hshut : Slot P m t clock (none, m) := .shut hopen
    unfold takeSlot
    split_ifs with hnone hpace
    · exact hshut
    · exact hshut
    · refine absurd ((m.slotOpen_iff t).mpr ⟨?_, ?_⟩) hopen
      · simpa [Option.isSome_iff_ne_none] using hnone
      · simpa using hpace

end Slots

end PqTunnel.ClientSessionManager
