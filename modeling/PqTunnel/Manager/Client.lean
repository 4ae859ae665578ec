import PqTunnel.Handshake.Client
import PqTunnel.Manager.Server

/-! The client session manager: one handshake or one session, and re-establishment. The time at
which a drop was last logged is left out. -/
namespace PqTunnel

structure QueuedPayload where
  payload : Bytes
  queuedAt : ℕ

def outboundQueueCap : ℕ := 64

def outboundQueueTtl : ℕ := fromSecs 2

def sidHistoryCap : ℕ := 64

def retiredSidCap : ℕ := 1024

/-- The last three fields are ghosts: the record of every packet the manager has encrypted, the
number of handshakes it has begun, and the outcomes its machines gave, each with the number of its
handshake. -/
structure ClientSessionManager (T : CryptoTypes) where
  cfg : ClientConfig T
  limits : SessionLimits
  hs : Option (ClientHandshake T)
  session : Option WireSession
  ready : Bool
  peer : SocketAddr
  hsStarted : Option ℕ
  preparedAt : Option ℕ
  m3Frags : List WirePacket
  m3Attempts : ℕ
  m3Exhausted : Bool
  nextProbeAt : Option ℕ
  roundsUnanswered : ℕ
  lastSlotAt : Option ℕ
  outQueue : List QueuedPayload
  droppedOutbound : ℕ
  usedSids : List SessionId
  usedOrder : List SessionId
  retiredSids : List SessionId
  retiredOrder : List SessionId
  rearmRequested : Bool
  pendingClosed : List ManagerEvent
  pendingCloses : List PendingClose
  encrypted : List Sealing
  begun : ℕ
  outcomes : List (ℕ × HandshakeOutcome T)

inductive ClientManagerState where
  | idle
  | handshaking
  | unconfirmed
  | established
  deriving DecidableEq

/-- Forget the oldest ids while more than `cap` are remembered. -/
def forgetOldest (cap : ℕ) : List SessionId → List SessionId → List SessionId × List SessionId
  | [], sids => ([], sids)
  | old :: order, sids =>
    if cap < order.length + 1 then forgetOldest cap order (sids.filter (· ≠ old))
    else (old :: order, sids)

def saturatingAddU64 (a b : ℕ) : ℕ := min (a + b) (2 ^ 64 - 1)

def saturatingAddU32 (a b : ℕ) : ℕ := min (a + b) (2 ^ 32 - 1)

abbrev ClientStep (T : CryptoTypes) :=
  Except (Fault ManagerError) ManagerEvent × ClientSessionManager T

namespace ClientSessionManager
variable {T : CryptoTypes} (P : Primitives T)

def new (cfg : ClientConfig T) (limits : SessionLimits) :
    Except ManagerError (ClientSessionManager T) :=
  if cfg.version ≠ protocolVersion then
    .error (.invalidConfig ("version " ++ toString cfg.version ++ " unsupported (expected " ++
      toString protocolVersion ++ ")"))
  else
    match limits.validate with
    | .error e => .error e
    | .ok () =>
      .ok { cfg, limits, hs := none, session := none, ready := false, peer := cfg.serverAddr
            hsStarted := none, preparedAt := none, m3Frags := [], m3Attempts := 0
            m3Exhausted := false, nextProbeAt := none, roundsUnanswered := 0, lastSlotAt := none
            outQueue := [], droppedOutbound := 0, usedSids := [], usedOrder := []
            retiredSids := [], retiredOrder := [], rearmRequested := false, pendingClosed := []
            pendingCloses := [], encrypted := [], begun := 0, outcomes := [] }

def sessionId (m : ClientSessionManager T) : Option SessionId := m.session.map (·.sessionId)

def needsRearm (m : ClientSessionManager T) : Bool :=
  m.rearmRequested && m.hs.isNone && m.session.isNone

def state (m : ClientSessionManager T) : ClientManagerState :=
  if m.session.isSome then if m.ready then .established else .unconfirmed
  else if m.hs.isSome then .handshaking
  else .idle

def freshSid (m : ClientSessionManager T) :
    List (Except String SessionId) → Except ManagerError SessionId × ClientSessionManager T
  | [] => (.error (.invalidState "could not draw a fresh session identifier"), m)
  | .error e :: _ =>
    (.error (.handshake (.crypto (.invalidInput ("getrandom: " ++ e)))), m)
  | .ok sid :: draws =>
    if sid ∈ m.usedSids then freshSid m draws
    else
      let (usedOrder, usedSids) :=
        forgetOldest sidHistoryCap (m.usedOrder ++ [sid]) (sid :: m.usedSids)
      (.ok sid, { m with usedOrder, usedSids })

/-- `ClientHandshake::new` with the key pairs it draws. -/
def newHandshake (m : ClientSessionManager T) (sid : SessionId)
    (kemSk : Except CryptoError T.KemSk) (xSk : T.XSk) :
    Except (Fault HandshakeV2Error) (ClientHandshake T) :=
  match validateVersion m.cfg.version with
  | .error e => .error (.err e)
  | .ok () =>
    match kemSk with
    | .error e => .error (.err (.crypto e))
    | .ok kemSk => ClientHandshake.new P m.cfg sid kemSk xSk

def beginHandshake (m : ClientSessionManager T)
    (draws : List.Vector (Except String SessionId) 8) (kemSk : Except CryptoError T.KemSk)
    (xSk : T.XSk) (now : ℕ) : ClientStep T :=
  if m.hs.isSome || m.session.isSome then
    (.error (.err (.invalidState "handshake already running or session established")), m)
  else
    match m.freshSid draws.toList with
    | (.error e, m) => (.error (.err e), m)
    | (.ok sid, m) =>
      match m.newHandshake P sid kemSk xSk with
      | .error e => (liftHandshake (.error e), m)
      | .ok hs =>
        (.ok (.send hs.m1Frags m.cfg.serverAddr),
          { m with
            hs := some hs
            hsStarted := some now
            ready := false
            peer := m.cfg.serverAddr
            rearmRequested := false
            begun := m.begun + 1 })

def stored (m : ClientSessionManager T) (session : WireSession)
    (r : Except SessionError WirePacket × WireSession) : ClientSessionManager T :=
  { m with session := some r.2, encrypted := m.encrypted ++ session.sealing r.1 }

def buildProbe (m : ClientSessionManager T) : Option WirePacket × ClientSessionManager T :=
  match m.session with
  | none => (none, m)
  | some session =>
    let r := session.encrypt P .handshake (Control.slot Control.probe)
    (r.1.toOption, m.stored session r)

def onM3Sent (m : ClientSessionManager T) (packets : List WirePacket)
    (outcome : HandshakeOutcome T) (now : ℕ) : ClientStep T :=
  if m.session.isSome then
    (.ok .none, { m with hs := none, hsStarted := none, rearmRequested := true })
  else if outcome.sessionId ∈ m.retiredSids then (.ok .none, m)
  else
    match WireSession.established P .client outcome with
    | .error e => (.error (.err (.session e)), m)
    | .ok session =>
      let m := { m with
        session := some session
        hs := none
        hsStarted := none
        ready := false
        preparedAt := some now
        m3Frags := packets
        m3Attempts := 0
        m3Exhausted := false
        roundsUnanswered := 0
        nextProbeAt := some (now + m.limits.livenessProbeInterval) }
      let (probe, m) := m.buildProbe P
      (.ok (.send (packets ++ probe.toList) m.cfg.serverAddr), m)

def retireSid (m : ClientSessionManager T) (sid : SessionId) : ClientSessionManager T :=
  if sid ∈ m.retiredSids then m
  else
    let (retiredOrder, retiredSids) :=
      forgetOldest retiredSidCap (m.retiredOrder ++ [sid]) (sid :: m.retiredSids)
    { m with retiredOrder, retiredSids }

/-- Take the session down. With `sendClose` its first Close packet is returned and the
retransmissions are scheduled. -/
def teardown (m : ClientSessionManager T) (now : ℕ) (sendClose : Bool) :
    Option ManagerEvent × ClientSessionManager T :=
  match m.session with
  | none => (none, m)
  | some session =>
    let m := { m with
      session := none
      ready := false
      preparedAt := none
      m3Frags := []
      m3Attempts := 0
      m3Exhausted := true
      nextProbeAt := none
      roundsUnanswered := 0
      rearmRequested := true }
    let m := m.retireSid session.sessionId
    if sendClose = false then (none, m)
    else
      match session.encrypt P .close closeSlot with
      | (.error _, _) => (none, m)
      | (.ok packet, closing) =>
        (some (.sendPacket packet m.peer),
          { m with
            pendingCloses := m.pendingCloses ++
              [{ session := closing, peer := m.peer, attemptsLeft := closeRetransmitTotal - 1
                 nextAt := now + closeRetransmitBase }]
            encrypted := m.encrypted ++ session.sealing (.ok packet) })

/-- The classes of a decryption on the client, which has no failure gate. -/
def dataResult : Except SessionError InnerPlaintext → Except SessionError DataResult
  | .ok inner => .ok (.payload inner)
  | .error .rekeyRequired => .ok (.sessionDead .nonceExhausted)
  | .error (.codec .rejected) => .ok .rejected
  | .error (.codec .decryptionFailed) => .ok .failed
  | .error (.codec (.nonceExhausted _)) => .ok (.sessionDead .nonceExhausted)
  | .error (.codec _) => .ok .failed
  | .error e => .error e

def onDataPacket (m : ClientSessionManager T) (pkt : WirePacket) (src : SocketAddr) (now : ℕ) :
    ClientStep T :=
  match m.session with
  | none => (.ok .none, m)
  | some session =>
    let sid := pkt.sid
    if sid ≠ session.sessionId then (.ok .none, m)
    else
      let (opened, session) := session.decrypt P pkt
      let m := { m with session := some session }
      match dataResult opened with
      | .error e => (.error (.err (.session e)), m)
      | .ok (.payload inner) =>
        let m := { m with ready := true, roundsUnanswered := 0, peer := src }
        match inner.msgType with
        | .data => (.ok (.appData sid inner), m)
        | .tunData => (.ok (.appData sid inner), m)
        | .close => (.ok (.closed sid .peerClosed), (m.teardown P now false).2)
        | .handshake => (.ok .none, m)
        | .cover => (.ok .none, m)
      | .ok (.sessionDead reason) => (.ok (.closed sid reason), (m.teardown P now true).2)
      | .ok _ => (.ok .none, m)

def withMachine (m : ClientSessionManager T) (hs : ClientHandshake T)
    (r : Except (Fault HandshakeV2Error) (ClientEvent T)) : ClientSessionManager T :=
  let given := match r with
    | .ok (.m3Sent _ outcome) => [(m.begun, outcome)]
    | _ => []
  { m with hs := some hs, outcomes := m.outcomes ++ given }

def handleDatagram (m : ClientSessionManager T) (pkt : WirePacket) (src : SocketAddr)
    (rand : T.KemRand) (now : ℕ) : ClientStep T :=
  if isHandshakeFragment pkt then
    match m.hs with
    | none => (.ok .none, m)
    | some hs =>
      let (r, hs) := hs.handleDatagram P pkt rand
      let m := m.withMachine hs r
      match r with
      | .ok (.emit packets) => (.ok (.send packets m.cfg.serverAddr), m)
      | .ok (.m3Sent packets outcome) => m.onM3Sent P packets outcome now
      | .ok .none => (.ok .none, m)
      | .error e => (liftHandshake (.error e), m)
  else m.onDataPacket P pkt src now

def dropHandshake (m : ClientSessionManager T) : ClientSessionManager T :=
  { m with hs := none, hsStarted := none, rearmRequested := true }

def onTimer (m : ClientSessionManager T) (now : ℕ) : ClientStep T :=
  match m.hs with
  | some machine =>
    let (r, hs) := machine.onTimer
    let m := m.withMachine hs r
    match r with
    | .ok (.emit packets) => (.ok (.send packets m.cfg.serverAddr), m)
    | .ok (.m3Sent packets outcome) => m.onM3Sent P packets outcome now
    | .ok .none => (.ok .none, m)
    | .error (.err .timeout) => (.ok (.closed machine.sid .handshakeTimeout), m.dropHandshake)
    | .error e => (liftHandshake (.error e), m)
  | none =>
    if m.session.isNone || m.ready || m.m3Exhausted then (.ok .none, m)
    else if m.cfg.m3MaxAttempts ≤ m.m3Attempts then (.ok .none, { m with m3Exhausted := true })
    else
      let (probe, m) := ({ m with m3Attempts := m.m3Attempts + 1 } :
        ClientSessionManager T).buildProbe P
      (.ok (.send (m.m3Frags ++ probe.toList) m.cfg.serverAddr), m)

/-- What follows an encryption on the session: send the packet, or close the session once its
counter is exhausted. -/
def afterEncrypt (m : ClientSessionManager T) (session : WireSession) (now : ℕ)
    (r : Except SessionError WirePacket × WireSession) : ClientStep T :=
  let peer := m.peer
  let m := m.stored session r
  match r.1 with
  | .ok packet => (.ok (.sendPacket packet peer), m)
  | .error .rekeyRequired =>
    (.ok (.closed session.sessionId .nonceExhausted), (m.teardown P now true).2)
  | .error e => (.error (.err (.session e)), m)

def sendEncrypted (m : ClientSessionManager T) (msgType : MessageType) (payload : Bytes)
    (now : ℕ) : ClientStep T :=
  match m.session with
  | none => (.error (.err .noSession), m)
  | some session => m.afterEncrypt P session now (session.encrypt P msgType payload)

def coverPacket (m : ClientSessionManager T) (fill : Except String Payload) (now : ℕ) :
    ClientStep T :=
  match m.session with
  | none => (.error (.err .noSession), m)
  | some session => m.afterEncrypt P session now (session.cover P fill)

/-- Drop the buffered payloads that are too old, and count them. -/
def expireQueued (m : ClientSessionManager T) (now : ℕ) : ℕ × ClientSessionManager T :=
  let kept := m.outQueue.filter fun q => decide (now - q.queuedAt < outboundQueueTtl)
  let dropped := m.outQueue.length - kept.length
  (dropped,
    { m with outQueue := kept, droppedOutbound := saturatingAddU64 m.droppedOutbound dropped })

/-- Encrypt the oldest buffered payload. A local failure loses the payload. -/
def takeQueuedPayload (m : ClientSessionManager T) (now clock : ℕ) :
    Option ManagerEvent × ClientSessionManager T :=
  let (_, m) := m.expireQueued now
  match m.outQueue with
  | [] => (none, m)
  | queued :: rest =>
    let padded := padSlot (queued.payload.take payloadLen)
    match ({ m with outQueue := rest } : ClientSessionManager T).sendEncrypted P .data padded
      clock with
    | (.ok ev, m) => (some ev, m)
    | (.error _, m) => (some .none, m)

def takeProbe (m : ClientSessionManager T) (now : ℕ) :
    Option ManagerEvent × ClientSessionManager T :=
  match m.nextProbeAt with
  | none => (none, m)
  | some due =>
    if now < due then (none, m)
    else
      let m := { m with nextProbeAt := some (now + m.limits.livenessProbeInterval) }
      match m.buildProbe P with
      | (none, m) => (none, m)
      | (some packet, m) =>
        let m := if m.ready then
          { m with roundsUnanswered := saturatingAddU32 m.roundsUnanswered 1 } else m
        (some (.sendPacket packet m.peer), m)

/-- How long until the next session slot is due, if one is. -/
def nextSlotDelay (m : ClientSessionManager T) (now : ℕ) : Option ℕ :=
  if m.session.isNone then none
  else
    let pace := match m.lastSlotAt with
      | some last => last + m.limits.slotInterval
      | none => now
    let queued := if m.outQueue.isEmpty then none else some pace
    let next := match m.nextProbeAt with
      | none => queued
      | some probe => some (queued.elim (max probe pace) fun n => min n (max probe pace))
    next.map (· - now)

/-- The payload of the next session slot: a buffered one first, then a probe that is due. -/
def takeSlot (m : ClientSessionManager T) (now clock : ℕ) :
    Option ManagerEvent × ClientSessionManager T :=
  if m.session.isNone then (none, m)
  else if m.lastSlotAt.any fun last => decide (now - last < m.limits.slotInterval) then (none, m)
  else
    match m.takeQueuedPayload P now clock with
    | (some ev, m) => (some ev, { m with lastSlotAt := some now })
    | (none, m) =>
      match m.takeProbe P now with
      | (some ev, m) => (some ev, { m with lastSlotAt := some now })
      | (none, m) => (none, m)

def confirmDeadlinePassed (m : ClientSessionManager T) (now : ℕ) : Bool :=
  if m.ready then false
  else
    match m.preparedAt with
    | some preparedAt => m.limits.confirmTimeout.any fun t => decide (t ≤ now - preparedAt)
    | none => false

def closeNow (m : ClientSessionManager T) (reason : CloseReason) (now : ℕ) :
    List ManagerEvent × ClientSessionManager T :=
  match m.sessionId with
  | none => ([], m)
  | some sid =>
    let (ev, m) := m.teardown P now true
    (ev.toList ++ [.closed sid reason], m)

def closeIf (m : ClientSessionManager T) (passed : Bool) (reason : CloseReason) (now : ℕ) :
    List ManagerEvent × ClientSessionManager T :=
  if passed then m.closeNow P reason now else ([], m)

def handshakeDeadlinePassed (m : ClientSessionManager T) (now : ℕ) : Bool :=
  m.limits.handshakeTimeout.any fun t => m.hsStarted.any fun s => decide (t ≤ now - s)

def expireHandshake (m : ClientSessionManager T) (now : ℕ) :
    List ManagerEvent × ClientSessionManager T :=
  match m.hs with
  | none => ([], m)
  | some hs =>
    if m.handshakeDeadlinePassed now then
      ([.closed hs.sid .handshakeTimeout], m.dropHandshake)
    else ([], m)

def lifetimePassed (m : ClientSessionManager T) (now : ℕ) : Bool :=
  m.preparedAt.any fun preparedAt =>
    m.limits.lifetimeCap.any fun t => decide (t ≤ now - preparedAt)

def peerUnresponsive (m : ClientSessionManager T) : Bool :=
  m.ready && decide (m.limits.livenessRounds ≤ m.roundsUnanswered)

def tick (m : ClientSessionManager T) (now : ℕ) : List ManagerEvent × ClientSessionManager T :=
  let (timedOut, m) := m.expireHandshake now
  let (capped, m) := m.closeIf P (m.lifetimePassed now) .lifetimeCap now
  let (unconfirmed, m) := m.closeIf P (m.confirmDeadlinePassed now) .notConfirmed now
  let (silent, m) := m.closeIf P m.peerUnresponsive .peerUnresponsive now
  let (dropped, m) := m.expireQueued now
  let lost := if 0 < dropped then [ManagerEvent.outboundDropped m.droppedOutbound] else []
  let (resent, closes, log) := retransmitCloses P m.pendingCloses now
  (timedOut ++ capped ++ unconfirmed ++ silent ++ lost ++ m.pendingClosed ++ resent,
    { m with
      pendingClosed := []
      pendingCloses := closes
      encrypted := m.encrypted ++ log })

/-- Buffer a payload for a session that does not exist yet; a full queue drops it. -/
def enqueue (m : ClientSessionManager T) (payload : Bytes) (now : ℕ) : ClientStep T :=
  if outboundQueueCap ≤ m.outQueue.length then
    let dropped := saturatingAddU64 m.droppedOutbound 1
    (.ok (.outboundDropped dropped), { m with droppedOutbound := dropped })
  else (.ok .none, { m with outQueue := m.outQueue ++ [⟨payload, now⟩] })

def appOutbound (m : ClientSessionManager T) (payload : Bytes) (now : ℕ) : ClientStep T :=
  if payloadLen < payload.length then (.error (wrongPayloadLen payload), m)
  else if m.session.isNone then m.enqueue (padSlot payload) now
  else m.sendEncrypted P .data (padSlot payload) now

def tunOutbound (m : ClientSessionManager T) (payload : Bytes) (now : ℕ) : ClientStep T :=
  if payload.length ≠ payloadLen then (.error (wrongPayloadLen payload), m)
  else if m.session.isNone then (.ok .none, m)
  else m.sendEncrypted P .tunData payload now

def close (m : ClientSessionManager T) (now : ℕ) : ClientStep T :=
  match m.sessionId with
  | none => (.ok .none, m)
  | some sid =>
    let (ev, m) := m.teardown P now true
    (.ok (ev.getD .none),
      { m with pendingClosed := m.pendingClosed ++ [.closed sid .userClosed] })

end ClientSessionManager
end PqTunnel
