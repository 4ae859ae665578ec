import Mathlib.Data.List.MinMax
import PqTunnel.Manager.Types

/-! The server session manager: one handshake machine and the table of established sessions. -/
namespace PqTunnel
open ByteString

structure SessionEntry where
  session : WireSession
  peer : SocketAddr
  lastActivity : ℕ
  establishedAt : ℕ

/-- The last field is a ghost: the record of every packet the manager has encrypted. -/
structure ServerSessionManager (T : CryptoTypes) where
  limits : SessionLimits
  hs : ServerHandshake T
  sessions : Table SessionId SessionEntry
  failGate : FailGate
  pendingClosed : List ManagerEvent
  pendingCloses : List PendingClose
  encrypted : List Sealing

inductive DataResult where
  | payload (inner : InnerPlaintext)
  | control (inner : InnerPlaintext)
  | peerClose
  | sessionDead (reason : CloseReason)
  | failed
  | rejected

abbrev ManagerStep (T : CryptoTypes) :=
  Except (Fault ManagerError) ManagerEvent × ServerSessionManager T

def liftHandshake {α : Type} : Except (Fault HandshakeV2Error) α → Except (Fault ManagerError) α
  | .ok a => .ok a
  | .error (.err e) => .error (.err (.handshake e))
  | .error (.panic msg) => .error (.panic msg)

def padSlot (payload : Bytes) : Bytes := payload ++ zeros (payloadLen - payload.length)

theorem length_padSlot {payload : Bytes} (h : payload.length ≤ payloadLen) :
    (padSlot payload).length = payloadLen := by
  rw [padSlot, List.length_append, length_zeros]
  omega

theorem length_padSlot_nil : (padSlot []).length = payloadLen := length_padSlot (Nat.zero_le _)

def wrongPayloadLen (payload : Bytes) : Fault ManagerError :=
  .err (.session (.codec (.wrongLength "payload" payloadLen payload.length)))

namespace ServerSessionManager
variable {T : CryptoTypes} (P : Primitives T)

def new (cfg : ServerConfig T) (limits : SessionLimits) (rateNow gateNow : ℕ) :
    Except ManagerError (ServerSessionManager T) :=
  match cfg.validate with
  | .error (.invalidConfig msg) => .error (.invalidConfig msg)
  | .error e => .error (.handshake e)
  | .ok () =>
    match limits.validate with
    | .error e => .error e
    | .ok () =>
      .ok { limits, hs := ServerHandshake.new cfg rateNow, sessions := Table.empty
            failGate := FailGate.new gateNow, pendingClosed := [], pendingCloses := []
            encrypted := [] }

def putSession (m : ServerSessionManager T) (sid : SessionId) (entry : SessionEntry) :
    ServerSessionManager T := { m with sessions := m.sessions.put sid entry }

def removeSession (m : ServerSessionManager T) (sid : SessionId) : ServerSessionManager T :=
  { m with sessions := m.sessions.remove sid }

/-- Drop a session whose Closed event waits for the next tick. -/
def queueClosed (m : ServerSessionManager T) (sid : SessionId) (reason : CloseReason) :
    ServerSessionManager T :=
  { m.removeSession sid with pendingClosed := m.pendingClosed ++ [.closed sid reason] }

def setRoster (m : ServerSessionManager T) (roster : List T.SigPk) :
    Except ManagerError Unit × ServerSessionManager T :=
  match m.hs.setRoster roster with
  | (.ok (), hs) => (.ok (), { m with hs })
  | (.error e, hs) => (.error (.handshake e), { m with hs })

/-- The least recently active session, the first one in iteration order. -/
def stalest (m : ServerSessionManager T) (order : List SessionId) : Option SessionId :=
  ((m.sessions.iter order).argmin fun e => e.2.lastActivity).map (·.1)

/-- Make room for one session at capacity. -/
def evictAtCapacity (m : ServerSessionManager T) (order : List SessionId) :
    ServerSessionManager T :=
  if m.limits.maxSessions ≤ m.sessions.size then
    match m.stalest order with
    | some stale => m.queueClosed stale .capacity
    | none => m
  else m

def onHandshakeComplete (m : ServerSessionManager T) (outcome : HandshakeOutcome T)
    (src : SocketAddr) (now : ℕ) (order : List SessionId) : ManagerStep T :=
  let sid := outcome.sessionId
  match m.sessions.get sid with
  | some _ => (.ok .none, m)
  | none =>
    let m := m.evictAtCapacity order
    match WireSession.established P .server outcome with
    | .error e => (.error (.err (.session e)), m)
    | .ok session =>
      (.ok (.established sid src),
        m.putSession sid { session, peer := src, lastActivity := now, establishedAt := now })

/-- What follows an encryption on a live session: send the packet, or close the session once
its counter is exhausted. -/
def afterEncrypt (m : ServerSessionManager T) (sid : SessionId) (entry : SessionEntry) :
    Except SessionError WirePacket × WireSession → ManagerStep T
  | (.ok packet, session) =>
    (.ok (.sendPacket packet entry.peer),
      { m.putSession sid { entry with session } with
        encrypted := m.encrypted ++ entry.session.sealing (.ok packet) })
  | (.error .rekeyRequired, _) => (.ok (.closed sid .nonceExhausted), m.removeSession sid)
  | (.error e, session) =>
    (.error (.err (.session e)), m.putSession sid { entry with session })

def onControlMessage (m : ServerSessionManager T) (sid : SessionId) (inner : InnerPlaintext) :
    ManagerStep T :=
  if inner.payload.toList.getD 0 0 = Control.probe then
    match m.sessions.get sid with
    | none => (.ok .none, m)
    | some entry =>
      m.afterEncrypt sid entry (entry.session.encrypt P .handshake (Control.slot Control.ack))
  else (.ok .none, m)

end ServerSessionManager

/-- Decrypt a packet on a live session; an authentic one refreshes the entry and moves its
peer. -/
def SessionEntry.receive {T : CryptoTypes} (P : Primitives T) (entry : SessionEntry)
    (pkt : WirePacket) (src : SocketAddr) (now : ℕ) :
    Except SessionError DataResult × SessionEntry :=
  match entry.session.decrypt P pkt with
  | (.ok inner, session) =>
    let entry := { entry with session, lastActivity := now, peer := src }
    match inner.msgType with
    | .data => (.ok (.payload inner), entry)
    | .cover => (.ok (.payload inner), entry)
    | .tunData => (.ok (.payload inner), entry)
    | .close => (.ok .peerClose, entry)
    | .handshake => (.ok (.control inner), entry)
  | (.error .rekeyRequired, session) =>
    (.ok (.sessionDead .nonceExhausted), { entry with session })
  | (.error (.codec .rejected), session) => (.ok .rejected, { entry with session })
  | (.error (.codec .decryptionFailed), session) => (.ok .failed, { entry with session })
  | (.error (.codec (.nonceExhausted _)), session) =>
    (.ok (.sessionDead .nonceExhausted), { entry with session })
  | (.error (.codec _), session) => (.ok .failed, { entry with session })
  | (.error e, session) => (.error e, { entry with session })

namespace ServerSessionManager
variable {T : CryptoTypes} (P : Primitives T)

def onDataPacket (m : ServerSessionManager T) (pkt : WirePacket) (src : SocketAddr) (now : ℕ) :
    ManagerStep T :=
  let sid := pkt.sid
  match m.sessions.get sid with
  | none => (.ok .none, m)
  | some entry =>
    if m.failGate.peek src now m.limits = false then (.ok .none, m)
    else
      match entry.receive P pkt src now with
      | (.error e, entry) => (.error (.err (.session e)), m.putSession sid entry)
      | (.ok result, entry) =>
        let m := m.putSession sid entry
        match result with
        | .payload inner =>
          match inner.msgType with
          | .data => (.ok (.appData sid inner), m)
          | .tunData => (.ok (.appData sid inner), m)
          | _ => (.ok .none, m)
        | .control inner => m.onControlMessage P sid inner
        | .peerClose => (.ok (.closed sid .peerClosed), m.removeSession sid)
        | .sessionDead reason => (.ok (.closed sid reason), m.removeSession sid)
        | .failed => (.ok .none, { m with failGate := m.failGate.consume src now m.limits })
        | .rejected => (.ok .none, m)

def handleDatagram (m : ServerSessionManager T) (pkt : WirePacket) (src : SocketAddr)
    (clock : Clock) (now : ℕ) (draw : ServerDraw T) (order : List SessionId) : ManagerStep T :=
  if isHandshakeFragment pkt then
    match m.hs.handleDatagram P pkt src clock draw with
    | (.ok (.emit packets peer), hs) => (.ok (.send packets peer), { m with hs })
    | (.ok (.complete outcome), hs) =>
      ({ m with hs } : ServerSessionManager T).onHandshakeComplete P outcome src now order
    | (.ok .none, hs) => (.ok .none, { m with hs })
    | (.error e, hs) => (liftHandshake (.error e), { m with hs })
  else m.onDataPacket P pkt src now

def sendEncrypted (m : ServerSessionManager T) (sid : SessionId) (msgType : MessageType)
    (payload : Bytes) : ManagerStep T :=
  match m.sessions.get sid with
  | none => (.error (.err .noSession), m)
  | some entry => m.afterEncrypt sid entry (entry.session.encrypt P msgType payload)

def appOutbound (m : ServerSessionManager T) (sid : SessionId) (payload : Bytes) :
    ManagerStep T :=
  if payloadLen < payload.length then (.error (wrongPayloadLen payload), m)
  else m.sendEncrypted P sid .data (padSlot payload)

def tunOutbound (m : ServerSessionManager T) (sid : SessionId) (payload : Bytes) :
    ManagerStep T :=
  if payload.length ≠ payloadLen then (.error (wrongPayloadLen payload), m)
  else m.sendEncrypted P sid .tunData payload

def coverPacket (m : ServerSessionManager T) (sid : SessionId) (fill : Except String Payload) :
    ManagerStep T :=
  match m.sessions.get sid with
  | none => (.error (.err .noSession), m)
  | some entry => m.afterEncrypt sid entry (entry.session.cover P fill)

/-- The loop of `cover_packet_all`: an error drops the events collected so far. -/
def coverLoop (fills : SessionId → Except String Payload) :
    List SessionId → ServerSessionManager T →
      Except (Fault ManagerError) (List ManagerEvent) × ServerSessionManager T
  | [], m => (.ok [], m)
  | sid :: sids, m =>
    match m.coverPacket P sid (fills sid) with
    | (.error e, m) => (.error e, m)
    | (.ok ev, m) =>
      match coverLoop fills sids m with
      | (.error e, m) => (.error e, m)
      | (.ok out, m) => (.ok (ev.toList ++ out), m)

def sortedSids (m : ServerSessionManager T) : List SessionId :=
  m.sessions.keys.mergeSort fun a b => lexLe a.toList b.toList

def coverPacketAll (m : ServerSessionManager T) (fills : SessionId → Except String Payload) :
    Except (Fault ManagerError) (List ManagerEvent) × ServerSessionManager T :=
  coverLoop P fills m.sortedSids m

/-- The first Close packet of a session that has left the table. -/
def beginClose (m : ServerSessionManager T) (entry : SessionEntry) (now : ℕ) :
    ManagerEvent × ServerSessionManager T :=
  match entry.session.encrypt P .close closeSlot with
  | (.error _, _) => (.none, m)
  | (.ok packet, session) =>
    (.sendPacket packet entry.peer,
      { m with
        pendingCloses := m.pendingCloses ++
          [{ session, peer := entry.peer, attemptsLeft := closeRetransmitTotal - 1
             nextAt := now + closeRetransmitBase }]
        encrypted := m.encrypted ++ entry.session.sealing (.ok packet) })

def closeSession (m : ServerSessionManager T) (sid : SessionId) (now : ℕ) : ManagerStep T :=
  match m.sessions.get sid with
  | none => (.error (.err .noSession), m)
  | some entry =>
    let (ev, m) := (m.queueClosed sid .userClosed).beginClose P entry now
    (.ok ev, m)

/-- Why a session is over at this time, if it is. -/
def expiry (limits : SessionLimits) (now : ℕ) (e : SessionEntry) : Option CloseReason :=
  let idleOk := limits.idleTimeout.all fun t => decide (now - e.lastActivity < t)
  let lifeOk := limits.lifetimeCap.all fun t => decide (now - e.establishedAt < t)
  if idleOk && lifeOk then none
  else if !lifeOk then some .lifetimeCap
  else some .idleTimeout

def expired (m : ServerSessionManager T) (now : ℕ) (order : List SessionId) :
    List (SessionId × CloseReason) :=
  (m.sessions.iter order).filterMap fun e => (expiry m.limits now e.2).map (e.1, ·)

/-- The loop of `tick` over the expired sessions. -/
def expireLoop (now : ℕ) :
    List (SessionId × CloseReason) → ServerSessionManager T →
      List ManagerEvent × ServerSessionManager T
  | [], m => ([], m)
  | (sid, reason) :: rest, m =>
    match m.sessions.get sid with
    | some entry =>
      let (close, m) := (m.removeSession sid).beginClose P entry now
      let (out, m) := expireLoop now rest m
      (close.toList ++ .closed sid reason :: out, m)
    | none =>
      let (out, m) := expireLoop now rest m
      (.closed sid reason :: out, m)

def tick (m : ServerSessionManager T) (now : ℕ) (order : List SessionId) :
    List ManagerEvent × ServerSessionManager T :=
  let (out, m) := expireLoop P now (m.expired now order) m
  let (resent, closes, log) := retransmitCloses P m.pendingCloses now
  (out ++ m.pendingClosed ++ resent,
    { m with
      pendingClosed := []
      pendingCloses := closes
      failGate := m.failGate.sweep now m.limits
      encrypted := m.encrypted ++ log })

end ServerSessionManager
end PqTunnel
