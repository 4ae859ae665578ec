import PqTunnel.Foundation.Lifecycle
import PqTunnel.Handshake.Server
import PqTunnel.Session.WireSession

/-! Limits, events and errors of the session managers, and the data-path failure gate. Times and
durations are in nanoseconds. -/
namespace PqTunnel
open ByteString

def fromSecs (s : ℕ) : ℕ := s * 1000000000

def fromMillis (ms : ℕ) : ℕ := ms * 1000000

def fractionDigits (frac width : ℕ) : String :=
  let digits := (toString frac).toList
  let padded := List.replicate (width - digits.length) '0' ++ digits
  String.ofList (padded.reverse.dropWhile (· = '0')).reverse

def fmtDecimal (whole frac width : ℕ) (unit : String) : String :=
  toString whole ++ (if frac = 0 then "" else "." ++ fractionDigits frac width) ++ unit

def debugDuration (d : ℕ) : String :=
  if 1000000000 ≤ d then fmtDecimal (d / 1000000000) (d % 1000000000) 9 "s"
  else if 1000000 ≤ d then fmtDecimal (d / 1000000) (d % 1000000) 6 "ms"
  else if 1000 ≤ d then fmtDecimal (d / 1000) (d % 1000) 3 "µs"
  else fmtDecimal d 0 0 "ns"

structure SessionLimits where
  maxSessions : ℕ := 64
  idleTimeout : Option ℕ := some (fromSecs (5 * 60))
  lifetimeCap : Option ℕ := none
  confirmTimeout : Option ℕ := some (fromSecs 30)
  livenessProbeInterval : ℕ := fromSecs 5
  livenessRounds : ℕ := 3
  handshakeTimeout : Option ℕ := some (fromSecs 30)
  failBurst : ℕ := 64
  failWindow : ℕ := fromSecs 10
  maxFailBuckets : ℕ := 4096
  slotInterval : ℕ := fromMillis 5

inductive CloseReason where
  | idleTimeout
  | lifetimeCap
  | nonceExhausted
  | notConfirmed
  | peerUnresponsive
  | handshakeTimeout
  | capacity
  | peerClosed
  | userClosed
  deriving DecidableEq, Repr

inductive ManagerEvent where
  | send (packets : List WirePacket) (peer : SocketAddr)
  | sendPacket (packet : WirePacket) (peer : SocketAddr)
  | established (sid : SessionId) (peer : SocketAddr)
  | appData (sid : SessionId) (inner : InnerPlaintext)
  | closed (sid : SessionId) (reason : CloseReason)
  | outboundDropped (dropped : ℕ)
  | none

inductive ManagerError where
  | handshake (e : HandshakeV2Error)
  | session (e : SessionError)
  | noSession
  | invalidState (msg : String)
  | invalidConfig (msg : String)
  deriving DecidableEq, Repr

def ManagerEvent.packets : ManagerEvent → List (WirePacket × SocketAddr)
  | .send packets peer => packets.map (·, peer)
  | .sendPacket packet peer => [(packet, peer)]
  | _ => []

def ManagerEvent.toList : ManagerEvent → List ManagerEvent
  | .none => []
  | ev => [ev]

/-- What an event tells the application about the lifecycle of a session. -/
def ManagerEvent.notice : ManagerEvent → Option (Lifecycle.Report SessionId)
  | .established sid _ => some (.opened sid)
  | .closed sid _ => some (.closed sid)
  | _ => Option.none

def SessionLimits.validate (limits : SessionLimits) : Except ManagerError Unit :=
  let rest : Except ManagerError Unit :=
    if limits.livenessRounds = 0 then
      .error (.invalidConfig "liveness_rounds must be at least 1")
    else if limits.slotInterval = 0 then
      .error (.invalidConfig "slot_interval must be non-zero")
    else .ok ()
  match limits.idleTimeout with
  | some idle =>
    if idle ≤ limits.livenessProbeInterval then
      .error (.invalidConfig ("idle_timeout (" ++ debugDuration idle ++
        ") must be strictly greater than liveness_probe_interval (" ++
        debugDuration limits.livenessProbeInterval ++ ")"))
    else rest
  | none => rest

structure FailGate where
  buckets : Table SocketAddr RateBucket
  order : List SocketAddr
  lastSweep : ℕ

namespace FailGate

def new (now : ℕ) : FailGate where
  buckets := Table.empty
  order := []
  lastSweep := now

def peek (g : FailGate) (src : SocketAddr) (now : ℕ) (limits : SessionLimits) : Bool :=
  if limits.maxFailBuckets = 0 then false
  else
    match g.buckets.get src with
    | none => true
    | some b => if limits.failWindow ≤ now - b.lastRefill then true else decide (0 < b.tokens)

/-- Charge one failed decryption to its source. -/
def consume (g : FailGate) (src : SocketAddr) (now : ℕ) (limits : SessionLimits) : FailGate :=
  if limits.maxFailBuckets = 0 then g
  else
    match g.buckets.get src with
    | some bucket =>
      let bucket : RateBucket :=
        if limits.failWindow ≤ now - bucket.lastRefill then
          { tokens := limits.failBurst, lastRefill := now }
        else bucket
      { g with buckets := g.buckets.put src { bucket with tokens := bucket.tokens - 1 } }
    | none =>
      let (order, buckets) :=
        ServerHandshake.evictOldest limits.maxFailBuckets g.order g.buckets
      { g with
        buckets := buckets.put src { tokens := limits.failBurst - 1, lastRefill := now }
        order := order ++ [src] }

def sweep (g : FailGate) (now : ℕ) (limits : SessionLimits) : FailGate :=
  if g.buckets.size = 0 then g
  else if now - g.lastSweep < limits.failWindow then g
  else
    let buckets := g.buckets.retain fun _ b => decide (now - b.lastRefill < limits.failWindow)
    { buckets, order := g.order.filter fun k => (buckets.get k).isSome, lastSweep := now }

end FailGate

namespace Control

def probe : UInt8 := 0x01

def ack : UInt8 := 0x02

def slot (kind : UInt8) : Bytes := kind :: zeros (payloadLen - 1)

theorem length_slot (kind : UInt8) : (slot kind).length = payloadLen := by
  rw [slot, List.length_cons, length_zeros]
  rfl

end Control

structure PendingClose where
  session : WireSession
  peer : SocketAddr
  attemptsLeft : ℕ
  nextAt : ℕ

def closeRetransmitTotal : ℕ := 3

def closeRetransmitBase : ℕ := fromSecs 1

/-- The all-zero payload of a Close packet. -/
def closeSlot : Bytes := zeros payloadLen

section Retransmit

variable {T : CryptoTypes} (P : Primitives T)

/-- One pass of the retransmission loop over a pending Close: the event, the new state and the
record of the encryption. -/
def PendingClose.retransmit (pc : PendingClose) (now : ℕ) :
    List ManagerEvent × PendingClose × List Sealing :=
  if pc.attemptsLeft = 0 ∨ now < pc.nextAt then ([], pc, [])
  else
    let pc := { pc with
      attemptsLeft := pc.attemptsLeft - 1
      nextAt := now + closeRetransmitBase * 2 }
    match pc.session.encrypt P .close closeSlot with
    | (.ok packet, session) =>
      ([.sendPacket packet pc.peer], { pc with session }, pc.session.sealing (.ok packet))
    | (.error _, session) => ([], { pc with session, attemptsLeft := 0 }, [])

/-- `retransmit_closes`, which both managers share: the events, the closes still pending and the
record of the encryptions. -/
def retransmitCloses (closes : List PendingClose) (now : ℕ) :
    List ManagerEvent × List PendingClose × List Sealing :=
  let passes := closes.map fun pc => pc.retransmit P now
  (passes.flatMap (·.1),
    (passes.map (·.2.1)).filter fun pc => decide (0 < pc.attemptsLeft ∧ now < pc.nextAt),
    passes.flatMap (·.2.2))

variable {P} in
theorem retransmitCloses_sends {closes : List PendingClose} {now : ℕ} {ev : ManagerEvent}
    (h : ev ∈ (retransmitCloses P closes now).1) : ∃ pkt peer, ev = .sendPacket pkt peer := by
  obtain ⟨pass, hpass, hev⟩ := List.mem_flatMap.mp h
  obtain ⟨pc, -, rfl⟩ := List.mem_map.mp hpass
  unfold PendingClose.retransmit at hev
  split_ifs at hev
  · cases hev
  · dsimp only at hev
    split at hev
    · exact ⟨_, _, List.mem_singleton.mp hev⟩
    · cases hev

end Retransmit

end PqTunnel
