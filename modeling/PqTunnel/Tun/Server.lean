import PqTunnel.Tun.Client

/-! The loop of the TUN server, which mirrors the sessions of its manager in a current session id
and a map of reassemblers. -/
namespace PqTunnel

/-- `ctr` is the static counter of datagram ids. The last two fields are what the driver has handed
to the socket and to the device. -/
structure TunServer (T : CryptoTypes) where
  manager : ServerSessionManager T
  reasms : Table SessionId Reassembler
  currentSid : Option SessionId
  ctr : UInt64
  sent : List (WirePacket × SocketAddr)
  written : List Bytes

inductive TunServerInput (T : CryptoTypes) where
  | recv (os : Except IoError (Bytes × SocketAddr)) (clock : Clock) (now : ℕ) (draw : ServerDraw T)
      (order : List SessionId) (feedAt : ℕ)
  | packet (pkt : Bytes)
  | tick (now : ℕ) (order : List SessionId) (fills : SessionId → Except String Payload)

namespace TunServer
variable {T : CryptoTypes} (P : Primitives T)

def init (m : ServerSessionManager T) : TunServer T where
  manager := m
  reasms := Table.empty
  currentSid := none
  ctr := 1
  sent := []
  written := []

def send (w : TunServer T) (packets : List WirePacket) (peer : SocketAddr) : TunServer T :=
  { w with sent := w.sent ++ packets.map (·, peer) }

def reasmOf (w : TunServer T) (sid : SessionId) : Reassembler :=
  (w.reasms.get sid).getD (Reassembler.new reassemblyDeadline)

/-- Feed a slot of the session, and write the packet that it completes. -/
def feed (w : TunServer T) (sid : SessionId) (slot : Payload) (now : ℕ) : TunServer T :=
  match (w.reasmOf sid).feed slot now with
  | (.complete pkt, reasm) =>
    if validateInnerPacket pkt {} = .allow then
      { w with reasms := w.reasms.put sid reasm, written := w.written ++ [pkt] }
    else { w with reasms := w.reasms.put sid reasm }
  | (_, reasm) => { w with reasms := w.reasms.put sid reasm }

def onEstablished (w : TunServer T) (sid : SessionId) : TunServer T :=
  { w with reasms := w.reasms.put sid (w.reasmOf sid), currentSid := some sid }

/-- Every Closed event clears the current session. -/
def onClosed (w : TunServer T) (sid : SessionId) : TunServer T :=
  { w with reasms := w.reasms.remove sid, currentSid := none }

def onEvent (w : TunServer T) (feedAt : ℕ) : ManagerEvent → TunServer T
  | .send packets peer => w.send packets peer
  | .sendPacket packet peer => w.send [packet] peer
  | .appData sid inner =>
    let w := { w with currentSid := some sid }
    if inner.msgType = .tunData then w.feed sid inner.payload feedAt else w
  | .established sid _ => w.onEstablished sid
  | .closed sid _ => w.onClosed sid
  | _ => w

def onRecv (w : TunServer T) (os : Except IoError (Bytes × SocketAddr)) (clock : Clock) (now : ℕ)
    (draw : ServerDraw T) (order : List SessionId) (feedAt : ℕ) : TunServer T :=
  match UdpTransport.recv os with
  | .error _ => w
  | .ok (pkt, src) =>
    match w.manager.handleDatagram P pkt src clock now draw order with
    | (.ok ev, manager) => { w with manager }.onEvent feedAt ev
    | (.error _, manager) => { w with manager }

/-- Send one slot of a packet; what else the manager answers is ignored. -/
def outbound (w : TunServer T) (sid : SessionId) (slot : Payload) : TunServer T :=
  match w.manager.tunOutbound P sid slot.toList with
  | (.ok (.sendPacket packet peer), manager) => { w with manager }.send [packet] peer
  | (_, manager) => { w with manager }

def onPacket (w : TunServer T) (pkt : Bytes) : TunServer T :=
  if isBoundaryDropped pkt then w
  else if validateInner pkt = false then w
  else
    match w.currentSid with
    | none => w
    | some sid =>
      match fragmentIpPacket pkt w.ctr with
      | .error _ => { w with ctr := w.ctr + 1 }
      | .ok slots => slots.foldl (fun w slot => w.outbound P sid slot) { w with ctr := w.ctr + 1 }

def onTickEvent (w : TunServer T) : ManagerEvent → TunServer T
  | .send packets peer => w.send packets peer
  | .sendPacket packet peer => w.send [packet] peer
  | .closed sid _ => w.onClosed sid
  | .established sid _ => w.onEstablished sid
  | _ => w

def onCoverEvent (w : TunServer T) : ManagerEvent → TunServer T
  | .sendPacket packet peer => w.send [packet] peer
  | _ => w

/-- A round of cover packets; a Closed event among them is ignored. -/
def cover (w : TunServer T) (fills : SessionId → Except String Payload) : TunServer T :=
  match w.manager.coverPacketAll P fills with
  | (.ok evs, manager) => evs.foldl onCoverEvent { w with manager }
  | (.error _, manager) => { w with manager }

def onTick (w : TunServer T) (now : ℕ) (order : List SessionId)
    (fills : SessionId → Except String Payload) : TunServer T :=
  match w.manager.tick P now order with
  | (evs, manager) => (evs.foldl onTickEvent { w with manager }).cover P fills

def turn (w : TunServer T) : TunServerInput T → TunServer T
  | .recv os clock now draw order feedAt => w.onRecv P os clock now draw order feedAt
  | .packet pkt => w.onPacket P pkt
  | .tick now order fills => w.onTick P now order fills

def run (w : TunServer T) (inputs : List (TunServerInput T)) : TunServer T :=
  inputs.foldl (turn P) w

end TunServer
end PqTunnel
