import PqTunnel.Dataplane.Reassembler
import PqTunnel.Driver.Transport
import PqTunnel.Manager.Client
import PqTunnel.Tun.Policy

/-! The loop of the TUN client. An input is the branch that the `select!` takes, with what it
delivers. The driver ignores what the socket and the device answer, and its receive branch is always
enabled, so that the loop never ends. -/
namespace PqTunnel

def reassemblyDeadline : ℕ := fromSecs 2

/-- `ctr` is the static counter of datagram ids. The last two fields are what the driver has handed
to the socket and to the device. -/
structure TunClient (T : CryptoTypes) where
  manager : ClientSessionManager T
  reasm : Reassembler
  ctr : UInt64
  sent : List (WirePacket × SocketAddr)
  written : List Bytes

/-- The branches of the loop, each with the readings of the clock it makes; `clock` gives those for
the slots of a packet. -/
inductive TunClientInput (T : CryptoTypes) where
  | recv (os : Except IoError (Bytes × SocketAddr)) (rand : T.KemRand) (now feedAt : ℕ)
  | packet (pkt : Bytes) (clock : ℕ → ℕ)
  | tick (now clock : ℕ) (fill : Except String Payload)

namespace TunClient
variable {T : CryptoTypes} (P : Primitives T)

def start (m : ClientSessionManager T) (draws : List.Vector (Except String SessionId) 8)
    (kemSk : Except CryptoError T.KemSk) (xSk : T.XSk) (now : ℕ) :
    Except (Fault ManagerError) (TunClient T) :=
  match m.beginHandshake P draws kemSk xSk now with
  | (.error e, _) => .error e
  | (.ok ev, m) =>
    .ok { manager := m, reasm := Reassembler.new reassemblyDeadline, ctr := 1, sent := ev.packets
          written := [] }

def send (w : TunClient T) (packets : List WirePacket) (peer : SocketAddr) : TunClient T :=
  { w with sent := w.sent ++ packets.map (·, peer) }

/-- Feed a slot, and write the packet that it completes. -/
def feed (w : TunClient T) (slot : Payload) (now : ℕ) : TunClient T :=
  match w.reasm.feed slot now with
  | (.complete pkt, reasm) =>
    if isBoundaryDropped pkt = false ∧ validateInner pkt then
      { w with reasm, written := w.written ++ [pkt] }
    else { w with reasm }
  | (_, reasm) => { w with reasm }

def onEvent (w : TunClient T) (feedAt : ℕ) : ManagerEvent → TunClient T
  | .send packets peer => w.send packets peer
  | .sendPacket packet peer => w.send [packet] peer
  | .appData _ inner => if inner.msgType = .tunData then w.feed inner.payload feedAt else w
  | .closed _ _ => { w with reasm := w.reasm.clear }
  | _ => w

def onRecv (w : TunClient T) (os : Except IoError (Bytes × SocketAddr)) (rand : T.KemRand)
    (now feedAt : ℕ) : TunClient T :=
  match UdpTransport.recv os with
  | .error _ => w
  | .ok (pkt, src) =>
    match w.manager.handleDatagram P pkt src rand now with
    | (.ok ev, manager) => { w with manager }.onEvent feedAt ev
    | (.error _, manager) => { w with manager }

def outbound (w : TunClient T) (slot : Payload) (now : ℕ) : TunClient T :=
  match w.manager.tunOutbound P slot.toList now with
  | (.ok (.sendPacket packet peer), manager) => { w with manager }.send [packet] peer
  | (_, manager) => { w with manager }

def onPacket (w : TunClient T) (pkt : Bytes) (clock : ℕ → ℕ) : TunClient T :=
  if isBoundaryDropped pkt then w
  else if validateInner pkt = false then w
  else
    match fragmentIpPacket pkt w.ctr with
    | .error _ => { w with ctr := w.ctr + 1 }
    | .ok slots => slots.zipIdx.foldl (fun w x => w.outbound P x.1 (clock x.2))
        { w with ctr := w.ctr + 1 }

def onTickEvent (w : TunClient T) : ManagerEvent → TunClient T
  | .send packets peer => w.send packets peer
  | .sendPacket packet peer => w.send [packet] peer
  | .closed _ _ => { w with reasm := w.reasm.clear }
  | _ => w

def cover (w : TunClient T) (fill : Except String Payload) (now : ℕ) : TunClient T :=
  match w.manager.coverPacket P fill now with
  | (.ok (.sendPacket packet peer), manager) => { w with manager }.send [packet] peer
  | (_, manager) => { w with manager }

def onTick (w : TunClient T) (now clock : ℕ) (fill : Except String Payload) : TunClient T :=
  match w.manager.tick P now with
  | (evs, manager) => (evs.foldl onTickEvent { w with manager }).cover P fill clock

def turn (w : TunClient T) : TunClientInput T → TunClient T
  | .recv os rand now feedAt => w.onRecv P os rand now feedAt
  | .packet pkt clock => w.onPacket P pkt clock
  | .tick now clock fill => w.onTick P now clock fill

def run (w : TunClient T) (inputs : List (TunClientInput T)) : TunClient T :=
  inputs.foldl (turn P) w

end TunClient
end PqTunnel
