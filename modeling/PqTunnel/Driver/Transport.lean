import PqTunnel.Manager.Types

/-! The UDP transport of the drivers: one datagram a packet, and what becomes of socket errors. -/
namespace PqTunnel

/-- The kinds of socket errors that the transport tells apart. -/
inductive IoErrorKind where
  | connectionReset
  | connectionRefused
  | other
  deriving DecidableEq

structure IoError where
  kind : IoErrorKind
  rawOsError : Option ℕ
  text : String
  deriving DecidableEq

inductive UdpError where
  | io (e : IoError)
  | noPeer
  | wrongSize (expected got : ℕ)
  deriving DecidableEq

namespace UdpError

def toString : UdpError → String
  | .io e => "udp io: " ++ e.text
  | .noPeer => "no remote peer configured"
  | .wrongSize expected got => "datagram size mismatch: expected " ++ ToString.toString expected ++
      ", got " ++ ToString.toString got

def isRecoverableReset : UdpError → Bool
  | .io e => e.kind = .connectionReset || e.kind = .connectionRefused
  | _ => false

end UdpError

/-- The errors of `HandshakeV2Error` that only a transport returns. -/
inductive TransportError where
  | transport (msg : String)
  | transportReset
  | datagramRejected
  deriving DecidableEq

namespace UdpTransport

/-- The code of a Windows socket for a datagram that exceeds the buffer. -/
def wsaeMsgSize : ℕ := 10040

/-- `UdpTransport::send_to`, from what the socket returns: the octets sent, or an error. -/
def sendTo : Except IoError ℕ → Except UdpError Unit
  | .error e => .error (.io e)
  | .ok n => if n ≠ packetSize then .error (.wrongSize packetSize n) else .ok ()

/-- `UdpTransport::recv`, from what the socket returns: a datagram with its source, or an error.
The buffer holds one octet more than a packet. -/
def recv : Except IoError (Bytes × SocketAddr) → Except UdpError (WirePacket × SocketAddr)
  | .error e =>
    if e.rawOsError = some wsaeMsgSize then .error (.wrongSize packetSize (packetSize + 1))
    else .error (.io e)
  | .ok (datagram, src) =>
    let n := min datagram.length (packetSize + 1)
    if h : n ≠ packetSize then .error (.wrongSize packetSize n)
    else .ok (⟨datagram.take packetSize, by
      rw [List.length_take]
      omega⟩, src)

theorem recv_packet (pkt : WirePacket) (src : SocketAddr) :
    recv (.ok (pkt.toList, src)) = .ok (pkt, src) := by
  have hlen : pkt.toList.length = packetSize := pkt.toList_length
  have hmin : ¬ min pkt.toList.length (packetSize + 1) ≠ packetSize := by omega
  unfold recv
  dsimp only
  rw [dif_neg hmin]
  congr 2
  exact List.Vector.eq _ _ (List.take_of_length_le hlen.le)

end UdpTransport

/-! The transport interface of the drivers over UDP. -/
namespace HandshakeTransport

def sendTo (os : Except IoError ℕ) : Except TransportError Unit :=
  match UdpTransport.sendTo os with
  | .ok () => .ok ()
  | .error e => .error (.transport e.toString)

def recv (os : Except IoError (Bytes × SocketAddr)) :
    Except TransportError (WirePacket × SocketAddr) :=
  match UdpTransport.recv os with
  | .ok v => .ok v
  | .error (.wrongSize _ _) => .error .datagramRejected
  | .error e =>
    if e.isRecoverableReset then .error .transportReset else .error (.transport e.toString)

end HandshakeTransport
end PqTunnel
