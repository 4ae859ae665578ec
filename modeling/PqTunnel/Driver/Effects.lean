import PqTunnel.Driver.Transport
import PqTunnel.Foundation.Failing

/-! What the drivers do to the outside: datagrams they send and notifications they hand to the
application. The socket and the channel answer from a fixed list. -/
namespace PqTunnel

inductive ManagerNotification where
  | established (sid : SessionId) (peer : SocketAddr)
  | ready (sid : SessionId)
  | data (sid : SessionId) (inner : InnerPlaintext)
  | closed (sid : SessionId) (reason : CloseReason)
  | outboundDropped (dropped : ℕ)

/-- The errors of a driver: those of its manager, `ManagerError::Handshake` with an error of the
transport, and `ManagerError::AppClosed`. -/
inductive DriverError where
  | manager (e : Fault ManagerError)
  | transport (e : TransportError)
  | appClosed

/-- How a driver ends: it returns `Ok`, or an error. -/
inductive Halt where
  | stopped
  | failed (e : DriverError)

/-- The manager and the local variables of a driver, every packet it has handed to the socket and
every notification it has handed to the application. -/
structure World (M L : Type) where
  manager : M
  vars : L
  sent : List (WirePacket × SocketAddr)
  told : List ManagerNotification

/-- What the socket answers to the sends of a run, and whether the application takes its
notifications, both in order. -/
structure Outside where
  sends : ℕ → Except IoError ℕ
  takes : ℕ → Bool

abbrev Drive (M L : Type) := ExceptT Halt (StateM (World M L))

namespace Drive
variable {M L : Type} (out : Outside)

def exec {α : Type} (x : Drive M L α) (w : World M L) : Except Halt α × World M L := x.run w

def sendTo (packet : WirePacket) (peer : SocketAddr) : Drive M L Unit := do
  let w ← get
  set { w with sent := w.sent ++ [(packet, peer)] }
  match HandshakeTransport.sendTo (out.sends w.sent.length) with
  | .ok () => pure ()
  | .error e => throw (.failed (.transport e))

def sendAll (packets : List WirePacket) (peer : SocketAddr) : Drive M L Unit :=
  packets.forM fun packet => sendTo out packet peer

def notify (n : ManagerNotification) : Drive M L Unit := do
  let w ← get
  if out.takes w.told.length then set { w with told := w.told ++ [n] }
  else throw (.failed .appClosed)

/-- Call the manager, which keeps its new state also if it fails. -/
def ask {α : Type} (call : M → α × M) : Drive M L α := do
  let w ← get
  set { w with manager := (call w.manager).2 }
  pure (call w.manager).1

/-- The `?` of the drivers on a result of the manager. -/
def orFail {α : Type} : Except (Fault ManagerError) α → Drive M L α
  | .ok a => pure a
  | .error e => throw (.failed (.manager e))

def assign (f : L → L) : Drive M L Unit := modify fun w => { w with vars := f w.vars }

end Drive
end PqTunnel
