import PqTunnel.Driver.Effects
import PqTunnel.Driver.Scheduler
import PqTunnel.Manager.Server

/-! The loop of the server driver. An input is the branch that the `select!` takes, with what it
delivers; a timer branch whose deadline has not come does nothing. What the driver logs is left
out. -/
namespace PqTunnel

structure ServerAppCommand where
  sid : SessionId
  payload : Bytes

/-- `coverArm` is the time at which the cover branch is ready. -/
structure ServerVars where
  coverSched : CoverScheduler
  coverArm : Option ℕ

inductive ServerInput (T : CryptoTypes) where
  | recv (os : Except IoError (Bytes × SocketAddr)) (clock : Clock) (now : ℕ) (draw : ServerDraw T)
      (order : List SessionId)
  | command (cmd : Option ServerAppCommand)
  | tick (now : ℕ) (order : List SessionId)
  | cover (now : ℕ) (fills : SessionId → Except String Payload)

namespace ServerDriver
open Drive
variable {T : CryptoTypes} (P : Primitives T) (out : Outside)

abbrev Run (T : CryptoTypes) := Drive (ServerSessionManager T) ServerVars

def armCover (v : ServerVars) : ServerVars := { v with coverArm := v.coverSched.nextDeadline }

/-- The events of a tick and of a round of cover packets. -/
def relay : ManagerEvent → Run T Unit
  | .sendPacket packet peer => sendTo out packet peer
  | .closed sid reason => notify out (.closed sid reason)
  | _ => pure ()

def onEvent (now : ℕ) : ManagerEvent → Run T Unit
  | .send packets peer => sendAll out packets peer
  | .sendPacket packet peer => sendTo out packet peer
  | .established sid peer => do
    assign fun v => armCover { v with coverSched := v.coverSched.start now }
    notify out (.established sid peer)
  | .appData sid inner => notify out (.data sid inner)
  | .closed sid reason => notify out (.closed sid reason)
  | .none => pure ()
  | .outboundDropped _ => pure ()

def onRecv (os : Except IoError (Bytes × SocketAddr)) (clock : Clock) (now : ℕ)
    (draw : ServerDraw T) (order : List SessionId) : Run T Unit :=
  match HandshakeTransport.recv os with
  | .error .datagramRejected => pure ()
  | .error .transportReset => pure ()
  | .error e => throw (.failed (.transport e))
  | .ok (pkt, src) => do
    let r ← ask fun m => m.handleDatagram P pkt src clock now draw order
    let ev ← orFail r
    onEvent out now ev

def onCommand : Option ServerAppCommand → Run T Unit
  | none => throw .stopped
  | some cmd => do
    let r ← ask fun m => m.appOutbound P cmd.sid cmd.payload
    match r with
    | .ok (.sendPacket packet peer) => sendTo out packet peer
    | .ok (.closed sid reason) => notify out (.closed sid reason)
    | .error (.err .noSession) => pure ()
    | .error (.err (.session (.codec (.wrongLength _ _ _)))) => pure ()
    | .error e => throw (.failed (.manager e))
    | _ => pure ()

def onTick (now : ℕ) (order : List SessionId) : Run T Unit := do
  let evs ← ask fun m => m.tick P now order
  evs.forM (relay out)

def onCover (now : ℕ) (fills : SessionId → Except String Payload) : Run T Unit := do
  let v := (← get).vars
  assign fun v => { v with coverSched := (v.coverSched.onDeadline now).2 }
  if (v.coverSched.onDeadline now).1 then do
    let r ← ask fun m => m.coverPacketAll P fills
    let evs ← orFail r
    evs.forM (relay out)
    if (← get).manager.sessions.keys.length = 0 then
      assign fun v => { v with coverSched := v.coverSched.stop }
  assign armCover

def turn : ServerInput T → Run T Unit
  | .recv os clock now draw order => onRecv P out os clock now draw order
  | .command cmd => onCommand P out cmd
  | .tick now order => onTick P out now order
  | .cover now fills => do
    if (← get).vars.coverArm.any fun due => decide (due ≤ now) then onCover P out now fills

/-- `run_server_manager`, until one of its branches ends it or the inputs end. -/
def runServerManager (inputs : List (ServerInput T)) : Run T Unit := inputs.forM (turn P out)

def init (m : ServerSessionManager T) (cover : CoverPolicy) :
    World (ServerSessionManager T) ServerVars where
  manager := m
  vars := { coverSched := CoverScheduler.new cover, coverArm := none }
  sent := []
  told := []

end ServerDriver
end PqTunnel
