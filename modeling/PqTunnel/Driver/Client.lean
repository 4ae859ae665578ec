import PqTunnel.Driver.Effects
import PqTunnel.Driver.Scheduler
import PqTunnel.Manager.Client

/-! The loop of the client driver. An input is the branch that the `select!` takes, with what it
delivers; a timer branch whose deadline has not come does nothing. What the driver logs is left
out. -/
namespace PqTunnel

structure BeginDraws (T : CryptoTypes) where
  sids : List.Vector (Except String SessionId) 8
  kemSk : Except CryptoError T.KemSk
  xSk : T.XSk

/-- What the draws of a run give: those of each handshake it begins, and the jittered delays of the
retransmission timer. -/
structure ClientDraws (T : CryptoTypes) where
  begins : ℕ → BeginDraws T
  delays : ℕ → ℕ

/-- The arms are the times at which the timer branches are ready. The last two fields count the
draws. -/
structure ClientVars where
  wasReady : Bool
  coverSched : CoverScheduler
  coverArm : Option ℕ
  slotArm : Option ℕ
  retransmit : Option ℕ
  begins : ℕ
  delays : ℕ

/-- The branches of the loop, each with the readings of the clock it makes. -/
inductive ClientInput (T : CryptoTypes) where
  | recv (os : Except IoError (Bytes × SocketAddr)) (rand : T.KemRand) (now : ℕ)
  | command (cmd : Option Bytes) (now : ℕ)
  | retransmit (now : ℕ)
  | tick (now : ℕ)
  | slot (now clock : ℕ)
  | cover (now clock : ℕ) (fill : Except String Payload)

namespace ClientInput

def time {T : CryptoTypes} : ClientInput T → ℕ
  | .recv _ _ now => now
  | .command _ now => now
  | .retransmit now => now
  | .tick now => now
  | .slot now _ => now
  | .cover now _ _ => now

end ClientInput

namespace ClientDriver
open Drive
variable {T : CryptoTypes} (P : Primitives T) (out : Outside) (draws : ClientDraws T)

abbrev Run (T : CryptoTypes) := Drive (ClientSessionManager T) ClientVars

def armCover (v : ClientVars) : ClientVars := { v with coverArm := v.coverSched.nextDeadline }

def stopCover (v : ClientVars) : ClientVars := armCover { v with coverSched := v.coverSched.stop }

/-- `client_slot_timer`: the branch is never ready while the cover schedule owns the slot. -/
def armSlot (coverOwnsSlot : Bool) (now : ℕ) : Run T Unit := modify fun w => { w with
  vars := { w.vars with
    slotArm := if coverOwnsSlot then none else (w.manager.nextSlotDelay now).map (now + ·) } }

def rearmSlot (now : ℕ) : Run T Unit := do
  armSlot (← get).vars.coverSched.nextDeadline.isSome now

/-- `client_retransmit_timer`. -/
def armRetransmit (now : ℕ) : Run T Unit := modify fun w =>
  let m := w.manager
  if m.hs.isSome || (m.session.isSome && !m.ready && !m.m3Exhausted) then
    { w with vars := { w.vars with
      retransmit := some (now + draws.delays w.vars.delays), delays := w.vars.delays + 1 } }
  else { w with vars := { w.vars with retransmit := none } }

def beginHandshake (now : ℕ) : Run T (Except (Fault ManagerError) ManagerEvent) := do
  let d := draws.begins (← get).vars.begins
  assign fun v => { v with begins := v.begins + 1 }
  ask fun m => m.beginHandshake P d.sids d.kemSk d.xSk now

/-- `rearm_client`: a failed attempt is left to a later tick. -/
def rearmClient (now : ℕ) : Run T Unit := do
  match (← beginHandshake P draws now) with
  | .ok (.send packets peer) => sendAll out packets peer
  | .ok _ => pure ()
  | .error (.err _) => pure ()
  | .error (.panic msg) => throw (.failed (.manager (.panic msg)))

/-- The end of a session, in every branch that sees one. -/
def onClosed (sid : SessionId) (reason : CloseReason) (now : ℕ) : Run T Unit := do
  assign fun v => stopCover { v with wasReady := false }
  armSlot false now
  notify out (.closed sid reason)
  rearmClient P out draws now
  armRetransmit draws now

/-- The head of the loop: the first turn that finds the session confirmed. -/
def noticeReady (now : ℕ) : Run T Unit := do
  let w ← get
  if w.manager.ready && !w.vars.wasReady then do
    assign fun v => armCover { v with wasReady := true, coverSched := v.coverSched.start now }
    rearmSlot now
    match w.manager.sessionId with
    | some sid => notify out (.ready sid)
    | none => pure ()

def onEvent (now : ℕ) : ManagerEvent → Run T Unit
  | .send packets peer => sendAll out packets peer
  | .sendPacket packet peer => sendTo out packet peer
  | .appData sid inner => notify out (.data sid inner)
  | .closed sid reason => onClosed P out draws sid reason now
  | .established _ _ => pure ()
  | .none => pure ()
  | .outboundDropped _ => pure ()

def onRecv (os : Except IoError (Bytes × SocketAddr)) (rand : T.KemRand) (now : ℕ) : Run T Unit :=
  match HandshakeTransport.recv os with
  | .error .datagramRejected => pure ()
  | .error .transportReset => pure ()
  | .error e => throw (.failed (.transport e))
  | .ok (pkt, src) => do
    let wasUnconfirmed := (← get).manager.state = .unconfirmed
    let r ← ask fun m => m.handleDatagram P pkt src rand now
    let ev ← orFail r
    onEvent P out draws now ev
    if ¬ wasUnconfirmed ∧ (← get).manager.state = .unconfirmed then armRetransmit draws now
    rearmSlot now

def onCommand (now : ℕ) : Option Bytes → Run T Unit
  | none => throw .stopped
  | some payload => do
    let r ← ask fun m => m.appOutbound P payload now
    match r with
    | .ok (.sendPacket packet peer) => sendTo out packet peer
    | .ok (.closed sid reason) => onClosed P out draws sid reason now
    | .ok (.outboundDropped dropped) => notify out (.outboundDropped dropped)
    | .ok _ => rearmSlot now
    | .error (.err .noSession) => pure ()
    | .error (.err (.session (.codec (.wrongLength _ _ _)))) => pure ()
    | .error e => throw (.failed (.manager e))

def onRetransmit (now : ℕ) : Run T Unit := do
  let r ← ask fun m => m.onTimer P now
  match (← orFail r) with
  | .send packets peer => do
    sendAll out packets peer
    armRetransmit draws now
  | .closed sid reason => onClosed P out draws sid reason now
  | _ => armRetransmit draws now

def onTickEvent (now : ℕ) : ManagerEvent → Run T Unit
  | .sendPacket packet peer => sendTo out packet peer
  | .closed sid reason => onClosed P out draws sid reason now
  | .outboundDropped dropped => notify out (.outboundDropped dropped)
  | _ => pure ()

def onTick (now : ℕ) : Run T Unit := do
  let evs ← ask fun m => m.tick P now
  evs.forM (onTickEvent P out draws now)
  if (← get).manager.needsRearm then do
    rearmClient P out draws now
    armRetransmit draws now

/-- What a taken slot or a cover packet gives. -/
def onSlotEvent (now : ℕ) : Option ManagerEvent → Run T Unit
  | some (.sendPacket packet peer) => sendTo out packet peer
  | some (.closed sid reason) => onClosed P out draws sid reason now
  | _ => pure ()

def onSlot (now clock : ℕ) : Run T Unit := do
  let ev ← ask fun m => m.takeSlot P now clock
  onSlotEvent P out draws now ev
  rearmSlot now

/-- The packet of a due cover slot: a buffered payload or a probe goes first. -/
def coverEvent (now clock : ℕ) (fill : Except String Payload) : Run T (Option ManagerEvent) := do
  match (← ask fun m => m.takeSlot P now clock) with
  | some ev => pure (some ev)
  | none =>
    match (← ask fun m => m.coverPacket P fill clock) with
    | .ok ev => pure (some ev)
    | .error (.err .noSession) => pure none
    | .error e => throw (.failed (.manager e))

def onCover (now clock : ℕ) (fill : Except String Payload) : Run T Unit := do
  let v := (← get).vars
  assign fun v => { v with coverSched := (v.coverSched.onDeadline now).2 }
  if (v.coverSched.onDeadline now).1 then do
    let ev ← coverEvent P now clock fill
    onSlotEvent P out draws now ev
  assign armCover

/-- A timer branch is taken once its time has come. -/
def whenDue (arm : ClientVars → Option ℕ) (now : ℕ) (branch : Run T Unit) : Run T Unit := do
  if (arm (← get).vars).any fun due => decide (due ≤ now) then branch

def turn (input : ClientInput T) : Run T Unit := do
  noticeReady out input.time
  match input with
  | .recv os rand now => onRecv P out draws os rand now
  | .command cmd now => onCommand P out draws now cmd
  | .retransmit now => whenDue (·.retransmit) now (onRetransmit P out draws now)
  | .tick now => onTick P out draws now
  | .slot now clock => whenDue (·.slotArm) now (onSlot P out draws now clock)
  | .cover now clock fill => whenDue (·.coverArm) now (onCover P out draws now clock fill)

/-- The driver connects before it enters the loop. -/
def connect (now : ℕ) : Run T Unit := do
  match (← orFail (← beginHandshake P draws now)) with
  | .send packets peer => sendAll out packets peer
  | _ => pure ()
  armSlot false now
  armRetransmit draws now

/-- `run_client_manager`, until one of its branches ends it or the inputs end. -/
def runClientManager (start : ℕ) (inputs : List (ClientInput T)) : Run T Unit := do
  connect P out draws start
  inputs.forM (turn P out draws)

def init (m : ClientSessionManager T) (cover : CoverPolicy) :
    World (ClientSessionManager T) ClientVars where
  manager := m
  vars := {
    wasReady := false
    coverSched := CoverScheduler.new cover
    coverArm := none
    slotArm := none
    retransmit := none
    begins := 0
    delays := 0 }
  sent := []
  told := []

end ClientDriver
end PqTunnel
