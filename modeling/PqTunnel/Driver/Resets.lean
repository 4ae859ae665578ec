import PqTunnel.Driver.Client
import PqTunnel.Driver.Server
import PqTunnel.Manager.ClientEstablish
import PqTunnel.Manager.Establish

/-! Resets that a vanished peer causes. A receive that returns one is skipped by both drivers. A
send that returns one ends them. -/
namespace PqTunnel
open Failing

def IoError.IsReset (e : IoError) : Prop := e.kind = .connectionReset ∨ e.kind = .connectionRefused

/-- Every error that the socket returns to a send is a reset. -/
def Outside.SendsReset (out : Outside) : Prop := ∀ k e, out.sends k = .error e → e.IsReset

def Outside.Sends (out : Outside) : Prop := ∀ k e, out.sends k ≠ .error e

/-- The driver ended on a send that the socket cut short. -/
def ShortSend (out : Outside) (e : TransportError) : Prop :=
  ∃ k n, out.sends k = .ok n ∧ n ≠ packetSize ∧
    e = .transport (UdpError.wrongSize packetSize n).toString

/-- If the driver ends on the transport, a send was cut short. -/
def Spared (out : Outside) (h : Halt) : Prop := ∀ e, h = .failed (.transport e) → ShortSend out e

/-- A part of a driver that no reset ends. -/
def Unharmed {M L α : Type} (out : Outside) (x : Drive M L α) : Prop :=
  Triple (fun _ => True) x (fun _ _ => True) fun h _ => Spared out h

/-- Every error that the socket returns to this receive is a reset. -/
def RecvReset (os : Except IoError (Bytes × SocketAddr)) : Prop := ∀ e, os = .error e → e.IsReset

theorem recv_reset {e : IoError} (h : e.IsReset) :
    HandshakeTransport.recv (.error e) = .error .datagramRejected ∨
      HandshakeTransport.recv (.error e) = .error .transportReset := by
  have hreset : (UdpError.io e).isRecoverableReset = true := by
    simpa [UdpError.isRecoverableReset, IoError.IsReset] using h
  simp only [HandshakeTransport.recv, UdpTransport.recv]
  by_cases hsize : e.rawOsError = some UdpTransport.wsaeMsgSize
  · rw [if_pos hsize]
    exact Or.inl rfl
  · rw [if_neg hsize]
    exact Or.inr (if_pos hreset)

theorem RecvReset.recv {os : Except IoError (Bytes × SocketAddr)} (h : RecvReset os) (msg : String) :
    HandshakeTransport.recv os ≠ .error (.transport msg) := by
  cases os with
  | error e => rcases recv_reset (h e rfl) with heq | heq <;> simp [heq]
  | ok v =>
    simp only [HandshakeTransport.recv, UdpTransport.recv]
    split_ifs <;> simp

section Rules

variable {M L α β : Type} {out : Outside}

theorem Unharmed.pure (a : α) : Unharmed out (pure a : Drive M L α) := Triple.pure fun _ _ => trivial

theorem Unharmed.bind {x : Drive M L α} {k : α → Drive M L β} (hx : Unharmed out x)
    (hk : ∀ a, Unharmed out (k a)) : Unharmed out (x >>= k) := Triple.bind hx hk

theorem Unharmed.get : Unharmed out (get : Drive M L (World M L)) := Triple.get fun _ _ => trivial

theorem Unharmed.set (w : World M L) : Unharmed out (set w : Drive M L PUnit) :=
  Triple.set fun _ _ => trivial

theorem Unharmed.modify (f : World M L → World M L) : Unharmed out (modify f : Drive M L PUnit) :=
  Triple.modify fun _ _ => trivial

theorem Unharmed.throw {h : Halt} (hh : Spared out h) : Unharmed out (throw h : Drive M L α) :=
  Triple.throw fun _ _ => hh

theorem Unharmed.forM {ι : Type} {body : ι → Drive M L PUnit} {l : List ι}
    (h : ∀ i ∈ l, Unharmed out (body i)) : Unharmed out (l.forM body) := Triple.forM h

theorem spared_manager (e : Fault ManagerError) : Spared out (.failed (.manager e)) :=
  fun _ h => by cases h

theorem spared_stopped : Spared out .stopped := fun _ h => by cases h

theorem Unharmed.ends {x : Drive M L α} (h : Unharmed out x) {w : World M L} {e : TransportError}
    (hend : (x.exec w).1 = .error (.failed (.transport e))) : ShortSend out e := by
  have hspared := h w trivial
  rw [show x.run w = x.exec w from rfl] at hspared
  generalize x.exec w = r at hend hspared
  obtain ⟨r, w'⟩ := r
  obtain rfl : r = _ := hend
  exact hspared e rfl

/-- Apart from resets, a send fails only if the socket cuts it short. -/
theorem Unharmed.sendTo (hout : out.Sends) (packet : WirePacket) (peer : SocketAddr) :
    Unharmed out (Drive.sendTo out packet peer : Drive M L Unit) := by
  unfold Drive.sendTo
  refine .bind .get fun w => .bind (.set _) fun _ => ?_
  cases hsend : out.sends w.sent.length with
  | error e => exact absurd hsend (hout _ e)
  | ok n =>
    simp only [HandshakeTransport.sendTo, UdpTransport.sendTo]
    by_cases hn : n ≠ packetSize
    · rw [if_pos hn]
      refine .throw fun e he => ?_
      obtain rfl := DriverError.transport.inj (Halt.failed.inj he)
      exact ⟨_, n, hsend, hn, rfl⟩
    · rw [if_neg hn]
      exact .pure ()

theorem Unharmed.sendAll (hout : out.Sends) (packets : List WirePacket) (peer : SocketAddr) :
    Unharmed out (Drive.sendAll out packets peer : Drive M L Unit) :=
  .forM fun packet _ => .sendTo hout packet peer

theorem Unharmed.notify (n : ManagerNotification) :
    Unharmed out (Drive.notify out n : Drive M L Unit) := by
  unfold Drive.notify
  refine .bind .get fun w => ?_
  split
  · exact .set _
  · exact .throw fun _ h => by cases h

theorem Unharmed.ask (call : M → α × M) : Unharmed out (Drive.ask call : Drive M L α) :=
  .bind .get fun _ => .bind (.set _) fun _ => .pure _

theorem Unharmed.orFail (r : Except (Fault ManagerError) α) :
    Unharmed out (Drive.orFail r : Drive M L α) := by
  cases r with
  | error e => exact .throw (spared_manager e)
  | ok a => exact .pure a

theorem Unharmed.assign (f : L → L) : Unharmed out (Drive.assign f : Drive M L Unit) :=
  .modify _

end Rules

namespace ServerDriver

variable {T : CryptoTypes} {P : Primitives T} {out : Outside}

theorem unharmed_relay (hout : out.Sends) (ev : ManagerEvent) :
    Unharmed out (relay (T := T) out ev) := by
  cases ev with
  | sendPacket packet peer => exact .sendTo hout packet peer
  | closed sid reason => exact .notify _
  | _ => exact .pure ()

theorem unharmed_onEvent (hout : out.Sends) (now : ℕ) (ev : ManagerEvent) :
    Unharmed out (onEvent (T := T) out now ev) := by
  cases ev with
  | send packets peer => exact .sendAll hout packets peer
  | sendPacket packet peer => exact .sendTo hout packet peer
  | established sid peer => exact .bind (.assign _) fun _ => .notify _
  | appData sid inner | closed sid reason => exact .notify _
  | _ => exact .pure ()

theorem unharmed_onRecv (hout : out.Sends) {os : Except IoError (Bytes × SocketAddr)}
    (hos : RecvReset os) (clock : Clock) (now : ℕ) (draw : ServerDraw T) (order : List SessionId) :
    Unharmed out (onRecv P out os clock now draw order) := by
  unfold onRecv
  cases hrecv : HandshakeTransport.recv os with
  | error e =>
    cases e with
    | transport msg => exact absurd hrecv (hos.recv msg)
    | _ => exact .pure ()
  | ok v =>
    exact .bind (.ask _) fun r => .bind (.orFail r) fun ev =>
      unharmed_onEvent hout now ev

theorem unharmed_onCommand (hout : out.Sends) (cmd : Option ServerAppCommand) :
    Unharmed out (onCommand P out cmd) := by
  cases cmd with
  | none => exact .throw spared_stopped
  | some cmd =>
    refine .bind (.ask _) fun r => ?_
    split
    · exact .sendTo hout _ _
    · exact .notify _
    · exact .pure ()
    · exact .pure ()
    · exact .throw (spared_manager _)
    · exact .pure ()

theorem unharmed_onCover (hout : out.Sends) (now : ℕ) (fills : SessionId → Except String Payload) :
    Unharmed out (onCover P out now fills) := by
  unfold onCover
  refine .bind .get fun w => .bind (.assign _) fun _ => ?_
  dsimp only
  split
  · refine .bind (.ask _) fun r => .bind (.orFail r) fun evs =>
      .bind (.forM fun ev _ => unharmed_relay hout ev) fun _ =>
      .bind .get fun w => ?_
    split
    · exact .bind (.assign _) fun _ => .assign _
    · exact .assign _
  · exact .assign _

/-- A turn that receives resets only is not ended by them. -/
theorem unharmed_turn (hout : out.Sends) {input : ServerInput T}
    (h : ∀ os clock now draw order, input = .recv os clock now draw order → RecvReset os) :
    Unharmed out (turn P out input) := by
  cases input with
  | recv os clock now draw order =>
    exact unharmed_onRecv hout (h os clock now draw order rfl) clock now draw order
  | command cmd => exact unharmed_onCommand hout cmd
  | tick now order =>
    exact .bind (.ask _) fun evs => .forM fun ev _ => unharmed_relay hout ev
  | cover now fills =>
    refine .bind .get fun w => ?_
    split
    · exact unharmed_onCover hout now fills
    · exact .pure _

end ServerDriver

namespace ClientDriver

variable {T : CryptoTypes} {P : Primitives T} {out : Outside} {draws : ClientDraws T}

variable (now : ℕ)

theorem unharmed_rearmSlot : Unharmed out (rearmSlot (T := T) now) :=
  .bind .get fun _ => .modify _

theorem unharmed_beginHandshake : Unharmed out (beginHandshake P draws now) :=
  .bind .get fun _ => .bind (.assign _) fun _ => .ask _

theorem unharmed_rearmClient (hout : out.Sends) (now : ℕ) :
    Unharmed out (rearmClient P out draws now) := by
  refine .bind (unharmed_beginHandshake now) fun r => ?_
  split
  · exact .sendAll hout _ _
  · exact .pure ()
  · exact .pure ()
  · exact .throw (spared_manager _)

theorem unharmed_onClosed (hout : out.Sends) (sid : SessionId) (reason : CloseReason) (now : ℕ) :
    Unharmed out (onClosed P out draws sid reason now) :=
  .bind (.assign _) fun _ => .bind (.modify _) fun _ =>
    .bind (.notify _) fun _ =>
      .bind (unharmed_rearmClient hout now) fun _ => .modify _

theorem unharmed_noticeReady : Unharmed out (noticeReady (T := T) out now) := by
  refine .bind .get fun w => ?_
  split
  · refine .bind (.assign _) fun _ => .bind (unharmed_rearmSlot now)
      fun _ => ?_
    split
    · exact .notify _
    · exact .pure ()
  · exact .pure _

theorem unharmed_onEvent (hout : out.Sends) (now : ℕ) (ev : ManagerEvent) :
    Unharmed out (onEvent P out draws now ev) := by
  cases ev with
  | send packets peer => exact .sendAll hout packets peer
  | sendPacket packet peer => exact .sendTo hout packet peer
  | appData sid inner => exact .notify _
  | closed sid reason => exact unharmed_onClosed hout sid reason now
  | _ => exact .pure ()

theorem unharmed_onRecv (hout : out.Sends) {os : Except IoError (Bytes × SocketAddr)}
    (hos : RecvReset os) (rand : T.KemRand) (now : ℕ) :
    Unharmed out (onRecv P out draws os rand now) := by
  unfold onRecv
  cases hrecv : HandshakeTransport.recv os with
  | error e =>
    cases e with
    | transport msg => exact absurd hrecv (hos.recv msg)
    | _ => exact .pure ()
  | ok v =>
    refine .bind .get fun w => .bind (.ask _) fun r =>
      .bind (.orFail r) fun ev => .bind (unharmed_onEvent hout now ev)
      fun _ => .bind .get fun w' => ?_
    split
    · exact .bind (.modify _) fun _ => unharmed_rearmSlot now
    · exact unharmed_rearmSlot now

theorem unharmed_onCommand (hout : out.Sends) (now : ℕ) (cmd : Option Bytes) :
    Unharmed out (onCommand P out draws now cmd) := by
  cases cmd with
  | none => exact .throw spared_stopped
  | some payload =>
    refine .bind (.ask _) fun r => ?_
    split
    · exact .sendTo hout _ _
    · exact unharmed_onClosed hout _ _ now
    · exact .notify _
    · exact unharmed_rearmSlot now
    · exact .pure ()
    · exact .pure ()
    · exact .throw (spared_manager _)

theorem unharmed_onRetransmit (hout : out.Sends) (now : ℕ) :
    Unharmed out (onRetransmit P out draws now) := by
  refine .bind (.ask _) fun r => .bind (.orFail r) fun ev => ?_
  split
  · exact .bind (.sendAll hout _ _) fun _ => .modify _
  · exact unharmed_onClosed hout _ _ now
  · exact .modify _

theorem unharmed_onTickEvent (hout : out.Sends) (now : ℕ) (ev : ManagerEvent) :
    Unharmed out (onTickEvent P out draws now ev) := by
  cases ev with
  | sendPacket packet peer => exact .sendTo hout packet peer
  | closed sid reason => exact unharmed_onClosed hout sid reason now
  | outboundDropped dropped => exact .notify _
  | _ => exact .pure ()

theorem unharmed_onTick (hout : out.Sends) (now : ℕ) : Unharmed out (onTick P out draws now) := by
  refine .bind (.ask _) fun evs =>
    .bind (.forM fun ev _ => unharmed_onTickEvent hout now ev) fun _ =>
    .bind .get fun w => ?_
  split
  · exact .bind (unharmed_rearmClient hout now) fun _ => .modify _
  · exact .pure _

theorem unharmed_onSlotEvent (hout : out.Sends) (now : ℕ) (ev : Option ManagerEvent) :
    Unharmed out (onSlotEvent P out draws now ev) := by
  unfold onSlotEvent
  split
  · exact .sendTo hout _ _
  · exact unharmed_onClosed hout _ _ now
  · exact .pure ()

theorem unharmed_coverEvent (clock : ℕ) (fill : Except String Payload) :
    Unharmed out (coverEvent P now clock fill) := by
  refine .bind (.ask _) fun taken => ?_
  cases taken with
  | some ev => exact .pure _
  | none =>
    refine .bind (.ask _) fun r => ?_
    split
    · exact .pure _
    · exact .pure _
    · exact .throw (spared_manager _)

theorem unharmed_onCover (hout : out.Sends) (now clock : ℕ) (fill : Except String Payload) :
    Unharmed out (onCover P out draws now clock fill) := by
  refine .bind .get fun w => .bind (.assign _) fun _ => ?_
  dsimp only
  split
  · exact .bind (unharmed_coverEvent now clock fill) fun ev =>
      .bind (unharmed_onSlotEvent hout now ev) fun _ => .assign _
  · exact .assign _

theorem unharmed_whenDue {arm : ClientVars → Option ℕ} {now : ℕ} {branch : Run T Unit}
    (h : Unharmed out branch) : Unharmed out (whenDue arm now branch) := by
  refine .bind .get fun w => ?_
  split
  · exact h
  · exact .pure _

/-- A turn that receives resets only is not ended by them. -/
theorem unharmed_turn (hout : out.Sends) {input : ClientInput T}
    (h : ∀ os rand now, input = .recv os rand now → RecvReset os) :
    Unharmed out (turn P out draws input) := by
  refine .bind (unharmed_noticeReady _) fun _ => ?_
  cases input with
  | recv os rand now => exact unharmed_onRecv hout (h os rand now rfl) rand now
  | command cmd now => exact unharmed_onCommand hout now cmd
  | retransmit now => exact unharmed_whenDue (unharmed_onRetransmit hout now)
  | tick now => exact unharmed_onTick hout now
  | slot now clock =>
    exact unharmed_whenDue (.bind (.ask _) fun ev =>
      .bind (unharmed_onSlotEvent hout now ev) fun _ => unharmed_rearmSlot now)
  | cover now clock fill => exact unharmed_whenDue (unharmed_onCover hout now clock fill)

theorem unharmed_connect (hout : out.Sends) (now : ℕ) : Unharmed out (connect P out draws now) := by
  refine .bind (unharmed_beginHandshake now) fun r => .bind (.orFail r)
    fun ev => ?_
  dsimp only
  split
  · exact .bind (.sendAll hout _ _) fun _ => .bind (.modify _)
      fun _ => .modify _
  · exact .bind (.modify _) fun _ => .modify _

/-- The manager and what has been sent are those of `w`. -/
def Same (w w' : World (ClientSessionManager T) ClientVars) : Prop :=
  w'.manager = w.manager ∧ w'.sent = w.sent

theorem noticeReady_same (w : World (ClientSessionManager T) ClientVars) (now : ℕ) :
    Triple (Same w) (noticeReady out now) (fun _ => Same w) fun _ => Same w := by
  have hnotify : ∀ n, Triple (Same w) (Drive.notify out n) (fun _ => Same w) fun _ => Same w := by
    intro n
    refine .bind (q := fun v w' => v = w' ∧ Same w w') (.get fun _ hw => ⟨rfl, hw⟩)
      fun v => ?_
    split
    · refine .set ?_
      rintro w' ⟨rfl, hw⟩
      exact hw
    · exact .throw fun _ hw => hw.2
  refine .bind (q := fun _ => Same w) (.get fun _ hw => hw) fun w' => ?_
  split
  · refine .bind (q := fun _ => Same w) (.modify fun _ hw => hw) fun _ =>
      .bind (q := fun _ => Same w)
        (.bind (q := fun _ => Same w) (.get fun _ hw => hw)
          fun _ => .modify fun _ hw => hw) fun _ => ?_
    split
    · exact hnotify _
    · exact .pure fun _ hw => hw
  · exact .pure fun _ hw => hw

/-- A reset that a receive returns leaves the manager as it is, and nothing is sent. -/
theorem turn_recv_reset {e : IoError} (he : e.IsReset)
    (w : World (ClientSessionManager T) ClientVars) (rand : T.KemRand) (now : ℕ) :
    Same w ((turn P out draws (.recv (.error e) rand now)).exec w).2 := by
  have hrecv : onRecv P out draws (.error e) rand now = pure () := by
    rcases recv_reset he with heq | heq <;> simp only [onRecv, heq]
  have hturn : Triple (Same w) (turn P out draws (.recv (.error e) rand now)) (fun _ => Same w)
      fun _ => Same w := by
    refine .bind (noticeReady_same w _) fun _ => ?_
    simp only [hrecv]
    exact .pure fun _ hw => hw
  exact hturn.ends ⟨rfl, rfl⟩

end ClientDriver

/-- A run of a driver over a socket whose sends return no error is not ended by the resets that its
receives return, and each of them leaves the manager as it is. -/
theorem resets_spare_drivers {T : CryptoTypes} {P : Primitives T} {out : Outside}
    (hout : out.Sends) :
    (∀ m cover inputs, (∀ os clock now draw order,
        ServerInput.recv os clock now draw order ∈ inputs → RecvReset os) →
      ∀ e, ((ServerDriver.runServerManager P out inputs).exec (ServerDriver.init m cover)).1 =
        .error (.failed (.transport e)) → ShortSend out e) ∧
    (∀ m cover draws start inputs, (∀ os rand now,
        ClientInput.recv os rand now ∈ inputs → RecvReset os) →
      ∀ e, ((ClientDriver.runClientManager P out draws start inputs).exec
        (ClientDriver.init m cover)).1 = .error (.failed (.transport e)) → ShortSend out e) ∧
    ∀ e : IoError, e.IsReset →
      (∀ clock now draw order w,
        (ServerDriver.turn P out (.recv (.error e) clock now draw order)).exec w = (.ok (), w)) ∧
      ∀ draws rand now w,
        ((ClientDriver.turn P out draws (.recv (.error e) rand now)).exec w).2.manager =
            w.manager ∧
          ((ClientDriver.turn P out draws (.recv (.error e) rand now)).exec w).2.sent =
            w.sent := by
  refine ⟨fun m cover inputs h e hend => ?_, fun m cover draws start inputs h e hend => ?_,
    fun e he => ⟨fun clock now draw order w => ?_,
      fun draws rand now w => ClientDriver.turn_recv_reset he w rand now⟩⟩
  · have hrun : Unharmed out (ServerDriver.runServerManager P out inputs) :=
      .forM fun input hi => ServerDriver.unharmed_turn hout
        fun os clock now draw order heq => h os clock now draw order (heq ▸ hi)
    exact hrun.ends hend
  · have hrun : Unharmed out (ClientDriver.runClientManager P out draws start inputs) :=
      .bind (ClientDriver.unharmed_connect hout start) fun _ =>
        .forM fun input hi => ClientDriver.unharmed_turn hout
          fun os rand now heq => h os rand now (heq ▸ hi)
    exact hrun.ends hend
  · rcases recv_reset he with heq | heq <;>
      simp only [ServerDriver.turn, ServerDriver.onRecv, heq] <;> rfl

section Sample

def refusing : Outside where
  sends := fun _ => .error { kind := .connectionRefused, rawOsError := none, text := "refused" }
  takes := fun _ => true

def sampleClientDraws : ClientDraws Sample.types where
  begins := fun _ =>
    { sids := List.Vector.replicate 8 (.ok Exchange.sampleSid)
      kemSk := .ok (3 : UInt8)
      xSk := (4 : UInt8) }
  delays := fun _ => 0

theorem refusing_sendsReset : refusing.SendsReset := by
  intro k e h
  obtain rfl := Except.error.inj h
  exact Or.inr rfl

variable {M : Type} {L : Type} {α : Type} {w : World M L}

/-- A driver that fails in a first part fails. -/
theorem exec_bind_error {β : Type} {x : Drive M L α} {k : α → Drive M L β} {h : Halt}
    (hx : (x.exec w).1 = .error h) : ((x >>= k).exec w).1 = .error h := by
  have hrun : (x >>= k).exec w = ExceptT.bindCont k (x.exec w).1 (x.exec w).2 := rfl
  rw [hrun, hx]
  rfl

theorem exec_bind_ok {β : Type} {x : Drive M L α} {k : α → Drive M L β} {v : World M L} {a : α}
    (hx : x.exec w = (.ok a, v)) : (x >>= k).exec w = (k a).exec v := by
  have hrun : (x >>= k).exec w = ExceptT.bindCont k (x.exec w).1 (x.exec w).2 := rfl
  rw [hrun, hx]
  rfl

theorem exec_orFail_ok (a : α) (w : World M L) :
    (Drive.orFail (.ok a)).exec w = (.ok a, w) := rfl

theorem exec_ask_bind {β : Type} {call : M → α × M} {k : α → Drive M L β} :
    (Drive.ask call >>= k).exec w =
      (k (call w.manager).1).exec { w with manager := (call w.manager).2 } := rfl

theorem refusing_sendAll {packets : List WirePacket} (h : packets ≠ []) (peer : SocketAddr)
    (w : World M L) :
    ((Drive.sendAll refusing packets peer).exec w).1 =
      .error (.failed (.transport (.transport "udp io: refused"))) := by
  cases packets with
  | nil => exact absurd rfl h
  | cons packet packets => rfl

theorem ok_of_returned {r : Except (Fault ManagerError) ManagerEvent} {ev : ManagerEvent}
    (h : ServerSessionManager.returned r = [ev]) : r = .ok ev := by
  cases r with
  | error e => cases h
  | ok ev' => cases ev' <;> simp_all [ServerSessionManager.returned, ManagerEvent.toList]

theorem connect_fails {T : CryptoTypes} {P : Primitives T} {out : Outside} {draws : ClientDraws T}
    {m : ClientSessionManager T} {cover : CoverPolicy} {now : ℕ} {packets : List WirePacket}
    {peer : SocketAddr} {e : Halt}
    (hbegin : (m.beginHandshake P (draws.begins 0).sids (draws.begins 0).kemSk
      (draws.begins 0).xSk now).1 = .ok (.send packets peer))
    (hsend : ∀ w : World (ClientSessionManager T) ClientVars,
      ((Drive.sendAll out packets peer).exec w).1 = .error e) :
    ((ClientDriver.connect P out draws now).exec (ClientDriver.init m cover)).1 = .error e := by
  have hask : (ClientDriver.beginHandshake P draws now).exec (ClientDriver.init m cover) =
      (.ok (m.beginHandshake P (draws.begins 0).sids (draws.begins 0).kemSk
        (draws.begins 0).xSk now).1, { ClientDriver.init m cover with
          manager := (m.beginHandshake P (draws.begins 0).sids (draws.begins 0).kemSk
            (draws.begins 0).xSk now).2
          vars := { (ClientDriver.init m cover).vars with begins := 1 } }) := rfl
  rw [hbegin] at hask
  rw [ClientDriver.connect, exec_bind_ok hask, exec_bind_ok (exec_orFail_ok ..)]
  exact exec_bind_error (hsend _)

/-- A send that is refused ends both drivers: the client on its first datagram, and the server on
the first payload of an established session. -/
theorem refused_send_ends_drivers : refusing.SendsReset ∧
    (∃ m, ClientSessionManager.new Exchange.sampleClientConfig {} = .ok m ∧
      ((ClientDriver.runClientManager Sample.primitives refusing sampleClientDraws 0 []).exec
        (ClientDriver.init m ⟨false, 1⟩)).1 =
          .error (.failed (.transport (.transport "udp io: refused")))) ∧
    ∃ m calls, ServerSessionManager.new Exchange.sampleServerConfig {} 0 0 = .ok m ∧
      ((ServerDriver.runServerManager Sample.primitives refusing
          [.command (some ⟨Exchange.sampleSid, []⟩)]).exec
        (ServerDriver.init (ServerSessionManager.run Sample.primitives m calls) ⟨false, 1⟩)).1 =
          .error (.failed (.transport (.transport "udp io: refused"))) := by
  refine ⟨refusing_sendsReset, ⟨ClientSessionManager.sampleClient {},
    ClientSessionManager.new_sampleClient rfl, ?_⟩, ?_⟩
  · obtain ⟨c, hbegun, -, -, hmeet⟩ := ClientSessionManager.exists_sample_begun {} 0
    have hfrags : c.m1Frags ≠ [] := by
      rw [Exchange.m1Frags_eq hmeet.setting]
      simp [m1FragCount]
    have hbegin : ((ClientSessionManager.sampleClient {}).beginHandshake Sample.primitives
        (sampleClientDraws.begins 0).sids (sampleClientDraws.begins 0).kemSk
        (sampleClientDraws.begins 0).xSk 0).1 =
          .ok (.send c.m1Frags Exchange.sampleAddr) := by
      rw [ClientSessionManager.sampleBegin, ClientSessionManager.call] at hbegun
      exact ok_of_returned (Prod.mk.inj hbegun).1
    apply exec_bind_error
    exact connect_fails hbegin fun w => refusing_sendAll hfrags _ w
  · obtain ⟨before, last, hs₀, hs, session, h⟩ :=
      ServerSessionManager.exists_sample_establishing (m := ServerSessionManager.sampleManager)
        Exchange.sampleSid rfl (fun _ => Table.get_empty _) (Table.get_empty _) (by decide)
        (3 : UInt8) (4 : UInt8)
    have hfresh : isCounterExhausted session.cipher.sendCounter = false := by
      rw [h.counter]
      rfl
    obtain ⟨packet, henc⟩ := WireSession.encrypt_next CipherSession.sample_aeadTotal h.state hfresh
      .data length_padSlot_nil
    refine ⟨ServerSessionManager.sampleManager, before ++ [last],
      ServerSessionManager.new_sampleManager, ?_⟩
    rw [h.run_eq]
    apply exec_bind_error
    rw [ServerDriver.turn, ServerDriver.onCommand, exec_ask_bind]
    simp only [ServerDriver.init, ServerSessionManager.appOutbound, List.length_nil,
      not_lt_zero, if_false, ServerSessionManager.sendEncrypted, ServerSessionManager.putSession,
      Table.get_put_self, henc, ServerSessionManager.afterEncrypt]
    rfl

def sending : Outside where
  sends := fun _ => .ok packetSize
  takes := fun _ => true

theorem sending_sends : sending.Sends := fun _ _ h => by cases h

/-- The sample client outlives a reset. -/
theorem resets_spare_drivers_sample : sending.Sends ∧
    ∀ e, ((ClientDriver.runClientManager Sample.primitives sending sampleClientDraws 0
        [.recv (.error ⟨.connectionReset, some 104, "reset"⟩) (5 : UInt8) 1]).exec
      (ClientDriver.init (ClientSessionManager.sampleClient {}) ⟨false, 1⟩)).1 ≠
        .error (.failed (.transport e)) := by
  refine ⟨sending_sends, fun e hend => ?_⟩
  have hreset : ∀ os rand now, ClientInput.recv os rand now ∈
      [(.recv (.error ⟨.connectionReset, some 104, "reset"⟩) (5 : UInt8) 1 :
        ClientInput Sample.types)] → RecvReset os := by
    intro os rand now hmem err herr
    obtain ⟨rfl, -, -⟩ := ClientInput.recv.inj (List.mem_singleton.mp hmem)
    obtain rfl := Except.error.inj herr
    exact Or.inl rfl
  obtain ⟨k, n, hsend, hn, -⟩ :=
    (resets_spare_drivers sending_sends).2.1 _ _ _ _ _ hreset e hend
  exact hn (Except.ok.inj hsend).symm

end Sample
end PqTunnel
