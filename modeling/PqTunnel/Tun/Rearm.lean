import PqTunnel.Manager.Exhaustion
import PqTunnel.Manager.Rearm
import PqTunnel.Tun.Client

/-! Re-establishment in the TUN client. The driver begins one handshake, before its loop, and no
turn begins another: the manager needs no new handshake as long as nothing ends the handshake or the
session, and once something has, it waits for ever. -/
namespace PqTunnel.TunClient
open Transition ClientSessionManager
open WireSession (Enc)
open ClientSessionManager (Call Does sampleClient sampleBegun exists_sample_begun)

variable {T : CryptoTypes} {P : Primitives T} {w : TunClient T} {m : ClientSessionManager T}
  {now : ℕ}

/-- The manager holds a handshake or a session. -/
def Busy (m : ClientSessionManager T) : Prop := m.hs.isSome = true ∨ m.session.isSome = true

/-- The manager holds nothing and waits for a new handshake. -/
def Stranded (m : ClientSessionManager T) : Prop :=
  m.hs = none ∧ m.session = none ∧ m.rearmRequested = true

/-- The send counter of the session leaves room for `n` packets. -/
def Room (m : ClientSessionManager T) (n : ℕ) : Prop :=
  ∀ s, m.session = some s → s.cipher.sendCounter.toNat + n ≤ maxPacketNonce.toNat

/-- The packet ends the session: it is an authentic Close, or its counter is exhausted. -/
def Ends (P : Primitives T) (m : ClientSessionManager T) (pkt : WirePacket) : Prop :=
  isHandshakeFragment pkt = false ∧ ∃ s, m.session = some s ∧ pkt.sid = s.sessionId ∧
    ((∃ inner, (s.decrypt P pkt).1 = .ok inner ∧ inner.msgType = .close) ∨
      ∃ reason, ClientSessionManager.dataResult (s.decrypt P pkt).1 = .ok (.sessionDead reason))

/-- A deadline of the handshake or the session has come, or too many probes went unanswered. -/
def Overdue (m : ClientSessionManager T) (now : ℕ) : Bool :=
  m.handshakeDeadlinePassed now || m.lifetimePassed now || m.confirmDeadlinePassed now ||
    m.peerUnresponsive

/-- The input does not end the handshake or the session. -/
def Calm (P : Primitives T) (w : TunClient T) : TunClientInput T → Prop
  | .recv os _ _ _ => ∀ pkt src, UdpTransport.recv os = .ok (pkt, src) → ¬ Ends P w.manager pkt
  | .packet pkt _ => ∀ slots, fragmentIpPacket pkt w.ctr = .ok slots → Room w.manager slots.length
  | .tick now _ _ => Overdue w.manager now = false ∧ Room w.manager 1

theorem Busy.needsRearm (h : Busy m) : m.needsRearm = false := by
  unfold ClientSessionManager.needsRearm
  rcases h with h | h
  · rw [Option.isNone_eq_false_iff.mpr h]
    simp
  · rw [Option.isNone_eq_false_iff.mpr h]
    simp

theorem Stranded.needsRearm (h : Stranded m) : m.needsRearm = true := by
  unfold ClientSessionManager.needsRearm
  rw [h.1, h.2.1, h.2.2]
  rfl

section Branches

variable (w)

theorem manager_feed (slot : Payload) (now : ℕ) : (w.feed slot now).manager = w.manager := by
  unfold feed
  split
  · split <;> rfl
  · rfl

theorem manager_onEvent (feedAt : ℕ) (ev : ManagerEvent) :
    (w.onEvent feedAt ev).manager = w.manager := by
  cases ev with
  | appData sid inner =>
    unfold onEvent
    dsimp only
    split
    · exact manager_feed ..
    · rfl
  | _ => rfl

theorem manager_onRecv (os : Except IoError (Bytes × SocketAddr)) (rand : T.KemRand)
    (now feedAt : ℕ) :
    (w.onRecv P os rand now feedAt).manager = match UdpTransport.recv os with
      | .error _ => w.manager
      | .ok (pkt, src) => (w.manager.handleDatagram P pkt src rand now).2 := by
  unfold onRecv
  cases UdpTransport.recv os with
  | error e => rfl
  | ok x =>
    dsimp only
    generalize w.manager.handleDatagram P x.1 x.2 rand now = res
    obtain ⟨r, m⟩ := res
    cases r with
    | error e => rfl
    | ok ev => exact manager_onEvent ..

theorem manager_outbound (slot : Payload) (now : ℕ) :
    (w.outbound P slot now).manager = (w.manager.tunOutbound P slot.toList now).2 := by
  unfold outbound
  split
  · rename_i heq
    rw [heq]
    rfl
  · rename_i heq
    rw [heq]

theorem manager_tickEvents (evs : List ManagerEvent) :
    (evs.foldl onTickEvent w).manager = w.manager := by
  induction evs generalizing w with
  | nil => rfl
  | cons ev evs ih =>
    rw [List.foldl_cons, ih]
    cases ev <;> rfl

theorem manager_onTick (now clock : ℕ) (fill : Except String Payload) :
    (w.onTick P now clock fill).manager =
      ((w.manager.tick P now).2.coverPacket P fill clock).2 := by
  have hcover : ∀ w : TunClient T,
      (w.cover P fill clock).manager = (w.manager.coverPacket P fill clock).2 := by
    intro w
    unfold cover
    split
    · rename_i heq
      rw [heq]
      rfl
    · rename_i heq
      rw [heq]
  unfold onTick
  rw [hcover, manager_tickEvents]

end Branches

section Calls

variable {session : WireSession}

theorem busy_handleDatagram {pkt : WirePacket} (src : SocketAddr) (rand : T.KemRand) (h : Busy m)
    (hcalm : ¬ Ends P m pkt) : Busy (m.handleDatagram P pkt src rand now).2 := by
  have hdoes := m.does_handleDatagram (P := P) pkt src rand now
  generalize m.handleDatagram P pkt src rand now = r at hdoes ⊢
  cases hdoes with
  | idle => exact h
  | stepped => exact Or.inl rfl
  | doubled _ _ _ _ _ _ hbusy => exact Or.inr hbusy
  | adopted _ _ _ _ _ _ _ _ _ _ _ _ _ _ hbuild =>
    cases probed_of_eq hbuild <;> exact Or.inr rfl
  | sent _ _ _ _ _ _ hc | spent _ _ _ _ hc => cases hc
  | unread | read => exact Or.inr rfl
  | hungUp _ _ _ _ session inner hread hopen hclose =>
    exact absurd ⟨hread.data, session, hread.get, hread.sid, Or.inl ⟨inner, hopen, hclose⟩⟩ hcalm
  | died _ _ _ _ session hread hdead =>
    exact absurd ⟨hread.data, session, hread.get, hread.sid, Or.inr ⟨_, hdead⟩⟩ hcalm

/-- A result of an encryption with room for one packet and `n` more. -/
structure InTime (n : ℕ) (r : Except SessionError WirePacket × WireSession) : Prop where
  alive : r.1 ≠ .error .rekeyRequired
  room : r.2.cipher.sendCounter.toNat + n ≤ maxPacketNonce.toNat

theorem inTime_enc {n : ℕ} (h : session.cipher.sendCounter.toNat + (n + 1) ≤ maxPacketNonce.toNat)
    {r : Except SessionError WirePacket × WireSession} (henc : Enc P session r) : InTime n r := by
  cases henc with
  | sent _ _ _ _ henc =>
    obtain ⟨hfresh, rfl⟩ := WireSession.encrypt_ok henc
    refine ⟨by simp, ?_⟩
    change (session.cipher.sendCounter + 1).toNat + n ≤ _
    rw [(CipherSession.checkedSucc_of_not_exhausted hfresh).2]
    omega
  | spent _ _ henc =>
    refine absurd (congrArg Prod.fst henc) (encrypt_in_time ?_)
    rw [CipherSession.not_exhausted_iff, UInt64.lt_iff_toNat_lt]
    omega
  | failed e hne => exact ⟨by simpa using hne, le_trans (Nat.le_succ _) h⟩

theorem busy_sends {c : Call T} {r : ClientStep T} (hdoes : Does P m c r) (hsends : c.sends = true)
    (hmachine : c.machine = false) {n : ℕ} (h : Busy m) (hroom : Room m (n + 1)) :
    Busy r.2 ∧ Room r.2 n := by
  have hkept : Room m n := fun s hs => le_trans (Nat.le_succ _) (hroom s hs)
  cases hdoes with
  | idle | queued | refused => exact ⟨h, hkept⟩
  | stepped _ _ _ _ _ hc | doubled _ _ _ _ hc | adopted _ _ _ _ _ _ _ _ hc =>
    cases hc.symm.trans hmachine
  | sent _ session _ _ _ _ _ hget henc =>
    refine ⟨Or.inr rfl, fun s hs => ?_⟩
    obtain rfl := Option.some.inj hs
    exact (inTime_enc (hroom session hget) (.sent _ _ _ _ henc)).room
  | spent _ session _ _ _ hget henc =>
    exact absurd rfl (inTime_enc (hroom session hget) (.spent _ _ henc)).alive
  | _ => cases hsends

theorem tick_calm (h : Overdue m now = false) :
    (m.tick P now).2.hs = m.hs ∧ (m.tick P now).2.session = m.session := by
  simp only [Overdue, Bool.or_eq_false_iff] at h
  obtain ⟨⟨⟨hhandshake, hlifetime⟩, hconfirm⟩, hsilent⟩ := h
  have hexpire : m.expireHandshake now = ([], m) := by
    unfold ClientSessionManager.expireHandshake
    split
    · rfl
    · rw [hhandshake]
      rfl
  simp only [ClientSessionManager.tick, hexpire, hlifetime, hconfirm, hsilent,
    closeIf, Bool.false_eq_true, if_false]
  exact ⟨rfl, rfl⟩

end Calls

section Turns

theorem busy_outbounds (clock : ℕ → ℕ) (slots : List (Payload × ℕ)) (h : Busy w.manager)
    (hroom : Room w.manager slots.length) :
    Busy (slots.foldl (fun w x => w.outbound P x.1 (clock x.2)) w).manager := by
  induction slots generalizing w with
  | nil => exact h
  | cons x slots ih =>
    obtain ⟨hbusy, hleft⟩ := busy_sends
      (w.manager.does_tunOutbound (P := P) x.1.toList (clock x.2)) rfl rfl h hroom
    refine ih ?_ ?_
    · rw [manager_outbound]
      exact hbusy
    · rw [manager_outbound]
      exact hleft

theorem Calm.busy {input : TunClientInput T} (hcalm : Calm P w input) (h : Busy w.manager) :
    Busy (w.turn P input).manager := by
  cases input with
  | recv os rand now feedAt =>
    rw [turn, manager_onRecv]
    split
    · exact h
    · rename_i pkt src hrecv
      exact busy_handleDatagram src rand h (hcalm pkt src hrecv)
  | packet pkt clock =>
    rw [turn, onPacket]
    split_ifs
    · exact h
    · exact h
    split
    · exact h
    · rename_i slots hslots
      refine busy_outbounds clock slots.zipIdx h ?_
      rw [List.length_zipIdx]
      exact hcalm slots hslots
  | tick now clock fill =>
    obtain ⟨hhs, hsession⟩ := tick_calm (P := P) hcalm.1
    rw [turn, manager_onTick]
    refine (busy_sends (n := 0) (does_coverPacket ..) rfl rfl ?_ ?_).1
    · rw [Busy, hhs, hsession]
      exact h
    · rw [Room, hsession]
      exact hcalm.2

theorem busy_run (h : Busy w.manager) {inputs : List (TunClientInput T)}
    (hcalm : Along (turn P) (Calm P) w inputs) : Busy (w.run P inputs).manager := by
  induction inputs generalizing w with
  | nil => exact h
  | cons input inputs ih => exact ih (hcalm.1.busy h) hcalm.2

theorem start_busy {draws : List.Vector (Except String SessionId) 8}
    {kemSk : Except CryptoError T.KemSk} {xSk : T.XSk} (h : start P m draws kemSk xSk now = .ok w) :
    Busy w.manager := by
  unfold start at h
  split at h
  · cases h
  · rename_i ev m' hbegin
    obtain rfl := Except.ok.inj h
    unfold beginHandshake at hbegin
    split at hbegin
    · cases (Prod.mk.inj hbegin).1
    split at hbegin
    · cases (Prod.mk.inj hbegin).1
    split at hbegin
    · rename_i e _
      cases e <;> cases (Prod.mk.inj hbegin).1
    · rw [← (Prod.mk.inj hbegin).2]
      exact Or.inl rfl

/-- While nothing ends its handshake or its session, the manager needs no new handshake. -/
theorem no_rearm_while_calm {draws : List.Vector (Except String SessionId) 8}
    {kemSk : Except CryptoError T.KemSk} {xSk : T.XSk}
    (hstart : start P m draws kemSk xSk now = .ok w) {inputs : List (TunClientInput T)}
    (hcalm : Along (turn P) (Calm P) w inputs) : (w.run P inputs).manager.needsRearm = false :=
  (busy_run (start_busy hstart) hcalm).needsRearm

end Turns

section Stranding

variable (h : Stranded m)
include h

theorem Stranded.handleDatagram (pkt : WirePacket) (src : SocketAddr) (rand : T.KemRand)
    (now : ℕ) : m.handleDatagram P pkt src rand now = (.ok .none, m) := by
  unfold ClientSessionManager.handleDatagram ClientSessionManager.onDataPacket
  rw [h.1, h.2.1]
  split_ifs <;> rfl

theorem Stranded.tunOutbound (payload : Bytes) (now : ℕ) :
    (m.tunOutbound P payload now).2 = m := by
  unfold ClientSessionManager.tunOutbound
  rw [h.2.1]
  split_ifs <;> first | rfl | contradiction

theorem Stranded.coverPacket (fill : Except String Payload) (now : ℕ) :
    (m.coverPacket P fill now).2 = m := by
  unfold ClientSessionManager.coverPacket
  rw [h.2.1]

theorem Stranded.tick (now : ℕ) : Stranded (m.tick P now).2 := by
  have hexpire : m.expireHandshake now = ([], m) := by
    rw [ClientSessionManager.expireHandshake, h.1]
  simp only [ClientSessionManager.tick, hexpire, ClientSessionManager.closeIf_of_free h.2.1]
  exact h

end Stranding

/-- No turn of the loop begins a handshake. -/
theorem Stranded.turn (h : Stranded w.manager) (input : TunClientInput T) :
    Stranded (w.turn P input).manager := by
  cases input with
  | recv os rand now feedAt =>
    rw [TunClient.turn, manager_onRecv]
    split
    · exact h
    · rw [h.handleDatagram]
      exact h
  | packet pkt clock =>
    have hslots : ∀ (slots : List (Payload × ℕ)) (w : TunClient T), Stranded w.manager →
        Stranded (slots.foldl (fun w x => w.outbound P x.1 (clock x.2)) w).manager := by
      intro slots
      induction slots with
      | nil => exact fun _ h => h
      | cons x slots ih =>
        intro w h
        apply ih
        rw [manager_outbound, h.tunOutbound]
        exact h
    rw [TunClient.turn, onPacket]
    split_ifs
    · exact h
    · exact h
    split
    · exact h
    · exact hslots _ _ h
  | tick now clock fill =>
    rw [TunClient.turn, manager_onTick, (h.tick now).coverPacket]
    exact h.tick now

theorem Stranded.run (h : Stranded w.manager) (inputs : List (TunClientInput T)) :
    Stranded (w.run P inputs).manager := by
  induction inputs generalizing w with
  | nil => exact h
  | cons input inputs ih => exact ih (h.turn input)

section Sample

def sampleStarted (c : ClientHandshake Sample.types) : TunClient Sample.types where
  manager := sampleBegun {} 0 c
  reasm := Reassembler.new reassemblyDeadline
  ctr := 1
  sent := c.m1Frags.map (·, Exchange.sampleAddr)
  written := []

theorem exists_sample_started : ∃ c, start Sample.primitives (sampleClient {})
    (List.Vector.replicate 8 (.ok Exchange.sampleSid)) (.ok (3 : UInt8)) (4 : UInt8) 0 =
      .ok (sampleStarted c) := by
  obtain ⟨c, hbegun, -⟩ := exists_sample_begun {} 0
  refine ⟨c, ?_⟩
  simp only [call, sampleBegin] at hbegun
  unfold start
  split
  · rename_i hres
    rw [hres] at hbegun
    cases (Prod.mk.inj hbegun).1
  · rename_i ev m hres
    rw [hres] at hbegun
    obtain ⟨hev, rfl⟩ := Prod.mk.inj hbegun
    cases ev with
    | send packets peer =>
      have hsame : ManagerEvent.send packets peer = .send c.m1Frags Exchange.sampleAddr :=
        List.singleton_inj.mp hev
      rw [hsame]
      rfl
    | none => cases hev
    | _ => cases List.singleton_inj.mp hev

/-- The sample client up to just before the deadline of its handshake. -/
theorem no_rearm_while_calm_sample : ∃ w, start Sample.primitives (sampleClient {})
    (List.Vector.replicate 8 (.ok Exchange.sampleSid)) (.ok (3 : UInt8)) (4 : UInt8) 0 = .ok w ∧
      (w.run Sample.primitives [.packet [] id,
        .tick (fromSecs 30 - 1) (fromSecs 30) (.error "")]).manager.needsRearm = false := by
  obtain ⟨c, hstart⟩ := exists_sample_started
  have hroom : ∀ n, Room (sampleStarted c).manager n := by
    rintro n s ⟨⟩
  refine ⟨_, hstart, no_rearm_while_calm hstart ⟨?_, ?_, trivial⟩⟩
  · exact fun slots _ => hroom slots.length
  · exact ⟨rfl, hroom 1⟩

/-- The handshake of the sample client times out at a tick. From then on the manager needs a new
handshake after every turn, whatever comes. -/
theorem stranded_after_timeout : ∃ w, start Sample.primitives (sampleClient {})
    (List.Vector.replicate 8 (.ok Exchange.sampleSid)) (.ok (3 : UInt8)) (4 : UInt8) 0 = .ok w ∧
      ∀ inputs, (w.run Sample.primitives
        (.tick (fromSecs 30) (fromSecs 30) (.error "") :: inputs)).manager.needsRearm = true := by
  obtain ⟨c, hstart⟩ := exists_sample_started
  refine ⟨_, hstart, fun inputs => ?_⟩
  have hpassed : (sampleBegun {} 0 c).handshakeDeadlinePassed (fromSecs 30) = true := by
    simp [ClientSessionManager.handshakeDeadlinePassed, sampleBegun, sampleClient]
  have hdown : Stranded ((sampleBegun {} 0 c).tick Sample.primitives (fromSecs 30)).2 :=
    ClientSessionManager.tick_handshake_timeout rfl rfl hpassed
  have hturn : Stranded ((sampleStarted c).turn Sample.primitives
      (.tick (fromSecs 30) (fromSecs 30) (.error ""))).manager := by
    rw [turn, manager_onTick]
    exact (hdown.coverPacket _ _).symm ▸ hdown
  exact (hturn.run inputs).needsRearm

end Sample
end PqTunnel.TunClient
