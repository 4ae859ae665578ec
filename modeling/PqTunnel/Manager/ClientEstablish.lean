import PqTunnel.Handshake.Completion
import PqTunnel.Manager.ClientInvariant

/-! An honest exchange inside the client manager, up to the session it prepares. -/
namespace PqTunnel.Exchange
open ServerHandshake
open ClientSessionManager (Awaiting)

variable {T : CryptoTypes} {P : Primitives T} {src : SocketAddr} {c : ClientHandshake T}
  {cfg : ServerConfig T} {s : ServerHandshake T} {x : State T}

theorem hsTypeOf_m2Frag {m2 : Bytes} (hlen : m2.length = m2BodyLen) {j : ℕ}
    (hj : j < m2FragCount.toNat) : hsTypeOf (m2Frag c m2 j) = hsTypeServerHello := by
  obtain ⟨len, hp⟩ := fromDatagram_ok (parse_m2 (c := c) hlen hj)
  exact hp.hsType.symm

theorem Finished.not_awaiting {draw : ServerDraw T} {rand : T.KemRand} {dhCs : Secret}
    {master : MasterSecret} {key : Secret} (h : Finished P c cfg x draw rand dhCs master key) :
    ¬ Awaiting x.client := by
  rintro ⟨asm, attempts, hstate⟩
  obtain ⟨frags, attempts', o, hstate'⟩ := h.state
  cases hstate.symm.trans hstate'

theorem Phase.fragment_down (h : Phase P src c cfg x) (hwait : Awaiting x.client)
    {pkt : WirePacket} (hmem : pkt ∈ x.down) : isHandshakeFragment pkt = true := by
  cases h with
  | idle _ _ hblank | assembling _ _ _ _ _ _ _ _ _ _ hblank =>
    rw [hblank.down] at hmem
    cases hmem
  | answered draw _ _ _ _ _ hdown =>
    obtain ⟨j, hj, rfl⟩ := hdown pkt hmem
    rw [isHandshakeFragment, hsTypeOf_m2Frag (length_m2For ..) hj]
    rfl
  | confirmed _ _ _ _ _ _ _ _ _ _ hfin | done _ _ _ _ _ _ _ _ _ hfin =>
    exact absurd hwait hfin.not_awaiting

theorem Meeting.exists_confirmed (h : Meeting P src c s) :
    ∃ x, Reached P src c s x ∧ ¬ Awaiting x.client := by
  obtain ⟨x, pkt, draw, -, -, -, hx, hm1, hm2, -⟩ := h.exists_inOrder
  obtain ⟨draw, rand, dhCs, master, key, -, hfin, -⟩ :=
    (Reached.phase h.setting h.start hx).2.late h.setting hm1 hm2
  exact ⟨_, hx, hfin.not_awaiting⟩

end PqTunnel.Exchange

namespace PqTunnel.ClientSessionManager
open Exchange

variable {T : CryptoTypes} {P : Primitives T} {src : SocketAddr} {c : ClientHandshake T}
  {s : ServerHandshake T} {m m' : ClientSessionManager T} {t : ℕ}

/-- The manager has adopted a session with this outcome and sent its first probe. -/
structure Adopted (P : Primitives T) (m : ClientSessionManager T) (sid : SessionId) (t : ℕ)
    (packets : List WirePacket) (outcome : HandshakeOutcome T) (session : WireSession)
    (probe : WirePacket) (m' : ClientSessionManager T) : Prop where
  sid : outcome.sessionId = sid
  new : WireSession.established P .client outcome = .ok session
  sent : session.encrypt P .handshake (Control.slot Control.probe) = (.ok probe, session.next)
  eq : m' = (m.adopting packets outcome session t).stored session (.ok probe, session.next)

/-- An outcome for an id that was never retired is adopted, and the first probe goes out. -/
theorem onM3Sent_adopted (hkdf : Kdf.HkdfTotal P) (haead : CipherSession.AeadTotal P)
    (hfree : m.session = none) (outcome : HandshakeOutcome T)
    (hsid : outcome.sessionId ∉ m.retiredSids) (hs : ClientHandshake T)
    (packets : List WirePacket) (t : ℕ) :
    ∃ session probe, Adopted P m outcome.sessionId t packets outcome session probe
      ((m.withMachine hs (.ok (.m3Sent packets outcome))).onM3Sent P packets outcome t).2 := by
  obtain ⟨session, hnew⟩ := WireSession.established_total hkdf .client outcome
  obtain ⟨probe, henc⟩ := WireSession.encrypt_next haead (WireSession.established_ok hnew).1
    (WireSession.established_not_exhausted hnew) .handshake (Control.length_slot Control.probe)
  have hfree' : ¬ (m.withMachine hs (.ok (.m3Sent packets outcome))).session.isSome := by
    simp [withMachine, hfree]
  have hsid' : ¬ outcome.sessionId ∈
      (m.withMachine hs (.ok (.m3Sent packets outcome))).retiredSids := hsid
  refine ⟨session, probe, rfl, hnew, henc, ?_⟩
  unfold onM3Sent
  rw [if_neg hfree', if_neg hsid', hnew]
  simp only [buildProbe, henc]
  rfl

/-- A machine that leaves the wait for M2 gives an outcome for its session id, and keeps the M3
fragments it gave with it. -/
theorem exists_outcome {hs hs' : ClientHandshake T} {pkt : WirePacket} {rand : T.KemRand}
    {r : Except (Fault HandshakeV2Error) (ClientEvent T)}
    (hok : ClientHandshake.Ok P (fun _ _ => True) hs)
    (hres : hs.handleDatagram P pkt rand = (r, hs')) (hwait : Awaiting hs)
    (hdone : ¬ Awaiting hs') :
    ∃ packets outcome, r = .ok (.m3Sent packets outcome) ∧ outcome.sessionId = hs.sid ∧
      hs'.state = .m3Sent packets 0 outcome ∧ hs'.cfg = hs.cfg ∧
      ∃ m3 : Bytes, m3.length = m3BodyLen ∧ packets = ClientHandshake.m3FragsOf hs m3 := by
  have hmove := ClientHandshake.handleDatagram_move hok pkt rand
  rw [hres] at hmove
  dsimp only at hmove
  cases hmove with
  | idle => exact absurd hwait hdone
  | stored | dropped | kdfFailed => exact absurd ⟨_, _, rfl⟩ hdone
  | finished =>
    exact ⟨_, _, rfl, rfl, rfl, rfl, _, ClientHandshake.length_m3For .., rfl⟩

def AllFrom (src : SocketAddr) (t : ℕ) (calls : List (Call T)) : Prop :=
  ∀ a ∈ calls, ∃ pkt rand, a = .datagram pkt src rand t

theorem AllFrom.snoc {calls : List (Call T)} (h : AllFrom src t calls) (pkt : WirePacket)
    (rand : T.KemRand) : AllFrom src t (calls ++ [.datagram pkt src rand t]) := by
  intro a ha
  rcases List.mem_append.mp ha with ha | ha
  · exact h a ha
  · exact ⟨pkt, rand, List.mem_singleton.mp ha⟩

/-- The manager once its machine, at some step of the exchange, has given its outcome. -/
def Concluded (P : Primitives T) (m : ClientSessionManager T) (c : ClientHandshake T) (t : ℕ)
    (m' : ClientSessionManager T) : Prop :=
  ∃ (d c' : ClientHandshake T) (packets : List WirePacket) (outcome : HandshakeOutcome T),
    m' = ((({ m with hs := some d } : ClientSessionManager T).withMachine c'
      (.ok (.m3Sent packets outcome))).onM3Sent P packets outcome t).2 ∧
    outcome.sessionId = c.sid ∧ d.cfg = c.cfg ∧ c'.state = .m3Sent packets 0 outcome ∧
    c'.cfg = c.cfg ∧
    ∃ m3 : Bytes, m3.length = m3BodyLen ∧ packets = ClientHandshake.m3FragsOf d m3

/-- Until the client has sent its M3, an exchange with the handshake machine is one with the
manager; and then the manager has the outcome. -/
theorem exists_lift (h : Meeting P src c s) (hget : m.hs = some c) (hwait : Awaiting c) (t : ℕ)
    {x : Exchange.State T} (hr : Reached P src c s x) :
    (Awaiting x.client → ∃ calls, AllFrom src t calls ∧
      run P m calls = { m with hs := some x.client }) ∧
    (¬ Awaiting x.client → ∃ calls, AllFrom src t calls ∧
      Concluded P m c t (run P m calls)) := by
  refine hr.invariant (I := fun x =>
    (Awaiting x.client → ∃ calls, AllFrom src t calls ∧
      run P m calls = { m with hs := some x.client }) ∧
    (¬ Awaiting x.client → ∃ calls, AllFrom src t calls ∧
      Concluded P m c t (run P m calls))) ?_ ?_
  · rintro x rfl
    refine ⟨fun _ => ⟨[], nofun, ?_⟩, fun hnot => absurd hwait hnot⟩
    change m = { m with hs := some c }
    rw [← hget]
  · intro x _ x' hx ih hstep
    obtain ⟨hbase, hphase⟩ := Reached.phase h.setting h.start hx
    cases hstep with
    | up pkt clock draw => exact ih
    | down pkt rand hmem =>
      have hclient : (x.deliverDown P pkt rand).client =
          (x.client.handleDatagram P pkt rand).2 := rfl
      rw [hclient]
      cases hres : x.client.handleDatagram P pkt rand with
      | mk r c' =>
        have hframe := MachineStep.frame (Or.inl ⟨pkt, rand, hres⟩) hbase.clientOk
        by_cases hwait' : Awaiting x.client
        · obtain ⟨calls, hall, hrun⟩ := ih.1 hwait'
          have hcall : run P m (calls ++ [.datagram pkt src rand t]) =
              (call P { m with hs := some x.client } (.datagram pkt src rand t)).2 := by
            rw [run_snoc, hrun]
          simp only [call, handleDatagram, hphase.fragment_down hwait' hmem, if_true, hres] at hcall
          refine ⟨fun hmore => ⟨_, hall.snoc pkt rand, ?_⟩,
            fun hdone => ⟨_, hall.snoc pkt rand, ?_⟩⟩
          · rw [hcall]
            cases r with
            | error e => simp [withMachine]
            | ok ev =>
              cases ev with
              | m3Sent packets outcome =>
                exact absurd hmore (hframe.outcome packets outcome rfl).2.2
              | _ => simp [withMachine]
          · obtain ⟨packets, outcome, rfl, hout, hstate, hcfg, hm3⟩ :=
              exists_outcome hbase.clientOk hres hwait' hdone
            obtain ⟨st, hst⟩ := hbase.client
            have hsid : x.client.sid = c.sid := by rw [hst]
            have hccfg : x.client.cfg = c.cfg := by rw [hst]
            exact ⟨x.client, c', packets, outcome, hcall, hout.trans hsid, hccfg, hstate,
              hcfg.trans hccfg, hm3⟩
        · exact ⟨fun hmore => absurd (hframe.back hmore) hwait', fun _ => ih.2 hwait'⟩

theorem exists_concluded (h : Meeting P src c s) (hget : m.hs = some c) (hwait : Awaiting c)
    (t : ℕ) : ∃ calls, AllFrom src t calls ∧ Concluded P m c t (run P m calls) := by
  obtain ⟨x, hx, hdone⟩ := h.exists_confirmed
  exact (exists_lift h hget hwait t hx).2 hdone

theorem exists_adopted (h : Meeting P src c s) (hkdf : Kdf.HkdfTotal P)
    (haead : CipherSession.AeadTotal P) (hget : m.hs = some c) (hwait : Awaiting c)
    (hfree : m.session = none) (hsid : c.sid ∉ m.retiredSids) (t : ℕ) :
    ∃ calls packets outcome session probe, AllFrom src t calls ∧
      Adopted P m c.sid t packets outcome session probe (run P m calls) := by
  obtain ⟨calls, hall, d, c', packets, outcome, hrun, hout, -⟩ := exists_concluded h hget hwait t
  obtain ⟨session, probe, h⟩ := onM3Sent_adopted (m := { m with hs := some d }) hkdf haead hfree
    outcome (hout ▸ hsid) c' packets t
  exact ⟨calls, packets, outcome, session, probe, hall, hout, h.new, h.sent, hrun.trans h.eq⟩

section Sample

def sampleClient (limits : SessionLimits) : ClientSessionManager Sample.types where
  cfg := sampleClientConfig
  limits := limits
  hs := none
  session := none
  ready := false
  peer := sampleAddr
  hsStarted := none
  preparedAt := none
  m3Frags := []
  m3Attempts := 0
  m3Exhausted := false
  nextProbeAt := none
  roundsUnanswered := 0
  lastSlotAt := none
  outQueue := []
  droppedOutbound := 0
  usedSids := []
  usedOrder := []
  retiredSids := []
  retiredOrder := []
  rearmRequested := false
  pendingClosed := []
  pendingCloses := []
  encrypted := []
  begun := 0
  outcomes := []

theorem new_sampleClient {limits : SessionLimits} (h : limits.validate = .ok ()) :
    new sampleClientConfig limits = .ok (sampleClient limits) := by
  rw [new, if_neg (by decide), h]
  rfl

def sampleBegin (t : ℕ) : Call Sample.types :=
  .beginHandshake (List.Vector.replicate 8 (.ok sampleSid)) (.ok (3 : UInt8)) (4 : UInt8) t

def sampleBegun (limits : SessionLimits) (t : ℕ) (c : ClientHandshake Sample.types) :
    ClientSessionManager Sample.types :=
  { sampleClient limits with
    hs := some c, hsStarted := some t, usedSids := [sampleSid], usedOrder := [sampleSid]
    begun := 1 }

theorem exists_sample_begun (limits : SessionLimits) (t : ℕ) :
    ∃ c, call Sample.primitives (sampleClient limits) (sampleBegin t) =
        ([.send c.m1Frags sampleAddr], sampleBegun limits t c) ∧
      c.sid = sampleSid ∧ Awaiting c ∧ Meeting Sample.primitives sampleAddr c sampleServer := by
  obtain ⟨c, hnew⟩ := exists_sampleHandshake sampleSid
  obtain ⟨-, -, hsid, -, -, asm, hstate, -⟩ := ClientHandshake.new_ok hnew fun _ _ => True
  refine ⟨c, ?_, hsid, ⟨asm, 0, hstate⟩, sample_meeting hnew rfl fun _ => Table.get_empty _⟩
  have hmachine : newHandshake Sample.primitives
      { sampleClient limits with usedSids := [sampleSid], usedOrder := [sampleSid] } sampleSid
      (.ok (3 : UInt8)) (4 : UInt8) = .ok c := hnew
  have hfresh : (sampleClient limits).freshSid
      (List.Vector.replicate 8 (Except.ok sampleSid)).toList = (.ok sampleSid,
        { sampleClient limits with usedSids := [sampleSid], usedOrder := [sampleSid] }) := rfl
  have hidle : ¬ ((sampleClient limits).hs.isSome || (sampleClient limits).session.isSome) := by
    simp [sampleClient]
  simp only [call, sampleBegin, beginHandshake]
  rw [if_neg hidle, hfresh]
  simp only [hmachine]
  rfl

theorem exists_sample_adopted (limits : SessionLimits) (t : ℕ) :
    ∃ calls packets outcome session probe, AllFrom sampleAddr t calls ∧
      Adopted Sample.primitives
        { sampleClient limits with usedSids := [sampleSid], usedOrder := [sampleSid], begun := 1 }
        sampleSid t packets outcome session probe
        (run Sample.primitives (sampleClient limits) (sampleBegin t :: calls)) := by
  obtain ⟨c, hbegun, hsid, hwait, hmeet⟩ := exists_sample_begun limits t
  obtain ⟨calls, packets, outcome, session, probe, hall, h⟩ := exists_adopted
    (m := sampleBegun limits t c) hmeet Sample.hkdfTotal CipherSession.sample_aeadTotal
    rfl hwait rfl (by simp [sampleBegun, sampleClient]) t
  refine ⟨calls, packets, outcome, session, probe, hall, h.sid.trans hsid, h.new, h.sent, ?_⟩
  rw [run, List.foldl_cons, hbegun]
  exact h.eq

end Sample

end PqTunnel.ClientSessionManager
