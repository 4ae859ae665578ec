import PqTunnel.Manager.ServerInvariant

/-! An honest client's handshake inside the server manager, up to its Established event. -/
namespace PqTunnel.Exchange
open ServerHandshake

variable {T : CryptoTypes} {P : Primitives T} {src : SocketAddr} {c : ClientHandshake T}
  {cfg : ServerConfig T} {s : ServerHandshake T} {x : State T}

theorem Phase.parsed (h : Phase P src c cfg x) {pkt : WirePacket} (hmem : pkt ∈ x.up) :
    isHandshakeFragment pkt = true ∧
      ∃ frag, HandshakeFragment.fromDatagram pkt = .ok frag ∧ frag.sid = c.sid := by
  have hm1 : (∃ i < m1FragCount.toNat, pkt = m1Frag P c i) → isHandshakeFragment pkt = true ∧
      ∃ frag, HandshakeFragment.fromDatagram pkt = .ok frag ∧ frag.sid = c.sid := by
    rintro ⟨i, hi, rfl⟩
    refine ⟨?_, _, parse_m1 hi, rfl⟩
    rw [isHandshakeFragment, hsTypeOf_m1Frag hi]
    rfl
  have hm3 : ∀ {draw rand dhCs master key}, Finished P c cfg x draw rand dhCs master key →
      isHandshakeFragment pkt = true ∧
        ∃ frag, HandshakeFragment.fromDatagram pkt = .ok frag ∧ frag.sid = c.sid := by
    intro draw rand dhCs master key hfin
    rcases hfin.up pkt hmem with h | rfl
    · exact hm1 h
    · have hlen := ClientHandshake.length_m3For (P := P) c (answerOf P c cfg draw) rand
        (honestM2 P cfg c draw) key
      refine ⟨?_, _, parse_m3 hlen, rfl⟩
      rw [isHandshakeFragment, hsTypeOf_m3Frag hlen]
      rfl
  cases h with
  | idle _ _ hblank | assembling _ _ _ _ _ _ _ _ _ _ hblank => exact hm1 (hblank.up pkt hmem)
  | answered _ _ _ _ _ hwait => exact hm1 (hwait.up pkt hmem)
  | confirmed _ _ _ _ _ _ _ _ _ _ hfin | done _ _ _ _ _ _ _ _ _ hfin => exact hm3 hfin

/-- The exchange opens no entry but the client's own. -/
theorem Reached.others (hset : Setting P c s.cfg)
    (hstart : Base P c s.cfg (start c s) ∧ Phase P src c s.cfg (start c s))
    (hempty : ∀ sid, s.pending.get sid = none) (hr : Reached P src c s x) :
    ∀ sid ≠ c.sid, x.server.pending.get sid = none := by
  refine hr.invariant (I := fun x => ∀ sid ≠ c.sid, x.server.pending.get sid = none)
    (fun x hx sid _ => hx ▸ hempty sid) ?_
  intro x _ x' hr ih hstep sid hsid
  obtain ⟨hbase, hphase⟩ := Reached.phase hset hstart hr
  cases hstep with
  | down => exact ih sid hsid
  | up pkt clock draw hmem =>
    obtain ⟨-, frag, hfrag, hfsid⟩ := hphase.parsed hmem
    cases hget : (x.deliverUp P pkt src clock draw).server.pending.get sid with
    | none => rfl
    | some e =>
      have hsame : ∀ frag', HandshakeFragment.fromDatagram pkt = .ok frag' → frag'.sid = sid →
          False := by
        intro frag' hfrag' heq
        obtain rfl := Except.ok.inj (hfrag.symm.trans hfrag')
        exact hsid (heq.symm.trans hfsid)
      cases (handleDatagram_does (P := P) hbase.ok pkt src clock draw).1.entryStep hget with
      | kept _ hkept => exact absurd hkept (by rw [ih sid hsid]; exact nofun)
      | opened frag asm hparsed htype hsid' => exact (hsame _ hparsed hsid').elim
      | stored frag entry asm lastSeen hsid' hto
      | answered frag entry asm m1 client dhCs hsid' hto | resent frag entry hsid' hto =>
        exact (hsame _ hto.parsed hsid').elim

/-- One more datagram of the client completes the handshake and leaves the machine ready. -/
theorem Meeting.exists_completing (h : Meeting P src c s) :
    ∃ x pkt draw o s', Reached P src c s x ∧ x.completed = [] ∧
      isHandshakeFragment pkt = true ∧
      x.server.handleDatagram P pkt src still draw = (.ok (.complete o), s') ∧
      o.sessionId = c.sid ∧ Ready s' ∧ s'.cfg = s.cfg := by
  obtain ⟨x, pkt, draw, o, hx, hnone, hmem, hcomp, hsid⟩ := h.exists_last
  obtain ⟨hset, hready, hstart, -, -⟩ := h
  obtain ⟨hbase, hphase⟩ := Reached.phase hset hstart hx
  obtain ⟨hmove, hcfg⟩ := handleDatagram_does (P := P) hbase.ok pkt src still draw
  have hothers := Reached.others hset hstart hready.empty hx
  cases hres : x.server.handleDatagram P pkt src still draw with
  | mk r s' =>
    rw [hres] at hcomp hmove hcfg
    obtain rfl : r = .ok (.complete o) := hcomp
    obtain ⟨frag, -, -, -, -, -, -, -, -, -, hfsid, htable⟩ := hmove.of_complete
    have hcfg' : s'.cfg = s.cfg := hcfg.trans hbase.cfg
    refine ⟨x, pkt, draw, o, s', hx, hnone, (hphase.parsed hmem).1, hres, hsid, ?_, hcfg'⟩
    refine ⟨hcfg'.symm ▸ hready.idle, hcfg'.symm ▸ hready.room, fun sid => ?_⟩
    cases hget : s'.pending.get sid with
    | none => rfl
    | some e =>
      rw [show s'.pending = _ from htable] at hget
      obtain ⟨hne', hlive⟩ := Table.get_of_remove hget
      rw [← hfsid, hsid] at hne'
      have hold := hothers sid hne'
      rw [get_of_live hlive] at hold
      cases hold

end PqTunnel.Exchange

namespace PqTunnel.ServerSessionManager
open Transition Exchange

variable {T : CryptoTypes} {P : Primitives T} {src : SocketAddr} {c : ClientHandshake T}
  {m : ServerSessionManager T}

/-- The call is no cover batch; it neither reports nor queues anything about the lifecycle of
sessions. -/
structure Quiet (P : Primitives T) (m : ServerSessionManager T) (a : Call T) : Prop where
  silent : ∀ ev ∈ (call P m a).1, ev.notice = none
  queue : (call P m a).2.pendingClosed = m.pendingClosed
  noBatch : ∀ fills, a ≠ .coverPacketAll fills

def FromPeer (src : SocketAddr) (a : Call T) : Prop :=
  ∃ pkt clock draw, a = .datagram pkt src clock 0 draw []

/-- Until it completes, an exchange with the handshake machine is one with the manager. -/
theorem exists_lift (h : Meeting P src c m.hs) {x : Exchange.State T}
    (hr : Reached P src c m.hs x) (hnone : x.completed = []) :
    ∃ calls, (∀ a ∈ calls, FromPeer src a) ∧
      Along (fun m a => (call P m a).2) (Quiet P) m calls ∧
      run P m calls = { m with hs := x.server } := by
  refine hr.invariant (I := fun x => x.completed = [] → ∃ calls, (∀ a ∈ calls, FromPeer src a) ∧
    Along (fun m a => (call P m a).2) (Quiet P) m calls ∧
      run P m calls = { m with hs := x.server }) ?_ ?_ hnone
  · rintro x rfl -
    exact ⟨[], by simp, trivial, rfl⟩
  · intro x _ x' hx ih hstep hnone
    obtain ⟨hbase, hphase⟩ := Reached.phase h.setting h.start hx
    cases hstep with
    | down => exact ih hnone
    | up pkt clock draw hmem =>
      obtain ⟨hbefore, hquiet⟩ := List.append_eq_nil_iff.mp hnone
      obtain ⟨calls, hfrom, halong, hrun⟩ := ih hbefore
      have hcall : (∀ ev ∈ (call P { m with hs := x.server } (.datagram pkt src clock 0 draw [])).1,
            ev.notice = none) ∧
          (call P { m with hs := x.server } (.datagram pkt src clock 0 draw [])).2 =
            { m with hs := (x.server.handleDatagram P pkt src clock draw).2 } := by
        simp only [call, handleDatagram, (hphase.parsed hmem).1, if_true]
        cases hres : x.server.handleDatagram P pkt src clock draw with
        | mk r s' =>
          rw [hres] at hquiet
          cases r with
          | error e => cases e <;> exact ⟨by simp [returned, liftHandshake], rfl⟩
          | ok ev =>
            cases ev with
            | emit packets peer => exact ⟨by simp [returned, ManagerEvent.toList,
                ManagerEvent.notice], rfl⟩
            | complete o => cases hquiet
            | none => exact ⟨by simp [returned, ManagerEvent.toList], rfl⟩
      refine ⟨calls ++ [.datagram pkt src clock 0 draw []], ?_, ?_, ?_⟩
      · intro a ha
        rcases List.mem_append.mp ha with ha | ha
        · exact hfrom a ha
        · exact ⟨pkt, clock, draw, List.mem_singleton.mp ha⟩
      · rw [along_append]
        refine ⟨halong, ?_, trivial⟩
        change Quiet P (run P m calls) _
        rw [hrun]
        exact ⟨hcall.1, by rw [hcall.2], by simp⟩
      · rw [run_snoc, hrun]
        exact hcall.2

/-- The last datagram of the exchange, in the state that the quiet calls before it leave. The
manager `room` is the one that has made room for the session. -/
structure Establishing (P : Primitives T) (m : ServerSessionManager T) (sid : SessionId)
    (src : SocketAddr) (before : List (Call T)) (last : Call T) (hs₀ hs : ServerHandshake T)
    (session : WireSession) (room : ServerSessionManager T) : Prop where
  quiet : Along (fun m a => (call P m a).2) (Quiet P) m before
  reached : run P m before = { m with hs := hs₀ }
  completes : call P { m with hs := hs₀ } last =
    ([.established sid src], room.putSession sid ⟨session, src, 0, 0⟩)
  noBatch : ∀ fills, last ≠ .coverPacketAll fills
  fromPeer : ∀ a ∈ before ++ [last], FromPeer src a
  ready : Ready hs
  cfg : hs.cfg = m.hs.cfg
  state : session.state = .established
  counter : session.cipher.sendCounter = 0

theorem exists_admitting (hkdf : Kdf.HkdfTotal P) (h : Meeting P src c m.hs)
    (hnone : m.sessions.get c.sid = none) :
    ∃ before last hs₀ hs session, Establishing P m c.sid src before last hs₀ hs session
      (evictAtCapacity { m with hs } []) := by
  obtain ⟨x, pkt, draw, o, hs, hr, hcomp, hfrag, hres, hsid, hready, hcfg⟩ := h.exists_completing
  obtain ⟨before, hfrom, halong, hrun⟩ := exists_lift h hr hcomp
  obtain ⟨session, hnew⟩ := WireSession.established_total hkdf .server o
  obtain ⟨hstate, -, hcipher⟩ := WireSession.established_ok hnew
  refine ⟨before, .datagram pkt src still 0 draw [], x.server, hs, session, halong, hrun, ?_,
    nofun, ?_, hready, hcfg, hstate, ?_⟩
  · rw [← hsid] at hnone ⊢
    simp only [call, handleDatagram, hfrag, if_true, hres, onHandshakeComplete, hnone, hnew]
    rfl
  · intro a ha
    rcases List.mem_append.mp ha with ha | ha
    · exact hfrom a ha
    · exact ⟨pkt, still, draw, List.mem_singleton.mp ha⟩
  · obtain ⟨_, _, _, _, -, -, -, -, heq⟩ := CipherSession.new_ok hcipher
    rw [heq]

theorem Establishing.run_eq {sid : SessionId} {before : List (Call T)} {last : Call T}
    {hs₀ hs : ServerHandshake T} {session : WireSession} {room : ServerSessionManager T}
    (h : Establishing P m sid src before last hs₀ hs session room) :
    run P m (before ++ [last]) = room.putSession sid ⟨session, src, 0, 0⟩ := by
  rw [run_snoc, h.reached, h.completes]

section Sample

def sampleManager : ServerSessionManager Sample.types where
  limits := {}
  hs := sampleServer
  sessions := Table.empty
  failGate := FailGate.new 0
  pendingClosed := []
  pendingCloses := []
  encrypted := []

theorem new_sampleManager : new sampleServerConfig {} 0 0 = .ok sampleManager := rfl

theorem exists_sample_admitting {m : ServerSessionManager Sample.types} (sid : SessionId)
    (hcfg : m.hs.cfg = sampleServerConfig) (hempty : ∀ sid, m.hs.pending.get sid = none)
    (hnone : m.sessions.get sid = none) (kemSk xSk : UInt8) :
    ∃ before last hs₀ hs session,
      Establishing Sample.primitives m sid sampleAddr before last hs₀ hs session
        (evictAtCapacity { m with hs } []) := by
  obtain ⟨c, hnew⟩ : ∃ c, ClientHandshake.new Sample.primitives sampleClientConfig sid kemSk xSk =
      .ok c := ClientHandshake.new_exists _ _ _ _ rfl
  obtain ⟨-, -, rfl, -⟩ := ClientHandshake.new_ok hnew fun _ _ => True
  exact exists_admitting Sample.hkdfTotal (sample_meeting hnew hcfg hempty) hnone

theorem exists_sample_establishing {m : ServerSessionManager Sample.types} (sid : SessionId)
    (hcfg : m.hs.cfg = sampleServerConfig) (hempty : ∀ sid, m.hs.pending.get sid = none)
    (hnone : m.sessions.get sid = none)
    (hroom : m.sessions.size < m.limits.maxSessions) (kemSk xSk : UInt8) :
    ∃ before last hs₀ hs session,
      Establishing Sample.primitives m sid sampleAddr before last hs₀ hs session { m with hs } := by
  obtain ⟨before, last, hs₀, hs, session, h⟩ :=
    exists_sample_admitting sid hcfg hempty hnone kemSk xSk
  rw [evictAtCapacity, if_neg (not_le.mpr hroom)] at h
  exact ⟨before, last, hs₀, hs, session, h⟩

end Sample

end PqTunnel.ServerSessionManager
