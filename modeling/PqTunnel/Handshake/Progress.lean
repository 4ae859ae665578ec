import PqTunnel.Handshake.ClientSteps
import PqTunnel.Handshake.ServerSteps

/-! What the two machines do when nothing is in their way: no expiry, room in the table and a
rate limiter that lets the datagram through. -/
namespace PqTunnel.ServerHandshake

variable {T : CryptoTypes} {P : Primitives T} {s : ServerHandshake T} {pkt : WirePacket}
  {src : SocketAddr} {clock : Clock} {frag : HandshakeFragment}

structure Calm (s : ServerHandshake T) (pkt : WirePacket) (src : SocketAddr) (clock : Clock) :
    Prop where
  fresh : ∀ e, s.pending.get pkt.sid = some e → clock.evict - e.lastSeen < s.cfg.pendingTtl
  room : s.pending.get pkt.sid = none → s.pending.size < s.cfg.maxPending
  rate : (s.rateOk src clock.rate).1 = true

theorem pruneRate_withPending (s : ServerHandshake T) (t : Table SessionId (PendingSession T))
    (now : ℕ) : ({ s with pending := t } : ServerHandshake T).pruneRate now =
      { s.pruneRate now with pending := t } := by
  unfold pruneRate
  dsimp only
  split_ifs <;> rfl

theorem rateOk_withPending (s : ServerHandshake T) (t : Table SessionId (PendingSession T))
    (src : SocketAddr) (now : ℕ) :
    ({ s with pending := t } : ServerHandshake T).rateOk src now =
      ((s.rateOk src now).1, { (s.rateOk src now).2 with pending := t }) := by
  simp only [rateOk, pruneRate_withPending]
  split
  · split_ifs <;> rfl
  · rfl

theorem Calm.rateOk_eq (h : Calm s pkt src clock) (t : Table SessionId (PendingSession T)) :
    ∃ s', ({ s with pending := t } : ServerHandshake T).rateOk src clock.rate = (true, s') ∧
      s'.pending = t ∧ s'.cfg = s.cfg ∧
        s'.rateBuckets = (s.rateOk src clock.rate).2.rateBuckets := by
  refine ⟨{ (s.rateOk src clock.rate).2 with pending := t }, ?_, rfl, ?_, rfl⟩
  · rw [rateOk_withPending, h.rate]
  · exact (rateOk_frame s src clock.rate).2

theorem Calm.live_get (h : Calm s pkt src clock) (hsid : frag.sid = pkt.sid) :
    (s.live clock).get frag.sid = s.pending.get frag.sid := by
  rw [live, evictExpired, Table.get_retain, hsid]
  cases hget : s.pending.get pkt.sid with
  | none => rfl
  | some e =>
    rw [Option.filter_some, if_pos]
    exact decide_eq_true (h.fresh e hget)

theorem handle_open (draw : ServerDraw T) (hcalm : Calm s pkt src clock)
    (hparsed : HandshakeFragment.fromDatagram pkt = .ok frag)
    (htype : frag.hsType = hsTypeClientHello) (hidx : frag.fragIdx = 0)
    (hnone : s.pending.get frag.sid = none) {asm : FragmentAssembler}
    (hnew : FragmentAssembler.new hsTypeClientHello = some asm) :
    ∃ s', s.handleDatagram P pkt src clock draw = (.ok .none, s') ∧
      s'.pending.get frag.sid = some (PendingSession.new src clock.touch (asm.store frag)) ∧
      s'.cfg = s.cfg ∧ s'.rateBuckets = (s.rateOk src clock.rate).2.rateBuckets := by
  obtain ⟨len, hp⟩ := fromDatagram_ok hparsed
  obtain ⟨asm', hnew', hholds, hfresh⟩ := FragmentAssembler.new_holds layout_m1 fun _ _ => True
  obtain rfl : asm = asm' := Option.mem_unique hnew hnew'
  have hadd := FragmentAssembler.addFragment_stored hholds hp (hholds.awaits hp htype (hfresh _))
  have hlive : (s.evictExpired clock.evict).pending.get frag.sid = none :=
    (hcalm.live_get hp.sid).trans hnone
  obtain ⟨s', hrate, hpend, hcfg, hbuckets⟩ := hcalm.rateOk_eq (s.live clock)
  have hroom : ¬ s'.cfg.maxPending ≤ s'.pending.size := by
    have hsize : (s.live clock).size ≤ s.pending.size := Table.size_retain_le ..
    have := hcalm.room (hp.sid ▸ hnone)
    rw [hpend, hcfg]
    omega
  replace hrate : (s.evictExpired clock.evict).rateOk src clock.rate = (true, s') := hrate
  refine ⟨s'.putPending frag.sid (PendingSession.new src clock.touch (asm.store frag)), ?_,
    Table.get_put_self .., hcfg, hbuckets⟩
  rw [handleDatagram, if_pos (hp.hsType.symm.trans htype)]
  simp only [onM1Fragment, hparsed, hlive, openEntry, hidx, ne_eq, not_true_eq_false, if_false,
    hrate, hroom, hnew, hadd]

theorem handle_early (draw : ServerDraw T) (hcalm : Calm s pkt src clock)
    (hparsed : HandshakeFragment.fromDatagram pkt = .ok frag)
    (htype : frag.hsType = hsTypeClientHello) (hidx : frag.fragIdx ≠ 0)
    (hnone : s.pending.get frag.sid = none) :
    ∃ s', s.handleDatagram P pkt src clock draw = (.ok .none, s') ∧
      s'.pending.get frag.sid = none := by
  obtain ⟨len, hp⟩ := fromDatagram_ok hparsed
  have hlive : (s.evictExpired clock.evict).pending.get frag.sid = none :=
    (hcalm.live_get hp.sid).trans hnone
  refine ⟨s.evictExpired clock.evict, ?_, hlive⟩
  rw [handleDatagram, if_pos (hp.hsType.symm.trans htype)]
  simp only [onM1Fragment, hparsed, hlive, openEntry, ne_eq, hidx, not_false_eq_true, if_true]

section Assembling

variable {entry : PendingSession T} {asm : FragmentAssembler} {Q : ℕ → Bytes → Prop}

theorem Calm.addressed (h : Calm s pkt src clock) {hsType : UInt8}
    (hparsed : HandshakeFragment.fromDatagram pkt = .ok frag) (htype : frag.hsType = hsType)
    (hget : s.pending.get frag.sid = some entry) (hsrc : entry.source = src) :
    Addressed s pkt src clock hsType frag entry := by
  obtain ⟨len, hp⟩ := fromDatagram_ok hparsed
  exact ⟨hparsed, htype, (h.live_get hp.sid).trans hget, hsrc⟩

/-- How an M1 fragment reaches the entry its source opened. -/
theorem handleDatagram_addressed (draw : ServerDraw T)
    (hto : Addressed s pkt src clock hsTypeClientHello frag entry) {r : ServerStep T}
    (h : entry.state = .awaitM1 →
      (s.evictExpired clock.evict).onAwaitM1 P frag entry src clock draw = r)
    (h' : entry.state = .awaitM3 →
      (s.evictExpired clock.evict).resendM2 frag entry src clock = r) :
    s.handleDatagram P pkt src clock draw = r := by
  obtain ⟨len, hp⟩ := fromDatagram_ok hto.parsed
  have hlive : (s.evictExpired clock.evict).pending.get frag.sid = some entry := hto.found
  rw [handleDatagram, if_pos (hp.hsType.symm.trans hto.hsType)]
  simp only [onM1Fragment, hto.parsed, hlive, hto.source, ne_eq, not_true_eq_false, if_false]
  cases hstate : entry.state with
  | awaitM1 => exact h hstate
  | awaitM3 => exact h' hstate

theorem handleDatagram_awaitM1 (draw : ServerDraw T)
    (hto : Addressed s pkt src clock hsTypeClientHello frag entry)
    (hstate : entry.state = .awaitM1) : s.handleDatagram P pkt src clock draw =
      (s.evictExpired clock.evict).onAwaitM1 P frag entry src clock draw :=
  handleDatagram_addressed draw hto (fun _ => rfl) (by simp [hstate])

section AwaitM1

variable (draw : ServerDraw T) (hto : Addressed s pkt src clock hsTypeClientHello frag entry)
  (hstate : entry.state = .awaitM1) (hasm : entry.assembler = some asm)
include hto hstate hasm

theorem handle_repeat (hw : ¬ asm.Awaits frag) :
    ∃ s', s.handleDatagram P pkt src clock draw = (.ok .none, s') ∧
      s'.pending.get frag.sid = some entry := by
  refine ⟨s.evictExpired clock.evict, ?_, hto.found⟩
  rw [handleDatagram_awaitM1 draw hto hstate]
  simp only [onAwaitM1, hasm, FragmentAssembler.addFragment_ignored hw]

variable (hholds : asm.Holds hsTypeClientHello m1FragCount m1BodyLen Q) (hw : asm.Awaits frag)
include hholds hw

theorem handle_store (hmore : (asm.store frag).complete = false) :
    ∃ s', s.handleDatagram P pkt src clock draw = (.ok .none, s') ∧
      s'.pending.get frag.sid =
        some { entry with assembler := some (asm.store frag), lastSeen := clock.touch } := by
  obtain ⟨len, hp⟩ := fromDatagram_ok hto.parsed
  refine ⟨(s.evictExpired clock.evict).putPending frag.sid
    { entry with assembler := some (asm.store frag), lastSeen := clock.touch }, ?_,
    Table.get_put_self ..⟩
  rw [handleDatagram_awaitM1 draw hto hstate]
  simp only [onAwaitM1, hasm, FragmentAssembler.addFragment_stored hholds hp hw, hmore,
    Bool.false_eq_true, if_false]

theorem handle_answer (hcalm : Calm s pkt src clock) (hdone : (asm.store frag).complete = true)
    (hlen : (asm.store frag).buffer.length = m1BodyLen) {m1 : ClientHello T} {client : T.SigPk}
    {dhCs : Secret} (hans : Answered P s.cfg frag.sid (asm.store frag).buffer draw m1 client dhCs) :
    ∃ m1 client dhCs s',
      Answered P s.cfg frag.sid (asm.store frag).buffer draw m1 client dhCs ∧
      s.handleDatagram P pkt src clock draw =
        (.ok (.emit (m2Frags s.cfg.version frag.sid
          (m2For P s.cfg frag.sid m1 (asm.store frag).buffer draw)) src), s') ∧
      ∃ entry', s'.pending.get frag.sid = some (answeredEntry P s.cfg frag.sid entry'
        (asm.store frag).buffer draw m1 client dhCs clock.touch) ∧ entry'.source = src := by
  obtain ⟨len, hp⟩ := fromDatagram_ok hto.parsed
  obtain ⟨s', hrate, hpend, hcfg, -⟩ := hcalm.rateOk_eq ((s.live clock).put frag.sid
    { entry with assembler := some (asm.store frag) })
  replace hrate : ((s.evictExpired clock.evict).putPending frag.sid
      { entry with assembler := some (asm.store frag) }).rateOk src clock.rate = (true, s') := hrate
  have hget' : s'.pending.get frag.sid = some { entry with assembler := some (asm.store frag) } := by
    rw [hpend]
    exact Table.get_put_self ..
  rw [handleDatagram_awaitM1 draw hto hstate]
  simp only [onAwaitM1, hasm, FragmentAssembler.addFragment_stored hholds hp hw, hdone, if_true,
    hrate, FragmentAssembler.message]
  rcases completeM1_cases (P := P) hget' hlen src clock.touch draw with
    ⟨-, hbad⟩ | ⟨m1', client', dhCs', hans', heq⟩
  · rw [hcfg] at hbad
    exact absurd hans (hbad m1 client dhCs)
  · rw [hcfg] at hans' heq
    exact ⟨m1', client', dhCs', _, hans', heq, _, Table.get_put_self .., hto.source⟩

end AwaitM1

/-- Once answered, fragment 0 brings the same M2 again and the others change nothing. -/
theorem handle_resend (draw : ServerDraw T) (hcalm : Calm s pkt src clock)
    (hto : Addressed s pkt src clock hsTypeClientHello frag entry) (hentry : AwaitingM3 entry)
    {m2 : Bytes} (hm2 : entry.m2Cache = some m2) :
    ∃ s' pkts lastSeen,
      ((s.handleDatagram P pkt src clock draw = (.ok .none, s') ∧ pkts = []) ∨
        (s.handleDatagram P pkt src clock draw = (.ok (.emit pkts src), s') ∧
          pkts = m2Frags s.cfg.version frag.sid m2)) ∧
      s'.pending.get frag.sid = some { entry with lastSeen := lastSeen } := by
  obtain ⟨m2', hm2', hlen⟩ := hentry.m2Cache
  obtain rfl : m2 = m2' := Option.mem_unique hm2 hm2'
  obtain ⟨s', hrate, hpend, hcfg, -⟩ := hcalm.rateOk_eq (s.live clock)
  replace hrate : (s.evictExpired clock.evict).rateOk src clock.rate = (true, s') := hrate
  have hres : s.handleDatagram P pkt src clock draw =
      (s.evictExpired clock.evict).resendM2 frag entry src clock :=
    handleDatagram_addressed draw hto (by simp [hentry.state]) (fun _ => rfl)
  rw [hres, resendM2]
  split
  · rename_i hnone
    cases hm2.symm.trans hnone
  · rename_i body hbody
    obtain rfl : m2 = body := Option.mem_unique hm2 hbody
    split
    · exact ⟨_, [], entry.lastSeen, Or.inl ⟨rfl, rfl⟩, hto.found⟩
    · refine ⟨s'.putPending frag.sid { entry with lastSeen := clock.touch }, _, clock.touch,
        Or.inr ⟨?_, rfl⟩, Table.get_put_self ..⟩
      simp only [hrate, fragmentMessage_m2 _ _ hlen, putPending, hcfg, hto.source]

/-- A confirmed M3 of a peer on the roster completes the handshake. -/
theorem handle_confirm (draw : ServerDraw T) (hcalm : Calm s pkt src clock)
    (hto : Addressed s pkt src clock hsTypeClientConfirm frag entry) (hentry : AwaitingM3 entry)
    {m3 : ClientConfirm} {skS : T.KemSk} {m1 m2 : Bytes} {master : MasterSecret} {key : Secret}
    {peer : T.SigPk} (hconf : Confirmed P s.cfg frag entry m3 skS m1 m2 master key peer)
    (hroster : s.rosterContains P peer = true) :
    ∃ s', s.handleDatagram P pkt src clock draw =
        (.ok (.complete { master, sessionId := frag.sid, peerIdentity := peer
                          handshakeDuration := clock.touch - entry.started }), s') ∧
      s'.pending.get frag.sid = none := by
  obtain ⟨len, hp⟩ := fromDatagram_ok hto.parsed
  have hlive : (s.evictExpired clock.evict).pending.get frag.sid = some entry := hto.found
  obtain ⟨s', hrate, hpend, hcfg, -⟩ := hcalm.rateOk_eq (s.live clock)
  replace hrate : (s.evictExpired clock.evict).rateOk src clock.rate = (true, s') := hrate
  have hroster' : s'.rosterContains P peer = true := by
    rw [← hroster]
    simp only [rosterContains, hcfg]
  obtain ⟨m1', hm1, hlen1⟩ := hentry.m1Body
  obtain rfl : m1 = m1' := Option.mem_unique hconf.m1Body hm1
  obtain ⟨m2', hm2, hlen2⟩ := hentry.m2Cache
  obtain rfl : m2 = m2' := Option.mem_unique hconf.m2Cache hm2
  have hth3 := th3FromM1M2M3_eq (P := P) hlen1 hlen2 (ClientConfirm.decode_ok hconf.decoded).len
  have hver : ¬ (m3.version ≠ s'.cfg.version ∨ m3.sid ≠ frag.sid) := by
    rw [hcfg]
    exact not_or.mpr ⟨not_not_intro hconf.version, not_not_intro hconf.sid⟩
  have hstate : ¬ (entry.source ≠ src ∨ entry.state ≠ .awaitM3) :=
    not_or.mpr ⟨not_not_intro hto.source, not_not_intro hconf.state⟩
  have hne : hsTypeOf pkt ≠ hsTypeClientHello := by
    rw [← hp.hsType, hto.hsType]
    decide
  refine ⟨s'.removePending frag.sid, ?_, Table.get_remove_self ..⟩
  rw [handleDatagram, if_neg hne, if_pos (hp.hsType.symm.trans hto.hsType)]
  simp only [onM3Fragment, hto.parsed, hlive, if_neg hstate, hrate, hconf.decoded, if_neg hver,
    hconf.ephemeral, confirm, hm1, hm2, hth3, hconf.derived, hconf.keyed, hconf.finished, ne_eq,
    not_true_eq_false, if_false, hconf.verifiedClient, hroster', Bool.true_eq_false]

end Assembling

end PqTunnel.ServerHandshake

namespace PqTunnel.ClientHandshake

variable {T : CryptoTypes} {P : Primitives T} {c : ClientHandshake T} {pkt : WirePacket}
  {frag : HandshakeFragment} {asm : FragmentAssembler} {attempts : ℕ} {Q : ℕ → Bytes → Prop}

variable (rand : T.KemRand) (hparsed : HandshakeFragment.fromDatagram pkt = .ok frag)
  (htype : frag.hsType = hsTypeServerHello) (hsid : frag.sid = c.sid)
  (hstate : c.state = .awaitM2 asm attempts)
include hparsed htype hsid hstate

theorem handle_awaitM2 : c.handleDatagram P pkt rand =
      if (asm.addFragment frag).1 ≠ .completed then
        (.ok .none, { c with state := .awaitM2 (asm.addFragment frag).2 attempts })
      else
        match (asm.addFragment frag).2.message with
        | none => (.error (.panic "complete"),
            { c with state := .awaitM2 (asm.addFragment frag).2 attempts })
        | some m2Bytes =>
          ({ c with state := .awaitM2 (asm.addFragment frag).2 attempts } :
            ClientHandshake T).onCompleteM2 P m2Bytes rand := by
  obtain ⟨len, hp⟩ := fromDatagram_ok hparsed
  have hne : ¬ hsTypeOf pkt ≠ hsTypeServerHello := not_not_intro (hp.hsType.symm.trans htype)
  obtain ⟨cfg, sid, kemSk, xSk, m1, m1Frags, state⟩ := c
  subst hstate
  rw [handleDatagram, if_neg hne, hparsed]
  exact if_neg (not_not_intro hsid)

theorem handle_repeat (hw : ¬ asm.Awaits frag) :
    c.handleDatagram P pkt rand = (.ok .none, c) := by
  have hsame : { c with state := .awaitM2 asm attempts } = c := by rw [← hstate]
  rw [handle_awaitM2 rand hparsed htype hsid hstate, FragmentAssembler.addFragment_ignored hw,
    if_pos (by simp), hsame]

variable (hholds : asm.Holds hsTypeServerHello m2FragCount m2BodyLen Q) (hw : asm.Awaits frag)
include hholds hw

theorem handle_store (hmore : (asm.store frag).complete = false) :
    c.handleDatagram P pkt rand =
      (.ok .none, { c with state := .awaitM2 (asm.store frag) attempts }) := by
  obtain ⟨len, hp⟩ := fromDatagram_ok hparsed
  rw [handle_awaitM2 rand hparsed htype hsid hstate,
    FragmentAssembler.addFragment_stored hholds hp hw, hmore, if_pos (by simp)]

variable {rand}

theorem handle_accept (hdone : (asm.store frag).complete = true)
    (hlen : (asm.store frag).buffer.length = m2BodyLen) {m2 : ServerHello T} {dhCs : Secret}
    {master : MasterSecret} {key : Secret}
    (hacc : Accepts P c (asm.store frag).buffer rand m2 dhCs master key) :
    c.handleDatagram P pkt rand =
      (.ok (.m3Sent (m3FragsOf c (m3For P c (asm.store frag).buffer rand m2 key))
          (outcomeOf c master)),
        c.confirmed (m3For P c (asm.store frag).buffer rand m2 key) master) := by
  obtain ⟨len, hp⟩ := fromDatagram_ok hparsed
  rw [handle_awaitM2 rand hparsed htype hsid hstate,
    FragmentAssembler.addFragment_stored hholds hp hw, hdone, if_neg (by simp)]
  simp only [FragmentAssembler.message, hdone, if_true]
  have hacc' := (accepts_state (.awaitM2 (asm.store frag) attempts)).mpr hacc
  rcases onCompleteM2_cases (P := P) { c with state := .awaitM2 (asm.store frag) attempts } hlen
    rand with ⟨-, hbad⟩ | ⟨-, -, hbad⟩ | ⟨m2', dhCs', master', key', h, heq⟩
  · exact absurd hacc' (hbad m2 dhCs master key)
  · exact absurd hacc' (hbad m2 dhCs master key)
  · obtain ⟨rfl, rfl, rfl⟩ := h.unique hacc'
    exact heq

end PqTunnel.ClientHandshake
