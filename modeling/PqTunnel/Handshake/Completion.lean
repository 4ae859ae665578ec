import PqTunnel.Handshake.Exchange

/-! Every exchange whose datagrams arrive completes, and both sides hold the same master. -/
namespace PqTunnel.Exchange
open Transition ServerHandshake ClientHandshake

variable {T : CryptoTypes} {P : Primitives T} {src : SocketAddr} {c : ClientHandshake T}
  {s : ServerHandshake T} {x : State T}

theorem m1Frags_of_ok {Q : ℕ → Bytes → Prop} (hok : c.Ok P Q) :
    c.m1Frags = (List.range m1FragCount.toNat).map (m1Frag P c) := by
  have hver : c.m1.version = protocolVersion := by
    rw [hok.m1]
    exact hok.version
  have hsid : c.m1.sid = c.sid := by rw [hok.m1, helloFor]
  rw [hok.m1Frags, m1FragsOf, hver, hsid]
  rfl

theorem m1Frags_eq (hset : Setting P c s.cfg) :
    c.m1Frags = (List.range m1FragCount.toNat).map (m1Frag P c) :=
  m1Frags_of_ok hset.client

theorem mem_m1Frags (hset : Setting P c s.cfg) {i : ℕ} (hi : i < m1FragCount.toNat) :
    m1Frag P c i ∈ c.m1Frags := by
  rw [m1Frags_eq hset]
  exact List.mem_map.mpr ⟨i, List.mem_range.mpr hi, rfl⟩

theorem start_phase (hset : Setting P c s.cfg) (hok : PendingOk s)
    (hnone : s.pending.get c.sid = none) {asm : FragmentAssembler}
    (hstate : c.state = .awaitM2 asm 0)
    (hholds : ∀ Q, asm.Holds hsTypeServerHello m2FragCount m2BodyLen Q)
    (hfresh : ∀ i, asm.hasReceived i = false) :
    Base P c s.cfg (start c s) ∧ Phase P src c s.cfg (start c s) := by
  refine ⟨⟨⟨c.state, rfl⟩, hset.client, rfl, hok, nofun⟩, .idle hnone List.not_mem_nil ?_⟩
  refine ⟨fun pkt hmem => ?_, ⟨asm, 0, hstate, hholds, hfresh⟩, rfl, rfl, rfl, rfl, rfl⟩
  replace hmem : pkt ∈ c.m1Frags := hmem
  rw [m1Frags_eq hset, List.mem_map] at hmem
  obtain ⟨i, hi, rfl⟩ := hmem
  exact ⟨i, List.mem_range.mp hi, rfl⟩

theorem Reached.phase (hset : Setting P c s.cfg)
    (hstart : Base P c s.cfg (start c s) ∧ Phase P src c s.cfg (start c s))
    (hr : Reached P src c s x) : Base P c s.cfg x ∧ Phase P src c s.cfg x := by
  refine hr.invariant (fun x hx => hx ▸ hstart) ?_
  intro x _ x' _ ih hstep
  obtain ⟨hbase, hphase⟩ := ih
  cases hstep with
  | up pkt clock draw hmem hcalm hfresh hmac =>
    exact ⟨hbase.up hmem, hphase.up hset hbase hmem hcalm hfresh hmac⟩
  | down pkt rand hmem => exact ⟨hbase.down rand, hphase.down hset hbase hmem rand⟩

theorem not_incomplete {asm : FragmentAssembler} {ty total : UInt8} {len : ℕ}
    {Q : ℕ → Bytes → Prop} (hholds : asm.Holds ty total len Q)
    (hall : ∀ i < total.toNat, asm.hasReceived i = true) (hmore : asm.complete = false) :
    False := by
  rw [hholds.done.mpr hall] at hmore
  cases hmore

@[simp] theorem deliverUp_gotDown (x : State T) (pkt : WirePacket) (src : SocketAddr)
    (clock : Clock) (draw : ServerDraw T) :
    (x.deliverUp P pkt src clock draw).gotDown = x.gotDown := rfl

@[simp] theorem deliverUp_up (x : State T) (pkt : WirePacket) (src : SocketAddr) (clock : Clock)
    (draw : ServerDraw T) : (x.deliverUp P pkt src clock draw).up = x.up := rfl

theorem SentM2.take {cfg : ServerConfig T} {draw : ServerDraw T} (h : SentM2 P c cfg x draw) :
    x.down.take m2FragCount.toNat =
      (List.range m2FragCount.toNat).map (m2Frag c (answerOf P c cfg draw)) := by
  have htake := List.prefix_iff_eq_take.mp h
  rw [List.length_map, List.length_range] at htake
  exact htake.symm

theorem hsTypeOf_m3Frag {m3 : Bytes} (hlen : m3.length = m3BodyLen) :
    hsTypeOf (m3Frag c m3) = hsTypeClientConfirm := by
  obtain ⟨len, hp⟩ := fromDatagram_ok (parse_m3 (c := c) hlen)
  exact hp.hsType.symm

/-- What is left to do once the M1 and the first M2 have arrived. -/
inductive Late (P : Primitives T) (src : SocketAddr) (c : ClientHandshake T)
    (cfg : ServerConfig T) (x : State T) (draw : ServerDraw T) (master : MasterSecret) : Prop where
  | unseen (entry : PendingSession T) (hget : x.server.pending.get c.sid = some entry)
      (hentry : Entered P src c cfg draw entry)
      (hunseen : ∀ pkt ∈ x.gotUp, hsTypeOf pkt ≠ hsTypeClientConfirm)
  | ended (o : HandshakeOutcome T) (hcompleted : x.completed = [o]) (hsid : o.sessionId = c.sid)
      (hmaster : o.master = master) (hpeer : o.peerIdentity = P.verifyingKey c.cfg.identity)

theorem Phase.late (h : Phase P src c s.cfg x) (hset : Setting P c s.cfg)
    (hm1 : ∀ pkt ∈ c.m1Frags, pkt ∈ fromFirst P c x)
    (hm2 : ∀ pkt ∈ x.down.take m2FragCount.toNat, pkt ∈ x.gotDown) :
    ∃ draw rand dhCs master key, SentM2 P c s.cfg x draw ∧
      Finished P c s.cfg x draw rand dhCs master key ∧ Late P src c s.cfg x draw master := by
  cases h with
  | idle hnone hfirst hblank =>
    exact absurd ((List.dropWhile_suffix _).subset (hm1 _ (mem_m1Frags hset (i := 0) (by decide))))
      hfirst
  | assembling entry asm hget hsrc hstate hasm hholds hmore hzero hgot hblank =>
    have hall := fun i hi => (hgot i hi).mpr (hm1 _ (mem_m1Frags hset hi))
    exact (not_incomplete hholds hall hmore).elim
  | answered draw entry hget hentry hkey hwait hdown hsent hcompleted =>
    obtain ⟨asm, attempts, hstate, hholds, hmore, hgot⟩ := hwait.state
    have hall : ∀ j < m2FragCount.toNat, asm.hasReceived j = true := by
      intro j hj
      apply (hgot j hj).mpr
      apply hm2
      rw [hsent.take]
      exact List.mem_map.mpr ⟨j, List.mem_range.mpr hj, rfl⟩
    exact (not_incomplete hholds hall hmore).elim
  | confirmed draw entry rand dhCs master key hget hentry hkey hsent hfin hunseen hcompleted =>
    exact ⟨draw, rand, dhCs, master, key, hsent, hfin, .unseen entry hget hentry hunseen⟩
  | done draw rand dhCs master key o hkey hsent hused hfin hcompleted hsid hmaster hpeer =>
    exact ⟨draw, rand, dhCs, master, key, hsent, hfin, .ended o hcompleted hsid hmaster hpeer⟩

theorem Phase.complete (h : Phase P src c s.cfg x) (hset : Setting P c s.cfg)
    (hm1 : ∀ pkt ∈ c.m1Frags, pkt ∈ fromFirst P c x)
    (hm2 : ∀ pkt ∈ x.down.take m2FragCount.toNat, pkt ∈ x.gotDown)
    (hm3 : ∀ pkt ∈ x.up, hsTypeOf pkt = hsTypeClientConfirm → pkt ∈ x.gotUp) :
    ∃ draw master o, SentM2 P c s.cfg x draw ∧
      x.finished = [outcomeOf c master] ∧ x.completed = [o] ∧
      o.sessionId = c.sid ∧ o.master = master ∧
      o.peerIdentity = P.verifyingKey c.cfg.identity := by
  obtain ⟨draw, rand, dhCs, master, key, hsent, hfin, hlate⟩ := h.late hset hm1 hm2
  cases hlate with
  | unseen entry hget hentry hunseen =>
    have htype := hsTypeOf_m3Frag (c := c) (length_m3For (P := P) c
      (answerOf P c s.cfg draw) rand (honestM2 P s.cfg c draw) key)
    exact absurd htype (hunseen _ (hm3 _ hfin.sent htype))
  | ended o hcompleted hsid hmaster hpeer =>
    exact ⟨draw, master, o, hsent, hfin.finished, hcompleted, hsid, hmaster, hpeer⟩

/-- Whatever the order of the deliveries and however often each datagram is duplicated: once
every M1 fragment came in at or after the first fragment 0, the first M2 reached the client and
the M3 reached the server, there is one M3Sent and one Complete, and they agree. -/
theorem exchange_completes (hP : Correct P) {ccfg : ClientConfig T} {sid : SessionId}
    {kemSk : T.KemSk} {xSk : T.XSk} (hnew : ClientHandshake.new P ccfg sid kemSk xSk = .ok c)
    {scfg : ServerConfig T} {now : ℕ} {calls : List (Call T)}
    (hs : s = run P (new scfg now) calls) (hnone : s.pending.get sid = none)
    (hver : s.cfg.version = protocolVersion)
    (hroster : P.verifyingKey ccfg.identity ∈ s.cfg.roster)
    (hpin : ccfg.serverIdentity = P.verifyingKey s.cfg.identity)
    (hown : ∀ pk ∈ s.cfg.roster, P.sigVerify pk (P.sha256 (th1Input (c.m1.encode P))).toList
      c.m1.clientSig = true → pk = P.verifyingKey ccfg.identity)
    (hr : Reached P src c s x)
    (hm1 : ∀ pkt ∈ c.m1Frags, pkt ∈ fromFirst P c x)
    (hm2 : ∀ pkt ∈ x.down.take m2FragCount.toNat, pkt ∈ x.gotDown)
    (hm3 : ∀ pkt ∈ x.up, hsTypeOf pkt = hsTypeClientConfirm → pkt ∈ x.gotUp) :
    ∃ m2 oC oS, m2Frags s.cfg.version sid m2 <+: x.down ∧ x.finished = [oC] ∧
      x.completed = [oS] ∧ oC.sessionId = sid ∧ oS.sessionId = sid ∧ oC.master = oS.master ∧
      oC.peerIdentity = ccfg.serverIdentity ∧
      oS.peerIdentity = P.verifyingKey ccfg.identity := by
  obtain ⟨hclient, rfl, rfl, -, -, asm, hstate, hfresh⟩ :=
    ClientHandshake.new_ok hnew fun _ _ => True
  have hset : Setting P c s.cfg := ⟨hP, hclient, hver, hroster, hpin, hown⟩
  have hholds : ∀ Q, asm.Holds hsTypeServerHello m2FragCount m2BodyLen Q := fun Q =>
    (ClientHandshake.new_ok hnew Q).1.awaits asm 0 hstate
  obtain ⟨hbase, hphase⟩ := Reached.phase hset
    (start_phase hset (hs ▸ (pendingOk_new scfg now).run calls) hnone hstate hholds hfresh) hr
  obtain ⟨draw, master, o, hsent, hfin, hcomp, hsid, hmaster, hpeer⟩ :=
    hphase.complete hset hm1 hm2 hm3
  refine ⟨answerOf P c s.cfg draw, _, o, ?_, hfin, hcomp, rfl, hsid, hmaster.symm, rfl, hpeer⟩
  rw [m2Frags_eq hset]
  exact hsent

section InOrder

/-- A server whose clock stands still and whose rate limiter refills at once. -/
structure Idle (cfg : ServerConfig T) : Prop where
  ttl : 0 < cfg.pendingTtl
  burst : 0 < cfg.rateLimitBurst
  window : cfg.rateLimitWindow = 0

def still : Clock := ⟨0, 0, 0⟩

theorem Idle.rateOk (h : Idle s.cfg) (src : SocketAddr) (now : ℕ) :
    (s.rateOk src now).1 = true := by
  obtain ⟨-, hcfg⟩ := s.pruneRate_pending now
  have hburst := h.burst
  have hne : s.cfg.rateLimitBurst ≠ 0 := by omega
  simp only [ServerHandshake.rateOk, hcfg, h.window, Nat.zero_le, if_true]
  split
  · rw [if_neg hne]
  · simpa using hburst

theorem Idle.calm (h : Idle s.cfg) (pkt : WirePacket) (src : SocketAddr)
    (hroom : s.pending.get pkt.sid = none → s.pending.size < s.cfg.maxPending) :
    Calm s pkt src still := by
  refine ⟨fun e _ => ?_, hroom, h.rateOk src 0⟩
  have httl := h.ttl
  simp only [still, Nat.zero_sub]
  exact httl

theorem sid_m1Frag {i : ℕ} (hi : i < m1FragCount.toNat) : (m1Frag P c i).sid = c.sid := by
  obtain ⟨len, hp⟩ := fromDatagram_ok (parse_m1 (P := P) (c := c) hi)
  exact hp.sid.symm

/-- An M1 fragment never meets a Finished value, nor does it complete anything. -/
theorem finishedIdeal_m1Frag {i : ℕ} (hi : i < m1FragCount.toNat) :
    FinishedIdeal P x (m1Frag P c i) := by
  intro frag entry m3 skS m1 m2 master key peer hparsed htype
  obtain rfl := Except.ok.inj ((parse_m1 hi).symm.trans hparsed)
  cases htype

theorem completed_m1Frag (hok : PendingOk x.server) {i : ℕ} (hi : i < m1FragCount.toNat)
    (src : SocketAddr) (clock : Clock) (draw : ServerDraw T) :
    (x.deliverUp P (m1Frag P c i) src clock draw).completed = x.completed := by
  have hdoes := (handleDatagram_does (P := P) hok (m1Frag P c i) src clock draw).1
  rw [State.deliverUp]
  dsimp only
  unfold completions
  split
  · rename_i o heq
    rw [heq] at hdoes
    obtain ⟨frag, entry, -, -, -, -, -, hto, -⟩ := hdoes.of_complete
    obtain rfl := Except.ok.inj ((parse_m1 hi).symm.trans hto.parsed)
    cases hto.hsType
  · exact List.append_nil _

/-- Between the first fragment and Complete the server holds an entry. -/
theorem Phase.entry (h : Phase P src c s.cfg x) (hfirst : m1Frag P c 0 ∈ x.gotUp)
    (hcompleted : x.completed = []) : ∃ entry, x.server.pending.get c.sid = some entry := by
  cases h with
  | idle hnone hnot => exact absurd hfirst hnot
  | assembling entry asm hget | answered draw entry hget
  | confirmed draw entry rand dhCs master key hget => exact ⟨entry, hget⟩
  | done _ _ _ _ _ _ _ _ _ _ hone => rw [hcompleted] at hone; cases hone

theorem Reached.next_m1 (hset : Setting P c s.cfg) (hidle : Idle s.cfg)
    (hstart : Base P c s.cfg (start c s) ∧ Phase P src c s.cfg (start c s))
    (hr : Reached P src c s x) (hfirst : m1Frag P c 0 ∈ x.gotUp) (hcompleted : x.completed = [])
    {i : ℕ} (hi : i < m1FragCount.toNat) (hup : m1Frag P c i ∈ x.up) (draw : ServerDraw T)
    (hfresh : P.kemPublic draw.kemSk ∉ x.kemPks) :
    Reached P src c s (x.deliverUp P (m1Frag P c i) src still draw) ∧
      (x.deliverUp P (m1Frag P c i) src still draw).completed = [] := by
  obtain ⟨hbase, hphase⟩ := Reached.phase hset hstart hr
  obtain ⟨entry, hget⟩ := hphase.entry hfirst hcompleted
  have hcalm : Calm x.server (m1Frag P c i) src still := by
    refine Idle.calm (hbase.cfg.symm ▸ hidle) _ src fun hnone => ?_
    rw [sid_m1Frag hi, hget] at hnone
    cases hnone
  exact ⟨hr.next (a := ()) (.up _ still draw hup hcalm hfresh (finishedIdeal_m1Frag hi)),
    (completed_m1Frag hbase.ok hi src still draw).trans hcompleted⟩

def State.deliverDowns (P : Primitives T) (rand : T.KemRand) (x : State T)
    (pkts : List WirePacket) : State T :=
  pkts.foldl (fun x pkt => x.deliverDown P pkt rand) x

theorem Reached.downs (hr : Reached P src c s x) (rand : T.KemRand) (pkts : List WirePacket)
    (hmem : ∀ pkt ∈ pkts, pkt ∈ x.down) :
    Reached P src c s (x.deliverDowns P rand pkts) ∧
      (x.deliverDowns P rand pkts).gotDown = x.gotDown ++ pkts ∧
      (x.deliverDowns P rand pkts).down = x.down ∧
      (x.deliverDowns P rand pkts).server = x.server ∧
      (x.deliverDowns P rand pkts).gotUp = x.gotUp ∧
      (x.deliverDowns P rand pkts).kemPks = x.kemPks ∧
      (x.deliverDowns P rand pkts).completed = x.completed := by
  induction pkts generalizing x with
  | nil => exact ⟨hr, (List.append_nil _).symm, rfl, rfl, rfl, rfl, rfl⟩
  | cons pkt pkts ih =>
    have hr' : Reached P src c s (x.deliverDown P pkt rand) :=
      hr.next (a := ()) (.down pkt rand (hmem pkt List.mem_cons_self))
    obtain ⟨hx', hdown, hrest⟩ := ih hr' fun q hq => hmem q (List.mem_cons_of_mem _ hq)
    refine ⟨hx', ?_, hrest⟩
    rw [State.deliverDowns, List.foldl_cons, ← State.deliverDowns, hdown, State.deliverDown,
      List.append_assoc]
    rfl

theorem Reached.next_m3 (hset : Setting P c s.cfg) (hidle : Idle s.cfg)
    (hstart : Base P c s.cfg (start c s) ∧ Phase P src c s.cfg (start c s))
    (hr : Reached P src c s x) {draw₀ draw : ServerDraw T} {rand : T.KemRand} {dhCs : Secret}
    {master : MasterSecret} {key : Secret}
    (hfin : Finished P c s.cfg x draw₀ rand dhCs master key)
    {entry : PendingSession T} (hget : x.server.pending.get c.sid = some entry)
    (hentry : Entered P src c s.cfg draw₀ entry) (hfresh : P.kemPublic draw.kemSk ∉ x.kemPks) :
    Reached P src c s (x.deliverUp P (m3Frag c (confirmOf P c s.cfg draw₀ rand key)) src still
      draw) := by
  have hparse := parse_m3 (c := c) (length_m3For (P := P) c
    (answerOf P c s.cfg draw₀) rand (honestM2 P s.cfg c draw₀) key)
  obtain ⟨len, hp⟩ := fromDatagram_ok hparse
  have hbase := (Reached.phase hset hstart hr).1
  have hcalm : Calm x.server (m3Frag c (confirmOf P c s.cfg draw₀ rand key)) src still := by
    refine Idle.calm (hbase.cfg.symm ▸ hidle) _ src fun hnone => ?_
    rw [show x.server.pending.get _ = some entry from hp.sid ▸ hget] at hnone
    cases hnone
  refine hr.next (a := ()) (.up _ still draw hfin.sent hcalm hfresh ?_)
  intro frag entry' m3 skS m1 m2 master' key' peer hparsed htype hget' hconf
  obtain rfl := Except.ok.inj (hparse.symm.trans hparsed)
  obtain rfl : entry = entry' := Option.mem_unique hget hget'
  obtain rfl := Option.mem_unique hentry.m1Body hconf.m1Body
  obtain rfl := Option.mem_unique hentry.m2Cache hconf.m2Cache
  rw [hfin.transcripts]
  exact List.mem_singleton_self _

/-- The exchange after the fragments of the M1 have come in, in order. -/
def afterM1 (P : Primitives T) (src : SocketAddr) (c : ClientHandshake T) (s : ServerHandshake T)
    (draws : ℕ → ServerDraw T) : State T :=
  [0, 1, 2, 3].foldl (fun x i => x.deliverUp P (m1Frag P c i) src still (draws i)) (start c s)

theorem reached_afterM1 (hset : Setting P c s.cfg) (hidle : Idle s.cfg)
    (hstart : Base P c s.cfg (start c s) ∧ Phase P src c s.cfg (start c s))
    (hroom : s.pending.size < s.cfg.maxPending) (draws : ℕ → ServerDraw T)
    (hne : ∀ i j : Fin 5, i ≠ j → P.kemPublic (draws i).kemSk ≠ P.kemPublic (draws j).kemSk) :
    Reached P src c s (afterM1 P src c s draws) ∧
      (afterM1 P src c s draws).gotUp = c.m1Frags ∧ (afterM1 P src c s draws).completed = [] ∧
      (afterM1 P src c s draws).kemPks = [P.kemPublic (draws 3).kemSk,
        P.kemPublic (draws 2).kemSk, P.kemPublic (draws 1).kemSk,
        P.kemPublic (draws 0).kemSk] := by
  have hfrags : c.m1Frags = [m1Frag P c 0, m1Frag P c 1, m1Frag P c 2, m1Frag P c 3] :=
    m1Frags_eq hset
  have hsent : ∀ i < m1FragCount.toNat, m1Frag P c i ∈ c.m1Frags := fun i => mem_m1Frags hset
  have h0 : Reached P src c s (start c s) := Reach.start rfl
  have h1 : Reached P src c s ((start c s).deliverUp P (m1Frag P c 0) src still (draws 0)) :=
    h0.next (a := ()) (.up _ still (draws 0) (hsent 0 (by decide))
      (hidle.calm _ src fun _ => hroom) List.not_mem_nil (finishedIdeal_m1Frag (by decide)))
  have hc1 := completed_m1Frag (P := P) (c := c) (i := 0) hstart.1.ok (by decide) src still
    (draws 0)
  obtain ⟨h2, hc2⟩ := Reached.next_m1 hset hidle hstart h1 (i := 1) List.mem_cons_self hc1
    (by decide) (hsent 1 (by decide)) (draws 1) (by
      simpa [State.deliverUp, start] using hne 1 0 (by decide))
  obtain ⟨h3, hc3⟩ := Reached.next_m1 hset hidle hstart h2 (i := 2) List.mem_cons_self hc2
    (by decide) (hsent 2 (by decide)) (draws 2) (by
      simpa [State.deliverUp, start] using ⟨hne 2 1 (by decide), hne 2 0 (by decide)⟩)
  obtain ⟨h4, hc4⟩ := Reached.next_m1 hset hidle hstart h3 (i := 3) List.mem_cons_self hc3
    (by decide) (hsent 3 (by decide)) (draws 3) (by
      simpa [State.deliverUp, start] using
        ⟨hne 3 2 (by decide), hne 3 1 (by decide), hne 3 0 (by decide)⟩)
  exact ⟨h4, hfrags.symm, hc4, rfl⟩

theorem mem_fromFirst_of_inOrder (hset : Setting P c s.cfg) {rest : List WirePacket}
    (hgot : x.gotUp = c.m1Frags ++ rest) : ∀ pkt ∈ c.m1Frags, pkt ∈ fromFirst P c x := by
  intro pkt hpkt
  rw [fromFirst, hgot, m1Frags_eq hset, show m1FragCount.toNat = 3 + 1 from rfl,
    List.range_succ_eq_map, List.map_cons, List.cons_append, List.dropWhile_cons_of_neg (by simp),
    ← List.cons_append, ← List.map_cons, ← List.range_succ_eq_map]
  exact List.mem_append_left _ (m1Frags_eq hset ▸ hpkt)

/-- A handshake machine that is idle, with an empty table. -/
structure Ready (s : ServerHandshake T) : Prop where
  idle : Idle s.cfg
  room : 0 < s.cfg.maxPending
  empty : ∀ sid, s.pending.get sid = none

theorem Ready.pendingOk (h : Ready s) : PendingOk s := fun sid e hget => by
  rw [h.empty sid] at hget
  cases hget

/-- An honest client finds a ready server machine, with draws and a coin for the exchange. -/
structure Meeting (P : Primitives T) (src : SocketAddr) (c : ClientHandshake T)
    (s : ServerHandshake T) : Prop where
  setting : Setting P c s.cfg
  ready : Ready s
  start : Base P c s.cfg (Exchange.start c s) ∧ Phase P src c s.cfg (Exchange.start c s)
  draws : ∃ draws : ℕ → ServerDraw T, ∀ i j : Fin 5, i ≠ j →
    P.kemPublic (draws i).kemSk ≠ P.kemPublic (draws j).kemSk
  coin : Nonempty T.KemRand

/-- Every honest client has an exchange in which everything arrives; the last datagram completes
it. -/
theorem Meeting.exists_inOrder (h : Meeting P src c s) :
    ∃ x pkt draw, Reached P src c s x ∧ x.completed = [] ∧ pkt ∈ x.up ∧
      Reached P src c s (x.deliverUp P pkt src still draw) ∧
      (∀ pkt' ∈ c.m1Frags, pkt' ∈ fromFirst P c (x.deliverUp P pkt src still draw)) ∧
      (∀ pkt' ∈ (x.deliverUp P pkt src still draw).down.take m2FragCount.toNat,
        pkt' ∈ (x.deliverUp P pkt src still draw).gotDown) ∧
      ∀ pkt' ∈ (x.deliverUp P pkt src still draw).up, hsTypeOf pkt' = hsTypeClientConfirm →
        pkt' ∈ (x.deliverUp P pkt src still draw).gotUp := by
  obtain ⟨hset, hready, hstart, ⟨draws, hne⟩, ⟨rand⟩⟩ := h
  have hroom : s.pending.size < s.cfg.maxPending := (Table.size_eq_zero hready.empty).symm ▸ hready.room
  obtain ⟨hx, hgot, hcomp, hkeys⟩ := reached_afterM1 hset hready.idle hstart hroom draws hne
  generalize afterM1 P src c s draws = x at hx hgot hcomp hkeys
  obtain ⟨hx', hgotDown, hdown, -, hgot', hkeys', hcomp'⟩ :=
    hx.downs rand (x.down.take m2FragCount.toNat) fun _ h => List.mem_of_mem_take h
  generalize x.deliverDowns P rand (x.down.take m2FragCount.toNat) = x' at *
  have hgotUp : x'.gotUp = c.m1Frags ++ [] := by rw [hgot', hgot, List.append_nil]
  have hm2 : ∀ pkt ∈ x'.down.take m2FragCount.toNat, pkt ∈ x'.gotDown := by
    intro pkt hpkt
    rw [hgotDown]
    exact List.mem_append_right _ (hdown ▸ hpkt)
  obtain ⟨draw₀, rand', dhCs, master, key, hsent, hfin, hlate⟩ :=
    (Reached.phase hset hstart hx').2.late hset (mem_fromFirst_of_inOrder hset hgotUp) hm2
  cases hlate with
  | ended o hone =>
    rw [hcomp', hcomp] at hone
    cases hone
  | unseen entry hget hentry =>
    have hfresh : P.kemPublic (draws 4).kemSk ∉ x'.kemPks := by
      rw [hkeys', hkeys]
      simpa using ⟨hne 4 3 (by decide), hne 4 2 (by decide), hne 4 1 (by decide),
        hne 4 0 (by decide)⟩
    have hlast := Reached.next_m3 hset hready.idle hstart hx' hfin hget hentry hfresh
    refine ⟨x', _, draws 4, hx', hcomp'.trans hcomp, hfin.sent, hlast, ?_, ?_, ?_⟩
    · exact mem_fromFirst_of_inOrder hset (by rw [State.deliverUp, hgot', hgot])
    · intro pkt hpkt
      rw [(hsent.mono (List.prefix_append ..)).take, ← hsent.take] at hpkt
      rw [deliverUp_gotDown]
      exact hm2 pkt hpkt
    · intro pkt hpkt htype
      rw [deliverUp_up] at hpkt
      rcases hfin.up pkt hpkt with ⟨i, hi, rfl⟩ | rfl
      · rw [hsTypeOf_m1Frag hi] at htype
        cases htype
      · exact List.mem_append_right _ (List.mem_singleton_self _)

theorem Meeting.exists_last (h : Meeting P src c s) :
    ∃ x pkt draw o, Reached P src c s x ∧ x.completed = [] ∧ pkt ∈ x.up ∧
      (x.server.handleDatagram P pkt src still draw).1 = .ok (.complete o) ∧
      o.sessionId = c.sid := by
  obtain ⟨x, pkt, draw, hx, hnone, hmem, hx', hm1, hm2, hm3⟩ := h.exists_inOrder
  obtain ⟨-, -, o, -, -, hcomp, hsid, -⟩ :=
    (Reached.phase h.setting h.start hx').2.complete h.setting hm1 hm2 hm3
  refine ⟨x, pkt, draw, o, hx, hnone, hmem, ?_, hsid⟩
  rw [State.deliverUp, hnone, List.nil_append] at hcomp
  unfold completions at hcomp
  split at hcomp
  · rename_i o' heq
    obtain rfl : o' = o := List.singleton_inj.mp hcomp
    exact heq
  · cases hcomp

end InOrder

section Sample

theorem sample_correct : Correct Sample.primitives where
  kem _ _ := rfl
  exchange a b := by
    have hb : ∀ b, Sample.byteAt (Sample.fit x25519PublicKeyBytes [b]) = b := fun b => rfl
    simp only [Sample.primitives, hb, UInt8.add_comm]
  contributory _ _ := rfl
  signature _ _ := by simp [Sample.primitives]
  kemPk := Sample.kemPkNew_kemPkToBytes
  sigCodec _ := rfl
  hkdf _ _ _ := ⟨_, rfl⟩

def sampleAddr : SocketAddr := .v4 0 0

def sampleSid : SessionId := List.Vector.replicate _ 7

def sampleClientConfig : ClientConfig Sample.types where
  version := protocolVersion
  serverAddr := sampleAddr
  identity := 1
  serverIdentity := 2
  m1MaxAttempts := 3
  m3MaxAttempts := 3

theorem exists_sampleHandshake (sid : SessionId) : ∃ c, ClientHandshake.new Sample.primitives
    sampleClientConfig sid (3 : UInt8) (4 : UInt8) = .ok c :=
  new_exists _ _ _ _ rfl

def sampleServerConfig : ServerConfig Sample.types where
  version := protocolVersion
  identity := 2
  roster := [1]
  maxRosterSize := 1
  maxPending := 1
  pendingTtl := 1
  rateLimitBurst := 1
  rateLimitWindow := 0

def sampleServer : ServerHandshake Sample.types := ServerHandshake.new sampleServerConfig 0

def sampleDraws (i : ℕ) : ServerDraw Sample.types where
  kemSk := UInt8.ofNat (10 + i)
  xSk := UInt8.ofNat (20 + i)
  rand := UInt8.ofNat i

theorem sample_own {s : ServerHandshake Sample.types} (hcfg : s.cfg = sampleServerConfig)
    (msg : Bytes) (sig : Octets mlDsaSignatureBytes) :
    ∀ pk ∈ s.cfg.roster, Sample.primitives.sigVerify pk msg sig = true →
      pk = Sample.primitives.verifyingKey sampleClientConfig.identity := by
  intro pk hpk _
  rw [hcfg] at hpk
  exact List.mem_singleton.mp hpk

theorem sample_meeting {sid : SessionId} {kemSk xSk : UInt8}
    {c : ClientHandshake Sample.types} {s : ServerHandshake Sample.types}
    (hnew : ClientHandshake.new Sample.primitives sampleClientConfig sid kemSk xSk = .ok c)
    (hcfg : s.cfg = sampleServerConfig) (hempty : ∀ sid, s.pending.get sid = none) :
    Meeting Sample.primitives sampleAddr c s := by
  obtain ⟨hclient, hccfg, -, -, -, asm, hstate, hfresh⟩ :=
    new_ok hnew fun _ _ => True
  have hready : Ready s :=
    ⟨hcfg.symm ▸ ⟨by decide, by decide, rfl⟩, hcfg.symm ▸ Nat.one_pos, hempty⟩
  have hset : Setting Sample.primitives c s.cfg := by
    refine ⟨sample_correct, hclient, hcfg.symm ▸ rfl, ?_, ?_, hccfg ▸ sample_own hcfg _ _⟩
    · rw [hccfg, hcfg]
      exact List.mem_singleton_self _
    · rw [hccfg, hcfg]
      rfl
  have hholds : ∀ Q, asm.Holds hsTypeServerHello m2FragCount m2BodyLen Q := fun Q =>
    (new_ok hnew Q).1.awaits asm 0 hstate
  exact ⟨hset, hready, start_phase hset hready.pendingOk (hempty _) hstate hholds hfresh,
    ⟨sampleDraws, by decide⟩, ⟨(5 : UInt8)⟩⟩

theorem exchange_completes_sample :
    ∃ c, ClientHandshake.new Sample.primitives sampleClientConfig sampleSid (3 : UInt8)
        (4 : UInt8) = .ok c ∧
      ∃ x, Reached Sample.primitives sampleAddr c sampleServer x ∧
        ∃ oC oS, x.finished = [oC] ∧ x.completed = [oS] ∧ oC.master = oS.master := by
  obtain ⟨c, hnew⟩ := exists_sampleHandshake sampleSid
  have hmeet : Meeting Sample.primitives sampleAddr c sampleServer :=
    sample_meeting hnew rfl fun _ => Table.get_empty _
  obtain ⟨_, _, _, -, -, -, hx, hm1, hm2, hm3⟩ := hmeet.exists_inOrder
  have hs : sampleServer =
      run Sample.primitives (ServerHandshake.new sampleServerConfig 0) [] := rfl
  obtain ⟨m2, oC, oS, -, hfin, hcomp, -, -, hmaster, -⟩ := exchange_completes sample_correct hnew
    hs (Table.get_empty _) rfl (List.mem_singleton_self _) rfl (sample_own rfl _ _) hx hm1 hm2 hm3
  exact ⟨c, hnew, _, hx, oC, oS, hfin, hcomp, hmaster⟩

end Sample

end PqTunnel.Exchange
