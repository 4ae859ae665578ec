import PqTunnel.Handshake.WorkBudget

/-! What a datagram can do to the tables of the server handshake. Every pending entry has the
shape its state asks for, a source reaches only what it created itself, and an M3 that completes
nothing changes nothing. -/
namespace PqTunnel.ServerHandshake
open ByteString Transition HandshakeFragment

variable {T : CryptoTypes} {P : Primitives T}

section Shape

variable {s : ServerHandshake T} {pkt : WirePacket} {src : SocketAddr} {clock : Clock}
  {draw : ServerDraw T} {sid : SessionId} {e : PendingSession T}

def Stamped (version : UInt8) (sid : SessionId) (body : Bytes) : Prop :=
  body.getD 0 0 = version ∧ slice body versionLen sessionIdLen = sid.toList

/-- An entry awaiting M1 holds an M1 assembler and nothing else. -/
structure ShapeM1 (e : PendingSession T) : Prop where
  assembler : ∃ asm, e.assembler = some asm ∧ asm.hsType = hsTypeClientHello ∧
    asm.buffer.length = m1BodyLen
  m1Body : e.m1Body = none
  m2Cache : e.m2Cache = none
  ssA : e.ssA = zeroSecret
  dhCs : e.dhCs = zeroSecret
  skS : e.skS = none
  verifiedClient : e.verifiedClient = none

/-- An entry awaiting M3 holds both messages and the keys that answer them. -/
structure ShapeM3 (sid : SessionId) (e : PendingSession T) : Prop where
  assembler : e.assembler = none
  m1Body : ∃ m1, e.m1Body = some m1 ∧ m1.length = 4534 ∧ Stamped protocolVersion sid m1
  m2Cache : ∃ m2, e.m2Cache = some m2 ∧ m2.length = 5622 ∧ Stamped protocolVersion sid m2
  skS : ∃ sk, e.skS = some sk
  verifiedClient : ∃ pk, e.verifiedClient = some pk

def Shaped (sid : SessionId) (e : PendingSession T) : Prop :=
  match e.state with
  | .awaitM1 => ShapeM1 e
  | .awaitM3 => ShapeM3 sid e

theorem shaped_awaitM1 (h : e.state = .awaitM1) : Shaped sid e ↔ ShapeM1 e := by
  simp only [Shaped, h]

theorem shaped_awaitM3 (h : e.state = .awaitM3) : Shaped sid e ↔ ShapeM3 sid e := by
  simp only [Shaped, h]

theorem decode_stamped {data : Bytes} {m : ClientHello T}
    (h : ClientHello.decode P data = .ok m) : Stamped protocolVersion m.sid data := by
  refine ⟨?_, (ClientHello.decode_ok h).sid.symm⟩
  simp only [ClientHello.decode] at h
  split at h
  · cases h
  · split at h
    · cases h
    · rename_i hver
      exact not_not.mp hver

variable (cfg : ServerConfig T)

theorem m2For_stamped (sid : SessionId) (m1 : ClientHello T) (m1Bytes : Bytes)
    (draw : ServerDraw T) : Stamped cfg.version sid (m2For P cfg sid m1 m1Bytes draw) := by
  simp only [m2For, encodeM2_eq, m2Core]
  constructor
  · rfl
  · simp only [List.append_assoc]
    exact slice_append_mid [cfg.version] sid.toList _ rfl (List.Vector.toList_length sid).symm

/-- Every way an entry can come about gives it the shape of its state. -/
theorem EntryStep.shaped (hok : PendingOk s)
    (hshape : ∀ sid e, s.pending.get sid = some e → Shaped sid e)
    (h : EntryStep P s pkt src clock draw sid e) : Shaped sid e := by
  have hentry := h.ok hok
  cases h with
  | kept _ hget => exact hshape sid e hget
  | opened frag asm hparsed htype hsid hasm =>
    obtain ⟨-, asm', hsome, hholds⟩ := hentry.awaitingM1 rfl
    exact ⟨⟨asm', hsome, hholds.type, hholds.len⟩, rfl, rfl, rfl, rfl, rfl, rfl⟩
  | stored frag entry asm lastSeen hsid hto hstate hasm hawait =>
    have hold := (shaped_awaitM1 hstate).mp (hshape _ _ hto.get)
    obtain ⟨-, asm', hsome, hholds⟩ := hentry.awaitingM1 hstate
    refine (shaped_awaitM1 ?_).mpr ?_
    · exact hstate
    · exact ⟨⟨asm', hsome, hholds.type, hholds.len⟩, hold.m1Body, hold.m2Cache, hold.ssA,
        hold.dhCs, hold.skS, hold.verifiedClient⟩
  | answered frag entry asm m1 client dhCs hsid hto hstate hasm hawait hdone hans =>
    subst hsid
    have hdec := ClientHello.decode_ok hans.decoded
    have hversion : s.cfg.version = protocolVersion := hans.version.symm.trans hdec.version
    refine ⟨rfl, ⟨_, rfl, hdec.len, ?_⟩, ⟨_, rfl, length_m2For .., ?_⟩, ⟨_, rfl⟩, ⟨_, rfl⟩⟩
    · rw [← hans.sid]
      exact decode_stamped hans.decoded
    · rw [← hversion]
      exact m2For_stamped s.cfg frag.sid m1 _ draw
  | resent frag entry hsid hto hstate =>
    subst hsid
    have hold := (shaped_awaitM3 hstate).mp (hshape _ _ hto.get)
    refine (shaped_awaitM3 ?_).mpr ?_
    · exact hstate
    · exact ⟨hold.assembler, hold.m1Body, hold.m2Cache, hold.skS, hold.verifiedClient⟩

/-- A move never grows the table past the cap. -/
theorem Move.size_le {r : Except (Fault HandshakeV2Error) (ServerEvent T)}
    {t : Table SessionId (PendingSession T)} (hm : Move P s pkt src clock draw r t)
    (h : s.pending.size ≤ s.cfg.maxPending) : t.size ≤ s.cfg.maxPending := by
  have hlive : (s.live clock).size ≤ s.cfg.maxPending :=
    (Table.size_retain_le _ _).trans h
  have hput : ∀ {hsType frag entry v}, Addressed s pkt src clock hsType frag entry →
      ((s.live clock).put frag.sid v).size ≤ s.cfg.maxPending := by
    intro hsType frag entry v hto
    rw [Table.size_put_of_some v hto.found]
    exact hlive
  have hremove : ∀ {sid}, ((s.live clock).remove sid).size ≤ s.cfg.maxPending :=
    (Table.size_remove_le _ _).trans hlive
  cases hm with
  | untouched => exact h
  | evicted | kdfFailed => exact hlive
  | opened frag asm hparsed htype hidx hnone hroom hasm =>
    rw [Table.size_put_of_none _ hnone]
    exact hroom
  | stored frag entry asm lastSeen hto | answered frag entry asm m1 client dhCs hto
  | resent frag entry m2 hto => exact hput hto
  | rejected | revoked | completed => exact hremove

/-- The datagram opened the entry of the session id: it is fragment 0 of an M1, no live entry
was in the way, and its source paid a rate token for it. -/
structure Created (P : Primitives T) (s : ServerHandshake T) (pkt : WirePacket)
    (src : SocketAddr) (clock : Clock) (draw : ServerDraw T) (sid : SessionId)
    (frag : HandshakeFragment) (e : PendingSession T) : Prop where
  parsed : HandshakeFragment.fromDatagram pkt = .ok frag
  hsType : frag.hsType = hsTypeClientHello
  fragIdx : frag.fragIdx = 0
  names : frag.sid = sid
  free : (s.live clock).get sid = none
  entry : (s.handleDatagram P pkt src clock draw).2.pending.get sid = some e
  source : e.source = src
  started : e.started = clock.touch
  token : ∃ b, (s.handleDatagram P pkt src clock draw).2.rateBuckets.get src = some b ∧
    b.tokens + 1 = s.tokensLeft src clock.rate

/-- Work is only done for a source that pays a token. -/
theorem work_pays {w : Work} (h : w ∈ s.work P pkt src clock) (draw : ServerDraw T) :
    ∃ b, (s.handleDatagram P pkt src clock draw).2.rateBuckets.get src = some b ∧
      b.tokens + 1 = s.tokensLeft src clock.rate := by
  have hgated := handleDatagram_gated P s pkt src clock draw
  generalize s.work P pkt src clock = ws at h hgated
  generalize s.handleDatagram P pkt src clock draw = r at hgated ⊢
  cases hgated with
  | unasked | refused => cases h
  | passed r w' hev hok hlim =>
    obtain ⟨hpass, b, hb, hcharged⟩ := s.rateOk_spec src clock.rate
    rw [hok] at hpass
    have hpos : 0 < s.tokensLeft src clock.rate := of_decide_eq_true hpass.symm
    have hbuckets : r.2.rateBuckets = (s.rateOk src clock.rate).2.rateBuckets :=
      congrArg (·.1) hlim
    refine ⟨b, hbuckets ▸ hb, ?_⟩
    rw [hcharged.tokens]
    omega

/-- An entry after a datagram continues the one before it, or was created by the datagram. -/
theorem handleDatagram_continues (hok : PendingOk s)
    (hget : (s.handleDatagram P pkt src clock draw).2.pending.get sid = some e) :
    (∃ e₀, s.pending.get sid = some e₀ ∧ e₀.source = e.source ∧ e₀.started = e.started) ∨
      ∃ frag, Created P s pkt src clock draw sid frag e := by
  have hmove := (handleDatagram_does (P := P) hok pkt src clock draw).1
  refine (hmove.origin hget).imp_right ?_
  rintro ⟨frag, asm, hparsed, htype, hidx, rfl, hnone, rfl⟩
  have hopens : Opens P frag.sid s (.datagram pkt src clock draw) :=
    ⟨⟨frag, hparsed, htype, rfl, hnone⟩, _, hget⟩
  exact ⟨frag, hparsed, htype, hidx, rfl, hnone, hget, rfl, rfl, work_pays hopens.allocates draw⟩

/-- What a call can leave in the table: an entry that was there, or one it created. -/
def Continues (P : Primitives T) (s : ServerHandshake T) (c : Call T) (sid : SessionId)
    (e : PendingSession T) : Prop :=
  (∃ e₀, s.pending.get sid = some e₀ ∧ e₀.source = e.source ∧ e₀.started = e.started) ∨
    ∃ pkt clock draw frag, c = .datagram pkt e.source clock draw ∧
      Created P s pkt e.source clock draw sid frag e

theorem call_continues (hok : PendingOk s) (c : Call T)
    (hget : (call P s c).pending.get sid = some e) : Continues P s c sid e := by
  cases c with
  | datagram pkt src clock draw =>
    rcases handleDatagram_continues hok hget with h | ⟨frag, h⟩
    · exact Or.inl h
    · obtain rfl := h.source
      exact Or.inr ⟨pkt, clock, draw, frag, rfl, h⟩
  | setRoster roster =>
    rw [call, setRoster_pending] at hget
    exact Or.inl ⟨e, hget, rfl, rfl⟩

variable (now : ℕ) (calls : List (Call T))

theorem maxPending_run : (run P (new cfg now) calls).cfg.maxPending = cfg.maxPending := by
  obtain ⟨roster, h⟩ := cfg_run (P := P) cfg now calls
  rw [h]

theorem size_run_le : (run P (new cfg now) calls).pending.size ≤ cfg.maxPending := by
  induction calls using List.reverseRecOn with
  | nil => exact Nat.zero_le _
  | append_singleton calls c ih =>
    rw [run_snoc]
    have hok := (pendingOk_new cfg now).run (P := P) calls
    have hmax := maxPending_run (P := P) cfg now calls
    cases c with
    | datagram pkt src clock draw =>
      have hmove := (handleDatagram_does (P := P) hok pkt src clock draw).1
      rw [← hmax] at ih ⊢
      exact hmove.size_le ih
    | setRoster roster =>
      rw [call, setRoster_pending]
      exact ih

theorem shaped_run :
    ∀ sid e, (run P (new cfg now) calls).pending.get sid = some e → Shaped sid e := by
  induction calls using List.reverseRecOn with
  | nil =>
    intro sid e hget
    cases hget
  | append_singleton calls c ih =>
    rw [run_snoc]
    have hok := (pendingOk_new cfg now).run (P := P) calls
    intro sid e hget
    cases c with
    | datagram pkt src clock draw =>
      exact ((handleDatagram_does hok pkt src clock draw).1.entryStep hget).shaped hok ih
    | setRoster roster =>
      rw [call, setRoster_pending] at hget
      exact ih sid e hget

theorem created_run :
    ∀ sid e, (run P (new cfg now) calls).pending.get sid = some e →
      ∃ before pkt clock draw after frag e₀,
        calls = before ++ .datagram pkt e.source clock draw :: after ∧
        Created P (run P (new cfg now) before) pkt e.source clock draw sid frag e₀ ∧
        e₀.started = e.started := by
  induction calls using List.reverseRecOn with
  | nil =>
    intro sid e hget
    cases hget
  | append_singleton calls c ih =>
    intro sid e hget
    rw [run_snoc] at hget
    have hok := (pendingOk_new cfg now).run (P := P) calls
    rcases call_continues hok c hget with ⟨e₀, hget₀, hsource, hstarted⟩ |
      ⟨pkt, clock, draw, frag, rfl, hcreated⟩
    · obtain ⟨before, pkt, clock, draw, after, frag, e₁, heq, hcreated, hfirst⟩ :=
        ih sid e₀ hget₀
      rw [hsource] at heq hcreated
      refine ⟨before, pkt, clock, draw, after ++ [c], frag, e₁, ?_, hcreated,
        hfirst.trans hstarted⟩
      rw [heq, List.append_assoc, List.cons_append]
    · exact ⟨calls, pkt, clock, draw, [], frag, e, rfl, hcreated, rfl⟩

/-- In every reachable state the pending table is bounded, every entry has the shape of its
state, and every entry was created by fragment 0 of an M1 that its own source paid for. -/
theorem pending_wellFormed (P : Primitives T) (cfg : ServerConfig T) (now : ℕ)
    (calls : List (Call T)) :
    (run P (new cfg now) calls).pending.size ≤ cfg.maxPending ∧
    (∀ sid e, (run P (new cfg now) calls).pending.get sid = some e → Shaped sid e ∧
      ∃ before pkt clock draw after frag e₀,
        calls = before ++ .datagram pkt e.source clock draw :: after ∧
        Created P (run P (new cfg now) before) pkt e.source clock draw sid frag e₀ ∧
        e₀.started = e.started) ∧
    ∀ c sid e, (call P (run P (new cfg now) calls) c).pending.get sid = some e →
      Continues P (run P (new cfg now) calls) c sid e := by
  have hok := (pendingOk_new cfg now).run (P := P) calls
  refine ⟨size_run_le cfg now calls, ?_, fun c sid e => call_continues hok c⟩
  intro sid e hget
  exact ⟨shaped_run cfg now calls sid e hget, created_run cfg now calls sid e hget⟩

end Shape

section Buckets

variable {s : ServerHandshake T} {src src' : SocketAddr} {now : ℕ} {b : RateBucket}

/-- The queue of the rate limiter names every tracked source once. -/
structure LimiterOk (s : ServerHandshake T) : Prop where
  nodup : s.rateOrder.Nodup
  tracked : ∀ k, k ∈ s.rateOrder ↔ k ∈ s.rateBuckets.keys
  bounded : s.rateBuckets.size ≤ maxRateBuckets

theorem limiterOk_iff : LimiterOk s ↔ s.rateBuckets.Queued maxRateBuckets s.rateOrder := by
  constructor
  · intro h
    exact ⟨(List.perm_ext_iff_of_nodup h.nodup s.rateBuckets.nodup_keys).mpr h.tracked, h.bounded⟩
  · intro h
    exact ⟨h.order.nodup_iff.mpr s.rateBuckets.nodup_keys, fun k => h.order.mem_iff, h.size⟩

theorem LimiterOk.pruneRate (h : LimiterOk s) (now : ℕ) : LimiterOk (s.pruneRate now) := by
  unfold ServerHandshake.pruneRate
  split_ifs
  · exact limiterOk_iff.mpr ((limiterOk_iff.mp h).retain _)
  · exact h

/-- The prune drops buckets that are due, and keeps the order of the rest. -/
theorem pruneRate_order (s : ServerHandshake T) (now : ℕ) :
    (s.pruneRate now).rateOrder.Sublist s.rateOrder := by
  unfold pruneRate
  split_ifs
  · exact List.filter_sublist
  · exact List.Sublist.refl _

/-- What one question to the rate limiter makes of its tables. -/
inductive Asks (s : ServerHandshake T) (src : SocketAddr) (now : ℕ) (s' : ServerHandshake T) :
    Prop where
  | known (b b' : RateBucket) (hget : (s.pruneRate now).rateBuckets.get src = some b)
      (hbuckets : s'.rateBuckets = (s.pruneRate now).rateBuckets.put src b')
      (horder : s'.rateOrder = (s.pruneRate now).rateOrder)
  | fresh (b' : RateBucket) (hget : (s.pruneRate now).rateBuckets.get src = none)
      (hroom : (s.pruneRate now).rateBuckets.size < maxRateBuckets)
      (hbuckets : s'.rateBuckets = (s.pruneRate now).rateBuckets.put src b')
      (horder : s'.rateOrder = (s.pruneRate now).rateOrder ++ [src])
  | evicts (b' : RateBucket) (victim : SocketAddr) (rest : List SocketAddr)
      (hget : s.rateBuckets.get src = none) (hfull : s.rateBuckets.size = maxRateBuckets)
      (hvictim : s.rateOrder = victim :: rest)
      (hbuckets : s'.rateBuckets = (s.rateBuckets.remove victim).put src b')
      (horder : s'.rateOrder = rest ++ [src])

/-- A prune that leaves the table at its cap has dropped nothing. -/
theorem LimiterOk.pruneRate_full (h : LimiterOk s)
    (hfull : maxRateBuckets ≤ (s.pruneRate now).rateBuckets.size) :
    (s.pruneRate now).rateBuckets = s.rateBuckets ∧
      (s.pruneRate now).rateOrder = s.rateOrder := by
  have hbounded := h.bounded
  unfold ServerHandshake.pruneRate at hfull ⊢
  split_ifs at hfull ⊢
  · have heq := Table.retain_eq_self (hbounded.trans hfull)
    refine ⟨heq, ?_⟩
    simp only [heq]
    rw [List.filter_eq_self]
    intro k hk
    obtain ⟨b, hb⟩ := Table.mem_keys.mp ((h.tracked k).mp hk)
    rw [hb]
    rfl
  · exact ⟨rfl, rfl⟩

theorem rateOk_asks (h : LimiterOk s) (src : SocketAddr) (now : ℕ) :
    Asks s src now (s.rateOk src now).2 := by
  simp only [rateOk]
  cases hget : (s.pruneRate now).rateBuckets.get src with
  | some b =>
    dsimp only
    split_ifs
    all_goals exact .known b _ hget rfl rfl
  | none =>
    dsimp only
    rcases evictOldest_cases (limiterOk_iff.mp (h.pruneRate now)) (by decide) with
      ⟨hroom, hevict⟩ | ⟨victim, rest, hfull, hvictim, hevict⟩
    · rw [hevict]
      exact .fresh _ hget hroom rfl rfl
    · obtain ⟨hbuckets, horder⟩ := h.pruneRate_full hfull.ge
      rw [hevict]
      rw [hbuckets] at hget hfull ⊢
      exact .evicts _ victim rest hget hfull (horder ▸ hvictim) rfl rfl

variable {s' : ServerHandshake T}

theorem LimiterOk.asks (h : LimiterOk s) (hasks : Asks s src now s') : LimiterOk s' := by
  have hp := limiterOk_iff.mp (h.pruneRate now)
  rw [limiterOk_iff]
  cases hasks with
  | known b b' hget hbuckets horder =>
    rw [hbuckets, horder]
    exact hp.touch hget b'
  | fresh b' hget hroom hbuckets horder =>
    rw [hbuckets, horder]
    exact hp.push hget hroom b'
  | evicts b' victim rest hget hfull hvictim hbuckets horder =>
    obtain ⟨hrest, hroom⟩ := Table.Queued.pop (hvictim ▸ limiterOk_iff.mp h)
    have hgone : (s.rateBuckets.remove victim).get src = none := by
      rw [Table.get_remove, hget]
      exact ite_self none
    rw [hbuckets, horder]
    exact hrest.push hgone (by omega) b'

theorem handleDatagram_limiter (s : ServerHandshake T) (pkt : WirePacket) (src : SocketAddr)
    (clock : Clock) (draw : ServerDraw T) :
    (s.handleDatagram P pkt src clock draw).2.limiter = s.limiter ∨
      (s.handleDatagram P pkt src clock draw).2.limiter = (s.rateOk src clock.rate).2.limiter := by
  have hgated := handleDatagram_gated P s pkt src clock draw
  generalize s.work P pkt src clock = ws at hgated
  generalize s.handleDatagram P pkt src clock draw = r at hgated ⊢
  cases hgated with
  | unasked _ _ hlim => exact Or.inl hlim
  | refused _ _ hlim | passed _ _ _ _ hlim => exact Or.inr hlim

/-- Every datagram leaves the rate limiter alone or asks it once about its own source. -/
theorem handleDatagram_asks (h : LimiterOk s) (pkt : WirePacket) (src : SocketAddr)
    (clock : Clock) (draw : ServerDraw T) :
    (s.handleDatagram P pkt src clock draw).2.limiter = s.limiter ∨
      Asks s src clock.rate (s.handleDatagram P pkt src clock draw).2 := by
  have hasked : ∀ {s' : ServerHandshake T},
      s'.limiter = (s.rateOk src clock.rate).2.limiter → Asks s src clock.rate s' := by
    intro s' hlim
    have hbuckets : s'.rateBuckets = _ := congrArg (·.1) hlim
    have horder : s'.rateOrder = _ := congrArg (·.2.1) hlim
    cases rateOk_asks h src clock.rate with
    | known b b' hget hb ho => exact .known b b' hget (hbuckets.trans hb) (horder.trans ho)
    | fresh b' hget hroom hb ho => exact .fresh b' hget hroom (hbuckets.trans hb) (horder.trans ho)
    | evicts b' victim rest hget hfull hvictim hb ho =>
      exact .evicts b' victim rest hget hfull hvictim (hbuckets.trans hb) (horder.trans ho)
  exact (handleDatagram_limiter s pkt src clock draw).imp_right hasked

theorem LimiterOk.congr (h : LimiterOk s) (hlim : s'.limiter = s.limiter) : LimiterOk s' := by
  have hbuckets : s'.rateBuckets = s.rateBuckets := congrArg (·.1) hlim
  have horder : s'.rateOrder = s.rateOrder := congrArg (·.2.1) hlim
  exact ⟨horder ▸ h.nodup, fun k => by rw [horder, hbuckets, h.tracked], hbuckets ▸ h.bounded⟩

theorem limiterOk_run (cfg : ServerConfig T) (now : ℕ) (calls : List (Call T)) :
    LimiterOk (run P (new cfg now) calls) := by
  induction calls using List.reverseRecOn with
  | nil => exact ⟨List.nodup_nil, fun k => Iff.rfl, Nat.zero_le _⟩
  | append_singleton calls c ih =>
    rw [run_snoc]
    cases c with
    | datagram pkt src clock draw =>
      rcases handleDatagram_asks (P := P) ih pkt src clock draw with hlim | hasks
      · exact ih.congr hlim
      · exact ih.asks hasks
    | setRoster roster =>
      refine ih.congr ?_
      simp only [call, setRoster]
      split_ifs <;> rfl

/-- A new source takes the place of another when the bucket table is full: that source is the
one that was inserted first. -/
def TakesPlace (s : ServerHandshake T) (src src' : SocketAddr) : Prop :=
  s.rateBuckets.get src = none ∧ s.rateBuckets.size = maxRateBuckets ∧
    s.rateOrder.head? = some src'

/-- What a step leaves of the bucket of another source. -/
structure OtherBucket (s : ServerHandshake T) (src : SocketAddr) (now : ℕ)
    (s' : ServerHandshake T) (src' : SocketAddr) : Prop where
  origin : ∀ b, s'.rateBuckets.get src' = some b → s.rateBuckets.get src' = some b
  kept : ∀ b, s.rateBuckets.get src' = some b → s'.rateBuckets.get src' = some b ∨
    s'.rateBuckets.get src' = none ∧
      (s.cfg.rateLimitWindow ≤ now - b.lastRefill ∨ TakesPlace s src src')

theorem Asks.other (h : Asks s src now s') (hne : src' ≠ src) : OtherBucket s src now s' src' := by
  have hprune : OtherBucket s src now (s.pruneRate now) src' := by
    refine ⟨fun b => get_of_pruneRate, fun b hb => ?_⟩
    by_cases hdue : s.cfg.rateLimitWindow ≤ now - b.lastRefill
    · cases hget : (s.pruneRate now).rateBuckets.get src' with
      | none => exact Or.inr ⟨rfl, Or.inl hdue⟩
      | some b' =>
        obtain rfl := Option.some.inj ((get_of_pruneRate hget).symm.trans hb)
        exact Or.inl rfl
    · exact Or.inl (get_pruneRate hb (not_le.mp hdue))
  have hput : ∀ {b'}, s'.rateBuckets = (s.pruneRate now).rateBuckets.put src b' →
      OtherBucket s src now s' src' := by
    intro b' hbuckets
    have hget : s'.rateBuckets.get src' = (s.pruneRate now).rateBuckets.get src' := by
      rw [hbuckets, Table.get_put_ne _ _ hne]
    exact ⟨fun b hb => hprune.origin b (hget ▸ hb), fun b hb => hget ▸ hprune.kept b hb⟩
  cases h with
  | known b b' _ hbuckets | fresh b' _ _ hbuckets => exact hput hbuckets
  | evicts b' victim rest hget hfull hvictim hbuckets =>
    have hother : s'.rateBuckets.get src' = (s.rateBuckets.remove victim).get src' := by
      rw [hbuckets, Table.get_put_ne _ _ hne]
    refine ⟨fun b hb => (Table.get_of_remove (hother ▸ hb)).2, fun b hb => ?_⟩
    rw [hother, Table.get_remove]
    split_ifs with heq
    · refine Or.inr ⟨rfl, Or.inr ⟨hget, hfull, ?_⟩⟩
      rw [hvictim, heq]
      rfl
    · exact Or.inl hb

/-- The queue only loses sources and gains new ones at its end. -/
theorem Asks.order (h : Asks s src now s') :
    ∃ kept, kept.Sublist s.rateOrder ∧
      (s'.rateOrder = kept ∨ s'.rateOrder = kept ++ [src]) := by
  cases h with
  | known b b' _ _ horder => exact ⟨_, pruneRate_order s now, Or.inl horder⟩
  | fresh b' _ _ _ horder => exact ⟨_, pruneRate_order s now, Or.inr horder⟩
  | evicts b' victim rest _ _ hvictim _ horder =>
    exact ⟨rest, hvictim ▸ List.sublist_cons_self victim rest, Or.inr horder⟩

end Buckets

section Sources

variable {s : ServerHandshake T} {pkt : WirePacket} {src : SocketAddr} {clock : Clock}
  {draw : ServerDraw T} {sid : SessionId} {e : PendingSession T}
  {r : Except (Fault HandshakeV2Error) (ServerEvent T)} {t : Table SessionId (PendingSession T)}

theorem live_or_expired (hget : s.pending.get sid = some e) (clock : Clock) :
    (s.live clock).get sid = some e ∨
      (s.live clock).get sid = none ∧ s.cfg.pendingTtl ≤ clock.evict - e.lastSeen := by
  rw [live, evictExpired]
  dsimp only
  rw [Table.get_retain, hget, Option.filter_some]
  split_ifs with hfresh
  · exact Or.inl rfl
  · simp only [decide_eq_true_eq, not_lt] at hfresh
    exact Or.inr ⟨rfl, hfresh⟩

/-- A move reaches no entry of another source. -/
theorem Move.keeps_other (hm : Move P s pkt src clock draw r t) (hother : e.source ≠ src)
    (hlive : (s.live clock).get sid = some e) (hget : s.pending.get sid = some e) :
    t.get sid = some e := by
  have hto : ∀ {hsType frag entry}, Addressed s pkt src clock hsType frag entry →
      sid ≠ frag.sid := by
    rintro hsType frag entry hto rfl
    obtain rfl := Option.mem_unique hto.found hlive
    exact hother hto.source
  cases hm with
  | untouched => exact hget
  | evicted | kdfFailed => exact hlive
  | opened frag asm hparsed htype hidx hnone =>
    rw [Table.get_put_ne, hlive]
    rintro rfl
    rw [hnone] at hlive
    cases hlive
  | stored frag entry asm lastSeen h | answered frag entry asm m1 client dhCs h
  | resent frag entry m2 h => rw [Table.get_put_ne _ _ (hto h), hlive]
  | rejected frag entry asm h | revoked frag entry m3 skS m1 m2 master finishedKey peer h
  | completed frag entry m3 skS m1 m2 master finishedKey peer h =>
    rw [Table.get_remove_ne _ (hto h), hlive]

/-- An entry that a move changes belongs to the source of the datagram. -/
theorem EntryStep.own (h : EntryStep P s pkt src clock draw sid e) :
    s.pending.get sid = some e ∨ e.source = src := by
  cases h with
  | kept _ hget => exact Or.inl hget
  | opened => exact Or.inr rfl
  | stored frag entry asm lastSeen hsid hto | answered frag entry asm m1 client dhCs hsid hto
  | resent frag entry hsid hto => exact Or.inr hto.source

/-- What a step leaves of the entries that another source created. -/
structure OtherEntry (s : ServerHandshake T) (src : SocketAddr) (now : ℕ)
    (t : Table SessionId (PendingSession T)) (sid : SessionId) (e : PendingSession T) : Prop where
  origin : t.get sid = some e → s.pending.get sid = some e
  kept : s.pending.get sid = some e → t.get sid = some e ∨
    s.cfg.pendingTtl ≤ now - e.lastSeen ∧ ∀ e', t.get sid = some e' → e'.source = src

theorem Move.other (hm : Move P s pkt src clock draw r t) (hother : e.source ≠ src) :
    OtherEntry s src clock.evict t sid e where
  origin hget := (hm.entryStep hget).own.resolve_right hother
  kept hget := by
    rcases live_or_expired hget clock with hlive | ⟨-, hold⟩
    · exact Or.inl (hm.keeps_other hother hlive hget)
    · by_cases hsame : t.get sid = some e
      · exact Or.inl hsame
      · refine Or.inr ⟨hold, fun e' hget' => ?_⟩
        rcases (hm.entryStep hget').own with hwas | hown
        · obtain rfl := Option.mem_unique hwas hget
          exact absurd hget' hsame
        · exact hown

/-- An M2 goes to the source of the datagram, for an entry of that source. -/
theorem Move.emits_own {pkts : List WirePacket} {dest : SocketAddr}
    (hm : Move P s pkt src clock draw (.ok (.emit pkts dest)) t) :
    dest = src ∧ ∃ frag e m2, s.pending.get frag.sid = some e ∧ e.source = src ∧
      fromDatagram pkt = .ok frag ∧ pkts = m2Frags s.cfg.version frag.sid m2 := by
  cases hm with
  | answered frag entry asm m1 client dhCs hto =>
    exact ⟨rfl, frag, entry, _, hto.get, hto.source, hto.parsed, rfl⟩
  | resent frag entry m2 hto =>
    exact ⟨rfl, frag, entry, m2, hto.get, hto.source, hto.parsed, rfl⟩

/-- A datagram leaves the pending entries and the rate buckets of every other source as they
were, but for what has expired and for the one bucket that makes room at the cap. It completes
and answers only handshakes of its own source. -/
theorem sources_isolated (P : Primitives T) (cfg : ServerConfig T) (now : ℕ)
    (calls : List (Call T)) (pkt : WirePacket) (src : SocketAddr) (clock : Clock)
    (draw : ServerDraw T) :
    let s := run P (new cfg now) calls
    let r := s.handleDatagram P pkt src clock draw
    (∀ sid e, e.source ≠ src → OtherEntry s src clock.evict r.2.pending sid e) ∧
    (∀ src', src' ≠ src → OtherBucket s src clock.rate r.2 src') ∧
    (∃ kept, kept.Sublist s.rateOrder ∧
      (r.2.rateOrder = kept ∨ r.2.rateOrder = kept ++ [src])) ∧
    (∀ o, r.1 = .ok (.complete o) → ∃ e, s.pending.get o.sessionId = some e ∧ e.source = src) ∧
    ∀ pkts dest, r.1 = .ok (.emit pkts dest) → dest = src ∧
      ∃ frag e m2, s.pending.get frag.sid = some e ∧ e.source = src ∧
        HandshakeFragment.fromDatagram pkt = .ok frag ∧
        pkts = m2Frags s.cfg.version frag.sid m2 := by
  intro s r
  have hmove : Move P s pkt src clock draw r.1 r.2.pending :=
    (handleDatagram_does ((pendingOk_new cfg now).run calls) pkt src clock draw).1
  have hasks : r.2.limiter = s.limiter ∨ Asks s src clock.rate r.2 :=
    handleDatagram_asks (limiterOk_run cfg now calls) pkt src clock draw
  refine ⟨fun sid e => hmove.other, ?_, ?_, ?_, ?_⟩
  · intro src' hne
    rcases hasks with hlim | hasks
    · have hbuckets : r.2.rateBuckets = s.rateBuckets := congrArg (·.1) hlim
      exact ⟨fun b hb => hbuckets ▸ hb, fun b hb => Or.inl (hbuckets ▸ hb)⟩
    · exact hasks.other hne
  · rcases hasks with hlim | hasks
    · exact ⟨s.rateOrder, List.Sublist.refl _, Or.inl (congrArg (·.2.1) hlim)⟩
    · exact hasks.order
  · intro o ho
    rw [ho] at hmove
    obtain ⟨frag, entry, m3, skS, m1, m2, key, hto, -, -, hsid, -⟩ := hmove.of_complete
    exact ⟨entry, hsid ▸ hto.get, hto.source⟩
  · intro pkts dest hemit
    rw [hemit] at hmove
    exact hmove.emits_own

end Sources
section Forged

variable {s : ServerHandshake T} {pkt : WirePacket} {src : SocketAddr} {clock : Clock}
  {draw : ServerDraw T} {sid : SessionId} {e : PendingSession T} {frag : HandshakeFragment}
  {m3 : ClientConfirm} {skS : T.KemSk} {m1 m2 : Bytes} {master : MasterSecret}
  {finishedKey : Secret} {peer : T.SigPk}

/-- The M3 meets the revocation re-check: it passes every check but that its key is still on the
roster. -/
def Revokes (P : Primitives T) (s : ServerHandshake T) (pkt : WirePacket) (src : SocketAddr)
    (clock : Clock) : Prop :=
  ∃ frag entry m3 skS m1 m2 master finishedKey peer,
    Addressed s pkt src clock hsTypeClientConfirm frag entry ∧
    0 < s.tokensLeft src clock.rate ∧
    Confirmed P s.cfg frag entry m3 skS m1 m2 master finishedKey peer ∧
    s.rosterContains P peer = false

/-- A ClientConfirm datagram that neither completes a handshake nor meets the re-check. -/
structure Forged (P : Primitives T) (s : ServerHandshake T) (pkt : WirePacket)
    (src : SocketAddr) (clock : Clock) (draw : ServerDraw T) : Prop where
  hsType : hsTypeOf pkt = hsTypeClientConfirm
  completes : ∀ o, (s.handleDatagram P pkt src clock draw).1 ≠ .ok (.complete o)
  revokes : ¬ Revokes P s pkt src clock

/-- The datagram names an entry that its source created and that awaits M3. -/
def NamesOwn (s : ServerHandshake T) (pkt : WirePacket) (src : SocketAddr) (clock : Clock) :
    Prop :=
  ∃ frag entry, Addressed s pkt src clock hsTypeClientConfirm frag entry ∧
    entry.state = .awaitM3

/-- The table without its expired entries; a datagram that is no fragment sweeps nothing. -/
def swept (s : ServerHandshake T) (pkt : WirePacket) (clock : Clock) :
    Table SessionId (PendingSession T) :=
  match HandshakeFragment.fromDatagram pkt with
  | .ok _ => s.live clock
  | .error _ => s.pending

theorem live_evictExpired (s : ServerHandshake T) (clock : Clock) :
    (s.evictExpired clock.evict).live clock = s.live clock := by
  rw [live, evictExpired_twice, live]

theorem handleDatagram_m3 (htype : hsTypeOf pkt = hsTypeClientConfirm) :
    s.handleDatagram P pkt src clock draw = s.onM3Fragment P pkt src clock := by
  have hother : hsTypeOf pkt ≠ hsTypeClientHello := by
    rw [htype]
    decide
  rw [handleDatagram, if_neg hother, if_pos htype]

/-- An M3 that names nothing of its source goes no further than the sweep. -/
theorem handleDatagram_unnamed (htype : hsTypeOf pkt = hsTypeClientConfirm)
    (hnot : ¬ NamesOwn s pkt src clock) :
    (s.handleDatagram P pkt src clock draw).2.pending = s.swept pkt clock ∧
      (s.handleDatagram P pkt src clock draw).2.limiter = s.limiter := by
  rw [handleDatagram_m3 htype, onM3Fragment, swept]
  rcases fromDatagram_cases pkt with ⟨err, herr⟩ | ⟨frag, len, hparsed, hp⟩
  · rw [herr]
    exact ⟨rfl, rfl⟩
  · rw [hparsed]
    dsimp only
    cases hget : (s.evictExpired clock.evict).pending.get frag.sid with
    | none => exact ⟨rfl, rfl⟩
    | some entry =>
      dsimp only
      rw [if_pos]
      · exact ⟨rfl, rfl⟩
      · by_contra hown
        rw [not_or, not_not, not_not] at hown
        exact hnot ⟨frag, entry, ⟨hparsed, hp.hsType.trans htype, hget, hown.1⟩, hown.2⟩

/-- Without a token an M3 goes no further than the limiter. -/
theorem handleDatagram_refused (hto : Addressed s pkt src clock hsTypeClientConfirm frag e)
    (hstate : e.state = .awaitM3) (htoken : s.tokensLeft src clock.rate = 0) :
    (s.handleDatagram P pkt src clock draw).2.pending = s.live clock := by
  obtain ⟨len, hp⟩ := fromDatagram_ok hto.parsed
  have hget : (s.evictExpired clock.evict).pending.get frag.sid = some e := hto.found
  have hown : ¬ (e.source ≠ src ∨ e.state ≠ .awaitM3) := by simp [hto.source, hstate]
  rw [handleDatagram_m3 (hp.hsType.symm.trans hto.hsType), onM3Fragment, hto.parsed]
  simp only [hget, if_neg hown]
  obtain ⟨hpass, -⟩ := (s.evictExpired clock.evict).rateOk_spec src clock.rate
  obtain ⟨hpend, -⟩ := rateOk_frame (s.evictExpired clock.evict) src clock.rate
  have hzero : (s.evictExpired clock.evict).tokensLeft src clock.rate = 0 := htoken
  rw [hzero] at hpass
  generalize (s.evictExpired clock.evict).rateOk src clock.rate = r at hpass hpend
  obtain ⟨ok, s'⟩ := r
  obtain rfl : ok = false := hpass
  exact hpend

/-- A forged M3 leaves the swept table, and asks the limiter only about an entry of its own
source. -/
theorem Forged.frame (h : Forged P s pkt src clock draw) (hok : PendingOk s) :
    (s.handleDatagram P pkt src clock draw).2.pending = s.swept pkt clock ∧
      (¬ NamesOwn s pkt src clock →
        (s.handleDatagram P pkt src clock draw).2.limiter = s.limiter) := by
  refine ⟨?_, fun hnot => (handleDatagram_unnamed h.hsType hnot).2⟩
  by_cases hown : NamesOwn s pkt src clock
  · obtain ⟨frag, entry, hto, hstate⟩ := hown
    have hswept : s.swept pkt clock = s.live clock := by rw [swept, hto.parsed]
    rw [hswept]
    rcases Nat.eq_zero_or_pos (s.tokensLeft src clock.rate) with hzero | htoken
    · exact handleDatagram_refused hto hstate hzero
    · have hmove := (handleDatagram_does (P := P) (hok.swept clock) pkt src clock draw).1
      rw [handleDatagram_swept hto.parsed (.inr h.hsType)] at hmove
      have hhello : ∀ {frag'}, fromDatagram pkt = .ok frag' →
          frag'.hsType ≠ hsTypeClientHello := by
        intro frag' hparsed htype
        obtain rfl := Except.ok.inj (hto.parsed.symm.trans hparsed)
        rw [hto.hsType] at htype
        cases htype
      have hcompletes := h.completes
      generalize s.handleDatagram P pkt src clock draw = r at hmove hcompletes ⊢
      obtain ⟨ev, s'⟩ := r
      dsimp only at hmove hcompletes ⊢
      generalize s'.pending = t at hmove ⊢
      cases hmove with
      | untouched => rfl
      | evicted | kdfFailed => exact live_evictExpired s clock
      | opened frag' asm hparsed htype => exact absurd htype (hhello hparsed)
      | stored frag' entry' asm lastSeen hto' | rejected frag' entry' asm hto'
      | answered frag' entry' asm m1 client dhCs hto' | resent frag' entry' m2 hto' =>
        exact absurd hto'.hsType (hhello hto'.parsed)
      | revoked frag' entry' m3 skS m1 m2 master finishedKey peer hto' hconf hroster =>
        have hfound : (s.live clock).get frag'.sid = some entry' := by
          rw [← live_evictExpired]
          exact hto'.found
        exact absurd ⟨frag', entry', m3, skS, m1, m2, master, finishedKey, peer,
          ⟨hto'.parsed, hto'.hsType, hfound, hto'.source⟩, htoken, hconf, hroster⟩ h.revokes
      | completed => exact absurd rfl (hcompletes _)
  · exact (handleDatagram_unnamed h.hsType hown).1

/-- An M3 that matches its entry completes it while its source has a token. -/
theorem handleDatagram_confirmed (hok : PendingOk s)
    (hto : Addressed s pkt src clock hsTypeClientConfirm frag e)
    (htoken : 0 < s.tokensLeft src clock.rate)
    (hconf : Confirmed P s.cfg frag e m3 skS m1 m2 master finishedKey peer)
    (hroster : s.rosterContains P peer = true) :
    (s.handleDatagram P pkt src clock draw).1 =
      .ok (.complete { master, sessionId := frag.sid, peerIdentity := peer
                       handshakeDuration := clock.touch - e.started }) := by
  obtain ⟨len, hp⟩ := fromDatagram_ok hto.parsed
  have hentry := (hok _ _ hto.get).awaitingM3 hconf.state
  obtain ⟨m1', hm1, hlen1⟩ := hentry.m1Body
  obtain rfl := Option.mem_unique hconf.m1Body hm1
  obtain ⟨m2', hm2, hlen2⟩ := hentry.m2Cache
  obtain rfl := Option.mem_unique hconf.m2Cache hm2
  have hlen3 : frag.body.length = m3BodyLen := (ClientConfirm.decode_ok hconf.decoded).len
  have hget : (s.evictExpired clock.evict).pending.get frag.sid = some e := hto.found
  have hown : ¬ (e.source ≠ src ∨ e.state ≠ .awaitM3) := by simp [hto.source, hconf.state]
  rw [handleDatagram_m3 (hp.hsType.symm.trans hto.hsType), onM3Fragment, hto.parsed]
  simp only [hget, if_neg hown]
  obtain ⟨hpass, -⟩ := (s.evictExpired clock.evict).rateOk_spec src clock.rate
  obtain ⟨-, hcfg⟩ := rateOk_frame (s.evictExpired clock.evict) src clock.rate
  have hpos : 0 < (s.evictExpired clock.evict).tokensLeft src clock.rate := htoken
  rw [decide_eq_true hpos] at hpass
  generalize (s.evictExpired clock.evict).rateOk src clock.rate = r at hpass hcfg
  obtain ⟨ok, s'⟩ := r
  obtain rfl : ok = true := hpass
  replace hcfg : s'.cfg = s.cfg := hcfg
  have hsame : ¬ (m3.version ≠ s'.cfg.version ∨ m3.sid ≠ frag.sid) := by
    simp [hcfg, hconf.version, hconf.sid]
  have hlisted : s'.rosterContains P peer = true := by
    simpa only [rosterContains, hcfg] using hroster
  simp only [hconf.decoded, if_neg hsame, hconf.ephemeral, confirm, hm1, hm2,
    th3FromM1M2M3_eq hlen1 hlen2 hlen3, hconf.derived, hconf.keyed, hconf.finished, ne_eq,
    not_true_eq_false, if_false, hconf.verifiedClient, hlisted, Bool.true_eq_false]

/-- A forged M3 that comes while the entry of the session id is fresh. -/
def ForgedWhile (P : Primitives T) (e : PendingSession T) (s : ServerHandshake T) :
    Call T → Prop
  | .setRoster _ => False
  | .datagram pkt src clock draw => Forged P s pkt src clock draw ∧
    clock.evict - e.lastSeen < s.cfg.pendingTtl

/-- Any number of forged M3s leave a fresh entry and the configuration as they were. -/
theorem run_forged (hok : PendingOk s) (hget : s.pending.get sid = some e)
    {calls : List (Call T)} (h : Along (call P) (ForgedWhile P e) s calls) :
    (run P s calls).pending.get sid = some e ∧ (run P s calls).cfg = s.cfg := by
  induction calls generalizing s with
  | nil => exact ⟨hget, rfl⟩
  | cons c calls ih =>
    obtain ⟨hnow, hlater⟩ := h
    cases c with
    | setRoster roster => exact hnow.elim
    | datagram pkt src clock draw =>
      obtain ⟨hforged, hfresh⟩ := hnow
      have hcfg := (handleDatagram_does (P := P) hok pkt src clock draw).2
      have hlive : (s.live clock).get sid = some e := by
        refine (live_or_expired hget clock).resolve_right fun hold => ?_
        exact absurd hfresh (not_lt.mpr hold.2)
      have hkept : (call P s (.datagram pkt src clock draw)).pending.get sid = some e := by
        rw [call, (hforged.frame hok).1, swept]
        cases fromDatagram pkt with
        | error _ => exact hget
        | ok _ => exact hlive
      obtain ⟨hentry, hsame⟩ :=
        ih (pendingOk_handleDatagram hok pkt src clock draw) hkept hlater
      exact ⟨hentry, hsame.trans hcfg⟩

/-- In every reachable state an M3 that neither completes a handshake nor meets the re-check
leaves the pending table as the sweep of its expired entries does, and costs its source a token
only if it names an entry of that source that awaits M3. So the genuine M3 completes after any
number of them, while its entry is fresh and its source has a token. -/
theorem forged_m3_harmless (P : Primitives T) (cfg : ServerConfig T) (now : ℕ)
    (calls : List (Call T)) :
    let s := run P (new cfg now) calls
    (∀ pkt src clock draw, Forged P s pkt src clock draw →
      (s.handleDatagram P pkt src clock draw).2.pending = s.swept pkt clock ∧
      (¬ NamesOwn s pkt src clock →
        (s.handleDatagram P pkt src clock draw).2.limiter = s.limiter)) ∧
    ∀ e frag m3 skS m1 m2 master finishedKey peer forged pkt clock draw,
      s.pending.get frag.sid = some e → Along (call P) (ForgedWhile P e) s forged →
      HandshakeFragment.fromDatagram pkt = .ok frag → frag.hsType = hsTypeClientConfirm →
      Confirmed P s.cfg frag e m3 skS m1 m2 master finishedKey peer →
      s.rosterContains P peer = true → clock.evict - e.lastSeen < s.cfg.pendingTtl →
      0 < (run P s forged).tokensLeft e.source clock.rate →
      ((run P s forged).handleDatagram P pkt e.source clock draw).1 =
        .ok (.complete { master, sessionId := frag.sid, peerIdentity := peer
                         handshakeDuration := clock.touch - e.started }) := by
  intro s
  have hok : PendingOk s := (pendingOk_new cfg now).run calls
  refine ⟨fun pkt src clock draw hforged => hforged.frame hok, ?_⟩
  intro e frag m3 skS m1 m2 master finishedKey peer forged pkt clock draw hget hforged hparsed
    htype hconf hroster hfresh htoken
  obtain ⟨hkept, hcfg⟩ := run_forged hok hget hforged
  have hlive : ((run P s forged).live clock).get frag.sid = some e := by
    refine (live_or_expired hkept clock).resolve_right fun hold => ?_
    rw [hcfg] at hold
    exact absurd hfresh (not_lt.mpr hold.2)
  apply handleDatagram_confirmed (hok.run forged) ⟨hparsed, htype, hlive, rfl⟩ htoken
  · rw [hcfg]
    exact hconf
  · simpa only [rosterContains, hcfg] using hroster

end Forged

section Sample
open Exchange

/-- A ClientConfirm datagram that does not parse: no message has zero fragments. -/
def junkConfirm : WirePacket :=
  fragmentPacket hsTypeClientConfirm protocolVersion 0 sampleSid [] 0

theorem byteAt_junkConfirm : junkConfirm.byteAt 0 = protocolVersion ∧
    junkConfirm.byteAt (versionLen + sessionIdLen) = hsTypeClientConfirm ∧
    junkConfirm.byteAt (versionLen + sessionIdLen + 2) = 0 := by
  simp only [WirePacket.byteAt, junkConfirm, toList_fragmentPacket]
  exact ⟨rfl, rfl, rfl⟩

theorem parse_junkConfirm : ∃ e, fromDatagram junkConfirm = .error e := by
  obtain ⟨hversion, htype, htotal⟩ := byteAt_junkConfirm
  have hcount : expectedFragCount hsTypeClientConfirm = some m3FragCount := rfl
  have hbad : (0 : UInt8) ≠ m3FragCount := by decide
  simp only [fromDatagram, hsTypeOf, hversion, htype, htotal, hcount,
    if_pos hbad, ne_eq, not_true_eq_false, if_false]
  exact ⟨_, rfl⟩

theorem junkConfirm_forged (s : ServerHandshake T) (src : SocketAddr) (clock : Clock)
    (draw : ServerDraw T) : Forged P s junkConfirm src clock draw ∧
      (s.handleDatagram P junkConfirm src clock draw).2.pending = s.pending := by
  obtain ⟨e, hparse⟩ := parse_junkConfirm
  have htype : hsTypeOf junkConfirm = hsTypeClientConfirm := byteAt_junkConfirm.2.1
  have hstep : (s.handleDatagram P junkConfirm src clock draw).2.pending = s.pending ∧
      ∀ o, (s.handleDatagram P junkConfirm src clock draw).1 ≠ .ok (.complete o) := by
    rw [handleDatagram_m3 htype, onM3Fragment, hparse]
    cases e with
    | panic msg | err e => exact ⟨rfl, by simp⟩
  refine ⟨⟨htype, hstep.2, ?_⟩, hstep.1⟩
  rintro ⟨frag, entry, m3, skS, m1, m2, master, finishedKey, peer, hto, -⟩
  rw [hto.parsed] at hparse
  cases hparse

/-- A datagram that is no fragment leaves an expired entry in the table. -/
theorem junk_m3_sweeps_nothing :
    ∃ calls clock draw,
      Forged Sample.primitives (run Sample.primitives (new sampleServerConfig 0) calls)
        junkConfirm sampleAddr clock draw ∧
      ((run Sample.primitives (new sampleServerConfig 0) calls).handleDatagram Sample.primitives
          junkConfirm sampleAddr clock draw).2.pending ≠
        (run Sample.primitives (new sampleServerConfig 0) calls).live clock := by
  obtain ⟨c, hnew⟩ := exists_sampleHandshake sampleSid
  obtain ⟨calls, e, hget, -⟩ := Meeting.exists_waits
    (sample_meeting (s := new sampleServerConfig 0) hnew rfl fun _ => Table.get_empty _)
  obtain ⟨roster, hcfg⟩ := cfg_run (P := Sample.primitives) sampleServerConfig 0 calls
  refine ⟨calls, ⟨e.lastSeen + 1, 0, 0⟩, sampleDraws 0, ?_⟩
  generalize run Sample.primitives (new sampleServerConfig 0) calls = s at hget hcfg ⊢
  obtain ⟨hforged, hpend⟩ := junkConfirm_forged (P := Sample.primitives) s sampleAddr
    ⟨e.lastSeen + 1, 0, 0⟩ (sampleDraws 0)
  refine ⟨hforged, fun hswept => ?_⟩
  rw [hpend] at hswept
  rw [hswept, live, evictExpired] at hget
  obtain ⟨-, hfresh⟩ := Table.get_of_retain hget
  rw [hcfg] at hfresh
  simp [sampleServerConfig] at hfresh

/-- A limiter without a window always has its burst to give. -/
theorem tokensLeft_pos {s : ServerHandshake T} {src : SocketAddr} {now : ℕ}
    (hburst : 0 < s.cfg.rateLimitBurst) (hwindow : s.cfg.rateLimitWindow = 0) :
    0 < s.tokensLeft src now := by
  rw [tokensLeft]
  split
  · rw [refill, hwindow, if_pos (Nat.zero_le _)]
    exact hburst
  · exact hburst

/-- The sample client's M3 completes its handshake although a forged one came first. -/
theorem forged_m3_harmless_sample :
    ∃ calls pkt draw o,
      Forged Sample.primitives (run Sample.primitives (new sampleServerConfig 0) calls)
        junkConfirm sampleAddr still draw ∧
      ((run Sample.primitives (run Sample.primitives (new sampleServerConfig 0) calls)
        [.datagram junkConfirm sampleAddr still draw]).handleDatagram Sample.primitives pkt
          sampleAddr still draw).1 = .ok (.complete o) := by
  obtain ⟨c, hnew⟩ := exists_sampleHandshake sampleSid
  obtain ⟨calls, pkt, draw, o, hdone⟩ := Meeting.exists_completing
    (sample_meeting (s := new sampleServerConfig 0) hnew rfl fun _ => Table.get_empty _)
  have hok := (pendingOk_new sampleServerConfig 0).run (P := Sample.primitives) calls
  have hforged := (junkConfirm_forged (P := Sample.primitives)
    (run Sample.primitives (new sampleServerConfig 0) calls) sampleAddr still draw).1
  obtain ⟨roster, hcfg⟩ := cfg_run (P := Sample.primitives) sampleServerConfig 0 calls
  have hfresh : ∀ t, still.evict - t <
      (run Sample.primitives (new sampleServerConfig 0) calls).cfg.pendingTtl := by
    intro t
    rw [hcfg, still, Nat.zero_sub]
    exact Nat.one_pos
  have hmove := (handleDatagram_does (P := Sample.primitives) hok pkt sampleAddr still draw).1
  rw [hdone] at hmove
  obtain ⟨frag, e, m3, skS, m1, m2, key, hto, hconf, hroster, -⟩ := hmove.of_complete
  have hwhile : Along (call Sample.primitives) (ForgedWhile Sample.primitives e)
      (run Sample.primitives (new sampleServerConfig 0) calls)
      [.datagram junkConfirm sampleAddr still draw] := ⟨⟨hforged, hfresh _⟩, trivial⟩
  have hsame := (run_forged hok hto.get hwhile).2
  have htoken : 0 < (run Sample.primitives (run Sample.primitives (new sampleServerConfig 0) calls)
      [.datagram junkConfirm sampleAddr still draw]).tokensLeft e.source still.rate := by
    apply tokensLeft_pos
    · rw [hsame, hcfg]
      exact Nat.one_pos
    · rw [hsame, hcfg]
      rfl
  have hcompletes := (forged_m3_harmless Sample.primitives sampleServerConfig 0 calls).2 e frag m3
    skS m1 m2 _ key _ _ pkt still draw hto.get hwhile hto.parsed hto.hsType hconf hroster
    (hfresh _) htoken
  rw [hto.source] at hcompletes
  exact ⟨calls, pkt, draw, _, hforged, hcompletes⟩

end Sample
end PqTunnel.ServerHandshake
