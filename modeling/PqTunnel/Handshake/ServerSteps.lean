import PqTunnel.Handshake.Assembly
import PqTunnel.Handshake.Server
import PqTunnel.Handshake.Transcript

/-! Everything one datagram can do to the pending table of the server handshake. -/
namespace PqTunnel.ServerHandshake
open FragmentAssembler

variable {T : CryptoTypes} {P : Primitives T}

variable (s : ServerHandshake T)

@[simp] theorem pruneRate_pending (now : ℕ) :
    (s.pruneRate now).pending = s.pending ∧ (s.pruneRate now).cfg = s.cfg := by
  unfold pruneRate
  split_ifs <;> exact ⟨rfl, rfl⟩

variable {t : Table SocketAddr RateBucket} {order : List SocketAddr}

theorem evictOldest_below {cap : ℕ} (h : t.size < cap) : evictOldest cap order t = (order, t) := by
  cases order with
  | nil => rfl
  | cons victim order => rw [evictOldest, if_neg (not_le.mpr h)]

/-- Room for one more source: nothing goes below the bound, and the oldest source at the bound. -/
theorem evictOldest_cases {cap : ℕ} (h : t.Queued cap order) (hcap : 1 ≤ cap) :
    (t.size < cap ∧ evictOldest cap order t = (order, t)) ∨
    ∃ victim rest, t.size = cap ∧ order = victim :: rest ∧
      evictOldest cap order t = (rest, t.remove victim) := by
  rcases h.size.lt_or_eq with hroom | hfull
  · exact Or.inl ⟨hroom, evictOldest_below hroom⟩
  · right
    have hlen := h.length
    cases order with
    | nil =>
      rw [List.length_nil] at hlen
      omega
    | cons victim rest =>
      have hpop := h.pop.2
      refine ⟨victim, rest, hfull, rfl, ?_⟩
      rw [evictOldest, if_pos hfull.ge]
      exact evictOldest_below (by omega)

theorem evictOldest_room {cap : ℕ} (h : t.Queued cap order) (hcap : 1 ≤ cap) :
    (evictOldest cap order t).2.Queued cap (evictOldest cap order t).1 ∧
      (evictOldest cap order t).2.size < cap := by
  rcases evictOldest_cases h hcap with ⟨hroom, heq⟩ | ⟨victim, rest, hfull, rfl, heq⟩
  · rw [heq]
    exact ⟨h, hroom⟩
  · obtain ⟨hrest, hroom⟩ := h.pop
    have hlt : (t.remove victim).size < cap := by omega
    rw [heq]
    exact ⟨hrest, hlt⟩

theorem get_evictOldest (cap : ℕ) (order : List SocketAddr) (t : Table SocketAddr RateBucket)
    (k : SocketAddr) : (evictOldest cap order t).2.get k = t.get k ∨
      (evictOldest cap order t).2.get k = none := by
  induction order generalizing t with
  | nil => exact Or.inl rfl
  | cons victim order ih =>
    rw [evictOldest]
    split_ifs
    · rcases ih (t.remove victim) with h | h
      · rw [h, Table.get_remove]
        split_ifs
        · exact Or.inr rfl
        · exact Or.inl rfl
      · exact Or.inr h
    · exact Or.inl rfl

theorem rateOk_frame (src : SocketAddr) (now : ℕ) :
    (s.rateOk src now).2.pending = s.pending ∧ (s.rateOk src now).2.cfg = s.cfg := by
  obtain ⟨hp, hc⟩ := s.pruneRate_pending now
  simp only [rateOk]
  split
  · split_ifs <;> exact ⟨hp, hc⟩
  · exact ⟨hp, hc⟩

structure AwaitingM1 (e : PendingSession T) (Q : ℕ → Bytes → Prop) : Prop where
  state : e.state = .awaitM1
  assembler : ∃ asm, e.assembler = some asm ∧
    asm.Holds hsTypeClientHello m1FragCount m1BodyLen Q

structure AwaitingM3 (e : PendingSession T) : Prop where
  state : e.state = .awaitM3
  assembler : e.assembler = none
  m1Body : ∃ m1, e.m1Body = some m1 ∧ m1.length = m1BodyLen
  m2Cache : ∃ m2, e.m2Cache = some m2 ∧ m2.length = m2BodyLen
  skS : ∃ sk, e.skS = some sk
  verifiedClient : ∃ pk, e.verifiedClient = some pk

def EntryOk (e : PendingSession T) : Prop := AwaitingM1 e (fun _ _ => True) ∨ AwaitingM3 e

def PendingOk (s : ServerHandshake T) : Prop :=
  ∀ sid e, s.pending.get sid = some e → EntryOk e

variable {e : PendingSession T}

theorem EntryOk.awaitingM3 (h : EntryOk e) (hstate : e.state = .awaitM3) : AwaitingM3 e := by
  rcases h with h | h
  · rw [h.state] at hstate
    cases hstate
  · exact h

theorem EntryOk.awaitingM1 (h : EntryOk e) (hstate : e.state = .awaitM1) :
    AwaitingM1 e fun _ _ => True := by
  rcases h with h | h
  · exact h
  · rw [h.state] at hstate
    cases hstate

/-- The pending table once the expired entries are gone. -/
def live (s : ServerHandshake T) (clock : Clock) : Table SessionId (PendingSession T) :=
  (s.evictExpired clock.evict).pending

theorem get_of_live {s : ServerHandshake T} {clock : Clock} {sid : SessionId}
    (h : (s.live clock).get sid = some e) : s.pending.get sid = some e :=
  (Table.get_of_retain h).1

theorem rateOk_live (src : SocketAddr) (clock : Clock) :
    ∃ ok s', (s.evictExpired clock.evict).rateOk src clock.rate = (ok, s') ∧
      s'.pending = s.live clock ∧ s'.cfg = s.cfg :=
  ⟨_, _, rfl, rateOk_frame (s.evictExpired clock.evict) src clock.rate⟩

theorem evictExpired_twice (now : ℕ) :
    (s.evictExpired now).evictExpired now = s.evictExpired now :=
  congrArg (fun t => { s with pending := t }) (Table.retain_retain _ s.pending)

def m2For (P : Primitives T) (cfg : ServerConfig T) (sid : SessionId) (m1 : ClientHello T)
    (m1Bytes : Bytes) (draw : ServerDraw T) : Bytes :=
  let ct2 := (P.kemEncapsulate m1.ephPkC draw.rand).2
  let m2Z := encodeM2 P cfg.version sid (P.kemPublic draw.kemSk) (P.xPublic draw.xSk) ct2 none
  encodeM2 P cfg.version sid (P.kemPublic draw.kemSk) (P.xPublic draw.xSk) ct2
    (some (P.sigSign cfg.identity (P.sha256 (th2Input m1Bytes m2Z)).toList))

def m2Frags (version : UInt8) (sid : SessionId) (m2Bytes : Bytes) : List WirePacket :=
  (List.range m2FragCount.toNat).map
    (fragmentPacket hsTypeServerHello version m2FragCount sid m2Bytes)

/-- A handshake fragment of the given type for an entry that its source created. -/
structure Addressed (s : ServerHandshake T) (pkt : WirePacket) (src : SocketAddr)
    (clock : Clock) (hsType : UInt8) (frag : HandshakeFragment) (entry : PendingSession T) :
    Prop where
  parsed : HandshakeFragment.fromDatagram pkt = .ok frag
  hsType : frag.hsType = hsType
  found : (s.live clock).get frag.sid = some entry
  source : entry.source = src

/-- A complete M1 that the server answers, with the roster key that verified it. -/
structure Answered (P : Primitives T) (cfg : ServerConfig T) (sid : SessionId)
    (m1Bytes : Bytes) (draw : ServerDraw T) (m1 : ClientHello T) (client : T.SigPk)
    (dhCs : Secret) : Prop where
  decoded : ClientHello.decode P m1Bytes = .ok m1
  version : m1.version = cfg.version
  sid : m1.sid = sid
  onRoster : client ∈ cfg.roster
  verified : P.sigVerify client (P.sha256 (th1Input m1Bytes)).toList m1.clientSig = true
  agreed : P.diffieHellman draw.xSk m1.xC = some dhCs

def answeredEntry (P : Primitives T) (cfg : ServerConfig T) (sid : SessionId)
    (entry : PendingSession T) (m1Bytes : Bytes) (draw : ServerDraw T) (m1 : ClientHello T)
    (client : T.SigPk) (dhCs : Secret) (now : ℕ) : PendingSession T :=
  { entry with
    state := .awaitM3
    m1Body := some m1Bytes
    m2Cache := some (m2For P cfg sid m1 m1Bytes draw)
    ssA := (P.kemEncapsulate m1.ephPkC draw.rand).1
    dhCs := dhCs
    skS := some draw.kemSk
    verifiedClient := some client
    assembler := none
    lastSeen := now }

/-- An M3 whose Finished value matches the one the server expects. -/
structure Confirmed (P : Primitives T) (cfg : ServerConfig T) (frag : HandshakeFragment)
    (entry : PendingSession T) (m3 : ClientConfirm) (skS : T.KemSk) (m1 m2 : Bytes)
    (master : MasterSecret) (finishedKey : Secret) (peer : T.SigPk) : Prop where
  state : entry.state = .awaitM3
  decoded : ClientConfirm.decode frag.body = .ok m3
  version : m3.version = cfg.version
  sid : m3.sid = frag.sid
  ephemeral : entry.skS = some skS
  m1Body : entry.m1Body = some m1
  m2Cache : entry.m2Cache = some m2
  derived : deriveMaster P entry.ssA (P.kemDecapsulate skS m3.ct3) entry.dhCs m3.version frag.sid
    (P.sha256 (th3Input m1 m2 frag.body)) = .ok master
  keyed : Kdf.deriveFinishedKey P master m3.version frag.sid.toList = .ok finishedKey
  finished : Kdf.computeClientFinished P finishedKey (P.sha256 (th3Input m1 m2 frag.body)) =
    m3.clientFinished
  verifiedClient : entry.verifiedClient = some peer

/-- The moves of the pending table, with the event each one returns. -/
inductive Move (P : Primitives T) (s : ServerHandshake T) (pkt : WirePacket) (src : SocketAddr)
    (clock : Clock) (draw : ServerDraw T) :
    Except (Fault HandshakeV2Error) (ServerEvent T) → Table SessionId (PendingSession T) → Prop
    where
  | untouched : Move P s pkt src clock draw (.ok .none) s.pending
  | evicted : Move P s pkt src clock draw (.ok .none) (s.live clock)
  | opened (frag : HandshakeFragment) (asm : FragmentAssembler)
      (hparsed : HandshakeFragment.fromDatagram pkt = .ok frag)
      (htype : frag.hsType = hsTypeClientHello) (hidx : frag.fragIdx = 0)
      (hnone : (s.live clock).get frag.sid = none)
      (hroom : (s.live clock).size < s.cfg.maxPending)
      (hasm : FragmentAssembler.new hsTypeClientHello = some asm) :
      Move P s pkt src clock draw (.ok .none) ((s.live clock).put frag.sid
        (PendingSession.new src clock.touch (asm.store frag)))
  | stored (frag : HandshakeFragment) (entry : PendingSession T) (asm : FragmentAssembler)
      (lastSeen : ℕ) (hto : Addressed s pkt src clock hsTypeClientHello frag entry)
      (hstate : entry.state = .awaitM1) (hasm : entry.assembler = some asm)
      (hawait : asm.Awaits frag) :
      Move P s pkt src clock draw (.ok .none) ((s.live clock).put frag.sid
        { entry with assembler := some (asm.store frag), lastSeen := lastSeen })
  | rejected (frag : HandshakeFragment) (entry : PendingSession T) (asm : FragmentAssembler)
      (hto : Addressed s pkt src clock hsTypeClientHello frag entry)
      (hstate : entry.state = .awaitM1) (hasm : entry.assembler = some asm)
      (hawait : asm.Awaits frag) (hdone : (asm.store frag).complete = true)
      (hbad : ∀ m1 client dhCs,
        ¬ Answered P s.cfg frag.sid (asm.store frag).buffer draw m1 client dhCs) :
      Move P s pkt src clock draw (.ok .none) ((s.live clock).remove frag.sid)
  | answered (frag : HandshakeFragment) (entry : PendingSession T) (asm : FragmentAssembler)
      (m1 : ClientHello T) (client : T.SigPk) (dhCs : Secret)
      (hto : Addressed s pkt src clock hsTypeClientHello frag entry)
      (hstate : entry.state = .awaitM1) (hasm : entry.assembler = some asm)
      (hawait : asm.Awaits frag) (hdone : (asm.store frag).complete = true)
      (hans : Answered P s.cfg frag.sid (asm.store frag).buffer draw m1 client dhCs) :
      Move P s pkt src clock draw
        (.ok (.emit (m2Frags s.cfg.version frag.sid
          (m2For P s.cfg frag.sid m1 (asm.store frag).buffer draw)) src))
        ((s.live clock).put frag.sid (answeredEntry P s.cfg frag.sid entry (asm.store frag).buffer
          draw m1 client dhCs clock.touch))
  | resent (frag : HandshakeFragment) (entry : PendingSession T) (m2 : Bytes)
      (hto : Addressed s pkt src clock hsTypeClientHello frag entry)
      (hstate : entry.state = .awaitM3) (hm2 : entry.m2Cache = some m2) (hidx : frag.fragIdx = 0) :
      Move P s pkt src clock draw (.ok (.emit (m2Frags s.cfg.version frag.sid m2) src))
        ((s.live clock).put frag.sid { entry with lastSeen := clock.touch })
  | revoked (frag : HandshakeFragment) (entry : PendingSession T) (m3 : ClientConfirm)
      (skS : T.KemSk) (m1 m2 : Bytes) (master : MasterSecret) (finishedKey : Secret)
      (peer : T.SigPk) (hto : Addressed s pkt src clock hsTypeClientConfirm frag entry)
      (hconf : Confirmed P s.cfg frag entry m3 skS m1 m2 master finishedKey peer)
      (hroster : s.rosterContains P peer = false) :
      Move P s pkt src clock draw (.ok .none) ((s.live clock).remove frag.sid)
  | completed (frag : HandshakeFragment) (entry : PendingSession T) (m3 : ClientConfirm)
      (skS : T.KemSk) (m1 m2 : Bytes) (master : MasterSecret) (finishedKey : Secret)
      (peer : T.SigPk) (hto : Addressed s pkt src clock hsTypeClientConfirm frag entry)
      (hconf : Confirmed P s.cfg frag entry m3 skS m1 m2 master finishedKey peer)
      (hroster : s.rosterContains P peer = true) :
      Move P s pkt src clock draw
        (.ok (.complete { master, sessionId := frag.sid, peerIdentity := peer
                          handshakeDuration := clock.touch - entry.started }))
        ((s.live clock).remove frag.sid)
  | kdfFailed (e : CryptoError) (hkdf : ¬ Kdf.HkdfTotal P) :
      Move P s pkt src clock draw (.error (.err (.crypto e))) (s.live clock)

/-- A step of the machine makes a move and keeps the configuration. -/
def Does (P : Primitives T) (s : ServerHandshake T) (pkt : WirePacket) (src : SocketAddr)
    (clock : Clock) (draw : ServerDraw T) (r : ServerStep T) : Prop :=
  Move P s pkt src clock draw r.1 r.2.pending ∧ r.2.cfg = s.cfg

/-- The pass over the roster succeeds exactly with a key that verifies. -/
theorem authLoop_cases (roster : List T.SigPk) (th1 : Secret) (sig : T.Sig) :
    (authLoop P roster th1 sig = (false, none) ∧
        ∀ pk ∈ roster, P.sigVerify pk th1.toList sig = false) ∨
      ∃ pk ∈ roster, authLoop P roster th1 sig = (true, some pk) ∧
        P.sigVerify pk th1.toList sig = true := by
  induction roster using List.reverseRecOn with
  | nil => exact Or.inl ⟨rfl, fun _ h => absurd h List.not_mem_nil⟩
  | append_singleton roster pk ih =>
    simp only [authLoop, List.foldl_append, List.foldl_cons, List.foldl_nil] at ih ⊢
    cases hpk : P.sigVerify pk th1.toList sig with
    | true =>
      right
      exact ⟨pk, by simp, by simp, hpk⟩
    | false =>
      rcases ih with ⟨hacc, hnone⟩ | ⟨pk', hmem, hacc, hver⟩
      · left
        rw [hacc]
        refine ⟨by simp, fun k hk => ?_⟩
        rcases List.mem_append.mp hk with h | h
        · exact hnone k h
        · rw [List.mem_singleton.mp h, hpk]
      · right
        refine ⟨pk', by simp [hmem], ?_, hver⟩
        rw [hacc]
        simp

theorem length_m2For (cfg : ServerConfig T) (sid : SessionId) (m1 : ClientHello T)
    (m1Bytes : Bytes) (draw : ServerDraw T) :
    (m2For P cfg sid m1 m1Bytes draw).length = m2BodyLen := by
  simp only [m2For, length_encodeM2]

theorem exists_m2For (cfg : ServerConfig T) (sid : SessionId) (m1 : ClientHello T)
    (m1Bytes : Bytes) (draw : ServerDraw T) : ∃ version xS ct2 sig,
      m2For P cfg sid m1 m1Bytes draw =
        encodeM2 P version sid (P.kemPublic draw.kemSk) xS ct2 sig := by
  unfold m2For
  exact ⟨_, _, _, _, rfl⟩

theorem answerM1_eq (sid : SessionId) (m1 : ClientHello T) {m1Bytes : Bytes}
    (h : m1Bytes.length = m1BodyLen) (draw : ServerDraw T) :
    s.answerM1 P sid m1 m1Bytes draw = .ok (m2For P s.cfg sid m1 m1Bytes draw) := by
  simp only [answerM1, th2FromM1M2_eq h (length_encodeM2 ..), ServerHello.encode, m2For]

theorem fragmentMessage_m2 (version : UInt8) (sid : SessionId) {m2 : Bytes}
    (h : m2.length = m2BodyLen) :
    liftCodec (fragmentMessage hsTypeServerHello version sid m2) =
      .ok (m2Frags version sid m2) := by
  rw [fragmentMessage_eq layout_m2 version sid h]
  rfl

/-- A complete M1 is either answered or costs its entry. -/
theorem completeM1_cases {s : ServerHandshake T} {sid : SessionId} {entry : PendingSession T}
    (hget : s.pending.get sid = some entry) {m1Bytes : Bytes}
    (hlen : m1Bytes.length = m1BodyLen) (src : SocketAddr) (now : ℕ) (draw : ServerDraw T) :
    (s.completeM1 P sid m1Bytes src now draw = (.ok .none, s.removePending sid) ∧
        ∀ m1 client dhCs, ¬ Answered P s.cfg sid m1Bytes draw m1 client dhCs) ∨
      ∃ m1 client dhCs, Answered P s.cfg sid m1Bytes draw m1 client dhCs ∧
        s.completeM1 P sid m1Bytes src now draw =
          (.ok (.emit (m2Frags s.cfg.version sid (m2For P s.cfg sid m1 m1Bytes draw)) src),
            s.putPending sid
              (answeredEntry P s.cfg sid entry m1Bytes draw m1 client dhCs now)) := by
  simp only [completeM1]
  cases hdec : ClientHello.decode P m1Bytes with
  | error e =>
    left
    refine ⟨rfl, fun m1 client dhCs h => ?_⟩
    rw [h.decoded] at hdec
    cases hdec
  | ok m1 =>
    have hsame : ∀ {m1' client dhCs}, Answered P s.cfg sid m1Bytes draw m1' client dhCs →
        m1' = m1 := fun h => Except.ok.inj (h.decoded.symm.trans hdec)
    dsimp only
    split
    · rename_i hver
      left
      refine ⟨rfl, fun m1' client dhCs h => ?_⟩
      obtain rfl := hsame h
      rcases hver with hver | hsid
      · exact hver h.version
      · exact hsid h.sid
    · rename_i hver
      rw [not_or, not_not, not_not] at hver
      rw [th1FromM1_eq hlen]
      rcases authLoop_cases (P := P) s.cfg.roster (P.sha256 (th1Input m1Bytes)) m1.clientSig with
        ⟨hauth, hnone⟩ | ⟨client, hmem, hauth, hsig⟩
      · left
        simp only [hauth, if_true]
        refine ⟨trivial, fun m1' client dhCs h => ?_⟩
        obtain rfl := hsame h
        have hbad := hnone client h.onRoster
        rw [h.verified] at hbad
        cases hbad
      · simp only [hauth, Bool.true_eq_false, if_false]
        cases hdh : P.diffieHellman draw.xSk m1.xC with
        | none =>
          left
          refine ⟨rfl, fun m1' client dhCs h => ?_⟩
          obtain rfl := hsame h
          rw [h.agreed] at hdh
          cases hdh
        | some dhCs =>
          right
          refine ⟨m1, client, dhCs, ⟨hdec, hver.1, hver.2, hmem, hsig, hdh⟩, ?_⟩
          simp only [answerM1_eq s sid m1 hlen, fragmentMessage_m2 s.cfg.version sid
            (length_m2For (P := P) s.cfg sid m1 m1Bytes draw), hget]
          rfl

section Steps

variable {s : ServerHandshake T} {pkt : WirePacket} {src : SocketAddr} {clock : Clock}
  {draw : ServerDraw T} {frag : HandshakeFragment} {entry : PendingSession T}

theorem onAwaitM1_does (hto : Addressed s pkt src clock hsTypeClientHello frag entry)
    (hentry : AwaitingM1 entry fun _ _ => True) :
    Does P s pkt src clock draw
      ((s.evictExpired clock.evict).onAwaitM1 P frag entry src clock draw) := by
  obtain ⟨hstate, asm, hasm, hholds⟩ := hentry
  obtain ⟨len, hp⟩ := fromDatagram_ok hto.parsed
  simp only [onAwaitM1, hasm]
  by_cases hw : asm.Awaits frag
  · rw [addFragment_stored hholds hp hw]
    have hlen : (asm.store frag).buffer.length = m1BodyLen := (hholds.store hp hw trivial).len
    cases hdone : (asm.store frag).complete with
    | false =>
      exact ⟨.stored frag entry asm clock.touch hto hstate hasm hw, rfl⟩
    | true =>
      simp only [if_true]
      obtain ⟨hpend, hcfg⟩ := rateOk_frame ((s.evictExpired clock.evict).putPending frag.sid
        { entry with assembler := some (asm.store frag) }) src clock.rate
      generalize ((s.evictExpired clock.evict).putPending frag.sid
        { entry with assembler := some (asm.store frag) }).rateOk src clock.rate = r at hpend hcfg
      obtain ⟨ok, s'⟩ := r
      dsimp only at hpend hcfg
      cases ok with
      | false =>
        -- the rate limiter refuses: the piece stays, with the old activity time
        refine ⟨?_, hcfg⟩
        rw [hpend]
        exact .stored frag entry asm entry.lastSeen hto hstate hasm hw
      | true =>
        have hmsg : (asm.store frag).message = some (asm.store frag).buffer := by
          simp only [message, hdone, if_true]
        simp only [hmsg]
        have hget : s'.pending.get frag.sid =
            some { entry with assembler := some (asm.store frag) } := by
          rw [hpend]
          exact Table.get_put_self ..
        have hlive : s'.pending = (s.live clock).put frag.sid
            { entry with assembler := some (asm.store frag) } := hpend
        replace hcfg : s'.cfg = s.cfg := hcfg
        rcases completeM1_cases (P := P) hget hlen src clock.touch draw with
          ⟨h, hbad⟩ | ⟨m1, client, dhCs, hans, h⟩
        · rw [h]
          rw [hcfg] at hbad
          refine ⟨?_, hcfg⟩
          rw [removePending, hlive, Table.remove_put_self]
          exact .rejected frag entry asm hto hstate hasm hw hdone hbad
        · rw [h, hcfg]
          rw [hcfg] at hans
          refine ⟨?_, hcfg⟩
          rw [putPending, hlive, Table.put_put_self]
          exact .answered frag entry asm m1 client dhCs hto hstate hasm hw hdone hans
  · rw [addFragment_ignored hw]
    exact ⟨.evicted, rfl⟩

theorem resendM2_does (hto : Addressed s pkt src clock hsTypeClientHello frag entry)
    (hentry : AwaitingM3 entry) :
    Does P s pkt src clock draw ((s.evictExpired clock.evict).resendM2 frag entry src clock) := by
  obtain ⟨m2, hm2, hlen⟩ := hentry.m2Cache
  unfold resendM2
  split
  · rename_i hnone
    rw [hm2] at hnone
    cases hnone
  · rename_i body hbody
    obtain rfl : m2 = body := Option.mem_unique hm2 hbody
    split
    · exact ⟨.evicted, rfl⟩
    · rename_i hidx
      obtain ⟨ok, s', hrate, hpend, hcfg⟩ := s.rateOk_live src clock
      rw [hrate]
      cases ok with
      | false => exact ⟨hpend ▸ .evicted, hcfg⟩
      | true =>
        dsimp only
        rw [fragmentMessage_m2 _ _ hlen]
        refine ⟨?_, hcfg⟩
        simp only [putPending, hpend, hcfg, hto.source]
        have hmove : Move P s pkt src clock draw _ _ :=
          .resent frag entry m2 hto hentry.state hm2 (not_not.mp hidx)
        rwa [hto.source] at hmove

theorem openEntry_does (hparsed : HandshakeFragment.fromDatagram pkt = .ok frag)
    (htype : frag.hsType = hsTypeClientHello) (hnone : (s.live clock).get frag.sid = none) :
    Does P s pkt src clock draw ((s.evictExpired clock.evict).openEntry frag src clock) := by
  obtain ⟨len, hp⟩ := fromDatagram_ok hparsed
  simp only [openEntry]
  split
  · exact ⟨.evicted, rfl⟩
  · rename_i hidx
    obtain ⟨ok, s', hrate, hpend, hcfg⟩ := s.rateOk_live src clock
    rw [hrate]
    cases ok with
    | false => exact ⟨hpend ▸ .evicted, hcfg⟩
    | true =>
      obtain ⟨asm, hnew, hholds, hfresh⟩ :=
        new_holds layout_m1 (fun _ _ => True)
      dsimp only
      rw [hcfg, hpend, hnew]
      split
      · refine ⟨?_, hcfg⟩
        rw [hpend]
        exact .evicted
      · rename_i hroom
        have hw : asm.Awaits frag := hholds.awaits hp htype (hfresh _)
        simp only [addFragment_stored hholds hp hw]
        refine ⟨?_, hcfg⟩
        rw [putPending, hpend]
        exact .opened frag asm hparsed htype (not_not.mp hidx) hnone (not_le.mp hroom) hnew

/-- An M3 that matches a pending entry confirms it, loses it to a revocation, or changes
nothing. -/
theorem confirm_does (hto : Addressed s pkt src clock hsTypeClientConfirm frag entry)
    (hentry : AwaitingM3 entry) {s' : ServerHandshake T} (hpend : s'.pending = s.live clock)
    (hcfg : s'.cfg = s.cfg) {m3 : ClientConfirm} (hdec : ClientConfirm.decode frag.body = .ok m3)
    (hver : m3.version = s.cfg.version) (hsid : m3.sid = frag.sid) {skS : T.KemSk}
    (hsk : entry.skS = some skS) :
    Does P s pkt src clock draw (s'.confirm P frag entry m3 skS clock.touch) := by
  obtain ⟨m1, hm1, hlen1⟩ := hentry.m1Body
  obtain ⟨m2, hm2, hlen2⟩ := hentry.m2Cache
  obtain ⟨peer, hpeer⟩ := hentry.verifiedClient
  have hlen3 : frag.body.length = m3BodyLen := (ClientConfirm.decode_ok hdec).len
  have hroster : s'.rosterContains P peer = s.rosterContains P peer := by
    simp only [rosterContains, hcfg]
  simp only [confirm, hm1, hm2, th3FromM1M2M3_eq hlen1 hlen2 hlen3, hpeer]
  cases hmaster : deriveMaster P entry.ssA (P.kemDecapsulate skS m3.ct3) entry.dhCs m3.version
      frag.sid (P.sha256 (th3Input m1 m2 frag.body)) with
  | error e =>
    obtain ⟨e', rfl, hkdf⟩ := deriveMaster_error hmaster
    exact ⟨hpend ▸ .kdfFailed e' hkdf, hcfg⟩
  | ok master =>
    dsimp only
    cases hkey : Kdf.deriveFinishedKey P master m3.version frag.sid.toList with
    | error e =>
      exact ⟨hpend ▸ .kdfFailed e fun htotal => htotal.ne_error (by decide) hkey, hcfg⟩
    | ok finishedKey =>
      dsimp only
      split
      · exact ⟨hpend ▸ .evicted, hcfg⟩
      · rename_i hfin
        have hconf : Confirmed P s.cfg frag entry m3 skS m1 m2 master finishedKey peer :=
          ⟨hentry.state, hdec, hver, hsid, hsk, hm1, hm2, hmaster, hkey, not_not.mp hfin, hpeer⟩
        rw [hroster]
        split
        · rename_i hoff
          refine ⟨?_, hcfg⟩
          rw [removePending, hpend]
          exact .revoked frag entry m3 skS m1 m2 master finishedKey peer hto hconf hoff
        · rename_i hon
          refine ⟨?_, hcfg⟩
          rw [removePending, hpend]
          exact .completed frag entry m3 skS m1 m2 master finishedKey peer hto hconf
            (Bool.not_eq_false _ ▸ hon)

theorem onM3Fragment_does (hok : PendingOk s) (htype : hsTypeOf pkt = hsTypeClientConfirm) :
    Does P s pkt src clock draw (s.onM3Fragment P pkt src clock) := by
  simp only [onM3Fragment]
  rcases fromDatagram_cases pkt with ⟨e, he⟩ | ⟨frag, len, hf, hp⟩
  · rw [he]
    exact ⟨.untouched, rfl⟩
  · rw [hf]
    cases hget : (s.live clock).get frag.sid with
    | none =>
      replace hget : (s.evictExpired clock.evict).pending.get frag.sid = none := hget
      simp only [hget]
      exact ⟨.evicted, rfl⟩
    | some entry =>
      have hget' : (s.evictExpired clock.evict).pending.get frag.sid = some entry := hget
      simp only [hget']
      split
      · exact ⟨.evicted, rfl⟩
      · rename_i hsrc
        rw [not_or, not_not, not_not] at hsrc
        have hto : Addressed s pkt src clock hsTypeClientConfirm frag entry :=
          ⟨hf, hp.hsType.trans htype, hget, hsrc.1⟩
        have hentry : AwaitingM3 entry := (hok _ _ (get_of_live hget)).awaitingM3 hsrc.2
        obtain ⟨sk, hsk⟩ := hentry.skS
        obtain ⟨ok, s', hrate, hpend, hcfg⟩ := s.rateOk_live src clock
        rw [hrate]
        have hquiet : Does P s pkt src clock draw (.ok .none, s') :=
          ⟨hpend ▸ .evicted, hcfg⟩
        cases ok with
        | false => exact hquiet
        | true =>
          dsimp only
          cases hdec : ClientConfirm.decode frag.body with
          | error e => exact hquiet
          | ok m3 =>
            dsimp only
            split
            · exact hquiet
            · rename_i hm3
              rw [not_or, not_not, not_not, hcfg] at hm3
              simp only [hsk]
              exact confirm_does hto hentry hpend hcfg hdec hm3.1 hm3.2 hsk

theorem onM1Fragment_does (hok : PendingOk s) (htype : hsTypeOf pkt = hsTypeClientHello) :
    Does P s pkt src clock draw (s.onM1Fragment P pkt src clock draw) := by
  simp only [onM1Fragment]
  rcases fromDatagram_cases pkt with ⟨e, he⟩ | ⟨frag, len, hf, hp⟩
  · rw [he]
    exact ⟨.untouched, rfl⟩
  · rw [hf]
    have hfrag := hp.hsType.trans htype
    cases hget : (s.live clock).get frag.sid with
    | none =>
      have hget' : (s.evictExpired clock.evict).pending.get frag.sid = none := hget
      simp only [hget']
      exact openEntry_does hf hfrag hget
    | some entry =>
      have hget' : (s.evictExpired clock.evict).pending.get frag.sid = some entry := hget
      simp only [hget']
      split
      · exact ⟨.evicted, rfl⟩
      · rename_i hsrc
        have hto : Addressed s pkt src clock hsTypeClientHello frag entry :=
          ⟨hf, hfrag, hget, not_not.mp hsrc⟩
        rcases hok _ _ (get_of_live hget) with h | h
        · rw [h.state]
          exact onAwaitM1_does hto h
        · rw [h.state]
          exact resendM2_does hto h

end Steps

theorem handleDatagram_does {s : ServerHandshake T} (hok : PendingOk s) (pkt : WirePacket)
    (src : SocketAddr) (clock : Clock) (draw : ServerDraw T) :
    Does P s pkt src clock draw (s.handleDatagram P pkt src clock draw) := by
  simp only [handleDatagram]
  split_ifs with h1 h3
  · exact onM1Fragment_does hok h1
  · exact onM3Fragment_does hok h3
  · exact ⟨.untouched, rfl⟩

theorem PendingOk.swept {s : ServerHandshake T} (h : PendingOk s) (clock : Clock) :
    PendingOk (s.evictExpired clock.evict) := fun sid e hget => h sid e (get_of_live hget)

/-- A fragment meets the table as its sweep leaves it. -/
theorem handleDatagram_swept {s : ServerHandshake T} {pkt : WirePacket} {src : SocketAddr}
    {clock : Clock} {draw : ServerDraw T} {frag : HandshakeFragment}
    (hparsed : HandshakeFragment.fromDatagram pkt = .ok frag)
    (htype : hsTypeOf pkt = hsTypeClientHello ∨ hsTypeOf pkt = hsTypeClientConfirm) :
    (s.evictExpired clock.evict).handleDatagram P pkt src clock draw =
      s.handleDatagram P pkt src clock draw := by
  simp only [handleDatagram, onM1Fragment, onM3Fragment, hparsed, evictExpired_twice]
  split_ifs with hhello hconfirm
  · rfl
  · rfl
  · exact absurd htype (not_or.mpr ⟨hhello, hconfirm⟩)

/-- Where an entry of the table after a move comes from. -/
inductive EntryStep (P : Primitives T) (s : ServerHandshake T) (pkt : WirePacket)
    (src : SocketAddr) (clock : Clock) (draw : ServerDraw T) (sid : SessionId) :
    PendingSession T → Prop where
  | kept (e : PendingSession T) (h : s.pending.get sid = some e) :
      EntryStep P s pkt src clock draw sid e
  | opened (frag : HandshakeFragment) (asm : FragmentAssembler)
      (hparsed : HandshakeFragment.fromDatagram pkt = .ok frag)
      (htype : frag.hsType = hsTypeClientHello) (hsid : frag.sid = sid)
      (hasm : FragmentAssembler.new hsTypeClientHello = some asm) :
      EntryStep P s pkt src clock draw sid (PendingSession.new src clock.touch (asm.store frag))
  | stored (frag : HandshakeFragment) (entry : PendingSession T) (asm : FragmentAssembler)
      (lastSeen : ℕ) (hsid : frag.sid = sid)
      (hto : Addressed s pkt src clock hsTypeClientHello frag entry)
      (hstate : entry.state = .awaitM1) (hasm : entry.assembler = some asm)
      (hawait : asm.Awaits frag) :
      EntryStep P s pkt src clock draw sid
        { entry with assembler := some (asm.store frag), lastSeen := lastSeen }
  | answered (frag : HandshakeFragment) (entry : PendingSession T) (asm : FragmentAssembler)
      (m1 : ClientHello T) (client : T.SigPk) (dhCs : Secret) (hsid : frag.sid = sid)
      (hto : Addressed s pkt src clock hsTypeClientHello frag entry)
      (hstate : entry.state = .awaitM1) (hasm : entry.assembler = some asm)
      (hawait : asm.Awaits frag) (hdone : (asm.store frag).complete = true)
      (hans : Answered P s.cfg frag.sid (asm.store frag).buffer draw m1 client dhCs) :
      EntryStep P s pkt src clock draw sid (answeredEntry P s.cfg frag.sid entry
        (asm.store frag).buffer draw m1 client dhCs clock.touch)
  | resent (frag : HandshakeFragment) (entry : PendingSession T) (hsid : frag.sid = sid)
      (hto : Addressed s pkt src clock hsTypeClientHello frag entry)
      (hstate : entry.state = .awaitM3) :
      EntryStep P s pkt src clock draw sid { entry with lastSeen := clock.touch }

section EntrySteps

variable {s : ServerHandshake T} {pkt : WirePacket} {src : SocketAddr} {clock : Clock}
  {draw : ServerDraw T} {sid : SessionId} {e : PendingSession T}

theorem Addressed.get {hsType : UInt8} {frag : HandshakeFragment} {entry : PendingSession T}
    (h : Addressed s pkt src clock hsType frag entry) : s.pending.get frag.sid = some entry :=
  get_of_live h.found

variable {t : Table SessionId (PendingSession T)} {r : Except (Fault HandshakeV2Error) (ServerEvent T)}

/-- A move touches at most the entry its fragment names. -/
theorem Move.entryStep (hm : Move P s pkt src clock draw r t)
    (h : t.get sid = some e) : EntryStep P s pkt src clock draw sid e := by
  have hput : ∀ {k v}, ((s.live clock).put k v).get sid = some e →
      sid = k ∧ e = v ∨ EntryStep P s pkt src clock draw sid e := by
    intro k v hp
    rw [Table.get_put] at hp
    split_ifs at hp with hk
    · exact Or.inl ⟨hk, (Option.some.inj hp).symm⟩
    · exact Or.inr (.kept e (get_of_live hp))
  cases hm with
  | untouched => exact .kept e h
  | evicted | kdfFailed err => exact .kept e (get_of_live h)
  | opened frag asm hparsed htype hidx hnone hroom hasm =>
    rcases hput h with ⟨rfl, rfl⟩ | hk
    · exact .opened frag asm hparsed htype rfl hasm
    · exact hk
  | stored frag entry asm lastSeen hto hstate hasm hawait =>
    rcases hput h with ⟨rfl, rfl⟩ | hk
    · exact .stored frag entry asm lastSeen rfl hto hstate hasm hawait
    · exact hk
  | rejected frag entry | revoked frag entry | completed frag entry =>
    exact .kept e (get_of_live (Table.get_of_remove h).2)
  | answered frag entry asm m1 client dhCs hto hstate hasm hawait hdone hans =>
    rcases hput h with ⟨rfl, rfl⟩ | hk
    · exact .answered frag entry asm m1 client dhCs rfl hto hstate hasm hawait hdone hans
    · exact hk
  | resent frag entry m2 hto hstate =>
    rcases hput h with ⟨rfl, rfl⟩ | hk
    · exact .resent frag entry rfl hto hstate
    · exact hk

/-- An entry after a move continues the one before it, or was opened by the datagram. -/
theorem Move.origin (hm : Move P s pkt src clock draw r t) (h : t.get sid = some e) :
    (∃ e₀, s.pending.get sid = some e₀ ∧ e₀.source = e.source ∧ e₀.started = e.started) ∨
      ∃ frag asm, HandshakeFragment.fromDatagram pkt = .ok frag ∧
        frag.hsType = hsTypeClientHello ∧ frag.fragIdx = 0 ∧ frag.sid = sid ∧
        (s.live clock).get sid = none ∧
        e = PendingSession.new src clock.touch (FragmentAssembler.store asm frag) := by
  have hput : ∀ {k v}, ((s.live clock).put k v).get sid = some e →
      s.pending.get sid = some e ∨ sid = k ∧ v = e := by
    intro k v hget
    rw [Table.get_put] at hget
    split_ifs at hget with hk
    · exact .inr ⟨hk, Option.some.inj hget⟩
    · exact .inl (get_of_live hget)
  have hkeep : s.pending.get sid = some e →
      ∃ e₀, s.pending.get sid = some e₀ ∧ e₀.source = e.source ∧ e₀.started = e.started :=
    fun hget => ⟨e, hget, rfl, rfl⟩
  cases hm with
  | untouched => exact .inl (hkeep h)
  | opened frag asm hparsed htype hidx hnone =>
    rcases hput h with hget | ⟨rfl, rfl⟩
    · exact .inl (hkeep hget)
    · exact .inr ⟨frag, asm, hparsed, htype, hidx, rfl, hnone, rfl⟩
  | stored frag entry asm lastSeen hto | answered frag entry asm m1 client dhCs hto
  | resent frag entry m2 hto =>
    rcases hput h with hget | ⟨rfl, rfl⟩
    · exact .inl (hkeep hget)
    · exact .inl ⟨entry, hto.get, rfl, rfl⟩
  | rejected | revoked | completed => exact .inl (hkeep (get_of_live (Table.get_of_remove h).2))
  | evicted | kdfFailed => exact .inl (hkeep (get_of_live h))

/-- With a total HKDF no move is a failure. -/
theorem Move.ok (h : Move P s pkt src clock draw r t)
    (hkdf : Kdf.HkdfTotal P) : ∃ ev, r = .ok ev := by
  cases h with
  | kdfFailed e hfail => exact absurd hkdf hfail
  | _ => exact ⟨_, rfl⟩

/-- A Complete event means that a pending entry was confirmed and consumed. -/
theorem Move.of_complete {o : HandshakeOutcome T}
    (hm : Move P s pkt src clock draw (.ok (.complete o)) t) :
    ∃ frag entry m3 skS m1 m2 finishedKey,
      Addressed s pkt src clock hsTypeClientConfirm frag entry ∧
      Confirmed P s.cfg frag entry m3 skS m1 m2 o.master finishedKey o.peerIdentity ∧
      s.rosterContains P o.peerIdentity = true ∧ o.sessionId = frag.sid ∧
      t = (s.live clock).remove frag.sid := by
  cases hm with
  | completed frag entry m3 skS m1 m2 master finishedKey peer hto hconf hroster =>
    exact ⟨frag, entry, m3, skS, m1, m2, finishedKey, hto, hconf, hroster, rfl, rfl⟩

/-- A stored piece keeps an assembling entry well formed, and records where it came from. -/
theorem AwaitingM1.stored {entry : PendingSession T} {Q : ℕ → Bytes → Prop}
    (h : AwaitingM1 entry Q) {frag : HandshakeFragment}
    (hparsed : HandshakeFragment.fromDatagram pkt = .ok frag) {asm : FragmentAssembler}
    (hasm : entry.assembler = some asm) (hawait : asm.Awaits frag)
    (hQ : Q frag.fragIdx.toNat frag.body) (lastSeen : ℕ) :
    AwaitingM1 { entry with assembler := some (asm.store frag), lastSeen := lastSeen } Q := by
  obtain ⟨hstate, asm', hasm', hholds⟩ := h
  obtain rfl : asm = asm' := Option.mem_unique hasm hasm'
  obtain ⟨len, hp⟩ := fromDatagram_ok hparsed
  exact ⟨hstate, asm.store frag, rfl, hholds.store hp hawait hQ⟩

theorem AwaitingM1.opened (Q : ℕ → Bytes → Prop) {frag : HandshakeFragment}
    (hparsed : HandshakeFragment.fromDatagram pkt = .ok frag)
    (htype : frag.hsType = hsTypeClientHello) {asm : FragmentAssembler}
    (hasm : FragmentAssembler.new hsTypeClientHello = some asm)
    (hQ : Q frag.fragIdx.toNat frag.body) (now : ℕ) :
    AwaitingM1 (PendingSession.new (T := T) src now (asm.store frag)) Q := by
  obtain ⟨asm', hasm', hholds, hfresh⟩ := new_holds layout_m1 Q
  obtain rfl : asm = asm' := Option.mem_unique hasm hasm'
  obtain ⟨len, hp⟩ := fromDatagram_ok hparsed
  exact ⟨rfl, asm.store frag, rfl, hholds.store hp (hholds.awaits hp htype (hfresh _)) hQ⟩

theorem EntryStep.ok (hok : PendingOk s) (h : EntryStep P s pkt src clock draw sid e) :
    EntryOk e := by
  cases h with
  | kept _ hget => exact hok _ _ hget
  | opened frag asm hparsed htype hsid hasm =>
    exact Or.inl (AwaitingM1.opened _ hparsed htype hasm trivial _)
  | stored frag entry asm lastSeen hsid hto hstate hasm hawait =>
    rcases hok _ _ hto.get with h | h
    · exact Or.inl (h.stored hto.parsed hasm hawait trivial _)
    · rw [h.state] at hstate
      cases hstate
  | answered frag entry asm m1 client dhCs hsid hto hstate hasm hawait hdone hans =>
    have hlen : (asm.store frag).buffer.length = m1BodyLen :=
      (ClientHello.decode_ok hans.decoded).len
    exact Or.inr ⟨rfl, rfl, ⟨_, rfl, hlen⟩, ⟨_, rfl, length_m2For ..⟩, ⟨_, rfl⟩, ⟨_, rfl⟩⟩
  | resent frag entry hsid hto hstate =>
    have h := (hok _ _ hto.get).awaitingM3 hstate
    exact Or.inr ⟨h.state, h.assembler, h.m1Body, h.m2Cache, h.skS, h.verifiedClient⟩

end EntrySteps

theorem pendingOk_new (cfg : ServerConfig T) (now : ℕ) : PendingOk (new cfg now) := by
  intro sid e h
  rw [new, Table.get_empty] at h
  cases h

theorem pendingOk_handleDatagram {s : ServerHandshake T} (hok : PendingOk s) (pkt : WirePacket)
    (src : SocketAddr) (clock : Clock) (draw : ServerDraw T) :
    PendingOk (s.handleDatagram P pkt src clock draw).2 :=
  fun _ _ h => ((handleDatagram_does hok pkt src clock draw).1.entryStep h).ok hok

theorem setRoster_pending (s : ServerHandshake T) (roster : List T.SigPk) :
    (s.setRoster roster).2.pending = s.pending := by
  unfold setRoster
  split_ifs <;> rfl

end PqTunnel.ServerHandshake
