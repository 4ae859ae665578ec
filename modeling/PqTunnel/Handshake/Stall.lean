import PqTunnel.Handshake.Completion

/-! Whether an M1 that is fully assembled is also processed. The completing fragment enters the
assembler before the rate limiter is asked, so an entry whose source has no token left keeps a
complete assembler that ignores every later fragment. -/
namespace PqTunnel.ServerHandshake
open Transition FragmentAssembler

variable {T : CryptoTypes} {P : Primitives T}

def refill (cfg : ServerConfig T) (b : RateBucket) (now : ℕ) : RateBucket :=
  if cfg.rateLimitWindow ≤ now - b.lastRefill then
    { tokens := cfg.rateLimitBurst, lastRefill := now }
  else b

/-- The rate tokens a source can spend at a given time. -/
def tokensLeft (s : ServerHandshake T) (src : SocketAddr) (now : ℕ) : ℕ :=
  match s.rateBuckets.get src with
  | some b => (refill s.cfg b now).tokens
  | none => s.cfg.rateLimitBurst

theorem tokensLeft_pruneRate (s : ServerHandshake T) (src : SocketAddr) (now : ℕ) :
    (s.pruneRate now).tokensLeft src now = s.tokensLeft src now := by
  unfold pruneRate
  split_ifs
  · simp only [tokensLeft, Table.get_retain]
    cases s.rateBuckets.get src with
    | none => rfl
    | some b =>
      rw [Option.filter_some]
      by_cases hw : now - b.lastRefill < s.cfg.rateLimitWindow
      · simp only [hw, decide_true, if_true]
      · simp only [hw, decide_false, Bool.false_eq_true, if_false, refill, not_lt.mp hw, if_true]
  · rfl

structure Charged (s : ServerHandshake T) (src : SocketAddr) (now : ℕ) (b : RateBucket) :
    Prop where
  tokens : b.tokens = s.tokensLeft src now - 1
  lastRefill : b.lastRefill = now ∨
    ∃ old, s.rateBuckets.get src = some old ∧ b.lastRefill = old.lastRefill

theorem get_of_pruneRate {s : ServerHandshake T} {src : SocketAddr} {now : ℕ} {b : RateBucket}
    (h : (s.pruneRate now).rateBuckets.get src = some b) : s.rateBuckets.get src = some b := by
  unfold pruneRate at h
  split_ifs at h
  · exact (Table.get_of_retain h).1
  · exact h

/-- The rate limiter lets a source through exactly while it has a token, and charges it. -/
theorem rateOk_spec (s : ServerHandshake T) (src : SocketAddr) (now : ℕ) :
    (s.rateOk src now).1 = decide (0 < s.tokensLeft src now) ∧
      ∃ b, (s.rateOk src now).2.rateBuckets.get src = some b ∧ Charged s src now b := by
  have hleft := s.tokensLeft_pruneRate src now
  have hcfg := (s.pruneRate_pending now).2
  simp only [rateOk]
  cases hget : (s.pruneRate now).rateBuckets.get src with
  | none =>
    rw [show (s.pruneRate now).tokensLeft src now = (s.pruneRate now).cfg.rateLimitBurst by
      simp only [tokensLeft, hget]] at hleft
    rw [← hleft]
    refine ⟨rfl, _, Table.get_put_self .., ?_, Or.inl rfl⟩
    rw [← hleft]
    dsimp only
    split_ifs <;> omega
  | some b =>
    rw [tokensLeft, hget] at hleft
    dsimp only at hleft ⊢
    generalize hr : (if (s.pruneRate now).cfg.rateLimitWindow ≤ now - b.lastRefill then
      { tokens := (s.pruneRate now).cfg.rateLimitBurst, lastRefill := now } else b :
        RateBucket) = r
    have hlast : r.lastRefill = now ∨
        ∃ old, s.rateBuckets.get src = some old ∧ r.lastRefill = old.lastRefill := by
      rw [← hr]
      split_ifs
      · exact Or.inl rfl
      · exact Or.inr ⟨b, get_of_pruneRate hget, rfl⟩
    replace hr : refill (s.pruneRate now).cfg b now = r := hr
    rw [hr] at hleft
    rw [← hleft]
    split_ifs with hzero
    · exact ⟨by simp [hzero], r, Table.get_put_self .., by omega, hlast⟩
    · exact ⟨(decide_eq_true (Nat.pos_of_ne_zero hzero)).symm, _, Table.get_put_self ..,
        by rw [← hleft], hlast⟩

/-- What an M1 fragment does to the entry it is addressed to. -/
inductive Fed (P : Primitives T) (s : ServerHandshake T) (src : SocketAddr) (clock : Clock)
    (draw : ServerDraw T) (frag : HandshakeFragment) (entry : PendingSession T)
    (asm : FragmentAssembler) : ServerStep T → Prop where
  | ignored (hold : ¬ asm.Awaits frag) :
      Fed P s src clock draw frag entry asm (.ok .none, s.evictExpired clock.evict)
  | advanced (hnew : asm.Awaits frag) (hmore : (asm.store frag).complete = false) :
      Fed P s src clock draw frag entry asm
        (.ok .none, (s.evictExpired clock.evict).putPending frag.sid
          { entry with assembler := some (asm.store frag), lastSeen := clock.touch })
  | refused (hnew : asm.Awaits frag) (hdone : (asm.store frag).complete = true)
      (hempty : s.tokensLeft src clock.rate = 0) (s' : ServerHandshake T)
      (hpend : s'.pending = (s.live clock).put frag.sid
        { entry with assembler := some (asm.store frag) })
      (hcfg : s'.cfg = s.cfg)
      (hcharged : ∃ b, s'.rateBuckets.get src = some b ∧ Charged s src clock.rate b) :
      Fed P s src clock draw frag entry asm (.ok .none, s')
  | rejected (hnew : asm.Awaits frag) (hdone : (asm.store frag).complete = true)
      (htoken : 0 < s.tokensLeft src clock.rate) (s' : ServerHandshake T)
      (hgone : s'.pending.get frag.sid = none) :
      Fed P s src clock draw frag entry asm (.ok .none, s')
  | answered (hnew : asm.Awaits frag) (hdone : (asm.store frag).complete = true)
      (htoken : 0 < s.tokensLeft src clock.rate) (s' : ServerHandshake T)
      (m1 : ClientHello T) (entry' : PendingSession T)
      (hget : s'.pending.get frag.sid = some entry') (hstate : entry'.state = .awaitM3) :
      Fed P s src clock draw frag entry asm
        (.ok (.emit (m2Frags s.cfg.version frag.sid
          (m2For P s.cfg frag.sid m1 (asm.store frag).buffer draw)) src), s')

section Step

variable {s : ServerHandshake T} {pkt : WirePacket} {src : SocketAddr} {clock : Clock}
  {draw : ServerDraw T} {frag : HandshakeFragment} {entry : PendingSession T}
  {asm : FragmentAssembler} {Q : ℕ → Bytes → Prop}

/-- An M1 fragment for an assembling entry is ignored, stored, refused or processed. -/
theorem handleDatagram_fed (draw : ServerDraw T)
    (hto : Addressed s pkt src clock hsTypeClientHello frag entry)
    (hstate : entry.state = .awaitM1) (hasm : entry.assembler = some asm)
    (hholds : asm.Holds hsTypeClientHello m1FragCount m1BodyLen Q) :
    Fed P s src clock draw frag entry asm (s.handleDatagram P pkt src clock draw) := by
  obtain ⟨len, hp⟩ := fromDatagram_ok hto.parsed
  rw [handleDatagram_awaitM1 draw hto hstate]
  simp only [onAwaitM1, hasm]
  by_cases hw : asm.Awaits frag
  swap
  · rw [addFragment_ignored hw]
    exact .ignored hw
  rw [addFragment_stored hholds hp hw]
  cases hdone : (asm.store frag).complete with
  | false => exact .advanced hw hdone
  | true =>
    simp only [if_true]
    have hlen : (asm.store frag).buffer.length = m1BodyLen :=
      ((hholds.mono fun _ _ _ => trivial).store (Q := fun _ _ => True) hp hw trivial).len
    obtain ⟨hpend, hcfg⟩ := rateOk_frame ((s.evictExpired clock.evict).putPending frag.sid
      { entry with assembler := some (asm.store frag) }) src clock.rate
    obtain ⟨hok, hcharged⟩ := rateOk_spec ((s.evictExpired clock.evict).putPending frag.sid
      { entry with assembler := some (asm.store frag) }) src clock.rate
    generalize ((s.evictExpired clock.evict).putPending frag.sid
      { entry with assembler := some (asm.store frag) }).rateOk src clock.rate = r
      at hpend hcfg hok hcharged
    obtain ⟨ok, s'⟩ := r
    replace hok : ok = decide (0 < s.tokensLeft src clock.rate) := hok
    replace hcfg : s'.cfg = s.cfg := hcfg
    cases ok with
    | false =>
      have hempty : s.tokensLeft src clock.rate = 0 :=
        Nat.eq_zero_of_not_pos (of_decide_eq_false hok.symm)
      obtain ⟨b, hb, hch⟩ := hcharged
      exact .refused hw hdone hempty s' hpend hcfg ⟨b, hb, hch.tokens, hch.lastRefill⟩
    | true =>
      have htoken : 0 < s.tokensLeft src clock.rate := of_decide_eq_true hok.symm
      have hmsg : (asm.store frag).message = some (asm.store frag).buffer := by
        simp only [message, hdone, if_true]
      have hget : s'.pending.get frag.sid =
          some { entry with assembler := some (asm.store frag) } := by
        rw [hpend]
        exact Table.get_put_self ..
      simp only [hmsg]
      rcases completeM1_cases (P := P) hget hlen src clock.touch draw with
        ⟨h, -⟩ | ⟨m1, client, dhCs, -, h⟩
      · rw [h]
        exact .rejected hw hdone htoken _ (Table.get_remove_self ..)
      · rw [h, hcfg]
        exact .answered hw hdone htoken _ m1 _ (Table.get_put_self ..) rfl

end Step

/-- The datagram brings the only piece that a live entry of its source still waits for. -/
def LastPiece (s : ServerHandshake T) (pkt : WirePacket) (src : SocketAddr) (clock : Clock) :
    Prop :=
  ∃ frag entry asm, Addressed s pkt src clock hsTypeClientHello frag entry ∧
    entry.assembler = some asm ∧ asm.hasReceived frag.fragIdx.toNat = false ∧
    ∀ i < m1FragCount.toNat, i ≠ frag.fragIdx.toNat → asm.hasReceived i = true

/-- No last piece of an M1 comes in while the tokens of its source are used up. -/
def Budgeted (s : ServerHandshake T) : Call T → Prop
  | .datagram pkt src clock _ => LastPiece s pkt src clock → 0 < s.tokensLeft src clock.rate
  | .setRoster _ => True

/-- No entry that waits for an M1 has all of it. -/
def Unfinished (s : ServerHandshake T) : Prop :=
  ∀ sid e asm, s.pending.get sid = some e → e.state = .awaitM1 → e.assembler = some asm →
    asm.complete = false

theorem complete_opened {pkt : WirePacket} {frag : HandshakeFragment} {asm : FragmentAssembler}
    (hparsed : HandshakeFragment.fromDatagram pkt = .ok frag)
    (htype : frag.hsType = hsTypeClientHello)
    (hasm : FragmentAssembler.new hsTypeClientHello = some asm) :
    (asm.store frag).complete = false := by
  obtain ⟨asm', hasm', hholds, hfresh⟩ :=
    new_holds layout_m1 fun _ _ => True
  obtain rfl : asm = asm' := Option.mem_unique hasm hasm'
  obtain ⟨len, hp⟩ := fromDatagram_ok hparsed
  have hidx : frag.fragIdx.toNat < 5 := by
    obtain ⟨-, -, -, h5⟩ := hp.layout.bounds
    have := hp.idx
    omega
  have hstored := hholds.store hp (hholds.awaits hp htype (hfresh _)) trivial
  rw [← Bool.not_eq_true, hstored.done]
  intro hall
  -- one fragment cannot fill the first two slots
  have h0 := hall 0 (by decide)
  have h1 := hall 1 (by decide)
  rw [hasReceived_store hidx, hfresh, Bool.or_false, decide_eq_true_iff] at h0 h1
  omega

variable {s : ServerHandshake T}

theorem lastPiece_of_complete {pkt : WirePacket} {src : SocketAddr} {clock : Clock}
    {frag : HandshakeFragment} {entry : PendingSession T} {asm : FragmentAssembler}
    {Q : ℕ → Bytes → Prop} (hto : Addressed s pkt src clock hsTypeClientHello frag entry)
    (hasm : entry.assembler = some asm)
    (hholds : asm.Holds hsTypeClientHello m1FragCount m1BodyLen Q) (hnew : asm.Awaits frag)
    (hdone : (asm.store frag).complete = true) : LastPiece s pkt src clock := by
  obtain ⟨len, hp⟩ := fromDatagram_ok hto.parsed
  have hidx : frag.fragIdx.toNat < 5 := by
    obtain ⟨-, -, -, h5⟩ := hp.layout.bounds
    have := hp.idx
    omega
  have hstored :=
    ((hholds.mono fun _ _ _ => trivial).store (Q := fun _ _ => True) hp hnew trivial)
  refine ⟨frag, entry, asm, hto, hasm, hnew.2.2.2, fun i hi hne => ?_⟩
  have hrec := hstored.done.mp hdone i hi
  rwa [hasReceived_store hidx, decide_eq_false hne, Bool.false_or] at hrec

/-- A datagram that meets the condition leaves no complete assembler behind. -/
theorem unfinished_handleDatagram (hok : PendingOk s) (hun : Unfinished s) {pkt : WirePacket}
    {src : SocketAddr} {clock : Clock} {draw : ServerDraw T}
    (hbudget : Budgeted s (.datagram pkt src clock draw)) :
    Unfinished (s.handleDatagram P pkt src clock draw).2 := by
  intro sid e asm hget hstate hasm
  cases (handleDatagram_does hok pkt src clock draw).1.entryStep hget with
  | kept _ hold => exact hun sid e asm hold hstate hasm
  | opened frag asm' hparsed htype hsid hnew =>
    obtain rfl := Option.some.inj hasm
    exact complete_opened hparsed htype hnew
  | stored frag entry asm' lastSeen hsid hto hstate' hasm' hawait =>
    obtain rfl := Option.some.inj hasm
    subst hsid
    obtain ⟨-, asm, hasm, hholds⟩ := (hok _ _ hto.get).awaitingM1 hstate'
    obtain rfl : asm' = asm := Option.mem_unique hasm' hasm
    have hfed := handleDatagram_fed (P := P) draw hto hstate' hasm hholds
    generalize s.handleDatagram P pkt src clock draw = r at hfed hget
    cases hfed with
    | ignored hold => exact absurd hawait hold
    | advanced hnew hmore => exact hmore
    | refused hnew hdone hempty =>
      exact absurd (hbudget (lastPiece_of_complete hto hasm hholds hnew hdone)) (by omega)
    | rejected hnew hdone htoken s' hgone =>
      rw [hgone] at hget
      cases hget
    | answered hnew hdone htoken s' m1 entry' hget' hstate'' =>
      obtain rfl := Option.mem_unique hget' hget
      exact absurd (hstate''.symm.trans hstate') (by simp)
  | answered => cases hstate
  | resent frag entry hsid hto hstate' => exact absurd (hstate'.symm.trans hstate) (by simp)

theorem unfinished_run (hok : PendingOk s) (hun : Unfinished s) {calls : List (Call T)}
    (hrun : Along (call P) Budgeted s calls) : Unfinished (run P s calls) := by
  induction calls generalizing s with
  | nil => exact hun
  | cons c calls ih =>
    refine ih (hok.run [c]) ?_ hrun.2
    cases c with
    | datagram pkt src clock draw => exact unfinished_handleDatagram hok hun hrun.1
    | setRoster roster =>
      intro sid e asm hget
      rw [call, setRoster_pending] at hget
      exact hun sid e asm hget

theorem unfinished_new (cfg : ServerConfig T) (now : ℕ) : Unfinished (new cfg now) := by
  intro sid e asm h
  rw [new, Table.get_empty] at h
  cases h

/-- The entry is still assembling an M1 that came from `src`, and has the pieces in `S`. -/
structure Assembling (s : ServerHandshake T) (sid : SessionId) (src : SocketAddr)
    (S : ℕ → Prop) (e : PendingSession T) (asm : FragmentAssembler) : Prop where
  found : s.pending.get sid = some e
  state : e.state = .awaitM1
  source : e.source = src
  assembler : e.assembler = some asm
  has : ∀ i, S i → asm.hasReceived i = true

/-- The datagram finds the live entry assembling its M1, and answers the M1 with an M2 or drops
the entry. -/
def Processes (P : Primitives T) (s : ServerHandshake T) (sid : SessionId) (pkt : WirePacket)
    (src : SocketAddr) (clock : Clock) (draw : ServerDraw T) : Prop :=
  (∃ e, (s.live clock).get sid = some e ∧ e.state = .awaitM1) ∧
    ((∃ m1 m1Bytes, (s.handleDatagram P pkt src clock draw).1 =
        .ok (.emit (m2Frags s.cfg.version sid (m2For P s.cfg sid m1 m1Bytes draw)) src)) ∨
      (s.handleDatagram P pkt src clock draw).2.pending.get sid = none)

/-- The entry of `sid`, if there is one, has not expired when the call comes. -/
def Fresh (sid : SessionId) (s : ServerHandshake T) : Call T → Prop
  | .datagram _ _ clock _ =>
    ∀ e, s.pending.get sid = some e → clock.evict - e.lastSeen < s.cfg.pendingTtl
  | .setRoster _ => True

theorem live_get_of_fresh {sid : SessionId} {clock : Clock}
    (h : ∀ e, s.pending.get sid = some e → clock.evict - e.lastSeen < s.cfg.pendingTtl) :
    (s.live clock).get sid = s.pending.get sid := by
  rw [live, evictExpired, Table.get_retain]
  cases hget : s.pending.get sid with
  | none => rfl
  | some e =>
    rw [Option.filter_some, if_pos]
    exact decide_eq_true (h e hget)

section Retransmission

variable {s : ServerHandshake T} {sid : SessionId} {src : SocketAddr} {S : ℕ → Prop}
  {e : PendingSession T} {asm : FragmentAssembler}

theorem Assembling.mono {S' : ℕ → Prop} (h : Assembling s sid src S e asm)
    (himp : ∀ i, S' i → S i) : Assembling s sid src S' e asm :=
  ⟨h.found, h.state, h.source, h.assembler, fun i hi => h.has i (himp i hi)⟩

/-- The index of an M1 piece for `sid` that the calls bring from `src`. -/
def Resent (calls : List (Call T)) (src : SocketAddr) (sid : SessionId) (i : ℕ) : Prop :=
  ∃ body, Sent calls src sid i body

/-- A datagram that is no M1 fragment of the entry's source leaves the entry alone. -/
theorem Move.keeps_assembling {pkt : WirePacket} {src' : SocketAddr} {clock : Clock}
    {draw : ServerDraw T} {r : Except (Fault HandshakeV2Error) (ServerEvent T)}
    {t : Table SessionId (PendingSession T)} (hm : Move P s pkt src' clock draw r t)
    (h : Assembling s sid src S e asm) (hlive : (s.live clock).get sid = s.pending.get sid)
    (hother : ∀ frag, HandshakeFragment.fromDatagram pkt = .ok frag →
      frag.hsType = hsTypeClientHello → frag.sid = sid → src' ≠ src) :
    t.get sid = some e := by
  have hkeep : (s.live clock).get sid = some e := hlive.trans h.found
  have hentry : ∀ {hsType frag entry}, Addressed s pkt src' clock hsType frag entry →
      frag.sid = sid → entry = e := by
    intro hsType frag entry hto hsid
    have := hto.found
    rw [hsid, hkeep] at this
    exact (Option.some.inj this).symm
  have hne : ∀ {frag entry}, Addressed s pkt src' clock hsTypeClientHello frag entry →
      sid ≠ frag.sid := by
    intro frag entry hto hsid
    have hsrc := hto.source
    rw [hentry hto hsid.symm, h.source] at hsrc
    exact hother frag hto.parsed hto.hsType hsid.symm hsrc.symm
  have hne' : ∀ {frag entry m3 skS m1 m2 master finishedKey peer},
      Addressed s pkt src' clock hsTypeClientConfirm frag entry →
      Confirmed P s.cfg frag entry m3 skS m1 m2 master finishedKey peer → sid ≠ frag.sid := by
    intro frag entry m3 skS m1 m2 master finishedKey peer hto hconf hsid
    have hstate := hconf.state
    rw [hentry hto hsid.symm, h.state] at hstate
    cases hstate
  cases hm with
  | untouched => exact h.found
  | evicted | kdfFailed => exact hkeep
  | opened frag asm' hparsed htype hidx hnone =>
    rw [Table.get_put_ne _ _ fun hsid => ?_]
    · exact hkeep
    · rw [← hsid, hkeep] at hnone
      cases hnone
  | stored frag entry asm' lastSeen hto | answered frag entry asm' m1 client dhCs hto
  | resent frag entry m2 hto => exact (Table.get_put_ne _ _ (hne hto)).trans hkeep
  | rejected frag entry asm' hto => exact (Table.get_remove_ne _ (hne hto)).trans hkeep
  | revoked frag entry m3 skS m1 m2 master finishedKey peer hto hconf
  | completed frag entry m3 skS m1 m2 master finishedKey peer hto hconf =>
    exact (Table.get_remove_ne _ (hne' hto hconf)).trans hkeep

/-- An M1 fragment from the entry's source is processed, or the entry has its piece. -/
theorem Assembling.feed (h : Assembling s sid src S e asm) (hok : PendingOk s)
    {pkt : WirePacket} {clock : Clock} (draw : ServerDraw T) {frag : HandshakeFragment}
    (hparsed : HandshakeFragment.fromDatagram pkt = .ok frag)
    (htype : frag.hsType = hsTypeClientHello) (hsid : frag.sid = sid)
    (hlive : (s.live clock).get sid = s.pending.get sid) :
    Processes P s sid pkt src clock draw ∧ 0 < s.tokensLeft src clock.rate ∨
      ∃ e' asm', Assembling (s.handleDatagram P pkt src clock draw).2 sid src
        (fun i => S i ∨ i = frag.fragIdx.toNat) e' asm' := by
  subst hsid
  have hfound := hlive.trans h.found
  have hto : Addressed s pkt src clock hsTypeClientHello frag e :=
    ⟨hparsed, htype, hfound, h.source⟩
  obtain ⟨len, hp⟩ := fromDatagram_ok hparsed
  obtain ⟨-, asm', hasm, hholds⟩ := (hok _ _ h.found).awaitingM1 h.state
  obtain rfl : asm = asm' := Option.mem_unique h.assembler hasm
  have hidx : frag.fragIdx.toNat < 5 := by
    obtain ⟨-, -, -, h5⟩ := hp.layout.bounds
    have := hp.idx
    omega
  have hstored : ∀ i, S i ∨ i = frag.fragIdx.toNat → (asm.store frag).hasReceived i = true := by
    intro i hi
    rw [hasReceived_store hidx, Bool.or_eq_true, decide_eq_true_iff]
    exact hi.symm.imp_right (h.has i)
  have hfed := handleDatagram_fed (P := P) draw hto h.state hasm hholds
  unfold Processes
  generalize s.handleDatagram P pkt src clock draw = r at hfed ⊢
  cases hfed with
  | ignored hold =>
    refine Or.inr ⟨e, asm, hfound, h.state, h.source, h.assembler, ?_⟩
    rintro i (hi | rfl)
    · exact h.has i hi
    · by_contra hnone
      exact hold (hholds.awaits hp htype (by simpa using hnone))
  | advanced hnew hmore =>
    exact Or.inr ⟨_, _, Table.get_put_self .., h.state, h.source, rfl, hstored⟩
  | refused hnew hdone hempty s' hpend =>
    refine Or.inr ⟨{ e with assembler := some (asm.store frag) }, _, ?_, h.state, h.source, rfl,
      hstored⟩
    dsimp only
    rw [hpend]
    exact Table.get_put_self ..
  | rejected hnew hdone htoken s' hgone =>
    exact Or.inl ⟨⟨⟨e, hfound, h.state⟩, Or.inr hgone⟩, htoken⟩
  | answered hnew hdone htoken s' m1 entry' =>
    exact Or.inl ⟨⟨⟨e, hfound, h.state⟩, Or.inl ⟨m1, _, rfl⟩⟩, htoken⟩

/-- The retransmitted pieces reach the assembler one by one until the M1 is processed. -/
theorem Assembling.run (h : Assembling s sid src S e asm) (hok : PendingOk s)
    {calls : List (Call T)} (hfresh : Along (call P) (Fresh sid) s calls) :
    (∃ before pkt clock draw after, calls = before ++ .datagram pkt src clock draw :: after ∧
        Processes P (ServerHandshake.run P s before) sid pkt src clock draw) ∨
      ∃ e' asm', Assembling (ServerHandshake.run P s calls) sid src
        (fun i => S i ∨ Resent calls src sid i) e' asm' := by
  induction calls generalizing s S e asm with
  | nil =>
    refine Or.inr ⟨e, asm, h.mono ?_⟩
    rintro i (hi | ⟨body, pkt, clock, draw, frag, hmem, -⟩)
    · exact hi
    · cases hmem
  | cons c calls ih =>
    have hstep : (∃ pkt clock draw, c = .datagram pkt src clock draw ∧
        Processes P s sid pkt src clock draw) ∨
        ∃ e' asm', Assembling (call P s c) sid src (fun i => S i ∨ Resent [c] src sid i)
          e' asm' := by
      cases c with
      | setRoster roster =>
        refine Or.inr ⟨e, asm, ?_, h.state, h.source, h.assembler, ?_⟩
        · rw [call, setRoster_pending]
          exact h.found
        · rintro i (hi | ⟨body, pkt, clock, draw, frag, hmem, -⟩)
          · exact h.has i hi
          · simp at hmem
      | datagram pkt src' clock draw =>
        have hlive := live_get_of_fresh hfresh.1
        by_cases hfor : src' = src ∧ ∃ frag, HandshakeFragment.fromDatagram pkt = .ok frag ∧
            frag.hsType = hsTypeClientHello ∧ frag.sid = sid
        · obtain ⟨rfl, frag, hparsed, htype, hsid⟩ := hfor
          rcases h.feed hok draw hparsed htype hsid hlive with ⟨hproc, -⟩ | ⟨e', asm', h'⟩
          · exact Or.inl ⟨pkt, clock, draw, rfl, hproc⟩
          · refine Or.inr ⟨e', asm', h'.mono ?_⟩
            rintro i (hi | ⟨body, pkt', clock', draw', frag', hmem, hparsed', -, -, hidx, -⟩)
            · exact Or.inl hi
            · obtain ⟨rfl, -⟩ := Call.datagram.inj (List.mem_singleton.mp hmem)
              obtain rfl := Except.ok.inj (hparsed.symm.trans hparsed')
              exact Or.inr hidx.symm
        · have hkept := (handleDatagram_does hok pkt src' clock draw).1.keeps_assembling (P := P) h
            hlive fun frag hparsed htype hsid hsrc => hfor ⟨hsrc, frag, hparsed, htype, hsid⟩
          refine Or.inr ⟨e, asm, hkept, h.state, h.source, h.assembler, ?_⟩
          rintro i (hi | ⟨body, pkt', clock', draw', frag', hmem, hparsed, htype, hsid, -⟩)
          · exact h.has i hi
          · obtain ⟨rfl, rfl, -⟩ := Call.datagram.inj (List.mem_singleton.mp hmem)
            exact absurd ⟨rfl, frag', hparsed, htype, hsid⟩ hfor
    rcases hstep with ⟨pkt, clock, draw, rfl, hproc⟩ | ⟨e', asm', h'⟩
    · exact Or.inl ⟨[], pkt, clock, draw, calls, rfl, hproc⟩
    · rcases ih h' (hok.run [c]) hfresh.2 with
        ⟨before, pkt, clock, draw, after, rfl, hproc⟩ | ⟨e'', asm'', h''⟩
      · exact Or.inl ⟨c :: before, pkt, clock, draw, after, rfl, hproc⟩
      · refine Or.inr ⟨e'', asm'', h''.mono ?_⟩
        rintro i (hi | ⟨body, pkt, clock, draw, frag, hmem, hfrag⟩)
        · exact Or.inl (Or.inl hi)
        · rcases List.mem_cons.mp hmem with rfl | hmem
          · exact Or.inl (Or.inr ⟨body, pkt, clock, draw, frag, List.mem_singleton_self _, hfrag⟩)
          · exact Or.inr ⟨body, pkt, clock, draw, frag, hmem, hfrag⟩

end Retransmission

theorem resent_m1Frags {ccfg : ClientConfig T} {sid : SessionId} {kemSk : T.KemSk} {xSk : T.XSk}
    {c : ClientHandshake T} (hnew : ClientHandshake.new P ccfg sid kemSk xSk = .ok c)
    {calls : List (Call T)} {src : SocketAddr}
    (hresend : ∀ pkt ∈ c.m1Frags, ∃ clock draw, Call.datagram pkt src clock draw ∈ calls) :
    ∀ i < m1FragCount.toNat, Resent calls src sid i := by
  intro i hi
  obtain ⟨hok, -, rfl, -⟩ := ClientHandshake.new_ok hnew fun _ _ => True
  obtain ⟨clock, draw, hmem⟩ := hresend (Exchange.m1Frag P c i) (by
    rw [Exchange.m1Frags_of_ok hok]
    exact List.mem_map_of_mem (List.mem_range.mpr hi))
  exact ⟨_, _, clock, draw, _, hmem, Exchange.parse_m1 hi, rfl, rfl, Exchange.m1Parsed_idx hi, rfl⟩

/-- While no last piece of an M1 meets an empty bucket, no assembling entry is complete, and a
client that resends its whole M1 to a live entry gets it processed. -/
theorem m1_never_stalls (cfg : ServerConfig T) (now : ℕ) {calls more : List (Call T)}
    (hrun : Along (call P) Budgeted (new cfg now) (calls ++ more)) :
    (∀ sid e asm, (run P (new cfg now) calls).pending.get sid = some e → e.state = .awaitM1 →
      e.assembler = some asm → asm.complete = false) ∧
    ∀ ccfg sid kemSk xSk c e, ClientHandshake.new P ccfg sid kemSk xSk = .ok c →
      (run P (new cfg now) calls).pending.get sid = some e → e.state = .awaitM1 →
      Along (call P) (Fresh sid) (run P (new cfg now) calls) more →
      (∀ pkt ∈ c.m1Frags, ∃ clock draw, Call.datagram pkt e.source clock draw ∈ more) →
      ∃ before pkt clock draw after,
        more = before ++ .datagram pkt e.source clock draw :: after ∧
        Processes P (run P (new cfg now) (calls ++ before)) sid pkt e.source clock draw := by
  have hok0 := pendingOk_new cfg now
  have hun0 := unfinished_new cfg now
  refine ⟨unfinished_run hok0 hun0 (along_append.mp hrun).1, ?_⟩
  intro ccfg sid kemSk xSk c e hnew hget hstate hfresh hresend
  have hok : PendingOk (run P (new cfg now) calls) := hok0.run calls
  have hsplit : ∀ rest, run P (new cfg now) (calls ++ rest) =
      run P (run P (new cfg now) calls) rest := fun rest => List.foldl_append ..
  obtain ⟨-, asm, hasm, -⟩ := (hok _ _ hget).awaitingM1 hstate
  have hstart : Assembling (run P (new cfg now) calls) sid e.source (fun _ => False) e asm :=
    ⟨hget, hstate, rfl, hasm, fun _ h => h.elim⟩
  rcases hstart.run hok hfresh with ⟨before, pkt, clock, draw, after, hmore, hproc⟩ | ⟨e', asm', h⟩
  · exact ⟨before, pkt, clock, draw, after, hmore, hsplit before ▸ hproc⟩
  -- every piece has come, so the assembler would be complete
  exfalso
  have hun := unfinished_run hok0 hun0 hrun sid e' asm' (hsplit more ▸ h.found) h.state h.assembler
  obtain ⟨-, asm'', hasm'', hholds⟩ := (hok.run more _ _ h.found).awaitingM1 h.state
  obtain rfl : asm' = asm'' := Option.mem_unique h.assembler hasm''
  have hall := hholds.done.mpr fun i hi => h.has i (Or.inr (resent_m1Frags hnew hresend i hi))
  rw [hun] at hall
  cases hall

section Sample
open Exchange

/-- A configuration that gives each source one token in ten units of time. -/
def tightConfig : ServerConfig Sample.types :=
  { sampleServerConfig with pendingTtl := 100, rateLimitBurst := 1, rateLimitWindow := 10 }

def arrivals (c : ClientHandshake Sample.types) (t : ℕ) : List (Call Sample.types) :=
  c.m1Frags.map fun pkt => .datagram pkt sampleAddr ⟨t, t, t⟩ (sampleDraws 0)

/-- The only token of the source went into opening its entry. -/
def Drained (s : ServerHandshake Sample.types) : Prop :=
  s.cfg = tightConfig ∧
    ∃ b, s.rateBuckets.get sampleAddr = some b ∧ b.tokens = 0 ∧ b.lastRefill = 0

theorem Drained.tokensLeft {s : ServerHandshake Sample.types} (h : Drained s) :
    s.tokensLeft sampleAddr 0 = 0 ∧ s.tokensLeft sampleAddr 10 = 1 := by
  obtain ⟨hcfg, b, hget, htokens, hlast⟩ := h
  simp only [ServerHandshake.tokensLeft, hget, refill, hcfg, hlast]
  exact ⟨htokens, rfl⟩

theorem new_rateOk :
    ((new tightConfig 0).rateOk sampleAddr 0).1 = true ∧
      ((new tightConfig 0).rateOk sampleAddr 0).2.rateBuckets.get sampleAddr = some ⟨0, 0⟩ := by
  have hempty : ((new tightConfig 0).pruneRate 0) = new tightConfig 0 := rfl
  simp only [rateOk, hempty]
  exact ⟨rfl, Table.get_put_self ..⟩

/-- The first fragment opens the entry and takes the token. -/
theorem drained_open (c : ClientHandshake Sample.types) (draw : ServerDraw Sample.types) :
    ∃ s, call Sample.primitives (new tightConfig 0) (.datagram (m1Frag Sample.primitives c 0)
        sampleAddr ⟨0, 0, 0⟩ draw) = s ∧ PendingOk s ∧ Drained s ∧
      ∃ e asm, Assembling s c.sid sampleAddr (· = 0) e asm := by
  have hpos : 0 < m1FragCount.toNat := by decide
  obtain ⟨hrate, hbucket⟩ := new_rateOk
  have hnone : ∀ sid, (new tightConfig 0).pending.get sid = none := fun sid => Table.get_empty sid
  have hcalm : Calm (new tightConfig 0) (m1Frag Sample.primitives c 0) sampleAddr ⟨0, 0, 0⟩ := by
    refine ⟨fun e he => ?_, fun _ => Nat.one_pos, hrate⟩
    rw [hnone] at he
    cases he
  obtain ⟨asm, hnew, hholds, hfresh⟩ := new_holds layout_m1 fun _ _ => True
  obtain ⟨s, heq, hget, hcfg, hbuckets⟩ := handle_open (P := Sample.primitives) draw hcalm
    (parse_m1 hpos) rfl rfl (hnone _) hnew
  have hcall : call Sample.primitives (new tightConfig 0) (.datagram (m1Frag Sample.primitives c 0)
      sampleAddr ⟨0, 0, 0⟩ draw) = s := congrArg Prod.snd heq
  have hok := pendingOk_handleDatagram (P := Sample.primitives) (pendingOk_new tightConfig 0)
    (m1Frag Sample.primitives c 0) sampleAddr ⟨0, 0, 0⟩ draw
  rw [heq] at hok
  rw [← hbuckets] at hbucket
  refine ⟨s, hcall, hok, ⟨hcfg, _, hbucket, rfl, rfl⟩, _, _, hget, rfl, rfl, rfl, ?_⟩
  rintro i rfl
  rw [hasReceived_store (by rw [m1Parsed_idx hpos]; decide), m1Parsed_idx hpos]
  rfl

/-- Without a token the other fragments are only stored. -/
theorem Drained.feed {s : ServerHandshake Sample.types} {c : ClientHandshake Sample.types}
    {S : ℕ → Prop} {e : PendingSession Sample.types} {asm : FragmentAssembler} (hd : Drained s)
    (hok : PendingOk s) (h : Assembling s c.sid sampleAddr S e asm)
    (draw : ServerDraw Sample.types) {i : ℕ} (hi : i < m1FragCount.toNat) :
    ∃ s', call Sample.primitives s (.datagram (m1Frag Sample.primitives c i) sampleAddr
        ⟨0, 0, 0⟩ draw) = s' ∧ PendingOk s' ∧ Drained s' ∧
      ∃ e' asm', Assembling s' c.sid sampleAddr (fun j => S j ∨ j = i) e' asm' := by
  have hlive : (s.live ⟨0, 0, 0⟩).get c.sid = s.pending.get c.sid := by
    refine live_get_of_fresh fun e _ => ?_
    rw [hd.1, Nat.zero_sub]
    decide
  have hempty := hd.tokensLeft.1
  obtain ⟨-, asm', hasm, hholds⟩ := (hok _ _ h.found).awaitingM1 h.state
  have hto : Addressed s (m1Frag Sample.primitives c i) sampleAddr ⟨0, 0, 0⟩ hsTypeClientHello
      (m1Parsed Sample.primitives c i) e :=
    ⟨parse_m1 hi, rfl, hlive.trans h.found, h.source⟩
  have hfed := handleDatagram_fed (P := Sample.primitives) draw hto h.state hasm hholds
  have hok' := pendingOk_handleDatagram (P := Sample.primitives) hok
    (m1Frag Sample.primitives c i) sampleAddr ⟨0, 0, 0⟩ draw
  refine ⟨_, rfl, hok', ?_, ?_⟩
  · rw [call]
    generalize s.handleDatagram Sample.primitives (m1Frag Sample.primitives c i) sampleAddr
      ⟨0, 0, 0⟩ draw = r at hfed
    cases hfed with
    | ignored | advanced => exact ⟨hd.1, hd.2⟩
    | refused hnew hdone hnone s' hpend hcfg hcharged =>
      obtain ⟨htight, b, hb, htokens, hlast⟩ := hd
      obtain ⟨b', hb', hch⟩ := hcharged
      refine ⟨hcfg.trans htight, b', hb', ?_, ?_⟩
      · rw [hch.tokens, hnone]
      · rcases hch.lastRefill with hnow | ⟨old, hold, heq⟩
        · exact hnow
        · rw [heq, ← hlast, Option.mem_unique hold hb]
    | rejected hnew hdone htoken | answered hnew hdone htoken =>
      exact absurd htoken (by rw [hempty]; decide)
  · rcases h.feed hok draw (P := Sample.primitives) (parse_m1 hi) rfl rfl hlive with
      ⟨-, htoken⟩ | h'
    · exact absurd htoken (by rw [hempty]; decide)
    · rwa [m1Parsed_idx hi] at h'

/-- A complete assembler ignores all that its client sends until the entry expires. -/
theorem stalled_run {s : ServerHandshake T} {c : ClientHandshake T} {src : SocketAddr}
    {e : PendingSession T} {asm : FragmentAssembler} (hok : PendingOk s)
    (hget : s.pending.get c.sid = some e) (hsrc : e.source = src) (hstate : e.state = .awaitM1)
    (hasm : e.assembler = some asm) (hdone : asm.complete = true) {more : List (Call T)}
    (hmore : ∀ a ∈ more, ∃ i < m1FragCount.toNat, ∃ clock draw,
      clock.evict - e.lastSeen < s.cfg.pendingTtl ∧ a = .datagram (m1Frag P c i) src clock draw) :
    (run P s more).pending.get c.sid = some e := by
  induction more generalizing s with
  | nil => exact hget
  | cons a more ih =>
    obtain ⟨i, hi, clock, draw, hlive, rfl⟩ := hmore a List.mem_cons_self
    have hfound : (s.live clock).get c.sid = some e := by
      refine (live_get_of_fresh fun e' he' => ?_).trans hget
      obtain rfl := Option.mem_unique hget he'
      exact hlive
    obtain ⟨-, asm', hasm', hholds⟩ := (hok _ _ hget).awaitingM1 hstate
    obtain rfl : asm = asm' := Option.mem_unique hasm hasm'
    have hto : Addressed s (m1Frag P c i) src clock hsTypeClientHello (m1Parsed P c i) e :=
      ⟨parse_m1 hi, rfl, hfound, hsrc⟩
    have hfed := handleDatagram_fed (P := P) draw hto hstate hasm hholds
    have hstay : s.handleDatagram P (m1Frag P c i) src clock draw =
        (.ok .none, s.evictExpired clock.evict) := by
      generalize s.handleDatagram P (m1Frag P c i) src clock draw = r at hfed
      cases hfed with
      | ignored => rfl
      | _ hnew => exact absurd (hnew.1.symm.trans hdone) (by simp)
    rw [run, List.foldl_cons, call, hstay]
    have hok' : PendingOk (s.evictExpired clock.evict) :=
      fun sid e he => hok sid e (Table.get_of_retain he).1
    exact ih hok' hfound fun a ha => hmore a (List.mem_cons_of_mem _ ha)

/-- One client, one token: the entry ends up with the whole M1 and ignores every retransmission,
although tokens are back long before it expires. -/
theorem m1_stalls :
    ∃ c e asm, ClientHandshake.new Sample.primitives sampleClientConfig sampleSid (3 : UInt8)
        (4 : UInt8) = .ok c ∧ tightConfig.validate = .ok () ∧
      (run Sample.primitives (new tightConfig 0) (arrivals c 0)).pending.get sampleSid = some e ∧
      e.state = .awaitM1 ∧ e.assembler = some asm ∧ asm.complete = true ∧
      0 < (run Sample.primitives (new tightConfig 0) (arrivals c 0)).tokensLeft sampleAddr 10 ∧
      ∀ more, (∀ a ∈ more, ∃ pkt ∈ c.m1Frags, ∃ t < 100, ∃ draw,
          a = .datagram pkt sampleAddr ⟨t, t, t⟩ draw) →
        (run Sample.primitives (run Sample.primitives (new tightConfig 0) (arrivals c 0))
          more).pending.get sampleSid = some e := by
  obtain ⟨c, hnew⟩ := exists_sampleHandshake sampleSid
  obtain ⟨hclient, -, hsid, -⟩ := ClientHandshake.new_ok hnew fun _ _ => True
  have hfrags := m1Frags_of_ok hclient
  obtain ⟨s1, h1, hok1, hd1, e1, asm1, ha1⟩ := drained_open c (sampleDraws 0)
  obtain ⟨s2, h2, hok2, hd2, e2, asm2, ha2⟩ :=
    hd1.feed hok1 ha1 (sampleDraws 0) (i := 1) (by decide)
  obtain ⟨s3, h3, hok3, hd3, e3, asm3, ha3⟩ :=
    hd2.feed hok2 ha2 (sampleDraws 0) (i := 2) (by decide)
  obtain ⟨s4, h4, hok4, hd4, e4, asm4, ha4⟩ :=
    hd3.feed hok3 ha3 (sampleDraws 0) (i := 3) (by decide)
  have hrun : run Sample.primitives (new tightConfig 0) (arrivals c 0) = s4 := by
    have hrange : List.range m1FragCount.toNat = [0, 1, 2, 3] := by decide
    rw [arrivals, hfrags, hrange, List.map_map, run, List.foldl_map, List.foldl_cons,
      Function.comp_apply, h1, List.foldl_cons, Function.comp_apply, h2, List.foldl_cons,
      Function.comp_apply, h3, List.foldl_cons, Function.comp_apply, h4, List.foldl_nil]
  have hdone : asm4.complete = true := by
    obtain ⟨-, asm, hasm, hholds⟩ := (hok4 _ _ ha4.found).awaitingM1 ha4.state
    obtain rfl : asm4 = asm := Option.mem_unique ha4.assembler hasm
    refine hholds.done.mpr fun i hi => ha4.has i ?_
    have hlt : i < 4 := hi
    omega
  refine ⟨c, e4, asm4, hnew, rfl, ?_⟩
  rw [hrun, ← hsid]
  refine ⟨ha4.found, ha4.state, ha4.assembler, hdone, ?_, ?_⟩
  · rw [hd4.tokensLeft.2]
    exact Nat.one_pos
  · intro more hmore
    refine stalled_run hok4 ha4.found ha4.source ha4.state ha4.assembler hdone fun a ha => ?_
    obtain ⟨pkt, hpkt, t, ht, draw, rfl⟩ := hmore a ha
    rw [hfrags] at hpkt
    obtain ⟨i, hi, rfl⟩ := List.mem_map.mp hpkt
    refine ⟨i, List.mem_range.mp hi, _, draw, ?_, rfl⟩
    rw [hd4.1]
    exact lt_of_le_of_lt (Nat.sub_le ..) ht

/-- A server that refills at once and never expires an entry meets both conditions. -/
theorem idle_along {s : ServerHandshake T} (hok : PendingOk s) (hidle : Idle s.cfg)
    {calls : List (Call T)}
    (hcalls : ∀ a ∈ calls, ∃ pkt src draw, a = .datagram pkt src still draw) (sid : SessionId) :
    Along (call P) Budgeted s calls ∧ Along (call P) (Fresh sid) s calls := by
  induction calls generalizing s with
  | nil => exact ⟨trivial, trivial⟩
  | cons a calls ih =>
    obtain ⟨pkt, src, draw, rfl⟩ := hcalls a List.mem_cons_self
    have hcfg : (call P s (.datagram pkt src still draw)).cfg = s.cfg :=
      (handleDatagram_does hok pkt src still draw).2
    have hbudget : Budgeted s (.datagram pkt src still draw) := fun _ =>
      of_decide_eq_true ((rateOk_spec s src _).1.symm.trans (hidle.rateOk src _))
    have hfresh : Fresh sid s (.datagram pkt src still draw) := fun e _ => by
      rw [still, Nat.zero_sub]
      exact hidle.ttl
    obtain ⟨hb, hf⟩ := ih (pendingOk_handleDatagram hok pkt src still draw) (hcfg ▸ hidle)
      fun a ha => hcalls a (List.mem_cons_of_mem _ ha)
    exact ⟨⟨hbudget, hb⟩, hfresh, hf⟩

theorem m1_never_stalls_sample :
    ∃ c, ClientHandshake.new Sample.primitives sampleClientConfig sampleSid (3 : UInt8)
        (4 : UInt8) = .ok c ∧
      ∃ before pkt clock draw after,
        arrivals c 0 = before ++ .datagram pkt sampleAddr clock draw :: after ∧
        Processes Sample.primitives (run Sample.primitives (new sampleServerConfig 0)
          ([.datagram (m1Frag Sample.primitives c 0) sampleAddr still (sampleDraws 0)] ++ before))
          sampleSid pkt sampleAddr clock draw := by
  obtain ⟨c, hnew⟩ := exists_sampleHandshake sampleSid
  obtain ⟨-, -, hsid, -⟩ := ClientHandshake.new_ok hnew fun _ _ => True
  have hidle : Idle (new sampleServerConfig 0).cfg := ⟨by decide, by decide, rfl⟩
  have hnone : ∀ sid, (new sampleServerConfig 0).pending.get sid = none :=
    fun sid => Table.get_empty sid
  have hcalm := hidle.calm (m1Frag Sample.primitives c 0) sampleAddr fun _ => Nat.one_pos
  obtain ⟨asm, hasm, -⟩ := FragmentAssembler.new_holds layout_m1 fun _ _ => True
  obtain ⟨s, heq, hget, -⟩ := handle_open (P := Sample.primitives) (sampleDraws 0) hcalm
    (parse_m1 (by decide)) rfl rfl (hnone _) hasm
  have hfirst : run Sample.primitives (new sampleServerConfig 0)
      [.datagram (m1Frag Sample.primitives c 0) sampleAddr still (sampleDraws 0)] = s :=
    congrArg Prod.snd heq
  have hstill : ∀ a ∈ [Call.datagram (m1Frag Sample.primitives c 0) sampleAddr still
      (sampleDraws 0)] ++ arrivals c 0, ∃ pkt src draw, a = .datagram pkt src still draw := by
    intro a ha
    rcases List.mem_append.mp ha with ha | ha
    · exact ⟨_, _, _, List.mem_singleton.mp ha⟩
    · obtain ⟨pkt, -, rfl⟩ := List.mem_map.mp ha
      exact ⟨pkt, _, _, rfl⟩
  obtain ⟨hbudget, hfresh⟩ := idle_along (P := Sample.primitives)
    (pendingOk_new sampleServerConfig 0) hidle hstill sampleSid
  have hmain := (m1_never_stalls sampleServerConfig 0 hbudget).2 _ _ _ _ c
    (PendingSession.new sampleAddr still.touch (asm.store (m1Parsed Sample.primitives c 0))) hnew
    (by rw [hfirst, ← hsid]; exact hget) rfl (along_append.mp hfresh).2
    fun pkt hpkt => ⟨_, _, List.mem_map_of_mem hpkt⟩
  exact ⟨c, hnew, hmain⟩

end Sample

end PqTunnel.ServerHandshake
