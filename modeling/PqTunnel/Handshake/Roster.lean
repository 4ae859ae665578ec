import PqTunnel.Handshake.ServerSteps

/-! Who a completed handshake belongs to: authorization over whole runs of the server machine,
with roster changes between the datagrams. -/
namespace PqTunnel.ServerHandshake
open ByteString

variable {T : CryptoTypes} {P : Primitives T}

inductive Call (T : CryptoTypes) where
  | datagram (pkt : WirePacket) (src : SocketAddr) (clock : Clock) (draw : ServerDraw T)
  | setRoster (roster : List T.SigPk)

def call (P : Primitives T) (s : ServerHandshake T) : Call T → ServerHandshake T
  | .datagram pkt src clock draw => (s.handleDatagram P pkt src clock draw).2
  | .setRoster roster => (s.setRoster roster).2

def run (P : Primitives T) (s : ServerHandshake T) (calls : List (Call T)) : ServerHandshake T :=
  calls.foldl (call P) s

theorem run_snoc (s : ServerHandshake T) (calls : List (Call T)) (c : Call T) :
    run P s (calls ++ [c]) = call P (run P s calls) c := by
  simp [run]

theorem PendingOk.run {s : ServerHandshake T} (h : PendingOk s) (calls : List (Call T)) :
    PendingOk (run P s calls) := by
  induction calls generalizing s with
  | nil => exact h
  | cons c calls ih =>
    apply ih
    cases c with
    | datagram pkt src clock draw => exact pendingOk_handleDatagram h pkt src clock draw
    | setRoster roster =>
      intro sid e hget
      rw [call, setRoster_pending] at hget
      exact h sid e hget

theorem cfg_run (cfg : ServerConfig T) (now : ℕ) (calls : List (Call T)) :
    ∃ roster, (run P (new cfg now) calls).cfg = { cfg with roster := roster } := by
  induction calls using List.reverseRecOn with
  | nil =>
    simp only [run, List.foldl_nil, new]
    split_ifs
    · exact ⟨[], rfl⟩
    · exact ⟨cfg.roster, rfl⟩
  | append_singleton calls c ih =>
    obtain ⟨roster, ih⟩ := ih
    rw [run_snoc]
    cases c with
    | datagram pkt src clock draw =>
      rw [call, (handleDatagram_does ((pendingOk_new cfg now).run calls) pkt src clock draw).2]
      exact ⟨roster, ih⟩
    | setRoster roster' =>
      simp only [call, setRoster]
      split_ifs
      · exact ⟨roster, ih⟩
      · exact ⟨roster, ih⟩
      · refine ⟨roster', ?_⟩
        simp only [ih]

/-- Some datagram of the calls brought this piece of an M1 for `sid` from `src`. -/
def Sent (calls : List (Call T)) (src : SocketAddr) (sid : SessionId) (i : ℕ) (body : Bytes) :
    Prop :=
  ∃ pkt clock draw frag, Call.datagram pkt src clock draw ∈ calls ∧
    HandshakeFragment.fromDatagram pkt = .ok frag ∧ frag.hsType = hsTypeClientHello ∧
    frag.sid = sid ∧ frag.fragIdx.toNat = i ∧ frag.body = body

theorem Sent.mono {calls calls' : List (Call T)} (h : ∀ c ∈ calls, c ∈ calls')
    {src : SocketAddr} {sid : SessionId} {i : ℕ} {body : Bytes} (hs : Sent calls src sid i body) :
    Sent calls' src sid i body := by
  obtain ⟨pkt, clock, draw, frag, hmem, hfrag⟩ := hs
  exact ⟨pkt, clock, draw, frag, h _ hmem, hfrag⟩

/-- An M1 put together from pieces that one source sent for one session id. -/
def Assembled (calls : List (Call T)) (src : SocketAddr) (sid : SessionId) (m1 : Bytes) : Prop :=
  m1.length = m1BodyLen ∧
    ∀ i < m1FragCount.toNat, Sent calls src sid i (chunk hsFragBodyMax m1 i)

/-- The datagram completes the M1 of a pending entry of its source, and the M1 verifies under
a key of the roster in force. -/
structure M1Completes (P : Primitives T) (s : ServerHandshake T) (pkt : WirePacket)
    (src : SocketAddr) (sid : SessionId) (m1 : Bytes) (peer : T.SigPk) : Prop where
  completes : ∃ frag entry asm asm', HandshakeFragment.fromDatagram pkt = .ok frag ∧
    frag.sid = sid ∧ s.pending.get sid = some entry ∧ entry.source = src ∧
    entry.state = .awaitM1 ∧ entry.assembler = some asm ∧
    asm.addFragment frag = (.completed, asm') ∧ asm'.message = some m1
  onRoster : peer ∈ s.cfg.roster
  verified : ∃ hello th1, ClientHello.decode P m1 = .ok hello ∧ th1FromM1 P m1 = some th1 ∧
    P.sigVerify peer th1.toList hello.clientSig = true

/-- The machine holds an authenticated entry. -/
def Carries (s : ServerHandshake T) (src : SocketAddr) (sid : SessionId) (m1 : Bytes)
    (peer : T.SigPk) : Prop :=
  ∃ entry, s.pending.get sid = some entry ∧ entry.source = src ∧ entry.state = .awaitM3 ∧
    entry.m1Body = some m1 ∧ entry.verifiedClient = some peer

/-- The call that authenticated an entry, from which on the entry stayed in the table. -/
def Origin (P : Primitives T) (s : ServerHandshake T) (calls : List (Call T)) (src : SocketAddr)
    (sid : SessionId) (m1 : Bytes) (peer : T.SigPk) : Prop :=
  ∃ before pkt clock draw after, calls = before ++ Call.datagram pkt src clock draw :: after ∧
    M1Completes P (run P s before) pkt src sid m1 peer ∧
    Assembled (before ++ [Call.datagram pkt src clock draw]) src sid m1 ∧
    ∀ mid, mid <+: after →
      Carries (run P s (before ++ Call.datagram pkt src clock draw :: mid)) src sid m1 peer

/-- What the calls so far say about a pending entry. -/
def Accounted (P : Primitives T) (s : ServerHandshake T) (calls : List (Call T))
    (sid : SessionId) (e : PendingSession T) : Prop :=
  AwaitingM1 e (Sent calls e.source sid) ∨
    AwaitingM3 e ∧ ∃ m1 peer, e.m1Body = some m1 ∧ e.verifiedClient = some peer ∧
      Origin P s calls e.source sid m1 peer

section Runs

variable {s : ServerHandshake T} {calls : List (Call T)} {sid : SessionId}
  {e : PendingSession T}

theorem AwaitingM1.mono {Q Q' : ℕ → Bytes → Prop} (h : AwaitingM1 e Q)
    (hQ : ∀ i b, Q i b → Q' i b) : AwaitingM1 e Q' := by
  obtain ⟨hstate, asm, hasm, hholds⟩ := h
  exact ⟨hstate, asm, hasm, hholds.mono hQ⟩

theorem Accounted.ok (h : Accounted P s calls sid e) : EntryOk e := by
  rcases h with h | ⟨h, -⟩
  · exact Or.inl (h.mono fun _ _ _ => trivial)
  · exact Or.inr h

variable {src : SocketAddr}

/-- An authenticated entry that survives a call keeps its origin. -/
theorem Origin.snoc {m1 : Bytes} {peer : T.SigPk} {c : Call T}
    (h : Origin P s calls src sid m1 peer) (hc : Carries (run P s (calls ++ [c])) src sid m1 peer) :
    Origin P s (calls ++ [c]) src sid m1 peer := by
  obtain ⟨before, pkt, clock, draw, after, rfl, hm1, hasm, hstay⟩ := h
  refine ⟨before, pkt, clock, draw, after ++ [c], by simp, hm1, hasm, ?_⟩
  intro mid hmid
  rcases List.prefix_concat_iff.mp hmid with rfl | hmid
  · simpa using hc
  · exact hstay mid hmid

variable {draw : ServerDraw T} {pkt : WirePacket} {clock : Clock}

/-- The call that completes and verifies an M1 is the origin of its entry. -/
theorem Origin.here {m1 : Bytes} {peer : T.SigPk}
    (hm1 : M1Completes P (run P s calls) pkt src sid m1 peer)
    (hasm : Assembled (calls ++ [Call.datagram pkt src clock draw]) src sid m1)
    (hc : Carries (run P s (calls ++ [Call.datagram pkt src clock draw])) src sid m1 peer) :
    Origin P s (calls ++ [Call.datagram pkt src clock draw]) src sid m1 peer := by
  refine ⟨calls, pkt, clock, draw, [], rfl, hm1, hasm, ?_⟩
  intro mid hmid
  obtain rfl := List.prefix_nil.mp hmid
  exact hc

theorem M1Completes.of_answered {frag : HandshakeFragment} {entry : PendingSession T}
    {asm : FragmentAssembler} {m1 : ClientHello T} {client : T.SigPk} {dhCs : Secret}
    {Q : ℕ → Bytes → Prop} (h : AwaitingM1 entry Q)
    (hto : Addressed s pkt src clock hsTypeClientHello frag entry) (hstate : entry.state = .awaitM1)
    (hasm : entry.assembler = some asm) (hawait : asm.Awaits frag)
    (hdone : (asm.store frag).complete = true)
    (hans : Answered P s.cfg frag.sid (asm.store frag).buffer draw m1 client dhCs) :
    M1Completes P s pkt src frag.sid (asm.store frag).buffer client := by
  obtain ⟨len, hp⟩ := fromDatagram_ok hto.parsed
  have hany : AwaitingM1 entry fun _ _ => True := h.mono fun _ _ _ => trivial
  obtain ⟨-, asm', hasm', hholds⟩ := hany
  obtain rfl : asm = asm' := Option.mem_unique hasm hasm'
  have hadd := FragmentAssembler.addFragment_stored hholds hp hawait
  rw [hdone, if_pos rfl] at hadd
  have hstored := hholds.store hp hawait trivial
  refine ⟨⟨frag, entry, asm, _, hto.parsed, rfl, hto.get, hto.source, hstate, hasm, hadd, ?_⟩,
    hans.onRoster, m1, _, hans.decoded, th1FromM1_eq hstored.len, hans.verified⟩
  rw [FragmentAssembler.message, hdone, if_pos rfl]

theorem Accounted.kept {c : Call T} (h : Accounted P s calls sid e)
    (hget : (run P s (calls ++ [c])).pending.get sid = some e) :
    Accounted P s (calls ++ [c]) sid e := by
  rcases h with h | ⟨h, m1, peer, hm1, hpeer, horig⟩
  · left
    exact h.mono fun i b hs => hs.mono fun c hc => List.mem_append_left _ hc
  · right
    exact ⟨h, m1, peer, hm1, hpeer, horig.snoc ⟨e, hget, rfl, h.state, hm1, hpeer⟩⟩

theorem Accounted.step
    (hacc : ∀ sid e, (run P s calls).pending.get sid = some e → Accounted P s calls sid e)
    (hget : (run P s (calls ++ [Call.datagram pkt src clock draw])).pending.get sid = some e) :
    Accounted P s (calls ++ [Call.datagram pkt src clock draw]) sid e := by
  have hok : PendingOk (run P s calls) := fun sid e h => (hacc sid e h).ok
  have hafter : ((run P s calls).handleDatagram P pkt src clock draw).2.pending.get sid =
      some e := by
    rw [run_snoc] at hget
    exact hget
  have hlast : Call.datagram pkt src clock draw ∈ calls ++ [Call.datagram pkt src clock draw] :=
    List.mem_append_right _ (List.mem_singleton_self _)
  have hmono : ∀ c ∈ calls, c ∈ calls ++ [Call.datagram pkt src clock draw] :=
    fun c hc => List.mem_append_left _ hc
  cases (handleDatagram_does hok pkt src clock draw).1.entryStep hafter with
  | kept _ hkept => exact (hacc sid e hkept).kept hget
  | opened frag asm hparsed htype hsid hasm =>
    left
    exact AwaitingM1.opened _ hparsed htype hasm
      ⟨pkt, clock, draw, frag, hlast, hparsed, htype, hsid, rfl, rfl⟩ _
  | stored frag entry asm lastSeen hsid hto hstate hasm hawait =>
    left
    subst hsid
    rcases hacc _ _ hto.get with h | ⟨h, -⟩
    · refine (h.mono fun i b hs => hs.mono hmono).stored hto.parsed hasm hawait ?_ lastSeen
      exact ⟨pkt, clock, draw, frag, hto.source ▸ hlast, hto.parsed, hto.hsType, rfl, rfl, rfl⟩
    · rw [h.state] at hstate
      cases hstate
  | answered frag entry asm m1 client dhCs hsid hto hstate hasm hawait hdone hans =>
    subst hsid
    right
    rcases hacc _ _ hto.get with h | ⟨h, -⟩
    · have hsent : Sent (calls ++ [Call.datagram pkt src clock draw]) entry.source frag.sid
          frag.fragIdx.toNat frag.body :=
        ⟨pkt, clock, draw, frag, hto.source ▸ hlast, hto.parsed, hto.hsType, rfl, rfl, rfl⟩
      obtain ⟨-, asm', hasm', hholds⟩ := (h.mono fun i b hs => hs.mono hmono).stored hto.parsed
        hasm hawait hsent 0
      obtain rfl := Option.some.inj hasm'
      have hassembled : Assembled (calls ++ [Call.datagram pkt src clock draw]) entry.source
          frag.sid (asm.store frag).buffer :=
        ⟨hholds.len, fun i hi => hholds.pieces i hi (hholds.done.mp hdone i hi)⟩
      have hm1 := M1Completes.of_answered h hto hstate hasm hawait hdone hans
      have hcarries : Carries (run P s (calls ++ [Call.datagram pkt src clock draw])) src frag.sid
          (asm.store frag).buffer client := ⟨_, hget, hto.source, rfl, rfl, rfl⟩
      refine ⟨⟨rfl, rfl, ⟨_, rfl, hholds.len⟩, ⟨_, rfl, length_m2For ..⟩, ⟨_, rfl⟩, ⟨_, rfl⟩⟩,
        _, client, rfl, rfl, ?_⟩
      have hsrc := hto.source
      subst hsrc
      exact Origin.here hm1 hassembled hcarries
    · rw [h.state] at hstate
      cases hstate
  | resent frag entry hsid hto hstate =>
    subst hsid
    rcases hacc _ _ hto.get with h | ⟨h, m1, peer, hm1, hpeer, horig⟩
    · rw [h.state] at hstate
      cases hstate
    · right
      exact ⟨⟨h.state, h.assembler, h.m1Body, h.m2Cache, h.skS, h.verifiedClient⟩, m1, peer, hm1,
        hpeer, horig.snoc ⟨_, hget, rfl, h.state, hm1, hpeer⟩⟩

theorem accounted_run (cfg : ServerConfig T) (now : ℕ) (calls : List (Call T)) :
    ∀ sid e, (run P (new cfg now) calls).pending.get sid = some e →
      Accounted P (new cfg now) calls sid e := by
  induction calls using List.reverseRecOn with
  | nil =>
    intro sid e h
    rw [run, List.foldl_nil, new, Table.get_empty] at h
    cases h
  | append_singleton calls c ih =>
    intro sid e h
    cases c with
    | datagram pkt src clock draw => exact Accounted.step ih h
    | setRoster roster =>
      have hprev : (run P (new cfg now) calls).pending.get sid = some e := by
        rw [run_snoc, call, setRoster_pending] at h
        exact h
      exact (ih sid e hprev).kept h

end Runs

/-- Whenever the machine completes a handshake, its peer is on the roster now, and it was on
the roster when the M1 of that entry completed, with a signature over exactly the M1 bytes that
the entry's source sent for this session id. A refused roster changes nothing. -/
theorem complete_authorized (P : Primitives T) (cfg : ServerConfig T) (now : ℕ) :
    (∀ (calls : List (Call T)) (pkt : WirePacket) (src : SocketAddr) (clock : Clock)
        (draw : ServerDraw T) (o : HandshakeOutcome T) (s' : ServerHandshake T),
      (run P (new cfg now) calls).handleDatagram P pkt src clock draw = (.ok (.complete o), s') →
      (run P (new cfg now) calls).rosterContains P o.peerIdentity = true ∧
      ∃ before pkt₁ clock₁ draw₁ after m1,
        calls = before ++ Call.datagram pkt₁ src clock₁ draw₁ :: after ∧
        M1Completes P (run P (new cfg now) before) pkt₁ src o.sessionId m1 o.peerIdentity ∧
        Assembled (before ++ [Call.datagram pkt₁ src clock₁ draw₁]) src o.sessionId m1 ∧
        ∀ mid, mid <+: after →
          Carries (run P (new cfg now) (before ++ Call.datagram pkt₁ src clock₁ draw₁ :: mid)) src
            o.sessionId m1 o.peerIdentity) ∧
    ∀ (s s' : ServerHandshake T) (roster : List T.SigPk) (e : HandshakeV2Error),
      s.setRoster roster = (.error e, s') → s' = s := by
  constructor
  · intro calls pkt src clock draw o s' h
    have hacc := accounted_run (P := P) cfg now calls
    have hok : PendingOk (run P (new cfg now) calls) := (pendingOk_new cfg now).run calls
    have hmove := (handleDatagram_does (P := P) hok pkt src clock draw).1
    rw [h] at hmove
    obtain ⟨frag, entry, m3, skS, m1, m2, key, hto, hconf, hroster, hsid, -⟩ := hmove.of_complete
    refine ⟨hroster, ?_⟩
    rw [hsid]
    rcases hacc _ _ hto.get with hm1 | ⟨-, m1', peer', hm1, hpeer, before, pkt₁, clock₁, draw₁,
      after, hcalls, hcomp, hasm, hstay⟩
    · have hstate := hconf.state
      rw [hm1.state] at hstate
      cases hstate
    · obtain rfl : peer' = o.peerIdentity :=
        Option.mem_unique hpeer hconf.verifiedClient
      have hsrc := hto.source
      subst hsrc
      exact ⟨before, pkt₁, clock₁, draw₁, after, m1', hcalls, hcomp, hasm, hstay⟩
  · intro s s' roster e h
    simp only [setRoster] at h
    split_ifs at h <;> simp_all

end PqTunnel.ServerHandshake
