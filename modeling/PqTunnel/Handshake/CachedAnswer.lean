import PqTunnel.Handshake.Completion

/-! The M2 of a pending entry is signed once. From the datagram that answers the M1 until the
entry leaves the table, the server sends the same five packets, to the source that opened it. -/
namespace PqTunnel
open ByteString

namespace FragmentAssembler

def collect (asm : FragmentAssembler) (pkt : WirePacket) : FragmentAssembler :=
  match HandshakeFragment.fromDatagram pkt with
  | .error _ => asm
  | .ok frag => (asm.addFragment frag).2

def reassemble (hsType : UInt8) (pkts : List WirePacket) : Option Bytes :=
  match FragmentAssembler.new hsType with
  | none => none
  | some asm => (pkts.foldl collect asm).message

section Reassembly

variable {asm : FragmentAssembler} {hsType total : UInt8} {msgLen : ℕ} {m : Bytes}

variable (sid : SessionId)

/-- A genuine packet keeps the genuine pieces and brings its own. -/
theorem Holds.collect (h : asm.Holds hsType total msgLen fun i b => b = chunk hsFragBodyMax m i)
    (hlen : m.length = msgLen) {i : ℕ} (hi : i < total.toNat) :
    (asm.collect (fragmentPacket hsType protocolVersion total sid m i)).Holds hsType total msgLen
        (fun i b => b = chunk hsFragBodyMax m i) ∧
      ∀ j, j = i ∨ asm.hasReceived j = true →
        (asm.collect (fragmentPacket hsType protocolVersion total sid m i)).hasReceived j =
          true := by
  have hparsed := fromDatagram_fragmentPacket h.layout sid hlen hi
  obtain ⟨len, hp⟩ := fromDatagram_ok hparsed
  obtain ⟨-, -, -, hfive⟩ := h.layout.bounds
  have hnat : (UInt8.ofNat i).toNat = i := by
    rw [UInt8.toNat_ofNat']
    exact Nat.mod_eq_of_lt (by omega)
  simp only [FragmentAssembler.collect, hparsed]
  cases hnew : asm.hasReceived i with
  | true =>
    rw [addFragment_ignored]
    · refine ⟨h, fun j hj => ?_⟩
      rcases hj with rfl | hj
      · exact hnew
      · exact hj
    · rintro ⟨-, -, -, hmissing⟩
      rw [hnat, hnew] at hmissing
      cases hmissing
  | false =>
    have hw := h.awaits hp rfl (by rw [hnat]; exact hnew)
    rw [addFragment_stored h hp hw]
    refine ⟨h.store hp hw (by rw [hnat]), fun j hj => ?_⟩
    rw [hasReceived_store (by rw [hnat]; omega), hnat]
    rcases hj with rfl | hj
    · simp
    · simp [hj]

theorem Holds.collect_all (hlen : m.length = msgLen) {pkts : List WirePacket}
    (hpkts : ∀ pkt ∈ pkts, ∃ i < total.toNat, pkt = fragmentPacket hsType protocolVersion total sid m i)
    (h : asm.Holds hsType total msgLen fun i b => b = chunk hsFragBodyMax m i) :
    (pkts.foldl FragmentAssembler.collect asm).Holds hsType total msgLen
        (fun i b => b = chunk hsFragBodyMax m i) ∧
      ∀ j < total.toNat, asm.hasReceived j = true ∨
          fragmentPacket hsType protocolVersion total sid m j ∈ pkts →
        (pkts.foldl FragmentAssembler.collect asm).hasReceived j = true := by
  induction pkts generalizing asm with
  | nil => exact ⟨h, fun j _ hj => hj.resolve_right List.not_mem_nil⟩
  | cons pkt pkts ih =>
    obtain ⟨i, hi, rfl⟩ := hpkts pkt List.mem_cons_self
    obtain ⟨hnext, hgot⟩ := h.collect sid hlen hi
    obtain ⟨hall, hrest⟩ := ih (fun p hp => hpkts p (List.mem_cons_of_mem _ hp)) hnext
    refine ⟨hall, fun j hj hwas => hrest j hj ?_⟩
    rcases hwas with hwas | hmem
    · exact Or.inl (hgot j (Or.inr hwas))
    · rcases List.mem_cons.mp hmem with heq | hmem
      · rw [← heq]
        exact Or.inl ((h.collect sid hlen hj).2 j (Or.inl rfl))
      · exact Or.inr hmem

/-- The packets of a message, in any order, give the message back. -/
theorem reassemble_fragments (hlay : Layout hsType total msgLen) (hlen : m.length = msgLen)
    {pkts : List WirePacket}
    (hpkts : pkts.Perm ((List.range total.toNat).map
      (fragmentPacket hsType protocolVersion total sid m))) :
    reassemble hsType pkts = some m := by
  obtain ⟨asm, hnew, hholds, -⟩ :=
    new_holds hlay fun i b => b = chunk hsFragBodyMax m i
  have hmem : ∀ pkt ∈ pkts, ∃ i < total.toNat,
      pkt = fragmentPacket hsType protocolVersion total sid m i := by
    intro pkt hpkt
    obtain ⟨i, hi, rfl⟩ := List.mem_map.mp (hpkts.mem_iff.mp hpkt)
    exact ⟨i, List.mem_range.mp hi, rfl⟩
  obtain ⟨hall, hgot⟩ := hholds.collect_all sid hlen hmem
  have hdone : (pkts.foldl FragmentAssembler.collect asm).complete = true := by
    refine hall.done.mpr fun i hi => hgot i hi (Or.inr (hpkts.mem_iff.mpr ?_))
    exact List.mem_map.mpr ⟨i, List.mem_range.mpr hi, rfl⟩
  simp only [reassemble, hnew, message, hdone, if_true]
  rw [hall.buffer_eq hlen hdone]

end Reassembly

end FragmentAssembler

namespace ServerHandshake
open Transition

variable {T : CryptoTypes} {P : Primitives T}

/-- The call opens a pending entry for the session id: an M1 fragment arrives while the table has
no live entry, and afterwards there is one. -/
def Opens (P : Primitives T) (sid : SessionId) (s : ServerHandshake T) : Call T → Prop
  | .setRoster _ => False
  | .datagram pkt src clock draw =>
    (∃ frag, HandshakeFragment.fromDatagram pkt = .ok frag ∧ frag.hsType = hsTypeClientHello ∧
      frag.sid = sid ∧ (s.live clock).get sid = none) ∧
    ∃ e, (s.handleDatagram P pkt src clock draw).2.pending.get sid = some e

/-- The last call that opened an entry for the session id was a datagram from `src`. -/
def OpenedBy (P : Primitives T) (s : ServerHandshake T) (calls : List (Call T)) (sid : SessionId)
    (src : SocketAddr) : Prop :=
  ∃ before pkt clock draw after, calls = before ++ .datagram pkt src clock draw :: after ∧
    Opens P sid (run P s before) (.datagram pkt src clock draw) ∧
    Along (call P) (fun s c => ¬ Opens P sid s c)
      (run P s (before ++ [.datagram pkt src clock draw])) after

/-- The entry of the session id awaits its M3. -/
def Waits (s : ServerHandshake T) (sid : SessionId) : Prop :=
  ∃ e, s.pending.get sid = some e ∧ e.state = .awaitM3

/-- The cached M2 of an entry answers the M1 it stores: it is signed by the server over both. -/
structure Answers (P : Primitives T) (cfg : ServerConfig T) (sid : SessionId)
    (e : PendingSession T) (m1 : Bytes) (m2 : ServerHello T) (th2 : Secret) : Prop where
  m1Body : e.m1Body = some m1
  m2Cache : e.m2Cache = some (m2.encode P)
  version : cfg.version = protocolVersion
  sid : m2.sid = sid
  transcript : th2FromM1M2 P m1 (m2.encode P) = some th2
  signed : m2.serverSig = P.sigSign cfg.identity th2.toList

section Steps

variable {s : ServerHandshake T} {pkt : WirePacket} {src : SocketAddr} {clock : Clock}
  {draw : ServerDraw T} {sid : SessionId} {e : PendingSession T} {cfg : ServerConfig T}

variable {t : Table SessionId (PendingSession T)} {r : Except (Fault HandshakeV2Error) (ServerEvent T)}

/-- An M1 fragment without a live entry leaves an entry of its own source, or none. -/
theorem Opens.source (hok : PendingOk s) (h : Opens P sid s (.datagram pkt src clock draw))
    (hget : (s.handleDatagram P pkt src clock draw).2.pending.get sid = some e) :
    e.source = src := by
  obtain ⟨⟨frag, hparsed, htype, rfl, hnone⟩, -⟩ := h
  obtain ⟨len, hp⟩ := fromDatagram_ok hparsed
  rw [← handleDatagram_swept hparsed (.inl (hp.hsType.symm.trans htype))] at hget
  rcases (handleDatagram_does (hok.swept clock) pkt src clock draw).1.origin hget with
    ⟨e₀, hfound, -⟩ | ⟨_, _, -, -, -, -, -, rfl⟩
  · cases hnone.symm.trans hfound
  · rfl

/-- The answer to an M1 is signed over it. -/
theorem Answered.answers {m1Bytes : Bytes} {m1 : ClientHello T} {client : T.SigPk}
    {dhCs : Secret} (h : Answered P cfg sid m1Bytes draw m1 client dhCs)
    (entry : PendingSession T) (now : ℕ) :
    ∃ m2 th2, Answers P cfg sid
      (answeredEntry P cfg sid entry m1Bytes draw m1 client dhCs now) m1Bytes m2 th2 := by
  have hdec := ClientHello.decode_ok h.decoded
  refine ⟨⟨cfg.version, sid, P.kemPublic draw.kemSk, P.xPublic draw.xSk,
    (P.kemEncapsulate m1.ephPkC draw.rand).2, _⟩, _, rfl, rfl, ?_, rfl, ?_, rfl⟩
  · rw [← h.version, hdec.version]
  · rw [ServerHello.encode, th2FromM1M2_eq hdec.len (length_encodeM2 ..)]
    simp only [th2Input, m2Zero_encodeM2]

/-- What holds of an entry after the calls of a run. -/
structure Recorded (P : Primitives T) (cfg : ServerConfig T) (s : ServerHandshake T)
    (calls : List (Call T)) (sid : SessionId) (e : PendingSession T) : Prop where
  openedBy : OpenedBy P s calls sid e.source
  answers : e.state = .awaitM3 → ∃ m1 m2 th2, Answers P cfg sid e m1 m2 th2

/-- An entry that awaits its M3 keeps its source, its M1 and its M2 for as long as it waits. -/
theorem EntryStep.waits {entry : PendingSession T} (h : EntryStep P s pkt src clock draw sid e)
    (hget : s.pending.get sid = some entry) (hwas : entry.state = .awaitM3)
    (hstate : e.state = .awaitM3) :
    e.source = entry.source ∧ e.m1Body = entry.m1Body ∧ e.m2Cache = entry.m2Cache := by
  have hsame : ∀ {hsType frag entry'}, frag.sid = sid →
      Addressed s pkt src clock hsType frag entry' → entry' = entry := by
    intro hsType frag entry' hsid hto
    exact Option.some.inj ((hsid ▸ hto.get).symm.trans hget)
  cases h with
  | kept _ hkept =>
    obtain rfl := Option.mem_unique hkept hget
    exact ⟨rfl, rfl, rfl⟩
  | opened => cases hstate
  | stored frag entry' asm lastSeen hsid hto hm1
  | answered frag entry' asm m1 client dhCs hsid hto hm1 =>
    obtain rfl := hsame hsid hto
    rw [hm1] at hwas
    cases hwas
  | resent frag entry' hsid hto =>
    obtain rfl := hsame hsid hto
    exact ⟨rfl, rfl, rfl⟩

/-- What a machine emits for the session id of an entry that awaits its M3 is its cached M2. -/
theorem Move.emits {pkts : List WirePacket} {dest : SocketAddr}
    (hm : Move P s pkt src clock draw (.ok (.emit pkts dest)) t) (hget : s.pending.get sid = some e)
    (hstate : e.state = .awaitM3) (hsid : ∃ p ∈ pkts, p.sid = sid) :
    ∃ m2, e.m2Cache = some m2 ∧ pkts = m2Frags s.cfg.version sid m2 ∧ dest = e.source := by
  have hfrag : ∀ {version sid' m2}, (∃ p ∈ m2Frags version sid' m2, p.sid = sid) →
      sid' = sid := by
    rintro version sid' m2 ⟨p, hp, rfl⟩
    obtain ⟨i, -, rfl⟩ := List.mem_map.mp hp
    rw [sid_fragmentPacket]
  cases hm with
  | answered frag entry asm m1 client dhCs hto hm1 =>
    obtain rfl := hfrag hsid
    obtain rfl := Option.mem_unique hto.get hget
    rw [hstate] at hm1
    cases hm1
  | resent frag entry m2 hto hm3 hm2 =>
    obtain rfl := hfrag hsid
    obtain rfl := Option.mem_unique hto.get hget
    exact ⟨m2, hm2, rfl, hto.source.symm⟩

/-- An entry that starts to wait does so with the M2 that is emitted. -/
theorem Move.answers (hm : Move P s pkt src clock draw r t) (h : t.get sid = some e)
    (hstate : e.state = .awaitM3) (hwas : ¬ Waits s sid) :
    ∃ m2, e.m2Cache = some m2 ∧ r = .ok (.emit (m2Frags s.cfg.version sid m2) e.source) := by
  have hlive : (s.live clock).get sid ≠ some e := fun hget =>
    hwas ⟨e, get_of_live hget, hstate⟩
  have hput : ∀ {k v}, ((s.live clock).put k v).get sid = some e → sid = k ∧ v = e := by
    intro k v hget
    rw [Table.get_put] at hget
    split_ifs at hget with hsid
    · exact ⟨hsid, Option.some.inj hget⟩
    · exact absurd hget hlive
  cases hm with
  | untouched => exact absurd ⟨e, h, hstate⟩ hwas
  | evicted | kdfFailed err => exact absurd h hlive
  | opened frag asm =>
    obtain ⟨rfl, rfl⟩ := hput h
    cases hstate
  | stored frag entry asm lastSeen hto hm1 =>
    obtain ⟨rfl, rfl⟩ := hput h
    rw [hm1] at hstate
    cases hstate
  | rejected frag entry | revoked frag entry | completed frag entry =>
    exact absurd (Table.get_of_remove h).2 hlive
  | answered frag entry asm m1 client dhCs hto =>
    obtain ⟨rfl, rfl⟩ := hput h
    refine ⟨_, rfl, ?_⟩
    rw [show (answeredEntry P s.cfg frag.sid entry (asm.store frag).buffer draw m1 client dhCs
      clock.touch).source = src from hto.source]
  | resent frag entry m2 hto hm3 =>
    obtain ⟨rfl, rfl⟩ := hput h
    exact absurd ⟨entry, hto.get, hm3⟩ hwas

theorem Answers.congr {cfg' : ServerConfig T} {m1 : Bytes} {m2 : ServerHello T} {th2 : Secret}
    {e' : PendingSession T} (h : Answers P cfg sid e m1 m2 th2)
    (hcfg : cfg.version = cfg'.version ∧ cfg.identity = cfg'.identity)
    (hm1 : e'.m1Body = e.m1Body) (hm2 : e'.m2Cache = e.m2Cache) :
    Answers P cfg' sid e' m1 m2 th2 :=
  ⟨hm1.trans h.m1Body, hm2.trans h.m2Cache, hcfg.1 ▸ h.version, h.sid, h.transcript,
    hcfg.2 ▸ h.signed⟩

end Steps

section Runs

variable {s : ServerHandshake T} {calls : List (Call T)} {sid : SessionId}
  {e : PendingSession T} {cfg : ServerConfig T}

variable (cfg)

theorem version_run (now : ℕ) (calls : List (Call T)) :
    (run P (new cfg now) calls).cfg.version = cfg.version ∧
      (run P (new cfg now) calls).cfg.identity = cfg.identity := by
  obtain ⟨roster, hcfg⟩ := cfg_run (P := P) cfg now calls
  rw [hcfg]
  exact ⟨rfl, rfl⟩

theorem OpenedBy.snoc {src : SocketAddr} (h : OpenedBy P s calls sid src) {c : Call T}
    (hc : ¬ Opens P sid (run P s calls) c) : OpenedBy P s (calls ++ [c]) sid src := by
  obtain ⟨before, pkt, clock, draw, after, rfl, hopens, hlater⟩ := h
  refine ⟨before, pkt, clock, draw, after ++ [c], by simp, hopens, along_append.mpr ⟨hlater, ?_⟩⟩
  refine ⟨?_, trivial⟩
  simpa [run] using hc

/-- Every entry of a run was opened by its source, and its cached M2 answers its M1. -/
theorem recorded_run (now : ℕ) (calls : List (Call T)) :
    ∀ sid e, (run P (new cfg now) calls).pending.get sid = some e →
      Recorded P cfg (new cfg now) calls sid e := by
  induction calls using List.reverseRecOn with
  | nil =>
    intro sid e h
    rw [run, List.foldl_nil, new, Table.get_empty] at h
    cases h
  | append_singleton calls c ih =>
    intro sid e h
    have hcfg := version_run (P := P) cfg now calls
    have hok := (pendingOk_new cfg now).run (P := P) calls
    rw [run_snoc] at h
    cases c with
    | setRoster roster =>
      rw [call, setRoster_pending] at h
      obtain ⟨hopened, hanswers⟩ := ih sid e h
      exact ⟨hopened.snoc (by simp [Opens]), hanswers⟩
    | datagram pkt src clock draw =>
      have hmove := (handleDatagram_does (P := P) hok pkt src clock draw).1
      refine ⟨?_, fun hstate => ?_⟩
      · by_cases hopens : Opens P sid (run P (new cfg now) calls) (.datagram pkt src clock draw)
        · obtain rfl := hopens.source hok h
          exact ⟨calls, pkt, clock, draw, [], rfl, hopens, trivial⟩
        · rcases hmove.origin h with ⟨entry, hget, hsrc, -⟩ |
            ⟨frag, asm, hparsed, htype, -, hsid, hnone, -⟩
          · exact hsrc ▸ (ih sid entry hget).openedBy.snoc hopens
          · exact absurd ⟨⟨frag, hparsed, htype, hsid, hnone⟩, e, h⟩ hopens
      · cases hmove.entryStep h with
        | kept _ hget => exact (ih sid e hget).answers hstate
        | opened => cases hstate
        | stored frag entry asm lastSeen hsid hto hm1 =>
          rw [hm1] at hstate
          cases hstate
        | answered frag entry asm m1 client dhCs hsid hto hm1 hasm hawait hdone hans =>
          subst hsid
          obtain ⟨m2, th2, hans⟩ := hans.answers entry clock.touch
          exact ⟨_, m2, th2, hans.congr hcfg rfl rfl⟩
        | resent frag entry hsid hto hm3 =>
          obtain ⟨m1, m2, th2, hans⟩ := (ih sid entry (hsid ▸ hto.get)).answers hm3
          exact ⟨m1, m2, th2, hans.congr ⟨rfl, rfl⟩ rfl rfl⟩

/-- For as long as an entry waits it keeps its source, its M1 and its M2. -/
theorem waits_run (now : ℕ) {more : List (Call T)}
    (hget : (run P (new cfg now) calls).pending.get sid = some e) (hstate : e.state = .awaitM3)
    (hmore : ∀ mid, mid <+: more → Waits (run P (new cfg now) (calls ++ mid)) sid) :
    ∃ e', (run P (new cfg now) (calls ++ more)).pending.get sid = some e' ∧
      e'.state = .awaitM3 ∧ e'.source = e.source ∧ e'.m2Cache = e.m2Cache := by
  induction more using List.reverseRecOn with
  | nil => exact ⟨e, by simpa using hget, hstate, rfl, rfl⟩
  | append_singleton more c ih =>
    obtain ⟨entry, hentry, hwas, hsrc, hm2⟩ :=
      ih fun mid hmid => hmore mid (hmid.trans (List.prefix_append ..))
    obtain ⟨e', hget', hstate'⟩ := hmore (more ++ [c]) (List.prefix_refl _)
    refine ⟨e', hget', hstate', ?_⟩
    rw [← List.append_assoc, run_snoc] at hget'
    cases c with
    | setRoster roster =>
      rw [call, setRoster_pending] at hget'
      obtain rfl := Option.mem_unique hget' hentry
      exact ⟨hsrc, hm2⟩
    | datagram pkt src clock draw =>
      have hok := (pendingOk_new cfg now).run (P := P) (calls ++ more)
      obtain ⟨hsrc', -, hm2'⟩ := ((handleDatagram_does hok pkt src clock draw).1.entryStep
        hget').waits hentry hwas hstate'
      exact ⟨hsrc'.trans hsrc, hm2'.trans hm2⟩

end Runs

/-- Whenever an entry awaits its M3, its cached M2 is the server's over the M1 it stores, and the
five packets that carry it give it back in every order. Those five packets, addressed to the
source that opened the entry, are what the server emitted when the entry started to wait, and all
that it emits for the session id for as long as the entry waits. -/
theorem m2_bursts_identical (P : Primitives T) (cfg : ServerConfig T) (now : ℕ)
    (calls : List (Call T)) (sid : SessionId) (e : PendingSession T)
    (hget : (run P (new cfg now) calls).pending.get sid = some e)
    (hstate : e.state = .awaitM3) :
    ∃ m1 m2 th2, Answers P cfg sid e m1 m2 th2 ∧
      OpenedBy P (new cfg now) calls sid e.source ∧
      (m2Frags cfg.version sid (m2.encode P)).length = 5 ∧
      (∀ pkts : List WirePacket, pkts.Perm (m2Frags cfg.version sid (m2.encode P)) →
        FragmentAssembler.reassemble hsTypeServerHello pkts = some (m2.encode P)) ∧
      (∀ before pkt src clock draw, calls = before ++ [.datagram pkt src clock draw] →
        ¬ Waits (run P (new cfg now) before) sid →
        ((run P (new cfg now) before).handleDatagram P pkt src clock draw).1 =
          .ok (.emit (m2Frags cfg.version sid (m2.encode P)) e.source)) ∧
      ∀ more pkt src clock draw pkts dest,
        (∀ mid, mid <+: more → Waits (run P (new cfg now) (calls ++ mid)) sid) →
        ((run P (new cfg now) (calls ++ more)).handleDatagram P pkt src clock draw).1 =
          .ok (.emit pkts dest) → (∃ p ∈ pkts, p.sid = sid) →
        pkts = m2Frags cfg.version sid (m2.encode P) ∧ dest = e.source := by
  obtain ⟨hopened, hanswers⟩ := recorded_run (P := P) cfg now calls sid e hget
  obtain ⟨m1, m2, th2, hans⟩ := hanswers hstate
  refine ⟨m1, m2, th2, hans, hopened, by simp [m2Frags]; decide, ?_, ?_, ?_⟩
  · intro pkts hperm
    rw [hans.version] at hperm
    exact FragmentAssembler.reassemble_fragments sid layout_m2 (length_encodeM2 ..) hperm
  · rintro before pkt src clock draw rfl hwas
    have hok := (pendingOk_new cfg now).run (P := P) before
    rw [run_snoc] at hget
    obtain ⟨body, hbody, hevent⟩ :=
      (handleDatagram_does hok pkt src clock draw).1.answers hget hstate hwas
    obtain rfl := Option.mem_unique hans.m2Cache hbody
    rw [hevent, (version_run cfg now before).1]
  · intro more pkt src clock draw pkts dest hmore hemit hsid
    have hok := (pendingOk_new cfg now).run (P := P) (calls ++ more)
    obtain ⟨e', hget', hstate', hsrc, hm2⟩ := waits_run cfg now hget hstate hmore
    have hmove := (handleDatagram_does (P := P) hok pkt src clock draw).1
    rw [hemit] at hmove
    obtain ⟨body, hbody, hpkts, hdest⟩ := hmove.emits hget' hstate' hsid
    obtain rfl := Option.some.inj (hans.m2Cache.symm.trans (hm2.symm.trans hbody))
    rw [(version_run cfg now (calls ++ more)).1] at hpkts
    exact ⟨hpkts, hdest.trans hsrc⟩

section Sample
open Exchange

variable {src : SocketAddr} {c : ClientHandshake T} {s : ServerHandshake T}

/-- The server of an exchange has made a run. -/
theorem Reached.exists_run {x : Exchange.State T} (hx : Exchange.Reached P src c s x) :
    ∃ calls, x.server = run P s calls := by
  induction hx with
  | start h =>
    obtain rfl := h
    exact ⟨[], rfl⟩
  | next _ hstep ih =>
    obtain ⟨calls, hrun⟩ := ih
    cases hstep with
    | up pkt clock draw =>
      refine ⟨calls ++ [.datagram pkt src clock draw], ?_⟩
      rw [run_snoc, ← hrun]
      rfl
    | down => exact ⟨calls, hrun⟩

/-- The M1 of an honest client brings its entry to await the M3. -/
theorem Meeting.exists_waits (h : Exchange.Meeting P src c s) :
    ∃ calls e, (run P s calls).pending.get c.sid = some e ∧ e.state = .awaitM3 := by
  obtain ⟨hset, hready, hstart, ⟨draws, hne⟩, -⟩ := h
  have hroom : s.pending.size < s.cfg.maxPending :=
    (Table.size_eq_zero hready.empty).symm ▸ hready.room
  obtain ⟨hx, hgot, hcomp, -⟩ := reached_afterM1 hset hready.idle hstart hroom draws hne
  generalize afterM1 _ _ c _ draws = x at hx hgot hcomp
  obtain ⟨calls, hrun⟩ := Reached.exists_run hx
  have hall : x.gotUp = c.m1Frags ++ [] := by rw [hgot, List.append_nil]
  have hm1 : ∀ i < m1FragCount.toNat, m1Frag P c i ∈ fromFirst P c x := fun i hi =>
    mem_fromFirst_of_inOrder hset hall _ (mem_m1Frags hset hi)
  refine ⟨calls, ?_⟩
  rw [← hrun]
  cases (Reached.phase hset hstart hx).2 with
  | idle hnone hfirst =>
    exact absurd ((List.dropWhile_suffix _).subset (hm1 0 (by decide))) hfirst
  | assembling entry asm hget hsrc hstate hasm hholds hmore hzero hgot =>
    exact (not_incomplete hholds (fun i hi => (hgot i hi).mpr (hm1 i hi)) hmore).elim
  | answered draw entry hget hentry | confirmed draw entry rand dhCs master key hget hentry =>
    exact ⟨entry, hget, hentry.ok.state⟩
  | done draw rand dhCs master key o hkey hsent hused hfin hone =>
    rw [hcomp] at hone
    cases hone

/-- The last datagram of an exchange in which everything arrives completes the handshake. -/
theorem Meeting.exists_completing (h : Exchange.Meeting P src c s) :
    ∃ calls pkt draw o,
      ((run P s calls).handleDatagram P pkt src still draw).1 = .ok (.complete o) := by
  obtain ⟨x, pkt, draw, o, hx, -, -, hcomp, -⟩ := h.exists_last
  obtain ⟨calls, hrun⟩ := Reached.exists_run hx
  exact ⟨calls, pkt, draw, o, hrun ▸ hcomp⟩

theorem m2_bursts_identical_sample :
    ∃ calls e m1 m2 th2,
      (run Sample.primitives (new sampleServerConfig 0) calls).pending.get sampleSid = some e ∧
      e.state = .awaitM3 ∧
      Answers Sample.primitives sampleServerConfig sampleSid e m1 m2 th2 ∧
      OpenedBy Sample.primitives (new sampleServerConfig 0) calls sampleSid e.source := by
  obtain ⟨c, hnew⟩ := exists_sampleHandshake sampleSid
  obtain ⟨-, -, hsid, -⟩ := ClientHandshake.new_ok hnew fun _ _ => True
  obtain ⟨calls, e, hget, hstate⟩ := Meeting.exists_waits
    (sample_meeting (s := new sampleServerConfig 0) hnew rfl fun _ => Table.get_empty _)
  rw [hsid] at hget
  obtain ⟨m1, m2, th2, hans, hopened, -⟩ :=
    m2_bursts_identical Sample.primitives sampleServerConfig 0 calls sampleSid e hget hstate
  exact ⟨calls, e, m1, m2, th2, hget, hstate, hans, hopened⟩

end Sample

end ServerHandshake
end PqTunnel
