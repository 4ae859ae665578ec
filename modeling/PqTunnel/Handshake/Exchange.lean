import Mathlib.Data.List.TakeWhile
import PqTunnel.Handshake.HonestRun
import PqTunnel.Handshake.Network
import PqTunnel.Handshake.Progress
import PqTunnel.Handshake.Roster

/-! An honest client and a server over a network that reorders and duplicates their datagrams. -/
namespace PqTunnel.Exchange
open ByteString Transition ServerHandshake HandshakeFragment ClientHandshake

/-- The two machines, what each has sent, and what has been delivered, oldest first. The
transcripts are what the client computed a Finished value over. -/
structure State (T : CryptoTypes) where
  client : ClientHandshake T
  server : ServerHandshake T
  up : List WirePacket
  down : List WirePacket
  gotUp : List WirePacket
  gotDown : List WirePacket
  kemPks : List T.KemPk
  transcripts : List Bytes
  finished : List (HandshakeOutcome T)
  completed : List (HandshakeOutcome T)

variable {T : CryptoTypes} {P : Primitives T}

def start (c : ClientHandshake T) (s : ServerHandshake T) : State T where
  client := c
  server := s
  up := c.m1Frags
  down := []
  gotUp := []
  gotDown := []
  kemPks := []
  transcripts := []
  finished := []
  completed := []

def emitted : Except (Fault HandshakeV2Error) (ServerEvent T) → List WirePacket
  | .ok (.emit pkts _) => pkts
  | _ => []

def completions : Except (Fault HandshakeV2Error) (ServerEvent T) → List (HandshakeOutcome T)
  | .ok (.complete o) => [o]
  | _ => []

/-- The M3 packets of an M3Sent event, the transcript it confirms and its outcome. -/
def confirmations (P : Primitives T) (c : ClientHandshake T) (pkt : WirePacket) :
    Except (Fault HandshakeV2Error) (ClientEvent T) →
      List WirePacket × List Bytes × List (HandshakeOutcome T)
  | .ok (.m3Sent pkts o) =>
    (pkts, [th3Input (c.m1.encode P) (Network.assembledM2 c pkt)
      ((pkts.head?.map Network.bodyOf).getD [])], [o])
  | _ => ([], [], [])

def State.deliverUp (P : Primitives T) (x : State T) (pkt : WirePacket) (src : SocketAddr)
    (clock : Clock) (draw : ServerDraw T) : State T :=
  let r := x.server.handleDatagram P pkt src clock draw
  { x with
    server := r.2
    down := x.down ++ emitted r.1
    gotUp := x.gotUp ++ [pkt]
    kemPks := P.kemPublic draw.kemSk :: x.kemPks
    completed := x.completed ++ completions r.1 }

def State.deliverDown (P : Primitives T) (x : State T) (pkt : WirePacket) (rand : T.KemRand) :
    State T :=
  let r := x.client.handleDatagram P pkt rand
  let conf := confirmations P x.client pkt r.1
  { x with
    client := r.2
    up := x.up ++ conf.1
    gotDown := x.gotDown ++ [pkt]
    transcripts := x.transcripts ++ conf.2.1
    finished := x.finished ++ conf.2.2 }

/-- Ideal HMAC and SHA-256: a Finished value that the server would accept from this datagram was
computed by the client over the same transcript. -/
def FinishedIdeal (P : Primitives T) (x : State T) (pkt : WirePacket) : Prop :=
  ∀ frag entry m3 skS m1 m2 master key peer, HandshakeFragment.fromDatagram pkt = .ok frag →
    frag.hsType = hsTypeClientConfirm → x.server.pending.get frag.sid = some entry →
    Confirmed P x.server.cfg frag entry m3 skS m1 m2 master key peer →
    th3Input m1 m2 frag.body ∈ x.transcripts

/-- Any datagram sent so far is delivered, while no entry of the server expires, its table has
room, its rate limiter does not refuse and its ephemeral keys are fresh. -/
inductive Step (P : Primitives T) (src : SocketAddr) (x : State T) : State T → Prop where
  | up (pkt : WirePacket) (clock : Clock) (draw : ServerDraw T) (hmem : pkt ∈ x.up)
      (hcalm : Calm x.server pkt src clock) (hfresh : P.kemPublic draw.kemSk ∉ x.kemPks)
      (hmac : FinishedIdeal P x pkt) : Step P src x (x.deliverUp P pkt src clock draw)
  | down (pkt : WirePacket) (rand : T.KemRand) (hmem : pkt ∈ x.down) :
      Step P src x (x.deliverDown P pkt rand)

def Reached (P : Primitives T) (src : SocketAddr) (c : ClientHandshake T)
    (s : ServerHandshake T) : State T → Prop :=
  Reach (fun x => x = start c s) fun x (_ : Unit) x' => Step P src x x'

section Phases

variable (P : Primitives T) (src : SocketAddr) (c : ClientHandshake T) (cfg : ServerConfig T)

def m1Frag (i : ℕ) : WirePacket :=
  fragmentPacket hsTypeClientHello protocolVersion m1FragCount c.sid (c.m1.encode P) i

def m2Frag (m2 : Bytes) (j : ℕ) : WirePacket :=
  fragmentPacket hsTypeServerHello protocolVersion m2FragCount c.sid m2 j

def m3Frag (m3 : Bytes) : WirePacket :=
  fragmentPacket hsTypeClientConfirm protocolVersion m3FragCount c.sid m3 0

/-- The M2 with which the server answers the client's M1. -/
abbrev answerOf (draw : ServerDraw T) : Bytes :=
  m2For P cfg c.sid c.m1 (c.m1.encode P) draw

/-- The M3 with which the client confirms that M2. -/
abbrev confirmOf (draw : ServerDraw T) (rand : T.KemRand) (key : Secret) : Bytes :=
  ClientHandshake.m3For P c (answerOf P c cfg draw) rand (honestM2 P cfg c draw) key

/-- The deliveries to the server from the first M1 fragment 0 on. -/
def fromFirst (x : State T) : List WirePacket := x.gotUp.dropWhile (· ≠ m1Frag P c 0)

/-- What never changes in an exchange. -/
structure Base (x : State T) : Prop where
  client : ∃ st, x.client = { c with state := st }
  clientOk : x.client.Ok P fun _ _ => True
  cfg : x.server.cfg = cfg
  ok : PendingOk x.server
  gotUp : ∀ pkt ∈ x.gotUp, pkt ∈ x.up

/-- The client waits for an M2 of which it has the delivered pieces. -/
structure Waiting (x : State T) (m2 : Bytes) : Prop where
  up : ∀ pkt ∈ x.up, ∃ i < m1FragCount.toNat, pkt = m1Frag P c i
  state : ∃ asm attempts, x.client.state = .awaitM2 asm attempts ∧
    asm.Holds hsTypeServerHello m2FragCount m2BodyLen (fun j b => b = chunk hsFragBodyMax m2 j) ∧
    asm.complete = false ∧
    ∀ j < m2FragCount.toNat, asm.hasReceived j = true ↔ m2Frag c m2 j ∈ x.gotDown
  finished : x.finished = []
  transcripts : x.transcripts = []

/-- Nothing has come back from the server. -/
structure Blank (x : State T) : Prop where
  up : ∀ pkt ∈ x.up, ∃ i < m1FragCount.toNat, pkt = m1Frag P c i
  state : ∃ asm attempts, x.client.state = .awaitM2 asm attempts ∧
    (∀ Q, asm.Holds hsTypeServerHello m2FragCount m2BodyLen Q) ∧ ∀ j, asm.hasReceived j = false
  down : x.down = []
  gotDown : x.gotDown = []
  finished : x.finished = []
  transcripts : x.transcripts = []
  completed : x.completed = []

/-- The server holds the entry it answered with this M2. -/
structure Entered (draw : ServerDraw T) (entry : PendingSession T) : Prop where
  ok : AwaitingM3 entry
  source : entry.source = src
  m1Body : entry.m1Body = some (c.m1.encode P)
  m2Cache : entry.m2Cache = some (answerOf P c cfg draw)
  skS : entry.skS = some draw.kemSk
  ssA : entry.ssA = (P.kemEncapsulate c.m1.ephPkC draw.rand).1
  dhCs : entry.dhCs = P.xShared draw.xSk (P.xPublic c.xSk)
  peer : entry.verifiedClient = some (P.verifyingKey c.cfg.identity)

/-- The client confirmed this M2. -/
structure Finished (x : State T) (draw : ServerDraw T) (rand : T.KemRand) (dhCs : Secret)
    (master : MasterSecret) (key : Secret) : Prop where
  accepts : ClientHandshake.Accepts P c (answerOf P c cfg draw) rand
    (honestM2 P cfg c draw) dhCs master key
  up : ∀ pkt ∈ x.up, (∃ i < m1FragCount.toNat, pkt = m1Frag P c i) ∨
    pkt = m3Frag c (confirmOf P c cfg draw rand key)
  state : ∃ frags attempts o, x.client.state = .m3Sent frags attempts o
  finished : x.finished = [ClientHandshake.outcomeOf c master]
  sent : m3Frag c (confirmOf P c cfg draw rand key) ∈ x.up
  transcripts : x.transcripts = [th3Input (c.m1.encode P)
    (answerOf P c cfg draw) (confirmOf P c cfg draw rand key)]

/-- The first datagrams the server sent are the fragments of this M2. -/
def SentM2 (x : State T) (draw : ServerDraw T) : Prop :=
  (List.range m2FragCount.toNat).map
    (m2Frag c (answerOf P c cfg draw)) <+: x.down

/-- How far an exchange has come. -/
inductive Phase (x : State T) : Prop where
  | idle (hnone : x.server.pending.get c.sid = none) (hfirst : m1Frag P c 0 ∉ x.gotUp)
      (hblank : Blank P c x)
  | assembling (entry : PendingSession T) (asm : FragmentAssembler)
      (hget : x.server.pending.get c.sid = some entry) (hsrc : entry.source = src)
      (hstate : entry.state = .awaitM1) (hasm : entry.assembler = some asm)
      (hholds : asm.Holds hsTypeClientHello m1FragCount m1BodyLen
        fun i b => b = chunk hsFragBodyMax (c.m1.encode P) i)
      (hmore : asm.complete = false) (hzero : asm.hasReceived 0 = true)
      (hgot : ∀ i < m1FragCount.toNat,
        asm.hasReceived i = true ↔ m1Frag P c i ∈ fromFirst P c x)
      (hblank : Blank P c x)
  | answered (draw : ServerDraw T) (entry : PendingSession T)
      (hget : x.server.pending.get c.sid = some entry) (hentry : Entered P src c cfg draw entry)
      (hkey : P.kemPublic draw.kemSk ∈ x.kemPks)
      (hwait : Waiting P c x (answerOf P c cfg draw))
      (hdown : ∀ pkt ∈ x.down, ∃ j < m2FragCount.toNat,
        pkt = m2Frag c (answerOf P c cfg draw) j)
      (hsent : SentM2 P c cfg x draw)
      (hcompleted : x.completed = [])
  | confirmed (draw : ServerDraw T) (entry : PendingSession T) (rand : T.KemRand) (dhCs : Secret)
      (master : MasterSecret) (key : Secret)
      (hget : x.server.pending.get c.sid = some entry) (hentry : Entered P src c cfg draw entry)
      (hkey : P.kemPublic draw.kemSk ∈ x.kemPks) (hsent : SentM2 P c cfg x draw)
      (hfin : Finished P c cfg x draw rand dhCs master key)
      (hunseen : ∀ pkt ∈ x.gotUp, hsTypeOf pkt ≠ hsTypeClientConfirm)
      (hcompleted : x.completed = [])
  | done (draw : ServerDraw T) (rand : T.KemRand) (dhCs : Secret) (master : MasterSecret)
      (key : Secret) (o : HandshakeOutcome T) (hkey : P.kemPublic draw.kemSk ∈ x.kemPks)
      (hsent : SentM2 P c cfg x draw)
      (hused : ∀ entry m2, x.server.pending.get c.sid = some entry → entry.m2Cache = some m2 →
        m2Zero m2 ≠ m2Zero (answerOf P c cfg draw))
      (hfin : Finished P c cfg x draw rand dhCs master key) (hcompleted : x.completed = [o])
      (hsid : o.sessionId = c.sid) (hmaster : o.master = master)
      (hpeer : o.peerIdentity = P.verifyingKey c.cfg.identity)

end Phases

section Fragments

variable (P : Primitives T) (c : ClientHandshake T)

def m1Parsed (i : ℕ) : HandshakeFragment where
  version := protocolVersion
  sid := c.sid
  hsType := hsTypeClientHello
  fragIdx := UInt8.ofNat i
  fragTotal := m1FragCount
  body := chunk hsFragBodyMax (c.m1.encode P) i

def m2Parsed (m2 : Bytes) (j : ℕ) : HandshakeFragment where
  version := protocolVersion
  sid := c.sid
  hsType := hsTypeServerHello
  fragIdx := UInt8.ofNat j
  fragTotal := m2FragCount
  body := chunk hsFragBodyMax m2 j

def m3Parsed (m3 : Bytes) : HandshakeFragment where
  version := protocolVersion
  sid := c.sid
  hsType := hsTypeClientConfirm
  fragIdx := 0
  fragTotal := m3FragCount
  body := m3

variable {P c}

theorem parse_m3 {m3 : Bytes} (hlen : m3.length = m3BodyLen) :
    fromDatagram (m3Frag c m3) = .ok (m3Parsed c m3) := by
  have hbody : chunk hsFragBodyMax m3 0 = m3 := by
    rw [chunk, Nat.zero_mul]
    exact slice_self m3 (by rw [hlen]; decide)
  have hidx : 0 < m3FragCount.toNat := by decide
  rw [m3Frag, fromDatagram_fragmentPacket layout_m3 c.sid hlen hidx, hbody]
  rfl

variable {i : ℕ}

theorem parse_m1 (hi : i < m1FragCount.toNat) :
    fromDatagram (m1Frag P c i) = .ok (m1Parsed P c i) :=
  fromDatagram_fragmentPacket layout_m1 c.sid (length_m1 _) hi

theorem parse_m2 {m2 : Bytes} (hlen : m2.length = m2BodyLen) {j : ℕ}
    (hj : j < m2FragCount.toNat) :
    fromDatagram (m2Frag c m2 j) = .ok (m2Parsed c m2 j) :=
  fromDatagram_fragmentPacket layout_m2 c.sid hlen hj

theorem toNat_ofNat_idx {n : ℕ} (hi : i < n) (hn : n ≤ 5) : (UInt8.ofNat i).toNat = i := by
  rw [UInt8.toNat_ofNat']
  exact Nat.mod_eq_of_lt (by omega)

theorem m1Parsed_idx (hi : i < m1FragCount.toNat) :
    (m1Parsed P c i).fragIdx.toNat = i := toNat_ofNat_idx hi (by decide)

theorem m2Parsed_idx {m2 : Bytes} {j : ℕ} (hj : j < m2FragCount.toNat) :
    (m2Parsed c m2 j).fragIdx.toNat = j := toNat_ofNat_idx hj (by decide)

theorem idx_unique {pkt pkt' : WirePacket} {f f' : HandshakeFragment}
    (hf : fromDatagram pkt = .ok f)
    (hf' : fromDatagram pkt' = .ok f') (h : pkt = pkt') :
    f.fragIdx.toNat = f'.fragIdx.toNat := by
  rw [h, hf'] at hf
  rw [Except.ok.inj hf]

theorem m1Frag_inj {j : ℕ} (hi : i < m1FragCount.toNat) (hj : j < m1FragCount.toNat)
    (h : m1Frag P c i = m1Frag P c j) : i = j := by
  simpa only [m1Parsed_idx hi, m1Parsed_idx hj] using idx_unique (parse_m1 hi) (parse_m1 hj) h

theorem m2Frag_inj {m2 : Bytes} (hlen : m2.length = m2BodyLen) {j : ℕ} (hi : i < m2FragCount.toNat)
    (hj : j < m2FragCount.toNat) (h : m2Frag c m2 i = m2Frag c m2 j) : i = j := by
  simpa only [m2Parsed_idx hi, m2Parsed_idx hj] using
    idx_unique (parse_m2 hlen hi) (parse_m2 hlen hj) h

theorem hsTypeOf_m1Frag (hi : i < m1FragCount.toNat) :
    hsTypeOf (m1Frag P c i) = hsTypeClientHello := by
  obtain ⟨len, hp⟩ := fromDatagram_ok (parse_m1 (P := P) (c := c) hi)
  exact hp.hsType.symm

theorem received_store (asm : FragmentAssembler) (frag : HandshakeFragment)
    (piece : ℕ → WirePacket) (got : List WirePacket) {k n : ℕ} (hk : frag.fragIdx.toNat = k)
    (hkn : k < n) (hn : n ≤ 5) (hinj : ∀ i < n, ∀ j < n, piece i = piece j → i = j)
    (hgot : ∀ i < n, asm.hasReceived i = true ↔ piece i ∈ got) :
    ∀ i < n, (asm.store frag).hasReceived i = true ↔ piece i ∈ got ++ [piece k] := by
  intro i hi
  have hidx : frag.fragIdx.toNat < 5 := by omega
  rw [FragmentAssembler.hasReceived_store hidx, Bool.or_eq_true, decide_eq_true_eq, hk, hgot i hi,
    List.mem_append, List.mem_singleton, or_comm]
  refine or_congr Iff.rfl ⟨fun h => by rw [h], fun h => hinj i hi k hkn h⟩

theorem mem_fromFirst {x x' : State T} {pkt q : WirePacket} (h : m1Frag P c 0 ∈ x.gotUp)
    (hx : x'.gotUp = x.gotUp ++ [pkt]) :
    q ∈ fromFirst P c x' ↔ q ∈ fromFirst P c x ∨ q = pkt := by
  have happ : fromFirst P c x' = fromFirst P c x ++ [pkt] := by
    rw [fromFirst, hx, List.dropWhile_append, if_neg]
    · rfl
    · intro hemp
      have hall := List.dropWhile_eq_nil_iff.mp (List.isEmpty_iff.mp hemp) _ h
      simp at hall
  rw [happ, List.mem_append, List.mem_singleton]

end Fragments

section Steps

variable {src : SocketAddr} {c : ClientHandshake T} {cfg : ServerConfig T} {x : State T}
  {pkt : WirePacket} {clock : Clock} {draw : ServerDraw T}

variable {s' : ServerHandshake T}

theorem deliverUp_quiet (h : x.server.handleDatagram P pkt src clock draw = (.ok .none, s')) :
    x.deliverUp P pkt src clock draw =
      { x with server := s', gotUp := x.gotUp ++ [pkt]
               kemPks := P.kemPublic draw.kemSk :: x.kemPks } := by
  simp only [State.deliverUp, h, emitted, completions, List.append_nil]

theorem deliverUp_emit {pkts : List WirePacket} {dest : SocketAddr}
    (h : x.server.handleDatagram P pkt src clock draw = (.ok (.emit pkts dest), s')) :
    x.deliverUp P pkt src clock draw =
      { x with server := s', down := x.down ++ pkts, gotUp := x.gotUp ++ [pkt]
               kemPks := P.kemPublic draw.kemSk :: x.kemPks } := by
  simp only [State.deliverUp, h, emitted, completions, List.append_nil]

theorem deliverUp_complete {o : HandshakeOutcome T}
    (h : x.server.handleDatagram P pkt src clock draw = (.ok (.complete o), s')) :
    x.deliverUp P pkt src clock draw =
      { x with server := s', gotUp := x.gotUp ++ [pkt]
               kemPks := P.kemPublic draw.kemSk :: x.kemPks
               completed := x.completed ++ [o] } := by
  simp only [State.deliverUp, h, emitted, completions, List.append_nil]

theorem Blank.quiet (h : Blank P c x) (s' : ServerHandshake T) (gotUp : List WirePacket)
    (kemPks : List T.KemPk) :
    Blank P c { x with server := s', gotUp := gotUp, kemPks := kemPks } :=
  ⟨h.up, h.state, h.down, h.gotDown, h.finished, h.transcripts, h.completed⟩

/-- Before the first fragment 0, the exchange stays idle or the server opens an entry. -/
theorem idle_up {i : ℕ} (hi : i < m1FragCount.toNat)
    (hcalm : Calm x.server (m1Frag P c i) src clock)
    (hnone : x.server.pending.get c.sid = none) (hfirst : m1Frag P c 0 ∉ x.gotUp)
    (hblank : Blank P c x) :
    Phase P src c cfg (x.deliverUp P (m1Frag P c i) src clock draw) := by
  by_cases h0 : i = 0
  · subst h0
    obtain ⟨asm, hnew, hholds, hfresh⟩ := FragmentAssembler.new_holds layout_m1
      fun i b => b = chunk hsFragBodyMax (c.m1.encode P) i
    obtain ⟨s', heq, hget, -⟩ :=
      handle_open (P := P) draw hcalm (parse_m1 hi) rfl rfl hnone hnew
    obtain ⟨len, hp⟩ := fromDatagram_ok (parse_m1 (P := P) (c := c) hi)
    have hawait := hholds.awaits hp rfl (hfresh _)
    have hstore := hholds.store hp hawait (by rw [m1Parsed_idx hi]; rfl)
    have hgot := received_store asm (m1Parsed P c 0) (m1Frag P c) [] (m1Parsed_idx hi) hi
      (by decide) (fun i hi j hj => m1Frag_inj hi hj) fun i hi => by simp [hfresh i]
    have hzero : (asm.store (m1Parsed P c 0)).hasReceived 0 = true :=
      (hgot 0 hi).mpr (by simp)
    have hmore : (asm.store (m1Parsed P c 0)).complete = false := by
      rw [Bool.eq_false_iff]
      intro hdone
      have h1 := hstore.done.mp hdone 1 (by decide)
      have hmem := (hgot 1 (by decide)).mp h1
      rw [List.nil_append, List.mem_singleton] at hmem
      exact absurd (m1Frag_inj (by decide) hi hmem) (by decide)
    rw [deliverUp_quiet heq]
    refine .assembling _ _ hget rfl rfl rfl hstore hmore hzero ?_ (hblank.quiet ..)
    have hfrom : (x.gotUp ++ [m1Frag P c 0]).dropWhile (· ≠ m1Frag P c 0) = [m1Frag P c 0] := by
      rw [List.dropWhile_append, if_pos]
      · simp
      · rw [List.isEmpty_iff, List.dropWhile_eq_nil_iff]
        intro q hq
        simp only [ne_eq, decide_eq_true_eq]
        rintro rfl
        exact hfirst hq
    intro j hj
    rw [hgot j hj, fromFirst, hfrom, List.nil_append]
  · have hidx : (m1Parsed P c i).fragIdx ≠ 0 := by
      intro h
      have hnat := m1Parsed_idx (P := P) (c := c) hi
      rw [h] at hnat
      exact h0 hnat.symm
    obtain ⟨s', heq, hget⟩ :=
      handle_early (P := P) draw hcalm (parse_m1 hi) rfl hidx hnone
    rw [deliverUp_quiet heq]
    refine .idle hget ?_ (hblank.quiet ..)
    intro hmem
    rcases List.mem_append.mp hmem with h | h
    · exact hfirst h
    · exact h0 (m1Frag_inj hi (by decide) (List.mem_singleton.mp h).symm)

/-- An honest client, a server that knows its key, and correct primitives. The last field
excludes a roster key under which somebody else's signature verifies. -/
structure Setting (P : Primitives T) (c : ClientHandshake T) (cfg : ServerConfig T) : Prop where
  correct : Correct P
  client : c.Ok P fun _ _ => True
  version : cfg.version = protocolVersion
  roster : P.verifyingKey c.cfg.identity ∈ cfg.roster
  pinned : c.cfg.serverIdentity = P.verifyingKey cfg.identity
  own : ∀ pk ∈ cfg.roster, P.sigVerify pk (P.sha256 (th1Input (c.m1.encode P))).toList
    c.m1.clientSig = true → pk = P.verifyingKey c.cfg.identity

/-- Until the server answers, the client's assembler is empty. -/
theorem Blank.waiting (h : Blank P c x) (m2 : Bytes) {x' : State T} (hup : x'.up = x.up)
    (hclient : x'.client = x.client) (hgot : x'.gotDown = x.gotDown)
    (hfin : x'.finished = x.finished) (htrans : x'.transcripts = x.transcripts) :
    Waiting P c x' m2 := by
  obtain ⟨asm, attempts, hst, hholds, hfresh⟩ := h.state
  refine ⟨hup ▸ h.up, ⟨asm, attempts, hclient ▸ hst, hholds _, ?_, ?_⟩, hfin.trans h.finished,
    htrans.trans h.transcripts⟩
  · rw [Bool.eq_false_iff]
    intro hdone
    have h0 := (hholds fun _ _ => True).done.mp hdone 0 (by decide)
    rw [hfresh 0] at h0
    cases h0
  · intro j hj
    rw [hfresh j, hgot, h.gotDown]
    simp

theorem m2Frags_eq (hset : Setting P c cfg) (m2 : Bytes) :
    m2Frags cfg.version c.sid m2 = (List.range m2FragCount.toNat).map (m2Frag c m2) := by
  rw [m2Frags, hset.version]
  rfl

theorem mem_m2Frags (hset : Setting P c cfg) {m2 : Bytes} {q : WirePacket} :
    q ∈ m2Frags cfg.version c.sid m2 ↔ ∃ j < m2FragCount.toNat, q = m2Frag c m2 j := by
  rw [m2Frags_eq hset, List.mem_map]
  constructor
  · rintro ⟨j, hj, rfl⟩
    exact ⟨j, List.mem_range.mp hj, rfl⟩
  · rintro ⟨j, hj, rfl⟩
    exact ⟨j, List.mem_range.mpr hj, rfl⟩

variable {asm : FragmentAssembler}

/-- While an M1 is being assembled, each fragment is a repetition, one more piece, or the last
piece, and the last one is answered. -/
theorem assembling_up (hset : Setting P c cfg) (hcfg : x.server.cfg = cfg) {i : ℕ}
    (hi : i < m1FragCount.toNat) (hcalm : Calm x.server (m1Frag P c i) src clock)
    {entry : PendingSession T} (hget : x.server.pending.get c.sid = some entry)
    (hsrc : entry.source = src) (hstate : entry.state = .awaitM1)
    (hasm : entry.assembler = some asm)
    (hholds : asm.Holds hsTypeClientHello m1FragCount m1BodyLen fun i b =>
      b = chunk hsFragBodyMax (c.m1.encode P) i)
    (hmore : asm.complete = false) (hzero : asm.hasReceived 0 = true)
    (hgot : ∀ i < m1FragCount.toNat, asm.hasReceived i = true ↔ m1Frag P c i ∈ fromFirst P c x)
    (hblank : Blank P c x) : Phase P src c cfg (x.deliverUp P (m1Frag P c i) src clock draw) := by
  have hparse := parse_m1 (P := P) (c := c) hi
  obtain ⟨len, hp⟩ := fromDatagram_ok hparse
  have hto := hcalm.addressed hparse rfl hget hsrc
  have hfirst : m1Frag P c 0 ∈ x.gotUp :=
    (List.dropWhile_suffix _).subset ((hgot 0 (by decide)).mp hzero)
  cases hrec : asm.hasReceived i with
  | true =>
    have hw : ¬ asm.Awaits (m1Parsed P c i) := by
      intro hw
      have hnot := hw.2.2.2
      rw [m1Parsed_idx hi, hrec] at hnot
      cases hnot
    obtain ⟨s', heq, hget'⟩ := handle_repeat (P := P) draw hto hstate hasm hw
    rw [deliverUp_quiet heq]
    refine .assembling entry asm hget' hsrc hstate hasm hholds hmore hzero ?_ (hblank.quiet ..)
    intro j hj
    rw [hgot j hj]
    refine Iff.trans ?_ (mem_fromFirst hfirst rfl).symm
    constructor
    · exact Or.inl
    · rintro (h | h)
      · exact h
      · exact h ▸ (hgot i hi).mp hrec
  | false =>
    have hw : asm.Awaits (m1Parsed P c i) := hholds.awaits hp rfl (by rw [m1Parsed_idx hi, hrec])
    have hstore := hholds.store hp hw (by rw [m1Parsed_idx hi]; rfl)
    cases hdone : (asm.store (m1Parsed P c i)).complete with
    | false =>
      obtain ⟨s', heq, hget'⟩ := handle_store (P := P) draw hto hstate hasm hholds hw hdone
      have hgot' := received_store asm (m1Parsed P c i) (m1Frag P c) (fromFirst P c x)
        (m1Parsed_idx hi) hi (by decide) (fun i hi j hj => m1Frag_inj hi hj) hgot
      rw [deliverUp_quiet heq]
      refine .assembling _ _ hget' hsrc hstate rfl hstore hdone ?_ ?_ (hblank.quiet ..)
      · exact (hgot' 0 (by decide)).mpr (List.mem_append_left _ ((hgot 0 (by decide)).mp hzero))
      · intro j hj
        rw [hgot' j hj, List.mem_append, List.mem_singleton]
        exact (mem_fromFirst hfirst rfl).symm
    | true =>
      have hbuf : (asm.store (m1Parsed P c i)).buffer = c.m1.encode P :=
        hstore.buffer_eq (length_m1 _) hdone
      have hans := honest_answered hset.correct hset.client hset.version hset.roster draw
      obtain ⟨m1, client, dhCs, s', hans', heq, entry', hget', hsrc'⟩ := handle_answer (P := P) draw
        hto hstate hasm hholds hw hcalm hdone hstore.len (hcfg ▸ hbuf ▸ hans)
      rw [hbuf, hcfg] at hans' heq hget'
      obtain rfl : m1 = c.m1 := Except.ok.inj (hans'.decoded.symm.trans hans.decoded)
      obtain rfl : client = P.verifyingKey c.cfg.identity :=
        hset.own client hans'.onRoster hans'.verified
      obtain rfl : dhCs = P.xShared draw.xSk (P.xPublic c.xSk) :=
        Option.mem_unique hans'.agreed hans.agreed
      rw [deliverUp_emit heq, hblank.down, List.nil_append]
      have hlen := length_m1 (P := P) c.m1
      have hentered : Entered P src c cfg draw (answeredEntry P cfg c.sid entry' (c.m1.encode P)
          draw c.m1 (P.verifyingKey c.cfg.identity) (P.xShared draw.xSk (P.xPublic c.xSk))
          clock.touch) :=
        ⟨⟨rfl, rfl, ⟨_, rfl, hlen⟩, ⟨_, rfl, length_m2For ..⟩, ⟨_, rfl⟩, ⟨_, rfl⟩⟩, hsrc', rfl, rfl,
          rfl, rfl, rfl, rfl⟩
      refine .answered draw _ hget' hentered List.mem_cons_self
        (hblank.waiting _ rfl rfl rfl rfl rfl) ?_ ?_ hblank.completed
      · intro q hq
        exact (mem_m2Frags hset).mp hq
      · exact (m2Frags_eq hset _).symm ▸ List.prefix_refl _

theorem Entered.touch {entry : PendingSession T} (h : Entered P src c cfg draw entry)
    (lastSeen : ℕ) : Entered P src c cfg draw { entry with lastSeen := lastSeen } :=
  ⟨⟨h.ok.state, h.ok.assembler, h.ok.m1Body, h.ok.m2Cache, h.ok.skS, h.ok.verifiedClient⟩,
    h.source, h.m1Body, h.m2Cache, h.skS, h.ssA, h.dhCs, h.peer⟩

/-- What an M1 fragment does once the server has answered: perhaps the same M2 again. -/
structure Resent (P : Primitives T) (src : SocketAddr) (c : ClientHandshake T)
    (cfg : ServerConfig T) (x x' : State T) (draw : ServerDraw T) : Prop where
  entry : ∃ entry, x'.server.pending.get c.sid = some entry ∧ Entered P src c cfg draw entry
  client : x'.client = x.client
  up : x'.up = x.up
  gotDown : x'.gotDown = x.gotDown
  kemPks : ∀ pk ∈ x.kemPks, pk ∈ x'.kemPks
  down : ∀ q ∈ x'.down, q ∈ x.down ∨ ∃ j < m2FragCount.toNat,
    q = m2Frag c (answerOf P c cfg draw) j
  kept : x.down <+: x'.down
  transcripts : x'.transcripts = x.transcripts
  finished : x'.finished = x.finished
  completed : x'.completed = x.completed

variable {draw₀ : ServerDraw T}

theorem resent_up (hset : Setting P c cfg) (hcfg : x.server.cfg = cfg) {i : ℕ}
    (hi : i < m1FragCount.toNat) (hcalm : Calm x.server (m1Frag P c i) src clock)
    {entry : PendingSession T} (hget : x.server.pending.get c.sid = some entry)
    (hentry : Entered P src c cfg draw₀ entry) (draw : ServerDraw T) :
    Resent P src c cfg x (x.deliverUp P (m1Frag P c i) src clock draw) draw₀ := by
  obtain ⟨s', pkts, lastSeen, hev, hget'⟩ := handle_resend (P := P) draw hcalm
    (hcalm.addressed (parse_m1 hi) rfl hget hentry.source) hentry.ok hentry.m2Cache
  have hentry' := hentry.touch lastSeen
  rcases hev with ⟨heq, rfl⟩ | ⟨heq, rfl⟩
  · rw [deliverUp_quiet heq]
    exact ⟨⟨_, hget', hentry'⟩, rfl, rfl, rfl, fun _ h => List.mem_cons_of_mem _ h,
      fun q hq => Or.inl hq, List.prefix_refl _, rfl, rfl, rfl⟩
  · rw [deliverUp_emit heq, hcfg]
    refine ⟨⟨_, hget', hentry'⟩, rfl, rfl, rfl, fun _ h => List.mem_cons_of_mem _ h,
      fun q hq => ?_, List.prefix_append .., rfl, rfl, rfl⟩
    rcases List.mem_append.mp hq with hq | hq
    · exact Or.inl hq
    · exact Or.inr ((mem_m2Frags hset).mp hq)

theorem SentM2.mono {x' : State T} (h : SentM2 P c cfg x draw) (hk : x.down <+: x'.down) :
    SentM2 P c cfg x' draw := List.IsPrefix.trans h hk

variable {rand : T.KemRand} {master : MasterSecret}

theorem Finished.mono {x' : State T} {dhCs : Secret} {key : Secret}
    (h : Finished P c cfg x draw rand dhCs master key) (hup : x'.up = x.up)
    (hclient : x'.client = x.client) (hfin : x'.finished = x.finished)
    (htrans : x'.transcripts = x.transcripts) : Finished P c cfg x' draw rand dhCs master key :=
  ⟨h.accepts, hup ▸ h.up, hclient ▸ h.state, hfin.trans h.finished, hup ▸ h.sent,
    htrans.trans h.transcripts⟩

theorem answered_up {x' : State T} (hre : Resent P src c cfg x x' draw₀)
    (hkey : P.kemPublic draw₀.kemSk ∈ x.kemPks) (hwait : Waiting P c x (answerOf P c cfg draw₀))
    (hdown : ∀ pkt ∈ x.down, ∃ j < m2FragCount.toNat, pkt = m2Frag c (answerOf P c cfg draw₀) j)
    (hsent : SentM2 P c cfg x draw₀) (hcompleted : x.completed = []) : Phase P src c cfg x' := by
  obtain ⟨entry, hget, hentry⟩ := hre.entry
  refine .answered draw₀ entry hget hentry (hre.kemPks _ hkey) ?_ ?_ (hsent.mono hre.kept)
    (hre.completed.trans hcompleted)
  · obtain ⟨asm, attempts, hst, hholds, hmore, hgot⟩ := hwait.state
    refine ⟨hre.up ▸ hwait.up, ⟨asm, attempts, hre.client ▸ hst, hholds, hmore, ?_⟩,
      hre.finished.trans hwait.finished, hre.transcripts.trans hwait.transcripts⟩
    rw [hre.gotDown]
    exact hgot
  · intro q hq
    rcases hre.down q hq with hq | hq
    · exact hdown q hq
    · exact hq

/-- The M3 of a confirmed exchange completes it. -/
theorem confirmed_up (hset : Setting P c cfg) (hcfg : x.server.cfg = cfg) {dhCs : Secret}
    {key : Secret} (hcalm : Calm x.server (m3Frag c (confirmOf P c cfg draw₀ rand key)) src clock)
    {entry : PendingSession T} (hget : x.server.pending.get c.sid = some entry)
    (hentry : Entered P src c cfg draw₀ entry) (hkey : P.kemPublic draw₀.kemSk ∈ x.kemPks)
    (hsent : SentM2 P c cfg x draw₀) (hfin : Finished P c cfg x draw₀ rand dhCs master key)
    (hcompleted : x.completed = []) :
    Phase P src c cfg (x.deliverUp P (m3Frag c (confirmOf P c cfg draw₀ rand key)) src clock
      draw) := by
  generalize hm3 : confirmOf P c cfg draw₀ rand key = m3 at *
  have hlen : m3.length = m3BodyLen := hm3 ▸ length_m3For ..
  obtain ⟨m3', hconf⟩ := honest_confirmed hset.correct hset.client hset.version hfin.accepts
    (m3Parsed c m3) rfl hm3.symm hentry.ok.state hentry.skS hentry.m1Body hentry.m2Cache
    hentry.ssA hentry.dhCs hentry.peer
  have hroster : x.server.rosterContains P (P.verifyingKey c.cfg.identity) = true := by
    rw [rosterContains, hcfg, List.any_eq_true]
    exact ⟨_, hset.roster, by simp⟩
  obtain ⟨s', heq, hgone⟩ := handle_confirm (P := P) draw hcalm
    (hcalm.addressed (parse_m3 hlen) rfl hget hentry.source) hentry.ok (hcfg ▸ hconf) hroster
  rw [deliverUp_complete heq, hcompleted]
  refine .done draw₀ rand dhCs master key _ (List.mem_cons_of_mem _ hkey) hsent ?_
    (hfin.mono rfl rfl rfl rfl) rfl rfl rfl rfl
  intro entry' m2 hget'
  rw [show s'.pending.get c.sid = none from hgone] at hget'
  cases hget'

/-- After Complete nothing completes again: a later entry has an M2 with another key. -/
theorem done_up (hset : Setting P c cfg) (hok : PendingOk x.server) (hsidOf : pkt.sid = c.sid)
    {dhCs : Secret} {key : Secret} {o : HandshakeOutcome T}
    (hkey : P.kemPublic draw₀.kemSk ∈ x.kemPks) (hsent : SentM2 P c cfg x draw₀)
    (hused : ∀ entry m2, x.server.pending.get c.sid = some entry → entry.m2Cache = some m2 →
      m2Zero m2 ≠ m2Zero (answerOf P c cfg draw₀))
    (hfin : Finished P c cfg x draw₀ rand dhCs master key) (hcompleted : x.completed = [o])
    (hsid : o.sessionId = c.sid) (hmaster : o.master = master)
    (hpeer : o.peerIdentity = P.verifyingKey c.cfg.identity)
    (hfresh : P.kemPublic draw.kemSk ∉ x.kemPks) (hmac : FinishedIdeal P x pkt) :
    Phase P src c cfg (x.deliverUp P pkt src clock draw) := by
  have hdoes := (handleDatagram_does (P := P) hok pkt src clock draw).1
  have hquiet : completions (x.server.handleDatagram P pkt src clock draw).1 = [] := by
    unfold completions
    split
    · rename_i o' heq
      exfalso
      rw [heq] at hdoes
      obtain ⟨frag, entry, m3, skS, m1, m2, key', hto, hconf, -⟩ := hdoes.of_complete
      obtain ⟨len, hp⟩ := fromDatagram_ok hto.parsed
      have hth3 := hmac frag entry m3 skS m1 m2 _ key' _ hto.parsed hto.hsType hto.get hconf
      have hget := hto.get
      rw [hp.sid, hsidOf] at hget
      rw [hfin.transcripts, List.mem_singleton] at hth3
      have hentry : AwaitingM3 entry := (hok _ _ hget).awaitingM3 hconf.state
      obtain ⟨m1', hm1, hlen1⟩ := hentry.m1Body
      obtain ⟨m2', hm2, hlen2⟩ := hentry.m2Cache
      obtain rfl : m1 = m1' := Option.mem_unique hconf.m1Body hm1
      obtain rfl : m2 = m2' := Option.mem_unique hconf.m2Cache hm2
      have hinj := th3Input_inj hlen1 (length_m1 _) hlen2 (length_m2For ..) hth3
      exact hused entry m2 hget hm2 hinj.2.1
    · rfl
  refine .done draw₀ rand dhCs master key o (List.mem_cons_of_mem _ hkey)
    (hsent.mono (List.prefix_append ..)) ?_ (hfin.mono rfl rfl rfl rfl) ?_ hsid hmaster hpeer
  · intro entry m2 hget
    cases hdoes.entryStep hget with
    | kept _ hkept => exact hused entry m2 hkept
    | opened => nofun
    | stored frag e asm lastSeen hfsid hto hstate | resent frag e hfsid hto hstate =>
      exact hused e m2 (hfsid ▸ hto.get)
    | answered frag e asm m1 client dh hfsid hto hstate hasm hawait hdone hans =>
      intro heq hm2
      obtain rfl := Option.some.inj heq
      obtain ⟨v, x₁, c₁, s₁, henc⟩ :=
        exists_m2For (P := P) x.server.cfg frag.sid m1 (asm.store frag).buffer draw
      obtain ⟨v', x₁', c₁', s₁', henc'⟩ :=
        exists_m2For (P := P) cfg c.sid c.m1 (c.m1.encode P) draw₀
      rw [henc, answerOf, henc'] at hm2
      exact hfresh (m2Zero_ephPk_inj hset.correct.kemPk hm2 ▸ hkey)
  · rw [State.deliverUp]
    dsimp only
    rw [hquiet, List.append_nil]
    exact hcompleted

theorem deliverDown_quiet {pkt : WirePacket} {c' : ClientHandshake T}
    (h : x.client.handleDatagram P pkt rand = (.ok .none, c')) :
    x.deliverDown P pkt rand = { x with client := c', gotDown := x.gotDown ++ [pkt] } := by
  simp only [State.deliverDown, h, confirmations, List.append_nil]

theorem assembledM2_of_done {attempts : ℕ} {Q : ℕ → Bytes → Prop} {frag : HandshakeFragment}
    (hstate : x.client.state = .awaitM2 asm attempts)
    (hparsed : fromDatagram pkt = .ok frag)
    (hholds : asm.Holds hsTypeServerHello m2FragCount m2BodyLen Q) (hw : asm.Awaits frag)
    (hdone : (asm.store frag).complete = true) :
    Network.assembledM2 x.client pkt = (asm.store frag).buffer := by
  obtain ⟨len, hp⟩ := fromDatagram_ok hparsed
  unfold Network.assembledM2
  simp only [hstate, hparsed, FragmentAssembler.addFragment_stored hholds hp hw,
    FragmentAssembler.message, hdone, if_true, Option.getD_some]

/-- The last piece of the M2 makes the client confirm it. -/
theorem deliverDown_accept (hset : Setting P c cfg) {st : ClientState T}
    (hclient : x.client = { c with state := st }) {attempts : ℕ}
    (hstate : x.client.state = .awaitM2 asm attempts) {j : ℕ} (hj : j < m2FragCount.toNat)
    (hholds : asm.Holds hsTypeServerHello m2FragCount m2BodyLen (fun j b => b = chunk hsFragBodyMax
      (answerOf P c cfg draw₀) j))
    (hw : asm.Awaits (m2Parsed c (answerOf P c cfg draw₀) j))
    (hdone : (asm.store (m2Parsed c (answerOf P c cfg draw₀) j)).complete = true)
    (rand : T.KemRand) :
    ∃ dhCs master key, ClientHandshake.Accepts P c (answerOf P c cfg draw₀) rand
        (honestM2 P cfg c draw₀) dhCs master key ∧
      x.deliverDown P (m2Frag c (answerOf P c cfg draw₀) j) rand =
        { x with
          client := c.confirmed (confirmOf P c cfg draw₀ rand key) master
          up := x.up ++ [m3Frag c (confirmOf P c cfg draw₀ rand key)]
          gotDown := x.gotDown ++ [m2Frag c (answerOf P c cfg draw₀) j]
          transcripts := x.transcripts ++ [th3Input (c.m1.encode P) (answerOf P c cfg draw₀)
            (confirmOf P c cfg draw₀ rand key)]
          finished := x.finished ++ [outcomeOf c master] } := by
  have hlen : (answerOf P c cfg draw₀).length = m2BodyLen := length_m2For ..
  have hparse := parse_m2 (c := c) hlen hj
  obtain ⟨n, hp⟩ := fromDatagram_ok hparse
  have hstore := hholds.store hp hw (by rw [m2Parsed_idx hj]; rfl)
  have hbuf := hstore.buffer_eq hlen hdone
  obtain ⟨master, key, hacc⟩ :=
    honest_accepts hset.correct hset.client hset.version hset.pinned draw₀ rand
  have hasm := assembledM2_of_done hstate hparse hholds hw hdone
  have hver : c.cfg.version = protocolVersion := hset.client.version
  rw [hbuf] at hasm
  have heq := handle_accept hparse rfl (by rw [hclient]; rfl) hstate hholds hw hdone
    hstore.len (by rw [hbuf, hclient]; exact (accepts_state st).mpr hacc)
  rw [hbuf] at heq
  refine ⟨_, master, key, hacc, ?_⟩
  have hm3 : m3FragsOf x.client (m3For P x.client
      (answerOf P c cfg draw₀) rand (honestM2 P cfg c draw₀) key) =
        [m3Frag c (confirmOf P c cfg draw₀ rand key)] := by
    rw [hclient, m3Frag, ← hver]
    rfl
  have hbody : Network.bodyOf (m3Frag c (confirmOf P c cfg draw₀ rand key)) =
      confirmOf P c cfg draw₀ rand key := by
    rw [Network.bodyOf, parse_m3 (length_m3For ..)]
    rfl
  simp only [State.deliverDown, heq, confirmations, hm3, hasm, List.head?_cons, Option.map_some,
    Option.getD_some, hbody]
  rw [hclient]
  rfl

/-- While an M2 is being assembled, each fragment is a repetition, one more piece, or the last
piece, and the last one is confirmed. -/
theorem answered_down (hset : Setting P c cfg) (hbase : Base P c cfg x) {j : ℕ}
    (hj : j < m2FragCount.toNat) {entry : PendingSession T}
    (hget : x.server.pending.get c.sid = some entry) (hentry : Entered P src c cfg draw₀ entry)
    (hkey : P.kemPublic draw₀.kemSk ∈ x.kemPks) (hwait : Waiting P c x (answerOf P c cfg draw₀))
    (hdown : ∀ pkt ∈ x.down, ∃ j < m2FragCount.toNat, pkt = m2Frag c (answerOf P c cfg draw₀) j)
    (hsent : SentM2 P c cfg x draw₀) (hcompleted : x.completed = []) :
    Phase P src c cfg (x.deliverDown P (m2Frag c (answerOf P c cfg draw₀) j) rand) := by
  obtain ⟨st, hclient⟩ := hbase.client
  obtain ⟨asm, attempts, hstate, hholds, hmore, hgot⟩ := hwait.state
  have hlen : (answerOf P c cfg draw₀).length = m2BodyLen := length_m2For ..
  have hparse := parse_m2 (c := c) hlen hj
  obtain ⟨n, hp⟩ := fromDatagram_ok hparse
  have hsid : c.sid = x.client.sid := by rw [hclient]
  -- both quiet cases leave an exchange that still waits
  have hquiet : ∀ asm' : FragmentAssembler,
      x.client.handleDatagram P (m2Frag c (answerOf P c cfg draw₀) j) rand =
        (.ok .none, { x.client with state := .awaitM2 asm' attempts }) →
      asm'.Holds hsTypeServerHello m2FragCount m2BodyLen
        (fun j b => b = chunk hsFragBodyMax (answerOf P c cfg draw₀) j) →
      asm'.complete = false →
      (∀ k < m2FragCount.toNat, asm'.hasReceived k = true ↔
        m2Frag c (answerOf P c cfg draw₀) k ∈ x.gotDown ++ [m2Frag c (answerOf P c cfg draw₀) j]) →
      Phase P src c cfg (x.deliverDown P (m2Frag c (answerOf P c cfg draw₀) j) rand) := by
    intro asm' heq hholds' hmore' hgot'
    rw [deliverDown_quiet heq]
    exact .answered draw₀ entry hget hentry hkey
      ⟨hwait.up, ⟨asm', attempts, rfl, hholds', hmore', hgot'⟩, hwait.finished, hwait.transcripts⟩
      hdown hsent hcompleted
  have hgot' := received_store asm (m2Parsed c (answerOf P c cfg draw₀) j)
    (m2Frag c (answerOf P c cfg draw₀)) x.gotDown (m2Parsed_idx hj) hj (by decide)
    (fun i hi k hk => m2Frag_inj hlen hi hk) hgot
  cases hrec : asm.hasReceived j with
  | true =>
    have hw : ¬ asm.Awaits (m2Parsed c (answerOf P c cfg draw₀) j) := by
      intro hw
      have hnot := hw.2.2.2
      rw [m2Parsed_idx hj, hrec] at hnot
      cases hnot
    have hsame : { x.client with state := .awaitM2 asm attempts } = x.client := by rw [← hstate]
    refine hquiet asm ?_ hholds hmore ?_
    · rw [hsame]
      exact ClientHandshake.handle_repeat rand hparse rfl hsid hstate hw
    · intro k hk
      rw [hgot k hk, List.mem_append, List.mem_singleton]
      constructor
      · exact Or.inl
      · rintro (h | h)
        · exact h
        · exact h ▸ (hgot j hj).mp hrec
  | false =>
    have hw : asm.Awaits (m2Parsed c (answerOf P c cfg draw₀) j) :=
      hholds.awaits hp rfl (by rw [m2Parsed_idx hj, hrec])
    have hstore := hholds.store hp hw (by rw [m2Parsed_idx hj]; rfl)
    cases hdone : (asm.store (m2Parsed c (answerOf P c cfg draw₀) j)).complete with
    | false =>
      exact hquiet _ (ClientHandshake.handle_store rand hparse rfl hsid hstate hholds hw hdone)
        hstore hdone hgot'
    | true =>
      obtain ⟨dhCs, master, key, hacc, heq⟩ :=
        deliverDown_accept hset hclient hstate hj hholds hw hdone rand
      rw [heq, hwait.finished, hwait.transcripts, List.nil_append, List.nil_append]
      refine .confirmed draw₀ entry rand dhCs master key hget hentry hkey hsent
        ⟨hacc, ?_, ⟨_, _, _, rfl⟩, rfl, by simp, rfl⟩ ?_ hcompleted
      · intro q hq
        rcases List.mem_append.mp hq with hq | hq
        · exact Or.inl (hwait.up q hq)
        · exact Or.inr (List.mem_singleton.mp hq)
      · intro q hq
        obtain ⟨i, hi, rfl⟩ := hwait.up q (hbase.gotUp q hq)
        rw [hsTypeOf_m1Frag hi]
        decide

theorem Base.up (h : Base P c cfg x) (hmem : pkt ∈ x.up) :
    Base P c cfg (x.deliverUp P pkt src clock draw) := by
  refine ⟨h.client, h.clientOk, ?_, pendingOk_handleDatagram h.ok pkt src clock draw, ?_⟩
  · exact (handleDatagram_does h.ok pkt src clock draw).2.trans h.cfg
  · intro q hq
    rcases List.mem_append.mp hq with hq | hq
    · exact h.gotUp q hq
    · exact List.mem_singleton.mp hq ▸ hmem

theorem Base.down (h : Base P c cfg x) (rand : T.KemRand) :
    Base P c cfg (x.deliverDown P pkt rand) := by
  have hmove := handleDatagram_move h.clientOk pkt rand
  refine ⟨?_, hmove.ok h.clientOk fun _ _ _ _ => trivial, h.cfg, h.ok, fun q hq => ?_⟩
  · obtain ⟨st, hst⟩ := h.client
    obtain ⟨st', hst'⟩ := hmove.frame
    exact ⟨st', by rw [State.deliverDown, hst', hst]⟩
  · exact List.mem_append_left _ (h.gotUp q hq)

/-- What a delivery to the server does to the exchange. -/
theorem Phase.up (hset : Setting P c cfg) (hbase : Base P c cfg x) (h : Phase P src c cfg x)
    (hmem : pkt ∈ x.up) (hcalm : Calm x.server pkt src clock)
    (hfresh : P.kemPublic draw.kemSk ∉ x.kemPks) (hmac : FinishedIdeal P x pkt) :
    Phase P src c cfg (x.deliverUp P pkt src clock draw) := by
  cases h with
  | idle hnone hfirst hblank =>
    obtain ⟨i, hi, rfl⟩ := hblank.up pkt hmem
    exact idle_up hi hcalm hnone hfirst hblank
  | assembling entry asm hget hsrc hstate hasm hholds hmore hzero hgot hblank =>
    obtain ⟨i, hi, rfl⟩ := hblank.up pkt hmem
    exact assembling_up hset hbase.cfg hi hcalm hget hsrc hstate hasm hholds hmore hzero hgot hblank
  | answered draw₀ entry hget hentry hkey hwait hdown hsent hcompleted =>
    obtain ⟨i, hi, rfl⟩ := hwait.up pkt hmem
    exact answered_up (resent_up hset hbase.cfg hi hcalm hget hentry draw) hkey hwait hdown hsent
      hcompleted
  | confirmed draw₀ entry rand dhCs master key hget hentry hkey hsent hfin hunseen hcompleted =>
    rcases hfin.up pkt hmem with ⟨i, hi, rfl⟩ | rfl
    · have hre := resent_up hset hbase.cfg hi hcalm hget hentry draw
      obtain ⟨entry', hget', hentry'⟩ := hre.entry
      refine .confirmed draw₀ entry' rand dhCs master key hget' hentry' (hre.kemPks _ hkey)
        (hsent.mono hre.kept) (hfin.mono hre.up hre.client hre.finished hre.transcripts) ?_
        (hre.completed.trans hcompleted)
      intro q hq
      rcases List.mem_append.mp hq with hq | hq
      · exact hunseen q hq
      · rw [List.mem_singleton.mp hq, hsTypeOf_m1Frag hi]
        decide
    · exact confirmed_up hset hbase.cfg hcalm hget hentry hkey hsent hfin hcompleted
  | done draw₀ rand dhCs master key o hkey hsent hused hfin hcompleted hsid hmaster hpeer =>
    have hsidOf : pkt.sid = c.sid := by
      rcases hfin.up pkt hmem with ⟨i, hi, rfl⟩ | rfl
      · obtain ⟨len, hp⟩ := fromDatagram_ok (parse_m1 (P := P) (c := c) hi)
        exact hp.sid.symm
      · obtain ⟨len, hp⟩ := fromDatagram_ok (parse_m3 (c := c) (length_m3For ..))
        exact hp.sid.symm
    exact done_up hset hbase.ok hsidOf hkey hsent hused hfin hcompleted hsid hmaster hpeer hfresh
      hmac

theorem Finished.down {rand' : T.KemRand} {dhCs : Secret} {master : MasterSecret} {key : Secret}
    (h : Finished P c cfg x draw rand dhCs master key) (hbase : Base P c cfg x) :
    x.deliverDown P pkt rand' = { x with gotDown := x.gotDown ++ [pkt] } := by
  obtain ⟨frags, attempts, o, hstate⟩ := h.state
  rw [deliverDown_quiet (handle_m3Sent hbase.clientOk hstate pkt rand')]

/-- What a delivery to the client does to the exchange. -/
theorem Phase.down (hset : Setting P c cfg) (hbase : Base P c cfg x) (h : Phase P src c cfg x)
    (hmem : pkt ∈ x.down) (rand : T.KemRand) :
    Phase P src c cfg (x.deliverDown P pkt rand) := by
  cases h with
  | idle hnone hfirst hblank
  | assembling entry asm hget hsrc hstate hasm hholds hmore hzero hgot hblank =>
    rw [hblank.down] at hmem
    cases hmem
  | answered draw₀ entry hget hentry hkey hwait hdown hsent hcompleted =>
    obtain ⟨j, hj, rfl⟩ := hdown pkt hmem
    exact answered_down hset hbase hj hget hentry hkey hwait hdown hsent hcompleted
  | confirmed draw₀ entry rand' dhCs master key hget hentry hkey hsent hfin hunseen hcompleted =>
    rw [hfin.down hbase]
    exact .confirmed draw₀ entry rand' dhCs master key hget hentry hkey hsent
      (hfin.mono rfl rfl rfl rfl) hunseen hcompleted
  | done draw₀ rand' dhCs master key o hkey hsent hused hfin hcompleted hsid hmaster hpeer =>
    rw [hfin.down hbase]
    exact .done draw₀ rand' dhCs master key o hkey hsent hused (hfin.mono rfl rfl rfl rfl)
      hcompleted hsid hmaster hpeer

end Steps

end PqTunnel.Exchange
