import PqTunnel.Handshake.Completion

/-! Recovery of the client from forged M2 fragments. They can spoil the message that an honest
burst completes, but never more than one: what a complete message does not verify is thrown away
with all its pieces, so the next honest burst meets honest pieces only. -/
namespace PqTunnel.ClientHandshake
open ByteString FragmentAssembler

variable {T : CryptoTypes} {P : Primitives T}

/-- What drives a client machine, with the randomness it draws. -/
inductive Input (T : CryptoTypes) where
  | datagram (pkt : WirePacket) (rand : T.KemRand)
  | timer

def step (P : Primitives T) (c : ClientHandshake T) : Input T → ClientHandshake T
  | .datagram pkt rand => (c.handleDatagram P pkt rand).2
  | .timer => c.onTimer.2

def run (P : Primitives T) (c : ClientHandshake T) (inputs : List (Input T)) :
    ClientHandshake T := inputs.foldl (step P) c

def deliver (P : Primitives T) (c : ClientHandshake T) (pkts : List (WirePacket × T.KemRand)) :
    ClientHandshake T := run P c (pkts.map fun p => .datagram p.1 p.2)

/-- An M2 for this client: it decodes, verifies over the client's M1 under the pinned server key,
and its X25519 key is contributory. -/
structure Genuine (P : Primitives T) (c : ClientHandshake T) (m2Bytes : Bytes)
    (m2 : ServerHello T) : Prop where
  decoded : ServerHello.decode P m2Bytes = .ok m2
  sid : m2.sid = c.sid
  version : m2.version = c.cfg.version
  verified : P.sigVerify c.cfg.serverIdentity
    (P.sha256 (th2Input (c.m1.encode P) m2Bytes)).toList m2.serverSig = true
  contributory : ∃ dhCs, P.diffieHellman c.xSk m2.xS = some dhCs

def Confirmed (c : ClientHandshake T) : Prop :=
  ∃ frags attempts outcome, c.state = .m3Sent frags attempts outcome

/-- A machine from the constructor whose M2 assembler, while it waits, is not complete. -/
structure Sound (P : Primitives T) (c : ClientHandshake T) : Prop where
  ok : c.Ok P fun _ _ => True
  incomplete : ∀ asm attempts, c.state = .awaitM2 asm attempts → asm.complete = false

section Steps

variable {c c' : ClientHandshake T} {pkt : WirePacket} {rand : T.KemRand}
  {frag : HandshakeFragment} {asm : FragmentAssembler} {attempts : ℕ} {Q : ℕ → Bytes → Prop}

theorem new_assembler {asm : FragmentAssembler}
    (h : FragmentAssembler.new hsTypeServerHello = some asm) (Q : ℕ → Bytes → Prop) :
    asm.Holds hsTypeServerHello m2FragCount m2BodyLen Q ∧ asm.complete = false := by
  obtain ⟨fresh, hnew, hholds, hnone⟩ := new_holds layout_m2 Q
  obtain rfl := Option.mem_unique hnew h
  refine ⟨hholds, ?_⟩
  cases hc : fresh.complete with
  | false => rfl
  | true => cases (hnone 0).symm.trans (hholds.done.mp hc 0 (by decide))

/-- What a completing fragment leads to: the M3, or a fresh assembler if the message is not one
the client accepts. -/
theorem handle_complete (hkdf : Kdf.HkdfTotal P)
    (hparsed : HandshakeFragment.fromDatagram pkt = .ok frag)
    (htype : frag.hsType = hsTypeServerHello) (hsid : frag.sid = c.sid)
    (hstate : c.state = .awaitM2 asm attempts)
    (hholds : asm.Holds hsTypeServerHello m2FragCount m2BodyLen Q) (hw : asm.Awaits frag)
    (hdone : (asm.store frag).complete = true) (rand : T.KemRand) :
    (∃ ev, (c.handleDatagram P pkt rand).1 = .ok ev) ∧
      (Confirmed (c.handleDatagram P pkt rand).2 ∨
        (∃ fresh, FragmentAssembler.new hsTypeServerHello = some fresh ∧
          (c.handleDatagram P pkt rand).2 = { c with state := .awaitM2 fresh attempts }) ∧
        ∀ m2 dhCs master key, ¬ Accepts P c (asm.store frag).buffer rand m2 dhCs master key) := by
  obtain ⟨len, hp⟩ := fromDatagram_ok hparsed
  have hlen : (asm.store frag).buffer.length = m2BodyLen := by
    have hany := hholds.mono fun _ _ _ => (trivial : True)
    exact (hany.store hp hw trivial).len
  obtain ⟨fresh, hnew, -⟩ := new_holds layout_m2 Q
  rw [handle_awaitM2 rand hparsed htype hsid hstate,
    addFragment_stored hholds hp hw, hdone, if_neg (by simp)]
  simp only [message, hdone, if_true]
  rcases onCompleteM2_cases (P := P) { c with state := .awaitM2 (asm.store frag) attempts } hlen
    rand with ⟨heq, hbad⟩ | ⟨-, hpartial, -⟩ | ⟨m2, dhCs, master, key, -, heq⟩
  · rw [heq, dropM2_eq rfl hnew]
    refine ⟨⟨_, rfl⟩, Or.inr ⟨⟨fresh, hnew, rfl⟩, ?_⟩⟩
    intro m2 dhCs master key hacc
    exact hbad m2 dhCs master key ((accepts_state _).mpr hacc)
  · exact absurd hkdf hpartial
  · rw [heq]
    exact ⟨⟨_, rfl⟩, Or.inl ⟨_, _, _, rfl⟩⟩

theorem Confirmed.handleDatagram (h : Confirmed c) (hok : c.Ok P Q) (pkt : WirePacket)
    (rand : T.KemRand) : Confirmed (c.handleDatagram P pkt rand).2 := by
  obtain ⟨frags, attempts, outcome, hstate⟩ := h
  rw [handle_m3Sent hok hstate]
  exact ⟨frags, attempts, outcome, hstate⟩

theorem Sound.handleDatagram (h : Sound P c) (hkdf : Kdf.HkdfTotal P) (pkt : WirePacket)
    (rand : T.KemRand) : Sound P (c.handleDatagram P pkt rand).2 := by
  have hmove := handleDatagram_move h.ok pkt rand
  refine ⟨hmove.ok h.ok fun _ _ _ _ => trivial, ?_⟩
  generalize hres : c.handleDatagram P pkt rand = res at hmove ⊢
  obtain ⟨r, c'⟩ := res
  dsimp only at hmove ⊢
  cases hmove with
  | idle => exact h.incomplete
  | stored frag asm attempts _ _ _ _ hmore =>
    intro asm' attempts' hstate
    obtain ⟨rfl, -⟩ := ClientState.awaitM2.inj hstate
    exact hmore
  | dropped frag asm fresh attempts _ _ _ _ _ hnew =>
    intro asm' attempts' hstate
    obtain ⟨rfl, -⟩ := ClientState.awaitM2.inj hstate
    exact (new_assembler hnew fun _ _ => True).2
  | finished =>
    intro asm' attempts' hstate
    cases hstate
  | kdfFailed asm attempts e frag hparsed hsid hstate hw =>
    have hholds := h.ok.awaits asm attempts hstate
    have htype := hw.2.1.trans hholds.type
    cases hdone : (asm.store frag).complete with
    | false =>
      rw [handle_store rand hparsed htype hsid hstate hholds hw hdone] at hres
      cases congrArg Prod.fst hres
    | true =>
      obtain ⟨⟨ev, hev⟩, -⟩ := handle_complete hkdf hparsed htype hsid hstate hholds hw hdone rand
      rw [hres] at hev
      cases hev

theorem Sound.onTimer (h : Sound P c) : Sound P c.onTimer.2 := by
  rcases c.onTimer_cases with heq | ⟨asm, attempts, hstate, heq⟩ |
      ⟨frags, attempts, outcome, hstate, heq⟩ <;> rw [heq]
  · exact h
  · have hsame : ∀ asm' attempts', ClientState.awaitM2 (T := T) asm (attempts + 1) =
        .awaitM2 asm' attempts' → asm' = asm := fun _ _ heq => (ClientState.awaitM2.inj heq).1.symm
    refine ⟨h.ok.withState fun asm' attempts' heq' => ?_, fun asm' attempts' heq' => ?_⟩
    · obtain rfl := hsame asm' attempts' heq'
      exact h.ok.awaits asm' attempts hstate
    · obtain rfl := hsame asm' attempts' heq'
      exact h.incomplete asm' attempts hstate
  · exact ⟨h.ok.withState (by simp), by simp⟩

theorem Sound.run (h : Sound P c) (hkdf : Kdf.HkdfTotal P) (inputs : List (Input T)) :
    Sound P (ClientHandshake.run P c inputs) := by
  induction inputs generalizing c with
  | nil => exact h
  | cons input inputs ih =>
    cases input with
    | datagram pkt rand => exact ih (h.handleDatagram hkdf pkt rand)
    | timer => exact ih h.onTimer

theorem sound_new {cfg : ClientConfig T} {sid : SessionId} {kemSk : T.KemSk} {xSk : T.XSk}
    (hnew : new P cfg sid kemSk xSk = .ok c) : Sound P c := by
  obtain ⟨hok, -, -, -, -, asm, hstate, hnone⟩ := new_ok hnew fun _ _ => True
  refine ⟨hok, fun asm' attempts hstate' => ?_⟩
  obtain ⟨rfl, -⟩ := ClientState.awaitM2.inj (hstate.symm.trans hstate')
  cases hc : asm.complete with
  | false => rfl
  | true =>
    cases (hnone 0).symm.trans ((hok.awaits asm 0 hstate).done.mp hc 0 (by decide))

end Steps

section Bursts

variable {c : ClientHandshake T} {m2Bytes : Bytes} {m2 : ServerHello T}

theorem Genuine.accepts (h : Genuine P c m2Bytes m2) (hkdf : Kdf.HkdfTotal P) (rand : T.KemRand) :
    ∃ dhCs master key, Accepts P c m2Bytes rand m2 dhCs master key := by
  obtain ⟨dhCs, hdh⟩ := h.contributory
  have hmaster : ∃ master, deriveMaster P (P.kemDecapsulate c.kemSk m2.ct2)
      (P.kemEncapsulate m2.ephPkS rand).1 dhCs c.cfg.version c.sid (P.sha256 (th3Input
        (c.m1.encode P) m2Bytes (encodeM3 c.cfg.version c.sid
          (P.kemEncapsulate m2.ephPkS rand).2 none))) = .ok master := by
    generalize hres : deriveMaster P _ _ _ _ _ _ = res
    cases res with
    | error e =>
      obtain ⟨-, -, hpartial⟩ := deriveMaster_error hres
      exact absurd hkdf hpartial
    | ok master => exact ⟨master, rfl⟩
  obtain ⟨master, hmaster⟩ := hmaster
  have hkey : ∃ key, Kdf.deriveFinishedKey P master c.cfg.version c.sid.toList = .ok key :=
    hkdf.derives (by decide) ..
  obtain ⟨key, hkey⟩ := hkey
  exact ⟨dhCs, master, key, h.decoded, h.sid, h.version, h.verified, hdh, hmaster, hkey⟩

theorem Genuine.withState (h : Genuine P c m2Bytes m2) (st : ClientState T) :
    Genuine P { c with state := st } m2Bytes m2 :=
  ⟨h.decoded, h.sid, h.version, h.verified, h.contributory⟩

def m2Packet (sid : SessionId) (m2Bytes : Bytes) (j : ℕ) : WirePacket :=
  fragmentPacket hsTypeServerHello protocolVersion m2FragCount sid m2Bytes j

/-- The client is confirmed, or it holds pieces of the genuine M2 only, these among them. -/
def HoldsOnly (m2Bytes : Bytes) (got : ℕ → Prop) (c : ClientHandshake T) : Prop :=
  Confirmed c ∨ ∃ asm attempts, c.state = .awaitM2 asm attempts ∧
    asm.Holds hsTypeServerHello m2FragCount m2BodyLen
      (fun i b => b = chunk hsFragBodyMax m2Bytes i) ∧
    ∀ i < m2FragCount.toNat, got i → asm.hasReceived i = true

/-- The client waits, whatever it holds, and what it lacks is among these packets. -/
def Lacks (m2Bytes : Bytes) (pkts : List WirePacket) (c : ClientHandshake T) : Prop :=
  ∃ asm attempts, c.state = .awaitM2 asm attempts ∧
    ∀ i < m2FragCount.toNat, asm.hasReceived i = false → m2Packet c.sid m2Bytes i ∈ pkts

variable {j : ℕ}

theorem parse_m2Packet (sid : SessionId) (hlen : m2Bytes.length = m2BodyLen)
    (hj : j < m2FragCount.toNat) :
    ∃ frag, HandshakeFragment.fromDatagram (m2Packet sid m2Bytes j) = .ok frag ∧
      frag.hsType = hsTypeServerHello ∧ frag.sid = sid ∧ frag.fragIdx.toNat = j ∧
      frag.body = chunk hsFragBodyMax m2Bytes j :=
  ⟨_, fromDatagram_fragmentPacket layout_m2 sid hlen hj, rfl, rfl,
    Exchange.toNat_ofNat_idx hj (by decide), rfl⟩

theorem m2Packet_inj (sid : SessionId) (hlen : m2Bytes.length = m2BodyLen) {i : ℕ}
    (hi : i < m2FragCount.toNat) (hj : j < m2FragCount.toNat)
    (h : m2Packet sid m2Bytes i = m2Packet sid m2Bytes j) : i = j := by
  obtain ⟨frag, hparse, -, -, hidx, -⟩ := parse_m2Packet sid hlen hi
  obtain ⟨frag', hparse', -, -, hidx', -⟩ := parse_m2Packet sid hlen hj
  rw [h, hparse'] at hparse
  obtain rfl := Except.ok.inj hparse
  exact hidx.symm.trans hidx'

theorem hasReceived_stored {asm : FragmentAssembler} {frag : HandshakeFragment} (i : ℕ)
    (hj : j < m2FragCount.toNat) (hidx : frag.fragIdx.toNat = j) :
    (asm.store frag).hasReceived i = (decide (i = j) || asm.hasReceived i) := by
  have h5 : m2FragCount.toNat = 5 := rfl
  rw [hasReceived_store (by omega), hidx]

/-- A client that holds genuine pieces only stores one more, or is confirmed. -/
theorem HoldsOnly.feed {got : ℕ → Prop} (h : HoldsOnly m2Bytes got c) (hsound : Sound P c)
    (hgenuine : Genuine P c m2Bytes m2) (hkdf : Kdf.HkdfTotal P)
    (hlen : m2Bytes.length = m2BodyLen) (hj : j < m2FragCount.toNat) (rand : T.KemRand) :
    HoldsOnly m2Bytes (fun i => got i ∨ i = j)
      (c.handleDatagram P (m2Packet c.sid m2Bytes j) rand).2 := by
  rcases h with hconf | ⟨asm, attempts, hstate, hholds, hgot⟩
  · exact Or.inl (hconf.handleDatagram hsound.ok _ rand)
  obtain ⟨frag, hparse, htype, hsid, hidx, hbody⟩ := parse_m2Packet c.sid hlen hj
  obtain ⟨len, hp⟩ := fromDatagram_ok hparse
  cases hrec : asm.hasReceived j with
  | true =>
    have hw : ¬ asm.Awaits frag := by
      rintro ⟨-, -, -, hnone⟩
      rw [hidx, hrec] at hnone
      cases hnone
    rw [handle_repeat rand hparse htype hsid hstate hw]
    refine Or.inr ⟨asm, attempts, hstate, hholds, fun i hi hor => ?_⟩
    rcases hor with hi' | rfl
    · exact hgot i hi hi'
    · exact hrec
  | false =>
    have hw := hholds.awaits hp htype (by rw [hidx]; exact hrec)
    have hstored := hholds.store hp hw (by rw [hidx, hbody])
    cases hdone : (asm.store frag).complete with
    | false =>
      rw [handle_store rand hparse htype hsid hstate hholds hw hdone]
      refine Or.inr ⟨_, attempts, rfl, hstored, fun i hi hor => ?_⟩
      rw [hasReceived_stored i hj hidx]
      rcases hor with hi' | rfl
      · rw [hgot i hi hi', Bool.or_true]
      · simp
    | true =>
      have hbuf := hstored.buffer_eq hlen hdone
      obtain ⟨dhCs, master, key, hacc⟩ := hgenuine.accepts hkdf rand
      rw [← hbuf] at hacc
      rw [handle_accept hparse htype hsid hstate hholds hw hdone (hbuf ▸ hlen) hacc]
      exact Or.inl ⟨_, _, _, rfl⟩

/-- In a client that waits with foreign pieces, a genuine fragment fills a slot; if it was the
last one, the client is confirmed or starts afresh. -/
theorem Lacks.feed {pkts : List WirePacket}
    (h : Lacks m2Bytes (m2Packet c.sid m2Bytes j :: pkts) c) (hsound : Sound P c)
    (hkdf : Kdf.HkdfTotal P) (hlen : m2Bytes.length = m2BodyLen) (hj : j < m2FragCount.toNat)
    (rand : T.KemRand) :
    Lacks m2Bytes pkts (c.handleDatagram P (m2Packet c.sid m2Bytes j) rand).2 ∨
      HoldsOnly m2Bytes (fun _ => False)
        (c.handleDatagram P (m2Packet c.sid m2Bytes j) rand).2 := by
  obtain ⟨asm, attempts, hstate, hlack⟩ := h
  have hholds := hsound.ok.awaits asm attempts hstate
  obtain ⟨frag, hparse, htype, hsid, hidx, -⟩ := parse_m2Packet c.sid hlen hj
  obtain ⟨len, hp⟩ := fromDatagram_ok hparse
  have hrest : ∀ i < m2FragCount.toNat, i ≠ j → asm.hasReceived i = false →
      m2Packet c.sid m2Bytes i ∈ pkts := by
    intro i hi hne hnone
    rcases List.mem_cons.mp (hlack i hi hnone) with heq | hmem
    · exact absurd (m2Packet_inj c.sid hlen hi hj heq) hne
    · exact hmem
  cases hrec : asm.hasReceived j with
  | true =>
    have hw : ¬ asm.Awaits frag := by
      rintro ⟨-, -, -, hnone⟩
      rw [hidx, hrec] at hnone
      cases hnone
    rw [handle_repeat rand hparse htype hsid hstate hw]
    refine Or.inl ⟨asm, attempts, hstate, fun i hi hnone => hrest i hi ?_ hnone⟩
    rintro rfl
    cases hnone.symm.trans hrec
  | false =>
    have hw := hholds.awaits hp htype (by rw [hidx]; exact hrec)
    cases hdone : (asm.store frag).complete with
    | false =>
      rw [handle_store rand hparse htype hsid hstate hholds hw hdone]
      refine Or.inl ⟨_, attempts, rfl, fun i hi hnone => ?_⟩
      rw [hasReceived_stored i hj hidx, Bool.or_eq_false_iff, decide_eq_false_iff_not] at hnone
      exact hrest i hi hnone.1 hnone.2
    | true =>
      right
      rcases (handle_complete hkdf hparse htype hsid hstate hholds hw hdone rand).2 with
        hconf | ⟨⟨fresh, hnew, heq⟩, -⟩
      · exact Or.inl hconf
      · rw [heq]
        exact Or.inr ⟨fresh, attempts, rfl, (new_assembler hnew _).1, fun _ _ hgot => hgot.elim⟩

theorem not_lacks_nil (hsound : Sound P c) : ¬ Lacks m2Bytes [] c := by
  rintro ⟨asm, attempts, hstate, hlack⟩
  have hdone : asm.complete = true := by
    refine (hsound.ok.awaits asm attempts hstate).done.mpr fun i hi => ?_
    cases hrec : asm.hasReceived i with
    | true => rfl
    | false => exact absurd (hlack i hi hrec) List.not_mem_nil
  cases (hsound.incomplete asm attempts hstate).symm.trans hdone

theorem handleDatagram_frame (hsound : Sound P c) (pkt : WirePacket) (rand : T.KemRand) :
    ∃ st, (c.handleDatagram P pkt rand).2 = { c with state := st } :=
  (handleDatagram_move hsound.ok pkt rand).frame

def AllHonest (sid : SessionId) (m2Bytes : Bytes) (pkts : List (WirePacket × T.KemRand)) : Prop :=
  ∀ p ∈ pkts, ∃ j < m2FragCount.toNat, p.1 = m2Packet sid m2Bytes j

theorem HoldsOnly.deliver {got : ℕ → Prop} {pkts : List (WirePacket × T.KemRand)}
    (h : HoldsOnly m2Bytes got c) (hsound : Sound P c) (hgenuine : Genuine P c m2Bytes m2)
    (hkdf : Kdf.HkdfTotal P) (hlen : m2Bytes.length = m2BodyLen)
    (hall : AllHonest c.sid m2Bytes pkts) :
    HoldsOnly m2Bytes (fun i => got i ∨ m2Packet c.sid m2Bytes i ∈ pkts.map Prod.fst)
      (ClientHandshake.deliver P c pkts) := by
  induction pkts generalizing c got with
  | nil => simpa [ClientHandshake.deliver, ClientHandshake.run] using h
  | cons p pkts ih =>
    obtain ⟨pkt, rand⟩ := p
    obtain ⟨j, hj, rfl⟩ : ∃ j < m2FragCount.toNat, pkt = m2Packet c.sid m2Bytes j :=
      hall _ List.mem_cons_self
    have hnext := h.feed hsound hgenuine hkdf hlen hj rand
    have hsound' := hsound.handleDatagram hkdf (m2Packet c.sid m2Bytes j) rand
    obtain ⟨st, hst⟩ := handleDatagram_frame hsound (m2Packet c.sid m2Bytes j) rand
    have hrun : ClientHandshake.deliver P c ((m2Packet c.sid m2Bytes j, rand) :: pkts) =
        ClientHandshake.deliver P (c.handleDatagram P (m2Packet c.sid m2Bytes j) rand).2 pkts :=
      rfl
    rw [hrun]
    rw [hst] at hnext hsound' ⊢
    have hrest := ih hnext hsound' (hgenuine.withState st)
      fun p hp => hall p (List.mem_cons_of_mem _ hp)
    rcases hrest with hconf | ⟨asm, attempts, hstate, hholds, hgot⟩
    · exact Or.inl hconf
    · refine Or.inr ⟨asm, attempts, hstate, hholds, fun i hi hor => hgot i hi ?_⟩
      rcases hor with hi' | hmem
      · exact Or.inl (Or.inl hi')
      · rcases List.mem_cons.mp hmem with heq | hmem
        · exact Or.inl (Or.inr (m2Packet_inj c.sid hlen hi hj heq))
        · exact Or.inr hmem

theorem Lacks.deliver {pkts : List (WirePacket × T.KemRand)}
    (h : Lacks m2Bytes (pkts.map Prod.fst) c) (hsound : Sound P c)
    (hgenuine : Genuine P c m2Bytes m2) (hkdf : Kdf.HkdfTotal P)
    (hlen : m2Bytes.length = m2BodyLen) (hall : AllHonest c.sid m2Bytes pkts) :
    HoldsOnly m2Bytes (fun _ => False) (ClientHandshake.deliver P c pkts) := by
  induction pkts generalizing c with
  | nil => exact absurd h (not_lacks_nil hsound)
  | cons p pkts ih =>
    obtain ⟨pkt, rand⟩ := p
    obtain ⟨j, hj, rfl⟩ : ∃ j < m2FragCount.toNat, pkt = m2Packet c.sid m2Bytes j :=
      hall _ List.mem_cons_self
    have hnext := Lacks.feed (P := P) h hsound hkdf hlen hj rand
    have hsound' := hsound.handleDatagram hkdf (m2Packet c.sid m2Bytes j) rand
    obtain ⟨st, hst⟩ := handleDatagram_frame hsound (m2Packet c.sid m2Bytes j) rand
    have hrun : ClientHandshake.deliver P c ((m2Packet c.sid m2Bytes j, rand) :: pkts) =
        ClientHandshake.deliver P (c.handleDatagram P (m2Packet c.sid m2Bytes j) rand).2 pkts :=
      rfl
    have hall' : AllHonest c.sid m2Bytes pkts := fun p hp => hall p (List.mem_cons_of_mem _ hp)
    rw [hrun]
    rw [hst] at hnext hsound' ⊢
    rcases hnext with hlacks | honly
    · exact ih hlacks hsound' (hgenuine.withState st) hall'
    · -- The spoilt message is gone, so the rest of the burst meets genuine pieces only.
      rcases honly.deliver hsound' (hgenuine.withState st) hkdf hlen hall' with
        hconf | ⟨asm, attempts, hstate, hholds, -⟩
      · exact Or.inl hconf
      · exact Or.inr ⟨asm, attempts, hstate, hholds, fun _ _ hgot => hgot.elim⟩

theorem run_frame (hsound : Sound P c) (hkdf : Kdf.HkdfTotal P) (inputs : List (Input T)) :
    ∃ st, run P c inputs = { c with state := st } := by
  induction inputs generalizing c with
  | nil => exact ⟨c.state, rfl⟩
  | cons input inputs ih =>
    have hstep : Sound P (step P c input) ∧ ∃ st, step P c input = { c with state := st } := by
      cases input with
      | datagram pkt rand =>
        exact ⟨hsound.handleDatagram hkdf pkt rand, handleDatagram_frame hsound pkt rand⟩
      | timer =>
        refine ⟨hsound.onTimer, ?_⟩
        rcases c.onTimer_cases with heq | ⟨_, _, _, heq⟩ | ⟨_, _, _, _, heq⟩ <;>
          rw [step, heq] <;> exact ⟨_, rfl⟩
    obtain ⟨hsound', st, hst⟩ := hstep
    obtain ⟨st', hst'⟩ := ih hsound'
    refine ⟨st', ?_⟩
    rw [run, List.foldl_cons]
    rw [run, hst] at hst'
    rw [hst, hst']

theorem fragmentMessage_m2 {version : UInt8} {sid : SessionId} {frags : List WirePacket}
    (hv : version = protocolVersion)
    (h : fragmentMessage hsTypeServerHello version sid m2Bytes = .ok frags) :
    m2Bytes.length = m2BodyLen ∧
      frags = (List.range m2FragCount.toNat).map (m2Packet sid m2Bytes) := by
  have hlen : m2Bytes.length = m2BodyLen := by
    by_contra hne
    simp only [fragmentMessage, layout_m2.count, layout_m2.len, ne_eq, hne, not_false_eq_true,
      if_true] at h
    cases h
  refine ⟨hlen, ?_⟩
  rw [fragmentMessage_eq layout_m2 version sid hlen, hv] at h
  exact (Except.ok.inj h).symm

/-- Two bursts of a genuine M2 confirm every sound client. -/
theorem Sound.confirmed (hsound : Sound P c) (hgenuine : Genuine P c m2Bytes m2)
    (hkdf : Kdf.HkdfTotal P) (hlen : m2Bytes.length = m2BodyLen)
    {first second : List (WirePacket × T.KemRand)}
    (hfirst : (first.map Prod.fst).Perm
      ((List.range m2FragCount.toNat).map (m2Packet c.sid m2Bytes)))
    (hsecond : (second.map Prod.fst).Perm
      ((List.range m2FragCount.toNat).map (m2Packet c.sid m2Bytes))) :
    Confirmed (deliver P c (first ++ second)) := by
  have hall : ∀ {pkts : List (WirePacket × T.KemRand)}, (pkts.map Prod.fst).Perm
      ((List.range m2FragCount.toNat).map (m2Packet c.sid m2Bytes)) →
      AllHonest c.sid m2Bytes pkts := by
    intro pkts hperm p hp
    obtain ⟨j, hj, heq⟩ := List.mem_map.mp (hperm.mem_iff.mp (List.mem_map_of_mem hp))
    exact ⟨j, List.mem_range.mp hj, heq.symm⟩
  have heach : ∀ {pkts : List (WirePacket × T.KemRand)}, (pkts.map Prod.fst).Perm
      ((List.range m2FragCount.toNat).map (m2Packet c.sid m2Bytes)) →
      ∀ i < m2FragCount.toNat, m2Packet c.sid m2Bytes i ∈ pkts.map Prod.fst := by
    intro pkts hperm i hi
    exact hperm.mem_iff.mpr (List.mem_map_of_mem (List.mem_range.mpr hi))
  have hafter : HoldsOnly m2Bytes (fun _ => False) (deliver P c first) := by
    cases hstate : c.state with
    | awaitM2 asm attempts =>
      have hlacks : Lacks m2Bytes (first.map Prod.fst) c :=
        ⟨asm, attempts, hstate, fun i hi _ => heach hfirst i hi⟩
      exact hlacks.deliver hsound hgenuine hkdf hlen (hall hfirst)
    | m3Sent frags attempts outcome =>
      have hdone : HoldsOnly m2Bytes (fun _ => False) c := Or.inl ⟨frags, attempts, outcome, hstate⟩
      rcases hdone.deliver hsound hgenuine hkdf hlen (hall hfirst) with
        hconf | ⟨asm, attempts', hstate', hholds, -⟩
      · exact Or.inl hconf
      · exact Or.inr ⟨asm, attempts', hstate', hholds, fun _ _ hgot => hgot.elim⟩
  have hsound' : Sound P (deliver P c first) := hsound.run hkdf _
  obtain ⟨st, hst⟩ := run_frame hsound hkdf (first.map fun p => .datagram p.1 p.2)
  have hrun : deliver P c (first ++ second) = deliver P (deliver P c first) second := by
    simp only [deliver, ClientHandshake.run, List.map_append, List.foldl_append]
  rw [hrun]
  change deliver P c first = _ at hst
  rw [hst] at hafter hsound' ⊢
  rcases hafter.deliver hsound' (hgenuine.withState st) hkdf hlen (hall hsecond) with
    hconf | ⟨asm, attempts, hstate, hholds, hgot⟩
  · exact hconf
  · have hdone : asm.complete = true :=
      hholds.done.mpr fun i hi => hgot i hi (Or.inr (heach hsecond i hi))
    have hagain : Sound P (deliver P { c with state := st } second) := hsound'.run hkdf _
    cases (hagain.incomplete asm attempts hstate).symm.trans hdone

end Bursts

/-- After any run the assembler of a client that waits for M2 is not complete; and the five
fragments of a genuine M2, delivered in any order and then again in any order, make the client
send its M3. -/
theorem m2_recovers (hkdf : Kdf.HkdfTotal P) {cfg : ClientConfig T} {sid : SessionId}
    {kemSk : T.KemSk} {xSk : T.XSk} {c : ClientHandshake T}
    (hnew : new P cfg sid kemSk xSk = .ok c) (inputs : List (Input T)) :
    (∀ asm attempts, (run P c inputs).state = .awaitM2 asm attempts → asm.complete = false) ∧
      ∀ (m2Bytes : Bytes) (m2 : ServerHello T) (frags : List WirePacket)
        (first second : List (WirePacket × T.KemRand)), Genuine P c m2Bytes m2 →
        fragmentMessage hsTypeServerHello cfg.version sid m2Bytes = .ok frags →
        (first.map Prod.fst).Perm frags → (second.map Prod.fst).Perm frags →
        Confirmed (deliver P (run P c inputs) (first ++ second)) := by
  obtain ⟨hok, hcfg, hsid, -⟩ := new_ok hnew fun _ _ => True
  have hsound := sound_new hnew
  have hafter := hsound.run hkdf inputs
  obtain ⟨st, hst⟩ := run_frame hsound hkdf inputs
  refine ⟨hafter.incomplete, ?_⟩
  intro m2Bytes m2 frags first second hgenuine hfrags hfirst hsecond
  obtain ⟨hlen, rfl⟩ := fragmentMessage_m2 (hcfg ▸ hok.version) hfrags
  rw [← hsid] at hfirst hsecond
  rw [hst] at hafter ⊢
  exact hafter.confirmed (hgenuine.withState st) hkdf hlen hfirst hsecond

/-- A forged piece in slot 0 does not keep the sample client from its M3. -/
theorem m2_recovers_sample :
    ∃ (c : ClientHandshake Sample.types) (burst : List (WirePacket × UInt8)),
      new Sample.primitives Exchange.sampleClientConfig Exchange.sampleSid (3 : UInt8)
        (4 : UInt8) = .ok c ∧
      Confirmed (deliver Sample.primitives
        (run Sample.primitives c [.datagram (m2Packet c.sid (zeros m2BodyLen) 0) (0 : UInt8)])
        (burst ++ burst)) := by
  obtain ⟨c, hnew⟩ : ∃ c, new Sample.primitives Exchange.sampleClientConfig Exchange.sampleSid
      (3 : UInt8) (4 : UInt8) = .ok c := new_exists _ _ _ _ rfl
  obtain ⟨hok, hcfg, hsid, -⟩ := new_ok hnew fun _ _ => True
  have hpin : c.cfg.serverIdentity =
      Sample.primitives.verifyingKey Exchange.sampleServerConfig.identity := by
    rw [hcfg]
    rfl
  obtain ⟨master, key, hacc⟩ := honest_accepts Exchange.sample_correct hok rfl hpin
    (Exchange.sampleDraws 0) (5 : UInt8)
  have hlen := ServerHandshake.length_m2For (P := Sample.primitives) Exchange.sampleServerConfig
    c.sid c.m1 (c.m1.encode Sample.primitives) (Exchange.sampleDraws 0)
  have hfrags := fragmentMessage_eq layout_m2 Exchange.sampleClientConfig.version
    Exchange.sampleSid hlen
  refine ⟨c, ((List.range m2FragCount.toNat).map (m2Packet Exchange.sampleSid
    (ServerHandshake.m2For Sample.primitives Exchange.sampleServerConfig c.sid c.m1
      (c.m1.encode Sample.primitives) (Exchange.sampleDraws 0)))).map fun p => (p, (5 : UInt8)),
    hnew, ?_⟩
  refine (m2_recovers Sample.hkdfTotal hnew _).2 _ _ _ _ _
    ⟨hacc.decoded, hacc.sid, hacc.version, hacc.verified, _, hacc.agreed⟩ hfrags ?_ ?_
  · rw [List.map_map]
    exact List.Perm.of_eq (List.map_id _)
  · rw [List.map_map]
    exact List.Perm.of_eq (List.map_id _)

end PqTunnel.ClientHandshake
