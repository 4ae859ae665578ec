import PqTunnel.Handshake.Assembly
import PqTunnel.Handshake.Client
import PqTunnel.Handshake.Transcript

/-! Everything a datagram or a timer can do to the client handshake. -/
namespace PqTunnel.ClientHandshake
open FragmentAssembler

variable {T : CryptoTypes} {P : Primitives T}

def helloFor (P : Primitives T) (cfg : ClientConfig T) (sid : SessionId) (kemSk : T.KemSk)
    (xSk : T.XSk) : ClientHello T where
  version := cfg.version
  sid := sid
  ephPkC := P.kemPublic kemSk
  xC := P.xPublic xSk
  clientSig := P.sigSign cfg.identity
    (P.sha256 (th1Input (encodeM1 P cfg.version sid (P.kemPublic kemSk) (P.xPublic xSk)
      none))).toList

def m1FragsOf (P : Primitives T) (m1 : ClientHello T) : List WirePacket :=
  (List.range m1FragCount.toNat).map
    (fragmentPacket hsTypeClientHello m1.version m1FragCount m1.sid (m1.encode P))

/-- A client machine that its constructor could have made, waiting for M2 pieces in `Q`. -/
structure Ok (P : Primitives T) (Q : ℕ → Bytes → Prop) (c : ClientHandshake T) : Prop where
  version : c.cfg.version = protocolVersion
  m1 : c.m1 = helloFor P c.cfg c.sid c.kemSk c.xSk
  m1Frags : c.m1Frags = m1FragsOf P c.m1
  awaits : ∀ asm attempts, c.state = .awaitM2 asm attempts →
    asm.Holds hsTypeServerHello m2FragCount m2BodyLen Q

theorem length_m1 (m1 : ClientHello T) : (m1.encode P).length = m1BodyLen :=
  length_encodeM1 ..

theorem signedM1_eq (cfg : ClientConfig T) (sid : SessionId) (kemSk : T.KemSk) (xSk : T.XSk) :
    signedM1 P cfg sid kemSk xSk = .ok (helloFor P cfg sid kemSk xSk) := by
  simp only [signedM1, th1FromM1_eq (length_encodeM1 ..), helloFor]

/-- The machine that the constructor makes for an accepted version. -/
theorem new_ok {cfg : ClientConfig T} {sid : SessionId} {kemSk : T.KemSk} {xSk : T.XSk}
    {c : ClientHandshake T} (h : new P cfg sid kemSk xSk = .ok c) (Q : ℕ → Bytes → Prop) :
    c.Ok P Q ∧ c.cfg = cfg ∧ c.sid = sid ∧ c.kemSk = kemSk ∧ c.xSk = xSk ∧
      ∃ asm, c.state = .awaitM2 asm 0 ∧ ∀ i, asm.hasReceived i = false := by
  obtain ⟨asm, hnew, hholds, hfresh⟩ := new_holds layout_m2 Q
  have hfrags : liftCodec (fragmentMessage hsTypeClientHello cfg.version sid
      ((helloFor P cfg sid kemSk xSk).encode P)) =
        .ok (m1FragsOf P (helloFor P cfg sid kemSk xSk)) := by
    rw [fragmentMessage_eq layout_m1 cfg.version sid (length_m1 _)]
    rfl
  simp only [new, signedM1_eq, hfrags, hnew] at h
  split at h
  · cases h
  · rename_i hver
    obtain rfl := Except.ok.inj h
    have hversion : cfg.version = protocolVersion := by
      unfold validateVersion at hver
      split_ifs at hver with hv
      exact hv
    refine ⟨⟨hversion, rfl, rfl, ?_⟩, rfl, rfl, rfl, rfl, asm, rfl, hfresh⟩
    intro asm' attempts hst
    obtain ⟨rfl, -⟩ := ClientState.awaitM2.inj hst
    exact hholds

theorem new_exists (cfg : ClientConfig T) (sid : SessionId) (kemSk : T.KemSk) (xSk : T.XSk)
    (hv : cfg.version = protocolVersion) : ∃ c, new P cfg sid kemSk xSk = .ok c := by
  obtain ⟨asm, hnew, -⟩ := new_holds layout_m2 fun _ _ => True
  have hfrags := fragmentMessage_eq layout_m1 cfg.version sid
    (length_m1 (P := P) (helloFor P cfg sid kemSk xSk))
  simp only [new, validateVersion, hv, if_true, signedM1_eq, hnew]
  rw [hv] at hfrags
  rw [hfrags]
  exact ⟨_, rfl⟩

/-- An M2 that the client accepts, with the secrets it derives from it. -/
structure Accepts (P : Primitives T) (c : ClientHandshake T) (m2Bytes : Bytes) (rand : T.KemRand)
    (m2 : ServerHello T) (dhCs : Secret) (master : MasterSecret) (finishedKey : Secret) : Prop
    where
  decoded : ServerHello.decode P m2Bytes = .ok m2
  sid : m2.sid = c.sid
  version : m2.version = c.cfg.version
  verified : P.sigVerify c.cfg.serverIdentity
    (P.sha256 (th2Input (c.m1.encode P) m2Bytes)).toList m2.serverSig = true
  agreed : P.diffieHellman c.xSk m2.xS = some dhCs
  derived : deriveMaster P (P.kemDecapsulate c.kemSk m2.ct2) (P.kemEncapsulate m2.ephPkS rand).1
    dhCs c.cfg.version c.sid (P.sha256 (th3Input (c.m1.encode P) m2Bytes
      (encodeM3 c.cfg.version c.sid (P.kemEncapsulate m2.ephPkS rand).2 none))) = .ok master
  keyed : Kdf.deriveFinishedKey P master c.cfg.version c.sid.toList = .ok finishedKey

/-- A client accepts an M2 in one way only. -/
theorem Accepts.unique {c : ClientHandshake T} {m2Bytes : Bytes} {rand : T.KemRand}
    {m2 m2' : ServerHello T} {dhCs dhCs' : Secret} {master master' : MasterSecret}
    {key key' : Secret} (h : Accepts P c m2Bytes rand m2 dhCs master key)
    (h' : Accepts P c m2Bytes rand m2' dhCs' master' key') :
    m2 = m2' ∧ master = master' ∧ key = key' := by
  obtain rfl : m2 = m2' := Except.ok.inj (h.decoded.symm.trans h'.decoded)
  obtain rfl : dhCs = dhCs' := Option.mem_unique h.agreed h'.agreed
  obtain rfl : master = master' := Except.ok.inj (h.derived.symm.trans h'.derived)
  exact ⟨rfl, rfl, Except.ok.inj (h.keyed.symm.trans h'.keyed)⟩

/-- The M3 that confirms an accepted M2. -/
def m3For (P : Primitives T) (c : ClientHandshake T) (m2Bytes : Bytes) (rand : T.KemRand)
    (m2 : ServerHello T) (finishedKey : Secret) : Bytes :=
  let ct3 := (P.kemEncapsulate m2.ephPkS rand).2
  encodeM3 c.cfg.version c.sid ct3
    (some (Kdf.computeClientFinished P finishedKey (P.sha256 (th3Input (c.m1.encode P) m2Bytes
      (encodeM3 c.cfg.version c.sid ct3 none)))))

def m3FragsOf (c : ClientHandshake T) (m3 : Bytes) : List WirePacket :=
  [fragmentPacket hsTypeClientConfirm c.cfg.version m3FragCount c.sid m3 0]

def outcomeOf (c : ClientHandshake T) (master : MasterSecret) : HandshakeOutcome T where
  master := master
  sessionId := c.sid
  peerIdentity := c.cfg.serverIdentity
  handshakeDuration := 0

def confirmed (c : ClientHandshake T) (m3 : Bytes) (master : MasterSecret) : ClientHandshake T :=
  { c with state := .m3Sent (m3FragsOf c m3) 0 (outcomeOf c master) }

/-- The moves of a client on a datagram, with the event each one returns. -/
inductive Move (P : Primitives T) (c : ClientHandshake T) (pkt : WirePacket) (rand : T.KemRand) :
    Except (Fault HandshakeV2Error) (ClientEvent T) → ClientHandshake T → Prop where
  | idle : Move P c pkt rand (.ok .none) c
  | stored (frag : HandshakeFragment) (asm : FragmentAssembler) (attempts : ℕ)
      (hparsed : HandshakeFragment.fromDatagram pkt = .ok frag) (hsid : frag.sid = c.sid)
      (hstate : c.state = .awaitM2 asm attempts) (hawait : asm.Awaits frag)
      (hmore : (asm.store frag).complete = false) :
      Move P c pkt rand (.ok .none) { c with state := .awaitM2 (asm.store frag) attempts }
  | dropped (frag : HandshakeFragment) (asm fresh : FragmentAssembler) (attempts : ℕ)
      (hparsed : HandshakeFragment.fromDatagram pkt = .ok frag) (hsid : frag.sid = c.sid)
      (hstate : c.state = .awaitM2 asm attempts) (hawait : asm.Awaits frag)
      (hdone : (asm.store frag).complete = true)
      (hnew : FragmentAssembler.new hsTypeServerHello = some fresh)
      (hbad : ∀ m2 dhCs master key,
        ¬ Accepts P c (asm.store frag).buffer rand m2 dhCs master key) :
      Move P c pkt rand (.ok .none) { c with state := .awaitM2 fresh attempts }
  | finished (frag : HandshakeFragment) (asm : FragmentAssembler) (attempts : ℕ)
      (m2 : ServerHello T) (dhCs : Secret) (master : MasterSecret) (finishedKey : Secret)
      (hparsed : HandshakeFragment.fromDatagram pkt = .ok frag) (hsid : frag.sid = c.sid)
      (hstate : c.state = .awaitM2 asm attempts) (hawait : asm.Awaits frag)
      (hdone : (asm.store frag).complete = true)
      (hacc : Accepts P c (asm.store frag).buffer rand m2 dhCs master finishedKey) :
      Move P c pkt rand
        (.ok (.m3Sent (m3FragsOf c (m3For P c (asm.store frag).buffer rand m2 finishedKey))
          (outcomeOf c master)))
        (c.confirmed (m3For P c (asm.store frag).buffer rand m2 finishedKey) master)
  | kdfFailed (asm : FragmentAssembler) (attempts : ℕ) (e : CryptoError)
      (frag : HandshakeFragment) (hparsed : HandshakeFragment.fromDatagram pkt = .ok frag)
      (hsid : frag.sid = c.sid) (hstate : c.state = .awaitM2 asm attempts)
      (hawait : asm.Awaits frag) :
      Move P c pkt rand (.error (.err (.crypto e)))
        { c with state := .awaitM2 (asm.store frag) attempts }

variable (c : ClientHandshake T)

theorem length_m3For (m2Bytes : Bytes) (rand : T.KemRand) (m2 : ServerHello T)
    (finishedKey : Secret) : (m3For P c m2Bytes rand m2 finishedKey).length = m3BodyLen := by
  simp only [m3For, length_encodeM3]

theorem fragmentMessage_m3 {m3 : Bytes} (h : m3.length = m3BodyLen) :
    liftCodec (fragmentMessage hsTypeClientConfirm c.cfg.version c.sid m3) =
      .ok (m3FragsOf c m3) := by
  rw [fragmentMessage_eq layout_m3 c.cfg.version c.sid h]
  rfl

theorem dropM2_eq {c : ClientHandshake T} {asm fresh : FragmentAssembler} {attempts : ℕ}
    (hstate : c.state = .awaitM2 asm attempts)
    (hnew : FragmentAssembler.new hsTypeServerHello = some fresh) :
    c.dropM2 = (.ok .none, { c with state := .awaitM2 fresh attempts }) := by
  simp only [dropM2, hstate, hnew]

/-- A complete M2 is dropped, accepted, or lost to a failing key derivation. -/
theorem onCompleteM2_cases {m2Bytes : Bytes} (hlen : m2Bytes.length = m2BodyLen)
    (rand : T.KemRand) :
    (c.onCompleteM2 P m2Bytes rand = c.dropM2 ∧
        ∀ m2 dhCs master key, ¬ Accepts P c m2Bytes rand m2 dhCs master key) ∨
      ((∃ e, c.onCompleteM2 P m2Bytes rand = (.error (.err (.crypto e)), c)) ∧
        ¬ Kdf.HkdfTotal P ∧ ∀ m2 dhCs master key, ¬ Accepts P c m2Bytes rand m2 dhCs master key) ∨
      ∃ m2 dhCs master key, Accepts P c m2Bytes rand m2 dhCs master key ∧
        c.onCompleteM2 P m2Bytes rand =
          (.ok (.m3Sent (m3FragsOf c (m3For P c m2Bytes rand m2 key)) (outcomeOf c master)),
            c.confirmed (m3For P c m2Bytes rand m2 key) master) := by
  simp only [onCompleteM2]
  cases hdec : ServerHello.decode P m2Bytes with
  | error e =>
    left
    refine ⟨rfl, fun m2 dhCs master key h => ?_⟩
    rw [h.decoded] at hdec
    cases hdec
  | ok m2 =>
    have hsame : ∀ {m2' dhCs master key}, Accepts P c m2Bytes rand m2' dhCs master key →
        m2' = m2 := fun h => Except.ok.inj (h.decoded.symm.trans hdec)
    dsimp only
    split
    · rename_i hsid
      left
      refine ⟨rfl, fun m2' dhCs master key h => ?_⟩
      obtain rfl := hsame h
      rcases hsid with hsid | hver
      · exact hsid h.sid
      · exact hver h.version
    · rename_i hsid
      rw [not_or, not_not, not_not] at hsid
      rw [th2FromM1M2_eq (length_m1 _) hlen]
      dsimp only
      split
      · rename_i hsig
        left
        refine ⟨rfl, fun m2' dhCs master key h => ?_⟩
        obtain rfl := hsame h
        rw [h.verified] at hsig
        cases hsig
      · rename_i hsig
        cases hdh : P.diffieHellman c.xSk m2.xS with
        | none =>
          left
          refine ⟨rfl, fun m2' dhCs master key h => ?_⟩
          obtain rfl := hsame h
          rw [h.agreed] at hdh
          cases hdh
        | some dhCs =>
          right
          have hdhCs : ∀ {m2' dhCs' master key}, Accepts P c m2Bytes rand m2' dhCs' master key →
              dhCs' = dhCs := by
            intro m2' dhCs' master key h
            obtain rfl := hsame h
            exact Option.mem_unique h.agreed hdh
          simp only [finish, th3FromM1M2M3_eq (length_m1 _) hlen (length_encodeM3 ..)]
          cases hmaster : deriveMaster P (P.kemDecapsulate c.kemSk m2.ct2)
              (P.kemEncapsulate m2.ephPkS rand).1 dhCs c.cfg.version c.sid
              (P.sha256 (th3Input (c.m1.encode P) m2Bytes (encodeM3 c.cfg.version c.sid
                (P.kemEncapsulate m2.ephPkS rand).2 none))) with
          | error e =>
            obtain ⟨e', rfl, hpartial⟩ := deriveMaster_error hmaster
            refine Or.inl ⟨⟨e', rfl⟩, hpartial, fun m2' dhCs' master key h => ?_⟩
            obtain rfl := hsame h
            obtain rfl := hdhCs h
            cases h.derived.symm.trans hmaster
          | ok master =>
            dsimp only
            cases hkey : Kdf.deriveFinishedKey P master c.cfg.version c.sid.toList with
            | error e =>
              have hpartial : ¬ Kdf.HkdfTotal P := fun htotal =>
                htotal.ne_error (by decide) hkey
              refine Or.inl ⟨⟨e, rfl⟩, hpartial, fun m2' dhCs' master' key h => ?_⟩
              obtain rfl := hsame h
              obtain rfl := hdhCs h
              obtain rfl := Except.ok.inj (h.derived.symm.trans hmaster)
              cases h.keyed.symm.trans hkey
            | ok key =>
              right
              refine ⟨m2, dhCs, master, key, ⟨hdec, hsid.1, hsid.2, Bool.not_eq_false _ ▸ hsig,
                hdh, hmaster, hkey⟩, ?_⟩
              dsimp only
              have hfrag := fragmentMessage_m3 c (length_m3For (P := P) c m2Bytes rand m2 key)
              simp only [m3For] at hfrag ⊢
              simp only [ClientConfirm.encode, hfrag]
              rfl

section Steps

variable {c c' : ClientHandshake T} {pkt : WirePacket} {rand : T.KemRand} {Q : ℕ → Bytes → Prop}
  {r : Except (Fault HandshakeV2Error) (ClientEvent T)}

/-- What a client accepts does not depend on its assembler. -/
theorem accepts_state {m2Bytes : Bytes} {m2 : ServerHello T} {dhCs : Secret}
    {master : MasterSecret} {key : Secret} (st : ClientState T) :
    Accepts P { c with state := st } m2Bytes rand m2 dhCs master key ↔
      Accepts P c m2Bytes rand m2 dhCs master key := by
  constructor <;>
  · rintro ⟨h1, h2, h3, h4, h5, h6, h7⟩
    exact ⟨h1, h2, h3, h4, h5, h6, h7⟩

/-- Every datagram makes one of the moves. -/
theorem handleDatagram_move (hok : c.Ok P Q) (pkt : WirePacket) (rand : T.KemRand) :
    Move P c pkt rand (c.handleDatagram P pkt rand).1 (c.handleDatagram P pkt rand).2 := by
  simp only [handleDatagram]
  split
  · exact .idle
  · rcases fromDatagram_cases pkt with ⟨e, he⟩ | ⟨frag, len, hf, hp⟩
    · rw [he]
      exact .idle
    · rw [hf]
      dsimp only
      split
      · exact .idle
      · rename_i hsid
        replace hsid := not_not.mp hsid
        cases hstate : c.state with
        | m3Sent frags attempts outcome => exact .idle
        | awaitM2 asm attempts =>
          have hholds := hok.awaits asm attempts hstate
          dsimp only
          by_cases hw : asm.Awaits frag
          · rw [addFragment_stored hholds hp hw]
            dsimp only
            cases hdone : (asm.store frag).complete with
            | false =>
              simp only [Bool.false_eq_true, if_false, ne_eq, reduceCtorEq, not_false_eq_true,
                if_true]
              exact .stored frag asm attempts hf hsid hstate hw hdone
            | true =>
              have hlen : (asm.store frag).buffer.length = m2BodyLen := by
                have hany : asm.Holds hsTypeServerHello m2FragCount m2BodyLen fun _ _ => True :=
                  hholds.mono fun _ _ _ => trivial
                exact (hany.store hp hw trivial).len
              obtain ⟨fresh, hnew, -⟩ := new_holds layout_m2 Q
              simp only [if_true, ne_eq, not_true_eq_false, if_false, message,
                hdone]
              rcases onCompleteM2_cases (P := P)
                { c with state := .awaitM2 (asm.store frag) attempts } hlen rand with
                ⟨heq, hbad⟩ | ⟨⟨e, heq⟩, -⟩ | ⟨m2, dhCs, master, key, hacc, heq⟩
              · rw [heq, dropM2_eq rfl hnew]
                exact .dropped frag asm fresh attempts hf hsid hstate hw hdone hnew
                  fun m2 dhCs master key h => hbad m2 dhCs master key ((accepts_state _).mpr h)
              · rw [heq]
                exact .kdfFailed asm attempts e frag hf hsid hstate hw
              · rw [heq]
                exact .finished frag asm attempts m2 dhCs master key hf hsid hstate hw hdone
                  ((accepts_state _).mp hacc)
          · rw [addFragment_ignored hw]
            have hsame : { c with state := .awaitM2 asm attempts } = c := by rw [← hstate]
            simp only [ne_eq, reduceCtorEq, not_false_eq_true, if_true, hsame]
            exact .idle

/-- Once its M3 is out, the client ignores every datagram. -/
theorem handle_m3Sent (hok : c.Ok P Q) {frags : List WirePacket} {attempts : ℕ}
    {o : HandshakeOutcome T} (hstate : c.state = .m3Sent frags attempts o) (pkt : WirePacket)
    (rand : T.KemRand) : c.handleDatagram P pkt rand = (.ok .none, c) := by
  have hm := handleDatagram_move hok pkt rand
  generalize c.handleDatagram P pkt rand = res at hm
  obtain ⟨r, c'⟩ := res
  dsimp only at hm
  cases hm with
  | idle => rfl
  | stored _ _ _ _ _ hst | dropped _ _ _ _ _ _ hst | finished _ _ _ _ _ _ _ _ _ hst
  | kdfFailed _ _ _ _ _ _ hst => rw [hstate] at hst; cases hst

/-- Nothing changes but the state. -/
theorem Move.frame (hm : Move P c pkt rand r c') : ∃ st, c' = { c with state := st } := by
  cases hm with
  | idle => exact ⟨c.state, rfl⟩
  | stored | dropped | finished | kdfFailed => exact ⟨_, rfl⟩

theorem Ok.withState (hok : c.Ok P Q) {st : ClientState T}
    (h : ∀ asm attempts, st = .awaitM2 asm attempts →
      asm.Holds hsTypeServerHello m2FragCount m2BodyLen Q) : Ok P Q { c with state := st } :=
  ⟨hok.version, hok.m1, hok.m1Frags, h⟩

theorem Move.ok (hm : Move P c pkt rand r c') (hok : c.Ok P Q)
    (hQ : ∀ frag, HandshakeFragment.fromDatagram pkt = .ok frag → frag.sid = c.sid →
      frag.hsType = hsTypeServerHello → Q frag.fragIdx.toNat frag.body) : c'.Ok P Q := by
  have hstored : ∀ {frag asm attempts}, HandshakeFragment.fromDatagram pkt = .ok frag →
      frag.sid = c.sid → c.state = .awaitM2 asm attempts → asm.Awaits frag →
      Ok P Q { c with state := .awaitM2 (asm.store frag) attempts } := by
    intro frag asm attempts hf hsid hstate hw
    obtain ⟨len, hp⟩ := fromDatagram_ok hf
    have hholds := hok.awaits asm attempts hstate
    refine hok.withState fun asm' attempts' h => ?_
    obtain ⟨rfl, -⟩ := ClientState.awaitM2.inj h
    exact hholds.store hp hw (hQ frag hf hsid (hw.2.1.trans hholds.type))
  cases hm with
  | idle => exact hok
  | stored frag asm attempts hf hsid hstate hw | kdfFailed asm attempts e frag hf hsid hstate hw =>
    exact hstored hf hsid hstate hw
  | dropped frag asm fresh attempts hf hsid hstate hw hdone hnew =>
    obtain ⟨fresh', hnew', hholds, -⟩ := new_holds layout_m2 Q
    refine hok.withState fun asm' attempts' h => ?_
    obtain ⟨rfl, -⟩ := ClientState.awaitM2.inj h
    rw [Option.mem_unique hnew hnew']
    exact hholds
  | finished => exact hok.withState fun asm' attempts' h => by cases h

/-- The timer changes only the attempt count. -/
theorem onTimer_cases (c : ClientHandshake T) :
    c.onTimer = (.error (.err .timeout), c) ∨
      (∃ asm attempts, c.state = .awaitM2 asm attempts ∧
        c.onTimer = (.ok (.emit c.m1Frags), { c with state := .awaitM2 asm (attempts + 1) })) ∨
      ∃ frags attempts outcome, c.state = .m3Sent frags attempts outcome ∧
        c.onTimer =
          (.ok (.emit frags), { c with state := .m3Sent frags (attempts + 1) outcome }) := by
  simp only [onTimer]
  cases hstate : c.state with
  | awaitM2 asm attempts =>
    dsimp only
    split
    · exact Or.inl rfl
    · exact Or.inr (Or.inl ⟨asm, attempts, rfl, rfl⟩)
  | m3Sent frags attempts outcome =>
    dsimp only
    split
    · exact Or.inl rfl
    · exact Or.inr (Or.inr ⟨frags, attempts, outcome, rfl, rfl⟩)

end Steps

end PqTunnel.ClientHandshake
