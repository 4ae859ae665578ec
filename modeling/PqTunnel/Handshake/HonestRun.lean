import PqTunnel.Handshake.ClientSteps
import PqTunnel.Handshake.RoundTrip
import PqTunnel.Handshake.ServerSteps

/-! With correct primitives, each side accepts what the other honestly sent, and both derive
the same master. -/
namespace PqTunnel
open ByteString

variable {T : CryptoTypes} {P : Primitives T}

/-- The primitives do what their users rely on. -/
structure Correct (P : Primitives T) : Prop where
  kem : ∀ sk r, P.kemDecapsulate sk (P.kemEncapsulate (P.kemPublic sk) r).2 =
    (P.kemEncapsulate (P.kemPublic sk) r).1
  exchange : ∀ a b, P.xShared a (P.xPublic b) = P.xShared b (P.xPublic a)
  contributory : ∀ a b, P.wasContributory a (P.xPublic b) = true
  signature : ∀ sk msg, P.sigVerify (P.verifyingKey sk) msg (P.sigSign sk msg) = true
  kemPk : KemPkRoundTrip P
  sigCodec : ∀ sig, P.sigDecode (P.sigEncode sig) = some sig
  hkdf : ∀ salt ikm info, ∃ okm, P.hkdfExpand salt ikm info 32 = .ok okm

theorem diffieHellman_honest (hP : Correct P) (a b : T.XSk) :
    P.diffieHellman a (P.xPublic b) = some (P.xShared a (P.xPublic b)) := by
  rw [Primitives.diffieHellman, hP.contributory, if_pos rfl]

theorem deriveMaster_total (hP : Correct P) (ssA ssB dhCs : Secret) (version : UInt8)
    (sid : SessionId) (th3 : Secret) :
    ∃ master, deriveMaster P ssA ssB dhCs version sid th3 = .ok master := by
  obtain ⟨okm, h⟩ := hP.hkdf (zeros 32) (ssA.toList ++ (ssB.toList ++ dhCs.toList))
    (Kdf.masterInfo version sid.toList th3.toList)
  exact ⟨okm, by simp only [deriveMaster, Kdf.deriveMasterSecretV2, Kdf.kdfDeriveToBytes, h]⟩

theorem deriveFinishedKey_total (hP : Correct P) (master : MasterSecret) (version : UInt8)
    (sid : Bytes) : ∃ key, Kdf.deriveFinishedKey P master version sid = .ok key := by
  obtain ⟨okm, h⟩ := hP.hkdf (zeros 32) master.toList (Kdf.finishedInfo version sid)
  exact ⟨okm, by simp only [Kdf.deriveFinishedKey, Kdf.kdfDeriveToBytes, h]⟩

section Honest
open ServerHandshake ClientHandshake

variable {c : ClientHandshake T} {cfg : ServerConfig T} {draw : ServerDraw T}

variable {Q : ℕ → Bytes → Prop}

theorem honest_answered (hP : Correct P) (hc : c.Ok P Q) (hv : cfg.version = protocolVersion)
    (hroster : P.verifyingKey c.cfg.identity ∈ cfg.roster) (draw : ServerDraw T) :
    Answered P cfg c.sid (c.m1.encode P) draw c.m1 (P.verifyingKey c.cfg.identity)
      (P.xShared draw.xSk (P.xPublic c.xSk)) := by
  have hm1 := hc.m1
  have hver : c.m1.version = protocolVersion := by
    rw [hm1]
    exact hc.version
  refine ⟨ClientHello.decode_encode hP.kemPk hP.sigCodec hver, hver.trans hv.symm,
    by rw [hm1]; rfl, hroster, ?_, ?_⟩
  · have hth : th1Input (c.m1.encode P) = th1Input (encodeM1 P c.cfg.version c.sid
        (P.kemPublic c.kemSk) (P.xPublic c.xSk) none) := by
      rw [hm1]
      simp only [th1Input, ClientHello.encode, helloFor, m1Zero_encodeM1]
    rw [hth, hm1]
    exact hP.signature ..
  · rw [hm1]
    exact diffieHellman_honest hP draw.xSk c.xSk

def honestM2 (P : Primitives T) (cfg : ServerConfig T) (c : ClientHandshake T)
    (draw : ServerDraw T) : ServerHello T where
  version := cfg.version
  sid := c.sid
  ephPkS := P.kemPublic draw.kemSk
  xS := P.xPublic draw.xSk
  ct2 := (P.kemEncapsulate c.m1.ephPkC draw.rand).2
  serverSig := P.sigSign cfg.identity (P.sha256 (th2Input (c.m1.encode P) (encodeM2 P cfg.version
    c.sid (P.kemPublic draw.kemSk) (P.xPublic draw.xSk)
    (P.kemEncapsulate c.m1.ephPkC draw.rand).2 none))).toList

theorem m2For_honest : m2For P cfg c.sid c.m1 (c.m1.encode P) draw =
    (honestM2 P cfg c draw).encode P := rfl

theorem honest_accepts (hP : Correct P) (hc : c.Ok P Q) (hv : cfg.version = protocolVersion)
    (hpin : c.cfg.serverIdentity = P.verifyingKey cfg.identity) (draw : ServerDraw T)
    (rand : T.KemRand) :
    ∃ master key, ClientHandshake.Accepts P c (m2For P cfg c.sid c.m1 (c.m1.encode P) draw) rand
      (honestM2 P cfg c draw) (P.xShared c.xSk (P.xPublic draw.xSk)) master key := by
  obtain ⟨master, hmaster⟩ := deriveMaster_total hP (P.kemDecapsulate c.kemSk
    (honestM2 P cfg c draw).ct2) (P.kemEncapsulate (honestM2 P cfg c draw).ephPkS rand).1
    (P.xShared c.xSk (P.xPublic draw.xSk)) c.cfg.version c.sid
    (P.sha256 (th3Input (c.m1.encode P) (m2For P cfg c.sid c.m1 (c.m1.encode P) draw)
      (encodeM3 c.cfg.version c.sid (P.kemEncapsulate (honestM2 P cfg c draw).ephPkS rand).2 none)))
  obtain ⟨key, hkey⟩ := deriveFinishedKey_total hP master c.cfg.version c.sid.toList
  have hdec : ServerHello.decode P (m2For P cfg c.sid c.m1 (c.m1.encode P) draw) =
      .ok (honestM2 P cfg c draw) := by
    rw [m2For_honest]
    exact ServerHello.decode_encode hP.kemPk hP.sigCodec hv
  refine ⟨master, key, hdec, rfl, hv.trans hc.version.symm, ?_,
    diffieHellman_honest hP .., hmaster, hkey⟩
  have hth : th2Input (c.m1.encode P) (m2For P cfg c.sid c.m1 (c.m1.encode P) draw) =
      th2Input (c.m1.encode P) (encodeM2 P cfg.version c.sid (P.kemPublic draw.kemSk)
        (P.xPublic draw.xSk) (P.kemEncapsulate c.m1.ephPkC draw.rand).2 none) := by
    simp only [th2Input, m2For_honest, ServerHello.encode, honestM2, m2Zero_encodeM2]
  rw [hth, hpin]
  exact hP.signature ..

/-- The server then confirms the client's M3 and derives the client's master. -/
theorem honest_confirmed (hP : Correct P) (hc : c.Ok P Q) (hv : cfg.version = protocolVersion)
    {rand : T.KemRand} {master : MasterSecret} {key : Secret} {dhCs : Secret}
    (hacc : ClientHandshake.Accepts P c (m2For P cfg c.sid c.m1 (c.m1.encode P) draw) rand
      (honestM2 P cfg c draw) dhCs master key)
    (frag : HandshakeFragment) (hsid : frag.sid = c.sid)
    (hbody : frag.body = m3For P c (m2For P cfg c.sid c.m1 (c.m1.encode P) draw) rand
      (honestM2 P cfg c draw) key)
    {entry : PendingSession T} (hstate : entry.state = .awaitM3) (hsk : entry.skS = some draw.kemSk)
    (hm1 : entry.m1Body = some (c.m1.encode P))
    (hm2 : entry.m2Cache = some (m2For P cfg c.sid c.m1 (c.m1.encode P) draw))
    (hssA : entry.ssA = (P.kemEncapsulate c.m1.ephPkC draw.rand).1)
    (hdhCs : entry.dhCs = P.xShared draw.xSk (P.xPublic c.xSk)) {peer : T.SigPk}
    (hpeer : entry.verifiedClient = some peer) :
    ∃ m3, Confirmed P cfg frag entry m3 draw.kemSk (c.m1.encode P)
      (m2For P cfg c.sid c.m1 (c.m1.encode P) draw) master key peer := by
  obtain rfl : dhCs = P.xShared c.xSk (P.xPublic draw.xSk) :=
    Option.some.inj (hacc.agreed.symm.trans (diffieHellman_honest hP c.xSk draw.xSk))
  generalize hm2d : m2For P cfg c.sid c.m1 (c.m1.encode P) draw = m2 at *
  have hth3 : th3Input (c.m1.encode P) m2 frag.body = th3Input (c.m1.encode P) m2
      (encodeM3 c.cfg.version c.sid (P.kemEncapsulate (P.kemPublic draw.kemSk) rand).2 none) := by
    rw [hbody]
    simp only [th3Input, m3For, m3Zero_encodeM3, honestM2]
  have hssB : P.kemDecapsulate draw.kemSk (P.kemEncapsulate (P.kemPublic draw.kemSk) rand).2 =
      (P.kemEncapsulate (P.kemPublic draw.kemSk) rand).1 := hP.kem ..
  have hssA' : entry.ssA = P.kemDecapsulate c.kemSk (honestM2 P cfg c draw).ct2 := by
    have hpk : c.m1.ephPkC = P.kemPublic c.kemSk := by
      rw [hc.m1]
      rfl
    rw [hssA, honestM2, hpk, hP.kem]
  let m3 : ClientConfirm :=
    { version := c.cfg.version, sid := c.sid
      ct3 := (P.kemEncapsulate (P.kemPublic draw.kemSk) rand).2
      clientFinished := Kdf.computeClientFinished P key (P.sha256 (th3Input (c.m1.encode P) m2
        (encodeM3 c.cfg.version c.sid (P.kemEncapsulate (P.kemPublic draw.kemSk) rand).2 none))) }
  have henc : frag.body = m3.encode := hbody
  refine ⟨m3, hstate, ?_, ?_, ?_, hsk, hm1, hm2, ?_, ?_, ?_, hpeer⟩
  · rw [henc]
    exact ClientConfirm.decode_encode hc.version
  · exact hc.version.trans hv.symm
  · exact hsid.symm
  · rw [hth3, hssA', hdhCs, hP.exchange draw.xSk c.xSk, hsid, hssB]
    exact hacc.derived
  · rw [hsid]
    exact hacc.keyed
  · rw [hth3]

end Honest

end PqTunnel
