import PqTunnel.Handshake.Messages

/-! The byte layout of the handshake messages and what the transcript hashes cover. -/
namespace PqTunnel
open ByteString

variable {T : CryptoTypes} {P : Primitives T}

def sigSlot (P : Primitives T) : Option T.Sig → Bytes
  | some s => (P.sigEncode s).toList
  | none => zeros mlDsaSignatureBytes

variable (sig : Option T.Sig)

@[simp] theorem length_sigSlot : (sigSlot P sig).length = mlDsaSignatureBytes := by
  cases sig <;> simp [sigSlot]

def m1Core (P : Primitives T) (version : UInt8) (sid : SessionId) (ephPkC : T.KemPk)
    (xC : X25519PublicKey) : Bytes :=
  [version] ++ sid.toList ++ (P.kemPkToBytes ephPkC).toList ++ xC.toList

def m2Core (P : Primitives T) (version : UInt8) (sid : SessionId) (ephPkS : T.KemPk)
    (xS : X25519PublicKey) (ct2 : MlKemCiphertext) : Bytes :=
  [version] ++ sid.toList ++ (P.kemPkToBytes ephPkS).toList ++ xS.toList ++ ct2.toList

def m3Core (version : UInt8) (sid : SessionId) (ct3 : MlKemCiphertext) : Bytes :=
  [version] ++ sid.toList ++ ct3.toList

variable (version : UInt8) (sid : SessionId) (ephPkC : T.KemPk) (xC : X25519PublicKey)

theorem length_m1Core :
    (m1Core P version sid ephPkC xC).length = m1BodyLen - mlDsaSignatureBytes := by
  simp only [m1Core, List.length_append, List.Vector.toList_length]
  rfl

variable (ephPkS : T.KemPk) (xS : X25519PublicKey) (ct2 : MlKemCiphertext)

theorem length_m2Core :
    (m2Core P version sid ephPkS xS ct2).length = m2BodyLen - mlDsaSignatureBytes := by
  simp only [m2Core, List.length_append, List.Vector.toList_length]
  rfl

variable (ct3 : MlKemCiphertext)

theorem length_m3Core : (m3Core version sid ct3).length = m3BodyLen - finishedMacLen := by
  simp only [m3Core, List.length_append, List.Vector.toList_length]
  rfl

theorem encodeM1_eq :
    encodeM1 P version sid ephPkC xC sig = m1Core P version sid ephPkC xC ++ sigSlot P sig := by
  have hfields : blit (blit (blit (blit (zeros m1BodyLen) 0 [version]) versionLen sid.toList) 9
      (P.kemPkToBytes ephPkC).toList) (9 + mlKemPublicKeyBytes) xC.toList =
        m1Core P version sid ephPkC xC ++ zeros mlDsaSignatureBytes := by
    rw [← List.nil_append (zeros m1BodyLen), blit_next 4533 (by rfl) (by rfl),
      blit_octets 4525 _ (by rfl) (by rfl),
      blit_octets 3341 _ (by simp only [List.length_append, List.Vector.toList_length]; rfl)
        (by rfl),
      blit_octets mlDsaSignatureBytes _
        (by simp only [List.length_append, List.Vector.toList_length]; rfl) (by rfl)]
    rfl
  simp only [encodeM1, hfields]
  cases sig with
  | none => rfl
  | some s =>
    have hnext := blit_octets 0 (P.sigEncode s) (length_m1Core (P := P) version sid ephPkC xC) rfl
    rwa [zeros_zero, List.append_nil] at hnext

theorem encodeM2_eq (sig : Option T.Sig) :
    encodeM2 P version sid ephPkS xS ct2 sig =
      m2Core P version sid ephPkS xS ct2 ++ sigSlot P sig := by
  have hfields : blit (blit (blit (blit (blit (zeros m2BodyLen) 0 [version]) versionLen
      sid.toList) 9 (P.kemPkToBytes ephPkS).toList) (9 + mlKemPublicKeyBytes) xS.toList)
      (9 + mlKemPublicKeyBytes + 32) ct2.toList =
        m2Core P version sid ephPkS xS ct2 ++ zeros mlDsaSignatureBytes := by
    rw [← List.nil_append (zeros m2BodyLen), blit_next 5621 (by rfl) (by rfl),
      blit_octets 5613 _ (by rfl) (by rfl),
      blit_octets 4429 _ (by simp only [List.length_append, List.Vector.toList_length]; rfl)
        (by rfl),
      blit_octets 4397 _ (by simp only [List.length_append, List.Vector.toList_length]; rfl)
        (by rfl),
      blit_octets mlDsaSignatureBytes _
        (by simp only [List.length_append, List.Vector.toList_length]; rfl) (by rfl)]
    rfl
  simp only [encodeM2, hfields]
  cases sig with
  | none => rfl
  | some s =>
    have hnext := blit_octets 0 (P.sigEncode s)
      (length_m2Core (P := P) version sid ephPkS xS ct2) rfl
    rwa [zeros_zero, List.append_nil] at hnext

def macSlot : Option (Octets finishedMacLen) → Bytes
  | some m => m.toList
  | none => zeros finishedMacLen

@[simp] theorem length_macSlot (m : Option (Octets finishedMacLen)) :
    (macSlot m).length = finishedMacLen := by
  cases m <;> simp [macSlot]

variable (finished : Option (Octets finishedMacLen))

theorem encodeM3_eq :
    encodeM3 version sid ct3 finished = m3Core version sid ct3 ++ macSlot finished := by
  have hfields : blit (blit (blit (zeros m3BodyLen) 0 [version]) versionLen sid.toList) 9
      ct3.toList = m3Core version sid ct3 ++ zeros finishedMacLen := by
    rw [← List.nil_append (zeros m3BodyLen), blit_next 1112 (by rfl) (by rfl),
      blit_octets 1104 _ (by rfl) (by rfl),
      blit_octets finishedMacLen _
        (by simp only [List.length_append, List.Vector.toList_length]; rfl) (by rfl)]
    rfl
  simp only [encodeM3, hfields]
  cases finished with
  | none => rfl
  | some m =>
    have hnext := blit_octets 0 m (length_m3Core version sid ct3) rfl
    rwa [zeros_zero, List.append_nil] at hnext

def zeroSlot (slot : ℕ) (message : Bytes) : Bytes :=
  message.take (message.length - slot) ++ zeros slot

theorem zeroSlot_append {core tail : Bytes} {slot : ℕ} (h : tail.length = slot) :
    zeroSlot slot (core ++ tail) = core ++ zeros slot := by
  have hlen : (core ++ tail).length - slot = core.length := by
    rw [List.length_append, h, Nat.add_sub_cancel]
  rw [zeroSlot, hlen, List.take_left]

theorem length_zeroSlot {slot : ℕ} {message : Bytes} (h : slot ≤ message.length) :
    (zeroSlot slot message).length = message.length := by
  simp only [zeroSlot, List.length_append, List.length_take, length_zeros]
  omega

theorem slice_zeroSlot {slot start len : ℕ} {message : Bytes}
    (h : start + len ≤ message.length - slot) :
    slice (zeroSlot slot message) start len = slice message start len := by
  have hl : start + len ≤ (message.take (message.length - slot)).length := by
    rw [List.length_take]
    omega
  rw [zeroSlot, slice_append_left hl]
  simp only [slice, List.drop_take, List.take_take]
  rw [min_eq_left (by omega)]

def m1Zero (m1 : Bytes) : Bytes := zeroSlot mlDsaSignatureBytes m1
def m2Zero (m2 : Bytes) : Bytes := zeroSlot mlDsaSignatureBytes m2
def m3Zero (m3 : Bytes) : Bytes := zeroSlot finishedMacLen m3

variable {m1 : Bytes}

theorem canonicalZerofill_m1 (h : m1.length = m1BodyLen) :
    canonicalZerofill hsTypeClientHello m1 = some (m1Zero m1) := by
  have hs : slotLen hsTypeClientHello = some mlDsaSignatureBytes := rfl
  have hl : messageBodyLen hsTypeClientHello = some m1BodyLen := rfl
  simp only [canonicalZerofill, hs, hl, h, ne_eq, not_true_eq_false, if_false, m1Zero, zeroSlot]

variable {m2 : Bytes}

theorem canonicalZerofill_m2 (h : m2.length = m2BodyLen) :
    canonicalZerofill hsTypeServerHello m2 = some (m2Zero m2) := by
  have hs : slotLen hsTypeServerHello = some mlDsaSignatureBytes := rfl
  have hl : messageBodyLen hsTypeServerHello = some m2BodyLen := rfl
  simp only [canonicalZerofill, hs, hl, h, ne_eq, not_true_eq_false, if_false, m2Zero, zeroSlot]

theorem canonicalZerofill_m3 {m3 : Bytes} (h : m3.length = m3BodyLen) :
    canonicalZerofill hsTypeClientConfirm m3 = some (m3Zero m3) := by
  have hs : slotLen hsTypeClientConfirm = some finishedMacLen := rfl
  have hl : messageBodyLen hsTypeClientConfirm = some m3BodyLen := rfl
  simp only [canonicalZerofill, hs, hl, h, ne_eq, not_true_eq_false, if_false, m3Zero, zeroSlot]

/-- The bytes hashed for TH1, TH2 and TH3. -/
def th1Input (m1 : Bytes) : Bytes := handshakeDomain ++ m1Zero m1
def th2Input (m1 m2 : Bytes) : Bytes := handshakeDomain ++ (m1 ++ m2Zero m2)
def th3Input (m1 m2 m3 : Bytes) : Bytes :=
  handshakeDomain ++ (m1Zero m1 ++ (m2Zero m2 ++ m3Zero m3))

theorem th1FromM1_eq (h : m1.length = m1BodyLen) :
    th1FromM1 P m1 = some (P.sha256 (th1Input m1)) := by
  simp only [th1FromM1, canonicalZerofill_m1 h, hashWithDomain, th1Input, List.flatten_cons,
    List.flatten_nil, List.append_nil]

theorem th2FromM1M2_eq (h1 : m1.length = m1BodyLen) (h2 : m2.length = m2BodyLen) :
    th2FromM1M2 P m1 m2 = some (P.sha256 (th2Input m1 m2)) := by
  simp only [th2FromM1M2, h1, ne_eq, not_true_eq_false, if_false, canonicalZerofill_m2 h2,
    hashWithDomain, th2Input, List.flatten_cons, List.flatten_nil, List.append_nil]

theorem th3FromM1M2M3_eq {m3 : Bytes} (h1 : m1.length = m1BodyLen) (h2 : m2.length = m2BodyLen)
    (h3 : m3.length = m3BodyLen) :
    th3FromM1M2M3 P m1 m2 m3 = some (P.sha256 (th3Input m1 m2 m3)) := by
  simp only [th3FromM1M2M3, canonicalZerofill_m1 h1, canonicalZerofill_m2 h2,
    canonicalZerofill_m3 h3, hashWithDomain, th3Input, List.flatten_cons, List.flatten_nil,
    List.append_nil]

theorem length_encodeM1 : (encodeM1 P version sid ephPkC xC sig).length = m1BodyLen := by
  rw [encodeM1_eq, List.length_append, length_m1Core, length_sigSlot]
  rfl

theorem length_encodeM2
    (sig : Option T.Sig) : (encodeM2 P version sid ephPkS xS ct2 sig).length = m2BodyLen := by
  rw [encodeM2_eq, List.length_append, length_m2Core, length_sigSlot]
  rfl

theorem length_encodeM3 : (encodeM3 version sid ct3 finished).length = m3BodyLen := by
  rw [encodeM3_eq, List.length_append, length_m3Core, length_macSlot]
  rfl

/-- Zeroing the slot of an encoded message forgets exactly its signature or MAC. -/
theorem m1Zero_encodeM1 :
    m1Zero (encodeM1 P version sid ephPkC xC sig) = encodeM1 P version sid ephPkC xC none := by
  rw [m1Zero, encodeM1_eq, zeroSlot_append (length_sigSlot sig), encodeM1_eq]
  rfl

theorem m2Zero_encodeM2 (sig : Option T.Sig) :
    m2Zero (encodeM2 P version sid ephPkS xS ct2 sig) =
      encodeM2 P version sid ephPkS xS ct2 none := by
  rw [m2Zero, encodeM2_eq, zeroSlot_append (length_sigSlot sig), encodeM2_eq]
  rfl

theorem m3Zero_encodeM3 :
    m3Zero (encodeM3 version sid ct3 finished) = encodeM3 version sid ct3 none := by
  rw [m3Zero, encodeM3_eq, zeroSlot_append (length_macSlot finished), encodeM3_eq]
  rfl

/-- What a decoded M1 says about the bytes it came from. -/
structure DecodedM1 (P : Primitives T) (data : Bytes) (m : ClientHello T) : Prop where
  len : data.length = m1BodyLen
  version : m.version = protocolVersion
  sid : m.sid.toList = slice data 1 sessionIdLen
  ephPkC : P.mlKemPublicKeyFromBytes (slice data 9 mlKemPublicKeyBytes) = .ok m.ephPkC
  xC : m.xC.toList = slice data (9 + mlKemPublicKeyBytes) x25519PublicKeyBytes
  clientSig : P.mlDsaSignatureFromBytes
    (slice data (m1BodyLen - mlDsaSignatureBytes) mlDsaSignatureBytes) = .ok m.clientSig

theorem ClientHello.decode_ok {data : Bytes} {m : ClientHello T}
    (h : ClientHello.decode P data = .ok m) : DecodedM1 P data m := by
  simp only [ClientHello.decode] at h
  split at h
  · cases h
  · rename_i hlen
    split at h
    · cases h
    · rename_i hver
      split at h
      · cases h
      · rename_i pk hpk
        split at h
        · cases h
        · rename_i sig hsig
          obtain rfl := Except.ok.inj h
          exact ⟨not_not.mp hlen, not_not.mp hver, rfl, hpk, rfl, hsig⟩

structure DecodedM2 (P : Primitives T) (data : Bytes) (m : ServerHello T) : Prop where
  len : data.length = m2BodyLen
  version : m.version = protocolVersion
  sid : m.sid.toList = slice data 1 sessionIdLen
  ephPkS : P.mlKemPublicKeyFromBytes (slice data 9 mlKemPublicKeyBytes) = .ok m.ephPkS
  xS : m.xS.toList = slice data (9 + mlKemPublicKeyBytes) x25519PublicKeyBytes
  ct2 : m.ct2.toList = slice data (9 + mlKemPublicKeyBytes + 32) mlKemCiphertextBytes
  serverSig : P.mlDsaSignatureFromBytes
    (slice data (m2BodyLen - mlDsaSignatureBytes) mlDsaSignatureBytes) = .ok m.serverSig

theorem mlKemCiphertextFromBytes_ok {b : Bytes} {ct : MlKemCiphertext}
    (h : mlKemCiphertextFromBytes b = .ok ct) : ct.toList = b := by
  unfold mlKemCiphertextFromBytes at h
  split at h
  · obtain rfl := Except.ok.inj h
    rfl
  · cases h

theorem ServerHello.decode_ok {data : Bytes} {m : ServerHello T}
    (h : ServerHello.decode P data = .ok m) : DecodedM2 P data m := by
  simp only [ServerHello.decode] at h
  split at h
  · cases h
  · rename_i hlen
    split at h
    · cases h
    · rename_i hver
      split at h
      · cases h
      · rename_i pk hpk
        split at h
        · cases h
        · rename_i ct hct
          split at h
          · cases h
          · rename_i sig hsig
            obtain rfl := Except.ok.inj h
            exact ⟨not_not.mp hlen, not_not.mp hver, rfl, hpk, rfl,
              mlKemCiphertextFromBytes_ok hct, hsig⟩

structure DecodedM3 (data : Bytes) (m : ClientConfirm) : Prop where
  len : data.length = m3BodyLen
  version : m.version = protocolVersion
  sid : m.sid.toList = slice data 1 sessionIdLen
  ct3 : m.ct3.toList = slice data 9 mlKemCiphertextBytes
  clientFinished : m.clientFinished.toList =
    slice data (m3BodyLen - finishedMacLen) finishedMacLen

theorem ClientConfirm.decode_ok {data : Bytes} {m : ClientConfirm}
    (h : ClientConfirm.decode data = .ok m) : DecodedM3 data m := by
  simp only [ClientConfirm.decode] at h
  split at h
  · cases h
  · rename_i hlen
    split at h
    · cases h
    · rename_i hver
      split at h
      · cases h
      · rename_i ct hct
        obtain rfl := Except.ok.inj h
        exact ⟨not_not.mp hlen, not_not.mp hver, rfl, mlKemCiphertextFromBytes_ok hct, rfl⟩

theorem deriveMaster_error {ssA ssB dhCs : Secret} {version : UInt8} {sid : SessionId}
    {th3 : Secret} {e : HandshakeV2Error}
    (h : deriveMaster P ssA ssB dhCs version sid th3 = .error e) :
    ∃ e', e = .crypto e' ∧ ¬ Kdf.HkdfTotal P := by
  unfold deriveMaster at h
  split at h
  · rename_i hkdf
    exact ⟨_, (Except.error.inj h).symm, fun htotal => htotal.ne_error (by decide) hkdf⟩
  · cases h

theorem length_m1Zero (h : m1.length = m1BodyLen) : (m1Zero m1).length = m1BodyLen := by
  rw [m1Zero, length_zeroSlot (by rw [h]; decide), h]

theorem length_m2Zero (h : m2.length = m2BodyLen) : (m2Zero m2).length = m2BodyLen := by
  rw [m2Zero, length_zeroSlot (by rw [h]; decide), h]

/-- The hashed bytes determine the messages behind them, up to the zeroed slots. -/
theorem th1Input_inj {m m' : Bytes} (h : th1Input m = th1Input m') : m1Zero m = m1Zero m' :=
  List.append_cancel_left h

theorem th2Input_inj {m1' m2' : Bytes} (h1 : m1.length = m1BodyLen) (h1' : m1'.length = m1BodyLen)
    (h : th2Input m1 m2 = th2Input m1' m2') : m1 = m1' ∧ m2Zero m2 = m2Zero m2' :=
  List.append_inj (List.append_cancel_left h) (h1.trans h1'.symm)

theorem th3Input_inj {m3 m1' m2' m3' : Bytes} (h1 : m1.length = m1BodyLen)
    (h1' : m1'.length = m1BodyLen) (h2 : m2.length = m2BodyLen) (h2' : m2'.length = m2BodyLen)
    (h : th3Input m1 m2 m3 = th3Input m1' m2' m3') :
    m1Zero m1 = m1Zero m1' ∧ m2Zero m2 = m2Zero m2' ∧ m3Zero m3 = m3Zero m3' := by
  obtain ⟨hm1, hrest⟩ := List.append_inj (List.append_cancel_left h)
    ((length_m1Zero h1).trans (length_m1Zero h1').symm)
  obtain ⟨hm2, hm3⟩ := List.append_inj hrest ((length_m2Zero h2).trans (length_m2Zero h2').symm)
  exact ⟨hm1, hm2, hm3⟩

theorem th1Input_ne_th2Input {m : Bytes} (h : m.length = m1BodyLen) (h1 : m1.length = m1BodyLen)
    (h2 : m2.length = m2BodyLen) : th1Input m ≠ th2Input m1 m2 := by
  intro heq
  have hlen := congrArg List.length (List.append_cancel_left heq)
  rw [length_m1Zero h, List.length_append, h1, length_m2Zero h2] at hlen
  exact absurd hlen (by decide)

theorem slice_m1Zero (version : UInt8) (sid : SessionId) (pk : T.KemPk) (xC : X25519PublicKey)
    (sig : Option T.Sig) :
    slice (m1Zero (encodeM1 P version sid pk xC sig)) 9 mlKemPublicKeyBytes =
      (P.kemPkToBytes pk).toList := by
  have hsid : sid.toList.length = 8 := sid.toList_length
  rw [m1Zero_encodeM1, encodeM1_eq, m1Core, List.append_assoc, List.append_assoc]
  refine slice_append_mid _ _ _ ?_ (List.Vector.toList_length _).symm
  simp [hsid]

theorem slice_m2Zero (version : UInt8) (sid : SessionId) (pk : T.KemPk) (xS : X25519PublicKey)
    (ct2 : MlKemCiphertext) (sig : Option T.Sig) :
    slice (m2Zero (encodeM2 P version sid pk xS ct2 sig)) 9 mlKemPublicKeyBytes =
      (P.kemPkToBytes pk).toList := by
  have hsid : sid.toList.length = 8 := sid.toList_length
  rw [m2Zero_encodeM2, encodeM2_eq, m2Core, List.append_assoc, List.append_assoc,
    List.append_assoc]
  refine slice_append_mid _ _ _ ?_ (List.Vector.toList_length _).symm
  simp [hsid]

section RoundTrip

/-- Encoded KEM keys parse back to themselves. -/
def KemPkRoundTrip (P : Primitives T) : Prop := ∀ pk, P.kemPkNew (P.kemPkToBytes pk) = .ok pk

variable (hpk : KemPkRoundTrip P)
include hpk

variable {pk : T.KemPk} {pk' : T.KemPk}

theorem kemPkToBytes_injective
    (h : (P.kemPkToBytes pk).toList = (P.kemPkToBytes pk').toList) : pk = pk' := by
  have hpk' := hpk pk'
  rw [← List.Vector.toList_injective h, hpk pk] at hpk'
  exact Except.ok.inj hpk'

theorem mlKemPublicKeyFromBytes_toBytes (pk : T.KemPk) :
    P.mlKemPublicKeyFromBytes (P.kemPkToBytes pk).toList = .ok pk := by
  unfold Primitives.mlKemPublicKeyFromBytes
  rw [dif_pos (List.Vector.toList_length _)]
  have hself : (⟨(P.kemPkToBytes pk).toList, List.Vector.toList_length _⟩ :
      Octets mlKemPublicKeyBytes) = P.kemPkToBytes pk := List.Vector.toList_injective rfl
  rw [hself, hpk pk]

variable {sig} {sid}

/-- A server that decodes a client's M1 reads the client's own ephemeral key. -/
theorem ephPkC_of_m1Zero {m1 : Bytes} {hello : ClientHello T}
    (hdec : ClientHello.decode P m1 = .ok hello) {version : UInt8} {xC : X25519PublicKey}
    (h : m1Zero m1 = m1Zero (encodeM1 P version sid pk xC sig)) : hello.ephPkC = pk := by
  have hd := ClientHello.decode_ok hdec
  have hslice : slice m1 9 mlKemPublicKeyBytes = (P.kemPkToBytes pk).toList := by
    rw [← slice_m1Zero version sid pk xC sig, ← h, m1Zero,
      slice_zeroSlot (by rw [hd.len]; decide)]
  have hkey := hd.ephPkC
  rw [hslice] at hkey
  exact (Except.ok.inj ((mlKemPublicKeyFromBytes_toBytes hpk pk).symm.trans hkey)).symm

theorem m1Zero_ephPk_inj {version version' : UInt8} {sid' : SessionId} {xC xC' : X25519PublicKey}
    {sig' : Option T.Sig}
    (h : m1Zero (encodeM1 P version sid pk xC sig) =
      m1Zero (encodeM1 P version' sid' pk' xC' sig')) : pk = pk' := by
  apply kemPkToBytes_injective hpk
  rw [← slice_m1Zero version sid pk xC sig, h, slice_m1Zero]

theorem m2Zero_ephPk_inj {version version' : UInt8} {sid' : SessionId} {xS xS' : X25519PublicKey}
    {ct2 ct2' : MlKemCiphertext} {sig' : Option T.Sig}
    (h : m2Zero (encodeM2 P version sid pk xS ct2 sig) =
      m2Zero (encodeM2 P version' sid' pk' xS' ct2' sig')) : pk = pk' := by
  apply kemPkToBytes_injective hpk
  rw [← slice_m2Zero version sid pk xS ct2 sig, h, slice_m2Zero]

end RoundTrip

end PqTunnel
