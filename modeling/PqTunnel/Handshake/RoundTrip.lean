import PqTunnel.Crypto.Sample
import PqTunnel.Handshake.Transcript

/-! The handshake codecs are exact in both directions, and what each transcript hash covers. -/
namespace PqTunnel
open ByteString

variable {T : CryptoTypes} {P : Primitives T}

/-- The third-party encodings and their decoders undo each other. -/
structure EncodingsInverse (P : Primitives T) : Prop where
  kemPk : KemPkRoundTrip P
  kemPkToBytes : ∀ b pk, P.kemPkNew b = .ok pk → P.kemPkToBytes pk = b
  sig : ∀ s, P.sigDecode (P.sigEncode s) = some s
  sigEncode : ∀ b s, P.sigDecode b = some s → P.sigEncode s = b

namespace EncodingsInverse

theorem kemPk_bytes (h : EncodingsInverse P) {b : Bytes} {pk : T.KemPk}
    (hb : P.mlKemPublicKeyFromBytes b = .ok pk) : (P.kemPkToBytes pk).toList = b := by
  unfold Primitives.mlKemPublicKeyFromBytes at hb
  split at hb
  · split at hb
    · rename_i hnew
      rw [← Except.ok.inj hb, h.kemPkToBytes _ _ hnew]
      rfl
    · cases hb
  · cases hb

theorem sig_bytes (h : EncodingsInverse P) {b : Bytes} {s : T.Sig}
    (hb : P.mlDsaSignatureFromBytes b = .ok s) : (P.sigEncode s).toList = b := by
  unfold Primitives.mlDsaSignatureFromBytes at hb
  split at hb
  · split at hb
    · rename_i hdec
      rw [← Except.ok.inj hb, h.sigEncode _ _ hdec]
      rfl
    · cases hb
  · cases hb

end EncodingsInverse

theorem mlDsaSignatureFromBytes_encode (hsig : ∀ s, P.sigDecode (P.sigEncode s) = some s)
    (s : T.Sig) : P.mlDsaSignatureFromBytes (P.sigEncode s).toList = .ok s := by
  unfold Primitives.mlDsaSignatureFromBytes
  rw [dif_pos (List.Vector.toList_length _)]
  have hself : (⟨(P.sigEncode s).toList, List.Vector.toList_length _⟩ :
      Octets mlDsaSignatureBytes) = P.sigEncode s := List.Vector.toList_injective rfl
  rw [hself, hsig s]

theorem mlKemCiphertextFromBytes_toList (ct : MlKemCiphertext) :
    mlKemCiphertextFromBytes ct.toList = .ok ct := by
  rw [mlKemCiphertextFromBytes, dif_pos ct.toList_length]
  rfl

/-- A codec whose decoder takes the accepted strings only, undoes the encoder on the messages of
this version and is undone by it. -/
structure Exact {M : Type} (encode : M → Bytes) (decode : Bytes → Except CodecError M)
    (version : M → UInt8) (accepts : Bytes → Prop) : Prop where
  accepted : ∀ b, (∃ m, decode b = .ok m) ↔ accepts b
  decode_encode : ∀ m, version m = protocolVersion → decode (encode m) = .ok m
  encode_decode : ∀ b m, decode b = .ok m → encode m = b

theorem slice_head {l : Bytes} (h : 0 < l.length) : slice l 0 1 = [l.getD 0 0] := by
  cases l with
  | nil => cases h
  | cons a l => rfl

theorem getD_of_slice {l : Bytes} {a : UInt8} (h : slice l 0 1 = [a]) : l.getD 0 0 = a := by
  cases l with
  | nil => cases h
  | cons b l => exact List.head_eq_of_cons_eq h

theorem slice_field {b rest rest' : Bytes} {start n : ℕ} {v : Octets n}
    (h : slice b start n ++ rest = v.toList ++ rest') (hfit : start + n ≤ b.length) :
    slice b start n = v.toList ∧ rest = rest' :=
  List.append_inj h ((length_slice hfit).trans v.toList_length.symm)

namespace ClientHello

def Accepts (P : Primitives T) (b : Bytes) : Prop :=
  b.length = m1BodyLen ∧ b.getD 0 0 = protocolVersion ∧
    (∃ pk, P.mlKemPublicKeyFromBytes (slice b 9 mlKemPublicKeyBytes) = .ok pk) ∧
    ∃ s, P.mlDsaSignatureFromBytes
      (slice b (m1BodyLen - mlDsaSignatureBytes) mlDsaSignatureBytes) = .ok s

theorem split {b : Bytes} (h : b.length = m1BodyLen) :
    slice b 0 1 ++ (slice b 1 sessionIdLen ++ (slice b 9 mlKemPublicKeyBytes ++
      (slice b (9 + mlKemPublicKeyBytes) x25519PublicKeyBytes ++
        slice b (m1BodyLen - mlDsaSignatureBytes) mlDsaSignatureBytes))) = b := by
  have hall := slice_self b h.le
  rw [show m1BodyLen = 1 + (8 + (1184 + (32 + 3309))) from rfl, slice_add, slice_add, slice_add,
    slice_add] at hall
  exact hall

variable {m : ClientHello T}

theorem accepts_of_decode {b : Bytes} (h : decode P b = .ok m) : Accepts P b := by
  have hd := decode_ok h
  refine ⟨hd.len, ?_, ⟨_, hd.ephPkC⟩, _, hd.clientSig⟩
  by_contra hv
  rw [decode, dif_neg (not_not_intro hd.len), if_pos hv] at h
  cases h

theorem decode_of_fields {b : Bytes} (hd : DecodedM1 P b m)
    (hv : b.getD 0 0 = protocolVersion) : decode P b = .ok m := by
  simp only [decode, hd.ephPkC, hd.clientSig]
  rw [dif_neg (not_not_intro hd.len), if_neg (not_not_intro hv)]
  obtain ⟨version, sid, pk, xC, s⟩ := m
  simp only [Except.ok.injEq, ClientHello.mk.injEq, and_true, true_and]
  exact ⟨hv.trans hd.version.symm, List.Vector.toList_injective hd.sid.symm,
    List.Vector.toList_injective hd.xC.symm⟩

theorem encode_fields (m : ClientHello T) : m.encode P =
    [m.version] ++ (m.sid.toList ++ ((P.kemPkToBytes m.ephPkC).toList ++
      (m.xC.toList ++ (P.sigEncode m.clientSig).toList))) := by
  rw [encode, encodeM1_eq]
  simp only [m1Core, sigSlot, List.append_assoc]

theorem decode_encode (hpk : KemPkRoundTrip P) (hsig : ∀ s, P.sigDecode (P.sigEncode s) = some s)
    (hm : m.version = protocolVersion) : decode P (m.encode P) = .ok m := by
  have hlen : (m.encode P).length = m1BodyLen := length_encodeM1 ..
  -- the fields of the encoding are the fields of the message, by their lengths
  have hsplit := (split hlen).trans (encode_fields m)
  obtain ⟨hv, hsplit⟩ := List.append_inj hsplit (length_slice (by rw [hlen]; decide))
  obtain ⟨hsid, hsplit⟩ := slice_field hsplit (by rw [hlen]; decide)
  obtain ⟨hkey, hsplit⟩ := slice_field hsplit (by rw [hlen]; decide)
  obtain ⟨hx, hs⟩ := slice_field hsplit (by rw [hlen]; decide)
  refine decode_of_fields ⟨hlen, hm, hsid.symm, ?_, hx.symm, ?_⟩ ((getD_of_slice hv).trans hm)
  · rw [hkey, mlKemPublicKeyFromBytes_toBytes hpk]
  · rw [hs, mlDsaSignatureFromBytes_encode hsig]

theorem codecExact (hinv : EncodingsInverse P) :
    Exact (encode P) (decode P) ClientHello.version (Accepts P) where
  accepted b := by
    constructor
    · rintro ⟨m, hm⟩
      exact accepts_of_decode hm
    · rintro ⟨hlen, hv, ⟨pk, hpk⟩, s, hs⟩
      refine ⟨_, decode_of_fields (m := ⟨protocolVersion, sliceOctets b 1 sessionIdLen ?_, pk,
        sliceOctets b (9 + mlKemPublicKeyBytes) x25519PublicKeyBytes ?_, s⟩)
        ⟨hlen, rfl, rfl, hpk, rfl, hs⟩ hv⟩ <;> rw [hlen] <;> decide
  decode_encode m hm := decode_encode hinv.kemPk hinv.sig hm
  encode_decode b m hm := by
    have hd := decode_ok hm
    obtain ⟨hlen, hv, -, -⟩ := accepts_of_decode hm
    rw [encode_fields, hd.version, ← hv, ← slice_head (by rw [hlen]; decide), hd.sid, hd.xC,
      hinv.kemPk_bytes hd.ephPkC, hinv.sig_bytes hd.clientSig]
    exact split hlen

end ClientHello

namespace ServerHello

def Accepts (P : Primitives T) (b : Bytes) : Prop :=
  b.length = m2BodyLen ∧ b.getD 0 0 = protocolVersion ∧
    (∃ pk, P.mlKemPublicKeyFromBytes (slice b 9 mlKemPublicKeyBytes) = .ok pk) ∧
    (∃ ct, mlKemCiphertextFromBytes
      (slice b (9 + mlKemPublicKeyBytes + 32) mlKemCiphertextBytes) = .ok ct) ∧
    ∃ s, P.mlDsaSignatureFromBytes
      (slice b (m2BodyLen - mlDsaSignatureBytes) mlDsaSignatureBytes) = .ok s

theorem split {b : Bytes} (h : b.length = m2BodyLen) :
    slice b 0 1 ++ (slice b 1 sessionIdLen ++ (slice b 9 mlKemPublicKeyBytes ++
      (slice b (9 + mlKemPublicKeyBytes) x25519PublicKeyBytes ++
        (slice b (9 + mlKemPublicKeyBytes + 32) mlKemCiphertextBytes ++
          slice b (m2BodyLen - mlDsaSignatureBytes) mlDsaSignatureBytes)))) = b := by
  have hall := slice_self b h.le
  rw [show m2BodyLen = 1 + (8 + (1184 + (32 + (1088 + 3309)))) from rfl, slice_add, slice_add,
    slice_add, slice_add, slice_add] at hall
  exact hall

variable {m : ServerHello T}

theorem accepts_of_decode {b : Bytes} (h : decode P b = .ok m) : Accepts P b := by
  have hd := decode_ok h
  refine ⟨hd.len, ?_, ⟨_, hd.ephPkS⟩,
    ⟨m.ct2, by rw [← hd.ct2]; exact mlKemCiphertextFromBytes_toList m.ct2⟩, _, hd.serverSig⟩
  by_contra hv
  rw [decode, dif_neg (not_not_intro hd.len), if_pos hv] at h
  cases h

theorem decode_of_fields {b : Bytes} (hd : DecodedM2 P b m)
    (hv : b.getD 0 0 = protocolVersion) : decode P b = .ok m := by
  simp only [decode, hd.ephPkS, ← hd.ct2, mlKemCiphertextFromBytes_toList, hd.serverSig]
  rw [dif_neg (not_not_intro hd.len), if_neg (not_not_intro hv)]
  obtain ⟨version, sid, pk, xS, ct2, s⟩ := m
  simp only [Except.ok.injEq, ServerHello.mk.injEq, and_true, true_and]
  exact ⟨hv.trans hd.version.symm, List.Vector.toList_injective hd.sid.symm,
    List.Vector.toList_injective hd.xS.symm⟩

theorem encode_fields (m : ServerHello T) : m.encode P =
    [m.version] ++ (m.sid.toList ++ ((P.kemPkToBytes m.ephPkS).toList ++
      (m.xS.toList ++ (m.ct2.toList ++ (P.sigEncode m.serverSig).toList)))) := by
  rw [encode, encodeM2_eq]
  simp only [m2Core, sigSlot, List.append_assoc]

theorem decode_encode (hpk : KemPkRoundTrip P) (hsig : ∀ s, P.sigDecode (P.sigEncode s) = some s)
    (hm : m.version = protocolVersion) : decode P (m.encode P) = .ok m := by
  have hlen : (m.encode P).length = m2BodyLen := length_encodeM2 ..
  have hsplit := (split hlen).trans (encode_fields m)
  obtain ⟨hv, hsplit⟩ := List.append_inj hsplit (length_slice (by rw [hlen]; decide))
  obtain ⟨hsid, hsplit⟩ := slice_field hsplit (by rw [hlen]; decide)
  obtain ⟨hkey, hsplit⟩ := slice_field hsplit (by rw [hlen]; decide)
  obtain ⟨hx, hsplit⟩ := slice_field hsplit (by rw [hlen]; decide)
  obtain ⟨hct, hs⟩ := slice_field hsplit (by rw [hlen]; decide)
  refine decode_of_fields ⟨hlen, hm, hsid.symm, ?_, hx.symm, hct.symm, ?_⟩
    ((getD_of_slice hv).trans hm)
  · rw [hkey, mlKemPublicKeyFromBytes_toBytes hpk]
  · rw [hs, mlDsaSignatureFromBytes_encode hsig]

theorem codecExact (hinv : EncodingsInverse P) :
    Exact (encode P) (decode P) ServerHello.version (Accepts P) where
  accepted b := by
    constructor
    · rintro ⟨m, hm⟩
      exact accepts_of_decode hm
    · rintro ⟨hlen, hv, ⟨pk, hpk⟩, ⟨ct, hct⟩, s, hs⟩
      refine ⟨_, decode_of_fields (m := ⟨protocolVersion, sliceOctets b 1 sessionIdLen ?_, pk,
        sliceOctets b (9 + mlKemPublicKeyBytes) x25519PublicKeyBytes ?_, ct, s⟩)
        ⟨hlen, rfl, rfl, hpk, rfl, mlKemCiphertextFromBytes_ok hct, hs⟩ hv⟩ <;>
        rw [hlen] <;> decide
  decode_encode m hm := decode_encode hinv.kemPk hinv.sig hm
  encode_decode b m hm := by
    have hd := decode_ok hm
    obtain ⟨hlen, hv, -⟩ := accepts_of_decode hm
    rw [encode_fields, hd.version, ← hv, ← slice_head (by rw [hlen]; decide), hd.sid, hd.xS,
      hd.ct2, hinv.kemPk_bytes hd.ephPkS, hinv.sig_bytes hd.serverSig]
    exact split hlen

end ServerHello

namespace ClientConfirm

def Accepts (b : Bytes) : Prop :=
  b.length = m3BodyLen ∧ b.getD 0 0 = protocolVersion ∧
    ∃ ct, mlKemCiphertextFromBytes (slice b 9 mlKemCiphertextBytes) = .ok ct

theorem split {b : Bytes} (h : b.length = m3BodyLen) :
    slice b 0 1 ++ (slice b 1 sessionIdLen ++ (slice b 9 mlKemCiphertextBytes ++
      slice b (m3BodyLen - finishedMacLen) finishedMacLen)) = b := by
  have hall := slice_self b h.le
  rw [show m3BodyLen = 1 + (8 + (1088 + 16)) from rfl, slice_add, slice_add, slice_add] at hall
  exact hall

variable {m : ClientConfirm}

theorem accepts_of_decode {b : Bytes} (h : decode b = .ok m) : Accepts b := by
  have hd := decode_ok h
  refine ⟨hd.len, ?_, m.ct3, by rw [← hd.ct3]; exact mlKemCiphertextFromBytes_toList m.ct3⟩
  by_contra hv
  rw [decode, dif_neg (not_not_intro hd.len), if_pos hv] at h
  cases h

theorem decode_of_fields {b : Bytes} (hd : DecodedM3 b m)
    (hv : b.getD 0 0 = protocolVersion) : decode b = .ok m := by
  simp only [decode, ← hd.ct3, mlKemCiphertextFromBytes_toList]
  rw [dif_neg (not_not_intro hd.len), if_neg (not_not_intro hv)]
  obtain ⟨version, sid, ct3, mac⟩ := m
  simp only [Except.ok.injEq, ClientConfirm.mk.injEq, true_and]
  exact ⟨hv.trans hd.version.symm, List.Vector.toList_injective hd.sid.symm,
    List.Vector.toList_injective hd.clientFinished.symm⟩

theorem encode_fields (m : ClientConfirm) : m.encode =
    [m.version] ++ (m.sid.toList ++ (m.ct3.toList ++ m.clientFinished.toList)) := by
  rw [encode, encodeM3_eq]
  simp only [m3Core, macSlot, List.append_assoc]

theorem decode_encode (hm : m.version = protocolVersion) : decode m.encode = .ok m := by
  have hlen : m.encode.length = m3BodyLen := length_encodeM3 ..
  have hsplit := (split hlen).trans (encode_fields m)
  obtain ⟨hv, hsplit⟩ := List.append_inj hsplit (length_slice (by rw [hlen]; decide))
  obtain ⟨hsid, hsplit⟩ := slice_field hsplit (by rw [hlen]; decide)
  obtain ⟨hct, hmac⟩ := slice_field hsplit (by rw [hlen]; decide)
  exact decode_of_fields ⟨hlen, hm, hsid.symm, hct.symm, hmac.symm⟩
    ((getD_of_slice hv).trans hm)

theorem codecExact : Exact encode decode ClientConfirm.version Accepts where
  accepted b := by
    constructor
    · rintro ⟨m, hm⟩
      exact accepts_of_decode hm
    · rintro ⟨hlen, hv, ct, hct⟩
      refine ⟨_, decode_of_fields (m := ⟨protocolVersion, sliceOctets b 1 sessionIdLen ?_, ct,
        sliceOctets b (m3BodyLen - finishedMacLen) finishedMacLen ?_⟩)
        ⟨hlen, rfl, rfl, mlKemCiphertextFromBytes_ok hct, rfl⟩ hv⟩ <;> rw [hlen] <;> decide
  decode_encode m hm := decode_encode hm
  encode_decode b m hm := by
    have hd := decode_ok hm
    obtain ⟨hlen, hv, -⟩ := accepts_of_decode hm
    rw [encode_fields, hd.version, ← hv, ← slice_head (by rw [hlen]; decide), hd.sid, hd.ct3,
      hd.clientFinished]
    exact split hlen

end ClientConfirm

/-- The three codecs are exact, so both sides hash the same transcripts: the client from its
re-encoded M1 and the bytes it received, the server from the bytes it received and its own M2. -/
theorem messages_exact (hinv : EncodingsInverse P) :
    Exact (ClientHello.encode P) (ClientHello.decode P) ClientHello.version
        (ClientHello.Accepts P) ∧
      Exact (ServerHello.encode P) (ServerHello.decode P) ServerHello.version
        (ServerHello.Accepts P) ∧
      Exact ClientConfirm.encode ClientConfirm.decode ClientConfirm.version
        ClientConfirm.Accepts ∧
      ∀ (b1 b2 b3 : Bytes) (m1 : ClientHello T) (m2 : ServerHello T) (m3 : ClientConfirm),
        ClientHello.decode P b1 = .ok m1 → ServerHello.decode P b2 = .ok m2 →
        ClientConfirm.decode b3 = .ok m3 →
        th2FromM1M2 P (m1.encode P) b2 =
            th2FromM1M2 P b1 (encodeM2 P m2.version m2.sid m2.ephPkS m2.xS m2.ct2 none) ∧
          th3FromM1M2M3 P (m1.encode P) b2 (encodeM3 m3.version m3.sid m3.ct3 none) =
            th3FromM1M2M3 P b1 (m2.encode P) b3 := by
  refine ⟨ClientHello.codecExact hinv, ServerHello.codecExact hinv, ClientConfirm.codecExact, ?_⟩
  intro b1 b2 b3 m1 m2 m3 h1 h2 h3
  have hlen1 := (ClientHello.decode_ok h1).len
  have hb1 := (ClientHello.codecExact hinv).encode_decode b1 m1 h1
  have hb2 := (ServerHello.codecExact hinv).encode_decode b2 m2 h2
  have hb3 := ClientConfirm.codecExact.encode_decode b3 m3 h3
  subst hb2 hb3
  simp only [ServerHello.encode, ClientConfirm.encode]
  rw [hb1, th2FromM1M2_eq hlen1 (length_encodeM2 ..), th2FromM1M2_eq hlen1 (length_encodeM2 ..),
    th3FromM1M2M3_eq hlen1 (length_encodeM2 ..) (length_encodeM3 ..),
    th3FromM1M2M3_eq hlen1 (length_encodeM2 ..) (length_encodeM3 ..)]
  simp only [th2Input, th3Input, m2Zero_encodeM2, m3Zero_encodeM3, and_self]

theorem messages_exact_sample : EncodingsInverse Sample.primitives ∧
    Exact (ServerHello.encode Sample.primitives) (ServerHello.decode Sample.primitives)
      ServerHello.version (ServerHello.Accepts Sample.primitives) := by
  have hinv : EncodingsInverse Sample.primitives := by
    refine ⟨Sample.kemPkNew_kemPkToBytes, fun b pk h => ?_, fun _ => rfl, fun b s h => ?_⟩
    · simp only [Sample.primitives] at h ⊢
      split at h
      · rename_i hb
        rw [← Except.ok.inj h]
        exact hb
      · cases h
    · exact (Option.some.inj h).symm
  exact ⟨hinv, (messages_exact hinv).2.1⟩

section Stages

/-- What is hashed at one stage of the handshake. -/
inductive Stage where
  | th1 (m1 : Bytes)
  | th2 (m1 m2 : Bytes)
  | th3 (m1 m2 m3 : Bytes)

namespace Stage

def Sized : Stage → Prop
  | th1 m1 => m1.length = m1BodyLen
  | th2 m1 m2 => m1.length = m1BodyLen ∧ m2.length = m2BodyLen
  | th3 m1 m2 m3 => m1.length = m1BodyLen ∧ m2.length = m2BodyLen ∧ m3.length = m3BodyLen

def digest (P : Primitives T) : Stage → Option Secret
  | th1 m1 => th1FromM1 P m1
  | th2 m1 m2 => th2FromM1M2 P m1 m2
  | th3 m1 m2 m3 => th3FromM1M2M3 P m1 m2 m3

def hashed : Stage → Bytes
  | th1 m1 => th1Input m1
  | th2 m1 m2 => th2Input m1 m2
  | th3 m1 m2 m3 => th3Input m1 m2 m3

/-- The messages without the slots that the stage leaves out. -/
def covered : Stage → Stage
  | th1 m1 => th1 (m1.take (m1BodyLen - mlDsaSignatureBytes))
  | th2 m1 m2 => th2 m1 (m2.take (m2BodyLen - mlDsaSignatureBytes))
  | th3 m1 m2 m3 => th3 (m1.take (m1BodyLen - mlDsaSignatureBytes))
      (m2.take (m2BodyLen - mlDsaSignatureBytes)) (m3.take (m3BodyLen - finishedMacLen))

theorem digest_eq {t : Stage} (h : t.Sized) : t.digest P = some (P.sha256 t.hashed) := by
  cases t with
  | th1 m1 => exact th1FromM1_eq h
  | th2 m1 m2 => exact th2FromM1M2_eq h.1 h.2
  | th3 m1 m2 m3 => exact th3FromM1M2M3_eq h.1 h.2.1 h.2.2

theorem zeroSlot_eq_iff {slot len : ℕ} {m m' : Bytes} (h : m.length = len) (h' : m'.length = len) :
    zeroSlot slot m = zeroSlot slot m' ↔ m.take (len - slot) = m'.take (len - slot) := by
  rw [zeroSlot, zeroSlot, h, h']
  exact List.append_left_inj _

/-- The three stages hash strings of three different lengths. -/
def size : Stage → ℕ
  | th1 _ => m1BodyLen
  | th2 _ _ => m1BodyLen + m2BodyLen
  | th3 _ _ _ => m1BodyLen + (m2BodyLen + m3BodyLen)

theorem length_hashed {t : Stage} (h : t.Sized) :
    t.hashed.length = handshakeDomain.length + t.size := by
  cases t with
  | th1 m1 => rw [hashed, th1Input, List.length_append, length_m1Zero h, size]
  | th2 m1 m2 =>
    rw [hashed, th2Input, List.length_append, List.length_append, h.1, length_m2Zero h.2, size]
  | th3 m1 m2 m3 =>
    have h3 : (m3Zero m3).length = m3BodyLen := by
      rw [m3Zero, length_zeroSlot (by rw [h.2.2]; decide), h.2.2]
    rw [hashed, th3Input, List.length_append, List.length_append, List.length_append,
      length_m1Zero h.1, length_m2Zero h.2.1, h3, size]

theorem hashed_eq_iff {t t' : Stage} (h : t.Sized) (h' : t'.Sized) :
    t.hashed = t'.hashed ↔ t.covered = t'.covered := by
  have hlen := length_hashed h
  have hlen' := length_hashed h'
  cases t <;> cases t'
  case th1.th1 m1 n1 =>
    simp only [hashed, covered, th1Input, List.append_cancel_left_eq, m1Zero,
      zeroSlot_eq_iff h h', th1.injEq]
  case th2.th2 m1 m2 n1 n2 =>
    simp only [hashed, covered, th2.injEq, ← zeroSlot_eq_iff h.2 h'.2]
    constructor
    · exact th2Input_inj h.1 h'.1
    · rintro ⟨rfl, hm2⟩
      rw [th2Input, th2Input, m2Zero, m2Zero, hm2]
  case th3.th3 m1 m2 m3 n1 n2 n3 =>
    simp only [hashed, covered, th3.injEq, ← zeroSlot_eq_iff h.1 h'.1,
      ← zeroSlot_eq_iff h.2.1 h'.2.1, ← zeroSlot_eq_iff h.2.2 h'.2.2]
    constructor
    · exact th3Input_inj h.1 h'.1 h.2.1 h'.2.1
    · rintro ⟨hm1, hm2, hm3⟩
      simp only [th3Input, m1Zero, m2Zero, m3Zero, hm1, hm2, hm3]
  all_goals
    refine ⟨fun heq => ?_, fun heq => by cases heq⟩
    rw [heq, hlen'] at hlen
    simp [size] at hlen

end Stage

/-- What is hashed determines the stage and exactly the covered bytes of its messages; without a
collision so does the digest that is signed. -/
theorem transcripts_separated (P : Primitives T) {t t' : Stage} (h : t.Sized) (h' : t'.Sized) :
    t.digest P = some (P.sha256 t.hashed) ∧ (t.hashed = t'.hashed ↔ t.covered = t'.covered) ∧
      (Set.InjOn P.sha256 {t.hashed, t'.hashed} →
        (t.digest P = t'.digest P ↔ t.covered = t'.covered)) := by
  refine ⟨Stage.digest_eq h, Stage.hashed_eq_iff h h', fun hinj => ?_⟩
  rw [Stage.digest_eq h, Stage.digest_eq h', ← Stage.hashed_eq_iff h h', Option.some.injEq]
  exact hinj.eq_iff (Set.mem_insert ..) (Set.mem_insert_of_mem _ rfl)

theorem transcripts_separated_zeros :
    (Stage.th1 (zeros m1BodyLen)).hashed ≠
      (Stage.th2 (zeros m1BodyLen) (zeros m2BodyLen)).hashed := by
  have h1 : (Stage.th1 (zeros m1BodyLen)).Sized := length_zeros _
  have h2 : (Stage.th2 (zeros m1BodyLen) (zeros m2BodyLen)).Sized :=
    ⟨length_zeros _, length_zeros _⟩
  intro heq
  cases (transcripts_separated Sample.primitives h1 h2).2.1.mp heq

end Stages

end PqTunnel
