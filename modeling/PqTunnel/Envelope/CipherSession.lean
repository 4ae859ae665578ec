import PqTunnel.Codec.Packet
import PqTunnel.Crypto.Sample
import PqTunnel.Replay.Window

/-! The AEAD packet envelope: per-session keys, the send counter and the replay window. -/
namespace PqTunnel
open Kdf

inductive Role where
  | client
  | server
  deriving DecidableEq, Repr

namespace Role

def sendDirection : Role → Direction
  | .client => .clientToServer
  | .server => .serverToClient

def recvDirection : Role → Direction
  | .client => .serverToClient
  | .server => .clientToServer

def peer : Role → Role
  | .client => .server
  | .server => .client

@[simp] theorem peer_ne (r : Role) : r.peer ≠ r := by cases r <;> decide

@[simp] theorem sendDirection_peer (r : Role) : r.peer.sendDirection = r.recvDirection := by
  cases r <;> rfl

end Role

structure CipherSession where
  role : Role
  sessionId : SessionId
  keyC2s : Secret
  keyS2c : Secret
  prefixC2s : Octets 4
  prefixS2c : Octets 4
  sendCounter : UInt64
  replay : ReplayWindow

namespace CipherSession
variable {T : CryptoTypes} (P : Primitives T)

def new (role : Role) (master : MasterSecret) (sessionId : SessionId) :
    Except CodecError CipherSession :=
  match deriveClientToServerKey P master sessionId.toList with
  | .error e => .error (.crypto e)
  | .ok keyC2s =>
    match deriveServerToClientKey P master sessionId.toList with
    | .error e => .error (.crypto e)
    | .ok keyS2c =>
      match deriveNoncePrefixC2s P master sessionId.toList with
      | .error e => .error (.crypto e)
      | .ok prefixC2s =>
        match deriveNoncePrefixS2c P master sessionId.toList with
        | .error e => .error (.crypto e)
        | .ok prefixS2c =>
          .ok { role, sessionId, keyC2s, keyS2c, prefixC2s, prefixS2c
                sendCounter := 0
                replay := ReplayWindow.new }

def recvHighest (s : CipherSession) : Option UInt64 := s.replay.highest

def sendKey (s : CipherSession) : Secret :=
  match s.role with
  | .client => s.keyC2s
  | .server => s.keyS2c

def sendPrefix (s : CipherSession) : Octets 4 :=
  match s.role with
  | .client => s.prefixC2s
  | .server => s.prefixS2c

def recvKey (s : CipherSession) : Secret :=
  match s.role with
  | .client => s.keyS2c
  | .server => s.keyC2s

def recvPrefix (s : CipherSession) : Octets 4 :=
  match s.role with
  | .client => s.prefixS2c
  | .server => s.prefixC2s

def nextHeader (s : CipherSession) : PacketHeader :=
  PacketHeader.new s.sessionId s.sendCounter

def nextNonce (s : CipherSession) : Octets 12 := buildSessionNonce s.sendPrefix s.sendCounter

def sealPacket (s : CipherSession) (msgType : MessageType) (payload : Bytes) :
    Except CodecError WirePacket :=
  if payload.length ≠ payloadLen then
    .error (.wrongLength "payload" payloadLen payload.length)
  else if isCounterExhausted s.sendCounter then .error (.nonceExhausted s.sendCounter)
  else
    match InnerPlaintext.new msgType s.role.sendDirection payload with
    | .error e => .error e
    | .ok inner =>
      let aad := s.nextHeader.encode
      match P.aeadEncrypt s.sendKey s.nextNonce inner.encode.toList aad.toList with
      | .error e => .error (.crypto e)
      | .ok ciphertext => WirePacket.fromParts aad ciphertext

def checkedSucc (c : UInt64) : Option UInt64 :=
  if c = 0xFFFFFFFFFFFFFFFF then none else some (c + 1)

def encrypt (s : CipherSession) (msgType : MessageType) (payload : Bytes) :
    Except CodecError WirePacket × CipherSession :=
  match s.sealPacket P msgType payload with
  | .error e => (.error e, s)
  | .ok packet =>
    match checkedSucc s.sendCounter with
    | none => (.error (.nonceExhausted s.sendCounter), s)
    | some next => (.ok packet, { s with sendCounter := next })

/-- What `decrypt` does once the AEAD has verified: exhaustion, replay, framing and
direction, in this order. -/
def afterOpen (s : CipherSession) (counter : UInt64) (plaintext : Bytes) :
    Except CodecError InnerPlaintext × CipherSession :=
  if isCounterExhausted counter then (.error (.nonceExhausted counter), s)
  else
    match s.replay.accept counter with
    | (.error _, w) => (.error .rejected, { s with replay := w })
    | (.ok (), w) =>
      let s := { s with replay := w }
      if plaintext.length ≠ innerPlaintextLen then (.error .rejected, s)
      else
        match InnerPlaintext.decode plaintext with
        | .error _ => (.error .rejected, s)
        | .ok inner =>
          if inner.direction ≠ s.role.recvDirection then (.error .rejected, s)
          else (.ok inner, s)

def openPacket (s : CipherSession) (packet : WirePacket) (counter : UInt64) :
    Except CryptoError Bytes :=
  P.aeadDecrypt s.recvKey (buildSessionNonce s.recvPrefix counter) packet.aeadRegion
    packet.headerBytes.toList

def decrypt (s : CipherSession) (packet : WirePacket) :
    Except CodecError InnerPlaintext × CipherSession :=
  match packet.parseHeader with
  | .error _ => (.error .rejected, s)
  | .ok header =>
    match s.openPacket P packet header.packetNonce with
    | .error _ => (.error .decryptionFailed, s)
    | .ok plaintext => s.afterOpen header.packetNonce plaintext

variable {P}

theorem new_ok {role : Role} {master : MasterSecret} {sid : SessionId} {s : CipherSession}
    (h : new P role master sid = .ok s) :
    ∃ kc ks pc ps, deriveClientToServerKey P master sid.toList = .ok kc ∧
      deriveServerToClientKey P master sid.toList = .ok ks ∧
      deriveNoncePrefixC2s P master sid.toList = .ok pc ∧
      deriveNoncePrefixS2c P master sid.toList = .ok ps ∧
      s = { role, sessionId := sid, keyC2s := kc, keyS2c := ks, prefixC2s := pc,
            prefixS2c := ps, sendCounter := 0, replay := ReplayWindow.new } := by
  unfold new at h
  split at h
  · cases h
  · split at h
    · cases h
    · split at h
      · cases h
      · split at h
        · cases h
        · rename_i kc hkc _ ks hks _ pc hpc _ ps hps
          exact ⟨kc, ks, pc, ps, hkc, hks, hpc, hps, (Except.ok.inj h).symm⟩

theorem new_total (h : HkdfTotal P) (role : Role) (master : MasterSecret) (sid : SessionId) :
    ∃ s, new P role master sid = .ok s := by
  obtain ⟨kc, hkc⟩ : ∃ k, deriveClientToServerKey P master sid.toList = .ok k :=
    h.derives (by decide) ..
  obtain ⟨ks, hks⟩ : ∃ k, deriveServerToClientKey P master sid.toList = .ok k :=
    h.derives (by decide) ..
  obtain ⟨pc, hpc⟩ : ∃ k, deriveNoncePrefixC2s P master sid.toList = .ok k :=
    h.derives (by decide) ..
  obtain ⟨ps, hps⟩ : ∃ k, deriveNoncePrefixS2c P master sid.toList = .ok k :=
    h.derives (by decide) ..
  simp only [new, hkc, hks, hpc, hps]
  exact ⟨_, rfl⟩

theorem not_exhausted_iff {c : UInt64} :
    isCounterExhausted c = false ↔ c < maxPacketNonce := by
  simp [isCounterExhausted]

theorem lt_max_of_not_exhausted {c : UInt64} (h : isCounterExhausted c = false) :
    c.toNat + 1 < 2 ^ 64 := by
  have hlt := UInt64.lt_iff_toNat_lt.mp (not_exhausted_iff.mp h)
  have hmax : maxPacketNonce.toNat = 18446744069414584319 := by decide
  omega

/-- Below the rotation threshold the counter always advances by exactly one. -/
theorem checkedSucc_of_not_exhausted {c : UInt64} (h : isCounterExhausted c = false) :
    checkedSucc c = some (c + 1) ∧ (c + 1).toNat = c.toNat + 1 := by
  have hlt := lt_max_of_not_exhausted h
  have hne : c ≠ 0xFFFFFFFFFFFFFFFF := by
    rintro rfl
    exact absurd hlt (by decide)
  refine ⟨if_neg hne, ?_⟩
  rw [UInt64.toNat_add]
  exact Nat.mod_eq_of_lt hlt

/-- The packet is the sealing of this message under the session's current counter. -/
structure Sealed (P : Primitives T) (s : CipherSession) (msgType : MessageType)
    (payload : Payload) (packet : WirePacket) : Prop where
  fresh : isCounterExhausted s.sendCounter = false
  header : packet.headerBytes = s.nextHeader.encode
  region : P.aeadSeal s.sendKey s.nextNonce
    (InnerPlaintext.encode ⟨msgType, s.role.sendDirection, payload⟩).toList
    s.nextHeader.encode.toList = .ok packet.aeadRegion

theorem fromParts_ok {header : Octets headerLen} {region : Bytes} {packet : WirePacket}
    (h : WirePacket.fromParts header region = .ok packet) :
    packet.headerBytes = header ∧ packet.aeadRegion = region := by
  unfold WirePacket.fromParts at h
  split at h
  · cases h
  · split at h
    · cases h
    · obtain rfl := Except.ok.inj h
      have hlen : header.toList.length = headerLen := header.toList_length
      refine ⟨List.Vector.toList_injective ?_, ?_⟩
      · exact List.take_left' hlen
      · exact List.drop_left' hlen

variable {s : CipherSession}

theorem sealPacket_ok {msgType : MessageType} {payload : Bytes} {packet : WirePacket}
    (h : s.sealPacket P msgType payload = .ok packet) :
    ∃ slot : Payload, slot.toList = payload ∧ Sealed P s msgType slot packet := by
  unfold sealPacket at h
  split at h
  · cases h
  · rename_i hlen
    split at h
    · cases h
    · rename_i hfresh
      simp only [InnerPlaintext.new, hlen, dite_false] at h
      split at h
      · cases h
      · rename_i ct hct
        obtain ⟨hhead, hregion⟩ := fromParts_ok h
        refine ⟨⟨payload, not_not.mp hlen⟩, rfl, Bool.eq_false_iff.mpr hfresh, hhead, ?_⟩
        rw [hregion]
        exact P.aeadEncrypt_ok_iff.mp hct

/-- A successful call seals one message and moves the counter on; a failed one changes
nothing. -/
theorem encrypt_cases (s : CipherSession) (msgType : MessageType) (payload : Bytes) :
    (∃ packet slot, s.encrypt P msgType payload =
        (.ok packet, { s with sendCounter := s.sendCounter + 1 }) ∧
        slot.toList = payload ∧ Sealed P s msgType slot packet) ∨
      ∃ e, s.encrypt P msgType payload = (.error e, s) := by
  unfold encrypt
  cases h : s.sealPacket P msgType payload with
  | error e => exact Or.inr ⟨e, rfl⟩
  | ok packet =>
    obtain ⟨slot, hslot, hsealed⟩ := sealPacket_ok h
    rw [(checkedSucc_of_not_exhausted hsealed.fresh).1]
    exact Or.inl ⟨packet, slot, rfl, hslot, hsealed⟩

/-- Encryption never fails on an inner plaintext and appends a 16-byte tag. -/
def AeadTotal (P : Primitives T) : Prop :=
  ∀ key nonce plaintext aad, plaintext.length = innerPlaintextLen →
    ∃ ct, P.aeadSeal key nonce plaintext aad = .ok ct ∧ ct.length = plaintext.length + aeadTagLen

/-- With a total AEAD only the payload length and the counter can make a call fail. -/
theorem encrypt_succeeds (hP : AeadTotal P) (msgType : MessageType) {payload : Bytes}
    (hlen : payload.length = payloadLen) (hfresh : isCounterExhausted s.sendCounter = false) :
    ∃ packet, s.encrypt P msgType payload =
      (.ok packet, { s with sendCounter := s.sendCounter + 1 }) := by
  have hinner : InnerPlaintext.new msgType s.role.sendDirection payload =
      .ok ⟨msgType, s.role.sendDirection, ⟨payload, hlen⟩⟩ := dif_neg (not_not_intro hlen)
  obtain ⟨ct, hct, hctlen⟩ := hP s.sendKey s.nextNonce
    (InnerPlaintext.encode ⟨msgType, s.role.sendDirection, ⟨payload, hlen⟩⟩).toList
    s.nextHeader.encode.toList (List.Vector.toList_length _)
  have hregion : ct.length = packetSize - headerLen := by
    rw [hctlen, List.Vector.toList_length]
    rfl
  have hparts : ∃ packet, WirePacket.fromParts s.nextHeader.encode ct = .ok packet := by
    have hver : ¬ s.nextHeader.encode.toList.getD 0 0 ≠ protocolVersion := not_not_intro rfl
    rw [WirePacket.fromParts, if_neg hver, dif_neg (not_not_intro hregion)]
    exact ⟨_, rfl⟩
  obtain ⟨packet, hpacket⟩ := hparts
  refine ⟨packet, ?_⟩
  simp only [encrypt, sealPacket, hlen, ne_eq, not_true_eq_false, if_false, hfresh,
    Bool.false_eq_true, hinner, P.aeadEncrypt_ok_iff.mpr hct, hpacket,
    (checkedSucc_of_not_exhausted hfresh).1]

variable {packet : WirePacket}

theorem Sealed.parseHeader {msgType : MessageType} {slot : Payload}
    (h : Sealed P s msgType slot packet) : packet.parseHeader = .ok s.nextHeader := by
  rw [WirePacket.parseHeader, h.header]
  exact PacketHeader.decode_encode rfl

theorem decrypt_bad_header {e : CodecError}
    (hh : packet.parseHeader = .error e) : s.decrypt P packet = (.error .rejected, s) := by
  simp only [decrypt, hh]

theorem decrypt_unopened {header : PacketHeader} {e : CryptoError}
    (hh : packet.parseHeader = .ok header)
    (ho : s.openPacket P packet header.packetNonce = .error e) :
    s.decrypt P packet = (.error .decryptionFailed, s) := by
  simp only [decrypt, hh, ho]

theorem decrypt_opened {header : PacketHeader} {plaintext : Bytes}
    (hh : packet.parseHeader = .ok header)
    (ho : s.openPacket P packet header.packetNonce = .ok plaintext) :
    s.decrypt P packet = s.afterOpen header.packetNonce plaintext := by
  simp only [decrypt, hh, ho]

/-- What follows the AEAD touches nothing but the replay window. -/
theorem afterOpen_frame (s : CipherSession) (counter : UInt64) (plaintext : Bytes) :
    ∃ w, (s.afterOpen counter plaintext).2 = { s with replay := w } := by
  unfold afterOpen
  split
  · exact ⟨s.replay, rfl⟩
  · split
    · exact ⟨_, rfl⟩
    · dsimp only
      split
      · exact ⟨_, rfl⟩
      · split
        · exact ⟨_, rfl⟩
        · split <;> exact ⟨_, rfl⟩

theorem decrypt_frame (s : CipherSession) (packet : WirePacket) :
    ∃ w, (s.decrypt P packet).2 = { s with replay := w } := by
  unfold decrypt
  split
  · exact ⟨s.replay, rfl⟩
  · split
    · exact ⟨s.replay, rfl⟩
    · exact s.afterOpen_frame ..

theorem afterOpen_ok {counter : UInt64} {plaintext : Bytes} {inner : InnerPlaintext}
    (h : (s.afterOpen counter plaintext).1 = .ok inner) :
    (∃ w, s.replay.accept counter = (.ok (), w)) ∧ InnerPlaintext.decode plaintext = .ok inner := by
  unfold afterOpen at h
  split at h
  · cases h
  · split at h
    · cases h
    · rename_i w hw
      dsimp only at h
      split at h
      · cases h
      · split at h
        · cases h
        · rename_i inner' hd
          split at h
          · cases h
          · cases h
            exact ⟨⟨w, hw⟩, hd⟩

/-- A packet that decrypts is authentic, and its counter is new to the replay window. -/
theorem decrypt_ok {inner : InnerPlaintext} (h : (s.decrypt P packet).1 = .ok inner) :
    ∃ header plaintext w, packet.parseHeader = .ok header ∧
      s.openPacket P packet header.packetNonce = .ok plaintext ∧
      s.replay.accept header.packetNonce = (.ok (), w) ∧
      InnerPlaintext.decode plaintext = .ok inner := by
  unfold decrypt at h
  split at h
  · cases h
  · rename_i header hh
    split at h
    · cases h
    · rename_i plaintext ho
      obtain ⟨⟨w, hw⟩, hd⟩ := afterOpen_ok h
      exact ⟨header, plaintext, w, hh, ho, hw, hd⟩

theorem sample_aeadTotal : AeadTotal Sample.primitives :=
  fun key nonce plaintext aad _ => Sample.aeadSeal_total key nonce plaintext aad

end CipherSession
end PqTunnel
