import PqTunnel.Foundation.ByteString
import PqTunnel.Codec.Error

/-! The fixed-size packet framing: cleartext header, inner plaintext and the
1280-byte on-wire container, with their strict decoders. -/
namespace PqTunnel
open ByteString

def protocolVersion : UInt8 := 2

abbrev versionLen : ℕ := 1
abbrev packetSize : ℕ := 1280
abbrev sessionIdLen : ℕ := 8
abbrev packetNonceLen : ℕ := 8
abbrev aeadTagLen : ℕ := 16
abbrev aeadNonceLen : ℕ := 12

/-- `u64::MAX - (1 << 32)`. -/
def maxPacketNonce : UInt64 := 0xFFFFFFFFFFFFFFFF - 0x100000000

def isCounterExhausted (counter : UInt64) : Bool := decide (maxPacketNonce ≤ counter)

abbrev headerLen : ℕ := versionLen + sessionIdLen + packetNonceLen
abbrev innerPlaintextLen : ℕ := packetSize - headerLen - aeadTagLen
abbrev payloadLen : ℕ := innerPlaintextLen - 2

abbrev SessionId := Octets sessionIdLen

instance : LawfulBEq SessionId := inferInstance

abbrev Payload := Octets payloadLen

inductive MessageType where
  | handshake
  | data
  | cover
  | close
  | tunData
  deriving DecidableEq, Repr

namespace MessageType

def asU8 : MessageType → UInt8
  | .handshake => 0x00
  | .data => 0x01
  | .cover => 0x02
  | .close => 0x03
  | .tunData => 0x04

def fromU8 (v : UInt8) : Except CodecError MessageType :=
  if v = 0x00 then .ok .handshake
  else if v = 0x01 then .ok .data
  else if v = 0x02 then .ok .cover
  else if v = 0x03 then .ok .close
  else if v = 0x04 then .ok .tunData
  else .error (.invalidMessageType v)

@[simp] theorem fromU8_asU8 (t : MessageType) : fromU8 t.asU8 = .ok t := by
  cases t <;> rfl

end MessageType

inductive Direction where
  | clientToServer
  | serverToClient
  deriving DecidableEq, Repr

namespace Direction

def asU8 : Direction → UInt8
  | .clientToServer => 0x00
  | .serverToClient => 0x01

def fromU8 (v : UInt8) : Except CodecError Direction :=
  if v = 0x00 then .ok .clientToServer
  else if v = 0x01 then .ok .serverToClient
  else .error (.invalidDirection v)

@[simp] theorem fromU8_asU8 (d : Direction) : fromU8 d.asU8 = .ok d := by
  cases d <;> rfl

end Direction

structure PacketHeader where
  version : UInt8
  sessionId : SessionId
  packetNonce : UInt64
  deriving DecidableEq

namespace PacketHeader

def new (sessionId : SessionId) (packetNonce : UInt64) : PacketHeader where
  version := protocolVersion
  sessionId := sessionId
  packetNonce := packetNonce

def encode (h : PacketHeader) : Octets headerLen :=
  ⟨h.version :: (h.sessionId.toList ++ toBeBytes h.packetNonce), by
    simp only [List.length_cons, List.length_append, List.Vector.toList_length, length_toBeBytes]
    rfl⟩

def sidAt (data : List UInt8) (h : headerLen ≤ data.length) : SessionId :=
  ⟨slice data versionLen sessionIdLen, length_slice (le_trans (by decide) h)⟩

def decode (data : List UInt8) : Except CodecError PacketHeader :=
  if h : data.length < headerLen then .error (.truncated "PacketHeader" headerLen data.length)
  else
    let version := data.getD 0 0
    if version ≠ protocolVersion then .error (.invalidVersion protocolVersion version)
    else
      .ok { version := version
            sessionId := sidAt data (not_lt.mp h)
            packetNonce :=
              fromBeBytes (slice data (versionLen + sessionIdLen) packetNonceLen) }

theorem decode_encode {h : PacketHeader} (hv : h.version = protocolVersion) :
    decode h.encode.toList = .ok h := by
  have hlen : ¬ h.encode.toList.length < headerLen := by simp
  have hsid : slice h.encode.toList versionLen sessionIdLen = h.sessionId.toList :=
    slice_append_mid [h.version] h.sessionId.toList (toBeBytes h.packetNonce) rfl (by simp)
  have hnonce : slice h.encode.toList (versionLen + sessionIdLen) packetNonceLen =
      toBeBytes h.packetNonce :=
    slice_append_last (h.version :: h.sessionId.toList) _
      (by rw [List.length_cons, List.Vector.toList_length]; rfl) (by simp)
  have hver : h.encode.toList.getD 0 0 = h.version := rfl
  simp only [decode, hlen, dite_false, hver, hv, ne_eq, not_true_eq_false, if_false, hnonce,
    fromBeBytes_toBeBytes]
  have hsid' : sidAt h.encode.toList (not_lt.mp hlen) = h.sessionId :=
    List.Vector.toList_injective hsid
  rw [hsid', ← hv]

end PacketHeader

structure InnerPlaintext where
  msgType : MessageType
  direction : Direction
  payload : Payload
  deriving DecidableEq

namespace InnerPlaintext

def new (msgType : MessageType) (direction : Direction) (payload : List UInt8) :
    Except CodecError InnerPlaintext :=
  if h : payload.length ≠ payloadLen then
    .error (.wrongLength "payload" payloadLen payload.length)
  else .ok ⟨msgType, direction, ⟨payload, not_not.mp h⟩⟩

def encode (p : InnerPlaintext) : Octets innerPlaintextLen :=
  ⟨p.msgType.asU8 :: p.direction.asU8 :: p.payload.toList, by
    rw [List.length_cons, List.length_cons, List.Vector.toList_length]
    rfl⟩

def payloadAt (data : List UInt8) (h : data.length = innerPlaintextLen) : Payload :=
  ⟨slice data 2 payloadLen, length_slice (le_of_le_of_eq (by decide) h.symm)⟩

def decode (data : List UInt8) : Except CodecError InnerPlaintext :=
  if h : data.length ≠ innerPlaintextLen then
    .error (.truncated "InnerPlaintext" innerPlaintextLen data.length)
  else
    match MessageType.fromU8 (data.getD 0 0) with
    | .error e => .error e
    | .ok msgType =>
      match Direction.fromU8 (data.getD 1 0) with
      | .error e => .error e
      | .ok direction =>
        .ok ⟨msgType, direction, payloadAt data (not_not.mp h)⟩

@[simp] theorem decode_encode (p : InnerPlaintext) : decode p.encode.toList = .ok p := by
  have hlen : ¬ p.encode.toList.length ≠ innerPlaintextLen := by simp
  have hpay : slice p.encode.toList 2 payloadLen = p.payload.toList :=
    slice_append_last [p.msgType.asU8, p.direction.asU8] _ rfl (by simp)
  have h0 : p.encode.toList.getD 0 0 = p.msgType.asU8 := rfl
  have h1 : p.encode.toList.getD 1 0 = p.direction.asU8 := rfl
  simp only [decode, hlen, dite_false, h0, h1, MessageType.fromU8_asU8, Direction.fromU8_asU8]
  have hpay' : payloadAt p.encode.toList (not_not.mp hlen) = p.payload :=
    List.Vector.toList_injective hpay
  rw [hpay']

end InnerPlaintext

/-- A datagram: always exactly `packetSize` bytes. -/
abbrev WirePacket := Octets packetSize

namespace WirePacket

def fromBytes (data : List UInt8) : Except CodecError WirePacket :=
  if h : data.length ≠ packetSize then
    .error (.truncated "WirePacket" packetSize data.length)
  else .ok ⟨data, not_not.mp h⟩

def byteAt (pkt : WirePacket) (i : ℕ) : UInt8 := pkt.toList.getD i 0

def headerBytes (pkt : WirePacket) : Octets headerLen :=
  ⟨pkt.toList.take headerLen, by
    rw [List.length_take, List.Vector.toList_length]
    rfl⟩

def parseHeader (pkt : WirePacket) : Except CodecError PacketHeader :=
  PacketHeader.decode pkt.headerBytes.toList

def aeadRegion (pkt : WirePacket) : List UInt8 := pkt.toList.drop headerLen

def sid (pkt : WirePacket) : SessionId := 
  PacketHeader.sidAt pkt.toList (by rw [List.Vector.toList_length]; decide)

def fromParts (header : Octets headerLen) (aeadRegion : List UInt8) :
    Except CodecError WirePacket :=
  if header.toList.getD 0 0 ≠ protocolVersion then
    .error (.invalidVersion protocolVersion (header.toList.getD 0 0))
  else if h : aeadRegion.length ≠ packetSize - headerLen then
    .error (.truncated "aead_region" (packetSize - headerLen) aeadRegion.length)
  else .ok ⟨header.toList ++ aeadRegion, by
    rw [List.length_append, List.Vector.toList_length, not_not.mp h]
    rfl⟩

theorem ext_parts {p q : WirePacket} (hh : p.headerBytes = q.headerBytes)
    (ha : p.aeadRegion = q.aeadRegion) : p = q := by
  apply List.Vector.toList_injective
  rw [← List.take_append_drop headerLen p.toList, ← List.take_append_drop headerLen q.toList]
  exact congrArg₂ (· ++ ·) (congrArg List.Vector.toList hh) ha

end WirePacket
end PqTunnel
