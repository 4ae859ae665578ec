import PqTunnel.Codec.Packet
import PqTunnel.Crypto.Primitives

/-! Fragmentation of the handshake messages over fixed-size datagrams. -/
namespace PqTunnel
open ByteString

def hsTypeClientHello : UInt8 := 0x10
def hsTypeServerHello : UInt8 := 0x20
def hsTypeClientConfirm : UInt8 := 0x30

abbrev hsFragHeaderLen : ℕ := versionLen + sessionIdLen + 3
abbrev hsFragBodyMax : ℕ := packetSize - hsFragHeaderLen
abbrev finishedMacLen : ℕ := 16

abbrev m1BodyLen : ℕ :=
  versionLen + sessionIdLen + mlKemPublicKeyBytes + x25519PublicKeyBytes + mlDsaSignatureBytes
abbrev m2BodyLen : ℕ :=
  versionLen + sessionIdLen + mlKemPublicKeyBytes + x25519PublicKeyBytes +
    mlKemCiphertextBytes + mlDsaSignatureBytes
abbrev m3BodyLen : ℕ := versionLen + sessionIdLen + mlKemCiphertextBytes + finishedMacLen

def m1FragCount : UInt8 := 4
def m2FragCount : UInt8 := 5
def m3FragCount : UInt8 := 1

def expectedFragCount (hsType : UInt8) : Option UInt8 :=
  if hsType = hsTypeClientHello then some m1FragCount
  else if hsType = hsTypeServerHello then some m2FragCount
  else if hsType = hsTypeClientConfirm then some m3FragCount
  else none

def messageBodyLen (hsType : UInt8) : Option ℕ :=
  if hsType = hsTypeClientHello then some m1BodyLen
  else if hsType = hsTypeServerHello then some m2BodyLen
  else if hsType = hsTypeClientConfirm then some m3BodyLen
  else none

/-- The byte at which a data packet carries the top byte of its counter. -/
def hsTypeOf (pkt : WirePacket) : UInt8 := pkt.byteAt (versionLen + sessionIdLen)

def isHandshakeFragment (pkt : WirePacket) : Bool :=
  decide (hsTypeOf pkt = hsTypeClientHello ∨ hsTypeOf pkt = hsTypeServerHello ∨
    hsTypeOf pkt = hsTypeClientConfirm)

structure HandshakeFragment where
  version : UInt8
  sid : SessionId
  hsType : UInt8
  fragIdx : UInt8
  fragTotal : UInt8
  body : Bytes
  deriving DecidableEq

/-- Length of the body carried by fragment `idx` of a message of `msgLen` bytes. -/
def fragBodyLen (msgLen idx : ℕ) : ℕ := min (msgLen - idx * hsFragBodyMax) hsFragBodyMax

def HandshakeFragment.fromDatagram (pkt : WirePacket) :
    Except (Fault CodecError) HandshakeFragment :=
  let version := pkt.byteAt 0
  if version ≠ protocolVersion then .error (.err (.invalidVersion protocolVersion version))
  else
    let hsType := hsTypeOf pkt
    let fragIdx := pkt.byteAt (versionLen + sessionIdLen + 1)
    let fragTotal := pkt.byteAt (versionLen + sessionIdLen + 2)
    match expectedFragCount hsType with
    | none => .error (.err (.invalidMessageType hsType))
    | some expected =>
      if fragTotal ≠ expected then
        .error (.err (.truncated "frag_total" expected.toNat fragTotal.toNat))
      else if fragTotal ≤ fragIdx then
        .error (.err (.truncated "frag_idx" fragTotal.toNat fragIdx.toNat))
      else
        match messageBodyLen hsType with
        | none => .error (.panic "hs_type validated above")
        | some msgLen =>
          .ok { version, sid := pkt.sid, hsType, fragIdx, fragTotal
                body := slice pkt.toList hsFragHeaderLen (fragBodyLen msgLen fragIdx.toNat) }

/-- The datagram buffer of fragment `idx`: header fields, then the message slice. -/
def fragmentBuffer (hsType version total : UInt8) (sid : SessionId) (message : Bytes)
    (idx : ℕ) : Bytes :=
  let dg := blit (zeros packetSize) 0 [version]
  let dg := blit dg versionLen sid.toList
  let dg := blit dg (versionLen + sessionIdLen) [hsType]
  let dg := blit dg (versionLen + sessionIdLen + 1) [UInt8.ofNat idx]
  let dg := blit dg (versionLen + sessionIdLen + 2) [total]
  let start := idx * hsFragBodyMax
  let stop := min (start + hsFragBodyMax) message.length
  blit dg hsFragHeaderLen (slice message start (stop - start))

def pushFragments (hsType version total : UInt8) (sid : SessionId) (message : Bytes) :
    List ℕ → Except (Fault CodecError) (List WirePacket)
  | [] => .ok []
  | idx :: rest =>
    match WirePacket.fromBytes (fragmentBuffer hsType version total sid message idx) with
    | .error _ => .error (.panic "1280-byte buffer always parses")
    | .ok pkt =>
      match pushFragments hsType version total sid message rest with
      | .error e => .error e
      | .ok pkts => .ok (pkt :: pkts)

def fragmentMessage (hsType version : UInt8) (sid : SessionId) (message : Bytes) :
    Except (Fault CodecError) (List WirePacket) :=
  match expectedFragCount hsType with
  | none => .error (.err (.invalidMessageType hsType))
  | some total =>
    match messageBodyLen hsType with
    | none => .error (.panic "hs_type validated above")
    | some msgLen =>
      if message.length ≠ msgLen then
        .error (.err (.wrongLength "handshake message" msgLen message.length))
      else pushFragments hsType version total sid message (List.range total.toNat)

inductive FragmentResult where
  | ignored
  | advanced
  | completed
  deriving DecidableEq, Repr

structure FragmentAssembler where
  hsType : UInt8
  total : UInt8
  received : List.Vector Bool 5
  buffer : Bytes
  complete : Bool
  deriving DecidableEq

namespace FragmentAssembler

def new (hsType : UInt8) : Option FragmentAssembler :=
  match expectedFragCount hsType with
  | none => none
  | some total =>
    match messageBodyLen hsType with
    | none => none
    | some msgLen =>
      some { hsType, total
             received := List.Vector.replicate 5 false
             buffer := zeros msgLen
             complete := false }

def hasReceived (a : FragmentAssembler) (idx : ℕ) : Bool := a.received.toList.getD idx false

def markReceived (a : FragmentAssembler) (idx : ℕ) : List.Vector Bool 5 :=
  ⟨a.received.toList.set idx true, by simp⟩

def addFragment (a : FragmentAssembler) (frag : HandshakeFragment) :
    FragmentResult × FragmentAssembler :=
  if a.complete ∨ frag.hsType ≠ a.hsType ∨ frag.fragTotal ≠ a.total then (.ignored, a)
  else
    let idx := frag.fragIdx.toNat
    if a.total.toNat ≤ idx ∨ a.hasReceived idx then (.ignored, a)
    else
      let start := idx * hsFragBodyMax
      if a.buffer.length < start + frag.body.length then (.ignored, a)
      else
        let received := a.markReceived idx
        let buffer := blit a.buffer start frag.body
        if (received.toList.take a.total.toNat).all id then
          (.completed, { a with received, buffer, complete := true })
        else (.advanced, { a with received, buffer })

def message (a : FragmentAssembler) : Option Bytes :=
  if a.complete then some a.buffer else none

end FragmentAssembler
end PqTunnel
