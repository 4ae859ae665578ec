import PqTunnel.Handshake.Framing
import PqTunnel.Crypto.Kdf

/-! The three handshake messages, their fixed byte layouts and the transcript hashes. -/
namespace PqTunnel
open ByteString

inductive HandshakeV2Error where
  | codec (e : CodecError)
  | crypto (e : CryptoError)
  | timeout
  | invalidConfig (msg : String)
  deriving DecidableEq, Repr

inductive SocketAddr where
  | v4 (ip : BitVec 32) (port : UInt16)
  | v6 (ip : BitVec 128) (port : UInt16) (flowinfo scopeId : UInt32)
  deriving DecidableEq

def validateVersion (version : UInt8) : Except HandshakeV2Error Unit :=
  if version = protocolVersion then .ok ()
  else .error (.invalidConfig ("version " ++ toString version ++ " unsupported (expected " ++
    toString protocolVersion ++ ")"))

def liftCodec {α : Type} : Except (Fault CodecError) α → Except (Fault HandshakeV2Error) α
  | .ok a => .ok a
  | .error (.err e) => .error (.err (.codec e))
  | .error (.panic msg) => .error (.panic msg)

variable {T : CryptoTypes} (P : Primitives T)

def sliceOctets (data : Bytes) (start len : ℕ) (h : start + len ≤ data.length) : Octets len :=
  ⟨slice data start len, length_slice h⟩

def encodeM1 (version : UInt8) (sid : SessionId) (ephPkC : T.KemPk) (xC : X25519PublicKey)
    (sig : Option T.Sig) : Bytes :=
  let out := blit (zeros m1BodyLen) 0 [version]
  let out := blit out versionLen sid.toList
  let out := blit out 9 (P.kemPkToBytes ephPkC).toList
  let out := blit out (9 + mlKemPublicKeyBytes) xC.toList
  match sig with
  | some s => blit out (m1BodyLen - mlDsaSignatureBytes) (P.sigEncode s).toList
  | none => out

structure ClientHello (T : CryptoTypes) where
  version : UInt8
  sid : SessionId
  ephPkC : T.KemPk
  xC : X25519PublicKey
  clientSig : T.Sig

namespace ClientHello

def encode (m : ClientHello T) : Bytes :=
  encodeM1 P m.version m.sid m.ephPkC m.xC (some m.clientSig)

def decode (data : Bytes) : Except CodecError (ClientHello T) :=
  if h : data.length ≠ m1BodyLen then .error (.truncated "ClientHello" m1BodyLen data.length)
  else
    let version := data.getD 0 0
    if version ≠ protocolVersion then .error (.invalidVersion protocolVersion version)
    else
      match P.mlKemPublicKeyFromBytes (slice data 9 mlKemPublicKeyBytes) with
      | .error e => .error (.crypto e)
      | .ok ephPkC =>
        match P.mlDsaSignatureFromBytes
            (slice data (m1BodyLen - mlDsaSignatureBytes) mlDsaSignatureBytes) with
        | .error e => .error (.crypto e)
        | .ok clientSig =>
          .ok { version
                sid := sliceOctets data 1 sessionIdLen (by rw [not_not.mp h]; decide)
                ephPkC
                xC := sliceOctets data (9 + mlKemPublicKeyBytes) x25519PublicKeyBytes
                  (by rw [not_not.mp h]; decide)
                clientSig }

end ClientHello

def encodeM2 (version : UInt8) (sid : SessionId) (ephPkS : T.KemPk) (xS : X25519PublicKey)
    (ct2 : MlKemCiphertext) (sig : Option T.Sig) : Bytes :=
  let out := blit (zeros m2BodyLen) 0 [version]
  let out := blit out versionLen sid.toList
  let out := blit out 9 (P.kemPkToBytes ephPkS).toList
  let out := blit out (9 + mlKemPublicKeyBytes) xS.toList
  let out := blit out (9 + mlKemPublicKeyBytes + 32) ct2.toList
  match sig with
  | some s => blit out (m2BodyLen - mlDsaSignatureBytes) (P.sigEncode s).toList
  | none => out

structure ServerHello (T : CryptoTypes) where
  version : UInt8
  sid : SessionId
  ephPkS : T.KemPk
  xS : X25519PublicKey
  ct2 : MlKemCiphertext
  serverSig : T.Sig

namespace ServerHello

def encode (m : ServerHello T) : Bytes :=
  encodeM2 P m.version m.sid m.ephPkS m.xS m.ct2 (some m.serverSig)

def decode (data : Bytes) : Except CodecError (ServerHello T) :=
  if h : data.length ≠ m2BodyLen then .error (.truncated "ServerHello" m2BodyLen data.length)
  else
    let version := data.getD 0 0
    if version ≠ protocolVersion then .error (.invalidVersion protocolVersion version)
    else
      match P.mlKemPublicKeyFromBytes (slice data 9 mlKemPublicKeyBytes) with
      | .error e => .error (.crypto e)
      | .ok ephPkS =>
        match mlKemCiphertextFromBytes
            (slice data (9 + mlKemPublicKeyBytes + 32) mlKemCiphertextBytes) with
        | .error e => .error (.crypto e)
        | .ok ct2 =>
          match P.mlDsaSignatureFromBytes
              (slice data (m2BodyLen - mlDsaSignatureBytes) mlDsaSignatureBytes) with
          | .error e => .error (.crypto e)
          | .ok serverSig =>
            .ok { version
                  sid := sliceOctets data 1 sessionIdLen (by rw [not_not.mp h]; decide)
                  ephPkS
                  xS := sliceOctets data (9 + mlKemPublicKeyBytes) x25519PublicKeyBytes
                    (by rw [not_not.mp h]; decide)
                  ct2
                  serverSig }

end ServerHello

def encodeM3 (version : UInt8) (sid : SessionId) (ct3 : MlKemCiphertext)
    (finished : Option (Octets finishedMacLen)) : Bytes :=
  let out := blit (zeros m3BodyLen) 0 [version]
  let out := blit out versionLen sid.toList
  let out := blit out 9 ct3.toList
  match finished with
  | some m => blit out (m3BodyLen - finishedMacLen) m.toList
  | none => out

structure ClientConfirm where
  version : UInt8
  sid : SessionId
  ct3 : MlKemCiphertext
  clientFinished : Octets finishedMacLen

namespace ClientConfirm

def encode (m : ClientConfirm) : Bytes := encodeM3 m.version m.sid m.ct3 (some m.clientFinished)

def decode (data : Bytes) : Except CodecError ClientConfirm :=
  if h : data.length ≠ m3BodyLen then .error (.truncated "ClientConfirm" m3BodyLen data.length)
  else
    let version := data.getD 0 0
    if version ≠ protocolVersion then .error (.invalidVersion protocolVersion version)
    else
      match mlKemCiphertextFromBytes (slice data 9 mlKemCiphertextBytes) with
      | .error e => .error (.crypto e)
      | .ok ct3 =>
        .ok { version
              sid := sliceOctets data 1 sessionIdLen (by rw [not_not.mp h]; decide)
              ct3
              clientFinished := sliceOctets data (m3BodyLen - finishedMacLen) finishedMacLen
                (by rw [not_not.mp h]; decide) }

end ClientConfirm

def slotLen (hsType : UInt8) : Option ℕ :=
  if hsType = hsTypeClientHello ∨ hsType = hsTypeServerHello then some mlDsaSignatureBytes
  else if hsType = hsTypeClientConfirm then some finishedMacLen
  else none

def canonicalZerofill (hsType : UInt8) (message : Bytes) : Option Bytes :=
  match slotLen hsType with
  | none => none
  | some slot =>
    match messageBodyLen hsType with
    | none => none
    | some len =>
      if message.length ≠ len then none
      else some (message.take (len - slot) ++ zeros slot)

def handshakeDomain : Bytes := ascii "pq-tunnel-v1"

def hashWithDomain (parts : List Bytes) : Secret := P.sha256 (handshakeDomain ++ parts.flatten)

def th1FromM1 (m1 : Bytes) : Option Secret :=
  match canonicalZerofill hsTypeClientHello m1 with
  | none => none
  | some canon => some (hashWithDomain P [canon])

def th2FromM1M2 (m1S m2 : Bytes) : Option Secret :=
  if m1S.length ≠ m1BodyLen then none
  else
    match canonicalZerofill hsTypeServerHello m2 with
    | none => none
    | some m2Z => some (hashWithDomain P [m1S, m2Z])

def th3FromM1M2M3 (m1 m2 m3 : Bytes) : Option Secret :=
  match canonicalZerofill hsTypeClientHello m1 with
  | none => none
  | some m1Z =>
    match canonicalZerofill hsTypeServerHello m2 with
    | none => none
    | some m2Z =>
      match canonicalZerofill hsTypeClientConfirm m3 with
      | none => none
      | some m3Z => some (hashWithDomain P [m1Z, m2Z, m3Z])

def deriveMaster (ssA ssB dhCs : Secret) (version : UInt8) (sid : SessionId) (th3 : Secret) :
    Except HandshakeV2Error MasterSecret :=
  match Kdf.deriveMasterSecretV2 P ssA ssB dhCs version sid.toList th3.toList with
  | .error e => .error (.crypto e)
  | .ok master => .ok master

/-- What a finished handshake hands to the session layer. -/
structure HandshakeOutcome (T : CryptoTypes) where
  master : MasterSecret
  sessionId : SessionId
  peerIdentity : T.SigPk
  handshakeDuration : ℕ

end PqTunnel
