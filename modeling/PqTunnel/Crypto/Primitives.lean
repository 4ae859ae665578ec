import PqTunnel.Foundation.ByteString
import PqTunnel.Codec.Error

/-! The third-party primitives as parameters, and the wrappers placed around them. -/
namespace PqTunnel

abbrev mlKemPublicKeyBytes : ℕ := 1184
abbrev mlKemCiphertextBytes : ℕ := 1088
abbrev mlDsaPublicKeyBytes : ℕ := 1952
abbrev mlDsaSignatureBytes : ℕ := 3309
abbrev x25519PublicKeyBytes : ℕ := 32

abbrev MlKemCiphertext := Octets mlKemCiphertextBytes

abbrev X25519PublicKey := Octets x25519PublicKeyBytes

/-- A 32-byte secret: a shared secret, a derived key or a digest. -/
abbrev Secret := Octets 32

/-- The key, signature and randomness types of the primitives. -/
structure CryptoTypes where
  KemPk : Type
  KemSk : Type
  KemRand : Type
  SigPk : Type
  SigSk : Type
  Sig : Type
  XSk : Type

/-- The primitives as functions; a drawn secret or coin is an explicit argument. -/
structure Primitives (T : CryptoTypes) where
  kemPublic : T.KemSk → T.KemPk
  kemPkToBytes : T.KemPk → Octets mlKemPublicKeyBytes
  kemPkNew : Octets mlKemPublicKeyBytes → Except String T.KemPk
  kemEncapsulate : T.KemPk → T.KemRand → Secret × MlKemCiphertext
  kemDecapsulate : T.KemSk → MlKemCiphertext → Secret
  verifyingKey : T.SigSk → T.SigPk
  sigPkEncode : T.SigPk → Octets mlDsaPublicKeyBytes
  sigSign : T.SigSk → Bytes → T.Sig
  sigVerify : T.SigPk → Bytes → T.Sig → Bool
  sigEncode : T.Sig → Octets mlDsaSignatureBytes
  sigDecode : Octets mlDsaSignatureBytes → Option T.Sig
  xPublic : T.XSk → X25519PublicKey
  xShared : T.XSk → X25519PublicKey → Secret
  wasContributory : T.XSk → X25519PublicKey → Bool
  sha256 : Bytes → Secret
  hkdfExpand : (salt ikm info : Bytes) → (len : ℕ) → Except String (Octets len)
  hmacSha256 : (key msg : Bytes) → Secret
  aeadSeal : (key : Secret) → (nonce : Octets 12) → (plaintext aad : Bytes) →
    Except String Bytes
  aeadOpen : (key : Secret) → (nonce : Octets 12) → (ciphertext aad : Bytes) →
    Except String Bytes

def mlKemCiphertextFromBytes (bytes : Bytes) : Except CryptoError MlKemCiphertext :=
  if h : bytes.length = mlKemCiphertextBytes then .ok ⟨bytes, h⟩
  else .error (.kem "invalid ciphertext length")

namespace Primitives
variable {T : CryptoTypes} (P : Primitives T)

def mlKemPublicKeyFromBytes (bytes : Bytes) : Except CryptoError T.KemPk :=
  if h : bytes.length = mlKemPublicKeyBytes then
    match P.kemPkNew ⟨bytes, h⟩ with
    | .ok pk => .ok pk
    | .error e => .error (.kem ("invalid kem key: " ++ e))
  else .error (.kem "invalid kem key length")

def mlDsaSignatureFromBytes (bytes : Bytes) : Except CryptoError T.Sig :=
  if h : bytes.length = mlDsaSignatureBytes then
    match P.sigDecode ⟨bytes, h⟩ with
    | some sig => .ok sig
    | none => .error (.signature "signature decode failed")
  else .error (.signature "invalid signature length")

/-- `None` when the exchange is not contributory. -/
def diffieHellman (sk : T.XSk) (other : X25519PublicKey) : Option Secret :=
  if P.wasContributory sk other then some (P.xShared sk other) else none

def aeadEncrypt (key : Secret) (nonce : Octets 12) (plaintext aad : Bytes) :
    Except CryptoError Bytes :=
  match P.aeadSeal key nonce plaintext aad with
  | .ok ct => .ok ct
  | .error e => .error (.aead ("encryption failed: " ++ e))

def aeadDecrypt (key : Secret) (nonce : Octets 12) (ciphertext aad : Bytes) :
    Except CryptoError Bytes :=
  match P.aeadOpen key nonce ciphertext aad with
  | .ok pt => .ok pt
  | .error e => .error (.aead ("decryption failed: " ++ e))

theorem aeadEncrypt_ok_iff {key : Secret} {nonce : Octets 12} {pt aad ct : Bytes} :
    P.aeadEncrypt key nonce pt aad = .ok ct ↔ P.aeadSeal key nonce pt aad = .ok ct := by
  unfold aeadEncrypt
  cases P.aeadSeal key nonce pt aad <;> simp

theorem aeadDecrypt_ok_iff {key : Secret} {nonce : Octets 12} {ct aad pt : Bytes} :
    P.aeadDecrypt key nonce ct aad = .ok pt ↔ P.aeadOpen key nonce ct aad = .ok pt := by
  unfold aeadDecrypt
  cases P.aeadOpen key nonce ct aad <;> simp

end Primitives
end PqTunnel
