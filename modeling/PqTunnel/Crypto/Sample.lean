import PqTunnel.Crypto.Kdf

/-! A small computable instance of the primitives. It satisfies the correctness laws that
later results assume, so their hypotheses can be met at concrete inputs. -/
namespace PqTunnel.Sample
open ByteString

def fit (n : ℕ) (l : Bytes) : Octets n := ⟨(l ++ zeros n).take n, by simp⟩

abbrev types : CryptoTypes where
  KemPk := UInt8
  KemSk := UInt8
  KemRand := UInt8
  SigPk := UInt8
  SigSk := UInt8
  Sig := Octets mlDsaSignatureBytes
  XSk := UInt8

def byteAt {n : ℕ} (l : Octets n) : UInt8 := l.toList.getD 0 0

def sign (sk : UInt8) (msg : Bytes) : Octets mlDsaSignatureBytes := fit _ (sk :: msg)

def tagOf (key : Secret) (nonce : Octets 12) : Bytes := key.toList.take 4 ++ nonce.toList

def closeBox (key : Secret) (nonce : Octets 12) (plaintext : Bytes) : Bytes :=
  plaintext ++ tagOf key nonce

def openBox (key : Secret) (nonce : Octets 12) (ciphertext : Bytes) : Except String Bytes :=
  let n := ciphertext.length - 16
  if ciphertext.drop n = tagOf key nonce then .ok (ciphertext.take n) else .error "aead::Error"

def primitives : Primitives types where
  kemPublic := id
  kemPkToBytes := fun pk => fit _ [pk]
  kemPkNew := fun b => if fit _ [byteAt b] = b then .ok (byteAt b) else .error "InvalidKey"
  kemEncapsulate := fun pk r => (fit _ [pk, r], fit _ [r])
  kemDecapsulate := fun sk ct => fit _ [sk, byteAt ct]
  verifyingKey := id
  sigPkEncode := fun pk => fit _ [pk]
  sigSign := sign
  sigVerify := fun pk msg sig => decide (sig = sign pk msg)
  sigEncode := id
  sigDecode := some
  xPublic := fun sk => fit _ [sk]
  xShared := fun sk pk => fit _ [sk + byteAt pk]
  wasContributory := fun _ _ => true
  sha256 := fun msg => fit _ (beDigits 8 msg.length)
  hkdfExpand := fun _ ikm info n => .ok (fit n (slice info 10 4 ++ ikm))
  hmacSha256 := fun key msg => fit _ (key.take 8 ++ msg)
  aeadSeal := fun key nonce plaintext _ => .ok (closeBox key nonce plaintext)
  aeadOpen := fun key nonce ciphertext _ => openBox key nonce ciphertext

@[simp] theorem byteAt_fit (n : ℕ) (b : UInt8) (l : Bytes) : byteAt (fit (n + 1) (b :: l)) = b :=
  rfl

theorem kemPkNew_kemPkToBytes (pk : UInt8) :
    primitives.kemPkNew (primitives.kemPkToBytes pk) = .ok pk := by
  have hbyte : byteAt (fit mlKemPublicKeyBytes [pk]) = pk := byteAt_fit 1183 pk []
  simp only [primitives, hbyte, if_true]

@[simp] theorem length_tagOf (key : Secret) (nonce : Octets 12) :
    (tagOf key nonce).length = 16 := by
  simp [tagOf]

theorem openBox_closeBox (key : Secret) (nonce : Octets 12) (plaintext : Bytes) :
    openBox key nonce (closeBox key nonce plaintext) = .ok plaintext := by
  have hn : (closeBox key nonce plaintext).length - 16 = plaintext.length := by simp [closeBox]
  simp only [openBox, hn]
  rw [closeBox, List.drop_left, if_pos rfl, List.take_left]

theorem aeadSeal_total (key : Secret) (nonce : Octets 12) (plaintext aad : Bytes) :
    ∃ ct, primitives.aeadSeal key nonce plaintext aad = .ok ct ∧
      ct.length = plaintext.length + 16 :=
  ⟨_, rfl, by simp [closeBox]⟩

theorem hkdfTotal : Kdf.HkdfTotal primitives := fun _ _ _ _ _ => ⟨_, rfl⟩

end PqTunnel.Sample
