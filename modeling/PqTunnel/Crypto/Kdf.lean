import PqTunnel.Crypto.Primitives

/-! The key schedule: one HKDF expansion per purpose, with its label in the info string. -/
namespace PqTunnel
open ByteString

abbrev MasterSecret := Secret

namespace Kdf
variable {T : CryptoTypes} (P : Primitives T)

def kdfDeriveToBytes (n : ℕ) (input salt info : Bytes) : Except CryptoError (Octets n) :=
  match P.hkdfExpand salt input info n with
  | .ok okm => .ok okm
  | .error e => .error (.kdf ("expand failed: " ++ e))

def sessionInfo (label sessionId : Bytes) : Bytes := label ++ sessionId

def deriveForSession (n : ℕ) (label : Bytes) (master : MasterSecret) (sessionId : Bytes) :
    Except CryptoError (Octets n) :=
  kdfDeriveToBytes P n master.toList (zeros 32) (sessionInfo label sessionId)

def deriveClientToServerKey (master : MasterSecret) (sessionId : Bytes) :
    Except CryptoError Secret :=
  deriveForSession P 32 (ascii "pq-tunnel-c2s-v2") master sessionId

def deriveServerToClientKey (master : MasterSecret) (sessionId : Bytes) :
    Except CryptoError Secret :=
  deriveForSession P 32 (ascii "pq-tunnel-s2c-v2") master sessionId

def deriveNoncePrefixC2s (master : MasterSecret) (sessionId : Bytes) :
    Except CryptoError (Octets 4) :=
  deriveForSession P 4 (ascii "pq-tunnel-nonce-c2s-v2") master sessionId

def deriveNoncePrefixS2c (master : MasterSecret) (sessionId : Bytes) :
    Except CryptoError (Octets 4) :=
  deriveForSession P 4 (ascii "pq-tunnel-nonce-s2c-v2") master sessionId

def masterInfo (version : UInt8) (sessionId th3 : Bytes) : Bytes :=
  ascii "pq-tunnel-master-v2" ++ ([version] ++ (sessionId ++ th3))

def deriveMasterSecretV2 (ssA ssB dhCs : Secret) (version : UInt8) (sessionId th3 : Bytes) :
    Except CryptoError MasterSecret :=
  kdfDeriveToBytes P 32 (ssA.toList ++ (ssB.toList ++ dhCs.toList)) (zeros 32)
    (masterInfo version sessionId th3)

def finishedInfo (version : UInt8) (sessionId : Bytes) : Bytes :=
  ascii "pq-tunnel-finished-v1" ++ ([version] ++ sessionId)

def deriveFinishedKey (master : MasterSecret) (version : UInt8) (sessionId : Bytes) :
    Except CryptoError Secret :=
  kdfDeriveToBytes P 32 master.toList (zeros 32) (finishedInfo version sessionId)

/-- The first sixteen bytes of the HMAC over the transcript hash. -/
def computeClientFinished (finishedKey th3 : Secret) : Octets 16 :=
  ⟨(P.hmacSha256 finishedKey.toList th3.toList).toList.take 16, by simp⟩

def buildSessionNonce (noncePrefix : Octets 4) (counter : UInt64) : Octets 12 :=
  ⟨noncePrefix.toList ++ toBeBytes counter, by simp⟩

variable {P}

/-- HKDF-SHA-256 expands to every length up to 255 blocks. -/
def HkdfTotal (P : Primitives T) : Prop :=
  ∀ salt ikm info n, n ≤ 255 * 32 → ∃ okm, P.hkdfExpand salt ikm info n = .ok okm

theorem HkdfTotal.derives (h : HkdfTotal P) {n : ℕ} (hn : n ≤ 255 * 32) (input salt info : Bytes) :
    ∃ okm, kdfDeriveToBytes P n input salt info = .ok okm := by
  obtain ⟨okm, hokm⟩ := h salt input info n hn
  exact ⟨okm, by rw [kdfDeriveToBytes, hokm]⟩

theorem HkdfTotal.ne_error (h : HkdfTotal P) {n : ℕ} (hn : n ≤ 255 * 32)
    {input salt info : Bytes} {e : CryptoError} :
    kdfDeriveToBytes P n input salt info ≠ .error e := by
  obtain ⟨okm, hokm⟩ := h.derives hn input salt info
  rw [hokm]
  exact nofun

end Kdf
end PqTunnel
