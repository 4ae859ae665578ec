import Mathlib.Data.Nat.Notation

/-! Error values of the packet codec, the AEAD envelope and the primitive wrappers. -/
namespace PqTunnel

inductive CryptoError where
  | kem (msg : String)
  | signature (msg : String)
  | x25519 (msg : String)
  | aead (msg : String)
  | kdf (msg : String)
  | invalidInput (msg : String)
  | verificationFailed
  deriving DecidableEq, Repr

inductive CodecError where
  | truncated (field : String) (min got : ℕ)
  | wrongLength (field : String) (expected got : ℕ)
  | invalidVersion (expected found : UInt8)
  | invalidMessageType (v : UInt8)
  | invalidDirection (v : UInt8)
  | nonceExhausted (counter : UInt64)
  | rekeyRejected (reason : String)
  | decryptionFailed
  | rejected
  | crypto (e : CryptoError)
  deriving DecidableEq, Repr

/-- How a call can end other than normally: a returned error, or a failed `expect`. -/
inductive Fault (ε : Type) where
  | err (e : ε)
  | panic (msg : String)
  deriving DecidableEq, Repr

def expect {ε α : Type} (o : Option α) (msg : String) : Except (Fault ε) α :=
  match o with
  | some a => .ok a
  | none => .error (.panic msg)

end PqTunnel
