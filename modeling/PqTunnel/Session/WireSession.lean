import PqTunnel.Envelope.CipherSession
import PqTunnel.Handshake.Messages

/-! The data-path session: the envelope behind the connection state machine. -/
namespace PqTunnel

inductive ProtocolState where
  | initial
  | handshake
  | established
  | rekey
  | closed
  deriving DecidableEq, Repr

inductive SessionError where
  | wrongState (required actual : ProtocolState)
  | codec (e : CodecError)
  | crypto (e : CryptoError)
  | rekeyRequired
  deriving DecidableEq, Repr

structure WireSession where
  role : Role
  sessionId : SessionId
  state : ProtocolState
  cipher : CipherSession

/-- What an encryption used up: a key, a direction and a counter. -/
structure Sealing where
  key : Secret
  direction : Direction
  counter : UInt64
  deriving DecidableEq

namespace WireSession
variable {T : CryptoTypes} (P : Primitives T)

def established (role : Role) (outcome : HandshakeOutcome T) : Except SessionError WireSession :=
  match CipherSession.new P role outcome.master outcome.sessionId with
  | .error e => .error (.codec e)
  | .ok cipher => .ok { role, sessionId := outcome.sessionId, state := .established, cipher }

def requireEstablished (s : WireSession) : Except SessionError Unit :=
  if s.state = .established then .ok () else .error (.wrongState .established s.state)

def encrypt (s : WireSession) (msgType : MessageType) (payload : Bytes) :
    Except SessionError WirePacket × WireSession :=
  match s.requireEstablished with
  | .error e => (.error e, s)
  | .ok () =>
    match s.cipher.encrypt P msgType payload with
    | (.ok pkt, cipher) => (.ok pkt, { s with cipher })
    | (.error (.nonceExhausted _), cipher) =>
      (.error .rekeyRequired, { s with cipher, state := .rekey })
    | (.error e, cipher) => (.error (.codec e), { s with cipher })

def cover (s : WireSession) (fill : Except String Payload) :
    Except SessionError WirePacket × WireSession :=
  match s.requireEstablished with
  | .error e => (.error e, s)
  | .ok () =>
    match fill with
    | .error e => (.error (.crypto (.invalidInput ("getrandom: " ++ e))), s)
    | .ok fill => s.encrypt P .cover fill.toList

def decrypt (s : WireSession) (packet : WirePacket) :
    Except SessionError InnerPlaintext × WireSession :=
  match s.requireEstablished with
  | .error e => (.error e, s)
  | .ok () =>
    match s.cipher.decrypt P packet with
    | (.ok inner, cipher) => (.ok inner, { s with cipher })
    | (.error (.nonceExhausted _), cipher) =>
      (.error .rekeyRequired, { s with cipher, state := .rekey })
    | (.error e, cipher) => (.error (.codec e), { s with cipher })

/-- The record of an encryption of this session that ended so. -/
def sealing (s : WireSession) : Except SessionError WirePacket → List Sealing
  | .ok _ => [⟨s.cipher.sendKey, s.cipher.role.sendDirection, s.cipher.sendCounter⟩]
  | .error _ => []

variable {P}

theorem established_ok {role : Role} {outcome : HandshakeOutcome T} {s : WireSession}
    (h : established P role outcome = .ok s) :
    s.state = .established ∧ s.sessionId = outcome.sessionId ∧
      CipherSession.new P role outcome.master outcome.sessionId = .ok s.cipher := by
  unfold established at h
  split at h
  · cases h
  · rename_i cipher hc
    obtain rfl := Except.ok.inj h
    exact ⟨rfl, rfl, hc⟩

theorem established_total (h : Kdf.HkdfTotal P) (role : Role) (outcome : HandshakeOutcome T) :
    ∃ s, established P role outcome = .ok s := by
  obtain ⟨cipher, hc⟩ := CipherSession.new_total h role outcome.master outcome.sessionId
  exact ⟨_, by rw [established, hc]⟩

def next (s : WireSession) : WireSession :=
  { s with cipher := { s.cipher with sendCounter := s.cipher.sendCounter + 1 } }

variable {s : WireSession}

theorem established_not_exhausted {role : Role} {outcome : HandshakeOutcome T}
    (h : established P role outcome = .ok s) : isCounterExhausted s.cipher.sendCounter = false := by
  obtain ⟨-, -, hcipher⟩ := established_ok h
  obtain ⟨_, _, _, _, -, -, -, -, hs⟩ := CipherSession.new_ok hcipher
  rw [hs]
  rfl

/-- An encryption moves the counter on and is recorded, or it fails and leaves the envelope as it
was; an exhausted counter takes the session out of the established state. -/
theorem encrypt_cases (s : WireSession) (msgType : MessageType) (payload : Bytes) :
    (∃ pkt, s.encrypt P msgType payload =
        (.ok pkt, { s with cipher := { s.cipher with sendCounter := s.cipher.sendCounter + 1 } }) ∧
      isCounterExhausted s.cipher.sendCounter = false) ∨
    s.encrypt P msgType payload = (.error .rekeyRequired, { s with state := .rekey }) ∨
    ∃ e, e ≠ .rekeyRequired ∧ s.encrypt P msgType payload = (.error e, s) := by
  unfold encrypt requireEstablished
  split_ifs with hstate
  · rcases s.cipher.encrypt_cases (P := P) msgType payload with
      ⟨pkt, slot, heq, -, hsealed⟩ | ⟨e, heq⟩
    · rw [heq]
      exact Or.inl ⟨pkt, rfl, hsealed.fresh⟩
    · rw [heq]
      cases e with
      | nonceExhausted c => exact Or.inr (Or.inl rfl)
      | _ => exact Or.inr (Or.inr ⟨_, by simp, rfl⟩)
  · exact Or.inr (Or.inr ⟨_, by simp, rfl⟩)

theorem encrypt_ok {s' : WireSession} {msgType : MessageType} {payload : Bytes}
    {packet : WirePacket} (h : s.encrypt P msgType payload = (.ok packet, s')) :
    isCounterExhausted s.cipher.sendCounter = false ∧
      s' = { s with cipher := { s.cipher with sendCounter := s.cipher.sendCounter + 1 } } := by
  rcases s.encrypt_cases (P := P) msgType payload with
    ⟨_, heq, hfresh⟩ | heq | ⟨_, -, heq⟩ <;> rw [h] at heq <;> cases heq
  exact ⟨hfresh, rfl⟩

theorem encrypt_sessionId (s : WireSession) (msgType : MessageType) (payload : Bytes) :
    (s.encrypt P msgType payload).2.sessionId = s.sessionId := by
  rcases s.encrypt_cases (P := P) msgType payload with ⟨pkt, heq, -⟩ | heq | ⟨e, -, heq⟩ <;>
    rw [heq]

theorem encrypt_next (hP : CipherSession.AeadTotal P) (hstate : s.state = .established)
    (hfresh : isCounterExhausted s.cipher.sendCounter = false) (msgType : MessageType)
    {payload : Bytes} (hlen : payload.length = payloadLen) :
    ∃ pkt, s.encrypt P msgType payload = (.ok pkt, s.next) := by
  obtain ⟨pkt, heq⟩ := CipherSession.encrypt_succeeds hP msgType hlen hfresh
  refine ⟨pkt, ?_⟩
  simp only [encrypt, requireEstablished, hstate, if_true, heq, next]

/-- With a total AEAD an established session encrypts every payload of the right length, or
needs new keys. -/
theorem encrypt_established (hP : CipherSession.AeadTotal P) (hstate : s.state = .established)
    (msgType : MessageType) {payload : Bytes} (hlen : payload.length = payloadLen) :
    (∃ pkt, (s.encrypt P msgType payload).1 = .ok pkt) ∨
      (s.encrypt P msgType payload).1 = .error .rekeyRequired := by
  cases hfresh : isCounterExhausted s.cipher.sendCounter with
  | false =>
    obtain ⟨pkt, heq⟩ := encrypt_next hP hstate hfresh msgType hlen
    rw [heq]
    exact Or.inl ⟨pkt, rfl⟩
  | true =>
    right
    simp [encrypt, requireEstablished, hstate, CipherSession.encrypt, CipherSession.sealPacket, hlen,
      hfresh]

/-- Decryption changes neither the keys nor the send counter, and the state only on an exhausted
counter. -/
theorem decrypt_frame (s : WireSession) (packet : WirePacket) :
    ∃ st w, (s.decrypt P packet).2 =
        { s with state := st, cipher := { s.cipher with replay := w } } ∧
      (st = s.state ∨ st = .rekey ∧ (s.decrypt P packet).1 = .error .rekeyRequired) := by
  obtain ⟨w, hw⟩ := s.cipher.decrypt_frame (P := P) packet
  unfold decrypt
  split
  · exact ⟨s.state, s.cipher.replay, rfl, Or.inl rfl⟩
  · split <;> rename_i heq <;> rw [heq] at hw <;> dsimp only at hw <;> subst hw
    · exact ⟨s.state, w, rfl, Or.inl rfl⟩
    · exact ⟨.rekey, w, rfl, Or.inr ⟨rfl, rfl⟩⟩
    · exact ⟨s.state, w, rfl, Or.inl rfl⟩

/-- An established session stays so unless the packet carries an exhausted counter; it never
fails but through the envelope. -/
theorem decrypt_established (hstate : s.state = .established) (packet : WirePacket) :
    (∃ inner, (s.decrypt P packet).1 = .ok inner ∧ (s.cipher.decrypt P packet).1 = .ok inner ∧
        (s.decrypt P packet).2.state = .established) ∨
      (s.decrypt P packet).1 = .error .rekeyRequired ∨
      ∃ e, (s.decrypt P packet).1 = .error (.codec e) ∧
        (s.decrypt P packet).2.state = .established := by
  simp only [decrypt, requireEstablished, hstate, if_true]
  split <;> rename_i heq
  · exact Or.inl ⟨_, rfl, by rw [heq], rfl⟩
  · exact Or.inr (Or.inl rfl)
  · exact Or.inr (Or.inr ⟨_, rfl, rfl⟩)

/-- The results of an encryption on a session. -/
inductive Enc (P : Primitives T) (s : WireSession) :
    Except SessionError WirePacket × WireSession → Prop where
  | sent (msgType payload packet s') (henc : s.encrypt P msgType payload = (.ok packet, s')) :
      Enc P s (.ok packet, s')
  | spent (msgType payload)
      (henc : s.encrypt P msgType payload = (.error .rekeyRequired, { s with state := .rekey })) :
      Enc P s (.error .rekeyRequired, { s with state := .rekey })
  | failed (e : SessionError) (hne : e ≠ .rekeyRequired)
      (hstate : s.state = .established → ∀ a b, e ≠ .wrongState a b) : Enc P s (.error e, s)

theorem enc_encrypt (s : WireSession) (msgType : MessageType) (payload : Bytes) :
    Enc P s (s.encrypt P msgType payload) := by
  rcases s.encrypt_cases (P := P) msgType payload with ⟨packet, heq, -⟩ | heq | ⟨e, hne, heq⟩
  · rw [heq]
    exact .sent msgType payload packet _ heq
  · rw [heq]
    exact .spent msgType payload heq
  · rw [heq]
    refine .failed e hne fun hstate a b he => ?_
    rw [he] at heq
    simp only [encrypt, requireEstablished, if_pos hstate] at heq
    split at heq <;> cases heq

theorem enc_cover (s : WireSession) (fill : Except String Payload) : Enc P s (s.cover P fill) := by
  unfold cover requireEstablished
  split_ifs with hstate
  · cases fill with
    | error e => exact .failed _ (by simp) (by simp)
    | ok fill => exact enc_encrypt s .cover fill.toList
  · exact .failed _ (by simp) (fun h => absurd h hstate)

end WireSession
end PqTunnel
