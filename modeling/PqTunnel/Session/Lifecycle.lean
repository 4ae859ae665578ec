import PqTunnel.Foundation.Transition
import PqTunnel.Session.WireSession

/-! The states of a data-path session over any sequence of its operations. -/
namespace PqTunnel
open ByteString Transition

structure InvalidTransition where
  source : ProtocolState
  target : ProtocolState

namespace ProtocolState

def canTransitionTo : ProtocolState → ProtocolState → Bool
  | .initial, .handshake | .handshake, .established | .handshake, .closed
  | .established, .rekey | .established, .closed
  | .rekey, .established | .rekey, .closed => true
  | _, _ => false

def transition (s target : ProtocolState) : Except InvalidTransition ProtocolState :=
  if s.canTransitionTo target then .ok target else .error ⟨s, target⟩

end ProtocolState

namespace WireSession
variable {T : CryptoTypes} (P : Primitives T)

def new (role : Role) (master : MasterSecret) (sessionId : SessionId) :
    Except SessionError WireSession :=
  match CipherSession.new P role master sessionId with
  | .error e => .error (.codec e)
  | .ok cipher => .ok { role, sessionId, state := .initial, cipher }

def transition (s : WireSession) (target : ProtocolState) :
    Except InvalidTransition Unit × WireSession :=
  match s.state.transition target with
  | .error e => (.error e, s)
  | .ok state => (.ok (), { s with state })

def beginHandshake (s : WireSession) : Except InvalidTransition Unit × WireSession :=
  s.transition .handshake

def completeHandshake (s : WireSession) : Except InvalidTransition Unit × WireSession :=
  s.transition .established

/-- Closing sets the state without asking the state machine. -/
def close (s : WireSession) : Except InvalidTransition Unit × WireSession :=
  (.ok (), { s with state := .closed })

inductive Op where
  | beginHandshake
  | completeHandshake
  | close
  | encrypt (msgType : MessageType) (payload : Bytes)
  | cover (fill : Except String Payload)
  | decrypt (packet : WirePacket)

def call (s : WireSession) : Op → WireSession
  | .beginHandshake => s.beginHandshake.2
  | .completeHandshake => s.completeHandshake.2
  | .close => s.close.2
  | .encrypt msgType payload => (s.encrypt P msgType payload).2
  | .cover fill => (s.cover P fill).2
  | .decrypt packet => (s.decrypt P packet).2

/-- What an operation of the data path returns, but for the packet. -/
def reply (s : WireSession) : Op → Option (Except SessionError Unit)
  | .encrypt msgType payload => some ((s.encrypt P msgType payload).1.map fun _ => ())
  | .cover fill => some ((s.cover P fill).1.map fun _ => ())
  | .decrypt packet => some ((s.decrypt P packet).1.map fun _ => ())
  | _ => none

def run (s : WireSession) (ops : List Op) : WireSession := ops.foldl (call P) s

/-- No close before the handshake has begun, and no completion of a session that needs new keys. -/
def Regular (s : WireSession) (op : Op) : Prop :=
  (op = .close → s.state ≠ .initial) ∧ (op = .completeHandshake → s.state ≠ .rekey)

variable {P} {s : WireSession} {op : Op}

/-- What the data path does to the state: nothing, but for the counter that is used up. -/
structure OnPath (P : Primitives T) (s : WireSession) (op : Op) : Prop where
  idle : s.state ≠ .established →
    (s.call P op).state = s.state ∧ s.reply P op ≠ some (.ok ())
  state : (s.call P op).state = s.state ∨
    s.state = .established ∧ (s.call P op).state = .rekey
  spent : s.reply P op = some (.error .rekeyRequired) → (s.call P op).state = .rekey

theorem onPath_encrypt (s : WireSession) (msgType : MessageType) (payload : Bytes) :
    OnPath P s (.encrypt msgType payload) := by
  by_cases hstate : s.state = .established
  · rcases s.encrypt_cases (P := P) msgType payload with ⟨pkt, heq, -⟩ | heq | ⟨e, hne, heq⟩
    all_goals constructor <;> simp [call, reply, heq, hstate, Except.map]
    exact hne
  · constructor <;> simp [call, reply, encrypt, requireEstablished, hstate, Except.map]

theorem onPath_cover (s : WireSession) (fill : Except String Payload) :
    OnPath P s (.cover fill) := by
  by_cases hstate : s.state = .established
  · cases fill with
    | error e => constructor <;> simp [call, reply, cover, requireEstablished, hstate, Except.map]
    | ok fill =>
      have hsame : s.cover P (.ok fill) = s.encrypt P .cover fill.toList := by
        simp [cover, requireEstablished, hstate]
      obtain ⟨hidle, hnext, hspent⟩ := onPath_encrypt (P := P) s .cover fill.toList
      exact ⟨fun h => absurd hstate h, by rwa [call, hsame], by rwa [reply, call, hsame]⟩
  · constructor <;> simp [call, reply, cover, requireEstablished, hstate, Except.map]

theorem onPath_decrypt (s : WireSession) (packet : WirePacket) :
    OnPath P s (.decrypt packet) := by
  by_cases hstate : s.state = .established
  · cases hres : s.cipher.decrypt P packet with
    | mk r cipher =>
      rcases r with e | inner
      · cases e <;> constructor <;>
          simp [call, reply, decrypt, requireEstablished, hstate, hres, Except.map]
      · constructor <;> simp [call, reply, decrypt, requireEstablished, hstate, hres, Except.map]
  · constructor <;> simp [call, reply, decrypt, requireEstablished, hstate, Except.map]

theorem call_arc (h : s.Regular op) :
    (s.call P op).state = s.state ∨ s.state.canTransitionTo (s.call P op).state = true := by
  have hmove : ∀ target, (s.transition target).2.state = s.state ∨
      s.state.canTransitionTo (s.transition target).2.state = true := by
    intro target
    unfold transition ProtocolState.transition
    split_ifs with hallowed
    · exact Or.inr hallowed
    · exact Or.inl rfl
  have hpath : OnPath P s op → (s.call P op).state = s.state ∨
      s.state.canTransitionTo (s.call P op).state = true := by
    intro hp
    rcases hp.state with hsame | ⟨hest, hrekey⟩
    · exact Or.inl hsame
    · rw [hest, hrekey]
      exact Or.inr rfl
  cases op with
  | beginHandshake => exact hmove .handshake
  | completeHandshake => exact hmove .established
  | close =>
    have hbegun := h.1 rfl
    change ProtocolState.closed = s.state ∨ s.state.canTransitionTo .closed = true
    cases hstate : s.state with
    | initial => exact absurd hstate hbegun
    | closed => exact Or.inl rfl
    | _ => exact Or.inr rfl
  | encrypt msgType payload => exact hpath (onPath_encrypt ..)
  | cover fill => exact hpath (onPath_cover ..)
  | decrypt packet => exact hpath (onPath_decrypt ..)

/-- A session that carries nothing more. -/
def Ended (s : WireSession) : Prop := s.state = .rekey ∨ s.state = .closed

theorem Ended.call (h : Ended s) (hregular : s.Regular op) :
    Ended (s.call P op) ∧ s.reply P op ≠ some (.ok ()) := by
  have hpath : OnPath P s op → Ended (s.call P op) ∧ s.reply P op ≠ some (.ok ()) := by
    intro hp
    obtain ⟨hsame, hfails⟩ := hp.idle (by rcases h with h | h <;> simp [h])
    exact ⟨by rwa [Ended, hsame], hfails⟩
  cases op with
  | beginHandshake =>
    rcases h with h | h <;>
      simp [Ended, WireSession.call, beginHandshake, transition, ProtocolState.transition, h,
        ProtocolState.canTransitionTo, reply]
  | completeHandshake =>
    have hclosed := h.resolve_left (hregular.2 rfl)
    simp [Ended, WireSession.call, completeHandshake, transition, ProtocolState.transition,
      hclosed, ProtocolState.canTransitionTo, reply]
  | close => exact ⟨Or.inr rfl, by simp [reply]⟩
  | encrypt msgType payload => exact hpath (onPath_encrypt ..)
  | cover fill => exact hpath (onPath_cover ..)
  | decrypt packet => exact hpath (onPath_decrypt ..)

theorem ended_of_spent (hspent : s.reply P op = some (.error .rekeyRequired) ∨ op = .close) :
    Ended (s.call P op) := by
  rcases hspent with hspent | rfl
  · left
    cases op with
    | encrypt msgType payload => exact (onPath_encrypt ..).spent hspent
    | cover fill => exact (onPath_cover ..).spent hspent
    | decrypt packet => exact (onPath_decrypt ..).spent hspent
    | _ => cases hspent
  · exact Or.inr rfl

/-- Over regular operations every change of state is an arc of the state machine, and a session
that needed new keys or was closed carries nothing more. -/
theorem lifecycle_final (P : Primitives T) (s : WireSession) (ops : List Op)
    (hregular : Along (call P) Regular s ops) :
    ∀ before op after, ops = before ++ op :: after →
      ((s.run P (before ++ [op])).state = (s.run P before).state ∨
        (s.run P before).state.canTransitionTo (s.run P (before ++ [op])).state = true) ∧
      ((s.run P before).reply P op = some (.error .rekeyRequired) ∨ op = .close →
        ∀ mid op' rest, after = mid ++ op' :: rest →
          (s.run P (before ++ op :: mid)).reply P op' ≠ some (.ok ())) := by
  rintro before op after rfl
  obtain ⟨-, hop, hafter⟩ := along_append.mp hregular
  have hsnoc : s.run P (before ++ [op]) = (s.run P before).call P op := by
    simp [run, List.foldl_append]
  refine ⟨hsnoc ▸ call_arc hop, ?_⟩
  rintro hspent mid op' rest rfl
  have hended := ended_of_spent hspent
  have hrun : s.run P (before ++ op :: mid) = ((s.run P before).call P op).run P mid := by
    simp [run, List.foldl_append]
  rw [hrun]
  clear hrun hregular
  change Along (WireSession.call P) Regular ((s.run P before).call P op) _ at hafter
  generalize (s.run P before).call P op = s' at hended hafter
  induction mid generalizing s' with
  | nil => exact (hended.call hafter.1).2
  | cons o mid ih => exact ih _ (hended.call hafter.1).1 hafter.2

section Sample

def sampleOutcome : HandshakeOutcome Sample.types :=
  ⟨List.Vector.replicate _ 0, List.Vector.replicate _ 7, 1, 0⟩

def openSession : WireSession :=
  (established Sample.primitives .client sampleOutcome).toOption.get rfl

/-- A packet of the peer under an exhausted counter. -/
def lastPacket : WirePacket :=
  let s := openSession.cipher
  ⟨(PacketHeader.new s.sessionId maxPacketNonce).encode.toList ++
    Sample.closeBox s.recvKey (Kdf.buildSessionNonce s.recvPrefix maxPacketNonce)
      (zeros innerPlaintextLen), by
    rw [List.length_append, List.Vector.toList_length, Sample.closeBox, List.length_append,
      length_zeros, Sample.length_tagOf]
    rfl⟩

/-- A session is closed although the state machine has no such arc; and one that needed new keys
is completed again with the old ones and then sends a packet. -/
theorem lifecycle_escapes :
    (∃ s, new Sample.primitives .client sampleOutcome.master sampleOutcome.sessionId = .ok s ∧
      (s.call Sample.primitives .close).state = .closed ∧
      s.state.canTransitionTo .closed = false) ∧
    established Sample.primitives .client sampleOutcome = .ok openSession ∧
    openSession.reply Sample.primitives (.decrypt lastPacket) = some (.error .rekeyRequired) ∧
    (openSession.run Sample.primitives [.decrypt lastPacket, .completeHandshake]).reply
      Sample.primitives (.encrypt .data (zeros payloadLen)) = some (.ok ()) := by
  refine ⟨⟨_, rfl, rfl, rfl⟩, rfl, ?_, ?_⟩
  · decide +kernel
  · decide +kernel

/-- A session that has met an exhausted counter fails the next packet. -/
theorem lifecycle_final_sample :
    (openSession.run Sample.primitives [.decrypt lastPacket]).reply Sample.primitives
      (.encrypt .data (zeros payloadLen)) ≠ some (.ok ()) :=
  (lifecycle_final Sample.primitives openSession
    [.decrypt lastPacket, .encrypt .data (zeros payloadLen)]
    ⟨⟨nofun, nofun⟩, ⟨nofun, nofun⟩, trivial⟩ [] _ _ rfl).2 (Or.inl (by decide +kernel)) [] _ [] rfl

end Sample

end WireSession
end PqTunnel
