import PqTunnel.Foundation.TwoRuns
import PqTunnel.Manager.Exhaustion

/-! Two runs of a manager that differ only in the application payloads look the same from outside:
the events have the same kinds, destinations and session ids, and the packets the same headers. -/
namespace PqTunnel
open ByteString CipherSession

/-- What an observer without the keys sees of a packet: its size and its cleartext header. -/
def WirePacket.outline (pkt : WirePacket) : ℕ × Octets headerLen :=
  (pkt.toList.length, pkt.headerBytes)

/-- An event without the encrypted part of the packets. -/
inductive Outline where
  | send (packets : List (ℕ × Octets headerLen)) (peer : SocketAddr)
  | sendPacket (packet : ℕ × Octets headerLen) (peer : SocketAddr)
  | established (sid : SessionId) (peer : SocketAddr)
  | appData (sid : SessionId) (inner : InnerPlaintext)
  | closed (sid : SessionId) (reason : CloseReason)
  | outboundDropped (dropped : ℕ)
  | none

def ManagerEvent.outline : ManagerEvent → Outline
  | .send packets peer => .send (packets.map WirePacket.outline) peer
  | .sendPacket packet peer => .sendPacket packet.outline peer
  | .established sid peer => .established sid peer
  | .appData sid inner => .appData sid inner
  | .closed sid reason => .closed sid reason
  | .outboundDropped dropped => .outboundDropped dropped
  | .none => .none

/-- Whether the AEAD encrypts, and how long its output is, depends on the plaintext only through
its length. -/
def AeadOblivious {T : CryptoTypes} (P : Primitives T) : Prop :=
  ∀ key nonce pt pt' aad, pt.length = pt'.length →
    (P.aeadSeal key nonce pt aad).map List.length = (P.aeadSeal key nonce pt' aad).map List.length

/-- Results with one look are both errors, and the same, or both not. -/
theorem cases_of_map_eq {ε α ω : Type} {look : α → ω} {r r' : Except ε α}
    (h : r.map look = r'.map look) :
    (∃ e, r = .error e ∧ r' = .error e) ∨ ∃ a a', r = .ok a ∧ r' = .ok a' ∧ look a = look a' := by
  cases r with
  | error e =>
    cases r' with
    | error e' =>
      obtain rfl := Except.error.inj h
      exact Or.inl ⟨e, rfl, rfl⟩
    | ok a' => cases h
  | ok a =>
    cases r' with
    | error e' => cases h
    | ok a' => exact Or.inr ⟨a, a', rfl, rfl, Except.ok.inj h⟩

variable {T : CryptoTypes} {P : Primitives T} {msgType msgType' : MessageType}
  {payload payload' : Bytes}

section Encryption

theorem fromParts_outline (header : Octets headerLen) {ct ct' : Bytes}
    (h : ct.length = ct'.length) : (WirePacket.fromParts header ct).map WirePacket.outline =
      (WirePacket.fromParts header ct').map WirePacket.outline := by
  by_cases hver : header.toList.getD 0 0 ≠ protocolVersion
  · rw [WirePacket.fromParts, if_pos hver, WirePacket.fromParts, if_pos hver]
  · by_cases hlen : ct.length ≠ packetSize - headerLen
    · have hlen' : ct'.length ≠ packetSize - headerLen := h ▸ hlen
      rw [WirePacket.fromParts, if_neg hver, dif_pos hlen, WirePacket.fromParts, if_neg hver,
        dif_pos hlen', h]
    · obtain ⟨pkt, hpkt⟩ : ∃ pkt, WirePacket.fromParts header ct = .ok pkt := by
        rw [WirePacket.fromParts, if_neg hver, dif_neg hlen]
        exact ⟨_, rfl⟩
      obtain ⟨pkt', hpkt'⟩ : ∃ pkt, WirePacket.fromParts header ct' = .ok pkt := by
        rw [WirePacket.fromParts, if_neg hver, dif_neg (h ▸ hlen)]
        exact ⟨_, rfl⟩
      have hheader : pkt.headerBytes = pkt'.headerBytes :=
        (fromParts_ok hpkt).1.trans (fromParts_ok hpkt').1.symm
      simp only [hpkt, hpkt', Except.map, WirePacket.outline, hheader, List.Vector.toList_length]

theorem sealPacket_outline (hP : AeadOblivious P) (s : CipherSession)
    (msgType msgType' : MessageType)
    (hlen : payload.length = payloadLen) (hlen' : payload'.length = payloadLen) :
    (s.sealPacket P msgType payload).map WirePacket.outline =
      (s.sealPacket P msgType' payload').map WirePacket.outline := by
  have hinner : InnerPlaintext.new msgType s.role.sendDirection payload =
      .ok ⟨msgType, s.role.sendDirection, ⟨payload, hlen⟩⟩ := dif_neg (not_not_intro hlen)
  have hinner' : InnerPlaintext.new msgType' s.role.sendDirection payload' =
      .ok ⟨msgType', s.role.sendDirection, ⟨payload', hlen'⟩⟩ := dif_neg (not_not_intro hlen')
  simp only [sealPacket, hlen, hlen', ne_eq, not_true_eq_false, if_false, hinner,
    hinner', Primitives.aeadEncrypt]
  split_ifs
  · rfl
  · have hseal := hP s.sendKey s.nextNonce
      (InnerPlaintext.encode ⟨msgType, s.role.sendDirection, ⟨payload, hlen⟩⟩).toList
      (InnerPlaintext.encode ⟨msgType', s.role.sendDirection, ⟨payload', hlen'⟩⟩).toList
      s.nextHeader.encode.toList (by rw [List.Vector.toList_length, List.Vector.toList_length])
    rcases cases_of_map_eq hseal with ⟨e, he, he'⟩ | ⟨ct, ct', hct, hct', hsame⟩
    · rw [he, he']
    · rw [hct, hct']
      exact fromParts_outline _ hsame

/-- Two encryptions that look the same and leave the same session. -/
def Blurred {ε σ : Type} (r r' : Except ε WirePacket × σ) : Prop :=
  r.1.map WirePacket.outline = r'.1.map WirePacket.outline ∧ r.2 = r'.2

theorem CipherSession.encrypt_blurred (hP : AeadOblivious P) (s : CipherSession)
    (msgType msgType' : MessageType)
    (hlen : payload.length = payloadLen) (hlen' : payload'.length = payloadLen) :
    Blurred (s.encrypt P msgType payload) (s.encrypt P msgType' payload') := by
  unfold encrypt
  rcases cases_of_map_eq (sealPacket_outline hP s msgType msgType' hlen hlen') with
    ⟨e, he, he'⟩ | ⟨pkt, pkt', hpkt, hpkt', hsame⟩
  · rw [he, he']
    exact ⟨rfl, rfl⟩
  · rw [hpkt, hpkt']
    cases checkedSucc s.sendCounter with
    | none => exact ⟨rfl, rfl⟩
    | some next => exact ⟨congrArg Except.ok hsame, rfl⟩

theorem WireSession.encrypt_blurred (hP : AeadOblivious P) (s : WireSession)
    (hlen : payload.length = payloadLen) (hlen' : payload'.length = payloadLen) :
    Blurred (s.encrypt P msgType payload) (s.encrypt P msgType' payload') := by
  unfold WireSession.encrypt
  cases s.requireEstablished with
  | error e => exact ⟨rfl, rfl⟩
  | ok =>
    obtain ⟨hlook, hstate⟩ := s.cipher.encrypt_blurred hP msgType msgType' hlen hlen'
    generalize s.cipher.encrypt P msgType payload = r at hlook hstate ⊢
    generalize s.cipher.encrypt P msgType' payload' = r' at hlook hstate ⊢
    obtain ⟨r, c⟩ := r
    obtain ⟨r', c'⟩ := r'
    obtain rfl : c = c' := hstate
    rcases cases_of_map_eq hlook with ⟨e, rfl, rfl⟩ | ⟨pkt, pkt', rfl, rfl, hsame⟩
    · exact ⟨rfl, rfl⟩
    · exact ⟨congrArg Except.ok hsame, rfl⟩

end Encryption

namespace ServerSessionManager

/-- What a call returns, as an observer without the keys sees it. -/
def reply (P : Primitives T) (m : ServerSessionManager T) :
    Call T → Except (Fault ManagerError) (List Outline)
  | .datagram pkt src clock now draw order =>
    (m.handleDatagram P pkt src clock now draw order).1.map fun ev => [ev.outline]
  | .setRoster _ => .ok []
  | .appOutbound sid payload => (m.appOutbound P sid payload).1.map fun ev => [ev.outline]
  | .tunOutbound sid payload => (m.tunOutbound P sid payload).1.map fun ev => [ev.outline]
  | .coverPacket sid fill => (m.coverPacket P sid fill).1.map fun ev => [ev.outline]
  | .coverPacketAll fills => (m.coverPacketAll P fills).1.map (List.map ManagerEvent.outline)
  | .closeSession sid now => (m.closeSession P sid now).1.map fun ev => [ev.outline]
  | .tick now order => .ok ((m.tick P now order).1.map ManagerEvent.outline)

/-- The call sends a payload of an accepted length on the session. -/
inductive Sends (sid : SessionId) : Call T → Prop where
  | app {payload : Bytes} (hlen : payload.length ≤ payloadLen) :
      Sends sid (.appOutbound sid payload)
  | tun {payload : Bytes} (hlen : payload.length = payloadLen) :
      Sends sid (.tunOutbound sid payload)

/-- Two calls that differ in an application payload at most. -/
inductive Variant : Call T → Call T → Prop where
  | same (c : Call T) : Variant c c
  | payload {c c' : Call T} (sid : SessionId) (h : Sends sid c) (h' : Sends sid c') : Variant c c'

/-- The replies of a run, call by call. -/
def replies (P : Primitives T) (m : ServerSessionManager T) (calls : List (Call T)) :
    List (Except (Fault ManagerError) (List Outline)) :=
  Transition.outputs (fun m c => (call P m c).2) (fun m c => [reply P m c]) m calls

end ServerSessionManager

/-- Two steps of a manager that return the same outline and leave the same state. -/
def SameOutline {σ : Type} (r r' : Except (Fault ManagerError) ManagerEvent × σ) : Prop :=
  r.1.map ManagerEvent.outline = r'.1.map ManagerEvent.outline ∧ r.2 = r'.2

theorem map_singleton {r r' : Except (Fault ManagerError) ManagerEvent}
    (h : r.map ManagerEvent.outline = r'.map ManagerEvent.outline) :
    r.map (fun ev => [ev.outline]) = r'.map fun ev => [ev.outline] := by
  rcases cases_of_map_eq h with ⟨e, he, he'⟩ | ⟨ev, ev', hev, hev', hsame⟩
  · rw [he, he']
  · simp only [hev, hev', Except.map, hsame]

namespace ServerSessionManager

variable {m : ServerSessionManager T} {sid : SessionId}

theorem afterEncrypt_blurred (entry : SessionEntry)
    {r r' : Except SessionError WirePacket × WireSession} (h : Blurred r r') :
    SameOutline (m.afterEncrypt sid entry r) (m.afterEncrypt sid entry r') := by
  obtain ⟨r, s⟩ := r
  obtain ⟨r', s'⟩ := r'
  obtain ⟨hlook, rfl⟩ : _ ∧ s = s' := h
  rcases cases_of_map_eq hlook with ⟨e, rfl, rfl⟩ | ⟨pkt, pkt', rfl, rfl, hsame⟩
  · exact ⟨rfl, rfl⟩
  · refine ⟨?_, rfl⟩
    simp only [afterEncrypt, Except.map, ManagerEvent.outline, hsame]

theorem sendEncrypted_blurred (hP : AeadOblivious P) (m : ServerSessionManager T)
    (sid : SessionId) (msgType msgType' : MessageType) (hlen : payload.length = payloadLen)
    (hlen' : payload'.length = payloadLen) : SameOutline (m.sendEncrypted P sid msgType payload)
      (m.sendEncrypted P sid msgType' payload') := by
  unfold sendEncrypted
  cases m.sessions.get sid with
  | none => exact ⟨rfl, rfl⟩
  | some entry => exact afterEncrypt_blurred entry (entry.session.encrypt_blurred hP hlen hlen')

/-- Every call that sends a payload encrypts one full slot. -/
theorem Sends.encrypts {c : Call T} (h : Sends sid c) (m : ServerSessionManager T) :
    ∃ msgType payload, payload.length = payloadLen ∧
      reply P m c = (m.sendEncrypted P sid msgType payload).1.map (fun ev => [ev.outline]) ∧
      (call P m c).2 = (m.sendEncrypted P sid msgType payload).2 := by
  cases h with
  | @app payload hlen =>
    have heq : m.appOutbound P sid payload = m.sendEncrypted P sid .data (padSlot payload) := by
      rw [appOutbound, if_neg (Nat.not_lt.mpr hlen)]
    exact ⟨.data, padSlot payload, length_padSlot hlen, by rw [reply, heq], by rw [call, heq]⟩
  | @tun payload hlen =>
    have heq : m.tunOutbound P sid payload = m.sendEncrypted P sid .tunData payload := by
      rw [tunOutbound, if_neg (not_not_intro hlen)]
    exact ⟨.tunData, payload, hlen, by rw [reply, heq], by rw [call, heq]⟩

theorem Variant.step (hP : AeadOblivious P) {c c' : Call T} (h : Variant c c')
    (m : ServerSessionManager T) :
    reply P m c = reply P m c' ∧ (call P m c).2 = (call P m c').2 := by
  cases h with
  | same => exact ⟨rfl, rfl⟩
  | payload sid h h' =>
    obtain ⟨msgType, payload, hlen, hreply, hcall⟩ := h.encrypts (P := P) m
    obtain ⟨msgType', payload', hlen', hreply', hcall'⟩ := h'.encrypts (P := P) m
    have hsame := sendEncrypted_blurred hP m sid msgType msgType' hlen hlen'
    rw [hreply, hreply', hcall, hcall']
    exact ⟨map_singleton hsame.1, hsame.2⟩

/-- Runs of the server that differ in application payloads look the same. -/
theorem replies_paired (hP : AeadOblivious P) {m : ServerSessionManager T}
    {calls calls' : List (Call T)}
    (h : Transition.Paired (fun m c => (call P m c).2) (fun _ => Variant) m calls calls') :
    replies P m calls = replies P m calls' := by
  apply h.outputs_eq (R := Eq)
  · rintro m _ c c' rfl hvar
    obtain ⟨hreply, hcall⟩ := hvar.step hP m
    exact ⟨congrArg (fun r => [r]) hreply, hcall⟩
  · rfl

end ServerSessionManager

namespace ClientSessionManager

/-- What a call returns, as an observer without the keys sees it. -/
def reply (P : Primitives T) (m : ClientSessionManager T) :
    Call T → Except (Fault ManagerError) (List Outline)
  | .beginHandshake draws kemSk xSk now =>
    (m.beginHandshake P draws kemSk xSk now).1.map fun ev => [ev.outline]
  | .datagram pkt src rand now =>
    (m.handleDatagram P pkt src rand now).1.map fun ev => [ev.outline]
  | .onTimer now => (m.onTimer P now).1.map fun ev => [ev.outline]
  | .takeSlot now clock => .ok ((m.takeSlot P now clock).1.toList.map ManagerEvent.outline)
  | .appOutbound payload now => (m.appOutbound P payload now).1.map fun ev => [ev.outline]
  | .tunOutbound payload now => (m.tunOutbound P payload now).1.map fun ev => [ev.outline]
  | .coverPacket fill now => (m.coverPacket P fill now).1.map fun ev => [ev.outline]
  | .close now => (m.close P now).1.map fun ev => [ev.outline]
  | .tick now => .ok ((m.tick P now).1.map ManagerEvent.outline)

/-- The call sends a payload of an accepted length at this time. -/
inductive Sends (now : ℕ) : Call T → Prop where
  | app {payload : Bytes} (hlen : payload.length ≤ payloadLen) :
      Sends now (.appOutbound payload now)
  | tun {payload : Bytes} (hlen : payload.length = payloadLen) :
      Sends now (.tunOutbound payload now)

inductive Variant (m : ClientSessionManager T) : Call T → Call T → Prop where
  | same (c : Call T) : Variant m c c
  | app (now : ℕ) {payload payload' : Bytes} (hlen : payload.length ≤ payloadLen)
      (hlen' : payload'.length ≤ payloadLen) :
      Variant m (.appOutbound payload now) (.appOutbound payload' now)
  | tun (now : ℕ) {payload payload' : Bytes} (hlen : payload.length = payloadLen)
      (hlen' : payload'.length = payloadLen) :
      Variant m (.tunOutbound payload now) (.tunOutbound payload' now)
  | swap {c c' : Call T} (now : ℕ) (held : m.session.isSome) (h : Sends now c)
      (h' : Sends now c') : Variant m c c'

/-- The replies of a run, call by call. -/
def replies (P : Primitives T) (m : ClientSessionManager T) (calls : List (Call T)) :
    List (Except (Fault ManagerError) (List Outline)) :=
  Transition.outputs (fun m c => (call P m c).2) (fun m c => [reply P m c]) m calls

def withQueue (m : ClientSessionManager T) (q : List QueuedPayload) : ClientSessionManager T :=
  { m with outQueue := q }

/-- The managers differ in the contents of the buffered payloads at most. -/
def Alike (m m' : ClientSessionManager T) : Prop :=
  ∃ q, m' = m.withQueue q ∧ q.map (·.queuedAt) = m.outQueue.map (·.queuedAt)

/-- A function that neither reads nor changes the buffered payloads. -/
def Ignores {α : Type} (f : ClientSessionManager T → α × ClientSessionManager T) : Prop :=
  ∀ m q, f (m.withQueue q) = ((f m).1, (f m).2.withQueue q)

section Frame

variable {m m' : ClientSessionManager T} {α : Type}
  {f : ClientSessionManager T → α × ClientSessionManager T}

theorem Ignores.outQueue_eq (h : Ignores f) (m : ClientSessionManager T) :
    (f m).2.outQueue = m.outQueue := by
  have heq := h m m.outQueue
  rw [show m.withQueue m.outQueue = m from rfl] at heq
  rw [heq]
  rfl

theorem Ignores.snd_eq (h : Ignores f) (m : ClientSessionManager T) (q : List QueuedPayload) :
    (f (m.withQueue q)).2 = (f m).2.withQueue q := congrArg Prod.snd (h m q)

theorem Ignores.alike (h : Ignores f) (hm : Alike m m') :
    (f m).1 = (f m').1 ∧ Alike (f m).2 (f m').2 := by
  obtain ⟨q, rfl, hq⟩ := hm
  rw [h m q]
  refine ⟨rfl, q, rfl, ?_⟩
  rw [h.outQueue_eq, hq]

variable (m) (q : List QueuedPayload)

@[simp] theorem session_withQueue :
    (m.withQueue q).session = m.session := rfl

@[simp] theorem hs_withQueue :
    (m.withQueue q).hs = m.hs := rfl

@[simp] theorem nextProbeAt_withQueue :
    (m.withQueue q).nextProbeAt = m.nextProbeAt := rfl

@[simp] theorem sessionId_withQueue :
    (m.withQueue q).sessionId = m.sessionId := rfl

variable {m} (now : ℕ)

theorem ignores_teardown (sendClose : Bool) :
    Ignores fun m : ClientSessionManager T => m.teardown P now sendClose := by
  intro m q
  simp only [teardown, session_withQueue]
  cases m.session with
  | none => rfl
  | some session =>
    simp only [retireSid, withQueue]
    generalize session.encrypt P .close closeSlot = r
    obtain ⟨r, closing⟩ := r
    by_cases hmem : session.sessionId ∈ m.retiredSids <;> cases sendClose <;>
      simp only [hmem, if_true, if_false, Bool.true_eq_false] <;> cases r <;> rfl

theorem ignores_afterEncrypt (session : WireSession) (now : ℕ)
    (r : Except SessionError WirePacket × WireSession) :
    Ignores fun m : ClientSessionManager T => m.afterEncrypt P session now r := by
  intro m q
  have hdown := (ignores_teardown (P := P) now true).snd_eq (m.stored session r) q
  simp only [afterEncrypt]
  split
  · rfl
  · exact Prod.ext rfl hdown
  · rfl

theorem ignores_sendEncrypted (msgType : MessageType) (payload : Bytes) (now : ℕ) :
    Ignores fun m : ClientSessionManager T => m.sendEncrypted P msgType payload now := by
  intro m q
  simp only [sendEncrypted, session_withQueue]
  cases m.session with
  | none => rfl
  | some session => exact ignores_afterEncrypt _ now _ m q

theorem ignores_coverPacket (fill : Except String Payload) (now : ℕ) :
    Ignores fun m : ClientSessionManager T => m.coverPacket P fill now := by
  intro m q
  simp only [coverPacket, session_withQueue]
  cases m.session with
  | none => rfl
  | some session => exact ignores_afterEncrypt _ now _ m q

theorem ignores_freshSid (draws : List (Except String SessionId)) :
    Ignores fun m : ClientSessionManager T => m.freshSid draws := by
  intro m q
  induction draws with
  | nil => rfl
  | cons d draws ih =>
    cases d with
    | error e => rfl
    | ok sid =>
      by_cases hused : sid ∈ m.usedSids
      · have hused' : sid ∈ (m.withQueue q).usedSids := hused
        simp only [freshSid, if_pos hused, if_pos hused']
        exact ih
      · have hused' : sid ∉ (m.withQueue q).usedSids := hused
        simp only [freshSid, if_neg hused, if_neg hused']
        rfl

theorem ignores_beginHandshake (draws : List.Vector (Except String SessionId) 8)
    (kemSk : Except CryptoError T.KemSk) (xSk : T.XSk) (now : ℕ) :
    Ignores fun m : ClientSessionManager T => m.beginHandshake P draws kemSk xSk now := by
  intro m q
  have hsid : (m.withQueue q).freshSid draws.toList = _ := ignores_freshSid draws.toList m q
  simp only [beginHandshake, hs_withQueue, session_withQueue, hsid]
  split
  · rfl
  · generalize m.freshSid draws.toList = r
    obtain ⟨sid, m⟩ := r
    cases sid with
    | error e => rfl
    | ok sid =>
      have hnew : (m.withQueue q).newHandshake P sid kemSk xSk = m.newHandshake P sid kemSk xSk :=
        rfl
      simp only [hnew]
      cases m.newHandshake P sid kemSk xSk <;> rfl

theorem buildProbe_withQueue (m : ClientSessionManager T) (q : List QueuedPayload) :
    (m.withQueue q).buildProbe P = ((m.buildProbe P).1, (m.buildProbe P).2.withQueue q) := by
  simp only [buildProbe, session_withQueue]
  cases m.session <;> rfl

theorem ignores_onM3Sent (packets : List WirePacket) (outcome : HandshakeOutcome T) (now : ℕ) :
    Ignores fun m : ClientSessionManager T => m.onM3Sent P packets outcome now := by
  intro m q
  have hretired : (m.withQueue q).retiredSids = m.retiredSids := rfl
  simp only [onM3Sent, session_withQueue, hretired]
  split
  · rfl
  · split
    · rfl
    · cases WireSession.established P .client outcome <;> rfl

theorem ignores_onDataPacket (pkt : WirePacket) (src : SocketAddr) (now : ℕ) :
    Ignores fun m : ClientSessionManager T => m.onDataPacket P pkt src now := by
  intro m q
  simp only [onDataPacket, session_withQueue]
  cases m.session with
  | none => rfl
  | some session =>
    dsimp only
    split
    · rfl
    · generalize session.decrypt P pkt = r
      obtain ⟨opened, session⟩ := r
      dsimp only
      cases dataResult opened with
      | error e => rfl
      | ok res =>
        cases res with
        | payload inner =>
          have hdown := (ignores_teardown (P := P) now false).snd_eq
            { m with session := some session, ready := true, roundsUnanswered := 0, peer := src } q
          dsimp only
          cases inner.msgType with
          | close => exact Prod.ext rfl hdown
          | _ => rfl
        | sessionDead reason =>
          have hdown := (ignores_teardown (P := P) now true).snd_eq
            { m with session := some session } q
          exact Prod.ext rfl hdown
        | _ => rfl

theorem ignores_handleDatagram (pkt : WirePacket) (src : SocketAddr) (rand : T.KemRand)
    (now : ℕ) : Ignores fun m : ClientSessionManager T => m.handleDatagram P pkt src rand now := by
  intro m q
  simp only [handleDatagram, hs_withQueue]
  split
  · cases m.hs with
    | none => rfl
    | some hs =>
      dsimp only
      generalize hs.handleDatagram P pkt rand = r
      obtain ⟨r, hs⟩ := r
      cases r with
      | error e => rfl
      | ok ev =>
        cases ev with
        | m3Sent packets outcome =>
          exact ignores_onM3Sent packets outcome now (m.withMachine hs (.ok (.m3Sent ..))) q
        | _ => rfl
  · exact ignores_onDataPacket pkt src now m q

theorem ignores_onTimer : Ignores fun m : ClientSessionManager T => m.onTimer P now := by
  intro m q
  simp only [onTimer, hs_withQueue]
  cases m.hs with
  | some machine =>
    dsimp only
    generalize machine.onTimer = r
    obtain ⟨r, hs⟩ := r
    cases r with
    | error e =>
      cases e with
      | err e => cases e <;> rfl
      | _ => rfl
    | ok ev =>
      cases ev with
      | m3Sent packets outcome =>
        exact ignores_onM3Sent packets outcome now (m.withMachine hs (.ok (.m3Sent ..))) q
      | _ => rfl
  | none =>
    have hidle : ((m.withQueue q).session.isNone || (m.withQueue q).ready ||
      (m.withQueue q).m3Exhausted) = (m.session.isNone || m.ready || m.m3Exhausted) := rfl
    have hspent : ((m.withQueue q).cfg.m3MaxAttempts ≤ (m.withQueue q).m3Attempts) =
      (m.cfg.m3MaxAttempts ≤ m.m3Attempts) := rfl
    simp only [hidle, hspent]
    split
    · rfl
    · split
      · rfl
      · have hnext : ({ m.withQueue q with
            hs := none, m3Attempts := (m.withQueue q).m3Attempts + 1 } : ClientSessionManager T) =
            withQueue { m with hs := none, m3Attempts := m.m3Attempts + 1 } q := rfl
        rw [hnext, buildProbe_withQueue]
        rfl

theorem ignores_takeProbe : Ignores fun m : ClientSessionManager T => m.takeProbe P now := by
  intro m q
  simp only [takeProbe, nextProbeAt_withQueue]
  cases m.nextProbeAt with
  | none => rfl
  | some due =>
    dsimp only
    split
    · rfl
    · have hdue : ({ m.withQueue q with
          nextProbeAt := some (now + (m.withQueue q).limits.livenessProbeInterval) } :
            ClientSessionManager T) = withQueue
          { m with nextProbeAt := some (now + m.limits.livenessProbeInterval) } q := rfl
      rw [hdue]
      generalize ({ m with nextProbeAt := some (now + m.limits.livenessProbeInterval) } :
        ClientSessionManager T) = m
      rw [buildProbe_withQueue]
      generalize m.buildProbe P = r
      obtain ⟨probe, m⟩ := r
      cases probe with
      | none => rfl
      | some packet =>
        have hready : (m.withQueue q).ready = m.ready := rfl
        simp only [hready]
        cases m.ready <;> rfl

theorem ignores_closeNow (reason : CloseReason) (now : ℕ) :
    Ignores fun m : ClientSessionManager T => m.closeNow P reason now := by
  intro m q
  simp only [closeNow, sessionId_withQueue]
  cases m.sessionId with
  | none => rfl
  | some sid =>
    exact congrArg (fun r => (r.1.toList ++ [ManagerEvent.closed sid reason], r.2))
      (ignores_teardown now true m q)

theorem ignores_closeIf {p : ClientSessionManager T → Bool}
    (hp : ∀ m q, p (m.withQueue q) = p m) (reason : CloseReason) (now : ℕ) :
    Ignores fun m : ClientSessionManager T => m.closeIf P (p m) reason now := by
  intro m q
  simp only [closeIf, hp]
  split
  · exact ignores_closeNow reason now m q
  · rfl

theorem ignores_expireHandshake :
    Ignores fun m : ClientSessionManager T => m.expireHandshake now := by
  intro m q
  have hpassed : (m.withQueue q).handshakeDeadlinePassed now = m.handshakeDeadlinePassed now := rfl
  simp only [expireHandshake, hpassed, hs_withQueue]
  cases m.hs with
  | none => rfl
  | some hs =>
    dsimp only
    split <;> rfl

/-- One function after the other; the events are put together. -/
def andThen (f g : ClientSessionManager T → List ManagerEvent × ClientSessionManager T)
    (m : ClientSessionManager T) : List ManagerEvent × ClientSessionManager T :=
  ((f m).1 ++ (g (f m).2).1, (g (f m).2).2)

theorem Ignores.andThen {f g : ClientSessionManager T → List ManagerEvent × ClientSessionManager T}
    (hf : Ignores f) (hg : Ignores g) : Ignores (andThen f g) := by
  intro m q
  simp only [ClientSessionManager.andThen, hf m q, hg (f m).2 q]

def deadlines (P : Primitives T) (now : ℕ) :
    ClientSessionManager T → List ManagerEvent × ClientSessionManager T :=
  andThen (andThen (andThen (fun m => m.expireHandshake now)
    (fun m => m.closeIf P (m.lifetimePassed now) .lifetimeCap now))
    (fun m => m.closeIf P (m.confirmDeadlinePassed now) .notConfirmed now))
    (fun m => m.closeIf P m.peerUnresponsive .peerUnresponsive now)

theorem ignores_deadlines : Ignores (deadlines (T := T) P now) :=
  (((ignores_expireHandshake now).andThen (ignores_closeIf (p := fun m => m.lifetimePassed now)
    (fun _ _ => rfl) _ now)).andThen (ignores_closeIf (p := fun m => m.confirmDeadlinePassed now)
    (fun _ _ => rfl) _ now)).andThen (ignores_closeIf (p := peerUnresponsive) (fun _ _ => rfl) _ now)

theorem tick_eq (m : ClientSessionManager T) (now : ℕ) : m.tick P now =
    let (evs, m) := deadlines P now m
    let (dropped, m) := m.expireQueued now
    let lost := if 0 < dropped then [ManagerEvent.outboundDropped m.droppedOutbound] else []
    let (resent, closes, log) := retransmitCloses P m.pendingCloses now
    (evs ++ lost ++ m.pendingClosed ++ resent,
      { m with
        pendingClosed := []
        pendingCloses := closes
        encrypted := m.encrypted ++ log }) := rfl

theorem ignores_close : Ignores fun m : ClientSessionManager T => m.close P now := by
  intro m q
  simp only [close, sessionId_withQueue]
  cases m.sessionId with
  | none => rfl
  | some sid =>
    exact congrArg (fun r => (Except.ok (r.1.getD .none), { r.2 with
      pendingClosed := r.2.pendingClosed ++ [ManagerEvent.closed sid .userClosed] }))
      (ignores_teardown now true m q)

end Frame

section Queue

variable {m m' : ClientSessionManager T}

theorem length_queue {q q' : List QueuedPayload} (h : q.map (·.queuedAt) = q'.map (·.queuedAt)) :
    q.length = q'.length := by
  simpa using congrArg List.length h

/-- Which payloads expire depends on their times alone. -/
theorem kept_queue {q q' : List QueuedPayload} (h : q.map (·.queuedAt) = q'.map (·.queuedAt))
    (now : ℕ) :
    (q.filter fun p => decide (now - p.queuedAt < outboundQueueTtl)).map (·.queuedAt) =
      (q'.filter fun p => decide (now - p.queuedAt < outboundQueueTtl)).map (·.queuedAt) := by
  calc _ = (q.map (·.queuedAt)).filter fun t => decide (now - t < outboundQueueTtl) :=
        List.filter_map.symm
    _ = (q'.map (·.queuedAt)).filter fun t => decide (now - t < outboundQueueTtl) := by rw [h]
    _ = _ := List.filter_map

theorem Alike.expireQueued (h : Alike m m') (now : ℕ) :
    (m.expireQueued now).1 = (m'.expireQueued now).1 ∧
      Alike (m.expireQueued now).2 (m'.expireQueued now).2 := by
  obtain ⟨q, rfl, hq⟩ := h
  have hkept := kept_queue hq now
  have hcount : (m.expireQueued now).1 = ((m.withQueue q).expireQueued now).1 := by
    simp only [ClientSessionManager.expireQueued, withQueue]
    rw [length_queue hq, length_queue hkept]
  refine ⟨hcount, ((m.withQueue q).expireQueued now).2.outQueue, ?_, hkept⟩
  have hdropped : saturatingAddU64 m.droppedOutbound (m.expireQueued now).1 =
      saturatingAddU64 m.droppedOutbound ((m.withQueue q).expireQueued now).1 := by rw [hcount]
  simp only [ClientSessionManager.expireQueued, withQueue] at hdropped ⊢
  rw [hdropped]

/-- Two steps that return the same outline and leave managers that are alike. -/
def Matches (r r' : ClientStep T) : Prop :=
  r.1.map ManagerEvent.outline = r'.1.map ManagerEvent.outline ∧ Alike r.2 r'.2

theorem Matches.of_sameOutline {r r' r'' : ClientStep T} (h : SameOutline r r')
    (h' : r'.1 = r''.1 ∧ Alike r'.2 r''.2) : Matches r r'' := by
  refine ⟨h.1.trans (congrArg _ h'.1), ?_⟩
  rw [h.2]
  exact h'.2

theorem afterEncrypt_blurred (m : ClientSessionManager T) (session : WireSession) (now : ℕ)
    {r r' : Except SessionError WirePacket × WireSession} (h : Blurred r r') :
    SameOutline (m.afterEncrypt P session now r) (m.afterEncrypt P session now r') := by
  obtain ⟨r, s⟩ := r
  obtain ⟨r', s'⟩ := r'
  obtain ⟨hlook, rfl⟩ : _ ∧ s = s' := h
  rcases cases_of_map_eq hlook with ⟨e, rfl, rfl⟩ | ⟨pkt, pkt', rfl, rfl, hsame⟩
  · exact ⟨rfl, rfl⟩
  · refine ⟨?_, rfl⟩
    simp only [afterEncrypt, Except.map, ManagerEvent.outline, hsame]

theorem Alike.sendEncrypted (hP : AeadOblivious P) (h : Alike m m') (msgType msgType' : MessageType)
    (hlen : payload.length = payloadLen) (hlen' : payload'.length = payloadLen) (now : ℕ) :
    Matches (m.sendEncrypted P msgType payload now) (m'.sendEncrypted P msgType' payload' now) := by
  have hsame : SameOutline (m.sendEncrypted P msgType payload now)
      (m.sendEncrypted P msgType' payload' now) := by
    unfold ClientSessionManager.sendEncrypted
    cases m.session with
    | none => exact ⟨rfl, rfl⟩
    | some session =>
      exact afterEncrypt_blurred m session now (session.encrypt_blurred hP hlen hlen')
  exact .of_sameOutline hsame ((ignores_sendEncrypted msgType' payload' now).alike h)

theorem Alike.takeQueuedPayload (hP : AeadOblivious P) (h : Alike m m') (now clock : ℕ) :
    (m.takeQueuedPayload P now clock).1.map ManagerEvent.outline =
      (m'.takeQueuedPayload P now clock).1.map ManagerEvent.outline ∧
    Alike (m.takeQueuedPayload P now clock).2 (m'.takeQueuedPayload P now clock).2 := by
  obtain ⟨-, hkept⟩ := h.expireQueued now
  unfold ClientSessionManager.takeQueuedPayload
  generalize m.expireQueued now = r at hkept ⊢
  generalize m'.expireQueued now = r' at hkept ⊢
  obtain ⟨n, m⟩ := r
  obtain ⟨n', m'⟩ := r'
  dsimp only at hkept ⊢
  obtain ⟨q, rfl, hq⟩ := hkept
  have hqueue : (m.withQueue q).outQueue = q := rfl
  rw [hqueue]
  cases hold : m.outQueue with
  | nil =>
    obtain rfl : q = [] := by simpa [hold] using hq
    exact ⟨rfl, [], rfl, by rw [hold]⟩
  | cons p rest =>
    cases q with
    | nil => simp [hold] at hq
    | cons p' rest' =>
      rw [hold, List.map_cons, List.map_cons] at hq
      have hrest : Alike { m with outQueue := rest }
          { m.withQueue (p' :: rest') with outQueue := rest' } :=
        ⟨rest', rfl, (List.cons.inj hq).2⟩
      have hfull : ∀ p : QueuedPayload, (padSlot (p.payload.take payloadLen)).length = payloadLen :=
        fun p => length_padSlot (List.length_take_le ..)
      obtain ⟨hlook, halike⟩ := hrest.sendEncrypted hP .data .data (hfull p) (hfull p') clock
      dsimp only
      generalize ClientSessionManager.sendEncrypted P { m with outQueue := rest } .data _ clock = r
        at hlook halike ⊢
      generalize ClientSessionManager.sendEncrypted P
        { m.withQueue (p' :: rest') with outQueue := rest' } .data _ clock = r' at hlook halike ⊢
      obtain ⟨r, m⟩ := r
      obtain ⟨r', m'⟩ := r'
      rcases cases_of_map_eq hlook with ⟨e, rfl, rfl⟩ | ⟨ev, ev', rfl, rfl, hsame⟩
      · exact ⟨rfl, halike⟩
      · exact ⟨congrArg some hsame, halike⟩

theorem Alike.takeSlot (hP : AeadOblivious P) (h : Alike m m') (now clock : ℕ) :
    (m.takeSlot P now clock).1.map ManagerEvent.outline =
      (m'.takeSlot P now clock).1.map ManagerEvent.outline ∧
    Alike (m.takeSlot P now clock).2 (m'.takeSlot P now clock).2 := by
  have hpaced : m'.session = m.session ∧ m'.lastSlotAt = m.lastSlotAt ∧ m'.limits = m.limits := by
    obtain ⟨q, rfl, -⟩ := h
    exact ⟨rfl, rfl, rfl⟩
  have hslot : ∀ {m m' : ClientSessionManager T}, Alike m m' →
      Alike { m with lastSlotAt := some now } { m' with lastSlotAt := some now } := by
    rintro m _ ⟨q, rfl, hq⟩
    exact ⟨q, rfl, hq⟩
  unfold ClientSessionManager.takeSlot
  rw [hpaced.1, hpaced.2.1, hpaced.2.2]
  split
  · exact ⟨rfl, h⟩
  · split
    · exact ⟨rfl, h⟩
    · obtain ⟨hlook, halike⟩ := h.takeQueuedPayload hP now clock
      generalize m.takeQueuedPayload P now clock = r at hlook halike ⊢
      generalize m'.takeQueuedPayload P now clock = r' at hlook halike ⊢
      obtain ⟨ev, m⟩ := r
      obtain ⟨ev', m'⟩ := r'
      cases ev with
      | some ev =>
        cases ev' with
        | none => cases hlook
        | some ev' => exact ⟨hlook, hslot halike⟩
      | none =>
        cases ev' with
        | some ev' => cases hlook
        | none =>
          obtain ⟨hprobe, hnext⟩ := (ignores_takeProbe (P := P) now).alike halike
          dsimp only at hprobe hnext ⊢
          generalize m.takeProbe P now = r at hprobe hnext ⊢
          generalize m'.takeProbe P now = r' at hprobe hnext ⊢
          obtain ⟨ev, m⟩ := r
          obtain ⟨ev', m'⟩ := r'
          obtain rfl : ev = ev' := hprobe
          cases ev with
          | none => exact ⟨rfl, hnext⟩
          | some ev => exact ⟨rfl, hslot hnext⟩

theorem Alike.tick (h : Alike m m') (now : ℕ) :
    (m.tick P now).1 = (m'.tick P now).1 ∧ Alike (m.tick P now).2 (m'.tick P now).2 := by
  obtain ⟨hevs, h⟩ := (ignores_deadlines (P := P) now).alike h
  rw [tick_eq, tick_eq]
  generalize deadlines P now m = r, deadlines P now m' = r' at hevs h ⊢
  obtain ⟨evs, m⟩ := r
  obtain ⟨_, m'⟩ := r'
  obtain rfl := hevs
  obtain ⟨hdropped, h⟩ := h.expireQueued now
  dsimp only at hdropped h ⊢
  generalize m.expireQueued now = r, m'.expireQueued now = r' at hdropped h ⊢
  obtain ⟨dropped, m⟩ := r
  obtain ⟨_, m'⟩ := r'
  obtain rfl := hdropped
  obtain ⟨q, rfl, hq⟩ := h
  exact ⟨rfl, q, rfl, hq⟩

theorem Alike.enqueue (h : Alike m m') (payload payload' : Bytes) (now : ℕ) :
    Matches (m.enqueue payload now) (m'.enqueue payload' now) := by
  obtain ⟨q, rfl, hq⟩ := h
  have hfull : (m.withQueue q).outQueue.length = m.outQueue.length := length_queue hq
  unfold ClientSessionManager.enqueue
  rw [hfull]
  split
  · exact ⟨rfl, q, rfl, hq⟩
  · refine ⟨rfl, q ++ [⟨payload', now⟩], rfl, ?_⟩
    simp only [List.map_append, hq, List.map_cons, List.map_nil]

/-- On a held session a call that sends a payload encrypts one full slot. -/
theorem Sends.encrypts {now : ℕ} {c : Call T} (h : Sends now c) (held : m.session.isSome) :
    ∃ msgType payload, payload.length = payloadLen ∧
      reply P m c = (m.sendEncrypted P msgType payload now).1.map (fun ev => [ev.outline]) ∧
      (call P m c).2 = (m.sendEncrypted P msgType payload now).2 := by
  have hnone : ¬ m.session.isNone = true := by simpa [Option.isSome_iff_ne_none] using held
  cases h with
  | @app payload hlen =>
    have heq : m.appOutbound P payload now = m.sendEncrypted P .data (padSlot payload) now := by
      rw [appOutbound, if_neg (Nat.not_lt.mpr hlen), if_neg hnone]
    exact ⟨.data, padSlot payload, length_padSlot hlen, by rw [reply, heq], by rw [call, heq]⟩
  | @tun payload hlen =>
    have heq : m.tunOutbound P payload now = m.sendEncrypted P .tunData payload now := by
      rw [tunOutbound, if_neg (not_not_intro hlen), if_neg hnone]
    exact ⟨.tunData, payload, hlen, by rw [reply, heq], by rw [call, heq]⟩

theorem Alike.swap (hP : AeadOblivious P) (h : Alike m m') {now : ℕ} {c c' : Call T}
    (held : m.session.isSome) (hc : Sends now c) (hc' : Sends now c') :
    reply P m c = reply P m' c' ∧ Alike (call P m c).2 (call P m' c').2 := by
  have held' : m'.session.isSome := by
    obtain ⟨q, rfl, -⟩ := h
    exact held
  obtain ⟨msgType, payload, hlen, hreply, hcall⟩ := hc.encrypts (P := P) held
  obtain ⟨msgType', payload', hlen', hreply', hcall'⟩ := hc'.encrypts (P := P) held'
  have hsame := h.sendEncrypted hP msgType msgType' hlen hlen' now
  rw [hreply, hreply', hcall, hcall']
  exact ⟨map_singleton hsame.1, hsame.2⟩

/-- Without a session a datagram payload is buffered, and a tunnel payload dropped. -/
theorem Alike.appOutbound (hP : AeadOblivious P) (h : Alike m m') (now : ℕ)
    (hlen : payload.length ≤ payloadLen) (hlen' : payload'.length ≤ payloadLen) :
    reply P m (.appOutbound payload now) = reply P m' (.appOutbound payload' now) ∧
      Alike (call P m (.appOutbound payload now)).2 (call P m' (.appOutbound payload' now)).2 := by
  cases hget : m.session with
  | some session => exact h.swap hP (by rw [hget]; rfl) (.app hlen) (.app hlen')
  | none =>
    have hget' : m'.session = none := by
      obtain ⟨q, rfl, -⟩ := h
      exact hget
    have hbuf := h.enqueue (padSlot payload) (padSlot payload') now
    have heq : m.appOutbound P payload now = m.enqueue (padSlot payload) now := by
      rw [ClientSessionManager.appOutbound, if_neg (Nat.not_lt.mpr hlen), hget]
      rfl
    have heq' : m'.appOutbound P payload' now = m'.enqueue (padSlot payload') now := by
      rw [ClientSessionManager.appOutbound, if_neg (Nat.not_lt.mpr hlen'), hget']
      rfl
    simp only [reply, call, heq, heq']
    exact ⟨map_singleton hbuf.1, hbuf.2⟩

theorem Alike.tunOutbound (hP : AeadOblivious P) (h : Alike m m') (now : ℕ)
    (hlen : payload.length = payloadLen) (hlen' : payload'.length = payloadLen) :
    reply P m (.tunOutbound payload now) = reply P m' (.tunOutbound payload' now) ∧
      Alike (call P m (.tunOutbound payload now)).2 (call P m' (.tunOutbound payload' now)).2 := by
  cases hget : m.session with
  | some session => exact h.swap hP (by rw [hget]; rfl) (.tun hlen) (.tun hlen')
  | none =>
    have hget' : m'.session = none := by
      obtain ⟨q, rfl, -⟩ := h
      exact hget
    have heq : m.tunOutbound P payload now = (.ok .none, m) := by
      rw [ClientSessionManager.tunOutbound, if_neg (not_not_intro hlen), hget]
      rfl
    have heq' : m'.tunOutbound P payload' now = (.ok .none, m') := by
      rw [ClientSessionManager.tunOutbound, if_neg (not_not_intro hlen'), hget']
      rfl
    refine ⟨by rw [reply, reply, heq, heq'], ?_⟩
    rw [call, call, heq, heq']
    exact h

theorem Ignores.reply_eq {f : ClientSessionManager T → ClientStep T} (hf : Ignores f)
    (h : Alike m m') : (f m).1.map (fun ev => [ev.outline]) =
      (f m').1.map (fun ev => [ev.outline]) ∧ Alike (f m).2 (f m').2 := by
  obtain ⟨hev, halike⟩ := hf.alike h
  exact ⟨congrArg _ hev, halike⟩

theorem Variant.step (hP : AeadOblivious P) {c c' : Call T} (hvar : Variant m c c')
    (h : Alike m m') :
    reply P m c = reply P m' c' ∧ Alike (call P m c).2 (call P m' c').2 := by
  cases hvar with
  | app now hlen hlen' => exact h.appOutbound hP now hlen hlen'
  | tun now hlen hlen' => exact h.tunOutbound hP now hlen hlen'
  | swap now held hc hc' => exact h.swap hP held hc hc'
  | same =>
    cases c with
    | beginHandshake draws kemSk xSk now =>
      exact (ignores_beginHandshake draws kemSk xSk now).reply_eq h
    | datagram pkt src rand now => exact (ignores_handleDatagram pkt src rand now).reply_eq h
    | onTimer now => exact (ignores_onTimer now).reply_eq h
    | takeSlot now clock =>
      obtain ⟨hev, halike⟩ := h.takeSlot hP now clock
      refine ⟨?_, halike⟩
      simp only [reply, ← Option.toList_map, hev]
    | appOutbound payload now =>
      by_cases hlen : payload.length ≤ payloadLen
      · exact h.appOutbound hP now hlen hlen
      · have heq : ∀ m : ClientSessionManager T,
            m.appOutbound P payload now = (.error (wrongPayloadLen payload), m) :=
          fun m => if_pos (Nat.lt_of_not_le hlen)
        exact ⟨by rw [reply, reply, heq, heq], by rw [call, call, heq, heq]; exact h⟩
    | tunOutbound payload now =>
      by_cases hlen : payload.length = payloadLen
      · exact h.tunOutbound hP now hlen hlen
      · have heq : ∀ m : ClientSessionManager T,
            m.tunOutbound P payload now = (.error (wrongPayloadLen payload), m) :=
          fun m => if_pos hlen
        exact ⟨by rw [reply, reply, heq, heq], by rw [call, call, heq, heq]; exact h⟩
    | coverPacket fill now => exact (ignores_coverPacket fill now).reply_eq h
    | close now => exact (ignores_close now).reply_eq h
    | tick now =>
      obtain ⟨hevs, halike⟩ := h.tick (P := P) now
      exact ⟨by rw [reply, reply, hevs], halike⟩

/-- Runs of the client that differ in application payloads look the same. -/
theorem replies_paired (hP : AeadOblivious P) {m : ClientSessionManager T}
    {calls calls' : List (Call T)}
    (h : Transition.Paired (fun m c => (call P m c).2) Variant m calls calls') :
    replies P m calls = replies P m calls' := by
  apply h.outputs_eq (R := Alike)
  · intro m m' c c' halike hvar
    obtain ⟨hreply, hnext⟩ := hvar.step hP halike
    exact ⟨congrArg (fun r => [r]) hreply, hnext⟩
  · exact ⟨m.outQueue, rfl, rfl⟩

end Queue

end ClientSessionManager

/-- Application payloads, and the way they are sent on a held session, change nothing that a manager
returns outside the AEAD region of its packets. -/
theorem payloads_leave_outlines (hP : AeadOblivious P) :
    (∀ (m : ServerSessionManager T) (calls calls' : List (ServerSessionManager.Call T)),
      Transition.Paired (fun m c => (m.call P c).2) (fun _ => ServerSessionManager.Variant) m
        calls calls' → m.replies P calls = m.replies P calls') ∧
    ∀ (m : ClientSessionManager T) (calls calls' : List (ClientSessionManager.Call T)),
      Transition.Paired (fun m c => (m.call P c).2) ClientSessionManager.Variant m calls calls' →
        m.replies P calls = m.replies P calls' :=
  ⟨fun _ _ _ h => ServerSessionManager.replies_paired hP h,
    fun _ _ _ h => ClientSessionManager.replies_paired hP h⟩

theorem sample_aeadOblivious : AeadOblivious Sample.primitives := by
  intro key nonce pt pt' aad hlen
  obtain ⟨ct, hct, hlength⟩ := Sample.aeadSeal_total key nonce pt aad
  obtain ⟨ct', hct', hlength'⟩ := Sample.aeadSeal_total key nonce pt' aad
  rw [hct, hct']
  exact congrArg Except.ok (by omega)

/-- A held session sends one octet of data, or a tunnel payload, and then takes a slot. -/
theorem payloads_leave_outlines_sample : AeadOblivious Sample.primitives ∧
    ∃ m : ClientSessionManager Sample.types, m.session.isSome ∧
      m.replies Sample.primitives [.appOutbound [7] 1, .takeSlot 2 2] =
        m.replies Sample.primitives [.tunOutbound (zeros payloadLen) 1, .takeSlot 2 2] := by
  obtain ⟨calls, s, hs⟩ := ClientSessionManager.exists_sample_unconfirmed
  have held : (ClientSessionManager.run Sample.primitives (ClientSessionManager.sampleClient {})
      calls).session.isSome := by
    rw [hs.session]
    rfl
  refine ⟨sample_aeadOblivious, _, held, ?_⟩
  apply (payloads_leave_outlines sample_aeadOblivious).2
  exact ⟨.swap 1 held (.app (by decide)) (.tun (List.length_replicate ..)), .same _, trivial⟩

end PqTunnel
