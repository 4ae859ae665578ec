import Mathlib.Tactic.FinCases
import PqTunnel.Envelope.Channel
import PqTunnel.Handshake.Dispatch
import PqTunnel.Session.WireSession

/-! One direction of a session: what one end says, in which order, and what the other end hears. -/
namespace PqTunnel
open ByteString Kdf

variable {T : CryptoTypes} {P : Primitives T}

/-- What identifies one direction of a session. -/
structure Voice where
  key : Secret
  noncePrefix : Octets 4
  sid : SessionId
  direction : Direction

/-- The packet is the sealing of this message under this counter. -/
structure Voice.Seals (P : Primitives T) (v : Voice) (c : UInt64) (msgType : MessageType)
    (slot : Payload) (pkt : WirePacket) : Prop where
  fresh : isCounterExhausted c = false
  header : pkt.headerBytes = (PacketHeader.new v.sid c).encode
  region : P.aeadSeal v.key (buildSessionNonce v.noncePrefix c)
    (InnerPlaintext.encode ⟨msgType, v.direction, slot⟩).toList
    (PacketHeader.new v.sid c).encode.toList = .ok pkt.aeadRegion

/-- Every counter that the window has accepted is below `n`. -/
def ReplayWindow.Below (w : ReplayWindow) (n : ℕ) : Prop :=
  ∃ seen, Tracks w seen ∧ ∀ c ∈ seen, c.toNat < n

theorem ReplayWindow.below_new (n : ℕ) : ReplayWindow.new.Below n :=
  ⟨[], tracks_new, by simp⟩

theorem ReplayWindow.Below.accept {w : ReplayWindow} {c : UInt64} (h : w.Below c.toNat) :
    ∃ w', w.accept c = (.ok (), w') ∧ w'.Below (c.toNat + 1) := by
  obtain ⟨seen, htracks, hbelow⟩ := h
  have hadmits : SlidingWindow.Admits windowBits (values seen) c.toNat := by
    apply Channel.admits_of_near htracks
    · intro hmem
      exact (hbelow c hmem).false
    · intro h hh
      rcases highest_largest htracks with ⟨hnone, -⟩ | ⟨h', hh', hmem, -⟩
      · rw [hh] at hnone
        cases hnone
      · obtain rfl : h' = h := Option.mem_unique hh' hh
        have hlt := hbelow h' hmem
        omega
  rcases accept_spec htracks c with ⟨w', hacc, -, htracks'⟩ | ⟨-, hnot⟩
  · refine ⟨w', hacc, c :: seen, htracks', ?_⟩
    intro c' hc'
    rcases List.mem_cons.mp hc' with rfl | hc'
    · exact Nat.lt_succ_self _
    · exact (hbelow c' hc').trans (Nat.lt_succ_self _)
  · exact absurd hadmits hnot

/-- New counters within a window of one another, and of all that came before, are accepted in
whatever order they come. -/
theorem ReplayWindow.burst_accepted (pre : List UInt64) {cs : List UInt64} (hnodup : cs.Nodup)
    (hnew : ∀ c ∈ cs, c ∉ (feedAll pre).2)
    (hnear : ∀ c ∈ cs, ∀ a ∈ cs ++ (feedAll pre).2, a.toNat - c.toNat ≤ windowBits) :
    (feedAll (pre ++ cs)).2 = cs.reverse ++ (feedAll pre).2 := by
  induction cs using List.reverseRecOn with
  | nil =>
    rw [List.append_nil]
    rfl
  | append_singleton cs c ih =>
    obtain ⟨hcs, -, hdisj⟩ := List.nodup_append.mp hnodup
    have hseen := ih hcs (fun a ha => hnew a (List.mem_append_left _ ha)) fun a ha b hb =>
      hnear a (List.mem_append_left _ ha) b (by simp at hb ⊢; tauto)
    have hlast : feedAll (pre ++ (cs ++ [c])) = feed (feedAll (pre ++ cs)) c := by simp [feedAll]
    have htracks := (feedAll_tracks (pre ++ cs)).1
    rcases accept_spec htracks c with ⟨w, hacc, -, -⟩ | ⟨-, hnot⟩
    · simp [hlast, feed, hacc, hseen]
    · refine absurd (Channel.admits_of_near htracks ?_ ?_) hnot
      · have hc := hnew c (by simp)
        simp only [hseen, List.mem_append, List.mem_reverse, hc, or_false]
        exact fun hmem => hdisj c hmem c List.mem_cons_self rfl
      · intro h hh
        rcases highest_largest htracks with ⟨hnone, -⟩ | ⟨h', hh', hmem, -⟩
        · cases hnone.symm.trans hh
        · obtain rfl : h' = h := Option.mem_unique hh' hh
          rw [hseen] at hmem
          exact hnear c (by simp) h' (by simp at hmem ⊢; tauto)

theorem ReplayWindow.burst_accepted_reversed :
    (feedAll ([5] ++ [1024, 900, 7, 3])).2 = [3, 7, 900, 1024, 5] :=
  burst_accepted [5] (by decide) (fun _ h => by fin_cases h <;> decide)
    fun _ h _ h' => by fin_cases h <;> fin_cases h' <;> decide

namespace CipherSession

def voice (s : CipherSession) : Voice :=
  ⟨s.sendKey, s.sendPrefix, s.sessionId, s.role.sendDirection⟩

def ear (s : CipherSession) : Voice :=
  ⟨s.recvKey, s.recvPrefix, s.sessionId, s.role.recvDirection⟩

theorem mirrored {master : MasterSecret} {sid : SessionId} {c s : CipherSession}
    (hc : CipherSession.new P .client master sid = .ok c)
    (hs : CipherSession.new P .server master sid = .ok s) :
    s.ear = c.voice ∧ c.ear = s.voice ∧ c.voice.sid = sid := by
  obtain ⟨kc, ks, pc, ps, hkc, hks, hpc, hps, rfl⟩ := new_ok hc
  obtain ⟨kc', ks', pc', ps', hkc', hks', hpc', hps', rfl⟩ := new_ok hs
  obtain rfl := Except.ok.inj (hkc.symm.trans hkc')
  obtain rfl := Except.ok.inj (hks.symm.trans hks')
  obtain rfl := Except.ok.inj (hpc.symm.trans hpc')
  obtain rfl := Except.ok.inj (hps.symm.trans hps')
  exact ⟨rfl, rfl, rfl⟩

/-- What the other end said passes the AEAD, and the window decides. -/
theorem decrypt_sealed (hP : Channel.AeadCorrect P) {s : CipherSession} {c : UInt64}
    {msgType : MessageType} {slot : Payload} {pkt : WirePacket}
    (hs : s.ear.Seals P c msgType slot pkt) :
    s.decrypt P pkt =
      match s.replay.accept c with
      | (.error _, w) => (.error .rejected, { s with replay := w })
      | (.ok (), w) => (.ok ⟨msgType, s.role.recvDirection, slot⟩, { s with replay := w }) := by
  have hparse : pkt.parseHeader = .ok (PacketHeader.new s.sessionId c) := by
    rw [WirePacket.parseHeader, hs.header]
    exact PacketHeader.decode_encode rfl
  have hopen : s.openPacket P pkt c =
      .ok (InnerPlaintext.encode ⟨msgType, s.role.recvDirection, slot⟩).toList := by
    apply P.aeadDecrypt_ok_iff.mpr
    rw [hs.header]
    exact hP _ _ _ _ _ hs.region
  let m : Channel.Sent := ⟨c, msgType, slot.toList, pkt⟩
  have hplain : (InnerPlaintext.encode ⟨msgType, s.role.recvDirection, slot⟩).toList =
      m.plaintext s.role.peer := by
    rw [Channel.Sent.plaintext, Role.sendDirection_peer]
    rfl
  exact (decrypt_opened hparse (hplain ▸ hopen)).trans
    (Channel.afterOpen_genuine (s := s) rfl (m := m) rfl hs.fresh)

end CipherSession

namespace Voice.Seals

variable {v : Voice} {c : UInt64} {msgType : MessageType} {slot : Payload} {pkt : WirePacket}

theorem sid (h : v.Seals P c msgType slot pkt) : pkt.sid = v.sid := by
  apply List.Vector.toList_injective
  have htake : pkt.toList.take headerLen = (PacketHeader.new v.sid c).encode.toList :=
    congrArg List.Vector.toList h.header
  have hsplit : pkt.toList = [protocolVersion] ++ v.sid.toList ++
      (toBeBytes c ++ pkt.toList.drop headerLen) := by
    have hparts := (List.take_append_drop headerLen pkt.toList).symm
    rw [htake] at hparts
    simpa [PacketHeader.encode, PacketHeader.new] using hparts
  change slice pkt.toList versionLen sessionIdLen = v.sid.toList
  rw [hsplit]
  exact slice_append_mid [protocolVersion] v.sid.toList _ rfl (by simp)

theorem hsTypeOf (h : v.Seals P c msgType slot pkt) : hsTypeOf pkt = counterByte c 0 :=
  byteAt_nonce (j := 0) h.header (by decide)

/-- The first `2 ^ 60` packets of a direction take the data path. -/
theorem data_path (h : v.Seals P c msgType slot pkt) (hc : c.toNat < 2 ^ 60) :
    isHandshakeFragment pkt = false := by
  have htop : (counterByte c 0).toNat < 16 := by
    have hdigit : counterByte c 0 = UInt8.ofNat (c.toNat / 256 ^ 7 % 256) := by
      simp [counterByte, toBeBytes, beDigits, Nat.div_div_eq_div_mul]
    rw [hdigit, UInt8.toNat_ofNat']
    omega
  rw [isHandshakeFragment, h.hsTypeOf, decide_eq_false_iff_not]
  rintro (heq | heq | heq) <;> rw [heq] at htop <;> exact absurd htop (by decide)

end Voice.Seals

namespace WireSession

/-- With a total AEAD an established session says whatever fits, while its counter is below the
rotation threshold. -/
theorem encrypt_says (hP : CipherSession.AeadTotal P) {s : WireSession}
    (hstate : s.state = .established) (hfresh : isCounterExhausted s.cipher.sendCounter = false)
    (msgType : MessageType) {payload : Bytes} (hlen : payload.length = payloadLen) :
    ∃ pkt slot, s.encrypt P msgType payload = (.ok pkt, s.next) ∧ slot.toList = payload ∧
      s.cipher.voice.Seals P s.cipher.sendCounter msgType slot pkt ∧
      s.next.cipher.sendCounter.toNat = s.cipher.sendCounter.toNat + 1 := by
  rcases s.cipher.encrypt_cases (P := P) msgType payload with
    ⟨pkt, slot, heq, hslot, hsealed⟩ | ⟨e, heq⟩
  · refine ⟨pkt, slot, ?_, hslot, ⟨hsealed.fresh, hsealed.header, hsealed.region⟩,
      (CipherSession.checkedSucc_of_not_exhausted hfresh).2⟩
    simp only [encrypt, requireEstablished, hstate, if_true, heq, next]
  · obtain ⟨pkt, hok⟩ := CipherSession.encrypt_succeeds hP msgType hlen hfresh
    rw [hok] at heq
    cases congrArg Prod.fst heq

/-- An established session hears what the other end said, if nothing later has come in before. -/
theorem decrypt_heard (hP : Channel.AeadCorrect P) {s : WireSession}
    (hstate : s.state = .established) {c : UInt64} {msgType : MessageType} {slot : Payload}
    {pkt : WirePacket} (hs : s.cipher.ear.Seals P c msgType slot pkt)
    (hbelow : s.cipher.replay.Below c.toNat) :
    ∃ w, s.decrypt P pkt = (.ok ⟨msgType, s.cipher.role.recvDirection, slot⟩,
        { s with cipher := { s.cipher with replay := w } }) ∧ w.Below (c.toNat + 1) := by
  obtain ⟨w, hacc, hbelow'⟩ := hbelow.accept
  refine ⟨w, ?_, hbelow'⟩
  simp only [decrypt, requireEstablished, hstate, if_true, CipherSession.decrypt_sealed hP hs, hacc]

end WireSession
end PqTunnel
