import PqTunnel.Envelope.CipherSession
import PqTunnel.Handshake.Assembly

/-! Dispatch on byte 9. A data packet carries its counter where a handshake packet carries
type, index and total of a fragment, so which data packets parse as fragments is decided by
the three top bytes of the counter. -/
namespace PqTunnel
open ByteString HandshakeFragment

variable {T : CryptoTypes}

/-- Byte `j` of a packet counter on the wire, the most significant first. -/
def counterByte (counter : UInt64) (j : ℕ) : UInt8 := (toBeBytes counter).getD j 0

/-- The three top bytes of the counter are a pinned type, an index below the total and the
pinned total of that type. -/
def FragmentLike (counter : UInt64) : Prop :=
  expectedFragCount (counterByte counter 0) = some (counterByte counter 2) ∧
    counterByte counter 1 < counterByte counter 2

instance (counter : UInt64) : Decidable (FragmentLike counter) :=
  inferInstanceAs (Decidable (_ ∧ _))

theorem byteAt_header {pkt : WirePacket} {header : PacketHeader}
    (h : pkt.headerBytes = header.encode) {i : ℕ} (hi : i < headerLen) :
    pkt.byteAt i = header.encode.toList.getD i 0 := by
  have htake : pkt.toList.take headerLen = header.encode.toList :=
    congrArg List.Vector.toList h
  rw [WirePacket.byteAt, ← htake, List.getD_eq_getElem?_getD, List.getD_eq_getElem?_getD,
    List.getElem?_take_of_lt hi]

theorem byteAt_nonce {pkt : WirePacket} {header : PacketHeader}
    (h : pkt.headerBytes = header.encode) {j : ℕ} (hj : j < packetNonceLen) :
    pkt.byteAt (versionLen + sessionIdLen + j) = counterByte header.packetNonce j := by
  have hlen : (header.version :: header.sessionId.toList).length = versionLen + sessionIdLen := by
    rw [List.length_cons, List.Vector.toList_length]
    rfl
  have henc : header.encode.toList =
      (header.version :: header.sessionId.toList) ++ toBeBytes header.packetNonce := rfl
  have hi : versionLen + sessionIdLen + j < headerLen := by
    have : headerLen = versionLen + sessionIdLen + packetNonceLen := rfl
    omega
  rw [byteAt_header h hi, henc, counterByte, List.getD_append_right _ _ _ _ (by omega), hlen,
    Nat.add_sub_cancel_left]

/-- A fragment parses exactly when the version is current and the three bytes that follow the
session identifier are a pinned triple. -/
theorem fromDatagram_ok_iff (pkt : WirePacket) :
    (∃ frag, fromDatagram pkt = .ok frag) ↔
      pkt.byteAt 0 = protocolVersion ∧
        expectedFragCount (hsTypeOf pkt) = some (pkt.byteAt (versionLen + sessionIdLen + 2)) ∧
        pkt.byteAt (versionLen + sessionIdLen + 1) <
          pkt.byteAt (versionLen + sessionIdLen + 2) := by
  constructor
  · rintro ⟨frag, h⟩
    cases hcount : expectedFragCount (hsTypeOf pkt) with
    | none =>
      simp only [fromDatagram, hcount] at h
      split_ifs at h
    | some total =>
      obtain ⟨len, hlayout⟩ := exists_layout hcount
      simp only [fromDatagram, hcount, hlayout.len] at h
      split_ifs at h with hver htotal hidx
      obtain rfl := not_not.mp htotal
      exact ⟨not_not.mp hver, rfl, UInt8.not_le.mp hidx⟩
  · rintro ⟨hver, hcount, hidx⟩
    obtain ⟨len, hlayout⟩ := exists_layout hcount
    have hle := UInt8.not_le.mpr hidx
    simp only [fromDatagram, hver, hcount, hlayout.len, ne_eq,
      not_true_eq_false, if_false, hle]
    exact ⟨_, rfl⟩

namespace CipherSession

/-- A data packet parses as a handshake fragment exactly when its counter looks like one. -/
theorem Sealed.parses_iff {P : Primitives T} {s : CipherSession} {msgType : MessageType}
    {payload : Payload} {packet : WirePacket} (h : Sealed P s msgType payload packet) :
    (∃ frag, fromDatagram packet = .ok frag) ↔
      FragmentLike s.sendCounter := by
  have hver : packet.byteAt 0 = protocolVersion := byteAt_header h.header (by decide)
  have htype : hsTypeOf packet = counterByte s.sendCounter 0 :=
    byteAt_nonce (j := 0) h.header (by decide)
  have hidx := byteAt_nonce h.header (j := 1) (by decide)
  have htotal := byteAt_nonce h.header (j := 2) (by decide)
  rw [fromDatagram_ok_iff, htype, hidx, htotal]
  exact and_iff_right hver

theorem encrypt_sealed {P : Primitives T} {s s' : CipherSession} {msgType : MessageType}
    {payload : Bytes} {packet : WirePacket}
    (h : s.encrypt P msgType payload = (.ok packet, s')) :
    ∃ slot, Sealed P s msgType slot packet := by
  rcases encrypt_cases (P := P) s msgType payload with ⟨p, slot, he, -, hsealed⟩ | ⟨e, he⟩
  · rw [he] at h
    obtain rfl := Except.ok.inj (congrArg Prod.fst h)
    exact ⟨slot, hsealed⟩
  · rw [he] at h
    cases congrArg Prod.fst h

end CipherSession

/-- Every packet of a fragmented message takes the handshake path and parses. -/
theorem fragmentMessage_parses {hsType : UInt8} (sid : SessionId) {message : Bytes}
    (hlen : messageBodyLen hsType = some message.length) :
    ∃ pkts, fragmentMessage hsType protocolVersion sid message = .ok pkts ∧
      ∀ pkt ∈ pkts, isHandshakeFragment pkt = true ∧
        ∃ frag, fromDatagram pkt = .ok frag ∧ frag.sid = sid ∧
          frag.hsType = hsType := by
  have hpinned : ∃ total, Layout hsType total message.length := by
    have hlen' := hlen
    unfold messageBodyLen at hlen'
    split_ifs at hlen' with h1 h2 h3
    · exact ⟨m1FragCount, h1 ▸ rfl, hlen⟩
    · exact ⟨m2FragCount, h2 ▸ rfl, hlen⟩
    · exact ⟨m3FragCount, h3 ▸ rfl, hlen⟩
  obtain ⟨total, hlayout⟩ := hpinned
  refine ⟨_, fragmentMessage_eq hlayout protocolVersion sid rfl, ?_⟩
  intro pkt hpkt
  obtain ⟨idx, hidx, rfl⟩ := List.mem_map.mp hpkt
  have hparse := fromDatagram_fragmentPacket hlayout sid rfl (List.mem_range.mp hidx)
  obtain ⟨len, hp⟩ := fromDatagram_ok hparse
  refine ⟨?_, _, hparse, rfl, rfl⟩
  have hcount := hlayout.count
  rw [isHandshakeFragment, ← hp.hsType, decide_eq_true_eq]
  unfold expectedFragCount at hcount
  split_ifs at hcount with h1 h2 h3
  · exact Or.inl h1
  · exact Or.inr (Or.inl h2)
  · exact Or.inr (Or.inr h3)

private def farSession : CipherSession where
  role := .client
  sessionId := Sample.fit 8 []
  keyC2s := Sample.fit 32 []
  keyS2c := Sample.fit 32 []
  prefixC2s := Sample.fit 4 []
  prefixS2c := Sample.fit 4 []
  sendCounter := 0x3000010000000000
  replay := ReplayWindow.new

/-- Well below the rotation threshold, the counter `0x3000010000000000` spells a one-fragment
confirmation. -/
theorem data_packet_parses_as_fragment :
    ∃ (s s' : CipherSession) (packet : WirePacket), s.sendCounter < maxPacketNonce ∧
      s.encrypt Sample.primitives .data (zeros payloadLen) = (.ok packet, s') ∧
      ∃ frag, HandshakeFragment.fromDatagram packet = .ok frag := by
  have hfresh : isCounterExhausted farSession.sendCounter = false := by decide
  obtain ⟨packet, henc⟩ := CipherSession.encrypt_succeeds CipherSession.sample_aeadTotal .data
    (length_zeros payloadLen) hfresh
  obtain ⟨slot, hsealed⟩ := CipherSession.encrypt_sealed henc
  have hlike : FragmentLike farSession.sendCounter := by decide
  exact ⟨farSession, _, packet, by decide, henc, hsealed.parses_iff.mpr hlike⟩

/-- Data packets whose counter does not look like a fragment never parse as one, and handshake
packets always do. -/
theorem dispatch_disjoint (P : Primitives T) :
    (∀ (s s' : CipherSession) (msgType : MessageType) (payload : Bytes) (packet : WirePacket),
      s.encrypt P msgType payload = (.ok packet, s') → ¬ FragmentLike s.sendCounter →
        ∀ frag, HandshakeFragment.fromDatagram packet ≠ .ok frag) ∧
      ∀ (hsType : UInt8) (sid : SessionId) (message : Bytes),
        messageBodyLen hsType = some message.length →
          ∃ pkts, fragmentMessage hsType protocolVersion sid message = .ok pkts ∧
            ∀ pkt ∈ pkts, isHandshakeFragment pkt = true ∧
              ∃ frag, HandshakeFragment.fromDatagram pkt = .ok frag ∧ frag.sid = sid ∧
                frag.hsType = hsType := by
  constructor
  · intro s s' msgType payload packet henc hlike frag hfrag
    obtain ⟨slot, hsealed⟩ := CipherSession.encrypt_sealed henc
    exact hlike (hsealed.parses_iff.mp ⟨frag, hfrag⟩)
  · intro hsType sid message hlen
    exact fragmentMessage_parses sid hlen

theorem dispatch_disjoint_sample :
    (∃ (s s' : CipherSession) (packet : WirePacket),
      s.encrypt Sample.primitives .data (zeros payloadLen) = (.ok packet, s') ∧
      ∀ frag, HandshakeFragment.fromDatagram packet ≠ .ok frag) ∧
      ∃ pkts, fragmentMessage hsTypeClientConfirm protocolVersion (Sample.fit 8 [])
          (zeros m3BodyLen) = .ok pkts ∧
        ∀ pkt ∈ pkts, isHandshakeFragment pkt = true := by
  obtain ⟨packet, henc⟩ := CipherSession.encrypt_succeeds CipherSession.sample_aeadTotal
    (s := { farSession with sendCounter := 0 })
    .data
    (length_zeros payloadLen) (by decide)
  obtain ⟨hdata, hhandshake⟩ := dispatch_disjoint Sample.primitives
  obtain ⟨pkts, hpkts, hall⟩ := hhandshake hsTypeClientConfirm (Sample.fit 8 [])
    (zeros m3BodyLen) (by rw [length_zeros]; rfl)
  exact ⟨⟨_, _, packet, henc, hdata _ _ _ _ _ henc (by decide)⟩, pkts, hpkts,
    fun pkt hpkt => (hall pkt hpkt).1⟩

end PqTunnel
