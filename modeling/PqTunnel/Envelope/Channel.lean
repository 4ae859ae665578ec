import PqTunnel.Envelope.CipherSession
import PqTunnel.Replay.History
import PqTunnel.Foundation.Transition

/-! Two cipher sessions of one master over a network that may drop, duplicate, reorder,
reflect and inject packets. -/
namespace PqTunnel.Channel
open Kdf CipherSession Transition ReplayWindow

/-- A message one side encrypted, with the counter and the packet it went out in. -/
structure Sent where
  counter : UInt64
  msgType : MessageType
  payload : Bytes
  packet : WirePacket

structure Sealing where
  key : Secret
  nonce : Octets 12
  aad : Bytes
  plaintext : Bytes
  ciphertext : Bytes

/-- One party: its session, the messages it encrypted and what it decrypted, newest first. -/
structure Endpoint where
  session : CipherSession
  sent : List Sent
  got : List (UInt64 × InnerPlaintext)

structure Net where
  ends : Role → Endpoint
  sealings : List Sealing

inductive Act where
  | encrypt (side : Role) (msgType : MessageType) (payload : Bytes)
  | deliver (side : Role) (packet : WirePacket)

variable {T : CryptoTypes} (P : Primitives T)

def sealingOf (s : CipherSession) (msgType : MessageType) (payload : Bytes)
    (packet : WirePacket) : Sealing where
  key := s.sendKey
  nonce := s.nextNonce
  aad := s.nextHeader.encode.toList
  plaintext := msgType.asU8 :: s.role.sendDirection.asU8 :: payload
  ciphertext := packet.aeadRegion

def Net.put (net : Net) (side : Role) (e : Endpoint) : Net :=
  { net with ends := Function.update net.ends side e }

@[simp] theorem Net.put_same (net : Net) (side : Role) (e : Endpoint) :
    (net.put side e).ends side = e := Function.update_self ..

theorem Net.put_other (net : Net) {side r : Role} (e : Endpoint) (h : r ≠ side) :
    (net.put side e).ends r = net.ends r := Function.update_of_ne h ..

def Net.encrypt (net : Net) (side : Role) (msgType : MessageType) (payload : Bytes) : Net :=
  let e := net.ends side
  match e.session.encrypt P msgType payload with
  | (.error _, s) => net.put side { e with session := s }
  | (.ok packet, s) =>
    let m : Sent := ⟨e.session.sendCounter, msgType, payload, packet⟩
    { net.put side { e with session := s, sent := m :: e.sent } with
      sealings := sealingOf e.session msgType payload packet :: net.sealings }

def Net.deliver (net : Net) (side : Role) (packet : WirePacket) : Net :=
  let e := net.ends side
  match packet.parseHeader, e.session.decrypt P packet with
  | .ok header, (.ok inner, s) =>
    net.put side { e with session := s, got := (header.packetNonce, inner) :: e.got }
  | _, (_, s) => net.put side { e with session := s }

/-- The AEAD call by which this side would open the packet to `plaintext`. -/
def openingOf (s : CipherSession) (packet : WirePacket) (header : PacketHeader)
    (plaintext : Bytes) : Sealing where
  key := s.recvKey
  nonce := buildSessionNonce s.recvPrefix header.packetNonce
  aad := packet.headerBytes.toList
  plaintext := plaintext
  ciphertext := packet.aeadRegion

/-- Ideal AEAD at one delivery: it opens only a ciphertext that was produced by encryption,
under the same key, nonce and associated data, and then to that plaintext. -/
def Unforged (net : Net) (side : Role) (packet : WirePacket) : Prop :=
  ∀ header plaintext, packet.parseHeader = .ok header →
    (net.ends side).session.openPacket P packet header.packetNonce = .ok plaintext →
    (∃ e ∈ net.sealings, e.ciphertext = packet.aeadRegion) ∧
      ∀ e ∈ net.sealings, e.ciphertext = packet.aeadRegion →
        e = openingOf (net.ends side).session packet header plaintext

/-- Decryption inverts encryption. -/
def AeadCorrect : Prop :=
  ∀ key nonce plaintext aad ciphertext,
    P.aeadSeal key nonce plaintext aad = .ok ciphertext →
    P.aeadOpen key nonce ciphertext aad = .ok plaintext

inductive Step : Net → Act → Net → Prop where
  | encrypt {net : Net} (side : Role) (msgType : MessageType) (payload : Bytes) :
      Step net (.encrypt side msgType payload) (net.encrypt P side msgType payload)
  | deliver {net : Net} (side : Role) (packet : WirePacket) :
      Unforged P net side packet → Step net (.deliver side packet) (net.deliver P side packet)

def start (base : Role → CipherSession) : Net where
  ends := fun r => ⟨base r, [], []⟩
  sealings := []

/-- The client and the server session of one master and session id. -/
structure Paired (master : MasterSecret) (sid : SessionId) (base : Role → CipherSession) :
    Prop where
  derived : ∀ r, CipherSession.new P r master sid = .ok (base r)
  separated : (base .client).sendKey ≠ (base .server).sendKey

variable {P} {master : MasterSecret} {sid : SessionId} {base : Role → CipherSession}

namespace Paired

theorem role (hb : Paired P master sid base) (r : Role) : (base r).role = r := by
  obtain ⟨_, _, _, _, -, -, -, -, h⟩ := new_ok (hb.derived r)
  rw [h]

theorem fresh (hb : Paired P master sid base) (r : Role) :
    (base r).replay = ReplayWindow.new := by
  obtain ⟨_, _, _, _, -, -, -, -, h⟩ := new_ok (hb.derived r)
  rw [h]

theorem mirror (hb : Paired P master sid base) (r : Role) :
    (base r).recvKey = (base r.peer).sendKey ∧
      (base r).recvPrefix = (base r.peer).sendPrefix ∧
      (base r).sessionId = (base r.peer).sessionId := by
  obtain ⟨kc, ks, pc, ps, hkc, hks, hpc, hps, h⟩ := new_ok (hb.derived r)
  obtain ⟨kc', ks', pc', ps', hkc', hks', hpc', hps', h'⟩ := new_ok (hb.derived r.peer)
  obtain rfl := Except.ok.inj (hkc.symm.trans hkc')
  obtain rfl := Except.ok.inj (hks.symm.trans hks')
  obtain rfl := Except.ok.inj (hpc.symm.trans hpc')
  obtain rfl := Except.ok.inj (hps.symm.trans hps')
  rw [h, h']
  cases r <;> exact ⟨rfl, rfl, rfl⟩

theorem sendKey_ne_recvKey (hb : Paired P master sid base) (r : Role) :
    (base r).sendKey ≠ (base r).recvKey := by
  rw [(hb.mirror r).1]
  cases r with
  | client => exact hb.separated
  | server => exact hb.separated.symm

end Paired

/-- The message is one that `s`, with its counter at `m.counter`, really sealed. -/
def SealedBy (P : Primitives T) (s : CipherSession) (m : Sent) : Prop :=
  ∃ slot : Payload, slot.toList = m.payload ∧
    Sealed P { s with sendCounter := m.counter } m.msgType slot m.packet

/-- What holds of one party of a run, given the messages its peer has sent. -/
structure EndInv (P : Primitives T) (base : Role → CipherSession) (r : Role) (e : Endpoint)
    (peerSent : List Sent) : Prop where
  session : ∃ n w, e.session = { base r with sendCounter := n, replay := w }
  sealed : ∀ m ∈ e.sent, SealedBy P (base r) m
  below : ∀ m ∈ e.sent, m.counter < e.session.sendCounter
  distinct : (e.sent.map Sent.counter).Nodup
  tracks : Tracks e.session.replay (e.got.map Prod.fst)
  once : (e.got.map Prod.fst).Nodup
  genuine : ∀ g ∈ e.got, ∃ m ∈ peerSent, m.counter = g.1 ∧ g.2.msgType = m.msgType ∧
    g.2.direction = r.peer.sendDirection ∧ g.2.payload.toList = m.payload

/-- Everything a run of the two parties preserves. -/
structure Inv (P : Primitives T) (base : Role → CipherSession) (net : Net) : Prop where
  ends : ∀ r, EndInv P base r (net.ends r) (net.ends r.peer).sent
  recorded : ∀ r, ∀ m ∈ (net.ends r).sent,
    sealingOf { base r with sendCounter := m.counter } m.msgType m.payload m.packet ∈ net.sealings
  logged : ∀ e ∈ net.sealings, ∃ r, ∃ m ∈ (net.ends r).sent,
    e = sealingOf { base r with sendCounter := m.counter } m.msgType m.payload m.packet

theorem inv_start (hb : Paired P master sid base) : Inv P base (start base) where
  ends := by
    intro r
    refine ⟨⟨_, _, rfl⟩, ?_, ?_, ?_, ?_, ?_, ?_⟩
    · simp [start]
    · simp [start]
    · simp [start]
    · simp only [start, hb.fresh r, List.map_nil]
      exact tracks_new
    · simp [start]
    · simp [start]
  recorded := by simp [start]
  logged := by simp [start]

variable {r : Role}

theorem EndInv.peer_grows {e : Endpoint} {ps ps' : List Sent} (he : EndInv P base r e ps)
    (hsub : ps ⊆ ps') : EndInv P base r e ps' :=
  { he with
    genuine := by
      intro g hg
      obtain ⟨m, hm, h⟩ := he.genuine g hg
      exact ⟨m, hsub hm, h⟩ }

theorem Net.put_ends (net : Net) (side r : Role) (e : Endpoint) :
    (net.put side e).ends r = if r = side then e else net.ends r := Function.update_apply ..

theorem Net.put_self (net : Net) (side : Role) : net.put side (net.ends side) = net := by
  simp [Net.put]

variable {net : Net}

/-- Moving one party keeps both parties' invariants when it only sends more. -/
theorem ends_put (hI : ∀ r, EndInv P base r (net.ends r) (net.ends r.peer).sent) {side : Role}
    {e : Endpoint} (he : EndInv P base side e (net.ends side.peer).sent)
    (hsub : (net.ends side).sent ⊆ e.sent) (r : Role) :
    EndInv P base r ((net.put side e).ends r) ((net.put side e).ends r.peer).sent := by
  by_cases hr : r = side
  · subst hr
    rwa [Net.put_same, Net.put_other _ _ r.peer_ne]
  · have hp : r.peer = side := by
      cases r <;> cases side <;> first | rfl | exact absurd rfl hr
    rw [Net.put_other _ _ hr, hp, Net.put_same]
    exact (hp ▸ hI r).peer_grows hsub

theorem encrypt_net_cases (net : Net) (side : Role) (msgType : MessageType) (payload : Bytes) :
    net.encrypt P side msgType payload = net ∨
      ∃ packet slot, slot.toList = payload ∧
        Sealed P (net.ends side).session msgType slot packet ∧
        net.encrypt P side msgType payload =
          { net.put side
              { net.ends side with
                session := { (net.ends side).session with
                  sendCounter := (net.ends side).session.sendCounter + 1 }
                sent := ⟨(net.ends side).session.sendCounter, msgType, payload, packet⟩ ::
                  (net.ends side).sent } with
            sealings := sealingOf (net.ends side).session msgType payload packet ::
              net.sealings } := by
  unfold Net.encrypt
  rcases encrypt_cases (P := P) (net.ends side).session msgType payload with
    ⟨packet, slot, he, hslot, hsealed⟩ | ⟨e, he⟩
  · exact Or.inr ⟨packet, slot, hslot, hsealed, by simp only [he]⟩
  · refine Or.inl ?_
    simp only [he]
    exact net.put_self side

variable {packet : WirePacket}

variable {slot : Payload}

theorem Sealed.of_base {s : CipherSession} {n : UInt64} {w : ReplayWindow} {msgType : MessageType}
    (h : Sealed P { s with sendCounter := n, replay := w } msgType slot packet) :
    Sealed P { s with sendCounter := n } msgType slot packet :=
  ⟨h.fresh, h.header, h.region⟩

theorem EndInv.send {e : Endpoint} {ps : List Sent} (he : EndInv P base r e ps)
    {msgType : MessageType} {payload : Bytes} (hslot : slot.toList = payload)
    (hs : Sealed P e.session msgType slot packet) :
    EndInv P base r
      { e with
        session := { e.session with sendCounter := e.session.sendCounter + 1 }
        sent := ⟨e.session.sendCounter, msgType, payload, packet⟩ :: e.sent } ps := by
  obtain ⟨n, w, hbase⟩ := he.session
  have hnext := (checkedSucc_of_not_exhausted hs.fresh).2
  refine ⟨⟨e.session.sendCounter + 1, w, by rw [hbase]⟩, ?_, ?_, ?_, he.tracks, he.once,
    he.genuine⟩
  · intro m hm
    rcases List.mem_cons.mp hm with rfl | hm
    · refine ⟨slot, hslot, ?_⟩
      rw [hbase] at hs ⊢
      exact Sealed.of_base hs
    · exact he.sealed m hm
  · intro m hm
    refine UInt64.lt_iff_toNat_lt.mpr ?_
    rw [hnext]
    rcases List.mem_cons.mp hm with rfl | hm
    · exact Nat.lt_succ_self _
    · exact Nat.lt_succ_of_lt (UInt64.lt_iff_toNat_lt.mp (he.below m hm))
  · refine List.nodup_cons.mpr ⟨?_, he.distinct⟩
    intro hmem
    obtain ⟨m, hm, hc⟩ := List.mem_map.mp hmem
    have hlt := UInt64.lt_iff_toNat_lt.mp (he.below m hm)
    rw [hc] at hlt
    exact hlt.false

theorem inv_encrypt (hI : Inv P base net) (side : Role) (msgType : MessageType)
    (payload : Bytes) : Inv P base (net.encrypt P side msgType payload) := by
  rcases encrypt_net_cases (P := P) net side msgType payload with
    he | ⟨packet, slot, hslot, hsealed, he⟩
  · rwa [he]
  · rw [he]
    have hsub := List.subset_cons_self
      (⟨(net.ends side).session.sendCounter, msgType, payload, packet⟩ : Sent)
      (net.ends side).sent
    obtain ⟨n, w, hs⟩ := (hI.ends side).session
    refine ⟨ends_put hI.ends ((hI.ends side).send hslot hsealed) hsub, ?_, ?_⟩
    · intro r m hm
      rw [Net.put_ends] at hm
      split_ifs at hm with hr
      · subst hr
        rcases List.mem_cons.mp hm with rfl | hm
        · refine List.mem_cons.mpr (Or.inl ?_)
          rw [hs]
          rfl
        · exact List.mem_cons_of_mem _ (hI.recorded r m hm)
      · exact List.mem_cons_of_mem _ (hI.recorded r m hm)
    · intro e hmem
      rcases List.mem_cons.mp hmem with rfl | hmem
      · refine ⟨side, ⟨(net.ends side).session.sendCounter, msgType, payload, packet⟩, ?_, ?_⟩
        · rw [Net.put_same]
          exact List.mem_cons_self ..
        · rw [hs]
          rfl
      · obtain ⟨r, m, hm, he⟩ := hI.logged e hmem
        refine ⟨r, m, ?_, he⟩
        rw [Net.put_ends]
        split_ifs with hr
        · subst hr
          exact hsub hm
        · exact hm

def Sent.plaintext (m : Sent) (sender : Role) : Bytes :=
  m.msgType.asU8 :: sender.sendDirection.asU8 :: m.payload

/-- Whatever the AEAD opens is a packet of the peer, as the peer sealed it. -/
theorem opened_is_sent (hb : Paired P master sid base) (hI : Inv P base net)
    (hU : Unforged P net r packet) {header : PacketHeader} {plaintext : Bytes}
    (hh : packet.parseHeader = .ok header)
    (ho : (net.ends r).session.openPacket P packet header.packetNonce = .ok plaintext) :
    ∃ m ∈ (net.ends r.peer).sent, packet = m.packet ∧ header.packetNonce = m.counter ∧
      plaintext = m.plaintext r.peer := by
  obtain ⟨⟨e, hmem, hct⟩, hall⟩ := hU header plaintext hh ho
  obtain ⟨r', m, hm, he⟩ := hI.logged e hmem
  rw [hall e hmem hct] at he
  obtain ⟨n, w, hs⟩ := (hI.ends r).session
  simp only [hs, sealingOf, openingOf, Sealing.mk.injEq] at he
  obtain ⟨hkey, -, haad, hpt, hct⟩ := he
  have hr' : r' = r.peer := by
    by_contra hne
    have hself : r' = r := by cases r <;> cases r' <;> first | rfl | exact absurd rfl hne
    exact hb.sendKey_ne_recvKey r (hself ▸ hkey).symm
  subst hr'
  obtain ⟨slot, hslot, hsealed⟩ := (hI.ends r.peer).sealed m hm
  have hpacket : packet = m.packet := by
    refine WirePacket.ext_parts (List.Vector.toList_injective ?_) hct
    rw [haad, hsealed.header]
  refine ⟨m, hm, hpacket, ?_, ?_⟩
  · rw [hpacket, hsealed.parseHeader] at hh
    rw [← Except.ok.inj hh]
    rfl
  · rw [hpt]
    have hrole : (base r.peer).role = r.peer := hb.role r.peer
    simp only [Sent.plaintext, hrole]

/-- Once a genuine packet has opened, only the replay window decides. -/
theorem afterOpen_genuine {s : CipherSession} (hrole : s.role = r) {m : Sent}
    (hslot : slot.toList = m.payload) (hfresh : isCounterExhausted m.counter = false) :
    s.afterOpen m.counter (m.plaintext r.peer) =
      match s.replay.accept m.counter with
      | (.error _, w) => (.error .rejected, { s with replay := w })
      | (.ok (), w) => (.ok ⟨m.msgType, r.recvDirection, slot⟩, { s with replay := w }) := by
  have hpt : m.plaintext r.peer =
      (InnerPlaintext.encode ⟨m.msgType, r.recvDirection, slot⟩).toList := by
    rw [Sent.plaintext, ← hslot, Role.sendDirection_peer]
    rfl
  have hlen : ¬ (m.plaintext r.peer).length ≠ innerPlaintextLen := by
    rw [hpt, List.Vector.toList_length]
    exact not_not_intro rfl
  unfold afterOpen
  rw [hfresh, if_neg (by decide)]
  rcases s.replay.accept m.counter with ⟨_ | _, w⟩
  · rfl
  · simp only [if_neg hlen]
    rw [hpt, InnerPlaintext.decode_encode]
    simp [hrole]

theorem EndInv.role_eq (hb : Paired P master sid base) {e : Endpoint} {ps : List Sent}
    (he : EndInv P base r e ps) : e.session.role = r := by
  obtain ⟨n, w, hs⟩ := he.session
  rw [hs]
  exact hb.role r

/-- A delivery is refused without a trace, or returns a message of the peer whose counter
the window then remembers. -/
theorem decrypt_cases (hb : Paired P master sid base) (hI : Inv P base net)
    (hU : Unforged P net r packet) :
    (∃ e, (net.ends r).session.decrypt P packet = (.error e, (net.ends r).session)) ∨
      ∃ m ∈ (net.ends r.peer).sent, ∃ header slot w,
        packet.parseHeader = .ok header ∧ header.packetNonce = m.counter ∧
        slot.toList = m.payload ∧ m.counter ∉ (net.ends r).got.map Prod.fst ∧
        Tracks w (m.counter :: (net.ends r).got.map Prod.fst) ∧
        (net.ends r).session.decrypt P packet =
          (.ok ⟨m.msgType, r.recvDirection, slot⟩,
            { (net.ends r).session with replay := w }) := by
  cases hh : packet.parseHeader with
  | error e => exact Or.inl ⟨_, decrypt_bad_header hh⟩
  | ok header =>
    cases ho : (net.ends r).session.openPacket P packet header.packetNonce with
    | error e => exact Or.inl ⟨_, decrypt_unopened hh ho⟩
    | ok plaintext =>
      obtain ⟨m, hm, hpacket, hnonce, hpt⟩ := opened_is_sent hb hI hU hh ho
      obtain ⟨slot, hslot, hsealed⟩ := (hI.ends r.peer).sealed m hm
      have hafter := afterOpen_genuine ((hI.ends r).role_eq hb) hslot hsealed.fresh
      rw [decrypt_opened hh ho, hnonce, hpt, hafter]
      rcases accept_spec (hI.ends r).tracks m.counter with ⟨w, ha, hadm, ht⟩ | ⟨ha, -⟩
      · refine Or.inr ⟨m, hm, header, slot, w, rfl, hnonce, hslot, ?_, ht, by rw [ha]⟩
        exact fun hc => not_mem_of_admits hadm (mem_values.mpr hc)
      · exact Or.inl ⟨.rejected, by rw [ha]⟩

theorem inv_deliver (hb : Paired P master sid base) (hI : Inv P base net) (side : Role)
    (packet : WirePacket) (hU : Unforged P net side packet) :
    Inv P base (net.deliver P side packet) := by
  unfold Net.deliver
  rcases decrypt_cases hb hI hU with ⟨e, hd⟩ | ⟨m, hm, header, slot, w, hh, hn, hslot, hnew, ht, hd⟩
  · have hsame : net.put side { net.ends side with session := (net.ends side).session } = net :=
      net.put_self side
    cases hh : packet.parseHeader <;> simpa only [hd, hsame] using hI
  · simp only [hh, hd, hn]
    have hE := hI.ends side
    obtain ⟨n, w', hs⟩ := hE.session
    refine ⟨ends_put hI.ends ?_ (List.Subset.refl _), ?_, ?_⟩
    · refine ⟨⟨n, w, by rw [hs]⟩, hE.sealed, hE.below, hE.distinct, ht,
        List.nodup_cons.mpr ⟨hnew, hE.once⟩, ?_⟩
      intro g hg
      rcases List.mem_cons.mp hg with rfl | hg
      · exact ⟨m, hm, rfl, rfl, side.sendDirection_peer.symm, hslot⟩
      · exact hE.genuine g hg
    · intro r m' hm'
      rw [Net.put_ends] at hm'
      split_ifs at hm' with hr
      · exact hI.recorded r m' (hr ▸ hm')
      · exact hI.recorded r m' hm'
    · intro e he
      obtain ⟨r, m', hm', heq⟩ := hI.logged e he
      refine ⟨r, m', ?_, heq⟩
      rw [Net.put_ends]
      split_ifs with hr
      · exact hr ▸ hm'
      · exact hm'

/-- Every net reached from the two fresh sessions keeps the invariant. -/
theorem reach_inv (hb : Paired P master sid base)
    (hr : Reach (· = start base) (Step P) net) : Inv P base net := by
  refine hr.invariant ?_ ?_
  · rintro _ rfl
    exact inv_start hb
  · intro s a s' _ hI hstep
    cases hstep with
    | encrypt side msgType payload => exact inv_encrypt hI side msgType payload
    | deliver side packet hU => exact inv_deliver hb hI side packet hU

variable {m : Sent}

/-- A side's own packet never opens for it. -/
theorem reflected_fails (hb : Paired P master sid base) (hI : Inv P base net)
    (hm : m ∈ (net.ends r).sent) (hU : Unforged P net r m.packet) :
    (net.ends r).session.decrypt P m.packet = (.error .decryptionFailed, (net.ends r).session) := by
  obtain ⟨slot, -, hsealed⟩ := (hI.ends r).sealed m hm
  cases ho : (net.ends r).session.openPacket P m.packet
      (nextHeader { base r with sendCounter := m.counter }).packetNonce with
  | error e => exact decrypt_unopened hsealed.parseHeader ho
  | ok plaintext =>
    have he := (hU _ _ hsealed.parseHeader ho).2 _ (hI.recorded r m hm) rfl
    obtain ⟨n, w, hs⟩ := (hI.ends r).session
    have hkey : (base r).sendKey = (base r).recvKey := by
      rw [hs] at he
      exact congrArg Sealing.key he
    exact absurd hkey (hb.sendKey_ne_recvKey r)

/-- The window admits a counter it has not accepted and that is not too far below. -/
theorem admits_of_near {w : ReplayWindow} {seen : List UInt64} (ht : Tracks w seen)
    {c : UInt64} (hnew : c ∉ seen)
    (hnear : ∀ h, w.highest = some h → h.toNat - c.toNat ≤ windowBits) :
    SlidingWindow.Admits windowBits (values seen) c.toNat := by
  rcases highest_largest ht with ⟨-, rfl⟩ | ⟨h, hh, hmem, hmax⟩
  · exact Or.inl rfl
  · refine Or.inr (Or.inr ⟨fun hc => hnew (mem_values.mp hc), h.toNat, ?_, hnear h hh⟩)
    refine ⟨mem_values.mpr hmem, ?_⟩
    intro a ha
    obtain ⟨b, hb, rfl⟩ := List.mem_map.mp ha
    exact UInt64.le_iff_toNat_le.mp (hmax b hb)

/-- The AEAD call that opens a message is the one that sealed it. -/
theorem openingOf_genuine (hb : Paired P master sid base) (hI : Inv P base net)
    (hm : m ∈ (net.ends r.peer).sent) :
    openingOf (net.ends r).session m.packet
        (nextHeader { base r.peer with sendCounter := m.counter }) (m.plaintext r.peer) =
      sealingOf { base r.peer with sendCounter := m.counter } m.msgType m.payload m.packet := by
  obtain ⟨slot, -, hsealed⟩ := (hI.ends r.peer).sealed m hm
  obtain ⟨n, w, hs⟩ := (hI.ends r).session
  obtain ⟨hkey, hpre, -⟩ := hb.mirror r
  have hpt : m.plaintext r.peer =
      m.msgType.asU8 :: (base r.peer).role.sendDirection.asU8 :: m.payload := by
    rw [Sent.plaintext, hb.role r.peer]
  have hrk : (net.ends r).session.recvKey = (base r).recvKey := by rw [hs]; rfl
  have hrp : (net.ends r).session.recvPrefix = (base r).recvPrefix := by rw [hs]; rfl
  simp only [openingOf, sealingOf, hrk, hrp, hkey, hpre, hsealed.header, hpt]
  rfl

theorem open_genuine (hb : Paired P master sid base) (hcorrect : AeadCorrect P)
    (hI : Inv P base net) (hm : m ∈ (net.ends r.peer).sent) :
    (net.ends r).session.openPacket P m.packet
        (nextHeader { base r.peer with sendCounter := m.counter }).packetNonce =
      .ok (m.plaintext r.peer) := by
  obtain ⟨slot, hslot, hsealed⟩ := (hI.ends r.peer).sealed m hm
  have he := openingOf_genuine hb hI hm
  have hpt : (InnerPlaintext.encode ⟨m.msgType, (base r.peer).role.sendDirection, slot⟩).toList =
      m.plaintext r.peer := by
    rw [Sent.plaintext, ← hslot, hb.role r.peer]
    rfl
  have hcor := hcorrect _ _ _ _ _ hsealed.region
  refine P.aeadDecrypt_ok_iff.mpr ?_
  have hkey := congrArg Sealing.key he
  have hnonce := congrArg Sealing.nonce he
  have haad := congrArg Sealing.aad he
  simp only [openingOf, sealingOf] at hkey hnonce haad
  rw [hkey, hnonce, haad, ← hpt]
  exact hcor

/-- A genuine packet that is new and near enough is returned. -/
theorem genuine_returned (hb : Paired P master sid base) (hcorrect : AeadCorrect P)
    (hI : Inv P base net) (hm : m ∈ (net.ends r.peer).sent)
    (hnew : m.counter ∉ (net.ends r).got.map Prod.fst)
    (hnear : ∀ h, (net.ends r).session.recvHighest = some h → h.toNat - m.counter.toNat ≤ 1024) :
    ∃ slot : Payload, slot.toList = m.payload ∧
      ((net.ends r).session.decrypt P m.packet).1 =
        .ok ⟨m.msgType, r.peer.sendDirection, slot⟩ := by
  obtain ⟨slot, hslot, hsealed⟩ := (hI.ends r.peer).sealed m hm
  refine ⟨slot, hslot, ?_⟩
  have hnonce : (nextHeader { base r.peer with sendCounter := m.counter }).packetNonce =
      m.counter := rfl
  rw [decrypt_opened hsealed.parseHeader (open_genuine hb hcorrect hI hm), hnonce,
    afterOpen_genuine ((hI.ends r).role_eq hb) hslot hsealed.fresh, Role.sendDirection_peer]
  have hok := (accept_ok_iff (hI.ends r).tracks m.counter).mpr
    (admits_of_near (hI.ends r).tracks hnew hnear)
  rcases hacc : (net.ends r).session.replay.accept m.counter with ⟨_ | _, w⟩
  · rw [hacc] at hok
    cases hok
  · rfl

theorem unforged_only (hb : Paired P master sid base) (hcorrect : AeadCorrect P)
    (hI : Inv P base net) (hm : m ∈ (net.ends r.peer).sent)
    (honly : net.sealings.length = 1) : Unforged P net r m.packet := by
  intro header plaintext hh ho
  obtain ⟨slot, -, hsealed⟩ := (hI.ends r.peer).sealed m hm
  have hmem := hI.recorded r.peer m hm
  obtain ⟨e, he⟩ := List.length_eq_one_iff.mp honly
  rw [he, List.mem_singleton] at hmem
  obtain rfl := Except.ok.inj (hsealed.parseHeader.symm.trans hh)
  obtain rfl := Except.ok.inj ((open_genuine hb hcorrect hI hm).symm.trans ho)
  rw [openingOf_genuine hb hI hm, he]
  refine ⟨⟨e, List.mem_singleton_self e, ?_⟩, ?_⟩
  · rw [← hmem]
    rfl
  · intro e' he' _
    rw [List.mem_singleton.mp he', hmem]

/-- A packet refused at the version check or by the AEAD leaves no trace. -/
theorem decrypt_refused_unchanged (s : CipherSession) (packet : WirePacket)
    (h : ∀ header, packet.parseHeader = .ok header →
      ∃ e, s.openPacket P packet header.packetNonce = .error e) :
    (s.decrypt P packet).2 = s := by
  cases hh : packet.parseHeader with
  | error e => rw [decrypt_bad_header hh]
  | ok header =>
    obtain ⟨e, he⟩ := h header hh
    rw [decrypt_unopened hh he]

/-- Over every interleaving and every network: what a side obtains is what its peer
encrypted at that counter, at most once; reflections fail; genuine packets in the window
arrive; and a packet refused at the version check or the AEAD changes nothing. -/
theorem channel_integrity {P : Primitives T} {master : MasterSecret} {sid : SessionId}
    {base : Role → CipherSession} (hb : Paired P master sid base) (hcorrect : AeadCorrect P)
    {net : Net} (hrun : Reach (· = start base) (Step P) net) (r : Role) :
    (∀ g ∈ (net.ends r).got, ∃ m ∈ (net.ends r.peer).sent, m.counter = g.1 ∧
        g.2.msgType = m.msgType ∧ g.2.direction = r.peer.sendDirection ∧
        g.2.payload.toList = m.payload) ∧
      ((net.ends r).sent.map Sent.counter).Nodup ∧
      ((net.ends r).got.map Prod.fst).Nodup ∧
      (∀ m ∈ (net.ends r).sent, Unforged P net r m.packet →
        (net.ends r).session.decrypt P m.packet =
          (.error .decryptionFailed, (net.ends r).session)) ∧
      (∀ m ∈ (net.ends r.peer).sent, m.counter ∉ (net.ends r).got.map Prod.fst →
        (∀ h, (net.ends r).session.recvHighest = some h → h.toNat - m.counter.toNat ≤ 1024) →
        ∃ slot : Payload, slot.toList = m.payload ∧
          ((net.ends r).session.decrypt P m.packet).1 =
            .ok ⟨m.msgType, r.peer.sendDirection, slot⟩) ∧
      ∀ packet : WirePacket, (∀ header, packet.parseHeader = .ok header →
          ∃ e, (net.ends r).session.openPacket P packet header.packetNonce = .error e) →
        ((net.ends r).session.decrypt P packet).2 = (net.ends r).session := by
  have hI := reach_inv hb hrun
  exact ⟨(hI.ends r).genuine, (hI.ends r).distinct, (hI.ends r).once,
    fun m hm hU => reflected_fails hb hI hm hU,
    fun m hm hnew hnear => genuine_returned hb hcorrect hI hm hnew hnear,
    fun packet h => decrypt_refused_unchanged _ packet h⟩

private def sampleExpand (n : ℕ) (label : String) : Octets n :=
  Sample.fit n (ByteString.slice (sessionInfo (ByteString.ascii label) (ByteString.zeros 8)) 10 4 ++
    ByteString.zeros 32)

def sampleSession (r : Role) : CipherSession where
  role := r
  sessionId := Sample.fit 8 []
  keyC2s := sampleExpand 32 "pq-tunnel-c2s-v2"
  keyS2c := sampleExpand 32 "pq-tunnel-s2c-v2"
  prefixC2s := sampleExpand 4 "pq-tunnel-nonce-c2s-v2"
  prefixS2c := sampleExpand 4 "pq-tunnel-nonce-s2c-v2"
  sendCounter := 0
  replay := ReplayWindow.new

theorem sampleSession_paired :
    Paired Sample.primitives (Sample.fit 32 []) (Sample.fit 8 []) sampleSession where
  derived := fun _ => rfl
  separated := by decide

theorem sample_correct : AeadCorrect Sample.primitives := by
  intro key nonce plaintext aad ct h
  obtain rfl := Except.ok.inj h
  exact Sample.openBox_closeBox key nonce plaintext

theorem sample_delivery (msgType : MessageType) {payload : Bytes}
    (hlen : payload.length = payloadLen) :
    ∃ (net : Net) (m : Sent) (slot : Payload),
      Reach (· = start sampleSession) (Step Sample.primitives) net ∧
      (net.ends .client).sent = [m] ∧ m.msgType = msgType ∧ m.payload = payload ∧
      slot.toList = payload ∧
      (net.ends .server).got = [(m.counter, ⟨msgType, .clientToServer, slot⟩)] := by
  obtain ⟨packet, he⟩ := encrypt_succeeds (s := sampleSession .client)
    (fun k n p a _ => Sample.aeadSeal_total k n p a) msgType hlen (by decide)
  let m : Sent := ⟨0, msgType, payload, packet⟩
  let net := (start sampleSession).encrypt Sample.primitives .client msgType payload
  have hnet : net = { (start sampleSession).put .client
      ⟨{ sampleSession .client with sendCounter := 0 + 1 }, [m], []⟩ with
        sealings := [sealingOf (sampleSession .client) msgType payload packet] } := by
    simp only [net, Net.encrypt, start, he]
    rfl
  have hstart : Reach (· = start sampleSession) (Step Sample.primitives) (start sampleSession) :=
    Reach.start rfl
  have hreach : Reach (· = start sampleSession) (Step Sample.primitives) net :=
    hstart.next (Step.encrypt .client msgType payload)
  have hI := reach_inv sampleSession_paired hreach
  have hclient : (net.ends (Role.peer .server)).sent = [m] := by
    rw [hnet]
    rfl
  have hmem : m ∈ (net.ends (Role.peer .server)).sent := by
    rw [hclient]
    exact List.mem_singleton_self m
  have hserver : net.ends .server = ⟨sampleSession .server, [], []⟩ := by
    rw [hnet]
    rfl
  have hU := unforged_only sampleSession_paired sample_correct hI hmem (by rw [hnet]; rfl)
  obtain ⟨slot, hslot, hok⟩ := genuine_returned sampleSession_paired sample_correct hI hmem
    (by rw [hserver]; exact List.not_mem_nil) (by
      rw [hserver]
      intro h hh
      cases hh)
  rcases decrypt_cases sampleSession_paired hI hU with
    ⟨e, hd⟩ | ⟨m', hm', header, slot', w, hh, hnonce, -, -, -, hd⟩
  · rw [hd] at hok
    cases hok
  rw [hclient, List.mem_singleton] at hm'
  subst hm'
  rw [hd] at hok
  obtain rfl : slot' = slot := congrArg InnerPlaintext.payload (Except.ok.inj hok)
  refine ⟨_, m, slot', hreach.next (Step.deliver .server m.packet hU), ?_, rfl, rfl, hslot, ?_⟩
  · simp only [Net.deliver, hh, hd]
    rw [Net.put_other _ _ (by decide)]
    exact hclient
  · simp only [Net.deliver, hh, hd, hnonce, Net.put_same]
    rw [hserver]
    rfl

/-- A run in which the server obtains a packet of the client. -/
theorem channel_integrity_one_packet :
    ∃ net : Net, Reach (· = start sampleSession) (Step Sample.primitives) net ∧
      (net.ends .server).got ≠ [] ∧
      ∀ g ∈ (net.ends .server).got, ∃ m ∈ (net.ends .client).sent, m.counter = g.1 ∧
        g.2.payload.toList = m.payload := by
  obtain ⟨net, m, slot, hreach, -, -, -, -, hgot⟩ :=
    sample_delivery .data (ByteString.length_zeros payloadLen)
  refine ⟨net, hreach, by rw [hgot]; exact List.cons_ne_nil _ _, fun g hg => ?_⟩
  obtain ⟨m', hm', hc, -, -, hp⟩ :=
    (channel_integrity sampleSession_paired sample_correct hreach .server).1 g hg
  exact ⟨m', hm', hc, hp⟩

end PqTunnel.Channel
