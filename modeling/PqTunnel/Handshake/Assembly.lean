import Mathlib.Data.List.GetD
import PqTunnel.Handshake.Framing

/-! Fragments and assemblers: what parsing guarantees, and that an assembler holds exactly
the bodies it was given. -/
namespace PqTunnel
open ByteString HandshakeFragment

structure Layout (hsType total : UInt8) (msgLen : ℕ) : Prop where
  count : expectedFragCount hsType = some total
  len : messageBodyLen hsType = some msgLen

theorem layout_m1 : Layout hsTypeClientHello m1FragCount m1BodyLen := ⟨rfl, rfl⟩

theorem layout_m2 : Layout hsTypeServerHello m2FragCount m2BodyLen := ⟨rfl, rfl⟩

theorem layout_m3 : Layout hsTypeClientConfirm m3FragCount m3BodyLen := ⟨rfl, rfl⟩

theorem exists_layout {hsType total : UInt8} (h : expectedFragCount hsType = some total) :
    ∃ msgLen, Layout hsType total msgLen := by
  unfold expectedFragCount at h
  split_ifs at h with h1 h2 h3
  · obtain rfl := Option.some.inj h
    exact ⟨_, h1 ▸ layout_m1⟩
  · obtain rfl := Option.some.inj h
    exact ⟨_, h2 ▸ layout_m2⟩
  · obtain rfl := Option.some.inj h
    exact ⟨_, h3 ▸ layout_m3⟩

namespace Layout

theorem unique {hsType total total' : UInt8} {msgLen msgLen' : ℕ}
    (h : Layout hsType total msgLen) (h' : Layout hsType total' msgLen') :
    total = total' ∧ msgLen = msgLen' :=
  ⟨Option.mem_unique h.count h'.count, Option.mem_unique h.len h'.len⟩

theorem bounds {hsType total : UInt8} {msgLen : ℕ} (h : Layout hsType total msgLen) :
    (total.toNat - 1) * hsFragBodyMax < msgLen ∧ msgLen ≤ total.toNat * hsFragBodyMax ∧
      0 < total.toNat ∧ total.toNat ≤ 5 := by
  obtain ⟨hc, hl⟩ := h
  unfold expectedFragCount at hc
  unfold messageBodyLen at hl
  split_ifs at hc hl <;> obtain rfl := Option.some.inj hc <;> obtain rfl := Option.some.inj hl <;>
    decide

/-- Fragment `idx` starts inside the message, and its body ends inside it. -/
theorem body_fits {hsType total : UInt8} {msgLen : ℕ} (h : Layout hsType total msgLen) {idx : ℕ}
    (hi : idx < total.toNat) : idx * hsFragBodyMax < msgLen ∧
      idx * hsFragBodyMax + fragBodyLen msgLen idx ≤ msgLen := by
  obtain ⟨hlow, -, -, -⟩ := h.bounds
  have hstart : idx * hsFragBodyMax ≤ (total.toNat - 1) * hsFragBodyMax :=
    Nat.mul_le_mul_right _ (by omega)
  unfold fragBodyLen
  omega

end Layout

theorem fragBodyLen_le (msgLen idx : ℕ) : fragBodyLen msgLen idx ≤ hsFragBodyMax :=
  Nat.min_le_right ..

/-- What a parsed fragment says about the datagram it came from. -/
structure Parsed (pkt : WirePacket) (f : HandshakeFragment) (msgLen : ℕ) : Prop where
  version : f.version = protocolVersion ∧ f.version = pkt.byteAt 0
  sid : f.sid = pkt.sid
  hsType : f.hsType = hsTypeOf pkt
  layout : Layout f.hsType f.fragTotal msgLen
  idx : f.fragIdx.toNat < f.fragTotal.toNat
  body : f.body.length = fragBodyLen msgLen f.fragIdx.toNat

/-- Parsing either reports an error or yields a well-framed fragment; its `expect` is
never reached. -/
theorem fromDatagram_cases (pkt : WirePacket) :
    (∃ e, fromDatagram pkt = .error (.err e)) ∨
      ∃ f msgLen, fromDatagram pkt = .ok f ∧ Parsed pkt f msgLen := by
  simp only [fromDatagram]
  split
  · exact Or.inl ⟨_, rfl⟩
  · rename_i hver
    split
    · exact Or.inl ⟨_, rfl⟩
    · rename_i total hcount
      obtain ⟨msgLen, hlay⟩ := exists_layout hcount
      rw [hlay.len]
      split
      · exact Or.inl ⟨_, rfl⟩
      · rename_i htotal
        split
        · exact Or.inl ⟨_, rfl⟩
        · rename_i hidx
          have hlt := UInt8.lt_iff_toNat_lt.mp (UInt8.not_le.mp hidx)
          refine Or.inr ⟨_, msgLen, rfl, ⟨not_not.mp hver, rfl⟩, rfl, rfl,
            not_not.mp htotal ▸ hlay, hlt, ?_⟩
          refine length_slice ?_
          have hle := fragBodyLen_le msgLen (pkt.byteAt (versionLen + sessionIdLen + 1)).toNat
          rw [List.Vector.toList_length]
          exact Nat.add_le_add_left hle hsFragHeaderLen

theorem fromDatagram_ok {pkt : WirePacket} {f : HandshakeFragment}
    (h : fromDatagram pkt = .ok f) : ∃ msgLen, Parsed pkt f msgLen := by
  rcases fromDatagram_cases pkt with ⟨e, he⟩ | ⟨f', msgLen, hf, hp⟩
  · rw [he] at h
    cases h
  · rw [hf] at h
    exact ⟨msgLen, Except.ok.inj h ▸ hp⟩

def fragmentHeader (hsType version total : UInt8) (sid : SessionId) (idx : ℕ) : Bytes :=
  version :: (sid.toList ++ [hsType, UInt8.ofNat idx, total])

theorem fragmentBuffer_eq (hsType version total : UInt8) (sid : SessionId) (message : Bytes)
    (idx : ℕ) : fragmentBuffer hsType version total sid message idx =
      fragmentHeader hsType version total sid idx ++
        (chunk hsFragBodyMax message idx ++
          zeros (hsFragBodyMax - (chunk hsFragBodyMax message idx).length)) := by
  have hbody : slice message (idx * hsFragBodyMax)
      (min (idx * hsFragBodyMax + hsFragBodyMax) message.length - idx * hsFragBodyMax) =
        chunk hsFragBodyMax message idx := by
    rw [chunk_eq_slice]
    congr 1
    omega
  have hlen := length_chunk hsFragBodyMax message idx
  simp only [fragmentBuffer, hbody]
  generalize chunk hsFragBodyMax message idx = body at hlen
  have hsid : sid.toList.length = 8 := sid.toList_length
  have hpad : body.length + (hsFragBodyMax - body.length) = hsFragBodyMax :=
    Nat.add_sub_of_le (by omega)
  -- each field is written right behind the previous one
  rw [← List.nil_append (zeros packetSize), blit_next 1279 (by rfl) (by rfl),
    blit_next 1271 (by rfl) (by rw [hsid]), blit_next 1270 (by simp [hsid]; rfl) (by rfl),
    blit_next 1269 (by simp [hsid]; rfl) (by rfl),
    blit_next hsFragBodyMax (by simp [hsid]; rfl) (by rfl),
    blit_next _ (by simp [hsid]; rfl) hpad]
  simp [fragmentHeader]

theorem length_fragmentHeader (hsType version total : UInt8) (sid : SessionId) (idx : ℕ) :
    (fragmentHeader hsType version total sid idx).length = hsFragHeaderLen := by
  simp only [fragmentHeader, List.length_cons, List.length_append, List.Vector.toList_length]
  rfl

theorem length_fragmentBuffer (hsType version total : UInt8) (sid : SessionId) (message : Bytes)
    (idx : ℕ) : (fragmentBuffer hsType version total sid message idx).length = packetSize := by
  have hle : (chunk hsFragBodyMax message idx).length ≤ hsFragBodyMax := by
    rw [length_chunk]
    exact Nat.min_le_right ..
  rw [fragmentBuffer_eq, List.length_append, length_fragmentHeader, List.length_append,
    length_zeros, Nat.add_sub_cancel' hle]
  rfl

def fragmentPacket (hsType version total : UInt8) (sid : SessionId) (message : Bytes)
    (idx : ℕ) : WirePacket :=
  ⟨fragmentBuffer hsType version total sid message idx, length_fragmentBuffer ..⟩

theorem pushFragments_eq (hsType version total : UInt8) (sid : SessionId) (message : Bytes)
    (idxs : List ℕ) : pushFragments hsType version total sid message idxs =
      .ok (idxs.map (fragmentPacket hsType version total sid message)) := by
  induction idxs with
  | nil => rfl
  | cons idx rest ih =>
    have hpkt : WirePacket.fromBytes (fragmentBuffer hsType version total sid message idx) =
        .ok (fragmentPacket hsType version total sid message idx) :=
      dif_neg (not_not_intro (length_fragmentBuffer ..))
    simp only [pushFragments, hpkt, ih, List.map_cons]

theorem fragmentMessage_eq {hsType total : UInt8} {msgLen : ℕ} (h : Layout hsType total msgLen)
    (version : UInt8) (sid : SessionId) {message : Bytes} (hlen : message.length = msgLen) :
    fragmentMessage hsType version sid message = .ok ((List.range total.toNat).map
      (fragmentPacket hsType version total sid message)) := by
  simp only [fragmentMessage, h.count, h.len, hlen, ne_eq, not_true_eq_false, if_false,
    pushFragments_eq]

theorem getD_append_at (a b : Bytes) {i : ℕ} (x : UInt8) (h : a.length = i) :
    (a ++ x :: b).getD i 0 = x := by
  subst h
  simp

theorem toList_fragmentPacket (hsType version total : UInt8) (sid : SessionId) (message : Bytes)
    (idx : ℕ) : (fragmentPacket hsType version total sid message idx).toList =
      version :: (sid.toList ++ (hsType :: UInt8.ofNat idx :: total ::
        (chunk hsFragBodyMax message idx ++
          zeros (hsFragBodyMax - (chunk hsFragBodyMax message idx).length)))) := by
  simp [fragmentPacket, List.Vector.toList, fragmentBuffer_eq, fragmentHeader]

theorem sid_fragmentPacket (hsType version total : UInt8) (sid : SessionId) (message : Bytes)
    (idx : ℕ) : (fragmentPacket hsType version total sid message idx).sid = sid := by
  apply List.Vector.toList_injective
  have hdef : (fragmentPacket hsType version total sid message idx).sid.toList =
      slice (fragmentPacket hsType version total sid message idx).toList versionLen
        sessionIdLen := rfl
  rw [hdef, toList_fragmentPacket]
  exact slice_append_mid [version] sid.toList _ rfl sid.toList_length.symm

/-- Parsing a fragment of a message gives back its fields and its piece of the message. -/
theorem fromDatagram_fragmentPacket {hsType total : UInt8} {msgLen : ℕ}
    (h : Layout hsType total msgLen) (sid : SessionId) {message : Bytes}
    (hlen : message.length = msgLen) {idx : ℕ} (hi : idx < total.toNat) :
    fromDatagram
        (fragmentPacket hsType protocolVersion total sid message idx) =
      .ok { version := protocolVersion, sid, hsType, fragIdx := UInt8.ofNat idx
            fragTotal := total, body := chunk hsFragBodyMax message idx } := by
  have hsid : sid.toList.length = 8 := sid.toList_length
  have hl := toList_fragmentPacket hsType protocolVersion total sid message idx
  have hsidpkt := sid_fragmentPacket hsType protocolVersion total sid message idx
  generalize fragmentPacket hsType protocolVersion total sid message idx = pkt at hl hsidpkt ⊢
  generalize hbody : chunk hsFragBodyMax message idx = body at hl
  have hver : pkt.byteAt 0 = protocolVersion := by
    rw [WirePacket.byteAt, hl]
    rfl
  have htype : hsTypeOf pkt = hsType := by
    rw [hsTypeOf, WirePacket.byteAt, hl]
    exact getD_append_at (protocolVersion :: sid.toList) _ hsType (by simp [hsid]; rfl)
  have hidx : pkt.byteAt (versionLen + sessionIdLen + 1) = UInt8.ofNat idx := by
    have hre := getD_append_at (protocolVersion :: sid.toList ++ [hsType])
      (total :: (body ++ zeros (hsFragBodyMax - body.length))) (UInt8.ofNat idx)
      (i := versionLen + sessionIdLen + 1) (by simp [hsid]; rfl)
    rw [WirePacket.byteAt, hl]
    simpa using hre
  have htotal : pkt.byteAt (versionLen + sessionIdLen + 2) = total := by
    have hre := getD_append_at (protocolVersion :: sid.toList ++ [hsType, UInt8.ofNat idx])
      (body ++ zeros (hsFragBodyMax - body.length)) total
      (i := versionLen + sessionIdLen + 2) (by simp [hsid]; rfl)
    rw [WirePacket.byteAt, hl]
    simpa using hre
  have hnat : (UInt8.ofNat idx).toNat = idx := by
    obtain ⟨-, -, -, hle⟩ := h.bounds
    rw [UInt8.toNat_ofNat']
    exact Nat.mod_eq_of_lt (by omega)
  have hbodylen : fragBodyLen msgLen idx = body.length := by
    rw [← hbody, length_chunk, hlen]
    rfl
  have hslice : slice pkt.toList hsFragHeaderLen (fragBodyLen msgLen idx) = body := by
    have hhead : hsFragHeaderLen =
        (protocolVersion :: sid.toList ++ [hsType, UInt8.ofNat idx, total]).length := by
      simp [hsid]
      rfl
    have hre := slice_append_mid _ body (zeros (hsFragBodyMax - body.length)) hhead hbodylen
    rw [hl]
    simpa using hre
  simp only [fromDatagram, hver, htype, hidx, htotal, h.count, h.len, hsidpkt,
    hnat, hslice, ne_eq, not_true_eq_false, if_false]
  rw [if_neg]
  rw [UInt8.le_iff_toNat_le, hnat]
  omega

namespace FragmentAssembler

/-- An assembler for one message type whose received pieces satisfy `Q`. -/
structure Holds (a : FragmentAssembler) (hsType total : UInt8) (msgLen : ℕ)
    (Q : ℕ → Bytes → Prop) : Prop where
  layout : Layout hsType total msgLen
  type : a.hsType = hsType
  count : a.total = total
  len : a.buffer.length = msgLen
  pieces : ∀ i < total.toNat, a.hasReceived i = true → Q i (chunk hsFragBodyMax a.buffer i)
  done : a.complete = true ↔ ∀ i < total.toNat, a.hasReceived i = true

variable {Q : ℕ → Bytes → Prop} {total : UInt8} {msgLen : ℕ}

theorem Holds.mono {a : FragmentAssembler} {hsType : UInt8} {Q' : ℕ → Bytes → Prop}
    (ha : a.Holds hsType total msgLen Q) (hQ : ∀ i b, Q i b → Q' i b) :
    a.Holds hsType total msgLen Q' :=
  ⟨ha.layout, ha.type, ha.count, ha.len, fun i hi hr => hQ i _ (ha.pieces i hi hr), ha.done⟩

/-- The fragment is one the assembler still waits for. -/
def Awaits (a : FragmentAssembler) (frag : HandshakeFragment) : Prop :=
  a.complete = false ∧ frag.hsType = a.hsType ∧ frag.fragTotal = a.total ∧
    a.hasReceived frag.fragIdx.toNat = false

def store (a : FragmentAssembler) (frag : HandshakeFragment) : FragmentAssembler :=
  { a with
    received := a.markReceived frag.fragIdx.toNat
    buffer := blit a.buffer (frag.fragIdx.toNat * hsFragBodyMax) frag.body
    complete := ((a.markReceived frag.fragIdx.toNat).toList.take a.total.toNat).all id }

theorem new_holds {hsType : UInt8} (h : Layout hsType total msgLen) (Q : ℕ → Bytes → Prop) :
    ∃ a, FragmentAssembler.new hsType = some a ∧ a.Holds hsType total msgLen Q ∧
      ∀ i, a.hasReceived i = false := by
  have hnone : ∀ i, ((List.Vector.replicate 5 false).toList.getD i false) = false := by
    intro i
    change (List.replicate 5 false).getD i false = false
    rw [List.getD_eq_getElem?_getD]
    rcases lt_or_ge i 5 with hi | hi
    · rw [List.getElem?_replicate_of_lt hi]
      rfl
    · rw [List.getElem?_eq_none (by simpa using hi)]
      rfl
  refine ⟨⟨hsType, total, List.Vector.replicate 5 false, zeros msgLen, false⟩,
    by simp only [FragmentAssembler.new, h.count, h.len], ⟨h, rfl, rfl, ?_, ?_, ?_⟩, hnone⟩
  · exact length_zeros msgLen
  · intro i _ hr
    have := hnone i
    simp only [hasReceived] at hr
    rw [hr] at this
    cases this
  · obtain ⟨-, -, hpos, -⟩ := h.bounds
    constructor
    · intro hc
      cases hc
    · intro hall
      have := (hnone 0).symm.trans (hall 0 hpos)
      cases this

variable {a : FragmentAssembler} {frag : HandshakeFragment}

theorem addFragment_ignored (h : ¬ a.Awaits frag) : a.addFragment frag = (.ignored, a) := by
  simp only [addFragment]
  split_ifs with h1 h2 h3 h4
  all_goals first | rfl | skip
  all_goals
    exfalso
    apply h
    simp only [not_or, not_not, Bool.not_eq_true] at h1 h2
    exact ⟨h1.1, h1.2.1, h1.2.2, h2.2⟩

theorem hasReceived_store (hi : frag.fragIdx.toNat < 5) (j : ℕ) :
    (a.store frag).hasReceived j = (decide (j = frag.fragIdx.toNat) || a.hasReceived j) := by
  simp only [store, hasReceived, markReceived, List.Vector.toList]
  by_cases hj : j = frag.fragIdx.toNat
  · subst hj
    have hlen : frag.fragIdx.toNat < a.received.1.length := by
      rw [a.received.2]
      exact hi
    simp [List.getD_eq_getElem?_getD, List.getElem?_set_self hlen]
  · simp [List.getD_eq_getElem?_getD, hj, List.getElem?_set_ne (Ne.symm hj)]

theorem complete_store (ht : a.total.toNat ≤ 5) : (a.store frag).complete = true ↔
      ∀ i < a.total.toNat, (a.store frag).hasReceived i = true := by
  simp only [store, hasReceived]
  generalize a.markReceived frag.fragIdx.toNat = r
  rw [List.all_eq_true]
  have hlen : r.toList.length = 5 := r.toList_length
  constructor
  · intro hall i hi
    have hmem : r.toList.getD i false ∈ r.toList.take a.total.toNat := by
      rw [List.getD_eq_getElem _ _ (by omega)]
      exact List.mem_take_iff_getElem.mpr ⟨i, by omega, rfl⟩
    exact hall _ hmem
  · intro hall x hx
    obtain ⟨i, hi, rfl⟩ := List.mem_take_iff_getElem.mp hx
    have hi' : i < a.total.toNat := by omega
    have := hall i hi'
    rwa [List.getD_eq_getElem _ _ (by omega)] at this

theorem Holds.awaits {hsType : UInt8} (ha : a.Holds hsType total msgLen Q) {pkt : WirePacket}
    {len : ℕ} (hp : Parsed pkt frag len) (htype : frag.hsType = hsType)
    (hnew : a.hasReceived frag.fragIdx.toNat = false) : a.Awaits frag := by
  obtain ⟨htotal, -⟩ := hp.layout.unique (htype ▸ ha.layout)
  have hc : a.complete = false := by
    cases hc : a.complete with
    | false => rfl
    | true =>
      have := ha.done.mp hc _ (htotal ▸ hp.idx)
      rw [hnew] at this
      cases this
  exact ⟨hc, htype.trans ha.type.symm, htotal.trans ha.count.symm, hnew⟩

/-- A parsed fragment that is awaited is stored; the verdict says whether it was the last. -/
theorem addFragment_stored {hsType : UInt8} (ha : a.Holds hsType total msgLen Q) {pkt : WirePacket}
    {len : ℕ} (hp : Parsed pkt frag len) (hw : a.Awaits frag) :
    a.addFragment frag =
      (if (a.store frag).complete then .completed else .advanced, a.store frag) := by
  obtain ⟨hc, htype, htotal, hnew⟩ := hw
  have hlay : Layout frag.hsType total msgLen := htype ▸ ha.type ▸ ha.layout
  obtain ⟨-, rfl⟩ := hp.layout.unique hlay
  have hidx := hp.idx
  have hfit := (hp.layout.body_fits hidx).2
  rw [htotal] at hidx
  have h1 : ¬ (a.complete = true ∨ frag.hsType ≠ a.hsType ∨ frag.fragTotal ≠ a.total) := by
    simp [hc, htype, htotal]
  have h2 : ¬ (a.total.toNat ≤ frag.fragIdx.toNat ∨ a.hasReceived frag.fragIdx.toNat = true) := by
    simp only [hnew, Bool.false_eq_true, or_false, not_le]
    exact hidx
  have h3 : ¬ a.buffer.length < frag.fragIdx.toNat * hsFragBodyMax + frag.body.length := by
    rw [ha.len, hp.body]
    omega
  simp only [addFragment, if_neg h1, if_neg h2, if_neg h3]
  cases hall : ((a.markReceived frag.fragIdx.toNat).toList.take a.total.toNat).all id
  · simp [store, hall, hc]
  · simp [store, hall]

theorem Holds.store {hsType : UInt8} (ha : a.Holds hsType total msgLen Q) {pkt : WirePacket}
    {len : ℕ} (hp : Parsed pkt frag len) (hw : a.Awaits frag)
    (hQ : Q frag.fragIdx.toNat frag.body) : (a.store frag).Holds hsType total msgLen Q := by
  obtain ⟨hc, htype, htotal, hnew⟩ := hw
  have hlay : Layout frag.hsType total msgLen := htype ▸ ha.type ▸ ha.layout
  obtain ⟨-, rfl⟩ := hp.layout.unique hlay
  have hidx := hp.idx
  have hfit := (hp.layout.body_fits hidx).2
  obtain ⟨-, -, -, h5⟩ := ha.layout.bounds
  rw [htotal, ha.count] at hidx
  rw [← hp.body] at hfit
  have hfit' : frag.fragIdx.toNat * hsFragBodyMax + frag.body.length ≤ a.buffer.length := by
    rw [ha.len]
    exact hfit
  refine ⟨ha.layout, ha.type, ha.count, ?_, ?_, ?_⟩
  · exact (length_blit hfit').trans ha.len
  · intro i hi hr
    rw [hasReceived_store (by omega)] at hr
    by_cases hi' : i = frag.fragIdx.toNat
    · subst hi'
      have hself : chunk hsFragBodyMax (a.store frag).buffer frag.fragIdx.toNat = frag.body :=
        chunk_blit_self (by rw [hp.body, ha.len]; rfl) hfit'
      rwa [hself]
    · have hother : chunk hsFragBodyMax (a.store frag).buffer i =
          chunk hsFragBodyMax a.buffer i :=
        chunk_blit_other hi' (by rw [hp.body]; exact fragBodyLen_le ..) hfit'
      rw [hother]
      simp only [hi', decide_false, Bool.false_or] at hr
      exact ha.pieces i hi hr
  · have hdone := @complete_store a frag (by rw [ha.count]; exact h5)
    rwa [ha.count] at hdone

/-- A complete assembler whose pieces come from one message holds that message. -/
theorem Holds.buffer_eq {hsType : UInt8} {m : Bytes}
    (ha : a.Holds hsType total msgLen fun i b => b = chunk hsFragBodyMax m i)
    (hlen : m.length = msgLen) (hdone : a.complete = true) : a.buffer = m := by
  obtain ⟨-, hle, -, -⟩ := ha.layout.bounds
  refine ext_chunks (c := hsFragBodyMax) (n := total.toNat) ?_ ?_ fun i hi => ?_
  · rw [ha.len]
    exact hle
  · rw [hlen]
    exact hle
  · exact ha.pieces i hi (ha.done.mp hdone i hi)

end FragmentAssembler
end PqTunnel
