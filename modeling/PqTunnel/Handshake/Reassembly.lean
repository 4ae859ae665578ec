import Mathlib.Data.List.FinRange
import PqTunnel.Foundation.Checked
import PqTunnel.Foundation.Transition
import PqTunnel.Handshake.Assembly

/-! A handshake message from its fragments, in any order and with any duplicates; neither parsing
nor assembling reads or writes out of range. -/
namespace PqTunnel
open ByteString Transition HandshakeFragment

/-- `from_datagram` with every index, slice, subtraction and `expect` checked. -/
def HandshakeFragment.fromDatagramChecked (pkt : WirePacket) :
    Option (Except CodecError HandshakeFragment) := do
  let bytes := pkt.toList
  let version ← bytes[0]?
  if version ≠ protocolVersion then return .error (.invalidVersion protocolVersion version)
  let sid ← Checked.array sessionIdLen
    (← Checked.range bytes versionLen (versionLen + sessionIdLen))
  let hsType ← bytes[versionLen + sessionIdLen]?
  let fragIdx ← bytes[versionLen + sessionIdLen + 1]?
  let fragTotal ← bytes[versionLen + sessionIdLen + 2]?
  match expectedFragCount hsType with
  | none => return .error (.invalidMessageType hsType)
  | some expected =>
    if fragTotal ≠ expected then
      return .error (.truncated "frag_total" expected.toNat fragTotal.toNat)
    if fragTotal ≤ fragIdx then
      return .error (.truncated "frag_idx" fragTotal.toNat fragIdx.toNat)
    let msgLen ← messageBodyLen hsType
    let rest ← Checked.sub msgLen (fragIdx.toNat * hsFragBodyMax)
    let body ← Checked.range bytes hsFragHeaderLen (hsFragHeaderLen + min rest hsFragBodyMax)
    return .ok { version, sid, hsType, fragIdx, fragTotal, body }

theorem fromDatagramChecked_eq (pkt : WirePacket) :
    ∃ r, fromDatagramChecked pkt = some r ∧
      fromDatagram pkt = r.mapError .err := by
  have hlen : pkt.toList.length = 1280 := pkt.toList_length
  have hat : ∀ i < 1280, pkt.toList[i]? = some (pkt.byteAt i) := fun i hi =>
    Checked.index_of_lt (hlen ▸ hi) 0
  have hsid : Checked.range pkt.toList versionLen (versionLen + sessionIdLen) =
      some pkt.sid.toList := Checked.range_of_le (by rw [hlen]; decide)
  have harr : Checked.array sessionIdLen pkt.sid.toList = some pkt.sid :=
    Checked.array_of_length pkt.sid.toList_length
  simp only [fromDatagramChecked, fromDatagram,
    hat 0 (by decide), hat (versionLen + sessionIdLen) (by decide),
    hat (versionLen + sessionIdLen + 1) (by decide),
    hat (versionLen + sessionIdLen + 2) (by decide), hsid, harr, hsTypeOf,
    Option.bind_eq_bind, Option.bind_some, Option.pure_def]
  split
  · exact ⟨_, rfl, rfl⟩
  · cases hcount : expectedFragCount (pkt.byteAt (versionLen + sessionIdLen)) with
    | none => exact ⟨_, rfl, rfl⟩
    | some expected =>
      obtain ⟨msgLen, hlay⟩ := exists_layout hcount
      simp only [hlay.len]
      split
      · exact ⟨_, rfl, rfl⟩
      · rename_i htotal
        split
        · exact ⟨_, rfl, rfl⟩
        · rename_i hidx
          have hlt := UInt8.lt_iff_toNat_lt.mp (UInt8.not_le.mp hidx)
          rw [not_not.mp htotal] at hlt
          have hstart := (hlay.body_fits hlt).1
          have hfit := fragBodyLen_le msgLen (pkt.byteAt (versionLen + sessionIdLen + 1)).toNat
          simp only [Option.bind_some, Checked.sub_of_le hstart.le]
          rw [Checked.range_of_le (by rw [hlen]; exact Nat.add_le_add_left hfit hsFragHeaderLen)]
          exact ⟨_, rfl, rfl⟩

namespace FragmentAssembler

def storeChecked (a : FragmentAssembler) (frag : HandshakeFragment) :
    Option (FragmentResult × FragmentAssembler) := do
  let start := frag.fragIdx.toNat * hsFragBodyMax
  let received ← Checked.array 5 (← Checked.set a.received.toList frag.fragIdx.toNat true)
  let buffer ← Checked.copy a.buffer start (start + frag.body.length) frag.body
  let slots ← Checked.first received.toList a.total.toNat
  if slots.all id then return (.completed, { a with received, buffer, complete := true })
  else return (.advanced, { a with received, buffer })

/-- `add_fragment` with every index and slice checked. -/
def addFragmentChecked (a : FragmentAssembler) (frag : HandshakeFragment) :
    Option (FragmentResult × FragmentAssembler) :=
  if a.complete ∨ frag.hsType ≠ a.hsType ∨ frag.fragTotal ≠ a.total then some (.ignored, a)
  else if a.total.toNat ≤ frag.fragIdx.toNat then some (.ignored, a)
  else do
    let seen ← a.received.toList[frag.fragIdx.toNat]?
    if seen then return (.ignored, a)
    else if a.buffer.length < frag.fragIdx.toNat * hsFragBodyMax + frag.body.length then
      return (.ignored, a)
    else a.storeChecked frag

theorem addFragmentChecked_eq {a : FragmentAssembler} (h5 : a.total.toNat ≤ 5)
    (frag : HandshakeFragment) : a.addFragmentChecked frag = some (a.addFragment frag) := by
  have hlen : a.received.toList.length = 5 := a.received.toList_length
  simp only [addFragmentChecked, addFragment]
  by_cases h1 : a.complete ∨ frag.hsType ≠ a.hsType ∨ frag.fragTotal ≠ a.total
  · rw [if_pos h1, if_pos h1]
  rw [if_neg h1, if_neg h1]
  by_cases h2 : a.total.toNat ≤ frag.fragIdx.toNat
  · rw [if_pos h2, if_pos (Or.inl h2)]
  have hidx : frag.fragIdx.toNat < a.received.toList.length := by omega
  simp only [h2, if_false, false_or, Checked.index_of_lt hidx false, Option.bind_eq_bind,
    Option.bind_some, Option.pure_def, hasReceived]
  by_cases h3 : a.received.toList.getD frag.fragIdx.toNat false = true
  · rw [if_pos h3, if_pos h3]
  rw [if_neg h3, if_neg h3]
  by_cases h4 : a.buffer.length < frag.fragIdx.toNat * hsFragBodyMax + frag.body.length
  · rw [if_pos h4, if_pos h4]
  rw [if_neg h4, if_neg h4]
  have hset : Checked.array 5 (a.received.toList.set frag.fragIdx.toNat true) =
      some (a.markReceived frag.fragIdx.toNat) :=
    Checked.array_of_length (by rw [List.length_set, hlen])
  have hfirst : Checked.first (a.markReceived frag.fragIdx.toNat).toList a.total.toNat =
      some ((a.markReceived frag.fragIdx.toNat).toList.take a.total.toNat) :=
    Checked.first_of_le (by rw [List.Vector.toList_length]; exact h5)
  simp only [storeChecked, Checked.set_of_lt hidx, hset, hfirst,
    Checked.copy_of_le (not_lt.mp h4) rfl, Option.bind_eq_bind, Option.bind_some,
    Option.pure_def]
  exact (apply_ite some _ _ _).symm

variable (a : FragmentAssembler)

theorem addFragment_total (frag : HandshakeFragment) : (a.addFragment frag).2.total = a.total := by
  simp only [addFragment]
  split_ifs <;> rfl

/-- A datagram is parsed and, if it is a fragment, added. -/
def addDatagram (a : FragmentAssembler) (pkt : WirePacket) :
    Option FragmentResult × FragmentAssembler :=
  match HandshakeFragment.fromDatagram pkt with
  | .error _ => (none, a)
  | .ok frag => (some (a.addFragment frag).1, (a.addFragment frag).2)

def receive (a : FragmentAssembler) (pkts : List WirePacket) : FragmentAssembler :=
  pkts.foldl (fun a pkt => (a.addDatagram pkt).2) a

def answers (a : FragmentAssembler) (pkts : List WirePacket) : List FragmentResult :=
  outputs (fun a pkt => (a.addDatagram pkt).2) (fun a pkt => (a.addDatagram pkt).1.toList) a pkts

theorem addDatagram_of_ok {pkt : WirePacket} {frag : HandshakeFragment}
    (h : fromDatagram pkt = .ok frag) :
    a.addDatagram pkt = (some (a.addFragment frag).1, (a.addFragment frag).2) := by
  simp only [addDatagram, h]

theorem receive_total (pkts : List WirePacket) : (a.receive pkts).total = a.total := by
  induction pkts generalizing a with
  | nil => rfl
  | cons pkt pkts ih =>
    rw [receive, List.foldl_cons, ← receive, ih]
    unfold addDatagram
    split
    · rfl
    · exact addFragment_total a _

/-- Every fragment of the message was received at least once. -/
def Covers {n : ℕ} (seq : List (Fin n)) : Prop := ∀ i, i ∈ seq

instance {n : ℕ} (seq : List (Fin n)) : Decidable (Covers seq) :=
  inferInstanceAs (Decidable (∀ i, i ∈ seq))

/-- What is due to fragment `i` after the fragments `seq`. -/
def verdict {n : ℕ} (seq : List (Fin n)) (i : Fin n) : FragmentResult :=
  if i ∈ seq then .ignored else if Covers (seq ++ [i]) then .completed else .advanced

theorem Covers.append {n : ℕ} {seq : List (Fin n)} (h : Covers seq) (i : Fin n) :
    Covers (seq ++ [i]) := fun j => List.mem_append_left _ (h j)

theorem covers_append_of_mem {n : ℕ} {seq : List (Fin n)} {i : Fin n} (hi : i ∈ seq) :
    Covers (seq ++ [i]) ↔ Covers seq := by
  refine ⟨fun h j => ?_, fun h => h.append i⟩
  rcases List.mem_append.mp (h j) with hj | hj
  · exact hj
  · rwa [List.mem_singleton.mp hj]

/-- Fragment `i` of a message, as `fragment_message` cuts it. -/
def piece (hsType total : UInt8) (sid : SessionId) (message : Bytes) (i : Fin total.toNat) :
    WirePacket :=
  fragmentPacket hsType protocolVersion total sid message i

section Sequence
variable {hsType total : UInt8} {msgLen : ℕ} {message : Bytes} {a : FragmentAssembler}

/-- The assembler holds exactly the pieces of the message that are in `seq`. -/
structure Gathered (hsType total : UInt8) (msgLen : ℕ) (message : Bytes)
    (seq : List (Fin total.toNat)) (a : FragmentAssembler) : Prop where
  holds : a.Holds hsType total msgLen fun i b => b = chunk hsFragBodyMax message i
  seen : ∀ i : Fin total.toNat, a.hasReceived i = true ↔ i ∈ seq

theorem Gathered.complete_iff {seq : List (Fin total.toNat)}
    (h : Gathered hsType total msgLen message seq a) : a.complete = true ↔ Covers seq := by
  rw [h.holds.done]
  constructor
  · exact fun hall i => (h.seen i).mp (hall i i.isLt)
  · exact fun hall i hi => (h.seen ⟨i, hi⟩).mpr (hall _)

theorem Gathered.addDatagram {seq : List (Fin total.toNat)}
    (h : Gathered hsType total msgLen message seq a) (sid : SessionId)
    (hlen : message.length = msgLen) (i : Fin total.toNat) :
    (a.addDatagram (piece hsType total sid message i)).1 = some (verdict seq i) ∧
      Gathered hsType total msgLen message (seq ++ [i])
        (a.addDatagram (piece hsType total sid message i)).2 := by
  obtain ⟨-, -, -, h5⟩ := h.holds.layout.bounds
  have hi5 : (i : ℕ) < 5 := by omega
  have hparse := fromDatagram_fragmentPacket h.holds.layout sid hlen i.isLt
  obtain ⟨len, hp⟩ := fromDatagram_ok hparse
  have hnat : (UInt8.ofNat i).toNat = i := by
    rw [UInt8.toNat_ofNat']
    exact Nat.mod_eq_of_lt (by omega)
  rw [piece, addDatagram_of_ok a hparse]
  generalize hfrag : (HandshakeFragment.mk protocolVersion sid hsType (UInt8.ofNat i) total
    (chunk hsFragBodyMax message i)) = frag at hp ⊢
  have hidx : frag.fragIdx.toNat = i := by rw [← hfrag]; exact hnat
  have hbody : frag.body = chunk hsFragBodyMax message i := by rw [← hfrag]
  have htype : frag.hsType = hsType := by rw [← hfrag]
  by_cases hmem : i ∈ seq
  · have hnot : ¬ a.Awaits frag := by
      rintro ⟨-, -, -, hnew⟩
      rw [hidx, (h.seen i).mpr hmem] at hnew
      cases hnew
    rw [addFragment_ignored hnot]
    refine ⟨by rw [verdict, if_pos hmem], h.holds, fun j => ?_⟩
    rw [h.seen j, List.mem_append, List.mem_singleton]
    exact ⟨Or.inl, fun hj => hj.elim id fun hj => hj ▸ hmem⟩
  · have hnew : a.hasReceived frag.fragIdx.toNat = false := by
      rw [hidx, ← Bool.not_eq_true, h.seen i]
      exact hmem
    have hw := h.holds.awaits hp htype hnew
    have hnext : Gathered hsType total msgLen message (seq ++ [i]) (a.store frag) := by
      refine ⟨h.holds.store hp hw (by rw [hidx]; exact hbody), fun j => ?_⟩
      rw [hasReceived_store (by rw [hidx]; exact hi5), hidx, Bool.or_eq_true, decide_eq_true_iff,
        h.seen j, List.mem_append, List.mem_singleton, Fin.ext_iff]
      exact or_comm
    rw [addFragment_stored h.holds hp hw]
    refine ⟨?_, hnext⟩
    simp only [verdict, if_neg hmem, hnext.complete_iff]

/-- Any number of fragments of the message; only the last missing one completes it. -/
theorem Gathered.receive (h : Gathered hsType total msgLen message [] a) (sid : SessionId)
    (hlen : message.length = msgLen) (seq : List (Fin total.toNat)) :
    Gathered hsType total msgLen message seq
        (a.receive (seq.map (piece hsType total sid message))) ∧
      (a.answers (seq.map (piece hsType total sid message))).count .completed =
        if Covers seq then 1 else 0 := by
  induction seq using List.reverseRecOn with
  | nil =>
    have hnot : ¬ Covers ([] : List (Fin total.toNat)) := by
      intro hall
      obtain ⟨-, -, hpos, -⟩ := h.holds.layout.bounds
      exact List.not_mem_nil (hall ⟨0, hpos⟩)
    exact ⟨h, by rw [if_neg hnot]; rfl⟩
  | append_singleton seq i ih =>
    obtain ⟨hgot, hcount⟩ := ih
    obtain ⟨hverdict, hnext⟩ := hgot.addDatagram sid hlen i
    rw [List.map_append, List.map_singleton]
    constructor
    · rw [FragmentAssembler.receive, List.foldl_append]
      exact hnext
    · rw [answers, outputs_snoc, List.count_append, ← answers, hcount]
      rw [FragmentAssembler.receive] at hverdict
      rw [hverdict, Option.toList_some, verdict]
      -- a fragment already there changes nothing; a new one may be the last
      by_cases hmem : i ∈ seq
      · simp [if_pos hmem, covers_append_of_mem hmem]
      · have hnot : ¬ Covers seq := fun hall => hmem (hall i)
        by_cases hall : Covers (seq ++ [i]) <;> simp [hmem, hnot, hall]

end Sequence

/-- A message is reassembled from its fragments, in whatever order and however often they come. -/
theorem message_reassembled {hsType total : UInt8} {msgLen : ℕ} (h : Layout hsType total msgLen)
    (sid : SessionId) {message : Bytes} (hlen : message.length = msgLen) :
    ∃ (pieces : Fin total.toNat → WirePacket) (a : FragmentAssembler),
      fragmentMessage hsType protocolVersion sid message = .ok (List.ofFn pieces) ∧
      FragmentAssembler.new hsType = some a ∧
      (∀ i, ∃ frag, HandshakeFragment.fromDatagram (pieces i) = .ok frag ∧ frag.sid = sid ∧
        frag.hsType = hsType ∧ frag.fragTotal = total ∧ frag.fragIdx.toNat = i ∧
        frag.body = chunk hsFragBodyMax message i) ∧
      (∀ seq i, ((a.receive (seq.map pieces)).addDatagram (pieces i)).1 = some (verdict seq i)) ∧
      (∀ seq, (a.answers (seq.map pieces)).count .completed = if Covers seq then 1 else 0) ∧
      (∀ seq, (a.receive (seq.map pieces)).message = if Covers seq then some message else none) ∧
      (∀ seq frag, Covers seq → (a.receive (seq.map pieces)).addFragment frag =
        (.ignored, a.receive (seq.map pieces))) ∧
      (∀ pkt, ∃ r, HandshakeFragment.fromDatagramChecked pkt = some r ∧
        HandshakeFragment.fromDatagram pkt = r.mapError .err) ∧
      ∀ pkts frag, (a.receive pkts).addFragmentChecked frag =
        some ((a.receive pkts).addFragment frag) := by
  obtain ⟨a, hnew, hholds, hnone⟩ := new_holds h fun i b => b = chunk hsFragBodyMax message i
  have hstart : Gathered hsType total msgLen message [] a :=
    ⟨hholds, fun i => by simp [hnone i]⟩
  have h5 := h.bounds.2.2.2
  refine ⟨piece hsType total sid message, a, ?_, hnew, ?_, ?_,
    ?_, ?_, ?_, fromDatagramChecked_eq, ?_⟩
  · rw [fragmentMessage_eq h protocolVersion sid hlen, List.ofFn_eq_map,
      ← List.map_coe_finRange_eq_range, List.map_map]
    rfl
  · intro i
    refine ⟨_, fromDatagram_fragmentPacket h sid hlen i.isLt, rfl, rfl, rfl, ?_, rfl⟩
    rw [UInt8.toNat_ofNat']
    exact Nat.mod_eq_of_lt (by omega)
  · intro seq i
    exact ((hstart.receive sid hlen seq).1.addDatagram sid hlen i).1
  · intro seq
    exact (hstart.receive sid hlen seq).2
  · intro seq
    have hgot := (hstart.receive sid hlen seq).1
    rw [FragmentAssembler.message]
    by_cases hall : Covers seq
    · have hdone := hgot.complete_iff.mpr hall
      rw [if_pos hdone, if_pos hall, hgot.holds.buffer_eq hlen hdone]
    · rw [if_neg (mt hgot.complete_iff.mp hall), if_neg hall]
  · intro seq frag hall
    apply addFragment_ignored
    rintro ⟨hopen, -⟩
    rw [(hstart.receive sid hlen seq).1.complete_iff.mpr hall] at hopen
    cases hopen
  · intro pkts frag
    apply addFragmentChecked_eq
    rw [receive_total, hholds.count]
    exact h5

/-- The first handshake message, its four fragments received in reverse and then once more. -/
theorem message_reassembled_hello :
    ∃ (pieces : Fin 4 → WirePacket) (a : FragmentAssembler),
      FragmentAssembler.new hsTypeClientHello = some a ∧
      (a.receive ([3, 2, 1, 0, 2, 3].map pieces)).message = some (zeros m1BodyLen) ∧
      (a.answers ([3, 2, 1, 0, 2, 3].map pieces)).count .completed = 1 := by
  obtain ⟨pieces, a, -, hnew, -, -, hcount, hmsg, -⟩ :=
    message_reassembled layout_m1 (List.Vector.replicate 8 0) (length_zeros m1BodyLen)
  have hall : Covers ([3, 2, 1, 0, 2, 3] : List (Fin 4)) := by decide
  refine ⟨pieces, a, hnew, ?_, ?_⟩
  · exact (hmsg _).trans (if_pos hall)
  · exact (hcount _).trans (if_pos hall)

end FragmentAssembler
end PqTunnel
