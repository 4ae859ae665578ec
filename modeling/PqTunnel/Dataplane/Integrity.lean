import PqTunnel.Dataplane.Delivery

/-! What the reassembler never hands out: a packet that is not made of fed slots, and a packet of a
datagram whose entry saw a violation. -/
namespace PqTunnel
open ByteString OverlayHeader Entry

def fragmentOf (slot : Payload) : Bytes :=
  match OverlayHeader.decode slot.toList with
  | .ok hdr => slotFragment slot hdr
  | .error _ => []

/-- The slot carries fragment `i` of the datagram that the header belongs to. -/
def PieceOf (hdr : OverlayHeader) (i : ℕ) (slot : Payload) : Prop :=
  ∃ hdr', OverlayHeader.decode slot.toList = .ok hdr' ∧ hdr'.datagramId = hdr.datagramId ∧
    hdr'.fragIndex.toNat = i ∧ hdr'.fragCount = hdr.fragCount ∧
    hdr'.ipTotalLen = hdr.ipTotalLen ∧ hdr'.datagramCrc = hdr.datagramCrc

namespace Reassembler

section Completion

variable {deadline maxEntries maxBytes now : ℕ} {ops : List Op} {slot : Payload} {b : Bytes}

/-- A completed entry is the concatenation of fragments that were fed since it was created. -/
theorem completed_pieces {hdr : OverlayHeader} {fed : List Payload} {e e' : Entry}
    (hbacked : Backed hdr.datagramId fed e) (hdecode : decode slot.toList = .ok hdr)
    (haccepts : Accepts e hdr slot (.complete b, e')) :
    validateIpPacket b = .ok b.length ∧ crc32 b = hdr.datagramCrc ∧
      ∃ piece : ℕ → Payload,
        (∀ i < hdr.fragCount.toNat, piece i ∈ fed ++ [slot] ∧ PieceOf hdr i (piece i)) ∧
        b = (List.range hdr.fragCount.toNat).flatMap fun i => fragmentOf (piece i) := by
  have hvalid := (decode_valid hdecode).2
  have hnext := hbacked.accepts hvalid hdecode rfl haccepts
  cases haccepts with
  | finished htakes hcomplete hcrc =>
    obtain ⟨hall, hchecked⟩ := hnext.isComplete_iff.mp hcomplete
    have hcount : (e.written hdr slot).fragCount = hdr.fragCount :=
      write_fragCount.trans htakes.fits.count
    have hlen : (e.written hdr slot).ipTotalLen = e.ipTotalLen := write_ipTotalLen
    have hsize := hnext.size
    have hcheck := (hnext.valid hchecked).2
    rw [← hsize] at hcheck
    refine ⟨(validateIpHeaderAt_iff (hsize ▸ hnext.len)).mp hcheck, ?_, ?_⟩
    · rw [← htakes.fits.crc, ← hcrc, ← hlen, ← hsize, List.take_length]
    rw [hcount] at hall
    have hpiece : ∀ i, ∃ piece, i < hdr.fragCount.toNat → piece ∈ fed ++ [slot] ∧
        PieceOf hdr i piece ∧ fragmentOf piece = chunk fragCap (e.written hdr slot).buf i := by
      intro i
      by_cases hi : i < hdr.fragCount.toNat
      · obtain ⟨piece, hmem, hdr', hdecode', hid, hindex, hfits, hsame⟩ :=
          hnext.pieces i (hall i hi)
        refine ⟨piece, fun _ => ⟨hmem, ⟨hdr', hdecode', hid, hindex, ?_, ?_, ?_⟩, ?_⟩⟩
        · exact hfits.count.symm.trans hcount
        · exact UInt16.toNat_inj.mp (hfits.len.symm.trans (hlen.trans htakes.fits.len))
        · exact hfits.crc.symm.trans (write_datagramCrc.trans htakes.fits.crc)
        · rw [fragmentOf, hdecode']
          exact hsame
      · exact ⟨slot, fun hlt => absurd hlt hi⟩
    choose piece hpiece using hpiece
    refine ⟨piece, fun i hi => ⟨(hpiece i hi).1, (hpiece i hi).2.1⟩, ?_⟩
    have hhigh := hnext.high
    rw [← hsize, hcount] at hhigh
    refine (flatMap_chunk hhigh).symm.trans (List.flatMap_congr fun i hi => ?_)
    rw [(hpiece i (List.mem_range.mp hi)).2.2]

/-- A packet is completed by a slot that its entry accepts. -/
theorem complete_accepts
    (h : (((withCaps deadline maxEntries maxBytes).run ops).feed slot now).1 = .complete b) :
    ∃ hdr e e', decode slot.toList = .ok hdr ∧
      Backed hdr.datagramId (((withCaps deadline maxEntries maxBytes).run ops).remembered
        ((withCaps deadline maxEntries maxBytes).fedSince ops) now hdr.datagramId) e ∧
      Accepts e hdr slot (.complete b, e') := by
  have hall := allBacked_run deadline maxEntries maxBytes ops
  have hfed := feed_fed ((withCaps deadline maxEntries maxBytes).run ops) slot now
  generalize ((withCaps deadline maxEntries maxBytes).run ops).feed slot now = res at h hfed
  cases hfed with
  | invalid => cases h
  | dropped _ out _ _ hout =>
    obtain rfl : out = .complete b := h
    rcases hout with hout | hout <;> cases hout
  | kept _ _ _ _ out _ _ _ hout => exact absurd h (hout b)
  | completed hdr e e' r₁ b' hdecode hopens haccepts =>
    obtain rfl := FeedOutcome.complete.inj h
    have hbacked := (hopens.backed hall (decode_valid hdecode).2).1
    exact ⟨hdr, e, e', hdecode, hbacked, haccepts⟩

/-- Whatever is fed, a completed packet is a valid IP packet of its checksum, put together from one
slot for each fragment, all of one datagram and fed since its entry was created. -/
theorem complete_from_slots
    (h : (((withCaps deadline maxEntries maxBytes).run ops).feed slot now).1 = .complete b) :
    ∃ hdr, OverlayHeader.decode slot.toList = .ok hdr ∧
      validateIpPacket b = .ok b.length ∧ crc32 b = hdr.datagramCrc ∧
      ∃ piece : ℕ → Payload,
        (∀ i < hdr.fragCount.toNat,
          piece i ∈ (withCaps deadline maxEntries maxBytes).fedSince (ops ++ [.feed slot now])
            hdr.datagramId ∧ PieceOf hdr i (piece i)) ∧
        b = (List.range hdr.fragCount.toNat).flatMap fun i => fragmentOf (piece i) := by
  have hsince : ∀ id, (withCaps deadline maxEntries maxBytes).fedSince (ops ++ [.feed slot now]) id =
      ((withCaps deadline maxEntries maxBytes).run ops).remembered
        ((withCaps deadline maxEntries maxBytes).fedSince ops) now id ++ [slot] := by
    intro id
    rw [fedSince, tracked_snoc, tracked_run]
    rfl
  obtain ⟨hdr, e, e', hdecode, hbacked, haccepts⟩ := complete_accepts h
  refine ⟨hdr, hdecode, ?_⟩
  rw [hsince]
  exact completed_pieces hbacked hdecode haccepts

/-- The sample packet is put together from its two slots. -/
theorem complete_from_slots_sample :
    (sampleBefore.feed sampleLast.slot 4).1 = .complete (sampleIp 1300) ∧
      ∃ hdr, OverlayHeader.decode sampleLast.slot.toList = .ok hdr ∧
        crc32 (sampleIp 1300) = hdr.datagramCrc := by
  obtain ⟨hdr, hdecode, -, hcrc, -⟩ := complete_from_slots sample_completes
  exact ⟨sample_completes, hdr, hdecode, hcrc⟩

end Completion
section Violations

/-- The id that a slot carries, whether or not the rest of its header is valid. -/
def idField (slot : Payload) : UInt64 :=
  (OverlayHeader.fields (slot.toList.take overlayHeaderLen)).datagramId

/-- The ways in which a slot can violate the protocol for an existing entry. -/
inductive Violation (e : Entry) (slot : Payload) : Prop where
  | header (err : OverlayError) (hdecode : OverlayHeader.decode slot.toList = .error err)
  | metadata (hdr : OverlayHeader) (hdecode : OverlayHeader.decode slot.toList = .ok hdr)
      (h : ¬ Matches e hdr)
  | padding (hdr : OverlayHeader) (hdecode : OverlayHeader.decode slot.toList = .ok hdr)
      (h : ∃ x ∈ slot.toList.drop (overlayHeaderLen + expectedFragLen hdr), x ≠ 0)
  | duplicate (hdr : OverlayHeader) (hdecode : OverlayHeader.decode slot.toList = .ok hdr)
      (hreceived : e.has hdr.fragIndex.toNat = true)
      (h : slice e.buf (hdr.fragIndex.toNat * fragCap) (expectedFragLen hdr) ≠
        slotFragment slot hdr)
  | ipHeader (hdr : OverlayHeader) (hdecode : OverlayHeader.decode slot.toList = .ok hdr)
      (hfirst : hdr.fragIndex.toNat = 0)
      (h : validateIpHeaderAt (blit e.buf 0 (slotFragment slot hdr)) e.ipTotalLen ≠ .ok ())
  | checksum (hdr : OverlayHeader) (hdecode : OverlayHeader.decode slot.toList = .ok hdr)
      (hlast : e.has hdr.fragIndex.toNat = false)
      (hothers : ∀ i < e.fragCount.toNat, i ≠ hdr.fragIndex.toNat → e.has i = true)
      (h : crc32 (blit e.buf (hdr.fragIndex.toNat * fragCap) (slotFragment slot hdr)) ≠
        e.datagramCrc)

variable {id : UInt64} {fed : List Payload} {e e' : Entry} {hdr : OverlayHeader} {slot : Payload}
  {out : FeedOutcome} {r : Reassembler} {now : ℕ}

theorem idField_eq (hdecode : decode slot.toList = .ok hdr) :
    idField slot = hdr.datagramId := by
  rw [idField, (decode_valid hdecode).1]

/-- Padding that is not zero is found by the scan. -/
theorem not_trailing (h : trailingBad slot hdr = false)
    (hbad : ∃ x ∈ slot.toList.drop (overlayHeaderLen + expectedFragLen hdr), x ≠ 0) : False := by
  obtain ⟨x, hmem, hx⟩ := hbad
  rw [trailingBad, List.any_eq_false] at h
  exact h x hmem (decide_eq_true hx)

theorem blit_copy (h : Backed id fed e) (hvalid : hdr.Valid) (hfits : Matches e hdr)
    (hsame : slice e.buf (hdr.fragIndex.toNat * fragCap) (expectedFragLen hdr) =
      slotFragment slot hdr) :
    blit e.buf (hdr.fragIndex.toNat * fragCap) (slotFragment slot hdr) = e.buf := by
  have hend := (h.fits hvalid hfits slot).2.1
  have hlen : (slotFragment slot hdr).length = expectedFragLen hdr := length_slotFragment hvalid
  rw [blit, hlen, ← hsame, slice, ← List.drop_drop, List.take_append_drop, List.take_append_drop]

namespace Violation

theorem not_copy (h : Violation e slot) (hdecode : decode slot.toList = .ok hdr)
    (hbacked : Backed id fed e) (hchecked : Checked e) (hlive : e.poisoned = false)
    (hfits : Matches e hdr) (hpad : trailingBad slot hdr = false)
    (hreceived : e.has hdr.fragIndex.toNat = true)
    (hsame : slice e.buf (hdr.fragIndex.toNat * fragCap) (expectedFragLen hdr) =
      slotFragment slot hdr) : False := by
  have hhdr : ∀ {hdr'}, decode slot.toList = .ok hdr' → hdr' = hdr := fun h' =>
    Except.ok.inj (h'.symm.trans hdecode)
  cases h with
  | header _ hdecode' => cases hdecode'.symm.trans hdecode
  | metadata _ hdecode' h => exact h (hhdr hdecode' ▸ hfits)
  | padding _ hdecode' h => exact not_trailing (hhdr hdecode' ▸ hpad) h
  | duplicate _ hdecode' _ h => exact h (hhdr hdecode' ▸ hsame)
  | ipHeader _ hdecode' hfirst h =>
    obtain rfl := (hhdr hdecode').symm
    have hblit := blit_copy hbacked (decode_valid hdecode).2 hfits hsame
    rw [hfirst] at hreceived hblit
    rw [Nat.zero_mul] at hblit
    rw [hblit] at h
    exact h (hbacked.valid (hchecked hlive hreceived)).2
  | checksum _ hdecode' hlast =>
    rw [hhdr hdecode', hreceived] at hlast
    cases hlast

theorem not_taken (h : Violation e slot) (hdecode : decode slot.toList = .ok hdr)
    (hbacked : Backed id fed e) (htakes : Takes e hdr slot)
    (hnext : Backed id (fed ++ [slot]) (e.written hdr slot)) (hchecked : Checked (e.written hdr slot))
    (hcrc : (e.written hdr slot).isComplete = true →
      crc32 ((e.written hdr slot).buf.take e.ipTotalLen) = e.datagramCrc) : False := by
  have hvalid := (decode_valid hdecode).2
  have hhdr : ∀ {hdr'}, decode slot.toList = .ok hdr' → hdr' = hdr := fun h' =>
    Except.ok.inj (h'.symm.trans hdecode)
  have hbuf : (e.written hdr slot).buf =
      blit e.buf (hdr.fragIndex.toNat * fragCap) (slotFragment slot hdr) := write_buf
  have hlive : (e.written hdr slot).poisoned = false := write_poisoned.trans htakes.live
  have hhas := hbacked.has_written hvalid htakes.fits slot
  cases h with
  | header _ hdecode' => cases hdecode'.symm.trans hdecode
  | metadata _ hdecode' h => exact h (hhdr hdecode' ▸ htakes.fits)
  | padding _ hdecode' h => exact not_trailing (hhdr hdecode' ▸ htakes.padding) h
  | duplicate _ hdecode' hreceived =>
    rw [hhdr hdecode', htakes.fresh] at hreceived
    cases hreceived
  | ipHeader _ hdecode' hfirst h =>
    obtain rfl := (hhdr hdecode').symm
    have hok := (hbacked.valid_written hvalid htakes
      (hchecked hlive (by rw [hhas, if_pos hfirst.symm]))).2
    rw [hbuf, hfirst, Nat.zero_mul] at hok
    exact h hok
  | checksum _ hdecode' _ hothers h =>
    obtain rfl := (hhdr hdecode').symm
    have hall : ∀ i < (e.written hdr slot).fragCount.toNat, (e.written hdr slot).has i = true := by
      intro i hi
      rw [hhas]
      split_ifs with hindex
      · rfl
      · exact hothers i (write_fragCount (e := e) ▸ hi) hindex
    have hcomplete := hnext.isComplete_iff.mpr ⟨hall, hchecked hlive (hall 0 hnext.count)⟩
    have hlen : (e.written hdr slot).ipTotalLen = e.ipTotalLen := write_ipTotalLen
    have hcrc := hcrc hcomplete
    rw [← hlen, ← hnext.size, List.take_length, hbuf] at hcrc
    exact h hcrc

/-- A slot whose header is valid and that violates the protocol poisons its entry. -/
theorem poisons (h : Violation e slot) (hdecode : decode slot.toList = .ok hdr)
    (hbacked : Backed hdr.datagramId fed e) (hchecked : Checked e)
    (haccepts : Accepts e hdr slot (out, e')) :
    e'.poisoned = true ∧ e'.deadline = e.deadline ∧ ∀ b, out ≠ .complete b := by
  have hvalid := (decode_valid hdecode).2
  have hnext := hbacked.accepts hvalid hdecode rfl haccepts
  have hchecked' := hchecked.accepts haccepts
  cases haccepts with
  | dead hdead => exact ⟨hdead, rfl, by simp⟩
  | refused => exact ⟨rfl, rfl, by simp⟩
  | again hlive hfits hpad hreceived hsame =>
    exact (h.not_copy hdecode hbacked hchecked hlive hfits hpad hreceived hsame).elim
  | broken => exact ⟨rfl, write_deadline, by simp⟩
  | finished htakes _ hcrc =>
    exact (h.not_taken hdecode hbacked htakes hnext hchecked' fun _ => hcrc).elim
  | waiting htakes _ hcomplete =>
    refine (h.not_taken hdecode hbacked htakes hnext hchecked' fun hdone => ?_).elim
    rw [hcomplete] at hdone
    cases hdone

end Violation

/-- The call takes place by `t` and keeps the entries. -/
def Op.Until (t : ℕ) : Op → Prop
  | .feed _ now => now ≤ t
  | .expire now => now ≤ t
  | .clear => False

/-- The entry of the datagram is poisoned and stays until the deadline. -/
def Stuck (r : Reassembler) (id : UInt64) (deadline : ℕ) : Prop :=
  ∃ e, r.entries.get id = some e ∧ e.poisoned = true ∧ e.deadline = deadline

namespace Stuck

variable {deadline t : ℕ}

theorem expire (h : Stuck r id deadline) (hnow : now < deadline) :
    Stuck (r.expire now) id deadline := by
  obtain ⟨e, hget, hdead, rfl⟩ := h
  exact ⟨e, expire_of_get hget hnow, hdead, rfl⟩

/-- Before the deadline a poisoned entry is poisoned after every slot, and none completes it. -/
theorem feed (h : Stuck r id deadline) (slot : Payload) (hnow : now < deadline) :
    Stuck (r.feed slot now).2 id deadline ∧
      (idField slot = id → ∀ b, (r.feed slot now).1 ≠ .complete b) := by
  have hstuck := h.expire hnow
  have hfed := feed_fed r slot now
  generalize r.feed slot now = res at hfed
  have hopened : ∀ {hdr : OverlayHeader} {e r₁},
      Opens (r.expire now) hdr slot now e r₁ → hdr.datagramId = id →
        e.poisoned = true ∧ e.deadline = deadline := by
    rintro hdr e r₁ hopens rfl
    obtain ⟨e₀, hget, hdead, hdeadline⟩ := hstuck
    cases hopens with
    | found _ hfound =>
      obtain rfl := Option.mem_unique hfound hget
      exact ⟨hdead, hdeadline⟩
    | created hnone => cases hnone.symm.trans hget
  cases hfed with
  | invalid => exact ⟨hstuck, fun _ => by simp⟩
  | dropped hdr out _ _ hout =>
    refine ⟨hstuck, fun _ => ?_⟩
    rcases hout with rfl | rfl <;> simp
  | kept hdr e e' r₁ out _ hopens haccepts hout =>
    refine ⟨?_, fun _ => hout⟩
    by_cases hid : hdr.datagramId = id
    · obtain ⟨hdead, hdeadline⟩ := hopened hopens hid
      have hsame : e' = e := by
        cases haccepts with
        | dead | again hlive => rfl
        | refused hlive => exact absurd hdead (by rw [hlive]; decide)
        | broken htakes | finished htakes | waiting htakes =>
          exact absurd hdead (by rw [htakes.live]; decide)
      exact ⟨e', by rw [hid]; exact Table.get_put_self .., hsame ▸ hdead, hsame ▸ hdeadline⟩
    · obtain ⟨e₀, hget, hdead⟩ := hstuck
      refine ⟨e₀, ?_, hdead⟩
      dsimp only
      rw [Table.get_put_ne _ _ (Ne.symm hid), hopens.other (Ne.symm hid), hget]
  | completed hdr e e' r₁ b hdecode hopens haccepts =>
    have hid : hdr.datagramId ≠ id := by
      intro hid
      cases haccepts with
      | finished htakes => exact absurd (hopened hopens hid).1 (by rw [htakes.live]; decide)
    obtain ⟨e₀, hget, hdead⟩ := hstuck
    refine ⟨⟨e₀, ?_, hdead⟩, fun hsame => absurd ?_ hid⟩
    · dsimp only
      rw [Table.get_remove_ne _ (Ne.symm hid), hopens.other (Ne.symm hid), hget]
    · rw [← hsame, idField_eq hdecode]

theorem run (h : Stuck r id deadline) {ops : List Op} (hops : ∀ op ∈ ops, op.Until t)
    (ht : t < deadline) : Stuck (r.run ops) id deadline := by
  induction ops using List.reverseRecOn with
  | nil => exact h
  | append_singleton ops op ih =>
    rw [run_snoc]
    have hprev := ih fun op' hmem => hops op' (List.mem_append_left _ hmem)
    have hop : op.Until t := hops op (by simp)
    cases op with
    | feed slot now => exact (hprev.feed slot (lt_of_le_of_lt hop ht)).1
    | expire now => exact hprev.expire (lt_of_le_of_lt hop ht)
    | clear => exact hop.elim

end Stuck

/-- A slot with a valid header that violates the protocol leaves the entry stuck. -/
theorem AllBacked.stuck {fed : UInt64 → List Payload} (hall : AllBacked r fed)
    (hget : r.entries.get (idField slot) = some e) (h : Violation e slot)
    (hdecode : decode slot.toList = .ok hdr) (hnow : now < e.deadline) :
    Stuck (r.feed slot now).2 (idField slot) e.deadline := by
  rw [idField_eq hdecode] at hget ⊢
  have hlive := expire_of_get hget hnow
  obtain ⟨hbacked, hchecked⟩ := hall _ _ hget
  have hfed := feed_fed r slot now
  generalize r.feed slot now = res at hfed
  have hhdr : ∀ {hdr'}, decode slot.toList = .ok hdr' → hdr' = hdr := fun h' =>
    Except.ok.inj (h'.symm.trans hdecode)
  have hentry : ∀ {e₁ r₁}, Opens (r.expire now) hdr slot now e₁ r₁ → e₁ = e := by
    intro e₁ r₁ hopens
    cases hopens with
    | found _ hfound => exact Option.mem_unique hfound hlive
    | created hnone => cases hnone.symm.trans hlive
  cases hfed with
  | invalid _ hbad => cases hbad.symm.trans hdecode
  | dropped _ _ hdecode' hnone =>
    rw [hhdr hdecode', hlive] at hnone
    cases hnone
  | kept _ e₁ e' r₁ out hdecode' hopens haccepts =>
    obtain rfl := (hhdr hdecode').symm
    obtain rfl := (hentry hopens).symm
    obtain ⟨hdead, hdeadline, -⟩ := h.poisons hdecode hbacked hchecked haccepts
    exact ⟨e', Table.get_put_self .., hdead, hdeadline⟩
  | completed _ e₁ e' r₁ b hdecode' hopens haccepts =>
    obtain rfl := (hhdr hdecode').symm
    obtain rfl := (hentry hopens).symm
    exact absurd rfl ((h.poisons hdecode hbacked hchecked haccepts).2.2 b)

variable {delay maxEntries maxBytes now' : ℕ} {ops later : List Op} {slot' : Payload}

/-- Once a slot with a valid header has violated the protocol for an entry, no later slot completes
the datagram before the entry's deadline. -/
theorem no_complete_after_violation
    (hget : ((withCaps delay maxEntries maxBytes).run ops).entries.get (idField slot) = some e)
    (h : Violation e slot) (hheader : (OverlayHeader.decode slot.toList).isOk = true)
    (hlater : ∀ op ∈ .feed slot now :: later, op.Until now') (hbefore : now' < e.deadline)
    (hid : idField slot' = idField slot) (b : Bytes) :
    (((withCaps delay maxEntries maxBytes).run (ops ++ .feed slot now :: later)).feed
      slot' now').1 ≠ .complete b := by
  cases hdecode : OverlayHeader.decode slot.toList with
  | error err =>
    rw [hdecode] at hheader
    cases hheader
  | ok hdr =>
    have hall := allBacked_run delay maxEntries maxBytes ops
    have hnow : now ≤ now' := hlater (.feed slot now) List.mem_cons_self
    have hstuck := hall.stuck hget h hdecode (lt_of_le_of_lt hnow hbefore)
    have hrun : (withCaps delay maxEntries maxBytes).run (ops ++ .feed slot now :: later) =
        (((withCaps delay maxEntries maxBytes).run ops).feed slot now).2.run later := by
      rw [run, List.foldl_append]
      rfl
    rw [hrun]
    have hend := hstuck.run (fun op hop => hlater op (List.mem_cons_of_mem _ hop)) hbefore
    exact (hend.feed slot' hbefore).2 hid b

def blankSlot (hdr : OverlayHeader) : Payload := ⟨hdr.encode.toList ++ zeros fragCap, by
  rw [List.length_append, List.Vector.toList_length, length_zeros]
  rfl⟩

def sampleHeader (fragIndex : UInt8) (ipTotalLen : UInt16) : OverlayHeader :=
  ⟨overlayVersion, fragIndex, 2, 0, ipTotalLen, 0, 7, 0⟩

theorem idField_blankSlot (hdr : OverlayHeader) : idField (blankSlot hdr) = hdr.datagramId := by
  rw [idField, blankSlot]
  exact congrArg datagramId
    ((congrArg _ (List.take_left' hdr.encode.toList_length)).trans hdr.fields_encode)

theorem sample_entry : ∃ e, sampleBefore.entries.get 7 = some e ∧ e.ipTotalLen = 1300 ∧
    4 < e.deadline := by
  have hall : Interleaves [sampleParcel] 5 (sampleArrivals.take 2 ++ sampleLast :: []) :=
    sample_interleaves
  obtain ⟨e, hget⟩ := sample_inFlight.under sampleParcel (List.mem_singleton_self _)
    ⟨_, List.mem_cons_self, rfl⟩ (hall.needed _ sampleLast [] rfl)
  obtain ⟨p, hp, -, hholds, -⟩ := sample_inFlight.held _ e hget
  obtain ⟨fed, hbacked⟩ := hholds.backed
  refine ⟨e, hget, ?_, sample_inFlight.unexpired hall hget⟩
  rw [← hbacked.size, hholds.size, List.mem_singleton.mp hp, length_sampleParcel]

theorem idField_sampleLast : idField sampleLast.slot = 7 := by
  have hcut : Cut (sampleIp 1300) 2 :=
    cut_sampleIp (by decide) (by decide) (by decide) (by decide) (by decide) (by decide)
  exact idField_eq (hcut.decode_slotAt (i := 0) (by decide) 7 (crc32 (sampleIp 1300)))

/-- A slot whose metadata differ from the entry of the sample. -/
theorem no_complete_after_violation_sample :
    ∃ e, sampleBefore.entries.get 7 = some e ∧ Violation e (blankSlot (sampleHeader 0 1301)) ∧
      4 < e.deadline ∧ ∀ b,
        ((sampleBefore.feed (blankSlot (sampleHeader 0 1301)) 4).2.feed sampleLast.slot 4).1 ≠
          .complete b := by
  obtain ⟨e, hget, hlen, hdeadline⟩ := sample_entry
  have hdecode : OverlayHeader.decode (blankSlot (sampleHeader 0 1301)).toList =
      .ok (sampleHeader 0 1301) :=
    OverlayHeader.decode_encode ⟨rfl, rfl, rfl, by decide, by decide, by decide, by decide,
      by decide⟩ _
  have hid : idField (blankSlot (sampleHeader 0 1301)) = 7 := idField_blankSlot _
  have hviolation : Violation e (blankSlot (sampleHeader 0 1301)) := by
    refine .metadata _ hdecode fun hfits => ?_
    have habs := hlen.symm.trans hfits.len
    exact absurd habs (by decide)
  refine ⟨e, hget, hviolation, hdeadline, fun b => ?_⟩
  have hsent : ((withCaps 5 1 1300).run ((sampleArrivals.take 2).map Arrival.op)).entries.get
      (idField (blankSlot (sampleHeader 0 1301))) = some e := by
    rw [hid]
    exact hget
  have hlater : ∀ op ∈ [Op.feed (blankSlot (sampleHeader 0 1301)) 4], op.Until 4 := by
    simp [Op.Until]
  have h := no_complete_after_violation hsent hviolation (by rw [hdecode]; rfl) hlater hdeadline
    (idField_sampleLast.trans hid.symm) b
  rw [run_snoc] at h
  exact h

/-- A slot whose index is out of range is dropped, and the datagram is completed all the same. -/
theorem invalid_header_forgotten :
    ∃ e, sampleBefore.entries.get (idField (blankSlot (sampleHeader 2 1300))) = some e ∧
      Violation e (blankSlot (sampleHeader 2 1300)) ∧ 4 < e.deadline ∧
      idField sampleLast.slot = idField (blankSlot (sampleHeader 2 1300)) ∧
      ((sampleBefore.feed (blankSlot (sampleHeader 2 1300)) 4).2.feed sampleLast.slot 4).1 =
        .complete (sampleIp 1300) := by
  obtain ⟨e, hget, -, hdeadline⟩ := sample_entry
  have hall : Interleaves [sampleParcel] 5 (sampleArrivals.take 2 ++ sampleLast :: []) :=
    sample_interleaves
  have hid : idField (blankSlot (sampleHeader 2 1300)) = 7 := idField_blankSlot _
  have hbad : OverlayHeader.decode (blankSlot (sampleHeader 2 1300)).toList =
      .error .invalidFragIndex := by
    have htake : (blankSlot (sampleHeader 2 1300)).toList.take overlayHeaderLen =
        (sampleHeader 2 1300).encode.toList := List.take_left' (List.Vector.toList_length _)
    rw [OverlayHeader.decode, List.Vector.toList_length, if_neg (by decide), htake,
      OverlayHeader.fields_encode]
    decide
  have hfeed : (sampleBefore.feed (blankSlot (sampleHeader 2 1300)) 4).2 = sampleBefore := by
    have hidle := sample_inFlight.expire hall
    rw [feed_invalid hbad]
    exact hidle
  have hget : sampleBefore.entries.get (idField (blankSlot (sampleHeader 2 1300))) = some e := by
    rw [hid]
    exact hget
  refine ⟨e, hget, .header _ hbad, hdeadline, idField_sampleLast.trans hid.symm, ?_⟩
  rw [hfeed]
  exact sample_completes

end Violations
end Reassembler
end PqTunnel
