import PqTunnel.Dataplane.Reassembler

/-! What an entry holds: every fragment it has written was carried by a slot that was fed since the
entry was created. -/
namespace PqTunnel
open ByteString Entry

section Flags

variable {l : List Bool} {i j : ℕ}

theorem count_set_true (h : i < l.length) (hfalse : l.getD i false = false) :
    (l.set i true).count true = l.count true + 1 := by
  have hget : l[i] = false := by simpa [List.getD_eq_getElem?_getD, h] using hfalse
  rw [List.count_set h]
  simp [hget]

theorem getD_set_true (h : i < l.length) :
    (l.set i true).getD j false = if j = i then true else l.getD j false := by
  rw [List.getD_eq_getElem?_getD, List.getD_eq_getElem?_getD, List.getElem?_set]
  by_cases hij : i = j
  · subst hij
    simp [h]
  · simp [hij, Ne.symm hij]

theorem count_true_eq_length :
    l.count true = l.length ↔ ∀ i < l.length, l.getD i false = true := by
  rw [List.count_eq_length]
  constructor
  · intro h i hi
    have hmem := h l[i] (List.getElem_mem hi)
    simp [List.getD_eq_getElem?_getD, hi, ← hmem]
  · intro h b hb
    obtain ⟨i, hi, rfl⟩ := List.getElem_of_mem hb
    simpa [List.getD_eq_getElem?_getD, hi] using (h i hi).symm

end Flags

/-- The slot carries fragment `i` of the datagram `id`, for an entry of this shape. -/
def Carries (e : Entry) (id : UInt64) (i : ℕ) (slot : Payload) (fragment : Bytes) : Prop :=
  ∃ hdr, OverlayHeader.decode slot.toList = .ok hdr ∧ hdr.datagramId = id ∧
    hdr.fragIndex.toNat = i ∧ Matches e hdr ∧ slotFragment slot hdr = fragment

/-- An entry for the datagram `id`, and the slots fed since it was created. -/
structure Backed (id : UInt64) (fed : List Payload) (e : Entry) : Prop where
  count : 0 < e.fragCount.toNat
  len : 20 ≤ e.ipTotalLen
  low : (e.fragCount.toNat - 1) * fragCap < e.ipTotalLen
  high : e.ipTotalLen ≤ e.fragCount.toNat * fragCap
  flags : e.received.length = e.fragCount.toNat
  size : e.buf.length = e.ipTotalLen
  tally : e.receivedCount = e.received.count true
  first : e.hasFragment0 = e.has 0
  valid : e.fragment0Valid = true →
    e.has 0 = true ∧ validateIpHeaderAt e.buf e.ipTotalLen = .ok ()
  pieces : ∀ i, e.has i = true → ∃ slot ∈ fed, Carries e id i slot (chunk fragCap e.buf i)

/-- An entry that is not poisoned has passed the check of its IP header. -/
def Checked (e : Entry) : Prop := e.poisoned = false → e.has 0 = true → e.fragment0Valid = true

namespace Backed

variable {id : UInt64} {fed : List Payload} {e e' : Entry} {hdr : OverlayHeader} {slot : Payload}
  {out : FeedOutcome}

theorem mono (h : Backed id fed e) (slot : Payload) : Backed id (fed ++ [slot]) e := by
  refine ⟨h.count, h.len, h.low, h.high, h.flags, h.size, h.tally, h.first, h.valid,
    fun i hi => ?_⟩
  obtain ⟨piece, hmem, hcarries⟩ := h.pieces i hi
  exact ⟨piece, List.mem_append_left _ hmem, hcarries⟩

theorem poison (h : Backed id fed e) : Backed id fed e.poison := by
  refine ⟨h.count, h.len, h.low, h.high, h.flags, h.size, h.tally, h.first, h.valid,
    fun i hi => ?_⟩
  obtain ⟨piece, hmem, hdr, hdecode, hid, hindex, hfits, hsame⟩ := h.pieces i hi
  exact ⟨piece, hmem, hdr, hdecode, hid, hindex, ⟨hfits.count, hfits.len, hfits.crc⟩, hsame⟩

theorem has_new (hdr : OverlayHeader) (deadline i : ℕ) :
    (Entry.new hdr deadline).has i = false := by
  rw [has, Entry.new, List.getD_eq_getElem?_getD, List.getElem?_replicate]
  split_ifs <;> rfl

theorem new (hvalid : hdr.Valid) (deadline : ℕ) :
    Backed hdr.datagramId [] (Entry.new hdr deadline) := by
  refine ⟨hvalid.count.1, hvalid.len, hvalid.low, hvalid.high, List.length_replicate,
    length_zeros _, ?_, (has_new hdr deadline 0).symm, ?_, fun i hi => ?_⟩
  · simp [Entry.new, List.count_replicate]
  · intro habs
    cases habs
  · rw [has_new] at hi
    cases hi

theorem fits (h : Backed id fed e) (hvalid : hdr.Valid) (hfits : Matches e hdr) (slot : Payload) :
    (slotFragment slot hdr).length =
        min (e.buf.length - hdr.fragIndex.toNat * fragCap) fragCap ∧
      hdr.fragIndex.toNat * fragCap + (slotFragment slot hdr).length ≤ e.buf.length ∧
      hdr.fragIndex.toNat < e.received.length := by
  rw [length_slotFragment hvalid, h.size, hfits.len, h.flags, hfits.count]
  exact ⟨expectedFragLen_eq hvalid, fragment_fits hvalid, hvalid.index⟩

theorem has_written (h : Backed id fed e) (hvalid : hdr.Valid) (hfits : Matches e hdr)
    (slot : Payload) (i : ℕ) :
    (e.written hdr slot).has i = if i = hdr.fragIndex.toNat then true else e.has i := by
  rw [has, Entry.written, write_received]
  exact getD_set_true (h.fits hvalid hfits slot).2.2

theorem chunk_written (h : Backed id fed e) (hvalid : hdr.Valid) (hfits : Matches e hdr)
    (slot : Payload) (i : ℕ) :
    chunk fragCap (e.written hdr slot).buf i =
      if i = hdr.fragIndex.toNat then slotFragment slot hdr else chunk fragCap e.buf i := by
  obtain ⟨hlen, hend, -⟩ := h.fits hvalid hfits slot
  rw [Entry.written, write_buf]
  split_ifs with hi
  · rw [hi]
    exact chunk_blit_self hlen hend
  · exact chunk_blit_other hi (hlen ▸ Nat.min_le_right _ _) hend

/-- Writing the first fragment checks the IP header; writing another one does not touch it. -/
theorem valid_written (h : Backed id fed e) (hvalid : hdr.Valid) (htakes : Takes e hdr slot)
    (hchecked : (e.written hdr slot).fragment0Valid = true) :
    (e.written hdr slot).has 0 = true ∧
      validateIpHeaderAt (e.written hdr slot).buf e.ipTotalLen = .ok () := by
  have hhas := h.has_written hvalid htakes.fits slot 0
  by_cases hzero : hdr.fragIndex.toNat = 0
  · refine ⟨by rw [hhas, if_pos hzero.symm], ?_⟩
    rw [Entry.written, write_buf]
    rw [Entry.written, write, if_pos hzero] at hchecked
    cases hcheck : validateIpHeaderAt
        (blit e.buf (hdr.fragIndex.toNat * fragCap) (slotFragment slot hdr)) e.ipTotalLen with
    | ok u => rfl
    | error err =>
      rw [hcheck] at hchecked
      cases hchecked
  · rw [Entry.written, write, if_neg hzero] at hchecked
    obtain ⟨hfirst, hok⟩ := h.valid hchecked
    refine ⟨by rw [hhas, if_neg (Ne.symm hzero), hfirst], ?_⟩
    have hlen : (e.written hdr slot).buf.length = e.buf.length := by
      rw [Entry.written, write_buf]
      exact length_blit (h.fits hvalid htakes.fits slot).2.1
    have hchunk := h.chunk_written hvalid htakes.fits slot 0
    rw [if_neg (Ne.symm hzero), chunk, chunk, Nat.zero_mul] at hchunk
    rw [validateIpHeaderAt_congr hlen hchunk, hok]

theorem hasFragment0_written (h : Backed id fed e) (hvalid : hdr.Valid) (hfits : Matches e hdr)
    (slot : Payload) : (e.written hdr slot).hasFragment0 = (e.written hdr slot).has 0 := by
  rw [h.has_written hvalid hfits]
  by_cases hzero : hdr.fragIndex.toNat = 0
  · rw [if_pos hzero.symm, Entry.written, write, if_pos hzero]
  · rw [if_neg (Ne.symm hzero), Entry.written, write, if_neg hzero]
    exact h.first

theorem written (h : Backed id fed e) (hvalid : hdr.Valid)
    (hdecode : OverlayHeader.decode slot.toList = .ok hdr) (hid : hdr.datagramId = id)
    (htakes : Takes e hdr slot) : Backed id (fed ++ [slot]) (e.written hdr slot) := by
  obtain ⟨-, hend, hlt⟩ := h.fits hvalid htakes.fits slot
  have hcount : (e.written hdr slot).fragCount = e.fragCount := write_fragCount
  have hlen : (e.written hdr slot).ipTotalLen = e.ipTotalLen := write_ipTotalLen
  have hcrc : (e.written hdr slot).datagramCrc = e.datagramCrc := write_datagramCrc
  have hmatches : ∀ {hdr'}, Matches e hdr' → Matches (e.written hdr slot) hdr' := fun hm =>
    ⟨hcount.trans hm.count, hlen.trans hm.len, hcrc.trans hm.crc⟩
  have hflags : (e.written hdr slot).received.length = e.received.length := by
    rw [Entry.written, write_received, List.length_set]
  have hsize : (e.written hdr slot).buf.length = e.buf.length := by
    rw [Entry.written, write_buf]
    exact length_blit hend
  refine ⟨hcount ▸ h.count, hlen ▸ h.len, ?_, ?_, ?_, ?_, ?_,
    h.hasFragment0_written hvalid htakes.fits slot, ?_, fun i hi => ?_⟩
  · rw [hcount, hlen]
    exact h.low
  · rw [hcount, hlen]
    exact h.high
  · rw [hflags, hcount, h.flags]
  · rw [hsize, hlen, h.size]
  · rw [Entry.written, write_receivedCount, write_received, h.tally]
    exact (count_set_true hlt htakes.fresh).symm
  · rw [hlen]
    exact h.valid_written hvalid htakes
  · rw [h.has_written hvalid htakes.fits] at hi
    rw [h.chunk_written hvalid htakes.fits]
    split_ifs at hi ⊢ with hnew
    · exact ⟨slot, by simp, hdr, hdecode, hid, hnew.symm, hmatches htakes.fits, rfl⟩
    · obtain ⟨piece, hmem, hdr', hdecode', hid', hindex, hfits, hsame⟩ := h.pieces i hi
      exact ⟨piece, List.mem_append_left _ hmem, hdr', hdecode', hid', hindex, hmatches hfits,
        hsame⟩

/-- Whatever a slot does, the entry stays backed. -/
theorem accepts (h : Backed id fed e) (hvalid : hdr.Valid)
    (hdecode : OverlayHeader.decode slot.toList = .ok hdr) (hid : hdr.datagramId = id)
    (haccepts : Accepts e hdr slot (out, e')) : Backed id (fed ++ [slot]) e' := by
  cases haccepts with
  | dead | again => exact h.mono slot
  | refused => exact (h.mono slot).poison
  | broken htakes => exact (h.written hvalid hdecode hid htakes).poison
  | finished htakes | waiting htakes => exact h.written hvalid hdecode hid htakes

/-- An entry is complete once it has every fragment, the first with a valid IP header. -/
theorem isComplete_iff (h : Backed id fed e) : e.isComplete = true ↔
    (∀ i < e.fragCount.toNat, e.has i = true) ∧ e.fragment0Valid = true := by
  have hall : e.receivedCount = e.fragCount.toNat ↔ ∀ i < e.fragCount.toNat, e.has i = true := by
    rw [h.tally, ← h.flags]
    exact count_true_eq_length
  rw [isComplete, Bool.and_eq_true, Bool.and_eq_true, decide_eq_true_iff, hall, h.first]
  constructor
  · rintro ⟨⟨hpieces, -⟩, hok⟩
    exact ⟨hpieces, hok⟩
  · rintro ⟨hpieces, hok⟩
    exact ⟨⟨hpieces, hpieces 0 h.count⟩, hok⟩

end Backed

theorem Checked.accepts {e e' : Entry} {hdr : OverlayHeader} {slot : Payload} {out : FeedOutcome}
    (h : Checked e) (haccepts : Accepts e hdr slot (out, e')) : Checked e' := by
  have hother : hdr.fragIndex.toNat ≠ 0 → Checked (e.written hdr slot) := by
    intro hne hlive hhas
    rw [written, write_poisoned] at hlive
    rw [has, written, write_received, List.getD_eq_getElem?_getD,
      List.getElem?_set_ne hne, ← List.getD_eq_getElem?_getD] at hhas
    rw [written, write, if_neg hne]
    exact h hlive hhas
  cases haccepts with
  | dead | again => exact h
  | refused | broken => exact fun habs => by cases habs
  | finished htakes hcomplete =>
    intro _ _
    rw [isComplete, Bool.and_eq_true] at hcomplete
    exact hcomplete.2
  | waiting htakes hok =>
    by_cases hzero : hdr.fragIndex.toNat = 0
    · exact fun _ _ => hok hzero
    · exact hother hzero

namespace Reassembler

/-- The calls that its owner makes. -/
inductive Op where
  | feed (slot : Payload) (now : ℕ)
  | expire (now : ℕ)
  | clear

def step (r : Reassembler) : Op → Reassembler
  | .feed slot now => (r.feed slot now).2
  | .expire now => r.expire now
  | .clear => r.clear

def run (r : Reassembler) (ops : List Op) : Reassembler := ops.foldl step r

/-- What has been fed for an entry, unless its deadline has come by now. -/
def remembered (r : Reassembler) (fed : UInt64 → List Payload) (now : ℕ) (id : UInt64) :
    List Payload :=
  if ((r.expire now).entries.get id).isSome then fed id else []

def track (r : Reassembler) (fed : UInt64 → List Payload) : Op → UInt64 → List Payload
  | .feed slot now => fun id => r.remembered fed now id ++ [slot]
  | .expire _ => fed
  | .clear => fed

/-- The run, with the slots fed since each current entry was created. -/
def tracked (r : Reassembler) (ops : List Op) : Reassembler × (UInt64 → List Payload) :=
  ops.foldl (fun s op => (s.1.step op, s.1.track s.2 op)) (r, fun _ => [])

def fedSince (r : Reassembler) (ops : List Op) (id : UInt64) : List Payload := (r.tracked ops).2 id

/-- Every entry is backed by what was fed since it was created. -/
def AllBacked (r : Reassembler) (fed : UInt64 → List Payload) : Prop :=
  ∀ id e, r.entries.get id = some e → Backed id (fed id) e ∧ Checked e

section Runs

variable {r r₁ : Reassembler} {fed : UInt64 → List Payload} {slot : Payload} {now : ℕ}
  {hdr : OverlayHeader} {e : Entry}

variable (r) (ops : List Op)

theorem run_snoc (op : Op) : r.run (ops ++ [op]) = (r.run ops).step op := by
  rw [run, List.foldl_append]
  rfl

theorem tracked_snoc (op : Op) :
    r.tracked (ops ++ [op]) =
      ((r.tracked ops).1.step op, (r.tracked ops).1.track (r.tracked ops).2 op) := by
  rw [tracked, List.foldl_append]
  rfl

theorem tracked_run : (r.tracked ops).1 = r.run ops := by
  induction ops using List.reverseRecOn with
  | nil => rfl
  | append_singleton ops op ih => rw [tracked_snoc, run_snoc, ih]

variable {r}

theorem AllBacked.remembered (h : AllBacked r fed) {id : UInt64}
    (hget : (r.expire now).entries.get id = some e) :
    Backed id (r.remembered fed now id) e ∧ Checked e := by
  rw [Reassembler.remembered, hget]
  exact h id e (get_of_expire hget).1

/-- The entry that a slot goes to, before the slot is taken. -/
theorem Opens.backed (h : Opens (r.expire now) hdr slot now e r₁) (hall : AllBacked r fed)
    (hvalid : hdr.Valid) :
    Backed hdr.datagramId (r.remembered fed now hdr.datagramId) e ∧ Checked e := by
  cases h with
  | found _ hget => exact hall.remembered hget
  | created hnone =>
    rw [Reassembler.remembered, hnone]
    refine ⟨.new hvalid _, fun _ hfirst => ?_⟩
    rw [Backed.has_new] at hfirst
    cases hfirst

theorem AllBacked.other (h : AllBacked r fed) (hopens : Opens (r.expire now) hdr slot now e r₁)
    {id : UInt64} (hid : id ≠ hdr.datagramId) {e' : Entry} (hget : r₁.entries.get id = some e') :
    Backed id (r.remembered fed now id ++ [slot]) e' ∧ Checked e' := by
  rw [hopens.other hid] at hget
  obtain ⟨hbacked, hchecked⟩ := h.remembered hget
  exact ⟨hbacked.mono slot, hchecked⟩

theorem AllBacked.feed (h : AllBacked r fed) (slot : Payload) (now : ℕ) :
    AllBacked (r.feed slot now).2 (r.track fed (.feed slot now)) := by
  have hfed := feed_fed r slot now
  generalize r.feed slot now = res at hfed
  have hidle : ∀ id e, (r.expire now).entries.get id = some e →
      Backed id (r.track fed (.feed slot now) id) e ∧ Checked e := by
    intro id e hget
    obtain ⟨hbacked, hchecked⟩ := h.remembered hget
    exact ⟨hbacked.mono slot, hchecked⟩
  cases hfed with
  | invalid | dropped => exact hidle
  | kept hdr e e' r₁ out hdecode hopens haccepts =>
    have hvalid := (OverlayHeader.decode_valid hdecode).2
    intro id e'' hget
    by_cases hid : id = hdr.datagramId
    · subst hid
      obtain ⟨hbacked, hchecked⟩ := hopens.backed h hvalid
      rw [Table.get_put_self] at hget
      obtain rfl := Option.some.inj hget
      exact ⟨hbacked.accepts hvalid hdecode rfl haccepts, hchecked.accepts haccepts⟩
    · rw [Table.get_put_ne _ _ hid] at hget
      exact h.other hopens hid hget
  | completed hdr e e' r₁ b hdecode hopens haccepts =>
    intro id e'' hget
    by_cases hid : id = hdr.datagramId
    · subst hid
      rw [Table.get_remove_self] at hget
      cases hget
    · rw [Table.get_remove_ne _ hid] at hget
      exact h.other hopens hid hget

theorem AllBacked.step (h : AllBacked r fed) (op : Op) : AllBacked (r.step op) (r.track fed op) := by
  cases op with
  | feed slot now => exact h.feed slot now
  | expire now => exact fun id e hget => h id e (get_of_expire hget).1
  | clear =>
    intro id e hget
    rw [Reassembler.step, Reassembler.clear, Table.get_empty] at hget
    cases hget

theorem allBacked_run (deadline maxEntries maxBytes : ℕ) (ops : List Op) :
    AllBacked ((withCaps deadline maxEntries maxBytes).run ops)
      ((withCaps deadline maxEntries maxBytes).fedSince ops) := by
  change AllBacked _ ((withCaps deadline maxEntries maxBytes).tracked ops).2
  rw [← tracked_run]
  induction ops using List.reverseRecOn with
  | nil =>
    intro id e hget
    cases (Table.get_empty id).symm.trans hget
  | append_singleton ops op ih =>
    rw [tracked_snoc]
    exact ih.step op

end Runs
end Reassembler
end PqTunnel
