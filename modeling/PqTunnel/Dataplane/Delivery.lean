import Mathlib.Algebra.Order.BigOperators.Group.List
import PqTunnel.Dataplane.Backing

/-! Slots that arrive in any order, some of them more than once: every packet is delivered once,
with the last of its slots, and nothing of it stays behind. -/
namespace PqTunnel
open ByteString Entry

/-- A packet with the slots that the sender cut it into. -/
structure Parcel where
  id : UInt64
  packet : Bytes
  slots : List Payload
  sent : fragmentIpPacket packet id = .ok slots

namespace Parcel

def header (p : Parcel) (i : ℕ) : OverlayHeader :=
  slotHeader p.packet p.id (crc32 p.packet) p.slots.length i

variable {p : Parcel} {i : ℕ}

variable (p)

theorem cut : Cut p.packet p.slots.length ∧
    p.slots = (List.range p.slots.length).map
      (slotAt p.packet p.id (crc32 p.packet) p.slots.length) := by
  obtain ⟨n, hcut, hslots⟩ := fragmentIpPacket_ok p.sent
  have hlen : p.slots.length = n := by rw [hslots, List.length_map, List.length_range]
  rw [hlen]
  exact ⟨hcut, hslots⟩

theorem get_slots (i : Fin p.slots.length) :
    p.slots.get i = slotAt p.packet p.id (crc32 p.packet) p.slots.length i := by
  obtain ⟨i, hi⟩ := i
  have hget := congrArg (fun slots : List Payload => slots[i]?) p.cut.2
  rw [List.getElem?_map, List.getElem?_range hi] at hget
  rw [List.get_eq_getElem]
  exact (List.getElem_eq_iff hi).mpr hget

theorem decode_slot (i : Fin p.slots.length) :
    OverlayHeader.decode (p.slots.get i).toList = .ok (p.header i) := by
  rw [get_slots]
  exact p.cut.1.decode_slotAt i.isLt _ _

theorem fragment_slot (i : Fin p.slots.length) :
    slotFragment (p.slots.get i) (p.header i) = chunk fragCap p.packet i := by
  rw [get_slots]
  exact p.cut.1.slotFragment_slotAt i.isLt _ _

theorem padding_slot (i : Fin p.slots.length) :
    trailingBad (p.slots.get i) (p.header i) = false := by
  rw [trailingBad, get_slots, header, p.cut.1.drop_slotAt i.isLt]
  simp [zeros]

theorem header_fields (hi : i < p.slots.length) :
    (p.header i).Valid ∧ (p.header i).fragIndex.toNat = i ∧
      (p.header i).fragCount.toNat = p.slots.length ∧
      (p.header i).ipTotalLen.toNat = p.packet.length := p.cut.1.header hi _ _

end Parcel

/-- An entry that holds the given fragments of the packet, and no other bytes. -/
structure Holds (p : Parcel) (seen : ℕ → Prop) (e : Entry) : Prop where
  shape : Matches e (p.header 0)
  live : e.poisoned = false
  checked : Checked e
  has : ∀ i, e.has i = true ↔ seen i
  pieces : ∀ i, e.has i = true → chunk fragCap e.buf i = chunk fragCap p.packet i
  backed : ∃ fed, Backed p.id fed e

namespace Holds

variable {p : Parcel} {seen : ℕ → Prop} {e e' : Entry} {i : Fin p.slots.length}
  {out : FeedOutcome}

theorem fits (h : Holds p seen e) (i : ℕ) : Matches e (p.header i) :=
  ⟨h.shape.count, h.shape.len, h.shape.crc⟩

theorem size (h : Holds p seen e) : e.buf.length = p.packet.length := by
  obtain ⟨fed, hbacked⟩ := h.backed
  rw [hbacked.size, h.shape.len]
  exact (p.header_fields p.cut.1.count.1).2.2.2

theorem count (h : Holds p seen e) : e.fragCount.toNat = p.slots.length := by
  rw [h.shape.count]
  exact (p.header_fields p.cut.1.count.1).2.2.1

theorem new (p : Parcel) (hi : i.val < p.slots.length) (deadline : ℕ) :
    Holds p (fun _ => False) (Entry.new (p.header i) deadline) := by
  have hnone := Backed.has_new (p.header i) deadline
  refine ⟨⟨rfl, rfl, rfl⟩, rfl, fun _ hfirst => ?_, fun j => ?_, fun j hj => ?_,
    [], Backed.new (p.header_fields hi).1 deadline⟩
  · rw [hnone] at hfirst
    cases hfirst
  · rw [hnone]
    simp
  · rw [hnone] at hj
    cases hj

theorem written (h : Holds p seen e) (htakes : Takes e (p.header i) (p.slots.get i)) :
    Holds p (fun j => seen j ∨ j = i) (e.written (p.header i) (p.slots.get i)) := by
  obtain ⟨fed, hbacked⟩ := h.backed
  obtain ⟨hvalid, hindex, -, -⟩ := p.header_fields i.isLt
  have hhas := hbacked.has_written hvalid htakes.fits (p.slots.get i)
  have hchunk := hbacked.chunk_written hvalid htakes.fits (p.slots.get i)
  rw [hindex] at hhas hchunk
  rw [p.fragment_slot i] at hchunk
  have hnext := hbacked.written hvalid (p.decode_slot i) rfl htakes
  have hlen : (e.written (p.header i) (p.slots.get i)).buf.length = p.packet.length := by
    rw [hnext.size, ← h.size, hbacked.size]
    exact write_ipTotalLen
  have hpieces : ∀ j, (e.written (p.header i) (p.slots.get i)).has j = true →
      chunk fragCap (e.written (p.header i) (p.slots.get i)).buf j = chunk fragCap p.packet j := by
    intro j hj
    rw [hchunk]
    split_ifs with hji
    · rw [hji]
    · rw [hhas, if_neg hji] at hj
      exact h.pieces j hj
  refine ⟨⟨?_, ?_, ?_⟩, ?_, fun _ hfirst => ?_, fun j => ?_, hpieces, _, hnext⟩
  · exact write_fragCount.trans h.shape.count
  · exact write_ipTotalLen.trans h.shape.len
  · exact write_datagramCrc.trans h.shape.crc
  · exact write_poisoned.trans h.live
  · -- the first fragment is that of the packet, so its header passes as the packet's does
    by_cases hzero : (p.header i).fragIndex.toNat = 0
    · have hcheck : validateIpHeaderAt
          (e.written (p.header i) (p.slots.get i)).buf e.ipTotalLen = .ok () := by
        have htake := hpieces 0 hfirst
        rw [chunk, chunk, Nat.zero_mul] at htake
        rw [validateIpHeaderAt_congr hlen htake, ← hbacked.size, h.size]
        exact (validateIpHeaderAt_iff p.cut.1.len.1).mpr p.cut.1.valid
      rw [Entry.written, write_buf] at hcheck
      rw [Entry.written, write, if_pos hzero]
      dsimp only
      rw [hcheck]
      rfl
    · rw [hhas] at hfirst
      rw [hindex] at hzero
      rw [if_neg (Ne.symm hzero)] at hfirst
      rw [Entry.written, write, hindex, if_neg hzero]
      exact h.checked h.live hfirst
  · rw [hhas]
    split_ifs with hji
    · simp [hji]
    · rw [h.has]
      simp [hji]

/-- An entry with every fragment is the packet. -/
theorem whole (h : Holds p seen e) (hall : ∀ j < p.slots.length, seen j) : e.buf = p.packet := by
  have hhigh := p.cut.1.high
  refine ext_chunks (n := p.slots.length) (h.size ▸ hhigh) hhigh fun j hj => ?_
  exact h.pieces j ((h.has j).mpr (hall j hj))

theorem isComplete_iff (h : Holds p seen e) :
    e.isComplete = true ↔ ∀ j < p.slots.length, seen j := by
  obtain ⟨fed, hbacked⟩ := h.backed
  rw [hbacked.isComplete_iff, h.count]
  constructor
  · exact fun hall j hj => (h.has j).mp (hall.1 j hj)
  · intro hall
    have hhas : ∀ j < p.slots.length, e.has j = true := fun j hj => (h.has j).mpr (hall j hj)
    exact ⟨hhas, h.checked h.live (hhas 0 p.cut.1.count.1)⟩

/-- What a slot of the packet does: it is a copy, or it is taken, and the last one completes. -/
theorem accepts (h : Holds p seen e)
    (haccepts : Accepts e (p.header i) (p.slots.get i) (out, e')) :
    Holds p (fun j => seen j ∨ j = i) e' ∧ e'.deadline = e.deadline ∧
      ((seen i ∧ out = .duplicateIgnored) ∨
        ¬ seen i ∧ (∀ j < p.slots.length, seen j ∨ j = i) ∧ out = .complete p.packet ∨
        ¬ seen i ∧ (¬ ∀ j < p.slots.length, seen j ∨ j = i) ∧ out = .pending) := by
  obtain ⟨hvalid, hindex, -, -⟩ := p.header_fields i.isLt
  have hfresh : ∀ htakes : Takes e (p.header i) (p.slots.get i), ¬ seen i := by
    intro htakes hseen
    have hhas := (h.has i).mpr hseen
    rw [← hindex, htakes.fresh] at hhas
    cases hhas
  cases haccepts with
  | dead hdead =>
    rw [h.live] at hdead
    cases hdead
  | refused _ hbad =>
    exfalso
    rcases hbad with hbad | hbad | ⟨hhas, hbad⟩
    · exact hbad (h.fits i)
    · rw [p.padding_slot i] at hbad
      cases hbad
    · rw [hindex] at hhas hbad
      obtain ⟨fed, hbacked⟩ := h.backed
      have hlen : expectedFragLen (p.header i) = min (e.buf.length - i * fragCap) fragCap := by
        rw [expectedFragLen_eq hvalid, hindex, hbacked.size, (h.fits i).len]
      rw [hlen, ← chunk_eq_slice, p.fragment_slot i] at hbad
      exact hbad (h.pieces i hhas)
  | again _ _ _ hhas =>
    rw [hindex] at hhas
    have hseen := (h.has i).mp hhas
    refine ⟨⟨h.shape, h.live, h.checked, fun j => ?_, h.pieces, h.backed⟩, rfl,
      Or.inl ⟨hseen, rfl⟩⟩
    rw [h.has]
    constructor
    · exact Or.inl
    · rintro (hj | rfl)
      · exact hj
      · exact hseen
  | broken htakes hbad =>
    exfalso
    have hnext := h.written htakes
    rcases hbad with ⟨hzero, hbad⟩ | ⟨hcomplete, hbad⟩
    · have hfirst : (e.written (p.header i) (p.slots.get i)).has 0 = true :=
        (hnext.has 0).mpr (Or.inr (by omega))
      rw [hnext.checked hnext.live hfirst] at hbad
      cases hbad
    · obtain ⟨fed, hbacked⟩ := h.backed
      rw [hnext.whole (hnext.isComplete_iff.mp hcomplete), ← hbacked.size, h.size,
        List.take_length, h.shape.crc] at hbad
      exact hbad rfl
  | finished htakes hcomplete =>
    have hnext := h.written htakes
    have hall := hnext.isComplete_iff.mp hcomplete
    exact ⟨hnext, write_deadline, Or.inr (Or.inl ⟨hfresh htakes, hall,
      congrArg FeedOutcome.complete (hnext.whole hall)⟩)⟩
  | waiting htakes _ hcomplete =>
    have hnext := h.written htakes
    refine ⟨hnext, write_deadline, Or.inr (Or.inr ⟨hfresh htakes, fun hall => ?_, rfl⟩)⟩
    rw [hnext.isComplete_iff.mpr hall] at hcomplete
    cases hcomplete

end Holds
/-- A slot of a parcel, fed at some time. -/
structure Arrival where
  parcel : Parcel
  index : Fin parcel.slots.length
  now : ℕ

namespace Arrival

def slot (a : Arrival) : Payload := a.parcel.slots.get a.index

def op (a : Arrival) : Reassembler.Op := .feed a.slot a.now

end Arrival

def Seen (arrivals : List Arrival) (p : Parcel) (i : ℕ) : Prop :=
  ∃ a ∈ arrivals, a.parcel = p ∧ a.index.val = i

def Done (arrivals : List Arrival) (p : Parcel) : Prop := ∀ i < p.slots.length, Seen arrivals p i

/-- Slots of the parcels, each of them at least once and none after its parcel is done, at times
that do not decrease and before the deadline that the first slot of the parcel sets. -/
structure Interleaves (parcels : List Parcel) (deadline : ℕ) (arrivals : List Arrival) : Prop where
  ids : (parcels.map (·.id)).Nodup
  sent : ∀ a ∈ arrivals, a.parcel ∈ parcels
  all : ∀ p ∈ parcels, Done arrivals p
  needed : ∀ before a after, arrivals = before ++ a :: after → ¬ Done before a.parcel
  clock : arrivals.Pairwise fun a b => a.now ≤ b.now
  inTime : arrivals.Pairwise fun a b => a.parcel = b.parcel → b.now < a.now + deadline

namespace Reassembler

def total (t : Table UInt64 Entry) : ℕ := (t.entries.map fun x => x.2.ipTotalLen).sum

section Totals

variable {t : Table UInt64 Entry} {id : UInt64} {e : Entry}

theorem total_remove (h : t.get id = some e) : total t = e.ipTotalLen + total (t.remove id) := by
  rw [total, ((Table.entries_perm h).map _).sum_eq]
  rfl

theorem total_put (t : Table UInt64 Entry) (id : UInt64) (e : Entry) :
    total (t.put id e) = e.ipTotalLen + total (t.remove id) := by
  rw [total, Table.entries_put]
  rfl

theorem total_put_new (h : t.get id = none) (e : Entry) :
    total (t.put id e) = e.ipTotalLen + total t := by
  have hmem : id ∉ t.entries.keys := fun hk => by
    obtain ⟨w, hw⟩ := Table.mem_keys.mp hk
    rw [h] at hw
    cases hw
  have herase : (t.remove id).entries = t.entries := List.kerase_of_notMem_keys hmem
  rw [total_put, total, total, herase]

end Totals

/-- The parcels that are under way, and only they, have an entry with what has been fed of them. -/
structure InFlight (parcels : List Parcel) (delay entries bytes : ℕ) (before : List Arrival)
    (r : Reassembler) : Prop where
  limits : r.deadline = delay ∧ r.maxEntries = entries ∧ r.maxBytes = bytes
  sum : r.currentBytes = total r.entries
  held : ∀ id e, r.entries.get id = some e → ∃ p ∈ parcels, p.id = id ∧
    Holds p (Seen before p) e ∧ ¬ Done before p ∧
    ∃ a ∈ before, a.parcel = p ∧ e.deadline = a.now + delay
  under : ∀ p ∈ parcels, (∃ a ∈ before, a.parcel = p) → ¬ Done before p →
    ∃ e, r.entries.get p.id = some e

section Step

variable {parcels : List Parcel} {delay entries bytes : ℕ} {before after : List Arrival}
  {a : Arrival} {r : Reassembler}

theorem same_parcel (h : (parcels.map (·.id)).Nodup) {p q : Parcel} (hp : p ∈ parcels)
    (hq : q ∈ parcels) (hid : p.id = q.id) : p = q :=
  List.inj_on_of_nodup_map h hp hq hid

theorem seen_snoc (before : List Arrival) (a : Arrival) (p : Parcel) (i : ℕ) :
    Seen (before ++ [a]) p i ↔ Seen before p i ∨ a.parcel = p ∧ a.index.val = i := by
  simp only [Seen, List.mem_append, List.mem_singleton]
  constructor
  · rintro ⟨b, hb | rfl, hsame⟩
    · exact Or.inl ⟨b, hb, hsame⟩
    · exact Or.inr hsame
  · rintro (⟨b, hb, hsame⟩ | hsame)
    · exact ⟨b, Or.inl hb, hsame⟩
    · exact ⟨a, Or.inr rfl, hsame⟩

/-- A parcel that is under way has a slot to come, so its deadline is not over. -/
theorem InFlight.unexpired (h : InFlight parcels delay entries bytes before r)
    (hall : Interleaves parcels delay (before ++ a :: after)) {id : UInt64} {e : Entry}
    (hget : r.entries.get id = some e) : a.now < e.deadline := by
  obtain ⟨p, hp, -, -, hopen, b, hb, hbp, hdeadline⟩ := h.held id e hget
  simp only [Done, not_forall] at hopen
  obtain ⟨i, hi, hmissing⟩ := hopen
  obtain ⟨c, hc, hcp, hci⟩ := hall.all p hp i hi
  have hlater : c ∈ a :: after := (List.mem_append.mp hc).resolve_left fun hbefore =>
    hmissing ⟨c, hbefore, hcp, hci⟩
  have htime : a.now ≤ c.now := by
    have hclock := (List.pairwise_append.mp hall.clock).2.1
    rcases List.mem_cons.mp hlater with rfl | hafter
    · exact le_rfl
    · exact (List.pairwise_cons.mp hclock).1 c hafter
  have hin := (List.pairwise_append.mp hall.inTime).2.2 b hb c hlater (hbp.trans hcp.symm)
  omega

theorem InFlight.expire (h : InFlight parcels delay entries bytes before r)
    (hall : Interleaves parcels delay (before ++ a :: after)) : r.expire a.now = r := by
  have hlive : ∀ x ∈ r.entries.entries, a.now < x.2.deadline := fun x hx =>
    h.unexpired hall (Table.mem_entries.mp hx)
  have hnone : (r.entries.entries.filter fun x => decide (x.2.deadline ≤ a.now)) = [] := by
    rw [List.filter_eq_nil_iff]
    intro x hx
    have := hlive x hx
    simp only [decide_eq_true_eq]
    omega
  have hsame : r.entries.retain (fun _ e => decide (a.now < e.deadline)) = r.entries := by
    apply AList.ext
    exact List.filter_eq_self.mpr fun x hx => decide_eq_true (hlive x hx)
  rw [Reassembler.expire, hnone, hsame]
  rfl

/-- The entries belong to other parcels than one that has not begun, so there is room for it. -/
theorem InFlight.room (h : InFlight parcels delay entries bytes before r)
    (hids : (parcels.map (·.id)).Nodup) {p : Parcel} (hp : p ∈ parcels)
    (hnone : r.entries.get p.id = none) :
    r.entries.size < parcels.length ∧
      total r.entries + p.packet.length ≤ (parcels.map (·.packet.length)).sum := by
  have hsub : r.entries.keys.Subperm ((parcels.map (·.id)).erase p.id) := by
    refine List.Nodup.subperm r.entries.nodup_keys fun id hid => ?_
    obtain ⟨e, hget⟩ := Table.mem_keys.mp hid
    obtain ⟨q, hq, rfl, -⟩ := h.held id e hget
    refine (List.mem_erase_of_ne fun heq => ?_).mpr (List.mem_map_of_mem hq)
    rw [heq, hnone] at hget
    cases hget
  have hmem : p.id ∈ parcels.map (·.id) := List.mem_map_of_mem hp
  constructor
  · have hle := hsub.length_le
    rw [List.length_erase_of_mem hmem, List.length_map, ← Table.size_eq_length_keys] at hle
    have hpos := List.length_pos_of_mem hp
    omega
  -- the length of a packet as a function of its id
  · let lengthOf : UInt64 → ℕ := fun id =>
      ((parcels.find? fun q => decide (q.id = id)).map (·.packet.length)).getD 0
    have hlength : ∀ q ∈ parcels, lengthOf q.id = q.packet.length := by
      intro q hq
      have hfind : (parcels.find? fun q' => decide (q'.id = q.id)) = some q := by
        cases hres : parcels.find? fun q' => decide (q'.id = q.id) with
        | none => exact absurd (List.find?_eq_none.mp hres q hq) (by simp)
        | some q' =>
          have hid : q'.id = q.id := by simpa using List.find?_some hres
          rw [same_parcel hids (List.mem_of_find?_eq_some hres) hq hid]
      simp [lengthOf, hfind]
    have htotal : total r.entries = (r.entries.keys.map lengthOf).sum := by
      have hkeys : r.entries.keys = r.entries.entries.map (·.1) := rfl
      rw [total, hkeys, List.map_map]
      congr 1
      refine List.map_congr_left fun x hx => ?_
      obtain ⟨q, hq, hid, hholds, -⟩ := h.held x.1 x.2 (Table.mem_entries.mp hx)
      obtain ⟨fed, hbacked⟩ := hholds.backed
      rw [Function.comp_apply, ← hid, hlength q hq, ← hholds.size, hbacked.size]
    have hall : (parcels.map (·.packet.length)).sum =
        lengthOf p.id + (((parcels.map (·.id)).erase p.id).map lengthOf).sum := by
      have hperm := ((List.perm_cons_erase hmem).map lengthOf).sum_eq
      rw [List.map_cons, List.sum_cons, List.map_map] at hperm
      rw [← hperm]
      congr 1
      exact List.map_congr_left fun q hq => (hlength q hq).symm
    obtain ⟨l, hl, hsublist⟩ := hsub
    have hle : (r.entries.keys.map lengthOf).sum ≤
        (((parcels.map (·.id)).erase p.id).map lengthOf).sum := by
      rw [← (hl.map lengthOf).sum_eq]
      exact List.Sublist.sum_le_sum (hsublist.map lengthOf) fun _ _ => Nat.zero_le _
    rw [htotal, hall, hlength p hp]
    omega

/-- The entry that a slot of a parcel goes to, with the reassembler that has it. -/
structure Opened (before : List Arrival) (a : Arrival) (delay : ℕ) (r r₁ : Reassembler)
    (e : Entry) : Prop where
  get : r₁.entries.get a.parcel.id = some e
  holds : Holds a.parcel (Seen before a.parcel) e
  since : ∃ b ∈ before ++ [a], b.parcel = a.parcel ∧ e.deadline = b.now + delay
  limits : r₁.deadline = r.deadline ∧ r₁.maxEntries = r.maxEntries ∧ r₁.maxBytes = r.maxBytes
  sum : r₁.currentBytes = total r₁.entries
  others : ∀ id ≠ a.parcel.id, r₁.entries.get id = r.entries.get id

theorem InFlight.opens (h : InFlight parcels delay entries bytes before r)
    (hall : Interleaves parcels delay (before ++ a :: after)) (hentries : parcels.length ≤ entries)
    (hbytes : (parcels.map (·.packet.length)).sum ≤ bytes) :
    ∃ e r₁, r.openEntry (a.parcel.header a.index) a.slot a.now = .ok (e, r₁) ∧
      Opened before a delay r r₁ e := by
  have hp : a.parcel ∈ parcels := hall.sent a (by simp)
  have hneeded := hall.needed before a after rfl
  have hid : (a.parcel.header a.index).datagramId = a.parcel.id := rfl
  rw [openEntry, hid]
  cases hget : r.entries.get a.parcel.id with
  | some e =>
    obtain ⟨q, hq, hid, hholds, -, b, hb, hbq, hdeadline⟩ := h.held _ e hget
    obtain rfl := same_parcel hall.ids hq hp hid
    exact ⟨e, r, rfl, hget, hholds, ⟨b, List.mem_append_left _ hb, hbq, hdeadline⟩,
      ⟨rfl, rfl, rfl⟩, h.sum, fun _ _ => rfl⟩
  | none =>
    have hbegun : ∀ b ∈ before, b.parcel ≠ a.parcel := by
      intro b hb heq
      obtain ⟨e, hsome⟩ := h.under a.parcel hp ⟨b, hb, heq⟩ hneeded
      rw [hget] at hsome
      cases hsome
    have hseen : Seen before a.parcel = fun _ => False := by
      funext i
      simp only [eq_iff_iff, iff_false]
      rintro ⟨b, hb, heq, -⟩
      exact hbegun b hb heq
    obtain ⟨hsize, hsum⟩ := h.room hall.ids hp hget
    have hlen := (a.parcel.header_fields a.index.isLt).2.2.2
    obtain ⟨hdelay, hmaxEntries, hmaxBytes⟩ := h.limits
    have hpad : trailingBad a.slot (a.parcel.header a.index) = false :=
      a.parcel.padding_slot a.index
    dsimp only
    rw [hpad, if_neg (by simp), if_neg (by omega), if_neg (by rw [hlen, h.sum]; omega)]
    refine ⟨_, _, rfl, Table.get_put_self .., ?_, ⟨a, by simp, rfl, ?_⟩, ⟨rfl, rfl, rfl⟩, ?_,
      fun id hid => Table.get_put_ne _ _ hid⟩
    · rw [hseen]
      exact Holds.new a.parcel a.index.isLt _
    · rw [← hdelay]
      rfl
    · dsimp only
      rw [total_put_new hget, h.sum, Nat.add_comm]
      rfl

/-- What the next slot gives. -/
def Gives (before : List Arrival) (a : Arrival) (out : FeedOutcome) : Prop :=
  (Done (before ++ [a]) a.parcel → out = .complete a.parcel.packet) ∧
    (¬ Done (before ++ [a]) a.parcel → out = .pending ∨ out = .duplicateIgnored)

theorem seen_next (before : List Arrival) (a : Arrival) :
    Seen (before ++ [a]) a.parcel = fun j => Seen before a.parcel j ∨ j = a.index := by
  funext j
  rw [eq_iff_iff, seen_snoc]
  simp only [true_and, eq_comm]

theorem seen_other {p : Parcel} (before : List Arrival) (h : a.parcel ≠ p) :
    Seen (before ++ [a]) p = Seen before p := by
  funext j
  rw [eq_iff_iff, seen_snoc]
  simp [h]

theorem Opened.accepts {r₁ : Reassembler} {e e' : Entry} {out : FeedOutcome}
    (h : Opened before a delay r r₁ e) (hneeded : ¬ Done before a.parcel)
    (haccepts : Accepts e (a.parcel.header a.index) a.slot (out, e')) :
    Holds a.parcel (Seen (before ++ [a]) a.parcel) e' ∧ e'.deadline = e.deadline ∧
      e'.ipTotalLen = e.ipTotalLen ∧ Gives before a out ∧
      ((∃ b, out = .complete b) ↔ Done (before ++ [a]) a.parcel) := by
  obtain ⟨hholds, hdeadline, hcases⟩ := h.holds.accepts haccepts
  have hdone : Done (before ++ [a]) a.parcel ↔
      ∀ j < a.parcel.slots.length, Seen before a.parcel j ∨ j = a.index := by
    rw [Done, seen_next]
  rw [← seen_next] at hholds
  refine ⟨hholds, hdeadline, hholds.shape.len.trans h.holds.shape.len.symm, ?_⟩
  rcases hcases with ⟨hseen, rfl⟩ | ⟨-, hlast, rfl⟩ | ⟨-, hmissing, rfl⟩
  · have hnot : ¬ Done (before ++ [a]) a.parcel := by
      intro hall
      refine hneeded fun j hj => ?_
      rcases hdone.mp hall j hj with hj | rfl
      · exact hj
      · exact hseen
    exact ⟨⟨fun hall => absurd hall hnot, fun _ => Or.inr rfl⟩, by simpa using hnot⟩
  · have hall := hdone.mpr hlast
    exact ⟨⟨fun _ => rfl, fun hnot => absurd hall hnot⟩, by simpa using hall⟩
  · have hnot : ¬ Done (before ++ [a]) a.parcel := fun hall => hmissing (hdone.mp hall)
    exact ⟨⟨fun hall => absurd hall hnot, fun _ => Or.inl rfl⟩, by simpa using hnot⟩

theorem InFlight.others (h : InFlight parcels delay entries bytes before r) (a : Arrival)
    {t : Table UInt64 Entry} {id : UInt64} {e : Entry} (hid : id ≠ a.parcel.id)
    (hsame : t.get id = r.entries.get id) (hget : t.get id = some e) :
    ∃ p ∈ parcels, p.id = id ∧ Holds p (Seen (before ++ [a]) p) e ∧ ¬ Done (before ++ [a]) p ∧
      ∃ b ∈ before ++ [a], b.parcel = p ∧ e.deadline = b.now + delay := by
  obtain ⟨p, hp, rfl, hholds, hopen, b, hb, hbp, hdeadline⟩ := h.held id e (hsame ▸ hget)
  have hne : a.parcel ≠ p := fun heq => hid (heq ▸ rfl)
  refine ⟨p, hp, rfl, ?_, ?_, b, List.mem_append_left _ hb, hbp, hdeadline⟩
  · rwa [seen_other before hne]
  · rwa [Done, seen_other before hne]

theorem InFlight.feed (h : InFlight parcels delay entries bytes before r)
    (hall : Interleaves parcels delay (before ++ a :: after)) (hentries : parcels.length ≤ entries)
    (hbytes : (parcels.map (·.packet.length)).sum ≤ bytes) :
    InFlight parcels delay entries bytes (before ++ [a]) (r.feed a.slot a.now).2 ∧
      Gives before a (r.feed a.slot a.now).1 := by
  have hp : a.parcel ∈ parcels := hall.sent a (by simp)
  obtain ⟨e, r₁, hopen, hopened⟩ := h.opens hall hentries hbytes
  have hdecode : OverlayHeader.decode a.slot.toList = .ok (a.parcel.header a.index) :=
    a.parcel.decode_slot a.index
  have haccepts := e.accept_accepts (a.parcel.header a.index) a.slot
  obtain ⟨hdelay, hmaxEntries, hmaxBytes⟩ := hopened.limits
  have hlimits : r₁.deadline = delay ∧ r₁.maxEntries = entries ∧ r₁.maxBytes = bytes :=
    ⟨hdelay.trans h.limits.1, hmaxEntries.trans h.limits.2.1, hmaxBytes.trans h.limits.2.2⟩
  have htotal := total_remove hopened.get
  have hsum := hopened.sum
  have hid : (a.parcel.header a.index).datagramId = a.parcel.id := rfl
  rw [← h.expire hall] at hopen
  obtain ⟨⟨out, e'⟩, haccept⟩ : ∃ res, e.accept (a.parcel.header a.index) a.slot = res := ⟨_, rfl⟩
  rw [haccept] at haccepts
  obtain ⟨hholds, hdeadline, hlen, hgives, hcomplete⟩ :=
    hopened.accepts (hall.needed before a after rfl) haccepts
  -- another parcel that is under way keeps its entry
  have hunder : ∀ q ∈ parcels, q ≠ a.parcel → (∃ b ∈ before ++ [a], b.parcel = q) →
      ¬ Done (before ++ [a]) q → ∃ e, r₁.entries.get q.id = some e := by
    rintro q hq hne ⟨b, hb, hbq⟩ hnot
    rw [Done, seen_other before (Ne.symm hne)] at hnot
    have hbegun : b ∈ before := (List.mem_append.mp hb).resolve_right fun hlast => by
      rw [List.mem_singleton.mp hlast] at hbq
      exact hne hbq.symm
    rw [hopened.others _ fun hid => hne (same_parcel hall.ids hq hp hid)]
    exact h.under q hq ⟨b, hbegun, hbq⟩ hnot
  by_cases hdone : Done (before ++ [a]) a.parcel
  · obtain ⟨b, rfl⟩ := hcomplete.mpr hdone
    rw [feed_completed hdecode hopen haccept, hid]
    refine ⟨⟨hlimits, ?_, fun id e'' hget => ?_, fun q hq hbegun hnot => ?_⟩, hgives⟩
    · dsimp only
      omega
    · obtain ⟨hid, hget⟩ := Table.get_of_remove hget
      exact h.others a hid (hopened.others id hid) hget
    · have hne : q ≠ a.parcel := fun heq => hnot (heq ▸ hdone)
      obtain ⟨e'', hget⟩ := hunder q hq hne hbegun hnot
      refine ⟨e'', ?_⟩
      dsimp only
      rw [Table.get_remove_ne _ fun hid => hne (same_parcel hall.ids hq hp hid), hget]
  · have hout : ∀ b, out ≠ .complete b := fun b heq => hdone (hcomplete.mp ⟨b, heq⟩)
    rw [feed_kept hdecode hopen haccept hout, hid]
    refine ⟨⟨hlimits, ?_, fun id e'' hget => ?_, fun q hq hbegun hnot => ?_⟩, hgives⟩
    · dsimp only
      rw [total_put]
      omega
    · by_cases hid : id = a.parcel.id
      · subst hid
        rw [Table.get_put_self] at hget
        obtain rfl := Option.some.inj hget
        obtain ⟨b, hb, hbp, hsince⟩ := hopened.since
        exact ⟨a.parcel, hp, rfl, hholds, hdone, b, hb, hbp, hdeadline.trans hsince⟩
      · rw [Table.get_put_ne _ _ hid] at hget
        exact h.others a hid (hopened.others id hid) hget
    · by_cases heq : q = a.parcel
      · exact ⟨e', by rw [heq]; exact Table.get_put_self ..⟩
      · obtain ⟨e'', hget⟩ := hunder q hq heq hbegun hnot
        refine ⟨e'', ?_⟩
        dsimp only
        rw [Table.get_put_ne _ _ fun hid => heq (same_parcel hall.ids hq hp hid), hget]

end Step
section Runs

variable {parcels : List Parcel} {delay maxEntries maxBytes : ℕ} {arrivals : List Arrival}

theorem inFlight_run {before : List Arrival} (after : List Arrival)
    (hall : Interleaves parcels delay (before ++ after)) (hentries : parcels.length ≤ maxEntries)
    (hbytes : (parcels.map (·.packet.length)).sum ≤ maxBytes) :
    InFlight parcels delay maxEntries maxBytes before
      ((withCaps delay maxEntries maxBytes).run (before.map Arrival.op)) := by
  induction before using List.reverseRecOn generalizing after with
  | nil =>
    refine ⟨⟨rfl, rfl, rfl⟩, rfl, fun id e hget => ?_, ?_⟩
    · cases (Table.get_empty id).symm.trans hget
    · rintro p - ⟨a, hmem, -⟩
      cases hmem
  | append_singleton before a ih =>
    rw [List.append_assoc] at hall
    rw [List.map_append, List.map_singleton, run_snoc]
    exact ((ih _ hall).feed hall hentries hbytes).1

/-- Over every interleaving that fits the caps, the slot that its parcel still lacks completes it
with the packet, every other slot is pending or a copy, and nothing stays behind. -/
theorem parcels_delivered (hall : Interleaves parcels delay arrivals)
    (hentries : parcels.length ≤ maxEntries)
    (hbytes : (parcels.map (·.packet.length)).sum ≤ maxBytes) :
    (∀ before a after, arrivals = before ++ a :: after →
      Gives before a (((withCaps delay maxEntries maxBytes).run
        (before.map Arrival.op)).feed a.slot a.now).1) ∧
    ((withCaps delay maxEntries maxBytes).run (arrivals.map Arrival.op)).entries.size = 0 ∧
    ((withCaps delay maxEntries maxBytes).run (arrivals.map Arrival.op)).currentBytes = 0 := by
  constructor
  · rintro before a after rfl
    exact ((inFlight_run _ hall hentries hbytes).feed hall hentries hbytes).2
  · rw [← List.append_nil arrivals] at hall
    have hend := inFlight_run [] hall hentries hbytes
    rw [List.append_nil] at hall
    have hempty : ∀ id, ((withCaps delay maxEntries maxBytes).run
        (arrivals.map Arrival.op)).entries.get id = none := by
      intro id
      rw [Option.eq_none_iff_forall_ne_some]
      intro e hget
      obtain ⟨p, hp, -, -, hopen, -⟩ := hend.held id e hget
      exact hopen (hall.all p hp)
    have hsize := Table.size_eq_zero hempty
    refine ⟨hsize, ?_⟩
    rw [hend.sum, total, List.length_eq_zero_iff.mp hsize]
    rfl

end Runs

section Sample

def sampleIp (n : ℕ) : Bytes := 0x45 :: 0 :: (toBe16 (UInt16.ofNat n) ++ zeros (n - 4))

theorem length_sampleIp {n : ℕ} (h : 20 ≤ n) : (sampleIp n).length = n := by
  rw [sampleIp, List.length_cons, List.length_cons, List.length_append, length_toBe16, length_zeros]
  omega

theorem validateIpPacket_sampleIp {n : ℕ} (h : 20 ≤ n) (hmax : n ≤ maxIpPacketLen) :
    validateIpPacket (sampleIp n) = .ok (sampleIp n).length := by
  have hlen := length_sampleIp h
  have hslice : slice (sampleIp n) 2 2 = toBe16 (UInt16.ofNat n) :=
    slice_append_mid [0x45, 0] _ _ rfl (length_toBe16 _).symm
  have htotal : (UInt16.ofNat n).toNat = n := UInt16.toNat_ofNat_of_lt' (Nat.lt_succ_of_le hmax)
  have hfirst : (sampleIp n).getD 0 0 = 0x45 := rfl
  have hversion : (0x45 : UInt8) >>> 4 = 4 := by decide
  have hihl : ((0x45 : UInt8) &&& 0x0F).toNat * 4 = 20 := by decide
  have hdeclared : declaredIpLen (sampleIp n) = .ok n := by
    rw [declaredIpLen, hlen, hfirst, hversion, hslice, fromBe16_toBe16, htotal]
    dsimp only
    rw [hihl, if_neg (by omega), if_pos rfl, if_neg (by omega), if_neg (by omega),
      if_neg (by omega), if_neg (by omega)]
  rw [validateIpPacket, hdeclared]
  dsimp only
  rw [if_neg (by rw [hlen]; simp), hlen]

theorem cut_sampleIp {n k : ℕ} (h : 20 ≤ n) (hmax : n ≤ maxIpPacketLen) (hk : 0 < k)
    (hcap : k ≤ maxFragCount) (hlow : (k - 1) * fragCap < n) (hhigh : n ≤ k * fragCap) :
    Cut (sampleIp n) k :=
  ⟨validateIpPacket_sampleIp h hmax, by rw [length_sampleIp h]; exact ⟨h, hmax⟩, ⟨hk, hcap⟩,
    by rwa [length_sampleIp h], by rwa [length_sampleIp h]⟩

def sampleParcel : Parcel where
  id := 7
  packet := sampleIp 1300
  slots := (List.range 2).map (slotAt (sampleIp 1300) 7 (crc32 (sampleIp 1300)) 2)
  sent := (cut_sampleIp (by decide) (by decide) (by decide) (by decide) (by decide)
    (by decide)).fragmentIpPacket 7

theorem length_sampleParcel : sampleParcel.packet.length = 1300 := length_sampleIp (by decide)

def sampleArrivals : List Arrival :=
  [⟨sampleParcel, ⟨1, by decide⟩, 0⟩, ⟨sampleParcel, ⟨1, by decide⟩, 1⟩,
    ⟨sampleParcel, ⟨0, by decide⟩, 4⟩]

theorem sample_interleaves : Interleaves [sampleParcel] 5 sampleArrivals := by
  have hsent : ∀ a ∈ sampleArrivals, a.parcel = sampleParcel := by simp [sampleArrivals]
  refine ⟨List.nodup_singleton _, fun a ha => by rw [hsent a ha]; exact List.mem_singleton_self _,
    ?_, ?_, by simp [sampleArrivals], by simp [sampleArrivals]⟩
  · intro p hp
    rw [List.mem_singleton.mp hp]
    intro i hi
    have hi : i < 2 := hi
    obtain rfl | rfl : i = 0 ∨ i = 1 := by omega
    · exact ⟨_, List.mem_of_getElem? (i := 2) rfl, rfl, rfl⟩
    · exact ⟨_, List.mem_of_getElem? (i := 0) rfl, rfl, rfl⟩
  · intro before a after heq hdone
    rw [hsent a (by simp [heq])] at hdone
    -- the first slot comes last
    obtain ⟨b, hb, -, hzero⟩ := hdone 0 (by decide)
    have hlen : before.length ≤ 2 := by
      have := congrArg List.length heq
      simp only [sampleArrivals, List.length_cons, List.length_nil, List.length_append] at this
      omega
    have htake : before <+: sampleArrivals.take 2 := by
      rw [heq, List.take_append, List.take_of_length_le hlen]
      exact List.prefix_append _ _
    have hone : ∀ c ∈ sampleArrivals.take 2, c.index.val = 1 := by simp [sampleArrivals]
    rw [hone b (htake.subset hb)] at hzero
    cases hzero

theorem sample_bytes : ([sampleParcel].map (·.packet.length)).sum ≤ 1300 := by
  simp [length_sampleParcel]

def sampleLast : Arrival := ⟨sampleParcel, ⟨0, by decide⟩, 4⟩

def sampleBefore : Reassembler := (withCaps 5 1 1300).run ((sampleArrivals.take 2).map Arrival.op)

theorem sample_inFlight : InFlight [sampleParcel] 5 1 1300 (sampleArrivals.take 2) sampleBefore :=
  inFlight_run [sampleLast] sample_interleaves le_rfl sample_bytes

theorem sample_completes : (sampleBefore.feed sampleLast.slot 4).1 = .complete (sampleIp 1300) := by
  have hall : Interleaves [sampleParcel] 5 (sampleArrivals.take 2 ++ sampleLast :: []) :=
    sample_interleaves
  have hstep := sample_inFlight.feed hall le_rfl sample_bytes
  exact hstep.2.1 (sample_interleaves.all sampleParcel (List.mem_singleton_self _))

/-- The sample packet, out of order and with a copy. -/
theorem parcels_delivered_sample : Interleaves [sampleParcel] 5 sampleArrivals ∧
    (sampleBefore.feed sampleLast.slot 4).1 = .complete (sampleIp 1300) ∧
    ((withCaps 5 1 1300).run (sampleArrivals.map Arrival.op)).entries.size = 0 := by
  have hentries : [sampleParcel].length ≤ 1 := le_rfl
  obtain ⟨hgives, hsize, -⟩ := parcels_delivered sample_interleaves hentries sample_bytes
  have hlast := hgives (sampleArrivals.take 2) sampleLast [] rfl
  refine ⟨sample_interleaves, hlast.1 ?_, hsize⟩
  exact sample_interleaves.all sampleParcel (List.mem_singleton_self _)

end Sample
end Reassembler
end PqTunnel
