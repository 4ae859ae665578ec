import PqTunnel.Dataplane.Integrity
import PqTunnel.Envelope.Channel
import PqTunnel.Manager.Server

/-! Inner packets through one session: a record is decrypted at most once, so a datagram completes
at most once, however its entries come and go. -/
namespace PqTunnel
open ByteString Transition OverlayHeader

def FeedOutcome.packet : FeedOutcome → List Bytes
  | .complete b => [b]
  | _ => []

/-- Only a slot of the first fragment gives an entry its first fragment. -/
theorem Accepts.first {e e' : Entry} {hdr : OverlayHeader} {slot : Payload} {out : FeedOutcome}
    (h : Accepts e hdr slot (out, e')) (hfirst : e'.has 0 = true) :
    e.has 0 = true ∨ hdr.fragIndex.toNat = 0 := by
  have hwritten : (e.written hdr slot).has 0 = true → e.has 0 = true ∨ hdr.fragIndex.toNat = 0 := by
    intro hhas
    by_cases hzero : hdr.fragIndex.toNat = 0
    · exact Or.inr hzero
    · rw [Entry.has, Entry.written, Entry.write_received, List.getD_eq_getElem?_getD,
        List.getElem?_set_ne hzero, ← List.getD_eq_getElem?_getD] at hhas
      exact Or.inl hhas
  cases h with
  | dead | refused | again => exact Or.inl hfirst
  | broken | finished | waiting => exact hwritten hfirst

namespace Reassembler

def Op.slot : Op → Option Payload
  | .feed slot _ => some slot
  | .expire _ => none
  | .clear => none

def fedBy (ops : List Op) : List Payload := ops.filterMap Op.slot

/-- The datagram that a call completes, with its packet. -/
def completion (r : Reassembler) : Op → List (UInt64 × Bytes)
  | .feed slot now => (r.feed slot now).1.packet.map fun b => (idField slot, b)
  | .expire _ => []
  | .clear => []

def completions (r : Reassembler) (ops : List Op) : List (UInt64 × Bytes) :=
  outputs step completion r ops

def isFirst (id : UInt64) (slot : Payload) : Bool :=
  match OverlayHeader.decode slot.toList with
  | .ok hdr => decide (hdr.datagramId = id ∧ hdr.fragIndex.toNat = 0)
  | .error _ => false

def hasFirst (r : Reassembler) (id : UInt64) : Bool := (r.entries.get id).any fun e => e.has 0

section Firsts

variable {r r₁ : Reassembler} {fed : UInt64 → List Payload} {hdr : OverlayHeader} {slot : Payload}
  {e e' : Entry} {now : ℕ} {id : UInt64} {out : FeedOutcome}

theorem hasFirst_of_expire (h : (r.expire now).hasFirst id = true) : r.hasFirst id = true := by
  unfold hasFirst at h ⊢
  rw [Option.any_eq_true] at h ⊢
  obtain ⟨e, hget, hfirst⟩ := h
  exact ⟨e, (get_of_expire hget).1, hfirst⟩

theorem Opens.first (h : Opens (r.expire now) hdr slot now e r₁) (hfirst : e.has 0 = true) :
    r.hasFirst hdr.datagramId = true := by
  cases h with
  | found _ hget =>
    apply hasFirst_of_expire
    rw [hasFirst, hget]
    exact hfirst
  | created =>
    rw [Backed.has_new] at hfirst
    cases hfirst

theorem first_before (hdecode : decode slot.toList = .ok hdr)
    (hopens : Opens (r.expire now) hdr slot now e r₁) (haccepts : Accepts e hdr slot (out, e'))
    (hfirst : e'.has 0 = true) :
    1 ≤ (r.hasFirst hdr.datagramId).toNat + [slot].countP (isFirst hdr.datagramId) := by
  rcases haccepts.first hfirst with hbefore | hzero
  · rw [hopens.first hbefore]
    exact Nat.le_add_right _ _
  · have hslot : isFirst hdr.datagramId slot = true := by
      simp [isFirst, hdecode, hzero]
    rw [List.countP_singleton, if_pos hslot]
    exact Nat.le_add_left _ _

/-- What completes is the entry of a slot that is fed. -/
theorem completion_mem {op : Op} {c : UInt64 × Bytes} (h : c ∈ r.completion op) :
    ∃ slot now hdr e e' r₁, op = .feed slot now ∧ c.1 = hdr.datagramId ∧
      decode slot.toList = .ok hdr ∧ Opens (r.expire now) hdr slot now e r₁ ∧
      Accepts e hdr slot (.complete c.2, e') := by
  cases op with
  | expire now | clear => cases h
  | feed slot now =>
    have hfed := feed_fed r slot now
    replace h : c ∈ (r.feed slot now).1.packet.map fun b => (idField slot, b) := h
    generalize r.feed slot now = res at h hfed
    cases hfed with
    | invalid => cases h
    | dropped _ out _ _ hout => rcases hout with rfl | rfl <;> cases h
    | kept _ _ _ _ out _ _ _ hout =>
      cases out with
      | complete b => exact absurd rfl (hout b)
      | _ => cases h
    | completed hdr e e' r₁ b hdecode hopens haccepts =>
      obtain rfl := List.mem_singleton.mp h
      exact ⟨slot, now, hdr, e, e', r₁, rfl, idField_eq hdecode, hdecode, hopens, haccepts⟩

theorem hasFirst_put (hopens : Opens (r.expire now) hdr slot now e r₁) (e' : Entry) (id : UInt64) :
    hasFirst { r₁ with entries := r₁.entries.put hdr.datagramId e' } id =
      if id = hdr.datagramId then e'.has 0 else (r.expire now).hasFirst id := by
  unfold hasFirst
  dsimp only
  rw [Table.get_put]
  split_ifs with hid
  · rfl
  · rw [hopens.other hid]

theorem hasFirst_remove (hopens : Opens (r.expire now) hdr slot now e r₁) (bytes : ℕ)
    (id : UInt64) :
    hasFirst { r₁ with entries := r₁.entries.remove hdr.datagramId, currentBytes := bytes } id =
      if id = hdr.datagramId then false else (r.expire now).hasFirst id := by
  unfold hasFirst
  dsimp only
  rw [Table.get_remove]
  split_ifs with hid
  · rfl
  · rw [hopens.other hid]

/-- One call: a completion uses up the first fragment of its entry. -/
theorem completion_first (hall : AllBacked r fed) (op : Op) (id : UInt64) :
    (r.completion op).countP (fun c => decide (c.1 = id)) + ((r.step op).hasFirst id).toNat ≤
      (r.hasFirst id).toNat + op.slot.toList.countP (isFirst id) := by
  have hexpire : ∀ now, ((r.expire now).hasFirst id).toNat ≤ (r.hasFirst id).toNat := by
    intro now
    apply Bool.toNat_le_toNat
    exact hasFirst_of_expire
  cases op with
  | expire now => simpa [completion, step, Op.slot] using hexpire now
  | clear => simp [completion, step, Op.slot, hasFirst, clear]
  | feed slot now =>
    have hle := hexpire now
    have hfed := feed_fed r slot now
    unfold completion step
    dsimp only [Op.slot, Option.toList]
    generalize r.feed slot now = res at hfed ⊢
    cases hfed with
    | invalid =>
      show 0 + ((r.expire now).hasFirst id).toNat ≤ _
      omega
    | dropped hdr out _ _ hout =>
      rcases hout with rfl | rfl
      all_goals
        show 0 + ((r.expire now).hasFirst id).toNat ≤ _
        omega
    | kept hdr e e' r₁ out hdecode hopens haccepts hout =>
      have hnone : out.packet = [] := by
        cases out with
        | complete b => exact absurd rfl (hout b)
        | _ => rfl
      dsimp only
      rw [hnone, List.map_nil, List.countP_nil, Nat.zero_add, hasFirst_put hopens]
      split_ifs with hid
      · subst hid
        cases hfirst : e'.has 0 with
        | false => exact Nat.zero_le _
        | true => exact first_before hdecode hopens haccepts hfirst
      · omega
    | completed hdr e e' r₁ b hdecode hopens haccepts =>
      have hvalid := (decode_valid hdecode).2
      have hnext := (hopens.backed hall hvalid).1.accepts hvalid hdecode rfl haccepts
      dsimp only [FeedOutcome.packet]
      rw [List.map_singleton, idField_eq hdecode, hasFirst_remove hopens]
      split_ifs with hid
      · subst hid
        -- a complete entry has its first fragment
        have hfirst : e'.has 0 = true := by
          cases haccepts with
          | finished _ hcomplete => exact (hnext.isComplete_iff.mp hcomplete).1 0 hnext.count
        simpa using first_before hdecode hopens haccepts hfirst
      · have hother : [(hdr.datagramId, b)].countP (fun c => decide (c.1 = id)) = 0 := by
          simp [Ne.symm hid]
        omega

end Firsts

section Runs

variable {deadline maxEntries maxBytes : ℕ} {ops : List Op} {parcels : List Parcel}

theorem fedBy_snoc (ops : List Op) (op : Op) :
    fedBy (ops ++ [op]) = fedBy ops ++ op.slot.toList := by
  rw [fedBy, List.filterMap_append]
  rfl

/-- Over a run no datagram completes more often than its first fragment is fed. -/
theorem completions_first (deadline maxEntries maxBytes : ℕ) (ops : List Op) (id : UInt64) :
    ((withCaps deadline maxEntries maxBytes).completions ops).countP (fun c => decide (c.1 = id)) +
        (((withCaps deadline maxEntries maxBytes).run ops).hasFirst id).toNat ≤
      (fedBy ops).countP (isFirst id) := by
  induction ops using List.reverseRecOn with
  | nil => exact Nat.zero_le _
  | append_singleton ops op ih =>
    have hstep := completion_first (allBacked_run deadline maxEntries maxBytes ops) op id
    rw [completions, outputs_snoc, ← completions, ← run, List.countP_append, run_snoc, fedBy_snoc,
      List.countP_append]
    omega

theorem mem_of_remembered {r : Reassembler} {fed : UInt64 → List Payload} {now : ℕ} {id : UInt64}
    {slot : Payload} (h : slot ∈ r.remembered fed now id) : slot ∈ fed id := by
  unfold remembered at h
  split_ifs at h
  · exact h
  · cases h

theorem fedSince_subset (r : Reassembler) (ops : List Op) (id : UInt64) :
    r.fedSince ops id ⊆ fedBy ops := by
  induction ops using List.reverseRecOn with
  | nil => exact List.nil_subset _
  | append_singleton ops op ih =>
    rw [fedSince, tracked_snoc, fedBy_snoc]
    cases op with
    | feed slot now =>
      intro x hx
      rcases List.mem_append.mp hx with hx | hx
      · apply List.mem_append_left
        exact ih (mem_of_remembered hx)
      · exact List.mem_append_right _ hx
    | expire now | clear => exact List.Subset.trans ih (List.subset_append_left _ _)

theorem Parcel.decode_mem {p : Parcel} {slot : Payload} (h : slot ∈ p.slots) :
    ∃ i < p.slots.length, decode slot.toList = .ok (p.header i) ∧
      fragmentOf slot = chunk fragCap p.packet i := by
  obtain ⟨i, rfl⟩ := List.mem_iff_get.mp h
  refine ⟨i, i.isLt, p.decode_slot i, ?_⟩
  rw [fragmentOf, p.decode_slot i]
  exact p.fragment_slot i

theorem packet_of_pieces (hids : (parcels.map Parcel.id).Nodup) {p : Parcel} (hp : p ∈ parcels)
    {i : ℕ} (hi : i < p.slots.length) {piece : ℕ → Payload}
    (hpiece : ∀ j < (p.header i).fragCount.toNat, (∃ q ∈ parcels, piece j ∈ q.slots) ∧
      PieceOf (p.header i) j (piece j)) :
    ((List.range (p.header i).fragCount.toNat).flatMap fun j => fragmentOf (piece j)) =
      p.packet := by
  have hcount := (p.header_fields hi).2.2.1
  refine (List.flatMap_congr fun j hj => ?_).trans (flatMap_chunk (hcount ▸ p.cut.1.high))
  obtain ⟨⟨q, hq, hmem⟩, hdr, hdecode, hid, hindex, -⟩ := hpiece j (List.mem_range.mp hj)
  obtain ⟨k, hk, hdecode', hfragment⟩ := Parcel.decode_mem hmem
  obtain rfl := Except.ok.inj (hdecode'.symm.trans hdecode)
  obtain rfl : q = p := same_parcel hids hq hp hid
  rw [hfragment, ← hindex, (q.header_fields hk).2.1]

theorem completions_genuine (hids : (parcels.map Parcel.id).Nodup)
    (hfed : ∀ slot ∈ fedBy ops, ∃ p ∈ parcels, slot ∈ p.slots) :
    ∀ c ∈ (withCaps deadline maxEntries maxBytes).completions ops,
      ∃ p ∈ parcels, p.id = c.1 ∧ p.packet = c.2 := by
  induction ops using List.reverseRecOn with
  | nil =>
    intro c hc
    cases hc
  | append_singleton ops op ih =>
    rw [fedBy_snoc] at hfed
    have hrest := ih fun slot hslot => hfed slot (List.mem_append_left _ hslot)
    rw [completions, outputs_snoc, ← completions, ← run]
    intro c hc
    rcases List.mem_append.mp hc with hc | hc
    · exact hrest c hc
    obtain ⟨slot, now, hdr, e, e', r₁, rfl, hid, hdecode, hopens, haccepts⟩ := completion_mem hc
    obtain ⟨p, hp, hmem⟩ := hfed slot (List.mem_append_right _ List.mem_cons_self)
    obtain ⟨i, hi, hdecode', -⟩ := Parcel.decode_mem hmem
    obtain rfl := Except.ok.inj (hdecode'.symm.trans hdecode)
    have hall := allBacked_run deadline maxEntries maxBytes ops
    have hbacked := (hopens.backed hall (decode_valid hdecode).2).1
    obtain ⟨-, -, piece, hpiece, hpacket⟩ := completed_pieces hbacked hdecode haccepts
    refine ⟨p, hp, hid.symm, ?_⟩
    rw [hpacket]
    refine (packet_of_pieces hids hp hi fun j hj => ?_).symm
    obtain ⟨hold, hof⟩ := hpiece j hj
    refine ⟨hfed _ ?_, hof⟩
    rcases List.mem_append.mp hold with hold | hold
    · apply List.mem_append_left
      exact fedSince_subset _ ops _ (mem_of_remembered hold)
    · exact List.mem_append_right _ hold

theorem countP_first_slots (p : Parcel) (id : UInt64) :
    p.slots.countP (isFirst id) ≤ if p.id = id then 1 else 0 := by
  have hle : p.slots.countP (isFirst id) ≤
      (List.range p.slots.length).countP fun i => decide (p.id = id ∧ i = 0) := by
    rw [p.cut.2, List.countP_map, List.length_map, List.length_range]
    apply List.countP_mono_left
    intro i hi hfirst
    have hi := List.mem_range.mp hi
    have hdecode := p.cut.1.decode_slotAt hi p.id (crc32 p.packet)
    have hindex := (p.header_fields hi).2.1
    simp only [Function.comp_apply, isFirst, hdecode] at hfirst
    obtain ⟨hid, hzero⟩ := of_decide_eq_true hfirst
    exact decide_eq_true ⟨hid, hindex.symm.trans hzero⟩
  refine hle.trans ?_
  split_ifs with hid
  · simp only [hid, true_and]
    exact List.nodup_iff_count_le_one.mp (List.nodup_range) 0
  · simp [hid]

theorem countP_first (hids : (parcels.map Parcel.id).Nodup) (id : UInt64) :
    (parcels.flatMap Parcel.slots).countP (isFirst id) ≤ 1 := by
  have hle : (parcels.flatMap Parcel.slots).countP (isFirst id) ≤
      (parcels.map Parcel.id).count id := by
    clear hids
    induction parcels with
    | nil => exact Nat.zero_le _
    | cons p parcels ih =>
      have hfirst := countP_first_slots p id
      rw [List.flatMap_cons, List.countP_append, List.map_cons, List.count_cons]
      simp only [beq_iff_eq]
      omega
  exact hle.trans (List.nodup_iff_count_le_one.mp hids id)

/-- Slots that are fed at most once complete their packets, each at most once. -/
theorem completions_spec (hids : (parcels.map Parcel.id).Nodup)
    (hfed : (fedBy ops).Subperm (parcels.flatMap Parcel.slots)) :
    (∀ c ∈ (withCaps deadline maxEntries maxBytes).completions ops,
      ∃ p ∈ parcels, p.id = c.1 ∧ p.packet = c.2) ∧
      (((withCaps deadline maxEntries maxBytes).completions ops).map Prod.fst).Nodup := by
  constructor
  · apply completions_genuine hids
    intro slot hslot
    exact List.mem_flatMap.mp (hfed.subset hslot)
  · rw [List.nodup_iff_count_le_one]
    intro id
    have honce := completions_first deadline maxEntries maxBytes ops id
    have hfirst := (hfed.countP_le (isFirst id)).trans (countP_first hids id)
    rw [List.count, List.countP_map]
    have hsame : ((withCaps deadline maxEntries maxBytes).completions ops).countP
        ((fun x => x == id) ∘ Prod.fst) = ((withCaps deadline maxEntries maxBytes).completions
          ops).countP fun c => decide (c.1 = id) := rfl
    omega

end Runs
end Reassembler

/-- A record that `tun_outbound` sends is the session's own encryption of the slot. -/
theorem ServerSessionManager.tunOutbound_encrypts {T : CryptoTypes} {P : Primitives T}
    {m m' : ServerSessionManager T} {sid : SessionId} {entry : SessionEntry}
    (hget : m.sessions.get sid = some entry) {slot : Payload} {packet : WirePacket}
    {dest : SocketAddr}
    (h : m.tunOutbound P sid slot.toList = (.ok (.sendPacket packet dest), m')) :
    ∃ cipher, entry.session.cipher.encrypt P .tunData slot.toList = (.ok packet, cipher) ∧
      m'.sessions.get sid = some { entry with session := { entry.session with cipher } } := by
  rw [tunOutbound, if_neg (not_not_intro slot.toList_length), sendEncrypted, hget] at h
  dsimp only at h
  generalize hres : entry.session.encrypt P .tunData slot.toList = res at h
  obtain ⟨result, session⟩ := res
  cases result with
  | error e => cases e <;> cases h
  | ok pkt =>
    obtain ⟨hevent, rfl⟩ := Prod.mk.inj h
    cases hevent
    unfold WireSession.encrypt at hres
    split at hres
    · cases hres
    split at hres
    · rename_i pkt' cipher hcipher
      obtain ⟨hpkt, rfl⟩ := Prod.mk.inj hres
      cases hpkt
      exact ⟨cipher, hcipher, Table.get_put_self ..⟩
    · cases hres
    · cases hres

namespace Channel

/-- What a party encrypted as tunnel data. -/
def tunSent (e : Endpoint) : List Bytes :=
  (e.sent.filter fun m => decide (m.msgType = .tunData)).map Sent.payload

/-- The tunnel data that a party decrypted, oldest first. -/
def tunGot (e : Endpoint) : List Payload :=
  ((e.got.filter fun g => decide (g.2.msgType = .tunData)).map fun g => g.2.payload).reverse

variable {T : CryptoTypes} {P : Primitives T} {base : Role → CipherSession} {net : Net}

theorem Inv.tunGot_subperm (hI : Inv P base net) (r : Role) :
    ((tunGot (net.ends r)).map List.Vector.toList).Subperm (tunSent (net.ends r.peer)) := by
  have hE := hI.ends r
  let got := ((net.ends r).got.filter fun g => decide (g.2.msgType = .tunData)).map
    fun g => (g.1, g.2.payload.toList)
  let sent := ((net.ends r.peer).sent.filter fun m => decide (m.msgType = .tunData)).map
    fun m => (m.counter, m.payload)
  have hnodup : got.Nodup := by
    apply List.Nodup.of_map Prod.fst
    rw [List.map_map]
    exact hE.once.sublist (List.filter_sublist.map _)
  have hsub : got ⊆ sent := by
    intro x hx
    obtain ⟨g, hg, rfl⟩ := List.mem_map.mp hx
    obtain ⟨hg, htun⟩ := List.mem_filter.mp hg
    obtain ⟨m, hm, hcounter, htype, -, hpayload⟩ := hE.genuine g hg
    refine List.mem_map.mpr ⟨m, List.mem_filter.mpr ⟨hm, ?_⟩, ?_⟩
    · rwa [← htype]
    · rw [hcounter, hpayload]
  obtain ⟨kept, hperm, hkept⟩ := List.subperm_of_subset hnodup hsub
  have hgot : (got.map Prod.snd).Perm ((tunGot (net.ends r)).map List.Vector.toList) := by
    rw [tunGot, List.map_reverse, List.map_map, List.map_map]
    exact (List.reverse_perm _).symm
  have hall : sent.map Prod.snd = tunSent (net.ends r.peer) := by
    rw [tunSent, List.map_map]
    rfl
  rw [← hall]
  exact ⟨kept.map Prod.snd, (hperm.map _).trans hgot, hkept.map _⟩

/-- A record of `tun_outbound` is one encryption step of the channel. -/
theorem tunOutbound_step {side : Role} {m m' : ServerSessionManager T} {sid : SessionId}
    {entry : SessionEntry} (hget : m.sessions.get sid = some entry)
    (hsession : entry.session.cipher = (net.ends side).session) {slot : Payload}
    {packet : WirePacket} {dest : SocketAddr}
    (h : m.tunOutbound P sid slot.toList = (.ok (.sendPacket packet dest), m')) :
    ∃ entry', m'.sessions.get sid = some entry' ∧
      entry'.session.cipher = ((net.encrypt P side .tunData slot.toList).ends side).session ∧
      tunSent ((net.encrypt P side .tunData slot.toList).ends side) =
        slot.toList :: tunSent (net.ends side) := by
  obtain ⟨cipher, henc, hget'⟩ := ServerSessionManager.tunOutbound_encrypts hget h
  rw [hsession] at henc
  refine ⟨_, hget', ?_, ?_⟩
  · simp only [Net.encrypt, henc, Net.put_same]
  · simp only [Net.encrypt, henc, Net.put_same, tunSent]
    rfl

/-- Over every network, whatever expires or is dropped: the packets that come out of the receiver's
reassembler are packets that were sent, each at most once. The sender's records are those of
`tun_outbound`. -/
theorem packets_at_most_once {master : MasterSecret} {sid : SessionId}
    (hb : Paired P master sid base) (hrun : Reach (· = start base) (Step P) net) (receiver : Role)
    {parcels : List Parcel} (hids : (parcels.map Parcel.id).Nodup)
    (hsent : (tunSent (net.ends receiver.peer)).Subperm
      ((parcels.flatMap Parcel.slots).map List.Vector.toList))
    (deadline maxEntries maxBytes : ℕ) {ops : List Reassembler.Op}
    (hfed : Reassembler.fedBy ops = tunGot (net.ends receiver)) :
    (∀ c ∈ (Reassembler.withCaps deadline maxEntries maxBytes).completions ops,
      ∃ p ∈ parcels, p.id = c.1 ∧ p.packet = c.2) ∧
      (((Reassembler.withCaps deadline maxEntries maxBytes).completions ops).map
        Prod.fst).Nodup ∧
      ∀ (m m' : ServerSessionManager T) entry (slot : Payload) packet dest,
        m.sessions.get sid = some entry →
        entry.session.cipher = (net.ends receiver.peer).session →
        m.tunOutbound P sid slot.toList = (.ok (.sendPacket packet dest), m') →
        ∃ entry', m'.sessions.get sid = some entry' ∧
          entry'.session.cipher =
            ((net.encrypt P receiver.peer .tunData slot.toList).ends receiver.peer).session ∧
          tunSent ((net.encrypt P receiver.peer .tunData slot.toList).ends receiver.peer) =
            slot.toList :: tunSent (net.ends receiver.peer) := by
  have hfew : (Reassembler.fedBy ops).Subperm (parcels.flatMap Parcel.slots) := by
    rw [hfed]
    apply (List.map_subperm_map_iff List.Vector.toList_injective).mp
    exact ((reach_inv hb hrun).tunGot_subperm receiver).trans hsent
  obtain ⟨hgenuine, honce⟩ := Reassembler.completions_spec hids hfew
  exact ⟨hgenuine, honce, fun m m' entry slot packet dest hget hsession h =>
    tunOutbound_step hget hsession h⟩

/-- One packet of a single slot, from the client to the server. -/
theorem packets_at_most_once_sample :
    ∃ (net : Net) (slot : Payload),
      Reach (· = start sampleSession) (Step Sample.primitives) net ∧
      tunGot (net.ends .server) = [slot] ∧
      ∀ c ∈ (Reassembler.new 5).completions [.feed slot 0], c = (7, Reassembler.sampleIp 20) := by
  have hcut : Cut (Reassembler.sampleIp 20) 1 :=
    Reassembler.cut_sampleIp (by decide) (by decide) (by decide) (by decide) (by decide) (by decide)
  let p : Parcel := ⟨7, Reassembler.sampleIp 20, _, hcut.fragmentIpPacket 7⟩
  have hlen := (slotAt (Reassembler.sampleIp 20) 7
    (crc32 (Reassembler.sampleIp 20)) 1 0).toList_length
  obtain ⟨net, m, slot, hreach, hsent, htype, hpayload, -, hgot⟩ := sample_delivery .tunData hlen
  have hslots : tunGot (net.ends .server) = [slot] := by
    rw [tunGot, hgot]
    rfl
  have htun : (tunSent (net.ends (Role.peer .server))).Subperm
      (([p].flatMap Parcel.slots).map List.Vector.toList) := by
    have hone : tunSent (net.ends (Role.peer .server)) = [m.payload] := by
      show ((net.ends .client).sent.filter _).map _ = _
      rw [hsent]
      simp [htype]
    rw [hone, hpayload]
    exact List.Subperm.refl _
  have hids : ([p].map Parcel.id).Nodup := List.nodup_singleton _
  have hfed : Reassembler.fedBy [.feed slot 0] = tunGot (net.ends .server) := hslots.symm
  refine ⟨net, slot, hreach, hslots, fun c hc => ?_⟩
  obtain ⟨q, hq, hid, hpacket⟩ := (packets_at_most_once sampleSession_paired hreach .server hids
    htun 5 maxEntriesPerSession maxBytesPerSession hfed).1 c hc
  obtain rfl := List.mem_singleton.mp hq
  exact Prod.ext hid.symm hpacket.symm

end Channel
end PqTunnel
