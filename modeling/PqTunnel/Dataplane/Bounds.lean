import PqTunnel.Dataplane.Delivery
import PqTunnel.Foundation.Checked

/-! The caps of the reassembler, and that feeding a slot never reads or writes out of range. The
checked functions are those of the model with every index, slice, subtraction and `expect`
checked. -/
namespace PqTunnel
open ByteString

namespace OverlayHeader

def fieldsChecked (h : Bytes) : Option OverlayHeader := do
  let overlayVersion ← h[0]?
  let fragIndex ← h[1]?
  let fragCount ← h[2]?
  let flags ← h[3]?
  let ipTotalLen ← Checked.range h 4 6
  let reserved ← Checked.range h 6 8
  let datagramId ← Checked.range h 8 16
  let datagramCrc ← Checked.range h 16 20
  return ⟨overlayVersion, fragIndex, fragCount, flags, fromBe16 ipTotalLen, fromBe16 reserved,
    fromBeBytes datagramId, fromBe32 datagramCrc⟩

def checkChecked (hdr : OverlayHeader) : Option (Except OverlayError OverlayHeader) :=
  let ipt := hdr.ipTotalLen.toNat
  let fc := hdr.fragCount.toNat
  if hdr.overlayVersion ≠ PqTunnel.overlayVersion then return .error .invalidVersion
  else if hdr.flags ≠ 0 then return .error .invalidFlags
  else if hdr.reserved ≠ 0 then return .error .invalidReserved
  else if hdr.fragCount = 0 ∨ maxFragCount < fc then return .error .invalidFragCount
  else if fc ≤ hdr.fragIndex.toNat then return .error .invalidFragIndex
  else if ¬ (20 ≤ ipt ∧ ipt ≤ maxIpPacketLen) then return .error .invalidIpTotalLen
  else do
    let before ← Checked.sub fc 1
    if ipt ≤ before * fragCap ∨ fc * fragCap < ipt then return .error .inconsistentFragCount
    else return .ok hdr

def decodeChecked (bytes : Bytes) : Option (Except OverlayError OverlayHeader) :=
  if bytes.length < overlayHeaderLen then return .error .truncated
  else do
    let h ← Checked.range bytes 0 overlayHeaderLen
    checkChecked (← fieldsChecked h)

theorem fieldsChecked_eq {h : Bytes} (hlen : h.length = 20) :
    fieldsChecked h = some (fields h) := by
  have hbyte : ∀ i < 20, h[i]? = some (h.getD i 0) := fun i hi =>
    Checked.index_of_lt (by omega) 0
  have hrange : ∀ lo len, lo + len ≤ 20 → Checked.range h lo (lo + len) = some (slice h lo len) :=
    fun lo len hle => Checked.range_of_le (by omega)
  simp only [fieldsChecked, hbyte 0 (by decide), hbyte 1 (by decide), hbyte 2 (by decide),
    hbyte 3 (by decide), hrange 4 2 (by decide), hrange 6 2 (by decide), hrange 8 8 (by decide),
    hrange 16 4 (by decide), Option.bind_eq_bind, Option.bind_some]
  rfl

theorem checkChecked_eq (hdr : OverlayHeader) : checkChecked hdr = some (check hdr) := by
  unfold checkChecked check
  dsimp only
  split_ifs with hversion hflags hreserved hcount hindex hlen hfits
  all_goals first | rfl | skip
  all_goals
    have hpos : 1 ≤ hdr.fragCount.toNat := by omega
    rw [Checked.sub_of_le hpos]
  · exact if_pos hfits
  · exact if_neg hfits

theorem decodeChecked_eq (bytes : Bytes) : decodeChecked bytes = some (decode bytes) := by
  unfold decodeChecked decode
  split_ifs with hshort
  · rfl
  · have hlen : (bytes.take overlayHeaderLen).length = 20 := by
      rw [List.length_take]
      exact min_eq_left (not_lt.mp hshort)
    rw [Checked.range_zero (not_lt.mp hshort)]
    simp only [Option.bind_eq_bind, Option.bind_some, fieldsChecked_eq hlen, checkChecked_eq]

end OverlayHeader

def expectedFragLenChecked (hdr : OverlayHeader) : Option ℕ :=
  let ipt := hdr.ipTotalLen.toNat
  let idx := hdr.fragIndex.toNat
  let fc := hdr.fragCount.toNat
  if idx + 1 < fc then return fragCap
  else do
    let before ← Checked.sub fc 1
    Checked.sub ipt (before * fragCap)

def validateIpHeaderAtChecked (buf : Bytes) (expectedLen : ℕ) : Option (Except OverlayError Unit) :=
  if maxIpPacketLen < expectedLen then return .error .invalidIpHeader
  else if buf.length < expectedLen then return .error .invalidIpHeader
  else do
    let first : UInt8 ← buf[0]?
    if first >>> 4 = 4 then
      if expectedLen < 20 then return .error .invalidIpHeader
      else
        let total := (fromBe16 (← Checked.range buf 2 4)).toNat
        let ihl := (first &&& 0x0F).toNat * 4
        if total ≠ expectedLen then return .error .invalidIpHeader
        else if ihl < 20 ∨ expectedLen < ihl then return .error .invalidIpHeader
        else return .ok ()
    else if first >>> 4 = 6 then
      if expectedLen < 40 then return .error .invalidIpHeader
      else
        let payload := (fromBe16 (← Checked.range buf 4 6)).toNat
        if 40 + payload ≠ expectedLen then return .error .invalidIpHeader
        else return .ok ()
    else return .error .invalidIpHeader

def crc32Checked (data : Bytes) : Option UInt32 := do
  let crc ← data.foldlM (fun (crc : UInt32) b => do
    let t ← crc32Table[((crc ^^^ b.toUInt32) &&& 0xFF).toNat]?
    return (crc >>> 8) ^^^ t) 0xFFFFFFFF
  return crc ^^^ 0xFFFFFFFF

section Helpers

variable {hdr : OverlayHeader} {buf : Bytes}

theorem expectedFragLenChecked_eq (h : hdr.Valid) :
    expectedFragLenChecked hdr = some (expectedFragLen hdr) := by
  unfold expectedFragLenChecked expectedFragLen
  dsimp only
  split_ifs
  · rfl
  · rw [Checked.sub_of_le h.count.1]
    exact Checked.sub_of_le h.low.le

theorem validateIpHeaderAtChecked_eq (h : 20 ≤ buf.length) (n : ℕ) :
    validateIpHeaderAtChecked buf n = some (validateIpHeaderAt buf n) := by
  have hfirst : buf[0]? = some (buf.getD 0 0) := Checked.index_of_lt (by omega) 0
  have htotal : Checked.range buf 2 4 = some (slice buf 2 2) :=
    Checked.range_of_le (show 2 + 2 ≤ buf.length by omega)
  have hpayload : Checked.range buf 4 6 = some (slice buf 4 2) :=
    Checked.range_of_le (show 4 + 2 ≤ buf.length by omega)
  simp only [validateIpHeaderAtChecked, validateIpHeaderAt, hfirst, htotal, hpayload,
    Option.bind_eq_bind, Option.bind_some]
  split_ifs <;> rfl

theorem crc32Checked_eq (data : Bytes) : crc32Checked data = some (crc32 data) := by
  have hstep : ∀ (l : Bytes) (c : UInt32), l.foldlM (fun (crc : UInt32) b => do
      let t ← crc32Table[((crc ^^^ b.toUInt32) &&& 0xFF).toNat]?
      return (crc >>> 8) ^^^ t) c = some (l.foldl (fun (crc : UInt32) b =>
        (crc >>> 8) ^^^ crc32Table.getD ((crc ^^^ b.toUInt32) &&& 0xFF).toNat 0) c) := by
    intro l
    induction l with
    | nil => exact fun c => rfl
    | cons b l ih =>
      intro c
      have hlt : ((c ^^^ b.toUInt32) &&& 0xFF).toNat < crc32Table.length := by
        rw [crc32Table, List.length_map, List.length_range, UInt32.toNat_and]
        exact Nat.lt_succ_of_le Nat.and_le_right
      rw [List.foldlM_cons, Checked.index_of_lt hlt 0, List.foldl_cons]
      exact ih _
  rw [crc32Checked, hstep]
  rfl

end Helpers

namespace Entry

def writeChecked (e : Entry) (idx fragLen : ℕ) (slot : Payload) : Option Entry := do
  let offset := idx * fragCap
  let newbytes ← Checked.range slot.toList overlayHeaderLen (overlayHeaderLen + fragLen)
  let buf ← Checked.copy e.buf offset (offset + fragLen) newbytes
  let received ← Checked.set e.received idx true
  let e := { e with buf, received, receivedCount := e.receivedCount + 1 }
  if idx = 0 then
    let valid ← validateIpHeaderAtChecked e.buf e.ipTotalLen
    return { e with hasFragment0 := true, fragment0Valid := valid.isOk }
  else return e

def acceptChecked (e : Entry) (hdr : OverlayHeader) (slot : Payload) (fragLen : ℕ)
    (trailingBad : Bool) : Option (FeedOutcome × Entry) :=
  let idx := hdr.fragIndex.toNat
  let offset := idx * fragCap
  if e.poisoned then return (.poisoned, e)
  else if e.fragCount ≠ hdr.fragCount ∨ e.ipTotalLen ≠ hdr.ipTotalLen.toNat ∨
      e.datagramCrc ≠ hdr.datagramCrc then return (.poisoned, e.poison)
  else if trailingBad then return (.poisoned, e.poison)
  else do
    if ← e.received[idx]? then
      let range ← Checked.range e.buf offset (offset + fragLen)
      let newbytes ← Checked.range slot.toList overlayHeaderLen (overlayHeaderLen + fragLen)
      if range = newbytes then return (.duplicateIgnored, e) else return (.poisoned, e.poison)
    else
      let e ← e.writeChecked idx fragLen slot
      if idx = 0 ∧ e.fragment0Valid = false then return (.poisoned, e.poison)
      else if e.isComplete then
        let crc ← crc32Checked (← Checked.range e.buf 0 e.ipTotalLen)
        if crc ≠ e.datagramCrc then return (.poisoned, e.poison) else return (.complete e.buf, e)
      else return (.pending, e)

section Accept

variable {id : UInt64} {fed : List Payload} {e : Entry} {hdr : OverlayHeader}

theorem newbytes_eq (hvalid : hdr.Valid) (slot : Payload) :
    Checked.range slot.toList overlayHeaderLen (overlayHeaderLen + expectedFragLen hdr) =
      some (slotFragment slot hdr) := by
  apply Checked.range_of_le
  rw [List.Vector.toList_length]
  exact Nat.add_le_add_left (expectedFragLen_le hvalid) overlayHeaderLen

theorem writeChecked_eq (hbacked : Backed id fed e) (hvalid : hdr.Valid) (hfits : Matches e hdr)
    (slot : Payload) : e.writeChecked hdr.fragIndex.toNat (expectedFragLen hdr) slot =
      some (e.written hdr slot) := by
  have hlen := @length_slotFragment slot hdr hvalid
  obtain ⟨-, hend, hlt⟩ := hbacked.fits hvalid hfits slot
  have hbuf : 20 ≤ (blit e.buf (hdr.fragIndex.toNat * fragCap) (slotFragment slot hdr)).length := by
    rw [length_blit hend, hbacked.size]
    exact hbacked.len
  rw [hlen] at hend
  simp only [writeChecked, newbytes_eq hvalid, Checked.copy_of_le hend hlen, Checked.set_of_lt hlt,
    validateIpHeaderAtChecked_eq hbuf, Option.bind_eq_bind, Option.bind_some, Option.pure_def]
  rw [written, write]
  split_ifs <;> rfl

theorem acceptChecked_eq (hbacked : Backed id fed e) (hvalid : hdr.Valid) (slot : Payload) :
    e.acceptChecked hdr slot (expectedFragLen hdr) (trailingBad slot hdr) =
      some (e.accept hdr slot) := by
  unfold acceptChecked accept
  dsimp only
  by_cases hdead : e.poisoned = true
  · rw [if_pos hdead, if_pos hdead]
    rfl
  rw [if_neg hdead, if_neg hdead]
  by_cases hmeta : e.fragCount ≠ hdr.fragCount ∨ e.ipTotalLen ≠ hdr.ipTotalLen.toNat ∨
      e.datagramCrc ≠ hdr.datagramCrc
  · rw [if_pos hmeta, if_pos hmeta]
    rfl
  rw [if_neg hmeta, if_neg hmeta]
  by_cases htrail : trailingBad slot hdr = true
  · rw [if_pos htrail, if_pos htrail]
    rfl
  rw [if_neg htrail, if_neg htrail]
  -- from here on the slot belongs to the entry, and every access is inside its buffers
  have hfits := matches_iff.mpr hmeta
  obtain ⟨-, hend, hlt⟩ := hbacked.fits hvalid hfits slot
  have hcrc : Checked.range (e.written hdr slot).buf 0 (e.written hdr slot).ipTotalLen =
      some ((e.written hdr slot).buf.take (e.written hdr slot).ipTotalLen) := by
    apply Checked.range_zero
    rw [written, write_ipTotalLen, write_buf, length_blit hend, hbacked.size]
  rw [length_slotFragment hvalid] at hend
  have hflag : e.received[hdr.fragIndex.toNat]? = some (e.has hdr.fragIndex.toNat) :=
    Checked.index_of_lt hlt false
  simp only [hflag, Checked.range_of_le hend, newbytes_eq hvalid,
    writeChecked_eq hbacked hvalid hfits,
    hcrc, crc32Checked_eq, Option.bind_eq_bind, Option.bind_some, Option.pure_def]
  have hfrag : slice slot.toList overlayHeaderLen (expectedFragLen hdr) = slotFragment slot hdr :=
    rfl
  have hwritten : e.write hdr.fragIndex.toNat (slotFragment slot hdr) = e.written hdr slot := rfl
  rw [hfrag, hwritten]
  split_ifs <;> rfl

end Accept

end Entry

namespace Reassembler

def concluded (r : Reassembler) (id : UInt64) : FeedOutcome × Entry → FeedOutcome × Reassembler
  | (.complete buf, e) =>
    (.complete buf, { r with
      entries := r.entries.remove id
      currentBytes := r.currentBytes - e.ipTotalLen })
  | (outcome, e) => (outcome, { r with entries := r.entries.put id e })

def feedChecked (r : Reassembler) (slot : Payload) (now : ℕ) :
    Option (FeedOutcome × Reassembler) := do
  let r := r.expire now
  match ← OverlayHeader.decodeChecked slot.toList with
  | .error e => return (.invalidHeader e, r)
  | .ok hdr =>
    let expected ← expectedFragLenChecked hdr
    let trailing ← Checked.range slot.toList (overlayHeaderLen + expected) payloadLen
    let trailingBad := trailing.any fun b => decide (b ≠ 0)
    let opened : Except FeedOutcome Reassembler :=
      if (r.entries.get hdr.datagramId).isSome then .ok r
      else if trailingBad then .error .malformed
      else if r.maxEntries ≤ r.entries.size then .error .droppedCap
      else if r.maxBytes < r.currentBytes + hdr.ipTotalLen.toNat then .error .droppedCap
      else .ok { r with
        entries := r.entries.put hdr.datagramId (Entry.new hdr (now + r.deadline))
        currentBytes := r.currentBytes + hdr.ipTotalLen.toNat }
    match opened with
    | .error outcome => return (outcome, r)
    | .ok r =>
      -- `expect("entry just inserted")`
      let e ← r.entries.get hdr.datagramId
      return r.concluded hdr.datagramId (← e.acceptChecked hdr slot expected trailingBad)

section Feed

variable {r : Reassembler} {fed : UInt64 → List Payload}

theorem feedChecked_eq (hall : AllBacked r fed) (slot : Payload) (now : ℕ) :
    r.feedChecked slot now = some (r.feed slot now) := by
  unfold feedChecked feed
  simp only [OverlayHeader.decodeChecked_eq, Option.bind_eq_bind, Option.bind_some]
  cases hdecode : OverlayHeader.decode slot.toList with
  | error err => rfl
  | ok hdr =>
    have hvalid := (OverlayHeader.decode_valid hdecode).2
    have hend : overlayHeaderLen + expectedFragLen hdr ≤ payloadLen :=
      Nat.add_le_add_left (expectedFragLen_le hvalid) overlayHeaderLen
    have htrailing : Checked.range slot.toList (overlayHeaderLen + expectedFragLen hdr) payloadLen =
        some (slot.toList.drop (overlayHeaderLen + expectedFragLen hdr)) := by
      have hlen : slot.toList.length = payloadLen := slot.toList_length
      rw [Checked.range, if_pos ⟨hend, hlen.ge⟩, slice, List.take_of_length_le]
      rw [List.length_drop, hlen]
    simp only [expectedFragLenChecked_eq hvalid, htrailing, Option.bind_some]
    have htb : ((slot.toList.drop (overlayHeaderLen + expectedFragLen hdr)).any fun b =>
        decide (b ≠ 0)) = trailingBad slot hdr := rfl
    rw [htb]
    unfold openEntry
    cases hget : (r.expire now).entries.get hdr.datagramId with
    | some e =>
      have hbacked := (hall.remembered hget).1
      simp only [Option.isSome_some, if_true, hget, Option.bind_some,
        Entry.acceptChecked_eq hbacked hvalid]
      rcases e.accept hdr slot with ⟨_ | _ | _ | _ | _ | _ | _, e'⟩ <;> rfl
    | none =>
      simp only [Option.isSome_none, Bool.false_eq_true, if_false]
      split_ifs
      · rfl
      · rfl
      · rfl
      · have hbacked := Backed.new hvalid (now + (r.expire now).deadline)
        simp only [Table.get_put_self, Option.bind_some, Entry.acceptChecked_eq hbacked hvalid]
        rcases (Entry.new hdr (now + (r.expire now).deadline)).accept hdr slot with
          ⟨_ | _ | _ | _ | _ | _ | _, e'⟩ <;> rfl

end Feed

/-- The books of the caps are right, and within them. -/
structure Capped (maxEntries maxBytes : ℕ) (r : Reassembler) : Prop where
  limits : r.maxEntries = maxEntries ∧ r.maxBytes = maxBytes
  sum : r.currentBytes = total r.entries
  bytes : r.currentBytes ≤ maxBytes
  count : r.entries.size ≤ maxEntries

/-- The entries are for the same packet, and expire together. -/
structure Continues (e e' : Entry) : Prop where
  fragCount : e'.fragCount = e.fragCount
  ipTotalLen : e'.ipTotalLen = e.ipTotalLen
  datagramCrc : e'.datagramCrc = e.datagramCrc
  deadline : e'.deadline = e.deadline

/-- The calls that take an entry away. -/
inductive Removes (r : Reassembler) (id : UInt64) (e : Entry) : Op → Prop where
  | cleared : Removes r id e .clear
  | expired (now : ℕ) (h : e.deadline ≤ now) : Removes r id e (.expire now)
  | overdue (slot : Payload) (now : ℕ) (h : e.deadline ≤ now) : Removes r id e (.feed slot now)
  | completed (slot : Payload) (now : ℕ) (hdr : OverlayHeader) (b : Bytes)
      (hdecode : OverlayHeader.decode slot.toList = .ok hdr) (hid : hdr.datagramId = id)
      (hout : (r.feed slot now).1 = .complete b) : Removes r id e (.feed slot now)

section Caps

variable {r r₁ : Reassembler} {maxEntries maxBytes now : ℕ} {slot : Payload} {hdr : OverlayHeader}
  {e e' : Entry} {out : FeedOutcome} {id : UInt64}

theorem Continues.refl (e : Entry) : Continues e e := ⟨rfl, rfl, rfl, rfl⟩

theorem continues_of_accepts (h : Accepts e hdr slot (out, e')) : Continues e e' := by
  have hwritten : Continues e (e.written hdr slot) :=
    ⟨Entry.write_fragCount, Entry.write_ipTotalLen, Entry.write_datagramCrc, Entry.write_deadline⟩
  cases h with
  | dead | again => exact .refl e
  | refused => exact ⟨rfl, rfl, rfl, rfl⟩
  | broken => exact ⟨hwritten.1, hwritten.2, hwritten.3, hwritten.4⟩
  | finished | waiting => exact hwritten

theorem foldl_sub {α : Type} (f : α → ℕ) (l : List α) (c : ℕ) :
    l.foldl (fun bytes x => bytes - f x) c = c - (l.map f).sum := by
  induction l generalizing c with
  | nil => rfl
  | cons x l ih => rw [List.foldl_cons, ih, List.map_cons, List.sum_cons, Nat.sub_sub]

theorem Capped.expire (h : Capped maxEntries maxBytes r) (now : ℕ) :
    Capped maxEntries maxBytes (r.expire now) := by
  have hsplit : total r.entries = total (r.expire now).entries +
      ((r.entries.entries.filter fun x => decide (x.2.deadline ≤ now)).map
        fun x => x.2.ipTotalLen).sum := by
    have hperm := List.filter_append_perm
      (fun x : Σ _ : UInt64, Entry => decide (now < x.2.deadline))
      r.entries.entries
    have hgone : (r.entries.entries.filter fun x => !decide (now < x.2.deadline)) =
        r.entries.entries.filter fun x => decide (x.2.deadline ≤ now) := by
      apply List.filter_congr
      intro x _
      rw [← decide_not, decide_eq_decide]
      exact not_lt
    rw [total, ← (hperm.map _).sum_eq, hgone, List.map_append, List.sum_append]
    rfl
  have hsum : (r.expire now).currentBytes = total (r.expire now).entries := by
    rw [Reassembler.expire, foldl_sub, h.sum, hsplit, Nat.add_sub_cancel_right]
    rfl
  refine ⟨h.limits, hsum, ?_, (Table.size_retain_le ..).trans h.count⟩
  rw [hsum]
  have hbytes := h.bytes
  rw [h.sum, hsplit] at hbytes
  exact le_of_add_le_left hbytes

theorem Capped.opens (h : Capped maxEntries maxBytes r) (hopens : Opens r hdr slot now e r₁) :
    Capped maxEntries maxBytes r₁ ∧ r₁.entries.get hdr.datagramId = some e := by
  obtain ⟨hentries, hbytes⟩ := h.limits
  cases hopens with
  | found _ hget => exact ⟨h, hget⟩
  | created hnone _ hroom hfits =>
    refine ⟨⟨⟨hentries, hbytes⟩, ?_, hbytes ▸ hfits, ?_⟩, Table.get_put_self ..⟩
    · dsimp only
      rw [total_put_new hnone, h.sum, Nat.add_comm]
      rfl
    · dsimp only
      rw [Table.size_put_of_none _ hnone]
      omega

theorem Capped.feed (h : Capped maxEntries maxBytes r) (slot : Payload) (now : ℕ) :
    Capped maxEntries maxBytes (r.feed slot now).2 := by
  have hfed := feed_fed r slot now
  have hidle := h.expire now
  generalize r.feed slot now = res at hfed
  cases hfed with
  | invalid | dropped => exact hidle
  | kept hdr e e' r₁ out hdecode hopens haccepts =>
    obtain ⟨⟨hlimits, hsum, hbytes, hcount⟩, hget⟩ := hidle.opens hopens
    refine ⟨hlimits, ?_, hbytes, ?_⟩
    · dsimp only
      rw [total_put, (continues_of_accepts haccepts).ipTotalLen, ← total_remove hget, hsum]
    · dsimp only
      rw [Table.size_put_of_some _ hget]
      exact hcount
  | completed hdr e e' r₁ b hdecode hopens haccepts =>
    obtain ⟨⟨hlimits, hsum, hbytes, hcount⟩, hget⟩ := hidle.opens hopens
    refine ⟨hlimits, ?_, (Nat.sub_le _ _).trans hbytes, (Table.size_remove_le ..).trans hcount⟩
    dsimp only
    rw [(continues_of_accepts haccepts).ipTotalLen, hsum, total_remove hget,
      Nat.add_sub_cancel_left]

theorem Capped.step (h : Capped maxEntries maxBytes r) (op : Op) :
    Capped maxEntries maxBytes (r.step op) := by
  cases op with
  | feed slot now => exact h.feed slot now
  | expire now => exact h.expire now
  | clear => exact ⟨h.limits, rfl, Nat.zero_le _, Nat.zero_le _⟩

theorem capped_run (deadline maxEntries maxBytes : ℕ) (ops : List Op) :
    Capped maxEntries maxBytes ((withCaps deadline maxEntries maxBytes).run ops) := by
  induction ops using List.reverseRecOn with
  | nil => exact ⟨⟨rfl, rfl⟩, rfl, Nat.zero_le _, Nat.zero_le _⟩
  | append_singleton ops op ih =>
    rw [run_snoc]
    exact ih.step op

/-- A slot takes no entry away but its own, by completing it. -/
theorem feed_keeps (hget : r.entries.get id = some e) (hlive : now < e.deadline) :
    (∃ hdr b, OverlayHeader.decode slot.toList = .ok hdr ∧ hdr.datagramId = id ∧
      (r.feed slot now).1 = .complete b) ∨
    ∃ e', (r.feed slot now).2.entries.get id = some e' ∧ Continues e e' := by
  have hleft := expire_of_get hget hlive
  have hfed := feed_fed r slot now
  generalize r.feed slot now = res at hfed ⊢
  cases hfed with
  | invalid | dropped => exact Or.inr ⟨e, hleft, .refl e⟩
  | kept hdr e₁ e' r₁ out hdecode hopens haccepts =>
    right
    by_cases hid : id = hdr.datagramId
    · subst hid
      refine ⟨e', Table.get_put_self .., ?_⟩
      cases hopens with
      | found _ hfound =>
        obtain rfl := Option.mem_unique hleft hfound
        exact continues_of_accepts haccepts
      | created hnone => cases hleft.symm.trans hnone
    · refine ⟨e, ?_, .refl e⟩
      dsimp only
      rw [Table.get_put_ne _ _ hid, hopens.other hid]
      exact hleft
  | completed hdr e₁ e' r₁ b hdecode hopens haccepts =>
    by_cases hid : id = hdr.datagramId
    · exact Or.inl ⟨hdr, b, hdecode, hid.symm, rfl⟩
    · refine Or.inr ⟨e, ?_, .refl e⟩
      dsimp only
      rw [Table.get_remove_ne _ hid, hopens.other hid]
      exact hleft

theorem step_removes (hget : r.entries.get id = some e) (op : Op) :
    Removes r id e op ∨ ∃ e', (r.step op).entries.get id = some e' ∧ Continues e e' := by
  cases op with
  | feed slot now =>
    rcases le_or_gt e.deadline now with hover | hlive
    · exact Or.inl (.overdue slot now hover)
    · rcases feed_keeps hget hlive with ⟨hdr, b, hdecode, hid, hout⟩ | hkept
      · exact Or.inl (.completed slot now hdr b hdecode hid hout)
      · exact Or.inr hkept
  | expire now =>
    rcases le_or_gt e.deadline now with hover | hlive
    · exact Or.inl (.expired now hover)
    · exact Or.inr ⟨e, expire_of_get hget hlive, .refl e⟩
  | clear => exact Or.inl .cleared

/-- In every state that calls can reach: the books are right and within the caps, every entry is
well formed, feeding a slot stays in range, and an entry goes only when it is cleared, overdue or
complete. -/
theorem caps_respected (deadline maxEntries maxBytes : ℕ) (ops : List Op) :
    Capped maxEntries maxBytes ((withCaps deadline maxEntries maxBytes).run ops) ∧
      (∀ id e, ((withCaps deadline maxEntries maxBytes).run ops).entries.get id = some e →
        e.receivedCount = e.received.count true ∧ e.received.length = e.fragCount.toNat ∧
          e.buf.length = e.ipTotalLen) ∧
      (∀ slot now, ((withCaps deadline maxEntries maxBytes).run ops).feedChecked slot now =
        some (((withCaps deadline maxEntries maxBytes).run ops).feed slot now)) ∧
      ∀ op id e, ((withCaps deadline maxEntries maxBytes).run ops).entries.get id = some e →
        Removes ((withCaps deadline maxEntries maxBytes).run ops) id e op ∨
          ∃ e', (((withCaps deadline maxEntries maxBytes).run ops).step op).entries.get id =
            some e' ∧
            Continues e e' := by
  have hall := allBacked_run deadline maxEntries maxBytes ops
  refine ⟨capped_run deadline maxEntries maxBytes ops, fun id e hget => ?_, feedChecked_eq hall,
    fun op id e hget => step_removes hget op⟩
  obtain ⟨hbacked, -⟩ := hall id e hget
  exact ⟨hbacked.tally, hbacked.flags, hbacked.size⟩

end Caps

end Reassembler

end PqTunnel
