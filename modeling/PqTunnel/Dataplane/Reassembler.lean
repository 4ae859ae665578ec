import PqTunnel.Dataplane.Overlay
import PqTunnel.Foundation.Table

/-! The reassembler of inner IP packets: its entries, deadlines and caps, what one slot does to an
entry and to the reassembler. -/
namespace PqTunnel
open ByteString

inductive FeedOutcome where
  | pending
  | duplicateIgnored
  | poisoned
  | droppedCap
  | invalidHeader (e : OverlayError)
  | malformed
  | complete (packet : Bytes)
  deriving DecidableEq

structure Entry where
  fragCount : UInt8
  ipTotalLen : ℕ
  datagramCrc : UInt32
  received : List Bool
  buf : Bytes
  receivedCount : ℕ
  poisoned : Bool
  hasFragment0 : Bool
  fragment0Valid : Bool
  deadline : ℕ

def trailingBad (slot : Payload) (hdr : OverlayHeader) : Bool :=
  (slot.toList.drop (overlayHeaderLen + expectedFragLen hdr)).any fun b => decide (b ≠ 0)

namespace Entry

def new (hdr : OverlayHeader) (deadline : ℕ) : Entry where
  fragCount := hdr.fragCount
  ipTotalLen := hdr.ipTotalLen.toNat
  datagramCrc := hdr.datagramCrc
  received := List.replicate hdr.fragCount.toNat false
  buf := zeros hdr.ipTotalLen.toNat
  receivedCount := 0
  poisoned := false
  hasFragment0 := false
  fragment0Valid := false
  deadline := deadline

def poison (e : Entry) : Entry := { e with poisoned := true }

def has (e : Entry) (idx : ℕ) : Bool := e.received.getD idx false

/-- Write a fragment, and check the IP header as soon as it is there. -/
def write (e : Entry) (idx : ℕ) (fragment : Bytes) : Entry :=
  let e := { e with
    buf := blit e.buf (idx * fragCap) fragment
    received := e.received.set idx true
    receivedCount := e.receivedCount + 1 }
  if idx = 0 then
    { e with
      hasFragment0 := true
      fragment0Valid := (validateIpHeaderAt e.buf e.ipTotalLen).isOk }
  else e

def isComplete (e : Entry) : Bool :=
  decide (e.receivedCount = e.fragCount.toNat) && e.hasFragment0 && e.fragment0Valid

/-- What `feed` does with the entry of a slot. -/
def accept (e : Entry) (hdr : OverlayHeader) (slot : Payload) : FeedOutcome × Entry :=
  let idx := hdr.fragIndex.toNat
  let fragLen := expectedFragLen hdr
  let fragment := slice slot.toList overlayHeaderLen fragLen
  if e.poisoned then (.poisoned, e)
  else if e.fragCount ≠ hdr.fragCount ∨ e.ipTotalLen ≠ hdr.ipTotalLen.toNat ∨
      e.datagramCrc ≠ hdr.datagramCrc then (.poisoned, e.poison)
  else if trailingBad slot hdr then (.poisoned, e.poison)
  else if e.has idx then
    if slice e.buf (idx * fragCap) fragLen = fragment then (.duplicateIgnored, e)
    else (.poisoned, e.poison)
  else
    let e := e.write idx fragment
    if idx = 0 ∧ e.fragment0Valid = false then (.poisoned, e.poison)
    else if e.isComplete then
      if crc32 (e.buf.take e.ipTotalLen) ≠ e.datagramCrc then (.poisoned, e.poison)
      else (.complete e.buf, e)
    else (.pending, e)

end Entry

def maxEntriesPerSession : ℕ := 256

def maxBytesPerSession : ℕ := 16 * 1024 * 1024

structure Reassembler where
  entries : Table UInt64 Entry
  maxEntries : ℕ
  maxBytes : ℕ
  currentBytes : ℕ
  deadline : ℕ

namespace Reassembler

def withCaps (deadline maxEntries maxBytes : ℕ) : Reassembler where
  entries := Table.empty
  maxEntries := maxEntries
  maxBytes := maxBytes
  currentBytes := 0
  deadline := deadline

def new (deadline : ℕ) : Reassembler :=
  withCaps deadline maxEntriesPerSession maxBytesPerSession

/-- Entries whose deadline has come go, each with its bytes. -/
def expire (r : Reassembler) (now : ℕ) : Reassembler :=
  { r with
    entries := r.entries.retain fun _ e => decide (now < e.deadline)
    currentBytes := (r.entries.entries.filter fun x => decide (x.2.deadline ≤ now)).foldl
      (fun bytes x => bytes - x.2.ipTotalLen) r.currentBytes }

def clear (r : Reassembler) : Reassembler := { r with entries := Table.empty, currentBytes := 0 }

def openEntry (r : Reassembler) (hdr : OverlayHeader) (slot : Payload) (now : ℕ) :
    Except FeedOutcome (Entry × Reassembler) :=
  match r.entries.get hdr.datagramId with
  | some e => .ok (e, r)
  | none =>
    if trailingBad slot hdr then .error .malformed
    else if r.maxEntries ≤ r.entries.size then .error .droppedCap
    else if r.maxBytes < r.currentBytes + hdr.ipTotalLen.toNat then .error .droppedCap
    else
      let e := Entry.new hdr (now + r.deadline)
      .ok (e, { r with
        entries := r.entries.put hdr.datagramId e
        currentBytes := r.currentBytes + hdr.ipTotalLen.toNat })

def feed (r : Reassembler) (slot : Payload) (now : ℕ) : FeedOutcome × Reassembler :=
  let r := r.expire now
  match OverlayHeader.decode slot.toList with
  | .error e => (.invalidHeader e, r)
  | .ok hdr =>
    match r.openEntry hdr slot now with
    | .error outcome => (outcome, r)
    | .ok (e, r) =>
      match e.accept hdr slot with
      | (.complete buf, e) =>
        (.complete buf, { r with
          entries := r.entries.remove hdr.datagramId
          currentBytes := r.currentBytes - e.ipTotalLen })
      | (outcome, e) => (outcome, { r with entries := r.entries.put hdr.datagramId e })

end Reassembler

/-- The metadata of a slot are those of its entry. -/
structure Matches (e : Entry) (hdr : OverlayHeader) : Prop where
  count : e.fragCount = hdr.fragCount
  len : e.ipTotalLen = hdr.ipTotalLen.toNat
  crc : e.datagramCrc = hdr.datagramCrc

/-- A slot whose fragment an entry takes: it belongs there, and its index is new. -/
structure Takes (e : Entry) (hdr : OverlayHeader) (slot : Payload) : Prop where
  live : e.poisoned = false
  fits : Matches e hdr
  padding : trailingBad slot hdr = false
  fresh : e.has hdr.fragIndex.toNat = false

def Entry.written (e : Entry) (hdr : OverlayHeader) (slot : Payload) : Entry :=
  e.write hdr.fragIndex.toNat (slotFragment slot hdr)

/-- Everything that a slot can do to its entry. -/
inductive Accepts (e : Entry) (hdr : OverlayHeader) (slot : Payload) : FeedOutcome × Entry → Prop where
  | dead (h : e.poisoned = true) : Accepts e hdr slot (.poisoned, e)
  | refused (hlive : e.poisoned = false)
      (h : ¬ Matches e hdr ∨ trailingBad slot hdr = true ∨ e.has hdr.fragIndex.toNat = true ∧
        slice e.buf (hdr.fragIndex.toNat * fragCap) (expectedFragLen hdr) ≠ slotFragment slot hdr) :
      Accepts e hdr slot (.poisoned, e.poison)
  | again (hlive : e.poisoned = false) (hfits : Matches e hdr)
      (hpad : trailingBad slot hdr = false) (hreceived : e.has hdr.fragIndex.toNat = true)
      (hsame : slice e.buf (hdr.fragIndex.toNat * fragCap) (expectedFragLen hdr) =
        slotFragment slot hdr) : Accepts e hdr slot (.duplicateIgnored, e)
  | broken (htakes : Takes e hdr slot)
      (h : hdr.fragIndex.toNat = 0 ∧ (e.written hdr slot).fragment0Valid = false ∨
        (e.written hdr slot).isComplete = true ∧
          crc32 ((e.written hdr slot).buf.take e.ipTotalLen) ≠ e.datagramCrc) :
      Accepts e hdr slot (.poisoned, (e.written hdr slot).poison)
  | finished (htakes : Takes e hdr slot) (hcomplete : (e.written hdr slot).isComplete = true)
      (hcrc : crc32 ((e.written hdr slot).buf.take e.ipTotalLen) = e.datagramCrc) :
      Accepts e hdr slot (.complete (e.written hdr slot).buf, e.written hdr slot)
  | waiting (htakes : Takes e hdr slot)
      (hvalid : hdr.fragIndex.toNat = 0 → (e.written hdr slot).fragment0Valid = true)
      (hcomplete : (e.written hdr slot).isComplete = false) :
      Accepts e hdr slot (.pending, e.written hdr slot)

namespace Entry

variable {e : Entry} {hdr : OverlayHeader} {slot : Payload} {idx : ℕ} {fragment : Bytes}

theorem matches_iff : Matches e hdr ↔ ¬ (e.fragCount ≠ hdr.fragCount ∨
    e.ipTotalLen ≠ hdr.ipTotalLen.toNat ∨ e.datagramCrc ≠ hdr.datagramCrc) := by
  constructor
  · rintro ⟨hcount, hlen, hcrc⟩
    simp [hcount, hlen, hcrc]
  · intro h
    simp only [not_or, not_not] at h
    exact ⟨h.1, h.2.1, h.2.2⟩

theorem write_ipTotalLen : (e.write idx fragment).ipTotalLen = e.ipTotalLen := by
  unfold write
  dsimp only
  split <;> rfl

theorem write_datagramCrc : (e.write idx fragment).datagramCrc = e.datagramCrc := by
  unfold write
  dsimp only
  split <;> rfl

theorem write_fragCount : (e.write idx fragment).fragCount = e.fragCount := by
  unfold write
  dsimp only
  split <;> rfl

theorem write_deadline : (e.write idx fragment).deadline = e.deadline := by
  unfold write
  dsimp only
  split <;> rfl

theorem write_poisoned : (e.write idx fragment).poisoned = e.poisoned := by
  unfold write
  dsimp only
  split <;> rfl

theorem write_buf : (e.write idx fragment).buf = blit e.buf (idx * fragCap) fragment := by
  unfold write
  dsimp only
  split <;> rfl

theorem write_received : (e.write idx fragment).received = e.received.set idx true := by
  unfold write
  dsimp only
  split <;> rfl

theorem write_receivedCount : (e.write idx fragment).receivedCount = e.receivedCount + 1 := by
  unfold write
  dsimp only
  split <;> rfl

theorem accept_accepts (e : Entry) (hdr : OverlayHeader) (slot : Payload) :
    Accepts e hdr slot (e.accept hdr slot) := by
  unfold accept
  dsimp only
  split_ifs with hdead hmeta htrail hhas hsame hbroken hcomplete hcrc
  · exact .dead hdead
  · exact .refused (Bool.eq_false_iff.mpr hdead) (Or.inl fun h => matches_iff.mp h hmeta)
  · exact .refused (Bool.eq_false_iff.mpr hdead) (Or.inr (Or.inl htrail))
  · exact .again (Bool.eq_false_iff.mpr hdead) (matches_iff.mpr hmeta)
      (Bool.eq_false_iff.mpr htrail) hhas hsame
  · exact .refused (Bool.eq_false_iff.mpr hdead) (Or.inr (Or.inr ⟨hhas, hsame⟩))
  all_goals
    have htakes : Takes e hdr slot := ⟨Bool.eq_false_iff.mpr hdead, matches_iff.mpr hmeta,
      Bool.eq_false_iff.mpr htrail, Bool.eq_false_iff.mpr hhas⟩
  · exact .broken htakes (Or.inl hbroken)
  · rw [write_ipTotalLen, write_datagramCrc] at hcrc
    exact .broken htakes (Or.inr ⟨hcomplete, hcrc⟩)
  · rw [write_ipTotalLen, write_datagramCrc, not_not] at hcrc
    exact .finished htakes hcomplete hcrc
  · refine .waiting htakes (fun hzero => ?_) (Bool.eq_false_iff.mpr hcomplete)
    exact Bool.not_eq_false _ ▸ fun hinvalid => hbroken ⟨hzero, hinvalid⟩

end Entry

namespace Reassembler

/-- The entry that a slot goes to: the one that is there, or a new one within the caps. -/
inductive Opens (r : Reassembler) (hdr : OverlayHeader) (slot : Payload) (now : ℕ) :
    Entry → Reassembler → Prop where
  | found (e : Entry) (hget : r.entries.get hdr.datagramId = some e) : Opens r hdr slot now e r
  | created (hnone : r.entries.get hdr.datagramId = none) (hpad : trailingBad slot hdr = false)
      (hentries : r.entries.size < r.maxEntries)
      (hbytes : r.currentBytes + hdr.ipTotalLen.toNat ≤ r.maxBytes) :
      Opens r hdr slot now (Entry.new hdr (now + r.deadline)) { r with
        entries := r.entries.put hdr.datagramId (Entry.new hdr (now + r.deadline))
        currentBytes := r.currentBytes + hdr.ipTotalLen.toNat }

/-- Everything that a fed slot can do. -/
inductive Fed (r : Reassembler) (slot : Payload) (now : ℕ) : FeedOutcome × Reassembler → Prop where
  | invalid (err : OverlayError) (hdecode : OverlayHeader.decode slot.toList = .error err) :
      Fed r slot now (.invalidHeader err, r.expire now)
  | dropped (hdr : OverlayHeader) (out : FeedOutcome)
      (hdecode : OverlayHeader.decode slot.toList = .ok hdr)
      (hnone : (r.expire now).entries.get hdr.datagramId = none)
      (hout : out = .malformed ∨ out = .droppedCap) : Fed r slot now (out, r.expire now)
  | kept (hdr : OverlayHeader) (e e' : Entry) (r₁ : Reassembler) (out : FeedOutcome)
      (hdecode : OverlayHeader.decode slot.toList = .ok hdr)
      (hopens : Opens (r.expire now) hdr slot now e r₁)
      (haccepts : Accepts e hdr slot (out, e')) (hout : ∀ b, out ≠ .complete b) :
      Fed r slot now (out, { r₁ with entries := r₁.entries.put hdr.datagramId e' })
  | completed (hdr : OverlayHeader) (e e' : Entry) (r₁ : Reassembler) (b : Bytes)
      (hdecode : OverlayHeader.decode slot.toList = .ok hdr)
      (hopens : Opens (r.expire now) hdr slot now e r₁)
      (haccepts : Accepts e hdr slot (.complete b, e')) :
      Fed r slot now (.complete b, { r₁ with
        entries := r₁.entries.remove hdr.datagramId
        currentBytes := r₁.currentBytes - e'.ipTotalLen })

section Feed

variable {r r₁ : Reassembler} {hdr : OverlayHeader} {slot : Payload} {now : ℕ} {e : Entry}

theorem openEntry_cases (r : Reassembler) (hdr : OverlayHeader) (slot : Payload) (now : ℕ) :
    (∃ out, r.openEntry hdr slot now = .error out ∧ r.entries.get hdr.datagramId = none ∧
      (out = .malformed ∨ out = .droppedCap)) ∨
    ∃ e r₁, r.openEntry hdr slot now = .ok (e, r₁) ∧ Opens r hdr slot now e r₁ := by
  unfold openEntry
  split
  · rename_i e hget
    exact Or.inr ⟨e, r, rfl, .found e hget⟩
  · rename_i hnone
    split_ifs with hpad hentries hbytes
    · exact Or.inl ⟨_, rfl, hnone, Or.inl rfl⟩
    · exact Or.inl ⟨_, rfl, hnone, Or.inr rfl⟩
    · exact Or.inl ⟨_, rfl, hnone, Or.inr rfl⟩
    · exact Or.inr ⟨_, _, rfl, .created hnone (Bool.eq_false_iff.mpr hpad) (not_le.mp hentries)
        (not_lt.mp hbytes)⟩

theorem feed_fed (r : Reassembler) (slot : Payload) (now : ℕ) : Fed r slot now (r.feed slot now) := by
  unfold feed
  dsimp only
  cases hdecode : OverlayHeader.decode slot.toList with
  | error err => exact .invalid err hdecode
  | ok hdr =>
    dsimp only
    rcases openEntry_cases (r.expire now) hdr slot now with
      ⟨out, hres, hnone, hout⟩ | ⟨e, r₁, hres, hopens⟩
    · rw [hres]
      exact .dropped hdr out hdecode hnone hout
    · rw [hres]
      dsimp only
      have haccepts := e.accept_accepts hdr slot
      generalize e.accept hdr slot = a at haccepts
      obtain ⟨out, e'⟩ := a
      cases out with
      | complete b => exact .completed hdr e e' r₁ b hdecode hopens haccepts
      | _ => exact .kept hdr e e' r₁ _ hdecode hopens haccepts (by simp)

theorem feed_invalid {err : OverlayError}
    (hdecode : OverlayHeader.decode slot.toList = .error err) :
    r.feed slot now = (.invalidHeader err, r.expire now) := by
  simp only [feed, hdecode]

/-- A slot that completes its entry removes it. -/
theorem feed_completed {e' : Entry} {b : Bytes}
    (hdecode : OverlayHeader.decode slot.toList = .ok hdr)
    (hopen : (r.expire now).openEntry hdr slot now = .ok (e, r₁))
    (haccept : e.accept hdr slot = (.complete b, e')) :
    r.feed slot now = (.complete b, { r₁ with
      entries := r₁.entries.remove hdr.datagramId
      currentBytes := r₁.currentBytes - e'.ipTotalLen }) := by
  simp only [feed, hdecode, hopen, haccept]

theorem feed_kept {e' : Entry} {out : FeedOutcome}
    (hdecode : OverlayHeader.decode slot.toList = .ok hdr)
    (hopen : (r.expire now).openEntry hdr slot now = .ok (e, r₁))
    (haccept : e.accept hdr slot = (out, e')) (hout : ∀ b, out ≠ .complete b) :
    r.feed slot now = (out, { r₁ with entries := r₁.entries.put hdr.datagramId e' }) := by
  cases out with
  | complete b => exact absurd rfl (hout b)
  | _ => simp only [feed, hdecode, hopen, haccept]

/-- Opening an entry changes no other one. -/
theorem Opens.other (h : Opens r hdr slot now e r₁) {id : UInt64} (hid : id ≠ hdr.datagramId) :
    r₁.entries.get id = r.entries.get id := by
  cases h with
  | found => rfl
  | created => exact Table.get_put_ne _ _ hid

theorem get_expire (r : Reassembler) (now : ℕ) (id : UInt64) :
    (r.expire now).entries.get id =
      (r.entries.get id).filter fun e => decide (now < e.deadline) := Table.get_retain ..

theorem get_of_expire {id : UInt64} (h : (r.expire now).entries.get id = some e) :
    r.entries.get id = some e ∧ now < e.deadline := by
  rw [get_expire, Option.filter_eq_some_iff] at h
  exact ⟨h.1, of_decide_eq_true h.2⟩

theorem expire_of_get {id : UInt64} (h : r.entries.get id = some e) (hlive : now < e.deadline) :
    (r.expire now).entries.get id = some e := by
  rw [get_expire, Option.filter_eq_some_iff]
  exact ⟨h, decide_eq_true hlive⟩

end Feed
end Reassembler
end PqTunnel
