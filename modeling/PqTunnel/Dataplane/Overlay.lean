import Mathlib.Algebra.Order.Floor.Div
import PqTunnel.Codec.Packet

/-! The overlay framing of inner IP packets: the header of a fragment, the checks on IP packets,
their checksum and the cut into payload slots. -/
namespace PqTunnel
open ByteString

def overlayVersion : UInt8 := 0x01

abbrev overlayHeaderLen : ℕ := 20
abbrev fragCap : ℕ := payloadLen - overlayHeaderLen
abbrev maxFragCount : ℕ := 54
abbrev maxIpPacketLen : ℕ := 65535

inductive OverlayError where
  | truncated
  | invalidVersion
  | invalidFlags
  | invalidReserved
  | invalidFragCount
  | invalidFragIndex
  | invalidIpTotalLen
  | inconsistentFragCount
  | invalidIpHeader
  | invalidPadding
  | ipLengthMismatch
  deriving DecidableEq, Repr

structure OverlayHeader where
  overlayVersion : UInt8
  fragIndex : UInt8
  fragCount : UInt8
  flags : UInt8
  ipTotalLen : UInt16
  reserved : UInt16
  datagramId : UInt64
  datagramCrc : UInt32
  deriving DecidableEq

namespace OverlayHeader

def fields (h : Bytes) : OverlayHeader where
  overlayVersion := h.getD 0 0
  fragIndex := h.getD 1 0
  fragCount := h.getD 2 0
  flags := h.getD 3 0
  ipTotalLen := fromBe16 (slice h 4 2)
  reserved := fromBe16 (slice h 6 2)
  datagramId := fromBeBytes (slice h 8 8)
  datagramCrc := fromBe32 (slice h 16 4)

def check (hdr : OverlayHeader) : Except OverlayError OverlayHeader :=
  let ipt := hdr.ipTotalLen.toNat
  let fc := hdr.fragCount.toNat
  if hdr.overlayVersion ≠ PqTunnel.overlayVersion then .error .invalidVersion
  else if hdr.flags ≠ 0 then .error .invalidFlags
  else if hdr.reserved ≠ 0 then .error .invalidReserved
  else if hdr.fragCount = 0 ∨ maxFragCount < fc then .error .invalidFragCount
  else if fc ≤ hdr.fragIndex.toNat then .error .invalidFragIndex
  else if ¬ (20 ≤ ipt ∧ ipt ≤ maxIpPacketLen) then .error .invalidIpTotalLen
  else if ipt ≤ (fc - 1) * fragCap ∨ fc * fragCap < ipt then .error .inconsistentFragCount
  else .ok hdr

def decode (bytes : Bytes) : Except OverlayError OverlayHeader :=
  if bytes.length < overlayHeaderLen then .error .truncated
  else check (fields (bytes.take overlayHeaderLen))

def encode (hdr : OverlayHeader) : Octets overlayHeaderLen :=
  ⟨hdr.overlayVersion :: hdr.fragIndex :: hdr.fragCount :: hdr.flags ::
      (toBe16 hdr.ipTotalLen ++ (toBe16 hdr.reserved ++
        (toBeBytes hdr.datagramId ++ toBe32 hdr.datagramCrc))), by simp⟩

/-- What every accepted header satisfies. -/
structure Valid (hdr : OverlayHeader) : Prop where
  version : hdr.overlayVersion = PqTunnel.overlayVersion
  flags : hdr.flags = 0
  reserved : hdr.reserved = 0
  count : 0 < hdr.fragCount.toNat ∧ hdr.fragCount.toNat ≤ maxFragCount
  index : hdr.fragIndex.toNat < hdr.fragCount.toNat
  len : 20 ≤ hdr.ipTotalLen.toNat
  low : (hdr.fragCount.toNat - 1) * fragCap < hdr.ipTotalLen.toNat
  high : hdr.ipTotalLen.toNat ≤ hdr.fragCount.toNat * fragCap

variable {hdr : OverlayHeader}

theorem check_ok {hdr' : OverlayHeader} (h : check hdr = .ok hdr') : hdr' = hdr ∧ Valid hdr := by
  unfold check at h
  dsimp only at h
  split_ifs at h with hversion hflags hreserved hcount hindex hlen hfit
  obtain rfl := Except.ok.inj h
  rw [not_or] at hcount hfit
  refine ⟨rfl, not_not.mp hversion, not_not.mp hflags, not_not.mp hreserved,
    ⟨?_, not_lt.mp hcount.2⟩, not_le.mp hindex, hlen.1, not_le.mp hfit.1, not_lt.mp hfit.2⟩
  rw [Nat.pos_iff_ne_zero]
  exact fun hzero => hcount.1 (UInt8.toNat_inj.mp hzero)

theorem check_valid (h : Valid hdr) : check hdr = .ok hdr := by
  have hcount : ¬ (hdr.fragCount = 0 ∨ maxFragCount < hdr.fragCount.toNat) := by
    rintro (hzero | hmax)
    · have := h.count.1
      rw [hzero] at this
      exact absurd this (by decide)
    · exact absurd h.count.2 (not_le.mpr hmax)
  have hsize : hdr.ipTotalLen.toNat ≤ maxIpPacketLen := Nat.le_of_lt_succ hdr.ipTotalLen.toNat_lt
  rw [check, if_neg (not_not_intro h.version), if_neg (not_not_intro h.flags),
    if_neg (not_not_intro h.reserved), if_neg hcount, if_neg (not_le.mpr h.index),
    if_neg (not_not_intro ⟨h.len, hsize⟩),
    if_neg (not_or.mpr ⟨not_le.mpr h.low, not_lt.mpr h.high⟩)]

theorem decode_valid {bytes : Bytes} (h : decode bytes = .ok hdr) :
    hdr = fields (bytes.take overlayHeaderLen) ∧ Valid hdr := by
  unfold decode at h
  split_ifs at h
  obtain ⟨rfl, hvalid⟩ := check_ok h
  exact ⟨rfl, hvalid⟩

theorem fields_encode (hdr : OverlayHeader) : fields hdr.encode.toList = hdr := by
  -- the parts of the encoding, from its first byte on
  have hsplit : hdr.encode.toList = [hdr.overlayVersion, hdr.fragIndex, hdr.fragCount, hdr.flags] ++
      (toBe16 hdr.ipTotalLen ++ (toBe16 hdr.reserved ++
        (toBeBytes hdr.datagramId ++ toBe32 hdr.datagramCrc))) := rfl
  have hlen : slice hdr.encode.toList 4 2 = toBe16 hdr.ipTotalLen := by
    rw [hsplit]
    exact slice_append_mid _ _ _ rfl (by simp)
  have hreserved : slice hdr.encode.toList 6 2 = toBe16 hdr.reserved := by
    rw [hsplit, ← List.append_assoc]
    exact slice_append_mid _ _ _ (by simp) (by simp)
  have hid : slice hdr.encode.toList 8 8 = toBeBytes hdr.datagramId := by
    rw [hsplit, ← List.append_assoc, ← List.append_assoc]
    exact slice_append_mid _ _ _ (by simp) (by simp)
  have hcrc : slice hdr.encode.toList 16 4 = toBe32 hdr.datagramCrc := by
    rw [hsplit, ← List.append_assoc, ← List.append_assoc, ← List.append_assoc]
    exact slice_append_last _ _ (by simp) (by simp)
  rw [fields, hlen, hreserved, hid, hcrc, fromBe16_toBe16, fromBe16_toBe16, fromBeBytes_toBeBytes,
    fromBe32_toBe32]
  rfl

/-- A valid header is read back from the front of any slot. -/
theorem decode_encode (h : Valid hdr) (rest : Bytes) :
    decode (hdr.encode.toList ++ rest) = .ok hdr := by
  have hlong : ¬ (hdr.encode.toList ++ rest).length < overlayHeaderLen := by
    rw [List.length_append, List.Vector.toList_length]
    exact not_lt.mpr (Nat.le_add_right _ _)
  rw [decode, if_neg hlong, List.take_left' hdr.encode.toList_length, fields_encode]
  exact check_valid h

end OverlayHeader

def expectedFragLen (hdr : OverlayHeader) : ℕ :=
  let ipt := hdr.ipTotalLen.toNat
  let idx := hdr.fragIndex.toNat
  let fc := hdr.fragCount.toNat
  if idx + 1 < fc then fragCap else ipt - (fc - 1) * fragCap

section Lengths

variable {hdr : OverlayHeader}

/-- A fragment is a piece of the packet, cut at multiples of the capacity. -/
theorem expectedFragLen_eq (h : hdr.Valid) :
    expectedFragLen hdr = min (hdr.ipTotalLen.toNat - hdr.fragIndex.toNat * fragCap) fragCap := by
  have hindex := h.index
  have hlow := h.low
  have hhigh := h.high
  unfold expectedFragLen
  dsimp only
  split_ifs with hlast
  · have hle : (hdr.fragIndex.toNat + 1) * fragCap ≤ (hdr.fragCount.toNat - 1) * fragCap :=
      Nat.mul_le_mul_right _ (by omega)
    rw [Nat.succ_mul] at hle
    omega
  · have heq : hdr.fragIndex.toNat = hdr.fragCount.toNat - 1 := by omega
    rw [heq]
    have hcount : hdr.fragCount.toNat * fragCap = (hdr.fragCount.toNat - 1) * fragCap + fragCap := by
      rw [← Nat.succ_mul]
      congr 1
      omega
    omega

theorem expectedFragLen_le (h : hdr.Valid) : expectedFragLen hdr ≤ fragCap := by
  rw [expectedFragLen_eq h]
  exact Nat.min_le_right _ _

theorem fragment_fits (h : hdr.Valid) :
    hdr.fragIndex.toNat * fragCap + expectedFragLen hdr ≤ hdr.ipTotalLen.toNat := by
  have hstart : hdr.fragIndex.toNat * fragCap ≤ (hdr.fragCount.toNat - 1) * fragCap :=
    Nat.mul_le_mul_right _ (by have := h.index; omega)
  have hlow := h.low
  rw [expectedFragLen_eq h]
  generalize fragCap = cap at hstart hlow ⊢
  omega

end Lengths

def declaredIpLen (ip : Bytes) : Except OverlayError ℕ :=
  if ip.length = 0 then .error .invalidIpHeader
  else if ip.getD 0 0 >>> 4 = 4 then
    if ip.length < 20 then .error .invalidIpHeader
    else
      let total := (fromBe16 (slice ip 2 2)).toNat
      let ihl := (ip.getD 0 0 &&& 0x0F).toNat * 4
      if total < 20 then .error .invalidIpHeader
      else if ihl < 20 ∨ total < ihl then .error .invalidIpHeader
      else if maxIpPacketLen < total then .error .invalidIpHeader
      else .ok total
  else if ip.getD 0 0 >>> 4 = 6 then
    if ip.length < 40 then .error .invalidIpHeader
    else
      let total := 40 + (fromBe16 (slice ip 4 2)).toNat
      if total < 40 then .error .invalidIpHeader
      else if maxIpPacketLen < total then .error .invalidIpHeader
      else .ok total
  else .error .invalidIpHeader

def validateIpPacket (ip : Bytes) : Except OverlayError ℕ :=
  match declaredIpLen ip with
  | .error e => .error e
  | .ok declared => if declared ≠ ip.length then .error .ipLengthMismatch else .ok declared

/-- The expected length is never zero where this is called. -/
def validateIpHeaderAt (buf : Bytes) (expectedLen : ℕ) : Except OverlayError Unit :=
  if maxIpPacketLen < expectedLen then .error .invalidIpHeader
  else if buf.length < expectedLen then .error .invalidIpHeader
  else if buf.getD 0 0 >>> 4 = 4 then
    if expectedLen < 20 then .error .invalidIpHeader
    else
      let total := (fromBe16 (slice buf 2 2)).toNat
      let ihl := (buf.getD 0 0 &&& 0x0F).toNat * 4
      if total ≠ expectedLen then .error .invalidIpHeader
      else if ihl < 20 ∨ expectedLen < ihl then .error .invalidIpHeader
      else .ok ()
  else if buf.getD 0 0 >>> 4 = 6 then
    if expectedLen < 40 then .error .invalidIpHeader
    else if 40 + (fromBe16 (slice buf 4 2)).toNat ≠ expectedLen then .error .invalidIpHeader
    else .ok ()
  else .error .invalidIpHeader

section Checks

variable {buf : Bytes}

/-- The two checks agree on a whole packet: the receiver accepts a header of the assembled length
exactly if the sender would accept the packet. -/
theorem validateIpHeaderAt_iff (h : 20 ≤ buf.length) :
    validateIpHeaderAt buf buf.length = .ok () ↔ validateIpPacket buf = .ok buf.length := by
  unfold validateIpHeaderAt validateIpPacket declaredIpLen
  dsimp only
  rw [if_neg (show ¬ buf.length = 0 by omega), if_neg (lt_irrefl _)]
  by_cases h4 : buf.getD 0 0 >>> 4 = 4
  · simp only [h4, if_true]
    rw [if_neg (show ¬ buf.length < 20 by omega)]
    split_ifs <;> simp_all <;> omega
  · simp only [h4, if_false]
    by_cases h6 : buf.getD 0 0 >>> 4 = 6
    · simp only [h6, if_true]
      split_ifs <;> simp_all <;> omega
    · simp only [h6, if_false]
      split_ifs <;> simp

/-- The receiver's check reads the header only, which lies in the first fragment. -/
theorem validateIpHeaderAt_congr {buf' : Bytes} (hlen : buf.length = buf'.length)
    (h : buf.take fragCap = buf'.take fragCap) (n : ℕ) :
    validateIpHeaderAt buf n = validateIpHeaderAt buf' n := by
  have hslice : ∀ i k, i + k ≤ fragCap → slice buf i k = slice buf' i k := by
    intro i k hik
    have htake : ∀ l : Bytes, slice (l.take fragCap) i k = slice l i k := by
      intro l
      rw [slice, slice, List.drop_take, List.take_take, min_eq_left (by omega)]
    rw [← htake buf, h, htake]
  have hfirst : buf.getD 0 0 = buf'.getD 0 0 := by
    have hone := hslice 0 1 (by decide)
    simp only [slice, List.drop_zero] at hone
    cases buf <;> cases buf' <;> simp_all
  unfold validateIpHeaderAt
  rw [hlen, hfirst, hslice 2 2 (by decide), hslice 4 2 (by decide)]

end Checks

/-- One bit of the reflected CRC-32 polynomial division. -/
def crc32Bit (crc : UInt32) : UInt32 :=
  if crc &&& 1 = 1 then (crc >>> 1) ^^^ 0xEDB88320 else crc >>> 1

def crc32Table : List UInt32 := (List.range 256).map fun i => crc32Bit^[8] (UInt32.ofNat i)

def crc32 (data : Bytes) : UInt32 :=
  let crc := data.foldl (fun (crc : UInt32) b =>
    (crc >>> 8) ^^^ crc32Table.getD ((crc ^^^ b.toUInt32) &&& 0xFF).toNat 0) 0xFFFFFFFF
  crc ^^^ 0xFFFFFFFF

example : crc32 (ascii "123456789") = 0xCBF43926 := by decide +kernel

inductive DataplaneError where
  | invalidIpPacket
  | tooLarge
  deriving DecidableEq, Repr

def slotBuffer (ipPacket : Bytes) (datagramId : UInt64) (crc : UInt32) (fragCount idx : ℕ) :
    Bytes :=
  let start := idx * fragCap
  let stop := min (start + fragCap) ipPacket.length
  let slot := blit (zeros payloadLen) 0 [overlayVersion]
  let slot := blit slot 1 [UInt8.ofNat idx]
  let slot := blit slot 2 [UInt8.ofNat fragCount]
  let slot := blit slot 3 [0]
  let slot := blit slot 4 (toBe16 (UInt16.ofNat ipPacket.length))
  let slot := blit slot 6 (toBe16 0)
  let slot := blit slot 8 (toBeBytes datagramId)
  let slot := blit slot 16 (toBe32 crc)
  blit slot 20 (slice ipPacket start (stop - start))

def slotHeader (ipPacket : Bytes) (datagramId : UInt64) (crc : UInt32) (fragCount idx : ℕ) :
    OverlayHeader where
  overlayVersion := overlayVersion
  fragIndex := UInt8.ofNat idx
  fragCount := UInt8.ofNat fragCount
  flags := 0
  ipTotalLen := UInt16.ofNat ipPacket.length
  reserved := 0
  datagramId := datagramId
  datagramCrc := crc

section Slots

variable (ipPacket : Bytes) (datagramId : UInt64) (crc : UInt32) (fragCount idx : ℕ)

theorem slotBuffer_eq : slotBuffer ipPacket datagramId crc fragCount idx =
    (slotHeader ipPacket datagramId crc fragCount idx).encode.toList ++
      (chunk fragCap ipPacket idx ++ zeros (fragCap - (chunk fragCap ipPacket idx).length)) := by
  have hbody : slice ipPacket (idx * fragCap)
      (min (idx * fragCap + fragCap) ipPacket.length - idx * fragCap) =
        chunk fragCap ipPacket idx := by
    rw [chunk_eq_slice]
    congr 1
    omega
  have hlen : (chunk fragCap ipPacket idx).length ≤ fragCap := by
    rw [length_chunk]
    exact Nat.min_le_right ..
  simp only [slotBuffer, hbody]
  generalize chunk fragCap ipPacket idx = body at hlen
  -- each field is written right behind the previous one
  rw [← List.nil_append (zeros payloadLen), blit_next 1244 (by rfl) (by rfl),
    blit_next 1243 (by rfl) (by rfl), blit_next 1242 (by rfl) (by rfl),
    blit_next 1241 (by rfl) (by rfl), blit_next 1239 (by rfl) (by rfl),
    blit_next 1237 (by rfl) (by rfl), blit_next 1229 (by rfl) (by rfl),
    blit_next fragCap (by rfl) (by rfl),
    blit_next (fragCap - body.length) (by rfl) (Nat.add_sub_of_le hlen)]
  simp [slotHeader, OverlayHeader.encode, List.Vector.toList]

theorem length_slotBuffer :
    (slotBuffer ipPacket datagramId crc fragCount idx).length = payloadLen := by
  have hle : (chunk fragCap ipPacket idx).length ≤ fragCap := by
    rw [length_chunk]
    exact Nat.min_le_right ..
  rw [slotBuffer_eq, List.length_append, List.Vector.toList_length, List.length_append,
    length_zeros, Nat.add_sub_cancel' hle]
  rfl

def slotAt : Payload :=
  ⟨slotBuffer ipPacket datagramId crc fragCount idx, length_slotBuffer ..⟩

end Slots

def fragmentIpPacket (ipPacket : Bytes) (datagramId : UInt64) :
    Except DataplaneError (List Payload) :=
  let len := ipPacket.length
  if ¬ (20 ≤ len ∧ len ≤ maxIpPacketLen) then .error .invalidIpPacket
  else
    match validateIpPacket ipPacket with
    | .error _ => .error .invalidIpPacket
    | .ok _ =>
      let fragCount := (len + fragCap - 1) / fragCap
      if fragCount = 0 ∨ maxFragCount < fragCount then .error .tooLarge
      else
        let crc := crc32 ipPacket
        .ok ((List.range fragCount).map (slotAt ipPacket datagramId crc fragCount))

theorem fragCount_iff {len n : ℕ} (h : 0 < len) :
    (len + fragCap - 1) / fragCap = n ↔ (n - 1) * fragCap < len ∧ len ≤ n * fragCap := by
  rw [Nat.div_eq_iff (by decide), Nat.sub_mul, Nat.one_mul]
  generalize n * fragCap = k
  change k ≤ len + 1225 - 1 ∧ len + 1225 - 1 ≤ k + 1225 - 1 ↔ k - 1225 < len ∧ len ≤ k
  omega

def slotFragment (slot : Payload) (hdr : OverlayHeader) : Bytes :=
  slice slot.toList overlayHeaderLen (expectedFragLen hdr)

theorem length_slotFragment {slot : Payload} {hdr : OverlayHeader} (h : hdr.Valid) :
    (slotFragment slot hdr).length = expectedFragLen hdr := by
  refine length_slice ?_
  rw [List.Vector.toList_length]
  exact Nat.add_le_add_left (expectedFragLen_le h) overlayHeaderLen

structure Cut (ip : Bytes) (n : ℕ) : Prop where
  valid : validateIpPacket ip = .ok ip.length
  len : 20 ≤ ip.length ∧ ip.length ≤ maxIpPacketLen
  count : 0 < n ∧ n ≤ maxFragCount
  low : (n - 1) * fragCap < ip.length
  high : ip.length ≤ n * fragCap

section Fragmentation

variable {ip : Bytes} {id : UInt64} {slots : List Payload} {n i : ℕ}

theorem validateIpPacket_len {len : ℕ} (h : validateIpPacket ip = .ok len) : len = ip.length := by
  unfold validateIpPacket at h
  split at h
  · cases h
  · split_ifs at h with hlen
    rw [← Except.ok.inj h]
    exact not_not.mp hlen

theorem fragmentIpPacket_ok (h : fragmentIpPacket ip id = .ok slots) :
    ∃ n, Cut ip n ∧ slots = (List.range n).map (slotAt ip id (crc32 ip) n) := by
  unfold fragmentIpPacket at h
  dsimp only at h
  split at h
  · cases h
  · rename_i hlen
    rw [not_not] at hlen
    split at h
    · cases h
    rename_i len hvalid
    split at h
    · cases h
    rename_i hcount
    rw [not_or] at hcount
    obtain rfl := validateIpPacket_len hvalid
    obtain ⟨hlow, hhigh⟩ := (fragCount_iff (Nat.lt_of_lt_of_le (by decide) hlen.1)).mp rfl
    exact ⟨_, ⟨hvalid, hlen, ⟨Nat.pos_of_ne_zero hcount.1, not_lt.mp hcount.2⟩, hlow, hhigh⟩,
      (Except.ok.inj h).symm⟩

theorem Cut.fragmentIpPacket (h : Cut ip n) (id : UInt64) :
    fragmentIpPacket ip id = .ok ((List.range n).map (slotAt ip id (crc32 ip) n)) := by
  have hn : (ip.length + fragCap - 1) / fragCap = n :=
    (fragCount_iff (Nat.lt_of_lt_of_le (by decide) h.len.1)).mpr ⟨h.low, h.high⟩
  have hpos := h.count.1
  have hmax := h.count.2
  rw [PqTunnel.fragmentIpPacket, if_neg (not_not_intro h.len), h.valid]
  dsimp only
  rw [hn, if_neg (by omega)]

/-- The header of a sent slot says where the slot belongs. -/
theorem Cut.header (h : Cut ip n) (hi : i < n) (id : UInt64) (crc : UInt32) :
    (slotHeader ip id crc n i).Valid ∧ (slotHeader ip id crc n i).fragIndex.toNat = i ∧
      (slotHeader ip id crc n i).fragCount.toNat = n ∧
      (slotHeader ip id crc n i).ipTotalLen.toNat = ip.length := by
  have hmax : n ≤ 54 := h.count.2
  have hcount : (UInt8.ofNat n).toNat = n := UInt8.toNat_ofNat_of_lt' (by change n < 256; omega)
  have hindex : (UInt8.ofNat i).toNat = i := UInt8.toNat_ofNat_of_lt' (by change i < 256; omega)
  have hlen : (UInt16.ofNat ip.length).toNat = ip.length :=
    UInt16.toNat_ofNat_of_lt' (Nat.lt_succ_of_le h.len.2)
  refine ⟨⟨rfl, rfl, rfl, ?_, ?_, ?_, ?_, ?_⟩, hindex, hcount, hlen⟩
  · rw [show (slotHeader ip id crc n i).fragCount.toNat = n from hcount]
    exact h.count
  · rw [show (slotHeader ip id crc n i).fragCount.toNat = n from hcount,
      show (slotHeader ip id crc n i).fragIndex.toNat = i from hindex]
    exact hi
  · rw [show (slotHeader ip id crc n i).ipTotalLen.toNat = ip.length from hlen]
    exact h.len.1
  · rw [show (slotHeader ip id crc n i).fragCount.toNat = n from hcount,
      show (slotHeader ip id crc n i).ipTotalLen.toNat = ip.length from hlen]
    exact h.low
  · rw [show (slotHeader ip id crc n i).fragCount.toNat = n from hcount,
      show (slotHeader ip id crc n i).ipTotalLen.toNat = ip.length from hlen]
    exact h.high

theorem Cut.decode_slotAt (h : Cut ip n) (hi : i < n) (id : UInt64) (crc : UInt32) :
    OverlayHeader.decode (slotAt ip id crc n i).toList = .ok (slotHeader ip id crc n i) := by
  have hlist : (slotAt ip id crc n i).toList = _ := slotBuffer_eq ip id crc n i
  rw [hlist]
  exact OverlayHeader.decode_encode (h.header hi id crc).1 _

theorem Cut.length_chunk (h : Cut ip n) (hi : i < n) (id : UInt64) (crc : UInt32) :
    (chunk fragCap ip i).length = expectedFragLen (slotHeader ip id crc n i) := by
  obtain ⟨hvalid, hindex, -, hlen⟩ := h.header hi id crc
  rw [expectedFragLen_eq hvalid, hindex, hlen, ByteString.length_chunk]

theorem Cut.slotFragment_slotAt (h : Cut ip n) (hi : i < n) (id : UInt64) (crc : UInt32) :
    slotFragment (slotAt ip id crc n i) (slotHeader ip id crc n i) = chunk fragCap ip i := by
  have hlist : (slotAt ip id crc n i).toList = _ := slotBuffer_eq ip id crc n i
  rw [slotFragment, hlist]
  exact slice_append_mid _ _ _ (List.Vector.toList_length _).symm
    (h.length_chunk hi id crc).symm

/-- Behind its fragment a sent slot is zero. -/
theorem Cut.drop_slotAt (h : Cut ip n) (hi : i < n) (id : UInt64) (crc : UInt32) :
    (slotAt ip id crc n i).toList.drop
        (overlayHeaderLen + expectedFragLen (slotHeader ip id crc n i)) =
      zeros (fragCap - (chunk fragCap ip i).length) := by
  have hlist : (slotAt ip id crc n i).toList = _ := slotBuffer_eq ip id crc n i
  rw [hlist, ← h.length_chunk hi id crc, ← List.drop_drop,
    List.drop_left' (List.Vector.toList_length _), List.drop_left' rfl]

end Fragmentation

namespace OverlayHeader
variable {hdr : OverlayHeader} {i : ℕ}

theorem encode_fields {l : Bytes} (h : l.length = overlayHeaderLen) :
    (fields l).encode.toList = l := by
  rcases l with _ | ⟨a, _ | ⟨b, _ | ⟨c, _ | ⟨d, rest⟩⟩⟩⟩ <;> try cases h
  have hrest : rest.length = 16 := Nat.add_right_cancel (m := 4) h
  have hlen : ∀ a n, a + n ≤ 16 → (slice rest a n).length = n :=
    fun a n han => length_slice (hrest.symm ▸ han)
  have hparts : slice rest 0 2 ++ (slice rest 2 2 ++ (slice rest 4 8 ++ slice rest 12 4)) = rest := by
    rw [← slice_add rest 4 8 4, ← slice_add rest 2 2 12, ← slice_add rest 0 2 14]
    exact slice_self rest hrest.le
  change a :: b :: c :: d :: (toBe16 (fromBe16 (slice rest 0 2)) ++
    (toBe16 (fromBe16 (slice rest 2 2)) ++ (toBeBytes (fromBeBytes (slice rest 4 8)) ++
      toBe32 (fromBe32 (slice rest 12 4))))) = _
  rw [toBe16_fromBe16 (hlen 0 2 (by decide)), toBe16_fromBe16 (hlen 2 2 (by decide)),
    toBeBytes_fromBeBytes (hlen 4 8 (by decide)), toBe32_fromBe32 (hlen 12 4 (by decide)), hparts]

theorem decode_ok_iff {bytes : Bytes} (h : overlayHeaderLen ≤ bytes.length) :
    decode bytes = .ok hdr ↔ hdr = fields (bytes.take overlayHeaderLen) ∧ Valid hdr := by
  refine ⟨decode_valid, ?_⟩
  rintro ⟨rfl, hvalid⟩
  rw [decode, if_neg (not_lt.mpr h), check_valid hvalid]

/-- The checks on the fragment count stand for a ceiling division. -/
theorem valid_iff : Valid hdr ↔ hdr.overlayVersion = PqTunnel.overlayVersion ∧ hdr.flags = 0 ∧
    hdr.reserved = 0 ∧ hdr.fragIndex.toNat < hdr.fragCount.toNat ∧
    hdr.fragCount.toNat ≤ maxFragCount ∧ 20 ≤ hdr.ipTotalLen.toNat ∧
    hdr.fragCount.toNat = hdr.ipTotalLen.toNat ⌈/⌉ fragCap := by
  rw [Nat.ceilDiv_eq_add_pred_div, eq_comm (a := hdr.fragCount.toNat)]
  constructor
  · intro h
    exact ⟨h.version, h.flags, h.reserved, h.index, h.count.2, h.len,
      (fragCount_iff (by have := h.len; omega)).mpr ⟨h.low, h.high⟩⟩
  · rintro ⟨hversion, hflags, hreserved, hindex, hcount, hlen, hceil⟩
    obtain ⟨hlow, hhigh⟩ := (fragCount_iff (by omega)).mp hceil
    exact ⟨hversion, hflags, hreserved, ⟨by omega, hcount⟩, hindex, hlen, hlow, hhigh⟩

/-- The header of fragment `i` of the same datagram. -/
def withIndex (hdr : OverlayHeader) (i : ℕ) : OverlayHeader :=
  { hdr with fragIndex := UInt8.ofNat i }

theorem Valid.withIndex (h : Valid hdr) (hi : i < hdr.fragCount.toNat) :
    Valid (hdr.withIndex i) ∧ (hdr.withIndex i).fragIndex.toNat = i := by
  have hindex : (UInt8.ofNat i).toNat = i :=
    UInt8.toNat_ofNat_of_lt' (hi.trans hdr.fragCount.toNat_lt)
  refine ⟨⟨h.version, h.flags, h.reserved, h.count, ?_, h.len, h.low, h.high⟩, hindex⟩
  rw [show (hdr.withIndex i).fragIndex.toNat = i from hindex]
  exact hi

/-- The start of every fragment lies in the packet. -/
theorem Valid.start_lt (h : Valid hdr) (hi : i < hdr.fragCount.toNat) :
    i * fragCap < hdr.ipTotalLen.toNat :=
  (Nat.mul_le_mul_right fragCap (Nat.le_sub_one_of_lt hi)).trans_lt h.low

theorem Valid.covers (h : Valid hdr) (x : ℕ) : x < hdr.ipTotalLen.toNat ↔
    ∃ i < hdr.fragCount.toNat, i * fragCap ≤ x ∧ x < i * fragCap + expectedFragLen (hdr.withIndex i) := by
  constructor
  · intro hx
    have hi : x / fragCap < hdr.fragCount.toNat :=
      Nat.div_lt_of_lt_mul ((hx.trans_le h.high).trans_eq (Nat.mul_comm ..))
    obtain ⟨hvalid, hindex⟩ := h.withIndex hi
    have hle := Nat.div_mul_le_self x fragCap
    have hlt := Nat.lt_div_mul_add (a := x) (b := fragCap) (by decide)
    refine ⟨x / fragCap, hi, hle, ?_⟩
    rw [expectedFragLen_eq hvalid, hindex, show (hdr.withIndex _).ipTotalLen = hdr.ipTotalLen from rfl]
    generalize x / fragCap * fragCap = start at hle hlt
    generalize fragCap = cap at hlt
    omega
  · rintro ⟨i, hi, -, hx⟩
    obtain ⟨hvalid, hindex⟩ := h.withIndex hi
    have hfits := fragment_fits hvalid
    rw [hindex] at hfits
    exact hx.trans_le hfits

end OverlayHeader

open OverlayHeader in
/-- The overlay header is read exactly if it is well formed, its codec loses nothing, and the
fragments it describes cut the packet into consecutive non-empty pieces. -/
theorem overlay_header_layout :
    (∀ b : Bytes, overlayHeaderLen ≤ b.length → ∀ hdr, hdr = fields (b.take overlayHeaderLen) →
      ((∃ hdr', decode b = .ok hdr') ↔ hdr.overlayVersion = 1 ∧ hdr.flags = 0 ∧
        hdr.reserved = 0 ∧ hdr.fragIndex.toNat < hdr.fragCount.toNat ∧
        hdr.fragCount.toNat ≤ 54 ∧ 20 ≤ hdr.ipTotalLen.toNat ∧
        hdr.fragCount.toNat = hdr.ipTotalLen.toNat ⌈/⌉ (1225 : ℕ)) ∧
      ∀ hdr', decode b = .ok hdr' → hdr' = hdr) ∧
    (∀ b hdr, decode b = .ok hdr → hdr.encode.toList = b.take overlayHeaderLen ∧
      decode hdr.encode.toList = .ok hdr) ∧
    (∀ b hdr, decode b = .ok hdr →
      (∀ i < hdr.fragCount.toNat, 0 < expectedFragLen (hdr.withIndex i) ∧
        expectedFragLen (hdr.withIndex i) ≤ 1225 ∧ (i + 1 < hdr.fragCount.toNat →
          i * 1225 + expectedFragLen (hdr.withIndex i) = (i + 1) * 1225)) ∧
      ∀ x, x < hdr.ipTotalLen.toNat ↔ ∃ i < hdr.fragCount.toNat,
        i * 1225 ≤ x ∧ x < i * 1225 + expectedFragLen (hdr.withIndex i)) ∧
    ∀ ip id slots, fragmentIpPacket ip id = .ok slots → ∀ slot ∈ slots, ∃ hdr,
      decode slot.toList = .ok hdr ∧ hdr.ipTotalLen.toNat = ip.length ∧
        hdr.fragCount.toNat = slots.length := by
  refine ⟨?_, ?_, ?_, ?_⟩
  · rintro b hlen hdr rfl
    refine ⟨Iff.trans ?_ valid_iff, fun hdr' h => (decode_valid h).1⟩
    constructor
    · rintro ⟨hdr', h⟩
      obtain ⟨rfl, hvalid⟩ := decode_valid h
      exact hvalid
    · exact fun hvalid => ⟨_, (decode_ok_iff hlen).mpr ⟨rfl, hvalid⟩⟩
  · intro b hdr h
    obtain ⟨hfields, hvalid⟩ := decode_valid h
    have hback := decode_encode hvalid []
    rw [List.append_nil] at hback
    refine ⟨?_, hback⟩
    rw [hfields, encode_fields]
    unfold decode at h
    split_ifs at h with hshort
    exact List.length_take_of_le (not_lt.mp hshort)
  · intro b hdr h
    have hvalid := (decode_valid h).2
    refine ⟨fun i hi => ?_, hvalid.covers⟩
    obtain ⟨hat, hindex⟩ := hvalid.withIndex hi
    have hstart := hvalid.start_lt hi
    refine ⟨?_, expectedFragLen_le hat, fun hnext => ?_⟩
    · rw [expectedFragLen_eq hat, hindex]
      exact Nat.lt_min.mpr ⟨Nat.sub_pos_of_lt hstart, by decide⟩
    · rw [expectedFragLen, hindex, if_pos (show i + 1 < (hdr.withIndex i).fragCount.toNat from hnext)]
      exact (Nat.succ_mul i fragCap).symm
  · intro ip id slots h slot hslot
    obtain ⟨n, hcut, rfl⟩ := fragmentIpPacket_ok h
    obtain ⟨i, hi, rfl⟩ := List.mem_map.mp hslot
    have hi := List.mem_range.mp hi
    obtain ⟨-, -, hcount, hlen⟩ := hcut.header hi id (crc32 ip)
    refine ⟨_, hcut.decode_slotAt hi id _, hlen, ?_⟩
    rw [hcount, List.length_map, List.length_range]

end PqTunnel
