import PqTunnel.Dataplane.Integrity

/-! The checksum of a datagram. The table-driven computation is the serial one, which divides the
message bit by bit. The division is linear and injective, so no error within four bytes goes
unnoticed. -/
namespace PqTunnel

section Division

theorem crc32Bit_eq (crc : UInt32) :
    crc32Bit crc = (crc >>> 1) ^^^ (if crc.toNat.testBit 0 then 0xEDB88320 else 0) := by
  have hlow : crc &&& 1 = 1 ↔ crc.toNat.testBit 0 = true := by
    rw [← UInt32.toNat_inj, UInt32.toNat_and, Nat.testBit_zero, decide_eq_true_iff]
    simp
  rw [crc32Bit]
  simp only [hlow]
  split_ifs <;> simp

theorem xor_pair (a b c d : UInt32) : (a ^^^ b) ^^^ (c ^^^ d) = (a ^^^ c) ^^^ (b ^^^ d) := by ac_rfl

/-- A bit of the division is linear. -/
theorem crc32Bit_xor (x y : UInt32) : crc32Bit (x ^^^ y) = crc32Bit x ^^^ crc32Bit y := by
  rw [crc32Bit_eq, crc32Bit_eq, crc32Bit_eq, UInt32.shiftRight_xor, UInt32.toNat_xor,
    Nat.testBit_xor, xor_pair (x >>> 1)]
  cases x.toNat.testBit 0 <;> cases y.toNat.testBit 0 <;> simp

theorem crc32Bits_xor (n : ℕ) (x y : UInt32) :
    crc32Bit^[n] (x ^^^ y) = crc32Bit^[n] x ^^^ crc32Bit^[n] y := by
  induction n generalizing x y with
  | zero => rfl
  | succ n ih => rw [Function.iterate_succ_apply, crc32Bit_xor, ih]; rfl

theorem crc32Bit_injective : Function.Injective crc32Bit := by
  intro x y h
  have hzero : crc32Bit (x ^^^ y) = 0 := by rw [crc32Bit_xor, h, UInt32.xor_self]
  rw [← UInt32.xor_eq_zero_iff]
  generalize x ^^^ y = z at hzero
  rw [crc32Bit_eq, UInt32.xor_eq_zero_iff, ← UInt32.toNat_inj, UInt32.toNat_shiftRight] at hzero
  have hlt := z.toNat_lt
  rw [← UInt32.toNat_inj]
  simp [Nat.shiftRight_eq_div_pow, Nat.testBit_zero] at hzero ⊢
  split_ifs at hzero <;> simp at hzero <;> omega

theorem toNat_ofNat_of_lt {n : ℕ} (h : n < 2 ^ 32) : (UInt32.ofNat n).toNat = n :=
  UInt32.toNat_ofNat_of_lt h

theorem crc32Bit_even {n : ℕ} (h : n < 2 ^ 31) :
    crc32Bit (UInt32.ofNat (2 * n)) = UInt32.ofNat n := by
  rw [crc32Bit_eq, toNat_ofNat_of_lt (by omega), Nat.testBit_zero, decide_eq_false (by omega)]
  simp only [Bool.false_eq_true, if_false, UInt32.xor_zero]
  rw [← UInt32.toNat_inj, UInt32.toNat_shiftRight, toNat_ofNat_of_lt (by omega),
    toNat_ofNat_of_lt (by omega)]
  simp [Nat.shiftRight_eq_div_pow]

theorem crc32Bits_shifted {n k : ℕ} (h : n * 2 ^ k < 2 ^ 32) :
    crc32Bit^[k] (UInt32.ofNat (n * 2 ^ k)) = UInt32.ofNat n := by
  induction k with
  | zero => simp
  | succ k ih =>
    rw [pow_succ, ← mul_assoc] at h
    rw [Function.iterate_succ_apply, pow_succ, ← mul_assoc, mul_comm _ 2,
      crc32Bit_even (by omega), ih (by omega)]

theorem ofNat_low (k : ℕ) {n : ℕ} (h : n < 2 ^ 8) :
    UInt32.ofNat (k * 2 ^ 8 + n) = UInt32.ofNat (k * 2 ^ 8) ^^^ UInt32.ofNat n := by
  rw [← UInt32.ofNat_xor]
  congr 1
  apply Nat.eq_of_testBit_eq
  intro i
  rw [Nat.testBit_xor, Nat.testBit_mul_two_pow, mul_comm, Nat.testBit_two_pow_mul_add k h]
  split_ifs with hi
  · simp [not_le.mpr hi]
  · have hhigh : n.testBit i = false :=
      Nat.testBit_lt_two_pow (h.trans_le (Nat.pow_le_pow_right (by decide) (not_lt.mp hi)))
    simp [not_lt.mp hi, hhigh]

/-- A step of the table divides by eight bits. -/
theorem crc32_step (crc : UInt32) (b : UInt8) :
    (crc >>> 8) ^^^ crc32Table.getD ((crc ^^^ b.toUInt32) &&& 0xFF).toNat 0 =
      crc32Bit^[8] (crc ^^^ b.toUInt32) := by
  have hshift : crc >>> 8 = (crc ^^^ b.toUInt32) >>> 8 := by
    have hb : b.toUInt32 >>> 8 = 0 := by
      rw [← UInt32.toNat_inj, UInt32.toNat_shiftRight, UInt8.toNat_toUInt32]
      simpa [Nat.shiftRight_eq_div_pow] using b.toNat_lt
    rw [UInt32.shiftRight_xor, hb, UInt32.xor_zero]
  rw [hshift]
  generalize crc ^^^ b.toUInt32 = x
  have hx := x.toNat_lt
  have hlow : x.toNat % 2 ^ 8 < 2 ^ 8 := Nat.mod_lt _ (by decide)
  have hindex : (x &&& 0xFF).toNat = x.toNat % 2 ^ 8 :=
    (UInt32.toNat_and ..).trans (Nat.and_two_pow_sub_one_eq_mod _ 8)
  have hquot : x >>> 8 = UInt32.ofNat (x.toNat / 2 ^ 8) := by
    rw [← UInt32.toNat_inj, toNat_ofNat_of_lt (by omega), UInt32.toNat_shiftRight]
    simp [Nat.shiftRight_eq_div_pow]
  have hsplit := ofNat_low (x.toNat / 2 ^ 8) hlow
  rw [Nat.div_add_mod', UInt32.ofNat_toNat] at hsplit
  conv_rhs => rw [hsplit, crc32Bits_xor, crc32Bits_shifted (by omega)]
  rw [hquot, hindex, crc32Table, List.getD_eq_getElem?_getD, List.getElem?_map,
    List.getElem?_range (show x.toNat % 2 ^ 8 < 256 from hlow), Option.map_some, Option.getD_some]

/-- The register after one more byte of the message. -/
def crc32Byte (crc : UInt32) (b : UInt8) : UInt32 := crc32Bit^[8] (crc ^^^ b.toUInt32)

theorem crc32_eq_bytes (data : Bytes) :
    crc32 data = data.foldl crc32Byte 0xFFFFFFFF ^^^ 0xFFFFFFFF := by
  simp only [crc32, crc32_step]
  rfl

theorem crc32Byte_injective (b : UInt8) : Function.Injective (crc32Byte · b) := fun _ _ h =>
  (UInt32.xor_left_inj _).mp (crc32Bit_injective.iterate 8 h)

theorem bytes_injective (data : Bytes) :
    Function.Injective (data.foldl crc32Byte · : UInt32 → UInt32) := by
  induction data with
  | nil => exact fun _ _ h => h
  | cons b data ih => exact fun _ _ h => crc32Byte_injective b (ih h)

end Division

section Serial

/-- The register after one more bit of the message. -/
def serialBit (crc : UInt32) (bit : Bool) : UInt32 :=
  if crc.toNat.testBit 0 ^^ bit then (crc >>> 1) ^^^ 0xEDB88320 else crc >>> 1

/-- The bits of a byte, the lowest first. -/
def byteBits (b : UInt8) : List Bool := (List.range 8).map b.toNat.testBit

/-- The reflected CRC-32, one bit after the other. -/
def crc32Serial (data : Bytes) : UInt32 :=
  (data.flatMap byteBits).foldl serialBit 0xFFFFFFFF ^^^ 0xFFFFFFFF

theorem serialBit_xor (crc crc' : UInt32) (bit : Bool) :
    serialBit (crc ^^^ crc') bit = crc32Bit crc ^^^ serialBit crc' bit := by
  have hbit : ∀ x, serialBit x bit = crc32Bit x ^^^ (if bit then 0xEDB88320 else 0) := by
    intro x
    rw [crc32Bit_eq, serialBit]
    cases bit <;> cases x.toNat.testBit 0 <;> simp [UInt32.xor_assoc]
  rw [hbit, hbit, crc32Bit_xor, UInt32.xor_assoc]

theorem serial_xor (bits : List Bool) (crc crc' : UInt32) :
    bits.foldl serialBit (crc ^^^ crc') = crc32Bit^[bits.length] crc ^^^ bits.foldl serialBit crc' := by
  induction bits generalizing crc crc' with
  | nil => rfl
  | cons bit bits ih => rw [List.foldl_cons, serialBit_xor, ih]; rfl

theorem serial_byte (crc : UInt32) (b : UInt8) :
    (byteBits b).foldl serialBit crc = crc32Byte crc b := by
  have hall : ∀ n < 256, (byteBits (UInt8.ofNat n)).foldl serialBit 0 =
      crc32Bit^[8] (UInt8.ofNat n).toUInt32 := by decide +kernel
  have hb := hall b.toNat b.toNat_lt
  have hsplit := serial_xor (byteBits b) crc 0
  rw [UInt8.ofNat_toNat] at hb
  rw [UInt32.xor_zero, hb, byteBits, List.length_map, List.length_range] at hsplit
  rw [crc32Byte, crc32Bits_xor]
  exact hsplit

theorem crc32_eq_serial (data : Bytes) : crc32 data = crc32Serial data := by
  have hfold : ∀ crc : UInt32,
      (data.flatMap byteBits).foldl serialBit crc = data.foldl crc32Byte crc := by
    induction data with
    | nil => exact fun _ => rfl
    | cons b data ih =>
      intro crc
      rw [List.flatMap_cons, List.foldl_append, serial_byte, ih, List.foldl_cons]
  rw [crc32_eq_bytes, crc32Serial, hfold]

end Serial

section Window

/-- The number that the bytes write, the lowest first. -/
def bytesVal : Bytes → ℕ
  | [] => 0
  | b :: w => b.toNat + bytesVal w * 2 ^ 8

theorem bytesVal_lt (w : Bytes) : bytesVal w < 2 ^ (8 * w.length) := by
  induction w with
  | nil => simp [bytesVal]
  | cons b w ih =>
    have hb := b.toNat_lt
    rw [bytesVal, List.length_cons, Nat.mul_succ, pow_add]
    omega

theorem bytesVal_inj {w w' : Bytes} (hlen : w.length = w'.length)
    (h : bytesVal w = bytesVal w') : w = w' := by
  induction w generalizing w' with
  | nil => exact (List.length_eq_zero_iff.mp hlen.symm).symm
  | cons b w ih =>
    cases w' with
    | nil => cases hlen
    | cons b' w' =>
      have hb := b.toNat_lt
      have hb' := b'.toNat_lt
      rw [bytesVal, bytesVal] at h
      rw [UInt8.toNat_inj.mp (show b.toNat = b'.toNat by omega), ih (Nat.succ.inj hlen) (by omega)]

/-- Up to four bytes can be fed one by one, or added first and divided at once. -/
theorem bytes_eq (crc : UInt32) {w : Bytes} (h : w.length ≤ 4) :
    w.foldl crc32Byte crc = crc32Bit^[8 * w.length] (crc ^^^ UInt32.ofNat (bytesVal w)) := by
  induction w generalizing crc with
  | nil => simp [bytesVal]
  | cons b w ih =>
    have hlt : bytesVal w * 2 ^ 8 < 2 ^ 32 := by
      have hpow : 2 ^ (8 * w.length) ≤ 2 ^ 24 := Nat.pow_le_pow_right (by decide) (by
        rw [List.length_cons] at h
        omega)
      have hval := bytesVal_lt w
      omega
    have hval : UInt32.ofNat (bytesVal (b :: w)) =
        b.toUInt32 ^^^ UInt32.ofNat (bytesVal w * 2 ^ 8) := by
      rw [bytesVal, add_comm, ofNat_low _ b.toNat_lt, UInt32.xor_comm]
      simp
    rw [List.foldl_cons, ih _ (Nat.le_of_succ_le h), crc32Byte, ← crc32Bits_shifted hlt,
      ← crc32Bits_xor, UInt32.xor_assoc, ← hval, ← Function.iterate_add_apply]
    rfl

/-- Two strings of one length that differ within four bytes in a row have different checksums. -/
theorem crc32_ne_of_window {data data' : Bytes} {i : ℕ} (hlen : data.length = data'.length)
    (hne : data ≠ data') (hbefore : data.take i = data'.take i)
    (hafter : data.drop (i + 4) = data'.drop (i + 4)) : crc32 data ≠ crc32 data' := by
  intro hcrc
  have hsplit : ∀ l : Bytes, l = l.take i ++ ((l.drop i).take 4 ++ l.drop (i + 4)) := by
    intro l
    rw [← List.drop_drop, List.take_append_drop, List.take_append_drop]
  have hwlen : ((data.drop i).take 4).length = ((data'.drop i).take 4).length := by
    simp only [List.length_take, List.length_drop, hlen]
  have hshort : ∀ l : Bytes, ((l.drop i).take 4).length ≤ 4 := fun l => List.length_take_le ..
  apply hne
  rw [crc32_eq_bytes, crc32_eq_bytes, UInt32.xor_left_inj, hsplit data, hsplit data', hbefore,
    hafter] at hcrc
  simp only [List.foldl_append] at hcrc
  have hwindow := bytes_injective _ hcrc
  rw [bytes_eq _ (hshort data), bytes_eq _ (hshort data'), hwlen] at hwindow
  have hval := (UInt32.xor_right_inj _).mp (crc32Bit_injective.iterate _ hwindow)
  have hsmall : ∀ l : Bytes, bytesVal ((l.drop i).take 4) < 2 ^ 32 := fun l =>
    (bytesVal_lt _).trans_le (Nat.pow_le_pow_right (by decide) (Nat.mul_le_mul_left 8 (hshort l)))
  rw [← UInt32.toNat_inj, toNat_ofNat_of_lt (hsmall data), toNat_ofNat_of_lt (hsmall data')] at hval
  rw [hsplit data, hsplit data', hbefore, hafter, bytesVal_inj hwlen hval]

end Window

/-- The checksum is the serial CRC-32, it tells apart any two strings of one length that differ
within four bytes in a row, and so the reassembler completes no packet that differs in that way from
the packet its checksum was computed over. -/
theorem crc32_detects_windows :
    (∀ data, crc32 data = crc32Serial data) ∧
    (∀ (data data' : Bytes) (i : ℕ), data.length = data'.length → data ≠ data' →
      data.take i = data'.take i → data.drop (i + 4) = data'.drop (i + 4) →
      crc32 data ≠ crc32 data') ∧
    ∀ (deadline maxEntries maxBytes now : ℕ) (ops : List Reassembler.Op) (slot : Payload)
      (hdr : OverlayHeader) (b ip : Bytes) (i : ℕ),
      (((Reassembler.withCaps deadline maxEntries maxBytes).run ops).feed slot now).1 =
        .complete b →
      OverlayHeader.decode slot.toList = .ok hdr → hdr.datagramCrc = crc32 ip →
      b.length = ip.length → b.take i = ip.take i → b.drop (i + 4) = ip.drop (i + 4) →
      b = ip := by
  refine ⟨crc32_eq_serial, fun data data' i => crc32_ne_of_window, ?_⟩
  intro deadline maxEntries maxBytes now ops slot hdr b ip i h hdecode hcrc hlen hbefore hafter
  obtain ⟨hdr', e, e', hdecode', hbacked, haccepts⟩ := Reassembler.complete_accepts h
  obtain rfl : hdr = hdr' := Except.ok.inj (hdecode.symm.trans hdecode')
  obtain ⟨-, hsame, -⟩ := Reassembler.completed_pieces hbacked hdecode haccepts
  by_contra hne
  exact crc32_ne_of_window hlen hne hbefore hafter (hsame.trans hcrc)

end PqTunnel
