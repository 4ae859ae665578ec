import PqTunnel.Forward.Relay

/-! The relay framing is exact in both directions, and what it makes of the replies. -/
namespace PqTunnel

open ByteString

theorem addrOctets_eq (n : ℕ) (ip : BitVec (8 * n)) : addrOctets n ip = beDigits n ip.toNat := by
  rw [beDigits_eq_map, addrOctets]
  apply List.map_congr_left
  intro i _
  have hpow : 2 ^ (8 * (n - 1 - i)) = 256 ^ (n - 1 - i) := Nat.pow_mul 2 8 _
  rw [← hpow, ← Nat.shiftRight_eq_div_pow]
  rfl

/-- One more octet behind those already read. -/
theorem shift_octet (w v : ℕ) (b : UInt8) :
    BitVec.ofNat w v <<< 8 ||| b.toBitVec.setWidth w = BitVec.ofNat w (v * 256 + b.toNat) := by
  apply BitVec.eq_of_getLsbD_eq
  intro i hi
  rw [BitVec.getLsbD_or, BitVec.getLsbD_shiftLeft, BitVec.getLsbD_setWidth, BitVec.getLsbD_ofNat,
    BitVec.getLsbD_ofNat, Nat.mul_comm v, Nat.testBit_two_pow_mul_add v (i := 8) b.toNat_lt]
  by_cases h8 : i < 8
  · simp [hi, h8, BitVec.getLsbD]
  · have hhigh : b.toBitVec.getLsbD i = false := BitVec.getLsbD_of_ge _ _ (by omega)
    simp [hi, h8, hhigh, show i - 8 < w by omega]

theorem addrOfOctets_eq (n : ℕ) (l : Bytes) :
    addrOfOctets n l = BitVec.ofNat (8 * n) (beValue l) := by
  induction l using List.reverseRecOn with
  | nil => rfl
  | append_singleton l b ih =>
    rw [addrOfOctets, List.foldl_append, List.foldl_cons, List.foldl_nil, ← addrOfOctets, ih,
      beValue_snoc, shift_octet]

theorem addrOfOctets_addrOctets (n : ℕ) (ip : BitVec (8 * n)) :
    addrOfOctets n (addrOctets n ip) = ip := by
  have hpow : 256 ^ n = 2 ^ (8 * n) := (Nat.pow_mul 2 8 n).symm
  rw [addrOfOctets_eq, addrOctets_eq, beValue_beDigits, hpow, Nat.mod_eq_of_lt ip.isLt,
    BitVec.ofNat_toNat, BitVec.setWidth_eq]

theorem addrOctets_addrOfOctets {n : ℕ} {l : Bytes} (h : l.length = n) :
    addrOctets n (addrOfOctets n l) = l := by
  have hlt := beValue_lt l
  have hpow : 256 ^ n = 2 ^ (8 * n) := (Nat.pow_mul 2 8 n).symm
  have hdigits := beDigits_beValue l
  rw [h] at hdigits hlt
  rw [addrOctets_eq, addrOfOctets_eq, BitVec.toNat_ofNat, ← hpow, Nat.mod_eq_of_lt hlt, hdigits]

theorem length_addrOctets (n : ℕ) (ip : BitVec (8 * n)) : (addrOctets n ip).length = n := by
  simp [addrOctets]

/-- The largest datagram that is relayed to a destination. -/
def relayCapacity : SocketAddr → ℕ
  | .v4 _ _ => maxDatagramV4
  | .v6 _ _ _ _ => maxDatagramV6

/-- A destination as the framing carries it. -/
def SocketAddr.plain : SocketAddr → SocketAddr
  | .v4 ip port => .v4 ip port
  | .v6 ip port _ _ => .v6 ip port 0 0

/-- A family tag, an address, a port and a length in front of a datagram. -/
def relayFrame (family : UInt8) (addr : Bytes) (port : UInt16) (payload : Bytes) : Bytes :=
  family :: (addr ++ (toBe16 port ++ (toBe16 (UInt16.ofNat payload.length) ++ payload)))

theorem encodeRelay_eq (dest : SocketAddr) (payload : Bytes) :
    encodeRelay dest payload = if relayCapacity dest < payload.length then
        .error (.tooLarge (relayCapacity dest) payload.length)
      else .ok (match dest with
        | .v4 ip port => relayFrame familyIpv4 (addrOctets 4 ip) port payload
        | .v6 ip port _ _ => relayFrame familyIpv6 (addrOctets 16 ip) port payload) := by
  cases dest <;> rfl

section Frame
variable {family : UInt8} {addr payload : Bytes} {k : ℕ}

/-- Reading a frame back, with whatever stands behind it. -/
theorem relayFrame_fields (family : UInt8) (port : UInt16) (payload pad : Bytes)
    (hk : addr.length = k) :
    let msg := relayFrame family addr port payload ++ pad
    slice msg 1 k = addr ∧ slice msg (1 + k) 2 = toBe16 port ∧
      slice msg (1 + k + 2) 2 = toBe16 (UInt16.ofNat payload.length) ∧
      slice msg (1 + k + 4) payload.length = payload ∧
      msg.length = 1 + k + 4 + payload.length + pad.length ∧ ∃ rest, msg = family :: rest := by
  have hmsg : relayFrame family addr port payload ++ pad = [family] ++ (addr ++ (toBe16 port ++
      (toBe16 (UInt16.ofNat payload.length) ++ (payload ++ pad)))) := by
    simp [relayFrame]
  dsimp only
  rw [hmsg]
  refine ⟨slice_append_mid _ _ _ rfl hk.symm, ?_, ?_, ?_, ?_, _, rfl⟩
  · rw [← List.append_assoc]
    exact slice_append_mid _ _ _ (by simp [hk]; omega) (length_toBe16 _).symm
  · rw [← List.append_assoc, ← List.append_assoc]
    exact slice_append_mid _ _ _ (by simp [hk]; omega) (length_toBe16 _).symm
  · rw [← List.append_assoc, ← List.append_assoc, ← List.append_assoc]
    exact slice_append_mid _ _ _ (by simp [hk]; omega) rfl
  · simp only [List.length_append, List.length_singleton, length_toBe16, hk]
    omega

/-- A message that is long enough starts with the frame of its fields. -/
theorem relayFrame_prefix {msg rest : Bytes} {len : ℕ} (hmsg : msg = family :: rest)
    (hlen : (fromBe16 (slice msg (1 + k + 2) 2)).toNat = len)
    (hfit : 1 + k + 4 + len ≤ msg.length) :
    relayFrame family (slice msg 1 k) (fromBe16 (slice msg (1 + k) 2)) (slice msg (1 + k + 4) len)
      <+: msg := by
  have hbody : (slice msg (1 + k + 4) len).length = len := length_slice hfit
  have hport : (slice msg (1 + k) 2).length = 2 := length_slice (by omega)
  have hsize : (slice msg (1 + k + 2) 2).length = 2 := length_slice (by omega)
  have hhead : [family] = slice msg 0 1 := by rw [hmsg]; rfl
  have hall : relayFrame family (slice msg 1 k) (fromBe16 (slice msg (1 + k) 2))
      (slice msg (1 + k + 4) len) = slice msg 0 (1 + (k + (2 + (2 + len)))) := by
    rw [relayFrame, hbody, ← hlen, UInt16.ofNat_toNat, toBe16_fromBe16 hport, toBe16_fromBe16 hsize,
      ← List.singleton_append, hhead, slice_add, slice_add, slice_add, slice_add]
  rw [hall]
  exact List.take_prefix _ msg

theorem toNat_length (h : payload.length ≤ maxDatagramV4) :
    (fromBe16 (toBe16 (UInt16.ofNat payload.length))).toNat = payload.length := by
  rw [fromBe16_toBe16, UInt16.toNat_ofNat']
  exact Nat.mod_eq_of_lt (lt_of_le_of_lt h (by decide))

end Frame

variable {msg : Bytes}

theorem decodeBody_ok {p : Bytes} {addr d : SocketAddr} {hdrLen max : ℕ}
    (h : decodeBody msg addr hdrLen max = .ok (d, p)) :
    d = addr ∧ ∃ len, (fromBe16 (slice msg (hdrLen - 2) 2)).toNat = len ∧ len ≤ max ∧
      hdrLen + len ≤ msg.length ∧ p = slice msg hdrLen len := by
  simp only [decodeBody] at h
  split at h
  · cases h
  · rename_i hmax
    split at h
    · cases h
    · rename_i hfit
      cases h
      exact ⟨rfl, _, rfl, not_lt.mp hmax, not_lt.mp hfit, rfl⟩

theorem decodeBody_frame {family : UInt8} {addr payload : Bytes} {port : UInt16} {k max : ℕ}
    (hk : addr.length = k) (hcap : payload.length ≤ max) (hmax : max ≤ maxDatagramV4) (pad : Bytes)
    (d : SocketAddr) :
    decodeBody (relayFrame family addr port payload ++ pad) d (1 + k + 4) max =
      .ok (d, payload) := by
  obtain ⟨-, -, hlen, hbody, hsize, -⟩ := relayFrame_fields family port payload pad hk
  have hread := toNat_length (hcap.trans hmax)
  rw [← hlen] at hread
  have hpos : 1 + k + 4 - 2 = 1 + k + 2 := by omega
  simp only [decodeBody, hpos, hread, hbody]
  rw [if_neg (not_lt.mpr hcap), if_neg]
  rw [hsize]
  omega

theorem decodeRelay_v4 {rest : Bytes} (h : msg = familyIpv4 :: rest) :
    decodeRelay msg = if msg.length < hdrLenV4 then .error (.truncated msg.length)
      else decodeBody msg (.v4 (addrOfOctets 4 (slice msg 1 4)) (fromBe16 (slice msg 5 2)))
        hdrLenV4 maxDatagramV4 := by
  subst h
  rw [decodeRelay, if_pos rfl]

theorem decodeRelay_v6 {rest : Bytes} (h : msg = familyIpv6 :: rest) :
    decodeRelay msg = if msg.length < hdrLenV6 then .error (.truncated msg.length)
      else decodeBody msg (.v6 (addrOfOctets 16 (slice msg 1 16)) (fromBe16 (slice msg 17 2)) 0 0)
        hdrLenV6 maxDatagramV6 := by
  subst h
  rw [decodeRelay, if_neg (by decide), if_pos rfl]

/-- Whatever is encoded is decoded again, also in front of padding. -/
theorem decodeRelay_encodeRelay {dest : SocketAddr} {payload : Bytes}
    (h : encodeRelay dest payload = .ok msg) (pad : Bytes) :
    decodeRelay (msg ++ pad) = .ok (dest.plain, payload) := by
  rw [encodeRelay_eq] at h
  split at h
  · cases h
  rename_i hcap
  replace hcap := not_lt.mp hcap
  obtain rfl := Except.ok.inj h
  cases dest with
  | v4 ip port =>
    obtain ⟨haddr, hport, -, -, hsize, rest, hcons⟩ :=
      relayFrame_fields familyIpv4 port payload pad (length_addrOctets 4 ip)
    show decodeRelay (relayFrame familyIpv4 (addrOctets 4 ip) port payload ++ pad) = _
    have hlong : 9 ≤ (relayFrame familyIpv4 (addrOctets 4 ip) port payload ++ pad).length := by
      rw [hsize]
      omega
    rw [decodeRelay_v4 hcons, if_neg (not_lt.mpr hlong), haddr, hport,
      addrOfOctets_addrOctets, fromBe16_toBe16]
    exact decodeBody_frame (length_addrOctets 4 ip) hcap le_rfl pad _
  | v6 ip port flow scope =>
    obtain ⟨haddr, hport, -, -, hsize, rest, hcons⟩ :=
      relayFrame_fields familyIpv6 port payload pad (length_addrOctets 16 ip)
    show decodeRelay (relayFrame familyIpv6 (addrOctets 16 ip) port payload ++ pad) = _
    have hlong : 21 ≤ (relayFrame familyIpv6 (addrOctets 16 ip) port payload ++ pad).length := by
      rw [hsize]
      omega
    rw [decodeRelay_v6 hcons, if_neg (not_lt.mpr hlong), haddr, hport,
      addrOfOctets_addrOctets, fromBe16_toBe16]
    have hmax : maxDatagramV6 ≤ maxDatagramV4 := by decide
    exact decodeBody_frame (length_addrOctets 16 ip) hcap hmax pad _

/-- What is decoded can be encoded again, and is what the message starts with. -/
theorem encodeRelay_decodeRelay {p : Bytes} {d : SocketAddr} (h : decodeRelay msg = .ok (d, p)) :
    d.plain = d ∧ ∃ e, encodeRelay d p = .ok e ∧ e <+: msg := by
  cases hmsg : msg with
  | nil =>
    rw [hmsg] at h
    cases h
  | cons family rest =>
    rw [← hmsg]
    by_cases h4 : family = familyIpv4
    · subst h4
      rw [decodeRelay_v4 hmsg] at h
      split at h
      · cases h
      obtain ⟨rfl, len, hlen, hmax, hfit, rfl⟩ := decodeBody_ok h
      have haddr : (slice msg 1 4).length = 4 :=
        length_slice (le_trans (by decide) ((Nat.le_add_right hdrLenV4 len).trans hfit))
      refine ⟨rfl, _, ?_, relayFrame_prefix (k := 4) hmsg hlen hfit⟩
      rw [encodeRelay_eq, if_neg (by rw [length_slice hfit]; exact not_lt.mpr hmax)]
      dsimp only
      rw [addrOctets_addrOfOctets haddr]
    · by_cases h6 : family = familyIpv6
      · subst h6
        rw [decodeRelay_v6 hmsg] at h
        split at h
        · cases h
        obtain ⟨rfl, len, hlen, hmax, hfit, rfl⟩ := decodeBody_ok h
        have haddr : (slice msg 1 16).length = 16 :=
          length_slice (le_trans (by decide) ((Nat.le_add_right hdrLenV6 len).trans hfit))
        refine ⟨rfl, _, ?_, relayFrame_prefix (k := 16) hmsg hlen hfit⟩
        rw [encodeRelay_eq, if_neg (by rw [length_slice hfit]; exact not_lt.mpr hmax)]
        dsimp only
        rw [addrOctets_addrOfOctets haddr]
      · rw [hmsg, decodeRelay, if_neg h4, if_neg h6] at h
        cases h

/-- The relay framing, both ways. -/
theorem relay_exact :
    (∀ dest payload pad, dest.plain = dest → payload.length ≤ relayCapacity dest →
        ∃ msg, encodeRelay dest payload = .ok msg ∧
          decodeRelay (msg ++ pad) = .ok (dest, payload)) ∧
      (∀ dest payload, (∃ e, encodeRelay dest payload = .error e) ↔
        relayCapacity dest < payload.length) ∧
      (∀ msg dest payload, decodeRelay msg = .ok (dest, payload) →
        ∃ e, encodeRelay dest payload = .ok e ∧ e <+: msg) ∧
      ∀ msg err, decodeRelay msg = .error err →
        ∀ dest payload e pad, encodeRelay dest payload = .ok e → msg ≠ e ++ pad := by
  refine ⟨?_, ?_, fun msg dest payload h => (encodeRelay_decodeRelay h).2, ?_⟩
  · intro dest payload pad hplain hcap
    have henc := encodeRelay_eq dest payload
    rw [if_neg (not_lt.mpr hcap)] at henc
    refine ⟨_, henc, ?_⟩
    rw [decodeRelay_encodeRelay henc, hplain]
  · intro dest payload
    rw [encodeRelay_eq]
    split
    · rename_i hlarge
      exact ⟨fun _ => hlarge, fun _ => ⟨_, rfl⟩⟩
    · rename_i hfit
      refine ⟨fun h => ?_, fun h => absurd h hfit⟩
      obtain ⟨e, he⟩ := h
      cases he
  · rintro msg err herr dest payload e pad henc rfl
    rw [decodeRelay_encodeRelay henc] at herr
    cases herr

end PqTunnel
