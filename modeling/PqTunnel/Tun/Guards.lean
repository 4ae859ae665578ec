import PqTunnel.Tun.Policy

/-! What the server's checks of an inner packet amount to, and how the guards of the relay and of
the TUN path contain each other. -/
namespace PqTunnel
open ByteString

section Verdict

def ipVersion (pkt : Bytes) : UInt8 := pkt.getD 0 0 >>> 4

def ipv4HeaderLen (pkt : Bytes) : ℕ := (pkt.getD 0 0 &&& 0x0F).toNat * 4

def fragmentOffset (pkt : Bytes) : ℕ := (fromBe16 (slice pkt 6 2)).toNat % 2 ^ 13

def isTransport (protocol : UInt8) : Bool := decide (protocol = 6 ∨ protocol = 17)

/-- The IPv6 headers that another header follows. -/
def isExtension (next : UInt8) : Bool :=
  decide (next = 0 ∨ next = 43 ∨ next = 44 ∨ next = 51 ∨ next = 60)

/-- The position of the transport header behind the extension headers of an IPv6 packet; a fragment
other than the first has none. -/
def transportBehind (pkt : Bytes) : ℕ → UInt8 → ℕ → Option ℕ
  | 0, _, _ => none
  | headers + 1, next, start =>
    let units := (pkt.getD (start + 1) 0).toNat
    if isTransport next then some start
    else if isExtension next = false then none
    else if next = 44 then
      if 8 ≤ (fromBe16 (slice pkt (start + 2) 2)).toNat then none
      else transportBehind pkt headers (pkt.getD start 0) (start + 8)
    else if next = 51 then transportBehind pkt headers (pkt.getD start 0) (start + (units + 2) * 4)
    else transportBehind pkt headers (pkt.getD start 0) (start + (units + 1) * 8)

/-- The position of the TCP or UDP header that a packet carries. -/
def transportAt (pkt : Bytes) : Option ℕ :=
  if ipVersion pkt = 4 then
    if fragmentOffset pkt = 0 ∧ isTransport (pkt.getD 9 0) then some (ipv4HeaderLen pkt) else none
  else transportBehind pkt pkt.length (pkt.getD 6 0) 40

/-- The octets of a destination port at a position, all zero. -/
def ZeroPortAt (pkt : Bytes) (start : ℕ) : Prop :=
  start + 4 ≤ pkt.length ∧ fromBe16 (slice pkt (start + 2) 2) = 0

def CarriesPortZero (pkt : Bytes) : Prop :=
  ∃ start, transportAt pkt = some start ∧ ZeroPortAt pkt start

/-- A packet of exactly its declared length, as long as the data plane takes it. -/
def WellFormed (pkt : Bytes) : Prop :=
  (ipVersion pkt = 4 ∧ 20 ≤ ipv4HeaderLen pkt ∧ ipv4HeaderLen pkt ≤ pkt.length ∧
    (fromBe16 (slice pkt 2 2)).toNat = pkt.length) ∨
  (ipVersion pkt = 6 ∧ 40 + (fromBe16 (slice pkt 4 2)).toNat = pkt.length ∧
    pkt.length ≤ maxIpPacketLen)

/-- The address of a packet of either family. -/
def addressAt (at4 at6 : ℕ) (pkt : Bytes) : IpAddr :=
  if ipVersion pkt = 4 then .v4 (ipv4At pkt at4) else .v6 (ipv6At pkt at6)

/-- A mapped address counts as the IPv4 address inside. -/
def IpAddr.unmapped : IpAddr → IpAddr
  | .v4 ip => .v4 ip
  | .v6 ip =>
    match Ipv6Addr.toIpv4Mapped ip with
    | some inner => .v4 inner
    | none => .v6 ip

/-- What the server is meant to let in. -/
structure Permitted (pkt : Bytes) (assignment : ClientAssignment) : Prop where
  wellFormed : WellFormed pkt
  source : (addressAt 12 8 pkt).unmapped = .v4 assignment.v4 ∨
    (addressAt 12 8 pkt).unmapped = .v6 assignment.v6
  destination : isDeniedDestination (addressAt 16 24 pkt) = false
  port : ¬ CarriesPortZero pkt

/-- Where the check of the port looks at other octets than those of a port, or at none: zeros in the
payload of an IPv4 fragment that is not the first, and a port of zero behind IPv6 extension
headers. -/
def PortMisread (pkt : Bytes) : Prop :=
  (ipVersion pkt = 4 ∧ fragmentOffset pkt ≠ 0 ∧ isTransport (pkt.getD 9 0) ∧
    ZeroPortAt pkt (ipv4HeaderLen pkt)) ∨
  (ipVersion pkt = 6 ∧ isExtension (pkt.getD 6 0) ∧ CarriesPortZero pkt)

variable {pkt : Bytes} {assignment : ClientAssignment}

theorem validateIpPacket_iff : (∃ n, validateIpPacket pkt = .ok n) ↔ WellFormed pkt := by
  have h16 := (fromBe16 (slice pkt 2 2)).toNat_lt
  have hmax : maxIpPacketLen = 65535 := rfl
  have hempty : pkt.length = 0 → pkt.getD 0 0 >>> 4 = 0 := by
    intro h0
    rw [List.length_eq_zero_iff.mp h0]
    rfl
  unfold validateIpPacket declaredIpLen WellFormed ipVersion ipv4HeaderLen
  dsimp only
  rw [hmax]
  generalize pkt.getD 0 0 >>> 4 = version at hempty ⊢
  generalize (pkt.getD 0 0 &&& 0x0F).toNat * 4 = ihl
  generalize (fromBe16 (slice pkt 2 2)).toNat = total at h16 ⊢
  generalize (fromBe16 (slice pkt 4 2)).toNat = payload
  generalize pkt.length = n at hempty ⊢
  by_cases h0 : n = 0
  · rw [if_pos h0, hempty h0]
    simp
  · rw [if_neg h0]
    by_cases h4 : version = 4
    · subst h4
      simp only [if_true, show ¬ (4 : UInt8) = 6 by decide, true_and, false_and, or_false]
      by_cases hlen : total = n <;> split_ifs <;> simp [hlen] <;> omega
    · by_cases h6 : version = 6
      · subst h6
        simp only [h4, if_false, if_true, true_and, false_and, false_or]
        by_cases hlen : 40 + payload = n <;> split_ifs <;> simp [hlen] <;> omega
      · simp [h4, h6]

theorem WellFormed.length (h : WellFormed pkt) : 20 ≤ pkt.length ∧
    (ipVersion pkt ≠ 4 → ipVersion pkt = 6 ∧ 40 ≤ pkt.length) := by
  rcases h with ⟨h4, hihl, hle, -⟩ | ⟨h6, hlen, -⟩
  · exact ⟨hihl.trans hle, fun hne => absurd h4 hne⟩
  · exact ⟨by omega, fun _ => ⟨h6, by omega⟩⟩

theorem extractIp_eq (h : WellFormed pkt) (at4 at6 : ℕ) :
    extractIp at4 at6 pkt = some (addressAt at4 at6 pkt) := by
  obtain ⟨h20, h6⟩ := h.length
  unfold extractIp addressAt
  unfold ipVersion at h6 ⊢
  rw [if_neg (by omega)]
  by_cases h4 : pkt.getD 0 0 >>> 4 = 4
  · rw [if_pos h4, if_pos h4, if_neg (by omega)]
  · obtain ⟨h6, h40⟩ := h6 h4
    rw [if_neg h4, if_neg h4, if_pos h6, if_neg (by omega)]

theorem sourceAllowed_iff (src : IpAddr) : sourceAllowed src assignment = true ↔
    src.unmapped = .v4 assignment.v4 ∨ src.unmapped = .v6 assignment.v6 := by
  cases src with
  | v4 ip => simp [sourceAllowed, IpAddr.unmapped]
  | v6 ip =>
    unfold sourceAllowed IpAddr.unmapped
    dsimp only
    cases Ipv6Addr.toIpv4Mapped ip <;> simp

theorem extractDstPort_zero_iff (h : WellFormed pkt) : extractDstPort pkt = some 0 ↔
    ∃ start, ZeroPortAt pkt start ∧
      (ipVersion pkt = 4 ∧ isTransport (pkt.getD 9 0) ∧ start = ipv4HeaderLen pkt ∨
        ipVersion pkt = 6 ∧ isTransport (pkt.getD 6 0) ∧ start = 40) := by
  have h20 := h.length.1
  unfold extractDstPort ZeroPortAt isTransport
  simp only [decide_eq_true_eq]
  rw [if_neg (by omega)]
  rcases h with ⟨h4, hihl, -, -⟩ | ⟨h6, hlen, -⟩
  · simp only [h4, show ¬ (4 : UInt8) = 6 by decide, false_and, or_false, true_and]
    unfold ipVersion at h4
    unfold ipv4HeaderLen at hihl ⊢
    simp only [h4, if_true, if_neg (show ¬ pkt.length < 20 by omega)]
    generalize (pkt.getD 0 0 &&& 0x0F).toNat * 4 = ihl at hihl ⊢
    split_ifs with hshort hproto
    · refine iff_of_false (by simp) ?_
      rintro ⟨start, ⟨hfit, -⟩, -, rfl⟩
      omega
    · refine iff_of_false (by simp) ?_
      rintro ⟨start, -, hport, -⟩
      tauto
    · have hport : pkt.getD 9 0 = 6 ∨ pkt.getD 9 0 = 17 := by tauto
      constructor
      · intro hzero
        exact ⟨ihl, ⟨by omega, Option.some.inj hzero⟩, hport, rfl⟩
      · rintro ⟨start, ⟨-, hzero⟩, -, rfl⟩
        rw [hzero]
  · simp only [h6, show ¬ (6 : UInt8) = 4 by decide, false_and, false_or, true_and]
    unfold ipVersion at h6
    simp only [h6, show ¬ (6 : UInt8) = 4 by decide, if_false, if_true,
      if_neg (show ¬ pkt.length < 40 by omega)]
    split_ifs with hproto hshort
    · refine iff_of_false (by simp) ?_
      rintro ⟨start, -, hport, -⟩
      tauto
    · refine iff_of_false (by simp) ?_
      rintro ⟨start, ⟨hfit, -⟩, -, rfl⟩
      omega
    · have hport : pkt.getD 6 0 = 6 ∨ pkt.getD 6 0 = 17 := by tauto
      constructor
      · intro hzero
        exact ⟨40, ⟨by omega, Option.some.inj hzero⟩, hport, rfl⟩
      · rintro ⟨start, ⟨-, hzero⟩, -, rfl⟩
        rw [hzero]

/-- Away from the misread packets the extracted port is zero exactly where there is one. -/
theorem extractDstPort_iff (h : WellFormed pkt) (hread : ¬ PortMisread pkt) :
    extractDstPort pkt = some 0 ↔ CarriesPortZero pkt := by
  obtain ⟨h20, hv6⟩ := h.length
  rw [extractDstPort_zero_iff h]
  constructor
  · rintro ⟨start, hzero, ⟨h4, htransport, rfl⟩ | ⟨h6, htransport, rfl⟩⟩
    · refine ⟨_, ?_, hzero⟩
      have hfirst : fragmentOffset pkt = 0 := by
        by_contra hoffset
        exact hread (Or.inl ⟨h4, hoffset, htransport, hzero⟩)
      rw [transportAt, if_pos h4, if_pos ⟨hfirst, htransport⟩]
    · refine ⟨_, ?_, hzero⟩
      obtain ⟨n, hn⟩ := Nat.exists_eq_succ_of_ne_zero (show pkt.length ≠ 0 by omega)
      rw [transportAt, if_neg (by rw [h6]; decide), hn, transportBehind, if_pos htransport]
  · rintro ⟨start, hat, hzero⟩
    refine ⟨start, hzero, ?_⟩
    have hcarries : CarriesPortZero pkt := ⟨start, hat, hzero⟩
    unfold transportAt at hat
    split at hat
    · rename_i h4
      split at hat
      · rename_i hfirst
        exact Or.inl ⟨h4, hfirst.2, (Option.some.inj hat).symm⟩
      · cases hat
    · rename_i h4
      obtain ⟨h6, -⟩ := hv6 h4
      obtain ⟨n, hn⟩ := Nat.exists_eq_succ_of_ne_zero (show pkt.length ≠ 0 by omega)
      -- behind a header that is neither transport nor extension there is nothing
      have hext : isExtension (pkt.getD 6 0) = false := by
        rw [← Bool.not_eq_true]
        exact fun hext => hread (Or.inr ⟨h6, hext, hcarries⟩)
      rw [hn, transportBehind] at hat
      by_cases htransport : isTransport (pkt.getD 6 0) = true
      · rw [if_pos htransport] at hat
        exact Or.inr ⟨h6, htransport, (Option.some.inj hat).symm⟩
      · rw [if_neg htransport, if_pos hext] at hat
        cases hat

/-- A UDP datagram of the client to 8.8.8.8; `offset` is its fragment offset. -/
def sampleUdp (offset port : UInt8) : Bytes :=
  [0x45, 0, 0, 28, 0, 0, 0, offset, 64, 17, 0, 0, 10, 77, 0, 2, 8, 8, 8, 8] ++
    [0, 7, 0, port, 0, 8, 0, 0]

/-- A first fragment of the client with a UDP header behind the IPv6 Fragment header; its port is
zero. -/
def sampleFragment6 : Bytes :=
  [0x60, 0, 0, 0, 0, 16, 44, 64, 0xFD, 0, 0, 0x77, 0, 0, 0, 0, 0, 0, 0, 0, 0, 0, 0, 2] ++
    [0x26, 0, 0, 0, 0, 0, 0, 0, 0, 0, 0, 0, 0, 0, 0, 1] ++
    [17, 0, 0, 1, 0, 0, 0, 9] ++ [0, 7, 0, 0, 0, 8, 0, 0]

end Verdict

section Containment

def Ipv4Addr.toIpv6Mapped (a : Ipv4Addr) : Ipv6Addr := 0xFFFF#96 ++ a

def Ipv4Addr.toIpv6Compatible (a : Ipv4Addr) : Ipv6Addr := 0#96 ++ a

def SocketAddr.ipAddr : SocketAddr → IpAddr
  | .v4 ip _ => .v4 ip
  | .v6 ip _ _ _ => .v6 ip

def SocketAddr.port : SocketAddr → UInt16
  | .v4 _ port => port
  | .v6 _ port _ _ => port

variable {ip : Ipv6Addr} {a : Ipv4Addr}

theorem Ipv6Addr.segment_zero (ip : Ipv6Addr) :
    segment ip 0 = ⟨(ip.extractLsb' 32 96).extractLsb' 80 16⟩ := by
  unfold segment
  congr 1
  ext i hi
  simp only [BitVec.getElem_extractLsb', BitVec.getLsbD_extractLsb', ← Nat.add_assoc]
  simp [show 80 + i < 96 by omega]

theorem Egress.embeddedIpv4_append {upper : BitVec 96} (hupper : upper = 0xFFFF ∨ upper = 0) :
    embeddedIpv4 (upper ++ a) = some a := by
  have hhigh : (upper ++ a).extractLsb' 32 96 = upper := BitVec.extractLsb'_append_eq_left
  have hlow : Ipv6Addr.low (upper ++ a) = a := BitVec.extractLsb'_append_eq_right
  unfold embeddedIpv4 Ipv6Addr.toIpv4Mapped
  rw [hhigh, hlow]
  rcases hupper with rfl | rfl <;> rfl

theorem Egress.segment_of_embedded (h : embeddedIpv4 ip = some a) : Ipv6Addr.segment ip 0 = 0 := by
  unfold embeddedIpv4 Ipv6Addr.toIpv4Mapped at h
  rw [Ipv6Addr.segment_zero]
  by_cases hmapped : ip.extractLsb' 32 96 = 0xFFFF
  · rw [hmapped]
    decide
  · by_cases hcompatible : ip.extractLsb' 32 96 = 0
    · rw [hcompatible]
      decide
    · rw [if_neg hmapped, if_neg hcompatible] at h
      cases h

theorem Egress.not_multicast_of_embedded (h : embeddedIpv4 ip = some a) :
    Ipv6Addr.isMulticast ip = false := by
  unfold Ipv6Addr.isMulticast
  rw [segment_of_embedded h]
  decide

theorem isDeniedIpv4_of_refused (h : (Egress.denyIpv4 a .denyUnsafe).isSome) :
    isDeniedIpv4 a = true := by
  unfold Egress.denyIpv4 at h
  unfold isDeniedIpv4
  split_ifs at h with himds halibaba hloopback hnet hmulti hbroadcast
  · simp [himds]
  · simp [halibaba]
  · simp [hloopback.1]
  · simp [hnet]
  · simp [hmulti]
  · simp [of_decide_eq_true hbroadcast]
  · cases h

theorem isDenied_of_refused (h : (Egress.denyIpv6 ip .denyUnsafe).isSome) :
    isDeniedDestination (.v6 ip) = true := by
  unfold Egress.denyIpv6 at h
  split_ifs at h with haws hgcp hloopback hpolicy hunspecified hmulti
  · subst haws
    decide
  · subst hgcp
    decide
  · rw [of_decide_eq_true hloopback]
    decide
  · exact absurd rfl hpolicy
  · rw [of_decide_eq_true hunspecified]
    decide
  · cases hembedded : Egress.embeddedIpv4 ip with
    | none => simp [isDeniedDestination, hembedded, isDeniedIpv6, hmulti]
    | some v4 =>
      rw [Egress.not_multicast_of_embedded hembedded] at hmulti
      cases hmulti
  · cases hembedded : Egress.embeddedIpv4 ip with
    | none =>
      rw [hembedded] at h
      cases h
    | some v4 =>
      rw [hembedded] at h
      simpa only [isDeniedDestination, hembedded] using isDeniedIpv4_of_refused h

theorem Egress.denyIpv6_mapped (a : Ipv4Addr) (policy : EgressPolicy) :
    denyIpv6 a.toIpv6Mapped policy = denyIpv4 a policy := by
  have hembedded : embeddedIpv4 a.toIpv6Mapped = some a := embeddedIpv4_append (Or.inl rfl)
  -- none of the addresses checked first has the upper bits of a mapped one
  have hne : ∀ {other : Ipv6Addr}, other.extractLsb' 32 96 ≠ 0xFFFF → a.toIpv6Mapped ≠ other := by
    rintro other hother rfl
    exact hother BitVec.extractLsb'_append_eq_left
  unfold denyIpv6
  rw [if_neg (hne (by decide)), if_neg (hne (by decide)), if_neg, if_neg, if_neg, hembedded]
  · rw [not_multicast_of_embedded hembedded]
    decide
  · exact fun h => hne (by decide) (of_decide_eq_true h)
  · exact fun h => hne (by decide) (of_decide_eq_true h)

theorem Egress.denyIpv6_compatible (h : (denyIpv4 a .denyUnsafe).isSome) :
    (denyIpv6 a.toIpv6Compatible .denyUnsafe).isSome := by
  have hembedded : embeddedIpv4 a.toIpv6Compatible = some a := embeddedIpv4_append (Or.inr rfl)
  unfold denyIpv6
  rw [hembedded, if_pos (show EgressPolicy.denyUnsafe = .denyUnsafe from rfl)]
  split_ifs
  all_goals first | rfl | exact h

/-- What the relay refuses, the TUN path refuses; a mapped address has the verdict of the IPv4 host,
and a compatible one is refused with it. -/
theorem guards_contained :
    (∀ dest : SocketAddr, dest.port ≠ 0 → (Egress.denyReason dest .denyUnsafe).isSome →
      isDeniedDestination dest.ipAddr = true) ∧
    (∀ (a : Ipv4Addr) (port : UInt16) (policy : EgressPolicy) (flowinfo scope : UInt32),
      Egress.denyReason (.v6 a.toIpv6Mapped port flowinfo scope) policy =
        Egress.denyReason (.v4 a port) policy) ∧
    (∀ (a : Ipv4Addr) (port : UInt16) (flowinfo scope : UInt32),
      (Egress.denyReason (.v4 a port) .denyUnsafe).isSome →
        (Egress.denyReason (.v6 a.toIpv6Compatible port flowinfo scope) .denyUnsafe).isSome) := by
  refine ⟨fun dest hport hrefused => ?_, fun a port policy flowinfo scope => ?_,
    fun a port flowinfo scope hrefused => ?_⟩
  · cases dest with
    | v4 ip port =>
      rw [Egress.denyReason, if_neg (show ¬ port = 0 from hport)] at hrefused
      exact isDeniedIpv4_of_refused hrefused
    | v6 ip port flowinfo scope =>
      rw [Egress.denyReason, if_neg (show ¬ port = 0 from hport)] at hrefused
      exact isDenied_of_refused hrefused
  · simp only [Egress.denyReason, Egress.denyIpv6_mapped]
  · simp only [Egress.denyReason] at hrefused ⊢
    split_ifs with hport
    · rfl
    · rw [if_neg hport] at hrefused
      exact Egress.denyIpv6_compatible hrefused

end Containment

end PqTunnel
