import PqTunnel.Dataplane.Overlay
import PqTunnel.Forward.Egress

/-! What the TUN drivers let through: the packets that stay on their side of the boundary, and the
checks of the server on the inner packets of its client. -/
namespace PqTunnel
open ByteString

inductive IpAddr where
  | v4 (ip : Ipv4Addr)
  | v6 (ip : Ipv6Addr)
  deriving DecidableEq

def ipv4At (pkt : Bytes) (start : ℕ) : Ipv4Addr :=
  Ipv4Addr.new (pkt.getD start 0) (pkt.getD (start + 1) 0) (pkt.getD (start + 2) 0)
    (pkt.getD (start + 3) 0)

def ipv6At (pkt : Bytes) (start : ℕ) : Ipv6Addr :=
  (slice pkt start 16).foldl (fun ip b => ip <<< 8 ||| b.toBitVec.setWidth 128) 0

def linkLocalAt (pkt : Bytes) (start : ℕ) : Bool :=
  decide (pkt.getD start 0 = 0xFE ∧ pkt.getD (start + 1) 0 &&& 0xC0 = 0x80)

def isBoundaryDropped (pkt : Bytes) : Bool :=
  if pkt.length = 0 then true
  else if pkt.getD 0 0 >>> 4 = 4 then
    if pkt.length < 20 then true
    else
      let src := ipv4At pkt 12
      let dst := ipv4At pkt 16
      if Ipv4Addr.isLinkLocal src || Ipv4Addr.isLinkLocal dst then true
      else Ipv4Addr.isMulticast src || Ipv4Addr.isMulticast dst || Ipv4Addr.isBroadcast dst
  else if pkt.getD 0 0 >>> 4 = 6 then
    if pkt.length < 40 then true
    else if linkLocalAt pkt 8 || linkLocalAt pkt 24 then true
    else
      let icmpType := pkt.getD 40 0
      if pkt.getD 6 0 = 58 ∧ 41 ≤ pkt.length ∧
          (133 ≤ icmpType ∧ icmpType ≤ 137 ∨ 143 ≤ icmpType ∧ icmpType ≤ 147) then true
      else Ipv6Addr.isMulticast (ipv6At pkt 8) || Ipv6Addr.isMulticast (ipv6At pkt 24)
  else true

def validateInner (pkt : Bytes) : Bool := (validateIpPacket pkt).isOk

structure ClientAssignment where
  v4 : Ipv4Addr := Ipv4Addr.new 10 77 0 2
  v6 : Ipv6Addr := Ipv6Addr.new 0xFD00 0x77 0 0 0 0 0 2

def sourceAllowed (src : IpAddr) (assignment : ClientAssignment) : Bool :=
  match src with
  | .v4 ip => decide (ip = assignment.v4)
  | .v6 ip =>
    match Ipv6Addr.toIpv4Mapped ip with
    | some v4 => decide (v4 = assignment.v4)
    | none => decide (ip = assignment.v6)

def extractDstPort (pkt : Bytes) : Option UInt16 :=
  if pkt.length = 0 then none
  else if pkt.getD 0 0 >>> 4 = 4 then
    let ihl := (pkt.getD 0 0 &&& 0x0F).toNat * 4
    if pkt.length < 20 then none
    else if ihl < 20 ∨ pkt.length < ihl + 4 then none
    else if pkt.getD 9 0 ≠ 6 ∧ pkt.getD 9 0 ≠ 17 then none
    else some (fromBe16 (slice pkt (ihl + 2) 2))
  else if pkt.getD 0 0 >>> 4 = 6 then
    if pkt.length < 40 then none
    else if pkt.getD 6 0 ≠ 6 ∧ pkt.getD 6 0 ≠ 17 then none
    else if pkt.length < 44 then none
    else some (fromBe16 (slice pkt 42 2))
  else none

/-- The address of a packet, at the positions that its two families have for it. -/
def extractIp (at4 at6 : ℕ) (pkt : Bytes) : Option IpAddr :=
  if pkt.length = 0 then none
  else if pkt.getD 0 0 >>> 4 = 4 then
    if pkt.length < 20 then none else some (.v4 (ipv4At pkt at4))
  else if pkt.getD 0 0 >>> 4 = 6 then
    if pkt.length < 40 then none else some (.v6 (ipv6At pkt at6))
  else none

def extractDstIp : Bytes → Option IpAddr := extractIp 16 24

def extractSrcIp : Bytes → Option IpAddr := extractIp 12 8

def isDeniedIpv4 (ip : Ipv4Addr) : Bool :=
  Ipv4Addr.isLoopback ip || decide (Ipv4Addr.octet ip 0 = 0) || Ipv4Addr.isMulticast ip ||
    decide (ip = Ipv4Addr.new 255 255 255 255) ||
    decide (Ipv4Addr.octet ip 0 = 169 ∧ Ipv4Addr.octet ip 1 = 254) ||
    decide (ip = Ipv4Addr.new 169 254 169 254) || decide (ip = Ipv4Addr.new 100 100 100 200) ||
    decide (Ipv4Addr.octet ip 0 = 100 ∧ Ipv4Addr.octet ip 1 &&& 0xC0 = 64) ||
    decide (240 ≤ Ipv4Addr.octet ip 0)

def isDeniedIpv6 (ip : Ipv6Addr) : Bool :=
  Ipv6Addr.isLoopback ip || Ipv6Addr.isUnspecified ip || Ipv6Addr.isMulticast ip ||
    decide (Ipv6Addr.segment ip 0 &&& 0xFFC0 = 0xFE80) ||
    decide (ip = Ipv6Addr.new 0xFD00 0x0EC2 0 0 0 0 0 0x0254) ||
    decide (ip = Ipv6Addr.new 0xFD20 0x00CE 0 0 0 0 0 0x0254) ||
    decide (Ipv6Addr.segment ip 0 = 0x2002) ||
    decide (Ipv6Addr.segment ip 0 = 0x2001 ∧ Ipv6Addr.segment ip 1 = 0) ||
    decide (Ipv6Addr.segment ip 0 = 0x64 ∧ Ipv6Addr.segment ip 1 = 0xFF9B)

/-- An IPv4 address inside an IPv6 one is checked as such. -/
def isDeniedDestination : IpAddr → Bool
  | .v4 ip => isDeniedIpv4 ip
  | .v6 ip =>
    match Egress.embeddedIpv4 ip with
    | some v4 => isDeniedIpv4 v4
    | none => isDeniedIpv6 ip

inductive PacketVerdict where
  | allow
  | spoofedSource
  | deniedDestination
  | portZero
  | malformed
  deriving DecidableEq, Repr

def validateInnerPacket (pkt : Bytes) (assignment : ClientAssignment) : PacketVerdict :=
  match validateIpPacket pkt with
  | .error _ => .malformed
  | .ok _ =>
    match extractSrcIp pkt with
    | none => .malformed
    | some src =>
      if sourceAllowed src assignment = false then .spoofedSource
      else
        match extractDstIp pkt with
        | none => .malformed
        | some dst =>
          if extractDstPort pkt = some 0 then .portZero
          else if isDeniedDestination dst then .deniedDestination
          else .allow

end PqTunnel
