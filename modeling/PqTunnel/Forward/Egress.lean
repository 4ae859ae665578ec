import PqTunnel.Handshake.Messages

/-! The destinations that the forwarding backend refuses, and its counters. -/
namespace PqTunnel

abbrev Ipv4Addr := BitVec 32
abbrev Ipv6Addr := BitVec 128

namespace Ipv4Addr

def new (a b c d : UInt8) : Ipv4Addr := a.toBitVec ++ b.toBitVec ++ c.toBitVec ++ d.toBitVec

def octet (ip : Ipv4Addr) (i : ℕ) : UInt8 := ⟨ip.extractLsb' (24 - 8 * i) 8⟩

def isLoopback (ip : Ipv4Addr) : Bool := decide (octet ip 0 = 127)

def isMulticast (ip : Ipv4Addr) : Bool := decide (224 ≤ octet ip 0 ∧ octet ip 0 ≤ 239)

def isBroadcast (ip : Ipv4Addr) : Bool := decide (ip = new 255 255 255 255)

def isLinkLocal (ip : Ipv4Addr) : Bool := decide (octet ip 0 = 169 ∧ octet ip 1 = 254)

end Ipv4Addr

namespace Ipv6Addr

def new (a b c d e f g h : UInt16) : Ipv6Addr :=
  a.toBitVec ++ b.toBitVec ++ c.toBitVec ++ d.toBitVec ++ e.toBitVec ++ f.toBitVec ++
    g.toBitVec ++ h.toBitVec

def segment (ip : Ipv6Addr) (i : ℕ) : UInt16 := ⟨ip.extractLsb' (112 - 16 * i) 16⟩

def isLoopback (ip : Ipv6Addr) : Bool := decide (ip = new 0 0 0 0 0 0 0 1)

def isUnspecified (ip : Ipv6Addr) : Bool := decide (ip = 0)

def isMulticast (ip : Ipv6Addr) : Bool := decide (segment ip 0 &&& 0xFF00 = 0xFF00)

def low (ip : Ipv6Addr) : Ipv4Addr := ip.extractLsb' 0 32

def toIpv4Mapped (ip : Ipv6Addr) : Option Ipv4Addr :=
  if ip.extractLsb' 32 96 = 0xFFFF then some (low ip) else none

end Ipv6Addr

inductive EgressPolicy where
  | denyUnsafe
  | allowLoopback
  deriving DecidableEq, Repr

inductive DenyRule where
  | portZero
  | v4Loopback
  | v6Loopback
  | v4Unspecified
  | v6Unspecified
  | v4Multicast
  | v6Multicast
  | v4Broadcast
  | metadataImdsV4
  | metadataAlibabaV4
  | metadataAwsV6
  | metadataGcpV6
  deriving DecidableEq, Repr

namespace Egress

def denyIpv4 (ip : Ipv4Addr) (policy : EgressPolicy) : Option DenyRule :=
  if ip = Ipv4Addr.new 169 254 169 254 then some .metadataImdsV4
  else if ip = Ipv4Addr.new 100 100 100 200 then some .metadataAlibabaV4
  else if Ipv4Addr.isLoopback ip ∧ policy = .denyUnsafe then some .v4Loopback
  else if Ipv4Addr.octet ip 0 = 0 then some .v4Unspecified
  else if Ipv4Addr.isMulticast ip then some .v4Multicast
  else if Ipv4Addr.isBroadcast ip then some .v4Broadcast
  else none

/-- The IPv4 address inside a mapped or compatible IPv6 address. -/
def embeddedIpv4 (ip : Ipv6Addr) : Option Ipv4Addr :=
  match Ipv6Addr.toIpv4Mapped ip with
  | some v4 => some v4
  | none => if ip.extractLsb' 32 96 = 0 then some (Ipv6Addr.low ip) else none

def denyIpv6 (ip : Ipv6Addr) (policy : EgressPolicy) : Option DenyRule :=
  if ip = Ipv6Addr.new 0xFD00 0x0EC2 0 0 0 0 0 0x0254 then some .metadataAwsV6
  else if ip = Ipv6Addr.new 0xFD20 0x00CE 0 0 0 0 0 0x0254 then some .metadataGcpV6
  else if Ipv6Addr.isLoopback ip then
    if policy = .denyUnsafe then some .v6Loopback else none
  else if Ipv6Addr.isUnspecified ip then some .v6Unspecified
  else if Ipv6Addr.isMulticast ip then some .v6Multicast
  else
    match embeddedIpv4 ip with
    | some v4 => denyIpv4 v4 policy
    | none => none

def denyReason (dest : SocketAddr) (policy : EgressPolicy) : Option DenyRule :=
  match dest with
  | .v4 ip port => if port = 0 then some .portZero else denyIpv4 ip policy
  | .v6 ip port _ _ => if port = 0 then some .portZero else denyIpv6 ip policy

end Egress

/-- The counters of the egress policy: one for each rule, and one for failures on the forward
path. They saturate. -/
structure EgressGuard where
  denials : DenyRule → ℕ
  failures : ℕ

namespace EgressGuard

def new : EgressGuard := ⟨fun _ => 0, 0⟩

def bump (counter : ℕ) : ℕ := min (counter + 1) (2 ^ 64 - 1)

def recordDenial (g : EgressGuard) (rule : DenyRule) : EgressGuard :=
  { g with denials := fun r => if r = rule then bump (g.denials r) else g.denials r }

def recordFailure (g : EgressGuard) : EgressGuard := { g with failures := bump g.failures }

end EgressGuard
end PqTunnel
