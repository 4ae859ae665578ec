import PqTunnel.Forward.Egress

/-! The framing of relayed datagrams inside a payload slot: the destination, the length and the
datagram. -/
namespace PqTunnel
open ByteString

def familyIpv4 : UInt8 := 0x04
def familyIpv6 : UInt8 := 0x06

abbrev hdrLenV4 : ℕ := 9
abbrev hdrLenV6 : ℕ := 21
abbrev maxDatagramV4 : ℕ := payloadLen - hdrLenV4
abbrev maxDatagramV6 : ℕ := payloadLen - hdrLenV6

inductive RelayError where
  | truncated (len : ℕ)
  | badFamily (family : UInt8)
  | tooLarge (max got : ℕ)
  deriving DecidableEq, Repr

def addrOctets (n : ℕ) (ip : BitVec (8 * n)) : Bytes :=
  (List.range n).map fun i => ⟨ip.extractLsb' (8 * (n - 1 - i)) 8⟩

def addrOfOctets (n : ℕ) (octets : Bytes) : BitVec (8 * n) :=
  octets.foldl (fun ip b => ip <<< 8 ||| b.toBitVec.setWidth (8 * n)) 0

def encodeRelay (dest : SocketAddr) (payload : Bytes) : Except RelayError Bytes :=
  let (family, addr, port, max) := match dest with
    | .v4 ip port => (familyIpv4, addrOctets 4 ip, port, maxDatagramV4)
    | .v6 ip port _ _ => (familyIpv6, addrOctets 16 ip, port, maxDatagramV6)
  if max < payload.length then .error (.tooLarge max payload.length)
  else .ok (family :: (addr ++ (toBe16 port ++ (toBe16 (UInt16.ofNat payload.length) ++ payload))))

/-- The datagram behind a relay header that has been read. -/
def decodeBody (msg : Bytes) (addr : SocketAddr) (hdrLen max : ℕ) :
    Except RelayError (SocketAddr × Bytes) :=
  let len := (fromBe16 (slice msg (hdrLen - 2) 2)).toNat
  if max < len then .error (.tooLarge max len)
  else if msg.length < hdrLen + len then .error (.truncated msg.length)
  else .ok (addr, slice msg hdrLen len)

def decodeRelay (msg : Bytes) : Except RelayError (SocketAddr × Bytes) :=
  match msg with
  | [] => .error (.truncated 0)
  | family :: _ =>
    if family = familyIpv4 then
      if msg.length < hdrLenV4 then .error (.truncated msg.length)
      else decodeBody msg (.v4 (addrOfOctets 4 (slice msg 1 4)) (fromBe16 (slice msg 5 2)))
        hdrLenV4 maxDatagramV4
    else if family = familyIpv6 then
      if msg.length < hdrLenV6 then .error (.truncated msg.length)
      else decodeBody msg (.v6 (addrOfOctets 16 (slice msg 1 16)) (fromBe16 (slice msg 17 2)) 0 0)
        hdrLenV6 maxDatagramV6
    else .error (.badFamily family)

/-- A datagram that fits the capacity of the smaller family fits that of every destination. -/
theorem encodeRelay_fits (dest : SocketAddr) {payload : Bytes} (h : payload.length ≤ maxDatagramV6) :
    ∃ msg, encodeRelay dest payload = .ok msg := by
  cases dest with
  | v4 ip port =>
    refine ⟨_, if_neg ?_⟩
    exact not_lt.mpr (le_trans h (by decide))
  | v6 ip port => exact ⟨_, if_neg (not_lt.mpr h)⟩

end PqTunnel
