import PqTunnel.Foundation.Table
import PqTunnel.Handshake.Messages

/-! The server handshake machine: pending table, rate limiter and roster. -/
namespace PqTunnel
open ByteString

structure ServerConfig (T : CryptoTypes) where
  version : UInt8
  identity : T.SigSk
  roster : List T.SigPk
  maxRosterSize : ℕ
  maxPending : ℕ
  pendingTtl : ℕ
  rateLimitBurst : ℕ
  rateLimitWindow : ℕ

def rosterEmptyMsg : String := "roster must not be empty (fail closed)"

def rosterTooLongMsg (len max : ℕ) : String :=
  "roster of " ++ toString len ++ " keys exceeds the configured maximum of " ++ toString max

def ServerConfig.validate {T : CryptoTypes} (cfg : ServerConfig T) : Except HandshakeV2Error Unit :=
  match validateVersion cfg.version with
  | .error e => .error e
  | .ok () =>
    if cfg.roster.isEmpty then .error (.invalidConfig rosterEmptyMsg)
    else if cfg.maxRosterSize < cfg.roster.length then
      .error (.invalidConfig (rosterTooLongMsg cfg.roster.length cfg.maxRosterSize))
    else .ok ()

inductive ServerEvent (T : CryptoTypes) where
  | emit (packets : List WirePacket) (dest : SocketAddr)
  | complete (outcome : HandshakeOutcome T)
  | none

inductive PendingState where
  | awaitM1
  | awaitM3
  deriving DecidableEq, Repr

structure PendingSession (T : CryptoTypes) where
  source : SocketAddr
  state : PendingState
  assembler : Option FragmentAssembler
  m1Body : Option Bytes
  m2Cache : Option Bytes
  lastSeen : ℕ
  started : ℕ
  ssA : Secret
  dhCs : Secret
  skS : Option T.KemSk
  verifiedClient : Option T.SigPk

def zeroSecret : Secret := ⟨zeros 32, length_zeros 32⟩

def PendingSession.new {T : CryptoTypes} (source : SocketAddr) (now : ℕ)
    (assembler : FragmentAssembler) : PendingSession T where
  source := source
  state := .awaitM1
  assembler := some assembler
  m1Body := none
  m2Cache := none
  lastSeen := now
  started := now
  ssA := zeroSecret
  dhCs := zeroSecret
  skS := none
  verifiedClient := none

structure RateBucket where
  tokens : ℕ
  lastRefill : ℕ

def maxRateBuckets : ℕ := 4096

structure ServerHandshake (T : CryptoTypes) where
  cfg : ServerConfig T
  pending : Table SessionId (PendingSession T)
  rateBuckets : Table SocketAddr RateBucket
  rateOrder : List SocketAddr
  lastRatePrune : ℕ

/-- The clock readings one call can make, in the order it makes them. -/
structure Clock where
  evict : ℕ
  rate : ℕ
  touch : ℕ

/-- The ephemeral secrets and the coin drawn when an M1 is answered. -/
structure ServerDraw (T : CryptoTypes) where
  kemSk : T.KemSk
  xSk : T.XSk
  rand : T.KemRand

abbrev ServerStep (T : CryptoTypes) :=
  Except (Fault HandshakeV2Error) (ServerEvent T) × ServerHandshake T

namespace ServerHandshake
variable {T : CryptoTypes} (P : Primitives T)

def new (cfg : ServerConfig T) (now : ℕ) : ServerHandshake T where
  cfg := if cfg.maxRosterSize < cfg.roster.length then { cfg with roster := [] } else cfg
  pending := Table.empty
  rateBuckets := Table.empty
  rateOrder := []
  lastRatePrune := now

def setRoster (s : ServerHandshake T) (roster : List T.SigPk) :
    Except HandshakeV2Error Unit × ServerHandshake T :=
  if roster.isEmpty then (.error (.invalidConfig rosterEmptyMsg), s)
  else if s.cfg.maxRosterSize < roster.length then
    (.error (.invalidConfig (rosterTooLongMsg roster.length s.cfg.maxRosterSize)), s)
  else (.ok (), { s with cfg := { s.cfg with roster } })

def rosterContains (s : ServerHandshake T) (pk : T.SigPk) : Bool :=
  s.cfg.roster.any fun k => decide (P.sigPkEncode k = P.sigPkEncode pk)

def evictExpired (s : ServerHandshake T) (now : ℕ) : ServerHandshake T :=
  { s with pending := s.pending.retain fun _ e => decide (now - e.lastSeen < s.cfg.pendingTtl) }

def pruneRate (s : ServerHandshake T) (now : ℕ) : ServerHandshake T :=
  if 32 < s.rateBuckets.size ∧
      (s.cfg.rateLimitWindow ≤ now - s.lastRatePrune ∨ now - s.lastRatePrune < 1) then
    let buckets := s.rateBuckets.retain fun _ b =>
      decide (now - b.lastRefill < s.cfg.rateLimitWindow)
    { s with
      lastRatePrune := now
      rateBuckets := buckets
      rateOrder := s.rateOrder.filter fun k => (buckets.get k).isSome }
  else s

def evictOldest (cap : ℕ) : List SocketAddr → Table SocketAddr RateBucket →
    List SocketAddr × Table SocketAddr RateBucket
  | [], buckets => ([], buckets)
  | victim :: order, buckets =>
    if cap ≤ buckets.size then evictOldest cap order (buckets.remove victim)
    else (victim :: order, buckets)

def rateOk (s : ServerHandshake T) (src : SocketAddr) (now : ℕ) : Bool × ServerHandshake T :=
  let s := s.pruneRate now
  match s.rateBuckets.get src with
  | some bucket =>
    let bucket :=
      if s.cfg.rateLimitWindow ≤ now - bucket.lastRefill then
        { tokens := s.cfg.rateLimitBurst, lastRefill := now }
      else bucket
    if bucket.tokens = 0 then (false, { s with rateBuckets := s.rateBuckets.put src bucket })
    else
      (true, { s with
        rateBuckets := s.rateBuckets.put src { bucket with tokens := bucket.tokens - 1 } })
  | none =>
    let (order, buckets) := evictOldest maxRateBuckets s.rateOrder s.rateBuckets
    let burst := s.cfg.rateLimitBurst
    let bucket : RateBucket :=
      { tokens := if 0 < burst then burst - 1 else burst, lastRefill := now }
    (decide (0 < burst),
      { s with rateBuckets := buckets.put src bucket, rateOrder := order ++ [src] })

def removePending (s : ServerHandshake T) (sid : SessionId) : ServerHandshake T :=
  { s with pending := s.pending.remove sid }

def putPending (s : ServerHandshake T) (sid : SessionId) (entry : PendingSession T) :
    ServerHandshake T :=
  { s with pending := s.pending.put sid entry }

/-- The uniform pass over the roster: whether some key verifies, and the last that does. -/
def authLoop (roster : List T.SigPk) (th1 : Secret) (sig : T.Sig) : Bool × Option T.SigPk :=
  roster.foldl
    (fun acc pk =>
      let ok := P.sigVerify pk th1.toList sig
      (acc.1 || ok, if ok then some pk else acc.2))
    (false, none)

def answerM1 (s : ServerHandshake T) (sid : SessionId) (m1 : ClientHello T) (m1Bytes : Bytes)
    (draw : ServerDraw T) : Except (Fault HandshakeV2Error) Bytes :=
  let ct2 := (P.kemEncapsulate m1.ephPkC draw.rand).2
  let ephPkS := P.kemPublic draw.kemSk
  let xS := P.xPublic draw.xSk
  let m2Z := encodeM2 P s.cfg.version sid ephPkS xS ct2 none
  match th2FromM1M2 P m1Bytes m2Z with
  | none => .error (.panic "fixed lengths")
  | some th2 =>
    let m2 : ServerHello T :=
      { version := s.cfg.version, sid, ephPkS, xS, ct2
        serverSig := P.sigSign s.cfg.identity th2.toList }
    .ok (m2.encode P)

def completeM1 (s : ServerHandshake T) (sid : SessionId) (m1Bytes : Bytes) (src : SocketAddr)
    (now : ℕ) (draw : ServerDraw T) : ServerStep T :=
  match ClientHello.decode P m1Bytes with
  | .error _ => (.ok .none, s.removePending sid)
  | .ok m1 =>
    if m1.version ≠ s.cfg.version ∨ m1.sid ≠ sid then (.ok .none, s.removePending sid)
    else
      match th1FromM1 P m1Bytes with
      | none => (.error (.panic "fixed-length M1"), s)
      | some th1 =>
        let (authed, matched) := authLoop P s.cfg.roster th1 m1.clientSig
        if authed = false then (.ok .none, s.removePending sid)
        else
          match P.diffieHellman draw.xSk m1.xC with
          | none => (.ok .none, s.removePending sid)
          | some dhCs =>
            match s.answerM1 P sid m1 m1Bytes draw with
            | .error e => (.error e, s)
            | .ok m2Bytes =>
              match liftCodec (fragmentMessage hsTypeServerHello s.cfg.version sid m2Bytes) with
              | .error e => (.error e, s)
              | .ok frags =>
                match s.pending.get sid with
                | none => (.error (.panic "entry exists"), s)
                | some entry =>
                  let entry : PendingSession T :=
                    { entry with
                      state := .awaitM3
                      m1Body := some m1Bytes
                      m2Cache := some m2Bytes
                      ssA := (P.kemEncapsulate m1.ephPkC draw.rand).1
                      dhCs := dhCs
                      skS := some draw.kemSk
                      verifiedClient := matched
                      assembler := none
                      lastSeen := now }
                  (.ok (.emit frags src), s.putPending sid entry)

/-- An M1 fragment for an entry that is still assembling its M1. -/
def onAwaitM1 (s : ServerHandshake T) (frag : HandshakeFragment) (entry : PendingSession T)
    (src : SocketAddr) (clock : Clock) (draw : ServerDraw T) : ServerStep T :=
  match entry.assembler with
  | none => (.error (.panic "AwaitM1 has assembler"), s)
  | some asm =>
    match asm.addFragment frag with
    | (.ignored, _) => (.ok .none, s)
    | (.advanced, asm) =>
      (.ok .none, s.putPending frag.sid
        { entry with assembler := some asm, lastSeen := clock.touch })
    | (.completed, asm) =>
      let s := s.putPending frag.sid { entry with assembler := some asm }
      match s.rateOk src clock.rate with
      | (false, s) => (.ok .none, s)
      | (true, s) =>
        match asm.message with
        | none => (.error (.panic "complete"), s)
        | some m1Bytes => s.completeM1 P frag.sid m1Bytes src clock.touch draw

/-- An M1 fragment for an entry whose M2 is already cached. -/
def resendM2 (s : ServerHandshake T) (frag : HandshakeFragment) (entry : PendingSession T)
    (src : SocketAddr) (clock : Clock) : ServerStep T :=
  match entry.m2Cache with
  | none => (.error (.panic "AwaitM3 has M2 cache"), s)
  | some body =>
    if frag.fragIdx ≠ 0 then (.ok .none, s)
    else
      match s.rateOk src clock.rate with
      | (false, s) => (.ok .none, s)
      | (true, s) =>
        let s := s.putPending frag.sid { entry with lastSeen := clock.touch }
        match liftCodec (fragmentMessage hsTypeServerHello s.cfg.version frag.sid body) with
        | .error e => (.error e, s)
        | .ok frags => (.ok (.emit frags entry.source), s)

def openEntry (s : ServerHandshake T) (frag : HandshakeFragment) (src : SocketAddr)
    (clock : Clock) : ServerStep T :=
  if frag.fragIdx ≠ 0 then (.ok .none, s)
  else
    match s.rateOk src clock.rate with
    | (false, s) => (.ok .none, s)
    | (true, s) =>
      if s.cfg.maxPending ≤ s.pending.size then (.ok .none, s)
      else
        match FragmentAssembler.new hsTypeClientHello with
        | none => (.ok .none, s)
        | some asm =>
          (.ok .none, s.putPending frag.sid
            (PendingSession.new src clock.touch (asm.addFragment frag).2))

def onM1Fragment (s : ServerHandshake T) (pkt : WirePacket) (src : SocketAddr) (clock : Clock)
    (draw : ServerDraw T) : ServerStep T :=
  match HandshakeFragment.fromDatagram pkt with
  | .error (.panic msg) => (.error (.panic msg), s)
  | .error (.err _) => (.ok .none, s)
  | .ok frag =>
    let s := s.evictExpired clock.evict
    match s.pending.get frag.sid with
    | none => s.openEntry frag src clock
    | some entry =>
      if entry.source ≠ src then (.ok .none, s)
      else
        match entry.state with
        | .awaitM1 => s.onAwaitM1 P frag entry src clock draw
        | .awaitM3 => s.resendM2 frag entry src clock

def confirm (s : ServerHandshake T) (frag : HandshakeFragment) (entry : PendingSession T)
    (m3 : ClientConfirm) (skS : T.KemSk) (now : ℕ) : ServerStep T :=
  let ssB := P.kemDecapsulate skS m3.ct3
  match entry.m1Body with
  | none => (.error (.panic "set in AwaitM3"), s)
  | some m1Body =>
    match entry.m2Cache with
    | none => (.error (.panic "set in AwaitM3"), s)
    | some m2Body =>
      match th3FromM1M2M3 P m1Body m2Body frag.body with
      | none => (.error (.panic "fixed lengths"), s)
      | some th3 =>
        match deriveMaster P entry.ssA ssB entry.dhCs m3.version frag.sid th3 with
        | .error e => (.error (.err e), s)
        | .ok master =>
          match Kdf.deriveFinishedKey P master m3.version frag.sid.toList with
          | .error e => (.error (.err (.crypto e)), s)
          | .ok finishedKey =>
            if Kdf.computeClientFinished P finishedKey th3 ≠ m3.clientFinished then
              (.ok .none, s)
            else
              match entry.verifiedClient with
              | none => (.error (.panic "set at M2"), s)
              | some peerIdentity =>
                if s.rosterContains P peerIdentity = false then
                  (.ok .none, s.removePending frag.sid)
                else
                  (.ok (.complete
                    { master, sessionId := frag.sid, peerIdentity
                      handshakeDuration := now - entry.started }),
                    s.removePending frag.sid)

def onM3Fragment (s : ServerHandshake T) (pkt : WirePacket) (src : SocketAddr) (clock : Clock) :
    ServerStep T :=
  match HandshakeFragment.fromDatagram pkt with
  | .error (.panic msg) => (.error (.panic msg), s)
  | .error (.err _) => (.ok .none, s)
  | .ok frag =>
    let s := s.evictExpired clock.evict
    match s.pending.get frag.sid with
    | none => (.ok .none, s)
    | some entry =>
      if entry.source ≠ src ∨ entry.state ≠ .awaitM3 then (.ok .none, s)
      else
        match s.rateOk src clock.rate with
        | (false, s) => (.ok .none, s)
        | (true, s) =>
          match ClientConfirm.decode frag.body with
          | .error _ => (.ok .none, s)
          | .ok m3 =>
            if m3.version ≠ s.cfg.version ∨ m3.sid ≠ frag.sid then (.ok .none, s)
            else
              match entry.skS with
              | none => (.ok .none, s)
              | some skS => s.confirm P frag entry m3 skS clock.touch

def handleDatagram (s : ServerHandshake T) (pkt : WirePacket) (src : SocketAddr) (clock : Clock)
    (draw : ServerDraw T) : ServerStep T :=
  if hsTypeOf pkt = hsTypeClientHello then s.onM1Fragment P pkt src clock draw
  else if hsTypeOf pkt = hsTypeClientConfirm then s.onM3Fragment P pkt src clock
  else (.ok .none, s)

end ServerHandshake
end PqTunnel
