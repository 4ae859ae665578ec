import PqTunnel.Handshake.Messages

/-! The client handshake machine. Retransmission delays only pace the driver and are left
out; the ephemeral keys and coins a call draws are arguments. -/
namespace PqTunnel

structure ClientConfig (T : CryptoTypes) where
  version : UInt8
  serverAddr : SocketAddr
  identity : T.SigSk
  serverIdentity : T.SigPk
  m1MaxAttempts : ℕ
  m3MaxAttempts : ℕ

inductive ClientEvent (T : CryptoTypes) where
  | emit (packets : List WirePacket)
  | m3Sent (packets : List WirePacket) (outcome : HandshakeOutcome T)
  | none

inductive ClientState (T : CryptoTypes) where
  | awaitM2 (assembler : FragmentAssembler) (attempts : ℕ)
  | m3Sent (m3Frags : List WirePacket) (attempts : ℕ) (outcome : HandshakeOutcome T)

structure ClientHandshake (T : CryptoTypes) where
  cfg : ClientConfig T
  sid : SessionId
  kemSk : T.KemSk
  xSk : T.XSk
  m1 : ClientHello T
  m1Frags : List WirePacket
  state : ClientState T

namespace ClientHandshake
variable {T : CryptoTypes} (P : Primitives T)

def signedM1 (cfg : ClientConfig T) (sid : SessionId) (kemSk : T.KemSk) (xSk : T.XSk) :
    Except (Fault HandshakeV2Error) (ClientHello T) :=
  let xC := P.xPublic xSk
  let preSign := encodeM1 P cfg.version sid (P.kemPublic kemSk) xC none
  match th1FromM1 P preSign with
  | none => .error (.panic "fixed-length M1")
  | some th1 =>
    .ok { version := cfg.version, sid, ephPkC := P.kemPublic kemSk, xC
          clientSig := P.sigSign cfg.identity th1.toList }

def new (cfg : ClientConfig T) (sid : SessionId) (kemSk : T.KemSk) (xSk : T.XSk) :
    Except (Fault HandshakeV2Error) (ClientHandshake T) :=
  match validateVersion cfg.version with
  | .error e => .error (.err e)
  | .ok () =>
    match signedM1 P cfg sid kemSk xSk with
    | .error e => .error e
    | .ok m1 =>
      match liftCodec (fragmentMessage hsTypeClientHello cfg.version sid (m1.encode P)) with
      | .error e => .error e
      | .ok m1Frags =>
        match FragmentAssembler.new hsTypeServerHello with
        | none => .error (.panic "known hs_type (M2 assembler)")
        | some assembler =>
          .ok { cfg, sid, kemSk, xSk, m1, m1Frags, state := .awaitM2 assembler 0 }

/-- Drop a completed M2 that is not acceptable and start a new assembler. -/
def dropM2 (c : ClientHandshake T) :
    Except (Fault HandshakeV2Error) (ClientEvent T) × ClientHandshake T :=
  match c.state with
  | .m3Sent .. => (.ok .none, c)
  | .awaitM2 _ attempts =>
    match FragmentAssembler.new hsTypeServerHello with
    | none => (.error (.panic "known hs_type (M2 assembler)"), c)
    | some assembler => (.ok .none, { c with state := .awaitM2 assembler attempts })

/-- The M3 fragments and the outcome for the secrets both sides now share. -/
def finish (c : ClientHandshake T) (ssA ssB dhCs : Secret) (ct3 : MlKemCiphertext)
    (m2Bytes : Bytes) :
    Except (Fault HandshakeV2Error) (List WirePacket × HandshakeOutcome T) :=
  let m3Z := encodeM3 c.cfg.version c.sid ct3 none
  match th3FromM1M2M3 P (c.m1.encode P) m2Bytes m3Z with
  | none => .error (.panic "fixed message lengths")
  | some th3 =>
    match deriveMaster P ssA ssB dhCs c.cfg.version c.sid th3 with
    | .error e => .error (.err e)
    | .ok master =>
      match Kdf.deriveFinishedKey P master c.cfg.version c.sid.toList with
      | .error e => .error (.err (.crypto e))
      | .ok finishedKey =>
        let m3 : ClientConfirm :=
          { version := c.cfg.version, sid := c.sid, ct3
            clientFinished := Kdf.computeClientFinished P finishedKey th3 }
        match liftCodec (fragmentMessage hsTypeClientConfirm c.cfg.version c.sid m3.encode) with
        | .error e => .error e
        | .ok m3Frags =>
          .ok (m3Frags, { master, sessionId := c.sid, peerIdentity := c.cfg.serverIdentity
                          handshakeDuration := 0 })

def onCompleteM2 (c : ClientHandshake T) (m2Bytes : Bytes) (rand : T.KemRand) :
    Except (Fault HandshakeV2Error) (ClientEvent T) × ClientHandshake T :=
  match ServerHello.decode P m2Bytes with
  | .error _ => c.dropM2
  | .ok m2 =>
    if m2.sid ≠ c.sid ∨ m2.version ≠ c.cfg.version then c.dropM2
    else
      match th2FromM1M2 P (c.m1.encode P) m2Bytes with
      | none => (.error (.panic "fixed lengths"), c)
      | some th2 =>
        if P.sigVerify c.cfg.serverIdentity th2.toList m2.serverSig = false then c.dropM2
        else
          let ssA := P.kemDecapsulate c.kemSk m2.ct2
          let (ssB, ct3) := P.kemEncapsulate m2.ephPkS rand
          match P.diffieHellman c.xSk m2.xS with
          | none => c.dropM2
          | some dhCs =>
            match c.finish P ssA ssB dhCs ct3 m2Bytes with
            | .error e => (.error e, c)
            | .ok (m3Frags, outcome) =>
              (.ok (.m3Sent m3Frags outcome), { c with state := .m3Sent m3Frags 0 outcome })

def handleDatagram (c : ClientHandshake T) (pkt : WirePacket) (rand : T.KemRand) :
    Except (Fault HandshakeV2Error) (ClientEvent T) × ClientHandshake T :=
  if hsTypeOf pkt ≠ hsTypeServerHello then (.ok .none, c)
  else
    match HandshakeFragment.fromDatagram pkt with
    | .error (.panic msg) => (.error (.panic msg), c)
    | .error (.err _) => (.ok .none, c)
    | .ok frag =>
      if frag.sid ≠ c.sid then (.ok .none, c)
      else
        match c.state with
        | .m3Sent .. => (.ok .none, c)
        | .awaitM2 assembler attempts =>
          let (result, assembler) := assembler.addFragment frag
          let c := { c with state := .awaitM2 assembler attempts }
          if result ≠ .completed then (.ok .none, c)
          else
            match assembler.message with
            | none => (.error (.panic "complete"), c)
            | some m2Bytes => c.onCompleteM2 P m2Bytes rand

def onTimer (c : ClientHandshake T) :
    Except (Fault HandshakeV2Error) (ClientEvent T) × ClientHandshake T :=
  match c.state with
  | .awaitM2 assembler attempts =>
    if c.cfg.m1MaxAttempts ≤ attempts then (.error (.err .timeout), c)
    else (.ok (.emit c.m1Frags), { c with state := .awaitM2 assembler (attempts + 1) })
  | .m3Sent m3Frags attempts outcome =>
    if c.cfg.m3MaxAttempts ≤ attempts then (.error (.err .timeout), c)
    else (.ok (.emit m3Frags), { c with state := .m3Sent m3Frags (attempts + 1) outcome })

end ClientHandshake
end PqTunnel
