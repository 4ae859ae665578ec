import PqTunnel.Foundation.Transition
import PqTunnel.Handshake.Client
import PqTunnel.Handshake.Server
import PqTunnel.Handshake.Transcript

/-! Any number of client and server machines on a network whose datagrams the attacker chooses.
The attacker's knowledge is symbolic: a shared secret is known by the way it was made. -/
namespace PqTunnel.Network

/-- The three inputs of a master secret, by the operation that produced them. -/
inductive SharedSecret (T : CryptoTypes) where
  | encapsulated (pk : T.KemPk) (coin : T.KemRand)
  | decapsulated (sk : T.KemSk) (ct : MlKemCiphertext)
  | exchanged (sk : T.XSk) (peer : X25519PublicKey)

/-- The secret keys and coins an attacker can have. -/
structure Knowledge (T : CryptoTypes) where
  kemSk : T.KemSk → Prop
  coin : T.KemRand → Prop
  xSk : T.XSk → Prop

variable {T : CryptoTypes}

def SharedSecret.value (P : Primitives T) : SharedSecret T → Secret
  | .encapsulated pk coin => (P.kemEncapsulate pk coin).1
  | .decapsulated sk ct => P.kemDecapsulate sk ct
  | .exchanged sk peer => P.xShared sk peer

/-- What follows from the attacker's keys and coins: ideal ML-KEM and X25519. A KEM secret
needs the coin or the secret key, an exchanged secret needs one of the two scalars. -/
inductive Knowledge.Derives (P : Primitives T) (K : Knowledge T) : SharedSecret T → Prop where
  | ownCoin (pk : T.KemPk) (coin : T.KemRand) (h : K.coin coin) :
      Derives P K (.encapsulated pk coin)
  | ownKey (sk : T.KemSk) (coin : T.KemRand) (h : K.kemSk sk) :
      Derives P K (.encapsulated (P.kemPublic sk) coin)
  | opened (sk : T.KemSk) (ct : MlKemCiphertext) (h : K.kemSk sk) :
      Derives P K (.decapsulated sk ct)
  | made (sk : T.KemSk) (coin : T.KemRand) (h : K.coin coin) :
      Derives P K (.decapsulated sk (P.kemEncapsulate (P.kemPublic sk) coin).2)
  | ownScalar (sk : T.XSk) (peer : X25519PublicKey) (h : K.xSk sk) :
      Derives P K (.exchanged sk peer)
  | peerScalar (sk sk' : T.XSk) (h : K.xSk sk') : Derives P K (.exchanged sk (P.xPublic sk'))

/-- The secret inputs of one master derivation. -/
structure MasterTerm (T : CryptoTypes) where
  ssA : SharedSecret T
  ssB : SharedSecret T
  dhCs : SharedSecret T

/-- Ideal HKDF: only who has every input has the output. -/
def MasterTerm.Derivable (P : Primitives T) (K : Knowledge T) (m : MasterTerm T) : Prop :=
  K.Derives P m.ssA ∧ K.Derives P m.ssB ∧ K.Derives P m.dhCs

structure M1Sent (T : CryptoTypes) where
  client : ℕ
  identity : T.SigSk
  hello : ClientHello T

/-- A server machine accepted an M1 under a roster key and signed an M2 for it. -/
structure M2Sent (T : CryptoTypes) where
  server : ℕ
  sid : SessionId
  identity : T.SigSk
  client : Option T.SigPk
  m1 : Bytes
  m2 : Bytes
  draw : ServerDraw T

structure M3Sent (T : CryptoTypes) where
  client : ℕ
  identity : T.SigSk
  m1 : Bytes
  m2 : Bytes
  m3 : Bytes
  outcome : HandshakeOutcome T

structure Completed (T : CryptoTypes) where
  server : ℕ
  m1 : Bytes
  m2 : Bytes
  m3 : Bytes
  outcome : HandshakeOutcome T

/-- The machines, the keys and coins they drew, and what they did, newest first. -/
structure Net (T : CryptoTypes) where
  clients : Table ℕ (ClientHandshake T)
  servers : Table ℕ (ServerHandshake T)
  kemPks : List T.KemPk
  coins : List T.KemRand
  xPks : List X25519PublicKey
  m1s : List (M1Sent T)
  m2s : List (M2Sent T)
  m3s : List (M3Sent T)
  completes : List (Completed T)

def Net.empty : Net T where
  clients := Table.empty
  servers := Table.empty
  kemPks := []
  coins := []
  xPks := []
  m1s := []
  m2s := []
  m3s := []
  completes := []

/-- The secrets that entered the master of a server's answer and the ciphertext it received. -/
def M2Sent.masterTerm (a : M2Sent T) (hello : ClientHello T) (ct3 : MlKemCiphertext) :
    MasterTerm T where
  ssA := .encapsulated hello.ephPkC a.draw.rand
  ssB := .decapsulated a.draw.kemSk ct3
  dhCs := .exchanged a.draw.xSk hello.xC

def bodyOf (pkt : WirePacket) : Bytes :=
  match HandshakeFragment.fromDatagram pkt with
  | .ok frag => frag.body
  | .error _ => []

def assembledM2 (c : ClientHandshake T) (pkt : WirePacket) : Bytes :=
  match c.state, HandshakeFragment.fromDatagram pkt with
  | .awaitM2 asm _, .ok frag => (asm.addFragment frag).2.message.getD []
  | _, _ => []

def m3Record (P : Primitives T) (id : ℕ) (c : ClientHandshake T) (m2 m3 : Bytes)
    (outcome : HandshakeOutcome T) : M3Sent T where
  client := id
  identity := c.cfg.identity
  m1 := c.m1.encode P
  m2 := m2
  m3 := m3
  outcome := outcome

def m3sOf (P : Primitives T) (id : ℕ) (c : ClientHandshake T) (pkt : WirePacket) :
    Except (Fault HandshakeV2Error) (ClientEvent T) → List (M3Sent T)
  | .ok (.m3Sent pkts outcome) =>
    [m3Record P id c (assembledM2 c pkt) ((pkts.head?.map bodyOf).getD []) outcome]
  | _ => []

/-- The record of an M2 that server `id` signed: its entry went from AwaitM1 to AwaitM3. -/
def m2sOf (id : ℕ) (s s' : ServerHandshake T) (sid : SessionId) (draw : ServerDraw T) :
    List (M2Sent T) :=
  match s.pending.get sid, s'.pending.get sid with
  | some e, some e' =>
    if e.state = .awaitM1 ∧ e'.state = .awaitM3 then
      [{ server := id, sid, identity := s.cfg.identity, client := e'.verifiedClient
         m1 := e'.m1Body.getD [], m2 := e'.m2Cache.getD [], draw }]
    else []
  | _, _ => []

def completesOf (id : ℕ) (s : ServerHandshake T) (pkt : WirePacket) :
    Except (Fault HandshakeV2Error) (ServerEvent T) → List (Completed T)
  | .ok (.complete outcome) =>
    [{ server := id
       m1 := ((s.pending.get outcome.sessionId).bind (·.m1Body)).getD []
       m2 := ((s.pending.get outcome.sessionId).bind (·.m2Cache)).getD []
       m3 := bodyOf pkt, outcome }]
  | _ => []

namespace Net

def addClient (net : Net T) (id : ℕ) (c : ClientHandshake T) : Net T :=
  { net with
    clients := net.clients.put id c
    kemPks := c.m1.ephPkC :: net.kemPks
    xPks := c.m1.xC :: net.xPks
    m1s := { client := id, identity := c.cfg.identity, hello := c.m1 } :: net.m1s }

def addServer (net : Net T) (id : ℕ) (s : ServerHandshake T) : Net T :=
  { net with servers := net.servers.put id s }

def toClient (P : Primitives T) (net : Net T) (id : ℕ) (c : ClientHandshake T) (pkt : WirePacket)
    (rand : T.KemRand) : Net T :=
  { net with
    clients := net.clients.put id (c.handleDatagram P pkt rand).2
    coins := rand :: net.coins
    m3s := m3sOf P id c pkt (c.handleDatagram P pkt rand).1 ++ net.m3s }

def clientTimer (net : Net T) (id : ℕ) (c : ClientHandshake T) : Net T :=
  { net with clients := net.clients.put id c.onTimer.2 }

def toServer (P : Primitives T) (net : Net T) (id : ℕ) (s : ServerHandshake T) (pkt : WirePacket)
    (src : SocketAddr) (clock : Clock) (draw : ServerDraw T) : Net T :=
  { net with
    servers := net.servers.put id (s.handleDatagram P pkt src clock draw).2
    kemPks := P.kemPublic draw.kemSk :: net.kemPks
    coins := draw.rand :: net.coins
    xPks := P.xPublic draw.xSk :: net.xPks
    m2s := m2sOf id s (s.handleDatagram P pkt src clock draw).2 pkt.sid draw ++ net.m2s
    completes := completesOf id s pkt (s.handleDatagram P pkt src clock draw).1 ++ net.completes }

/-- The attacker has every key and coin that no machine drew. -/
def attacker (P : Primitives T) (net : Net T) : Knowledge T where
  kemSk sk := P.kemPublic sk ∉ net.kemPks
  coin r := r ∉ net.coins
  xSk sk := P.xPublic sk ∉ net.xPks

def Signed (P : Primitives T) (net : Net T) (pk : T.SigPk) (th : Secret) : Prop :=
  (∃ m ∈ net.m1s, P.verifyingKey m.identity = pk ∧ th = P.sha256 (th1Input (m.hello.encode P))) ∨
    ∃ a ∈ net.m2s, P.verifyingKey a.identity = pk ∧ th = P.sha256 (th2Input a.m1 a.m2)

/-- The inputs that machines hashed. -/
def hashed (P : Primitives T) (net : Net T) : Set Bytes :=
  {x | (∃ m ∈ net.m1s, x = th1Input (m.hello.encode P)) ∨
    (∃ a ∈ net.m2s, x = th1Input a.m1 ∨ x = th2Input a.m1 a.m2) ∨
    (∃ f ∈ net.m3s, x = th2Input f.m1 f.m2 ∨ x = th3Input f.m1 f.m2 f.m3) ∨
    ∃ d ∈ net.completes, x = th3Input d.m1 d.m2 d.m3}

/-- The masters that machines derived a Finished key from, with their session ids. -/
def masters (net : Net T) : Set (MasterSecret × SessionId) :=
  {x | (∃ f ∈ net.m3s, x = (f.outcome.master, f.outcome.sessionId)) ∨
    ∃ d ∈ net.completes, x = (d.outcome.master, d.outcome.sessionId)}

end Net

def finishedKeyOf (P : Primitives T) (x : MasterSecret × SessionId) : Except CryptoError Secret :=
  Kdf.deriveFinishedKey P x.1 protocolVersion x.2.toList

/-- No two different inputs of the run met in SHA-256 or in the Finished key derivation. -/
structure NoCollision (P : Primitives T) (net : Net T) : Prop where
  hash : Set.InjOn P.sha256 (net.hashed P)
  kdf : Set.InjOn (finishedKeyOf P) net.masters

/-- Ideal HMAC: a Finished value that a server accepts was computed by the attacker, from a
master it can derive, or by a client machine, under the same key and transcript hash. -/
def FinishedIdeal (P : Primitives T) (net : Net T) (d : Completed T) : Prop :=
  ∀ a ∈ net.m2s, ∀ hello m3, a.server = d.server → a.m2 = d.m2 →
    ClientHello.decode P a.m1 = .ok hello → ClientConfirm.decode d.m3 = .ok m3 →
    deriveMaster P ((a.masterTerm hello m3.ct3).ssA.value P)
      ((a.masterTerm hello m3.ct3).ssB.value P) ((a.masterTerm hello m3.ct3).dhCs.value P)
      m3.version d.outcome.sessionId (P.sha256 (th3Input d.m1 d.m2 d.m3)) =
        .ok d.outcome.master →
    (a.masterTerm hello m3.ct3).Derivable P (net.attacker P) ∨
      ∃ f ∈ net.m3s, finishedKeyOf P (f.outcome.master, f.outcome.sessionId) =
          finishedKeyOf P (d.outcome.master, d.outcome.sessionId) ∧
        P.sha256 (th3Input f.m1 f.m2 f.m3) = P.sha256 (th3Input d.m1 d.m2 d.m3)

/-- The steps of the network. Datagrams, clocks and rosters are arbitrary; drawn keys and coins
are fresh; signatures under an honest key and Finished values are not forged. -/
inductive Step (P : Primitives T) (Honest : T.SigPk → Prop) (net : Net T) : Net T → Prop where
  | newClient (id : ℕ) (cfg : ClientConfig T) (sid : SessionId) (kemSk : T.KemSk) (xSk : T.XSk)
      (c : ClientHandshake T) (hid : net.clients.get id = none)
      (hkem : P.kemPublic kemSk ∉ net.kemPks) (hx : P.xPublic xSk ∉ net.xPks)
      (hnew : ClientHandshake.new P cfg sid kemSk xSk = .ok c) :
      Step P Honest net (net.addClient id c)
  | newServer (id : ℕ) (cfg : ServerConfig T) (now : ℕ) (hid : net.servers.get id = none) :
      Step P Honest net (net.addServer id (ServerHandshake.new cfg now))
  | toClient (id : ℕ) (c : ClientHandshake T) (pkt : WirePacket) (rand : T.KemRand)
      (hget : net.clients.get id = some c) (hcoin : rand ∉ net.coins)
      (hsig : ∀ f ∈ m3sOf P id c pkt (c.handleDatagram P pkt rand).1,
        Honest f.outcome.peerIdentity →
          net.Signed P f.outcome.peerIdentity (P.sha256 (th2Input f.m1 f.m2))) :
      Step P Honest net (net.toClient P id c pkt rand)
  | clientTimer (id : ℕ) (c : ClientHandshake T) (hget : net.clients.get id = some c) :
      Step P Honest net (net.clientTimer id c)
  | toServer (id : ℕ) (s : ServerHandshake T) (pkt : WirePacket) (src : SocketAddr)
      (clock : Clock) (draw : ServerDraw T) (hget : net.servers.get id = some s)
      (hkem : P.kemPublic draw.kemSk ∉ net.kemPks) (hx : P.xPublic draw.xSk ∉ net.xPks)
      (hcoin : draw.rand ∉ net.coins)
      (hsig : ∀ a ∈ m2sOf id s (s.handleDatagram P pkt src clock draw).2 pkt.sid draw,
        ∀ pk, a.client = some pk → Honest pk → net.Signed P pk (P.sha256 (th1Input a.m1)))
      (hmac : ∀ d ∈ completesOf id s pkt (s.handleDatagram P pkt src clock draw).1,
        FinishedIdeal P net d) :
      Step P Honest net (net.toServer P id s pkt src clock draw)
  | setRoster (id : ℕ) (s : ServerHandshake T) (roster : List T.SigPk)
      (hget : net.servers.get id = some s) :
      Step P Honest net (net.addServer id (s.setRoster roster).2)

/-- The states of the network after finitely many steps without collisions. -/
def Reached (P : Primitives T) (Honest : T.SigPk → Prop) : Net T → Prop :=
  Transition.Reach (fun net => net = Net.empty)
    fun net (_ : Unit) net' => Step P Honest net net' ∧ NoCollision P net'

end PqTunnel.Network
