import PqTunnel.Driver.Server
import PqTunnel.Forward.Relay

/-! The forwarding backend: the pool of sockets for sessions and destinations, and the tasks that
read the replies. What is logged is left out. -/
namespace PqTunnel

def idleTtl : ℕ := fromSecs 60

def perSessionCap : ℕ := 128

def globalCap : ℕ := 512

abbrev ForwardKey := SessionId × SocketAddr

/-- Sockets are numbered in the order in which they are opened. -/
structure ForwardEntry where
  socket : ℕ
  lastUse : ℕ

structure ReplyReader where
  socket : ℕ
  sid : SessionId
  dest : SocketAddr
  deriving DecidableEq

/-- A datagram handed to a socket, and whether the reader of that socket was running then. -/
structure ForwardSend where
  key : ForwardKey
  socket : ℕ
  datagram : Bytes
  answerable : Bool
  deriving DecidableEq

/-- The last four fields stand for the outside: the readers that run, the number of sockets opened,
the datagrams sent and the commands handed to the manager. -/
structure Forwarder where
  echo : Bool
  sockets : Table ForwardKey ForwardEntry
  guard : EgressGuard
  policy : EgressPolicy
  readers : List ReplyReader
  opened : ℕ
  sent : List ForwardSend
  commands : List ServerAppCommand

/-- What the outside does during one call of `handle`: the readings of the clock, the orders in
which the pool is iterated, the answers of the socket calls and of the channel, and the readers that
stop before the datagram is sent. -/
structure HandleWorld where
  reapAt : ℕ
  evictAt : ℕ
  insertAt : ℕ
  useAt : ℕ
  orders : ℕ → List ForwardKey
  bind : Except IoError Unit
  connect : Except IoError Unit
  send : Except IoError Unit
  commandsOpen : Bool
  stopping : List ℕ

namespace Forwarder

def newWithPolicy (echo : Bool) (policy : EgressPolicy) : Forwarder where
  echo := echo
  sockets := Table.empty
  guard := EgressGuard.new
  policy := policy
  readers := []
  opened := 0
  sent := []
  commands := []

def new (echo : Bool) : Forwarder := newWithPolicy echo .denyUnsafe

def recordFailure (f : Forwarder) : Forwarder := { f with guard := f.guard.recordFailure }

def stopReaders (f : Forwarder) (sockets : List ℕ) : Forwarder :=
  { f with readers := f.readers.filter fun r => decide (r.socket ∉ sockets) }

def dropEntry (f : Forwarder) (key : ForwardKey) : Forwarder :=
  match f.sockets.get key with
  | none => f
  | some e => { f with sockets := f.sockets.remove key }.stopReaders [e.socket]

def dropAll (f : Forwarder) (keys : List ForwardKey) : Forwarder := keys.foldl dropEntry f

def pruneIdle (f : Forwarder) (now : ℕ) : Forwarder :=
  f.dropAll ((f.sockets.entries.filter fun x => decide (idleTtl < now - x.2.lastUse)).map (·.1))

/-- `min_by_key` over the last use: the first of the least recently used. -/
def leastRecent : List (ForwardKey × ForwardEntry) → Option ForwardKey
  | [] => none
  | x :: xs =>
    some (xs.foldl (fun best y => if y.2.lastUse < best.2.lastUse then y else best) x).1

def oldest (f : Forwarder) (order : List ForwardKey) : Option ForwardKey :=
  leastRecent (f.sockets.iter order)

def sidEntries (f : Forwarder) (sid : SessionId) (order : List ForwardKey) :
    List (ForwardKey × ForwardEntry) :=
  (f.sockets.iter order).filter fun x => decide (x.1.1 = sid)

/-- The loop over the cap of a session. A pass drops an entry, so there are no more passes than
entries. -/
def evictSession (sid : SessionId) (orders : ℕ → List ForwardKey) : ℕ → Forwarder → Forwarder
  | 0, f => f
  | passes + 1, f =>
    let entries := f.sidEntries sid (orders passes)
    if entries.length < perSessionCap then f
    else
      match leastRecent entries with
      | some key => evictSession sid orders passes (f.dropEntry key)
      | none => f

/-- Make room in the pool for one more socket of the session. -/
def makeRoom (f : Forwarder) (sid : SessionId) (env : HandleWorld) : Forwarder :=
  let f := f.pruneIdle env.evictAt
  let f :=
    if globalCap ≤ f.sockets.size then
      match f.oldest (env.orders f.sockets.size) with
      | some key => f.dropEntry key
      | none => f
    else f
  evictSession sid env.orders f.sockets.size f

/-- A connected socket enters the pool with its reader. -/
def insert (f : Forwarder) (key : ForwardKey) (now : ℕ) : Forwarder :=
  { f with
    sockets := f.sockets.put key ⟨f.opened, now⟩
    readers := f.readers ++ [⟨f.opened, key.1, key.2⟩]
    opened := f.opened + 1 }

def pruneAndInsert (f : Forwarder) (key : ForwardKey) (env : HandleWorld) : Forwarder :=
  let f := f.makeRoom key.1 env
  match env.bind with
  | .error _ => f.recordFailure
  | .ok () =>
    match env.connect with
    | .error _ => f.recordFailure
    | .ok () => f.insert key env.insertAt

def sendThrough (f : Forwarder) (key : ForwardKey) (datagram : Bytes) (env : HandleWorld) :
    Forwarder :=
  match f.sockets.get key with
  | none => f
  | some e =>
    let f := { f with sockets := f.sockets.put key { e with lastUse := env.useAt } }
    let f := f.stopReaders env.stopping
    let f := { f with sent := f.sent ++
      [⟨key, e.socket, datagram, f.readers.any fun r => decide (r.socket = e.socket)⟩] }
    match env.send with
    | .error _ => f.recordFailure
    | .ok () => f

/-- Answer in echo mode, from the same session and without a socket. -/
def answer (f : Forwarder) (sid : SessionId) (dest : SocketAddr) (datagram : Bytes)
    (env : HandleWorld) : Forwarder :=
  match encodeRelay dest datagram with
  | .error _ => f
  | .ok reply => if env.commandsOpen then { f with commands := f.commands ++ [⟨sid, reply⟩] } else f

def handle (f : Forwarder) (sid : SessionId) (slot : Bytes) (env : HandleWorld) : Forwarder :=
  let f := f.pruneIdle env.reapAt
  match decodeRelay slot with
  | .error _ => f
  | .ok (dest, datagram) =>
    match Egress.denyReason dest f.policy with
    | some rule => { f with guard := f.guard.recordDenial rule }
    | none =>
      if f.echo then f.answer sid dest datagram env
      else
        let key := (sid, dest)
        let f := if (f.sockets.get key).isNone then f.pruneAndInsert key env else f
        f.sendThrough key datagram env

def onSessionClosed (f : Forwarder) (sid : SessionId) : Forwarder :=
  f.dropAll (f.sockets.keys.filter fun k => decide (k.1 = sid))

def shutdown (f : Forwarder) : Forwarder := f.dropAll f.sockets.keys

/-- One turn of `reply_reader`, if the reader of the socket runs: what the socket returns, and
whether the manager still takes commands. -/
def replyReader (f : Forwarder) (socket : ℕ) (os : Except IoError Bytes) (commandsOpen : Bool) :
    Forwarder :=
  match f.readers.find? fun r => decide (r.socket = socket) with
  | none => f
  | some r =>
    match os with
    | .error _ => f.stopReaders [socket]
    | .ok datagram =>
      match encodeRelay r.dest (datagram.take maxDatagramV6) with
      | .error _ => f
      | .ok payload =>
        if commandsOpen then { f with commands := f.commands ++ [⟨r.sid, payload⟩] }
        else f.stopReaders [socket]

/-- The calls of the backend's owner and the turns of its readers. -/
inductive Op where
  | handle (sid : SessionId) (slot : Bytes) (env : HandleWorld)
  | sessionClosed (sid : SessionId)
  | shutdown
  | read (socket : ℕ) (os : Except IoError Bytes) (commandsOpen : Bool)

def step (f : Forwarder) : Op → Forwarder
  | .handle sid slot env => f.handle sid slot env
  | .sessionClosed sid => f.onSessionClosed sid
  | .shutdown => f.shutdown
  | .read socket os commandsOpen => f.replyReader socket os commandsOpen

def run (f : Forwarder) (ops : List Op) : Forwarder := ops.foldl step f

end Forwarder
end PqTunnel
