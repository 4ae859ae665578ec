import PqTunnel.Manager.Server

/-! All that one call of the server manager can do: what a datagram comes to, and what an encryption
on a live session comes to. -/
namespace PqTunnel.ServerSessionManager

variable {T : CryptoTypes} {P : Primitives T}

/-- The packet is one of the data path, it goes to a live session, and the gate lets its source
pass. -/
structure Reads (m : ServerSessionManager T) (pkt : WirePacket) (src : SocketAddr) (now : ℕ)
    (entry : SessionEntry) : Prop where
  data : isHandshakeFragment pkt = false
  get : m.sessions.get pkt.sid = some entry
  passed : m.failGate.peek src now m.limits = true

/-- All that a datagram can do. -/
inductive Handles (P : Primitives T) (m : ServerSessionManager T) (pkt : WirePacket)
    (src : SocketAddr) (clock : Clock) (now : ℕ) (draw : ServerDraw T) (order : List SessionId) :
    ManagerStep T → Prop where
  | stepped (r hs r') (hfrag : isHandshakeFragment pkt = true)
      (hstep : m.hs.handleDatagram P pkt src clock draw = (r, hs))
      (hr : (∃ packets peer, r = .ok (.emit packets peer) ∧ r' = .ok (.send packets peer)) ∨
        (∃ e, r = .error e ∧ r' = liftHandshake (.error e)) ∨ r' = .ok .none)
      (hkept : ∀ outcome, r = .ok (.complete outcome) →
        ∃ entry, m.sessions.get outcome.sessionId = some entry) :
      Handles P m pkt src clock now draw order (r', { m with hs })
  | unopened (outcome hs e) (hfrag : isHandshakeFragment pkt = true)
      (hstep : m.hs.handleDatagram P pkt src clock draw = (.ok (.complete outcome), hs))
      (hfree : m.sessions.get outcome.sessionId = none)
      (hnew : WireSession.established P .server outcome = .error e) :
      Handles P m pkt src clock now draw order
        (.error (.err (.session e)), evictAtCapacity { m with hs } order)
  | opened (outcome hs session) (hfrag : isHandshakeFragment pkt = true)
      (hstep : m.hs.handleDatagram P pkt src clock draw = (.ok (.complete outcome), hs))
      (hfree : m.sessions.get outcome.sessionId = none)
      (hnew : WireSession.established P .server outcome = .ok session) :
      Handles P m pkt src clock now draw order (.ok (.established outcome.sessionId src),
        (evictAtCapacity { m with hs } order).putSession outcome.sessionId ⟨session, src, now, now⟩)
  | ignored (hdata : isHandshakeFragment pkt = false)
      (hno : m.sessions.get pkt.sid = none ∨ m.failGate.peek src now m.limits = false) :
      Handles P m pkt src clock now draw order (.ok .none, m)
  | unready (entry e entry') (hread : Reads m pkt src now entry)
      (hrecv : entry.receive P pkt src now = (.error e, entry')) :
      Handles P m pkt src clock now draw order
        (.error (.err (.session e)), m.putSession pkt.sid entry')
  | read (entry result entry' ev) (hread : Reads m pkt src now entry)
      (hrecv : entry.receive P pkt src now = (.ok result, entry')) (hresult : result ≠ .failed)
      (hlive : ∀ reason, result ≠ .sessionDead reason)
      (hev : ev = .none ∨ ∃ inner, ev = .appData pkt.sid inner) :
      Handles P m pkt src clock now draw order (.ok ev, m.putSession pkt.sid entry')
  | acked (entry inner entry') (hread : Reads m pkt src now entry)
      (hrecv : entry.receive P pkt src now = (.ok (.control inner), entry'))
      (hprobe : inner.payload.toList.getD 0 0 = Control.probe) :
      Handles P m pkt src clock now draw order
        ((m.putSession pkt.sid entry').afterEncrypt pkt.sid entry'
          (entry'.session.encrypt P .handshake (Control.slot Control.ack)))
  | ended (entry result entry' reason) (hread : Reads m pkt src now entry)
      (hrecv : entry.receive P pkt src now = (.ok result, entry'))
      (hresult : result = .peerClose ∨ result = .sessionDead reason) :
      Handles P m pkt src clock now draw order
        (.ok (.closed pkt.sid reason), m.removeSession pkt.sid)
  | charged (entry entry') (hread : Reads m pkt src now entry)
      (hrecv : entry.receive P pkt src now = (.ok .failed, entry')) :
      Handles P m pkt src clock now draw order (.ok .none,
        { m.putSession pkt.sid entry' with failGate := m.failGate.consume src now m.limits })

variable (m : ServerSessionManager T)

theorem removeSession_putSession (sid : SessionId)
    (entry : SessionEntry) : (m.putSession sid entry).removeSession sid = m.removeSession sid := by
  simp only [removeSession, putSession, Table.remove_put_self]

theorem onDataPacket_handles {pkt : WirePacket} (src : SocketAddr) (clock : Clock) (now : ℕ)
    (draw : ServerDraw T) (order : List SessionId) (hdata : isHandshakeFragment pkt = false) :
    Handles P m pkt src clock now draw order (m.onDataPacket P pkt src now) := by
  unfold onDataPacket
  dsimp only
  cases hget : m.sessions.get pkt.sid with
  | none => exact .ignored hdata (Or.inl hget)
  | some entry =>
    dsimp only
    split_ifs with hpeek
    · exact .ignored hdata (Or.inr hpeek)
    · have hread : Reads m pkt src now entry := ⟨hdata, hget, by simpa using hpeek⟩
      cases hrecv : entry.receive P pkt src now with
      | mk r entry' =>
        cases r with
        | error e => exact .unready entry e entry' hread hrecv
        | ok result =>
          cases result with
          | payload inner =>
            dsimp only
            split <;> exact .read entry _ entry' _ hread hrecv (by simp) (by simp) (by simp)
          | control inner =>
            dsimp only [onControlMessage]
            split_ifs with hprobe
            · simp only [putSession, Table.get_put_self]
              exact .acked entry inner entry' hread hrecv hprobe
            · exact .read entry _ entry' _ hread hrecv (by simp) (by simp) (by simp)
          | peerClose =>
            simp only [removeSession_putSession]
            exact .ended entry _ entry' _ hread hrecv (Or.inl rfl)
          | sessionDead reason =>
            simp only [removeSession_putSession]
            exact .ended entry _ entry' _ hread hrecv (Or.inr rfl)
          | failed => exact .charged entry entry' hread hrecv
          | rejected => exact .read entry _ entry' _ hread hrecv (by simp) (by simp) (by simp)

theorem handleDatagram_handles (pkt : WirePacket) (src : SocketAddr) (clock : Clock) (now : ℕ)
    (draw : ServerDraw T) (order : List SessionId) :
    Handles P m pkt src clock now draw order
      (m.handleDatagram P pkt src clock now draw order) := by
  unfold handleDatagram
  split_ifs with hfrag
  · cases hstep : m.hs.handleDatagram P pkt src clock draw with
    | mk r hs =>
      cases r with
      | error e => exact .stepped _ hs _ hfrag hstep (Or.inr (Or.inl ⟨e, rfl, rfl⟩)) (by simp)
      | ok ev =>
        cases ev with
        | emit packets peer =>
          exact .stepped _ hs _ hfrag hstep (Or.inl ⟨packets, peer, rfl, rfl⟩) (by simp)
        | none => exact .stepped _ hs _ hfrag hstep (Or.inr (Or.inr rfl)) (by simp)
        | complete outcome =>
          dsimp only [onHandshakeComplete]
          cases hget : m.sessions.get outcome.sessionId with
          | some entry =>
            refine .stepped _ hs _ hfrag hstep (Or.inr (Or.inr rfl)) fun outcome' heq => ?_
            cases heq
            exact ⟨entry, hget⟩
          | none =>
            dsimp only
            cases hnew : WireSession.established P .server outcome with
            | error e => exact .unopened outcome hs e hfrag hstep hget hnew
            | ok session => exact .opened outcome hs session hfrag hstep hget hnew
  · exact onDataPacket_handles m src clock now draw order (by simpa using hfrag)

/-- What an encryption on a session comes to. -/
inductive Encrypts (P : Primitives T) (m : ServerSessionManager T) (sid : SessionId) :
    ManagerStep T → Prop where
  | idle (e) : Encrypts P m sid (.error e, m)
  | sent (entry msgType payload packet session) (hget : m.sessions.get sid = some entry)
      (henc : entry.session.encrypt P msgType payload = (.ok packet, session)) :
      Encrypts P m sid (.ok (.sendPacket packet entry.peer),
        { m.putSession sid { entry with session } with
          encrypted := m.encrypted ++ entry.session.sealing (.ok packet) })
  | spent (entry msgType payload) (hget : m.sessions.get sid = some entry)
      (henc : entry.session.encrypt P msgType payload =
        (.error .rekeyRequired, { entry.session with state := .rekey })) :
      Encrypts P m sid (.ok (.closed sid .nonceExhausted), m.removeSession sid)
  | failed (entry e) (hget : m.sessions.get sid = some entry) :
      Encrypts P m sid (.error (.err (.session e)), m.putSession sid entry)

section Encrypts

variable {m : ServerSessionManager T} {sid : SessionId} {entry : SessionEntry}

theorem encrypts_afterEncrypt (hget : m.sessions.get sid = some entry)
    {r : Except SessionError WirePacket × WireSession} (h : WireSession.Enc P entry.session r) :
    Encrypts P m sid (m.afterEncrypt sid entry r) := by
  cases h with
  | sent msgType payload packet session henc =>
    exact .sent entry msgType payload packet session hget henc
  | spent msgType payload henc => exact .spent entry msgType payload hget henc
  | failed e hne =>
    cases e with
    | rekeyRequired => exact absurd rfl hne
    | _ => exact .failed entry _ hget

variable (m) (sid)

theorem encrypts_put (entry : SessionEntry) (msgType : MessageType) (payload : Bytes) :
    Encrypts P (m.putSession sid entry) sid ((m.putSession sid entry).afterEncrypt sid entry
      (entry.session.encrypt P msgType payload)) :=
  encrypts_afterEncrypt (Table.get_put_self ..) (WireSession.enc_encrypt ..)

theorem encrypts_sendEncrypted (msgType : MessageType) (payload : Bytes) :
    Encrypts P m sid (m.sendEncrypted P sid msgType payload) := by
  unfold sendEncrypted
  cases hget : m.sessions.get sid with
  | none => exact .idle _
  | some entry => exact encrypts_afterEncrypt hget (WireSession.enc_encrypt ..)

theorem encrypts_appOutbound (payload : Bytes) :
    Encrypts P m sid (m.appOutbound P sid payload) := by
  unfold appOutbound
  split_ifs
  · exact .idle _
  · exact encrypts_sendEncrypted ..

theorem encrypts_tunOutbound (payload : Bytes) :
    Encrypts P m sid (m.tunOutbound P sid payload) := by
  unfold tunOutbound
  split_ifs
  · exact .idle _
  · exact encrypts_sendEncrypted ..

theorem encrypts_coverPacket
    (fill : Except String Payload) : Encrypts P m sid (m.coverPacket P sid fill) := by
  unfold coverPacket
  cases hget : m.sessions.get sid with
  | none => exact .idle _
  | some entry => exact encrypts_afterEncrypt hget (WireSession.enc_cover ..)

end Encrypts

end PqTunnel.ServerSessionManager
