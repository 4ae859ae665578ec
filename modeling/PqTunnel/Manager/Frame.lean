import PqTunnel.Manager.Accounting
import PqTunnel.Manager.ClientEstablish

/-! What a datagram can change in a live session: nothing, unless it carries the id of the session
and its tag verifies under the receive key. -/
namespace PqTunnel

variable {T : CryptoTypes} {P : Primitives T}

namespace CipherSession

/-- The AEAD tag of the packet verifies under the receive key. -/
def TagVerifies (P : Primitives T) (s : CipherSession) (packet : WirePacket) : Prop :=
  ∃ header plaintext, packet.parseHeader = .ok header ∧
    s.openPacket P packet header.packetNonce = .ok plaintext

/-- The AEAD decryption of the packet is performed, and fails. -/
def TagFails (P : Primitives T) (s : CipherSession) (packet : WirePacket) : Prop :=
  ∃ header e, packet.parseHeader = .ok header ∧
    s.openPacket P packet header.packetNonce = .error e

variable {s : CipherSession} {packet : WirePacket}

theorem TagVerifies.not_fails (h : s.TagVerifies P packet) : ¬ s.TagFails P packet := by
  rintro ⟨header, e, hheader, hopen⟩
  obtain ⟨header', plaintext, hheader', hopen'⟩ := h
  obtain rfl := Except.ok.inj (hheader.symm.trans hheader')
  cases hopen.symm.trans hopen'

/-- A packet that does not verify leaves the envelope as it was. -/
theorem decrypt_unverified (h : ¬ s.TagVerifies P packet) :
    s.TagFails P packet ∧ s.decrypt P packet = (.error .decryptionFailed, s) ∨
      ¬ s.TagFails P packet ∧ s.decrypt P packet = (.error .rejected, s) := by
  cases hheader : packet.parseHeader with
  | error e =>
    right
    refine ⟨?_, decrypt_bad_header hheader⟩
    rintro ⟨header, e', hheader', -⟩
    cases hheader.symm.trans hheader'
  | ok header =>
    cases hopen : s.openPacket P packet header.packetNonce with
    | error e => exact Or.inl ⟨⟨header, e, hheader, hopen⟩, decrypt_unopened hheader hopen⟩
    | ok plaintext => exact absurd ⟨header, plaintext, hheader, hopen⟩ h

/-- What follows the AEAD never reports a failed decryption. -/
theorem afterOpen_error {counter : UInt64} {plaintext : Bytes} {e : CodecError}
    (h : (s.afterOpen counter plaintext).1 = .error e) :
    e = .rejected ∨ ∃ c, e = .nonceExhausted c := by
  unfold afterOpen at h
  split at h
  · cases h
    exact Or.inr ⟨_, rfl⟩
  · split at h
    · cases h
      exact Or.inl rfl
    · dsimp only at h
      split at h
      · cases h
        exact Or.inl rfl
      · split at h
        · cases h
          exact Or.inl rfl
        · split at h <;> cases h
          exact Or.inl rfl

theorem decrypt_verified (h : s.TagVerifies P packet) :
    (∃ inner, (s.decrypt P packet).1 = .ok inner) ∨
      (s.decrypt P packet).1 = .error .rejected ∨
      ∃ c, (s.decrypt P packet).1 = .error (.nonceExhausted c) := by
  obtain ⟨header, plaintext, hheader, hopen⟩ := h
  rw [decrypt_opened hheader hopen]
  cases hres : (s.afterOpen header.packetNonce plaintext).1 with
  | ok inner => exact Or.inl ⟨inner, rfl⟩
  | error e =>
    rcases afterOpen_error hres with rfl | ⟨c, rfl⟩
    · exact Or.inr (Or.inl rfl)
    · exact Or.inr (Or.inr ⟨c, rfl⟩)

end CipherSession

namespace WireSession

variable {s : WireSession} {packet : WirePacket}

/-- The tag decides: a packet that does not verify leaves the session as it was. -/
theorem decrypt_cases (s : WireSession) (packet : WirePacket) :
    (s.state ≠ .established ∧
      s.decrypt P packet = (.error (.wrongState .established s.state), s)) ∨
    (s.cipher.TagFails P packet ∧
      s.decrypt P packet = (.error (.codec .decryptionFailed), s)) ∨
    (¬ s.cipher.TagVerifies P packet ∧ ¬ s.cipher.TagFails P packet ∧
      s.decrypt P packet = (.error (.codec .rejected), s)) ∨
    (s.cipher.TagVerifies P packet ∧ ((∃ inner, (s.decrypt P packet).1 = .ok inner) ∨
      (s.decrypt P packet).1 = .error (.codec .rejected) ∨
      (s.decrypt P packet).1 = .error .rekeyRequired)) := by
  by_cases hstate : s.state = .established
  · right
    by_cases hverify : s.cipher.TagVerifies P packet
    · right
      right
      refine ⟨hverify, ?_⟩
      rcases CipherSession.decrypt_verified hverify with ⟨inner, hdec⟩ | hdec | ⟨c, hdec⟩ <;>
        rw [decrypt, requireEstablished, if_pos hstate] <;>
        rw [← Prod.mk.eta (p := s.cipher.decrypt P packet), hdec]
      · exact Or.inl ⟨inner, rfl⟩
      · exact Or.inr (Or.inl rfl)
      · exact Or.inr (Or.inr rfl)
    · rcases CipherSession.decrypt_unverified hverify with ⟨hfails, hdec⟩ | ⟨hfails, hdec⟩
      · left
        refine ⟨hfails, ?_⟩
        rw [decrypt, requireEstablished, if_pos hstate, hdec]
      · right
        left
        refine ⟨hverify, hfails, ?_⟩
        rw [decrypt, requireEstablished, if_pos hstate, hdec]
  · left
    refine ⟨hstate, ?_⟩
    rw [decrypt, requireEstablished, if_neg hstate]

end WireSession

/-- What an entry makes of a packet, up to what the packet says. -/
inductive Receipt (P : Primitives T) (entry : SessionEntry) (pkt : WirePacket) (src : SocketAddr)
    (now : ℕ) : Except SessionError DataResult × SessionEntry → Prop where
  | forged (hfails : entry.session.cipher.TagFails P pkt) :
      Receipt P entry pkt src now (.ok .failed, entry)
  | malformed (hverify : ¬ entry.session.cipher.TagVerifies P pkt)
      (hfails : ¬ entry.session.cipher.TagFails P pkt) :
      Receipt P entry pkt src now (.ok .rejected, entry)
  | unready (e : SessionError) (hstate : entry.session.state ≠ .established) :
      Receipt P entry pkt src now (.error e, entry)
  | refused (e : SessionError) (result : DataResult)
      (hverify : entry.session.cipher.TagVerifies P pkt)
      (hdec : (entry.session.decrypt P pkt).1 = .error e)
      (hresult : result = .rejected ∨ ∃ reason, result = .sessionDead reason) :
      Receipt P entry pkt src now
        (.ok result, { entry with session := (entry.session.decrypt P pkt).2 })
  | opened (inner : InnerPlaintext) (result : DataResult)
      (hverify : entry.session.cipher.TagVerifies P pkt)
      (hdec : (entry.session.decrypt P pkt).1 = .ok inner) (hresult : result ≠ .failed) :
      Receipt P entry pkt src now (.ok result,
        { entry with session := (entry.session.decrypt P pkt).2, lastActivity := now, peer := src })

theorem SessionEntry.receive_receipt (entry : SessionEntry) (pkt : WirePacket) (src : SocketAddr)
    (now : ℕ) : Receipt P entry pkt src now (entry.receive P pkt src now) := by
  rcases entry.session.decrypt_cases (P := P) pkt with
    ⟨hstate, hdec⟩ | ⟨hfails, hdec⟩ | ⟨hverify, hfails, hdec⟩ | ⟨hverify, hdec⟩
  · rw [receive, hdec]
    exact .unready _ hstate
  · rw [receive, hdec]
    exact .forged hfails
  · rw [receive, hdec]
    exact .malformed hverify hfails
  · cases hboth : entry.session.decrypt P pkt with
    | mk r session =>
      have hr : (entry.session.decrypt P pkt).1 = r := by rw [hboth]
      have hsession : (entry.session.decrypt P pkt).2 = session := by rw [hboth]
      have hrefused : ∀ e result, r = .error e →
          (result = .rejected ∨ ∃ reason, result = .sessionDead reason) →
          Receipt P entry pkt src now (.ok result, { entry with session }) := by
        intro e result he hresult
        rw [← hsession]
        exact .refused e result hverify (hr.trans he) hresult
      rw [hr] at hdec
      rw [receive, hboth]
      rcases hdec with ⟨inner, rfl⟩ | rfl | rfl
      · have hopened : ∀ result, result ≠ .failed → Receipt P entry pkt src now
            (.ok result, { entry with session, lastActivity := now, peer := src }) := by
          intro result hresult
          rw [← hsession]
          exact .opened inner result hverify hr hresult
        dsimp only
        cases inner.msgType <;> exact hopened _ (by simp)
      · exact hrefused _ .rejected rfl (Or.inl rfl)
      · exact hrefused _ _ rfl (Or.inr ⟨_, rfl⟩)

/-- Only a packet that verifies is more than a failure. -/
theorem SessionEntry.receive_verified {entry entry' : SessionEntry} {pkt : WirePacket}
    {src : SocketAddr} {now : ℕ} {result : DataResult}
    (hrecv : entry.receive P pkt src now = (.ok result, entry')) (hfailed : result ≠ .failed)
    (hrejected : result ≠ .rejected) : entry.session.cipher.TagVerifies P pkt ∧
      ((∃ inner, (entry.session.decrypt P pkt).1 = .ok inner) ∨
        ∃ reason, result = .sessionDead reason) := by
  have hreceipt := entry.receive_receipt (P := P) pkt src now
  rw [hrecv] at hreceipt
  cases hreceipt with
  | forged => exact absurd rfl hfailed
  | malformed => exact absurd rfl hrejected
  | refused e _ hverify _ hresult => exact ⟨hverify, Or.inr (hresult.resolve_left hrejected)⟩
  | opened inner _ hverify hdec => exact ⟨hverify, Or.inl ⟨inner, hdec⟩⟩

namespace ServerSessionManager

variable {m m' : ServerSessionManager T} {pkt : WirePacket} {src : SocketAddr} {clock : Clock}
  {now : ℕ} {draw : ServerDraw T} {order : List SessionId} {sid : SessionId} {entry : SessionEntry}

/-- Every session of the second manager is one of the first, with the same peer and the same
activity clock. -/
def KeepsPeers (m m' : ServerSessionManager T) : Prop :=
  ∀ sid entry', m'.sessions.get sid = some entry' → ∃ entry, m.sessions.get sid = some entry ∧
    entry'.peer = entry.peer ∧ entry'.lastActivity = entry.lastActivity

/-- What everything that sends or drops a session keeps. -/
structure Kept (m m' : ServerSessionManager T) : Prop where
  peers : KeepsPeers m m'
  failGate : m'.failGate = m.failGate
  limits : m'.limits = m.limits

theorem Kept.refl (m : ServerSessionManager T) : Kept m m :=
  ⟨fun _ entry hget => ⟨entry, hget, rfl, rfl⟩, rfl, rfl⟩

theorem Kept.trans {m'' : ServerSessionManager T} (h : Kept m m') (h' : Kept m' m'') :
    Kept m m'' := by
  refine ⟨?_, h'.failGate.trans h.failGate, h'.limits.trans h.limits⟩
  intro sid entry'' hget''
  obtain ⟨entry', hget', hpeer', hact'⟩ := h'.peers sid entry'' hget''
  obtain ⟨entry, hget, hpeer, hact⟩ := h.peers sid entry' hget'
  exact ⟨entry, hget, hpeer'.trans hpeer, hact'.trans hact⟩

theorem kept_removeSession (m : ServerSessionManager T) (sid : SessionId) :
    Kept m (m.removeSession sid) :=
  ⟨fun _ entry hget => ⟨entry, (Table.get_of_remove hget).2, rfl, rfl⟩, rfl, rfl⟩

theorem kept_putSession (hget : m.sessions.get sid = some entry) (session : WireSession) :
    Kept m (m.putSession sid { entry with session }) := by
  refine ⟨fun sid' entry' hget' => ?_, rfl, rfl⟩
  rw [putSession, Table.get_put] at hget'
  split_ifs at hget' with hsid
  · obtain rfl := Option.some.inj hget'
    exact ⟨entry, hsid ▸ hget, rfl, rfl⟩
  · exact ⟨entry', hget', rfl, rfl⟩

theorem Encrypts.kept {r : ManagerStep T} (h : Encrypts P m sid r) : Kept m r.2 := by
  cases h with
  | idle => exact .refl m
  | sent entry _ _ packet session hget =>
    have hput := kept_putSession hget session
    exact ⟨hput.peers, hput.failGate, hput.limits⟩
  | spent => exact kept_removeSession m sid
  | failed entry e hget => exact kept_putSession hget _

theorem kept_coverLoop (fills : SessionId → Except String Payload) (sids : List SessionId)
    (m : ServerSessionManager T) : Kept m (coverLoop P fills sids m).2 := by
  induction sids generalizing m with
  | nil => exact .refl m
  | cons sid sids ih =>
    have hone := (encrypts_coverPacket (P := P) m sid (fills sid)).kept
    unfold coverLoop
    split <;> rename_i m₁ heq <;> rw [heq] at hone
    · exact hone
    · have hrest := hone.trans (ih m₁)
      split <;> rename_i m₂ heq' <;> rw [heq'] at hrest <;> exact hrest

theorem kept_beginClose (m : ServerSessionManager T) (entry : SessionEntry) (now : ℕ) :
    Kept m (m.beginClose P entry now).2 := by
  unfold beginClose
  split <;> exact ⟨(Kept.refl m).peers, rfl, rfl⟩

theorem kept_expireLoop (now : ℕ) (gone : List (SessionId × CloseReason))
    (m : ServerSessionManager T) : Kept m (expireLoop P now gone m).2 := by
  induction gone generalizing m with
  | nil => exact .refl m
  | cons e gone ih =>
    obtain ⟨sid, reason⟩ := e
    unfold expireLoop
    split
    · rename_i entry _
      exact ((kept_removeSession m sid).trans (kept_beginClose _ entry now)).trans (ih _)
    · exact ih m

/-- Of the calls that take no datagram, only a tick touches the gate. -/
theorem kept_call {c : Call T}
    (hin : ∀ pkt src clock now draw order, c ≠ .datagram pkt src clock now draw order)
    (htick : ∀ now order, c ≠ .tick now order) : Kept m (call P m c).2 := by
  cases c with
  | datagram pkt src clock now draw order => exact absurd rfl (hin pkt src clock now draw order)
  | setRoster roster =>
    simp only [call, setRoster]
    split <;> exact ⟨(Kept.refl m).peers, rfl, rfl⟩
  | appOutbound sid payload => exact (encrypts_appOutbound ..).kept
  | tunOutbound sid payload => exact (encrypts_tunOutbound ..).kept
  | coverPacket sid fill => exact (encrypts_coverPacket ..).kept
  | coverPacketAll fills => exact kept_coverLoop ..
  | closeSession sid now =>
    simp only [call, closeSession]
    split
    · exact .refl m
    · rename_i entry _
      have hremove := kept_removeSession m sid
      have hqueue : Kept m (m.queueClosed sid .userClosed) :=
        ⟨hremove.peers, hremove.failGate, hremove.limits⟩
      exact hqueue.trans (kept_beginClose _ entry now)
  | tick now order => exact absurd rfl (htick now order)

theorem Call.shape (c : Call T) :
    (∃ pkt src clock now draw order, c = .datagram pkt src clock now draw order) ∨
      (∃ now order, c = .tick now order) ∨
      (∀ pkt src clock now draw order, c ≠ .datagram pkt src clock now draw order) ∧
        ∀ now order, c ≠ .tick now order := by
  cases c with
  | datagram pkt src clock now draw order => exact Or.inl ⟨pkt, src, clock, now, draw, order, rfl⟩
  | tick now order => exact Or.inr (Or.inl ⟨now, order, rfl⟩)
  | _ => exact Or.inr (Or.inr ⟨by simp, by simp⟩)

/-- No call but a datagram moves a peer or an activity clock. -/
theorem keepsPeers_call {c : Call T}
    (hin : ∀ pkt src clock now draw order, c ≠ .datagram pkt src clock now draw order) :
    KeepsPeers m (call P m c).2 := by
  cases c with
  | tick now order => exact (kept_expireLoop now (m.expired now order) m).peers
  | _ => exact (kept_call hin (by simp)).peers

section Inbound

theorem Encrypts.get_ne {sid' : SessionId} {r : ManagerStep T} (h : Encrypts P m sid r)
    (hne : sid' ≠ sid) : r.2.sessions.get sid' = m.sessions.get sid' := by
  cases h with
  | idle => rfl
  | spent => exact Table.get_remove_ne _ hne
  | _ => exact Table.get_put_ne _ _ hne

/-- The session is the one that a completed handshake evicts at capacity. -/
structure EvictedBy (P : Primitives T) (m : ServerSessionManager T) (pkt : WirePacket)
    (src : SocketAddr) (clock : Clock) (draw : ServerDraw T) (order : List SessionId)
    (sid : SessionId) : Prop where
  fragment : isHandshakeFragment pkt = true
  complete : ∃ outcome hs, m.hs.handleDatagram P pkt src clock draw = (.ok (.complete outcome), hs)
  full : m.limits.maxSessions ≤ m.sessions.size
  stalest : m.stalest order = some sid

theorem get_evictAtCapacity (order : List SessionId) (sid : SessionId) :
    (m.evictAtCapacity order).sessions.get sid = m.sessions.get sid ∨
      m.limits.maxSessions ≤ m.sessions.size ∧ m.stalest order = some sid ∧
        (m.evictAtCapacity order).sessions.get sid = none := by
  unfold evictAtCapacity
  split_ifs with hfull
  · split
    · rename_i stale hstale
      by_cases hsid : sid = stale
      · exact Or.inr ⟨hfull, hsid ▸ hstale, hsid ▸ Table.get_remove_self ..⟩
      · exact Or.inl (Table.get_remove_ne _ hsid)
    · exact Or.inl rfl
  · exact Or.inl rfl

/-- A live session survives a datagram as it was; or the datagram evicts it; or it addresses the
session and verifies. -/
theorem Handles.get {r : ManagerStep T} (h : Handles P m pkt src clock now draw order r)
    (hget : m.sessions.get sid = some entry) :
    r.2.sessions.get sid = some entry ∨
    (EvictedBy P m pkt src clock draw order sid ∧ r.2.sessions.get sid = none) ∨
    (pkt.sid = sid ∧ entry.session.cipher.TagVerifies P pkt ∧
      ((∃ inner, (entry.session.decrypt P pkt).1 = .ok inner) ∨
        r.2.sessions.get sid = none ∨
        r.2.sessions.get sid = some { entry with session := (entry.session.decrypt P pkt).2 })) := by
  have hroom : ∀ outcome hs, isHandshakeFragment pkt = true →
      m.hs.handleDatagram P pkt src clock draw = (.ok (.complete outcome), hs) →
      (evictAtCapacity { m with hs } order).sessions.get sid = some entry ∨
        EvictedBy P m pkt src clock draw order sid ∧
          (evictAtCapacity { m with hs } order).sessions.get sid = none := by
    intro outcome hs hfrag hres
    rcases get_evictAtCapacity (m := { m with hs }) order sid with heq | ⟨hfull, hstale, hgone⟩
    · exact Or.inl (heq.trans hget)
    · exact Or.inr ⟨⟨hfrag, ⟨outcome, hs, hres⟩, hfull, hstale⟩, hgone⟩
  have hput : ∀ {e r entry'}, Reads m pkt src now e → e.receive P pkt src now = (r, entry') →
      (m.putSession pkt.sid entry').sessions.get sid = some entry ∨
      pkt.sid = sid ∧ entry.session.cipher.TagVerifies P pkt ∧
        ((∃ inner, (entry.session.decrypt P pkt).1 = .ok inner) ∨
          (m.putSession pkt.sid entry').sessions.get sid =
            some { entry with session := (entry.session.decrypt P pkt).2 }) := by
    intro e r entry' hread hrecv
    by_cases hsid : sid = pkt.sid
    · subst hsid
      obtain rfl := Option.some.inj (hread.get.symm.trans hget)
      have hreceipt := e.receive_receipt (P := P) pkt src now
      rw [hrecv] at hreceipt
      cases hreceipt with
      | refused _ _ hverify => exact Or.inr ⟨rfl, hverify, Or.inr (Table.get_put_self ..)⟩
      | opened inner _ hverify hdec => exact Or.inr ⟨rfl, hverify, Or.inl ⟨inner, hdec⟩⟩
      | _ => exact Or.inl (Table.get_put_self ..)
    · exact Or.inl ((Table.get_put_ne _ _ hsid).trans hget)
  cases h with
  | stepped | ignored => exact Or.inl hget
  | unopened outcome hs e hfrag hstep => exact (hroom outcome hs hfrag hstep).imp_right Or.inl
  | opened outcome hs session hfrag hstep hfree =>
    have hsid : sid ≠ outcome.sessionId := by
      rintro rfl
      cases hget.symm.trans hfree
    rw [putSession, Table.get_put_ne _ _ hsid]
    exact (hroom outcome hs hfrag hstep).imp_right Or.inl
  | unready e _ _ hread hrecv | read e _ _ _ hread hrecv | charged e _ hread hrecv =>
    exact (hput hread hrecv).imp_right fun h =>
      Or.inr ⟨h.1, h.2.1, h.2.2.imp_right Or.inr⟩
  | acked e inner entry' hread hrecv =>
    by_cases hsid : sid = pkt.sid
    · subst hsid
      obtain rfl := Option.some.inj (hread.get.symm.trans hget)
      obtain ⟨hverify, hopen | ⟨reason, hdead⟩⟩ := SessionEntry.receive_verified hrecv (by simp)
        (by simp)
      · exact Or.inr (Or.inr ⟨rfl, hverify, Or.inl hopen⟩)
      · cases hdead
    · left
      rw [(encrypts_put ..).get_ne hsid]
      exact (Table.get_put_ne _ _ hsid).trans hget
  | ended e result _ reason hread hrecv hend =>
    by_cases hsid : sid = pkt.sid
    · subst hsid
      obtain rfl := Option.some.inj (hread.get.symm.trans hget)
      obtain ⟨hverify, -⟩ := SessionEntry.receive_verified hrecv (by rintro rfl; simp at hend)
        (by rintro rfl; simp at hend)
      exact Or.inr (Or.inr ⟨rfl, hverify, Or.inr (Or.inl (Table.get_remove_self ..))⟩)
    · exact Or.inl ((Table.get_remove_ne _ hsid).trans hget)

end Inbound

end ServerSessionManager

namespace ClientSessionManager

variable {m : ClientSessionManager T} {pkt : WirePacket} {src : SocketAddr} {rand : T.KemRand}
  {now : ℕ} {session : WireSession}

structure SameSession (m m' : ClientSessionManager T) : Prop where
  session : m'.session = m.session
  peer : m'.peer = m.peer
  ready : m'.ready = m.ready
  roundsUnanswered : m'.roundsUnanswered = m.roundsUnanswered

/-- A datagram leaves a live session as it was, or it addresses the session and verifies. -/
theorem handleDatagram_session (hget : m.session = some session) (pkt : WirePacket)
    (src : SocketAddr) (rand : T.KemRand) (now : ℕ) :
    SameSession m (m.handleDatagram P pkt src rand now).2 ∨
    pkt.sid = session.sessionId ∧ session.cipher.TagVerifies P pkt ∧
      ((∃ inner, (session.decrypt P pkt).1 = .ok inner) ∨
        (m.handleDatagram P pkt src rand now).2.peer = m.peer ∧
          ((m.handleDatagram P pkt src rand now).2.session = none ∨
            (m.handleDatagram P pkt src rand now).2.ready = m.ready ∧
              (m.handleDatagram P pkt src rand now).2.roundsUnanswered =
                m.roundsUnanswered)) := by
  have hshut : (∃ e, session.decrypt P pkt = (.error e, session) ∧
      dataResult (.error e) ≠ .ok (.sessionDead .nonceExhausted)) ∨
      session.cipher.TagVerifies P pkt := by
    rcases session.decrypt_cases (P := P) pkt with ⟨-, h⟩ | ⟨-, h⟩ | ⟨-, -, h⟩ | ⟨h, -⟩
    · exact Or.inl ⟨_, h, by simp [dataResult]⟩
    · exact Or.inl ⟨_, h, by simp [dataResult]⟩
    · exact Or.inl ⟨_, h, by simp [dataResult]⟩
    · exact Or.inr h
  have hopened : ∀ {inner}, (session.decrypt P pkt).1 = .ok inner →
      session.cipher.TagVerifies P pkt := by
    intro inner hopen
    refine hshut.resolve_left ?_
    rintro ⟨e, hdec, -⟩
    rw [hdec] at hopen
    cases hopen
  have hdoes := does_handleDatagram (P := P) m pkt src rand now
  generalize m.handleDatagram P pkt src rand now = r at hdoes ⊢
  cases hdoes with
  | idle | stepped | doubled => exact Or.inl ⟨rfl, rfl, rfl, rfl⟩
  | adopted _ _ _ _ _ _ _ _ _ _ hfree => cases hfree.symm.trans hget
  | sent _ _ _ _ _ _ hc | spent _ _ _ _ hc => cases hc
  | unread _ _ _ _ session' _ hread =>
    obtain rfl := Option.some.inj (hread.get.symm.trans hget)
    rcases hshut with ⟨e, hdec, -⟩ | hverify
    · rw [hdec]
      exact Or.inl ⟨hget.symm, rfl, rfl, rfl⟩
    · exact Or.inr ⟨hread.sid, hverify, Or.inr ⟨rfl, Or.inr ⟨rfl, rfl⟩⟩⟩
  | read _ _ _ _ session' inner _ hread hopen | hungUp _ _ _ _ session' inner hread hopen =>
    obtain rfl := Option.some.inj (hread.get.symm.trans hget)
    exact Or.inr ⟨hread.sid, hopened hopen, Or.inl ⟨inner, hopen⟩⟩
  | died _ _ _ _ session' hread hdead =>
    obtain rfl := Option.some.inj (hread.get.symm.trans hget)
    rcases hshut with ⟨e, hdec, hno⟩ | hverify
    · rw [hdec] at hdead
      exact absurd hdead hno
    · have hdown := teardown_tornDown (P := P)
        (m := { m with session := some (session'.decrypt P pkt).2 }) rfl now true
      exact Or.inr ⟨hread.sid, hverify, Or.inr ⟨hdown.peer, Or.inl hdown.session⟩⟩

end ClientSessionManager

/-- In every state of a manager, a datagram changes a live session only if it carries the id of
the session and its tag verifies under the receive key of the session, or if it completes a
handshake that evicts the session. It moves the peer and the clocks and flags behind the activity
of a session only if it decrypts; a session that it takes down has none of them left. No other call
moves a peer or an activity clock, but that a client begins a handshake with its server. -/
theorem datagram_frame (P : Primitives T) :
    (∀ (m : ServerSessionManager T) (pkt : WirePacket) (src : SocketAddr) (clock : Clock) (now : ℕ)
      (draw : ServerDraw T) (order : List SessionId) (sid : SessionId) (entry : SessionEntry),
      m.sessions.get sid = some entry →
      ((m.handleDatagram P pkt src clock now draw order).2.sessions.get sid ≠ some entry →
        pkt.sid = sid ∧ entry.session.cipher.TagVerifies P pkt ∨
          ServerSessionManager.EvictedBy P m pkt src clock draw order sid) ∧
      ∀ entry', (m.handleDatagram P pkt src clock now draw order).2.sessions.get sid = some entry' →
        entry'.peer ≠ entry.peer ∨ entry'.lastActivity ≠ entry.lastActivity →
        pkt.sid = sid ∧ ∃ inner, (entry.session.decrypt P pkt).1 = .ok inner) ∧
    (∀ (m : ServerSessionManager T) (c : ServerSessionManager.Call T),
      (∀ pkt src clock now draw order, c ≠ .datagram pkt src clock now draw order) →
      ServerSessionManager.KeepsPeers m (ServerSessionManager.call P m c).2) ∧
    (∀ (m : ClientSessionManager T) (pkt : WirePacket) (src : SocketAddr) (rand : T.KemRand)
      (now : ℕ) (session : WireSession), m.session = some session →
      (¬ ClientSessionManager.SameSession m (m.handleDatagram P pkt src rand now).2 →
        pkt.sid = session.sessionId ∧ session.cipher.TagVerifies P pkt) ∧
      ((m.handleDatagram P pkt src rand now).2.peer ≠ m.peer ∨
        (m.handleDatagram P pkt src rand now).2.session ≠ none ∧
          ((m.handleDatagram P pkt src rand now).2.ready ≠ m.ready ∨
            (m.handleDatagram P pkt src rand now).2.roundsUnanswered ≠ m.roundsUnanswered) →
        ∃ inner, (session.decrypt P pkt).1 = .ok inner)) ∧
    ∀ (m : ClientSessionManager T) (c : ClientSessionManager.Call T),
      (∀ draws kemSk xSk now, c ≠ .beginHandshake draws kemSk xSk now) →
      (∀ pkt src rand now, c ≠ .datagram pkt src rand now) →
      (ClientSessionManager.call P m c).2.peer = m.peer := by
  refine ⟨?_, fun m c hc => ServerSessionManager.keepsPeers_call hc, ?_,
    fun m c hbegin hin => (ClientSessionManager.kept_call hbegin hin).peer⟩
  · intro m pkt src clock now draw order sid entry hget
    rcases (ServerSessionManager.handleDatagram_handles (P := P) m pkt src clock now draw
      order).get hget with
      hsame | ⟨hevicted, hgone⟩ | ⟨hsid, hverify, hcase⟩
    · refine ⟨fun hne => absurd hsame hne, fun entry' hget' hne => ?_⟩
      obtain rfl := Option.mem_unique hsame hget'
      simp at hne
    · refine ⟨fun _ => Or.inr hevicted, fun entry' hget' => ?_⟩
      cases hgone.symm.trans hget'
    · refine ⟨fun _ => Or.inl ⟨hsid, hverify⟩, fun entry' hget' hne => ⟨hsid, ?_⟩⟩
      rcases hcase with hopened | hgone | hkept
      · exact hopened
      · cases hgone.symm.trans hget'
      · obtain rfl := Option.mem_unique hkept hget'
        simp at hne
  · intro m pkt src rand now session hget
    rcases ClientSessionManager.handleDatagram_session (P := P) hget pkt src rand now with
      hsame | ⟨hsid, hverify, hcase⟩
    · refine ⟨fun hne => absurd hsame hne, fun hne => ?_⟩
      simp [hsame.peer, hsame.ready, hsame.roundsUnanswered] at hne
    · refine ⟨fun _ => ⟨hsid, hverify⟩, fun hne => ?_⟩
      rcases hcase with hopened | ⟨hpeer, hnone | ⟨hready, hrounds⟩⟩
      · exact hopened
      · simp [hpeer, hnone] at hne
      · simp [hpeer, hready, hrounds] at hne

section Sample

def blankPacket : WirePacket := List.Vector.replicate _ 0

theorem blankPacket_plain : isHandshakeFragment blankPacket = false := by decide

theorem blankPacket_sid : blankPacket.sid ≠ Exchange.sampleSid := by decide

/-- The blank datagram leaves the sample sessions alone. -/
theorem datagram_frame_sample :
    (∃ (m : ServerSessionManager Sample.types) (entry : SessionEntry),
      m.sessions.get Exchange.sampleSid = some entry ∧
      (m.handleDatagram Sample.primitives blankPacket Exchange.sampleAddr Exchange.still 0
        (Exchange.sampleDraws 0) []).2.sessions.get Exchange.sampleSid = some entry) ∧
    ∃ (m : ClientSessionManager Sample.types) (session : WireSession), m.session = some session ∧
      ClientSessionManager.SameSession m
        (m.handleDatagram Sample.primitives blankPacket Exchange.sampleAddr (5 : UInt8) 0).2 := by
  constructor
  · obtain ⟨before, last, hs₀, hs, session, h⟩ :=
      ServerSessionManager.exists_sample_establishing (m := ServerSessionManager.sampleManager)
        Exchange.sampleSid rfl (fun _ => Table.get_empty _) (Table.get_empty _) (by decide) 3 4
    have hget : (ServerSessionManager.run Sample.primitives ServerSessionManager.sampleManager
        (before ++ [last])).sessions.get Exchange.sampleSid =
          some ⟨session, Exchange.sampleAddr, 0, 0⟩ := by
      rw [h.run_eq]
      exact Table.get_put_self ..
    refine ⟨_, _, hget, ?_⟩
    by_contra hchanged
    rcases ((datagram_frame Sample.primitives).1 _ blankPacket Exchange.sampleAddr Exchange.still 0
      (Exchange.sampleDraws 0) [] _ _ hget).1 hchanged with ⟨hsid, -⟩ | hevicted
    · exact blankPacket_sid hsid
    · cases blankPacket_plain.symm.trans hevicted.fragment
  · obtain ⟨calls, _, outcome, session, _, -, h⟩ := ClientSessionManager.exists_sample_adopted {} 0
    have hget : (ClientSessionManager.run Sample.primitives (ClientSessionManager.sampleClient {})
        (ClientSessionManager.sampleBegin 0 :: calls)).session = some session.next := by
      rw [h.eq]
      rfl
    refine ⟨_, _, hget, ?_⟩
    by_contra hchanged
    obtain ⟨hown, -⟩ := ((datagram_frame Sample.primitives).2.2.1 _ blankPacket Exchange.sampleAddr
      (5 : UInt8) 0 _ hget).1 hchanged
    exact blankPacket_sid (hown.trans ((WireSession.established_ok h.new).2.1.trans h.sid))

end Sample

end PqTunnel
