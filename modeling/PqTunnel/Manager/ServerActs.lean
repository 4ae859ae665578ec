import PqTunnel.Handshake.Roster
import PqTunnel.Manager.ServerSteps

/-! Everything a call can do to the session table of the server manager, as a sequence of acts. -/
namespace PqTunnel.ServerSessionManager
open Transition

variable {T : CryptoTypes}

inductive Call (T : CryptoTypes) where
  | datagram (pkt : WirePacket) (src : SocketAddr) (clock : Clock) (now : ℕ) (draw : ServerDraw T)
      (order : List SessionId)
  | setRoster (roster : List T.SigPk)
  | appOutbound (sid : SessionId) (payload : Bytes)
  | tunOutbound (sid : SessionId) (payload : Bytes)
  | coverPacket (sid : SessionId) (fill : Except String Payload)
  | coverPacketAll (fills : SessionId → Except String Payload)
  | closeSession (sid : SessionId) (now : ℕ)
  | tick (now : ℕ) (order : List SessionId)

def Call.time : Call T → Option ℕ
  | .datagram _ _ _ now _ _ => some now
  | .closeSession _ now => some now
  | .tick now _ => some now
  | _ => none

def returned : Except (Fault ManagerError) ManagerEvent → List ManagerEvent
  | .ok ev => ev.toList
  | .error _ => []

def returnedAll : Except (Fault ManagerError) (List ManagerEvent) → List ManagerEvent
  | .ok evs => evs
  | .error _ => []

def call (P : Primitives T) (m : ServerSessionManager T) :
    Call T → List ManagerEvent × ServerSessionManager T
  | .datagram pkt src clock now draw order =>
    let r := m.handleDatagram P pkt src clock now draw order
    (returned r.1, r.2)
  | .setRoster roster => ([], (m.setRoster roster).2)
  | .appOutbound sid payload =>
    let r := m.appOutbound P sid payload
    (returned r.1, r.2)
  | .tunOutbound sid payload =>
    let r := m.tunOutbound P sid payload
    (returned r.1, r.2)
  | .coverPacket sid fill =>
    let r := m.coverPacket P sid fill
    (returned r.1, r.2)
  | .coverPacketAll fills =>
    let r := m.coverPacketAll P fills
    (returnedAll r.1, r.2)
  | .closeSession sid now =>
    let r := m.closeSession P sid now
    (returned r.1, r.2)
  | .tick now order => m.tick P now order

def run (P : Primitives T) (m : ServerSessionManager T) (calls : List (Call T)) :
    ServerSessionManager T :=
  calls.foldl (fun m c => (call P m c).2) m

theorem run_snoc (P : Primitives T) (m : ServerSessionManager T) (calls : List (Call T))
    (c : Call T) : run P m (calls ++ [c]) = (call P (run P m calls) c).2 := by
  simp [run]

theorem run_append (P : Primitives T) (m : ServerSessionManager T) (calls calls' : List (Call T)) :
    run P m (calls ++ calls') = run P (run P m calls) calls' := List.foldl_append ..

variable {P : Primitives T}

/-- The acts of which the calls consist, with the events each one gives. -/
inductive Act (P : Primitives T) (m : ServerSessionManager T) :
    List ManagerEvent → ServerSessionManager T → Prop where
  | idle (evs : List ManagerEvent) (calls : List (ServerHandshake.Call T)) (gate : FailGate)
      (hevs : ∀ ev ∈ evs, ev.notice = none) :
      Act P m evs { m with hs := ServerHandshake.run P m.hs calls, failGate := gate }
  | received (sid : SessionId) (entry entry' : SessionEntry) (w : ReplayWindow)
      (hget : m.sessions.get sid = some entry)
      (hsame : entry'.session =
        { entry.session with cipher := { entry.session.cipher with replay := w } }) :
      Act P m [] (m.putSession sid entry')
  | sent (sid : SessionId) (entry : SessionEntry) (msgType : MessageType) (payload : Bytes)
      (packet : WirePacket) (session : WireSession) (hget : m.sessions.get sid = some entry)
      (henc : entry.session.encrypt P msgType payload = (.ok packet, session)) :
      Act P m [.sendPacket packet entry.peer]
        { m.putSession sid { entry with session } with
          encrypted := m.encrypted ++ entry.session.sealing (.ok packet) }
  | ended (sid : SessionId) (entry : SessionEntry) (reason : CloseReason)
      (hget : m.sessions.get sid = some entry) :
      Act P m [.closed sid reason] (m.removeSession sid)
  | expired (sid : SessionId) (entry : SessionEntry) (reason : CloseReason) (now : ℕ)
      (hget : m.sessions.get sid = some entry) :
      Act P m (((m.removeSession sid).beginClose P entry now).1.toList ++ [.closed sid reason])
        ((m.removeSession sid).beginClose P entry now).2
  | closedByUser (sid : SessionId) (entry : SessionEntry) (now : ℕ)
      (hget : m.sessions.get sid = some entry) :
      Act P m ((m.queueClosed sid .userClosed).beginClose P entry now).1.toList
        ((m.queueClosed sid .userClosed).beginClose P entry now).2
  | evicted (order : List SessionId) : Act P m [] (m.evictAtCapacity order)
  | flushed (now : ℕ) (gate : FailGate) :
      Act P m (m.pendingClosed ++ (retransmitCloses P m.pendingCloses now).1)
        { m with
          pendingClosed := []
          pendingCloses := (retransmitCloses P m.pendingCloses now).2.1
          failGate := gate
          encrypted := m.encrypted ++ (retransmitCloses P m.pendingCloses now).2.2 }

/-- The acts that neither begin a Close nor flush. -/
inductive Deed (P : Primitives T) (now : ℕ) (m : ServerSessionManager T) :
    List ManagerEvent → ServerSessionManager T → Prop where
  | idle (evs : List ManagerEvent) (calls : List (ServerHandshake.Call T)) (gate : FailGate)
      (hevs : ∀ ev ∈ evs, ev.notice = none) :
      Deed P now m evs { m with hs := ServerHandshake.run P m.hs calls, failGate := gate }
  | received (sid : SessionId) (entry entry' : SessionEntry) (w : ReplayWindow)
      (hget : m.sessions.get sid = some entry)
      (hsame : entry'.session =
        { entry.session with cipher := { entry.session.cipher with replay := w } })
      (hsince : entry'.establishedAt = entry.establishedAt) :
      Deed P now m [] (m.putSession sid entry')
  | sent (sid : SessionId) (entry : SessionEntry) (msgType : MessageType) (payload : Bytes)
      (packet : WirePacket) (session : WireSession) (hget : m.sessions.get sid = some entry)
      (henc : entry.session.encrypt P msgType payload = (.ok packet, session)) :
      Deed P now m [.sendPacket packet entry.peer]
        { m.putSession sid { entry with session } with
          encrypted := m.encrypted ++ entry.session.sealing (.ok packet) }
  | ended (sid : SessionId) (entry : SessionEntry) (reason : CloseReason)
      (hget : m.sessions.get sid = some entry) :
      Deed P now m [.closed sid reason] (m.removeSession sid)
  | evicted (order : List SessionId) : Deed P now m [] (m.evictAtCapacity order)

/-- The acts at one time that begin a Close. -/
inductive Teardown (P : Primitives T) (now : ℕ) (m : ServerSessionManager T) :
    List ManagerEvent → ServerSessionManager T → Prop where
  | expired (sid : SessionId) (entry : SessionEntry) (reason : CloseReason)
      (hget : m.sessions.get sid = some entry) :
      Teardown P now m
        (((m.removeSession sid).beginClose P entry now).1.toList ++ [.closed sid reason])
        ((m.removeSession sid).beginClose P entry now).2
  | closedByUser (sid : SessionId) (entry : SessionEntry)
      (hget : m.sessions.get sid = some entry) :
      Teardown P now m ((m.queueClosed sid .userClosed).beginClose P entry now).1.toList
        ((m.queueClosed sid .userClosed).beginClose P entry now).2

theorem Deed.act {now : ℕ} {m m' : ServerSessionManager T} {evs : List ManagerEvent}
    (h : Deed P now m evs m') : Act P m evs m' := by
  cases h with
  | idle _ calls gate hevs => exact .idle _ calls gate hevs
  | received sid entry entry' w hget hsame => exact .received sid entry entry' w hget hsame
  | sent sid entry msgType payload packet session hget henc =>
    exact .sent sid entry msgType payload packet session hget henc
  | ended sid entry reason hget => exact .ended sid entry reason hget
  | evicted order => exact .evicted order

theorem Teardown.act {now : ℕ} {m m' : ServerSessionManager T} {evs : List ManagerEvent}
    (h : Teardown P now m evs m') : Act P m evs m' := by
  cases h with
  | expired sid entry reason hget => exact .expired sid entry reason now hget
  | closedByUser sid entry hget => exact .closedByUser sid entry now hget

/-- A datagram that completes a handshake opens a session, with an eviction before it at
capacity. -/
inductive Opens (P : Primitives T) (m : ServerSessionManager T) (pkt : WirePacket)
    (src : SocketAddr) (clock : Clock) (now : ℕ) (draw : ServerDraw T) (order : List SessionId) :
    List ManagerEvent → ServerSessionManager T → Prop where
  | mk (hs : ServerHandshake T) (outcome : HandshakeOutcome T) (session : WireSession)
      (hfrag : isHandshakeFragment pkt = true)
      (hcomplete : m.hs.handleDatagram P pkt src clock draw = (.ok (.complete outcome), hs))
      (hnone : m.sessions.get outcome.sessionId = none)
      (hnew : WireSession.established P .server outcome = .ok session) :
      Opens P m pkt src clock now draw order [.established outcome.sessionId src]
        ((({ m with hs } : ServerSessionManager T).evictAtCapacity order).putSession
          outcome.sessionId ⟨session, src, now, now⟩)

section Traces

variable {m : ServerSessionManager T} {sid : SessionId} {entry : SessionEntry} {t : ℕ}

theorem Deed.rewritten (hget : m.sessions.get sid = some entry) :
    Deed P t m [] (m.putSession sid entry) :=
  .received sid entry entry entry.session.cipher.replay hget rfl rfl

theorem Encrypts.trace {r : ManagerStep T} (h : Encrypts P m sid r) :
    Trace (Deed P t) m (returned r.1) r.2 := by
  cases h with
  | idle e => exact .refl m
  | sent entry msgType payload packet session hget henc =>
    exact .single (.sent sid entry msgType payload packet session hget henc)
  | spent entry msgType payload hget => exact .single (.ended sid entry _ hget)
  | failed entry e hget => exact .single (.rewritten hget)

/-- A received packet leaves keys, counter and state of the session alone, unless it ends it. -/
theorem receive_cases (entry : SessionEntry) (pkt : WirePacket) (src : SocketAddr) (now : ℕ) :
    (∃ reason, (entry.receive P pkt src now).1 = .ok (.sessionDead reason)) ∨
      ∃ w, (entry.receive P pkt src now).2.session =
        { entry.session with cipher := { entry.session.cipher with replay := w } } := by
  obtain ⟨st, w, hframe, hst⟩ := entry.session.decrypt_frame (P := P) pkt
  unfold SessionEntry.receive
  cases hdec : entry.session.decrypt P pkt with
  | mk r session =>
    rw [hdec] at hframe hst
    dsimp only at hframe hst
    cases r with
    | ok inner =>
      rcases hst with rfl | ⟨-, hbad⟩
      · right
        dsimp only
        split <;> exact ⟨w, hframe⟩
      · cases hbad
    | error e =>
      by_cases he : e = .rekeyRequired
      · subst he
        exact Or.inl ⟨_, rfl⟩
      · rcases hst with rfl | ⟨-, hbad⟩
        · cases e with
          | rekeyRequired => exact absurd rfl he
          | codec e => cases e <;> exact Or.inr ⟨w, hframe⟩
          | _ => exact Or.inr ⟨w, hframe⟩
        · exact absurd (Except.error.inj hbad) he

theorem receive_establishedAt (entry : SessionEntry) (pkt : WirePacket) (src : SocketAddr)
    (now : ℕ) : (entry.receive P pkt src now).2.establishedAt = entry.establishedAt := by
  unfold SessionEntry.receive
  split
  · dsimp only
    split <;> rfl
  all_goals rfl

theorem received_trace {pkt : WirePacket} {src : SocketAddr} {now : ℕ}
    {r : Except SessionError DataResult} {entry' : SessionEntry}
    (hget : m.sessions.get pkt.sid = some entry)
    (hrecv : entry.receive P pkt src now = (r, entry'))
    (hlive : ∀ reason, r ≠ .ok (.sessionDead reason)) :
    Trace (Deed P t) m [] (m.putSession pkt.sid entry') := by
  have hcases := receive_cases (P := P) entry pkt src now
  have hsince := receive_establishedAt (P := P) entry pkt src now
  rw [hrecv] at hcases hsince
  rcases hcases with ⟨reason, hdead⟩ | ⟨w, hsame⟩
  · exact absurd hdead (hlive reason)
  · exact .single (.received _ entry entry' w hget hsame hsince)

theorem Handles.trace {pkt : WirePacket} {src : SocketAddr} {clock : Clock} {now : ℕ}
    {draw : ServerDraw T} {order : List SessionId} {r : ManagerStep T}
    (h : Handles P m pkt src clock now draw order r) :
    Opens P m pkt src clock now draw order (returned r.1) r.2 ∨
      Trace (Deed P t) m (returned r.1) r.2 := by
  have hidle : ∀ {r hs} (evs : List ManagerEvent),
      m.hs.handleDatagram P pkt src clock draw = (r, hs) → (∀ ev ∈ evs, ev.notice = none) →
      Trace (Deed P t) m evs { m with hs } := by
    intro r hs evs hres hevs
    have hhs : hs = ServerHandshake.run P m.hs [.datagram pkt src clock draw] := by
      rw [ServerHandshake.run, List.foldl_cons, List.foldl_nil, ServerHandshake.call, hres]
    rw [hhs]
    exact .single (.idle evs _ m.failGate hevs)
  cases h with
  | stepped r hs r' hfrag hstep hr =>
    rcases hr with ⟨packets, peer, -, rfl⟩ | ⟨e, -, rfl⟩ | rfl
    · exact Or.inr (hidle _ hstep (by simp [returned, ManagerEvent.toList, ManagerEvent.notice]))
    · cases e <;> exact Or.inr (hidle [] hstep (by simp))
    · exact Or.inr (hidle [] hstep (by simp))
  | unopened outcome hs e hfrag hstep =>
    exact Or.inr ((hidle [] hstep (by simp)).trans (.single (.evicted order)))
  | opened outcome hs session hfrag hstep hfree hnew =>
    exact Or.inl (.mk hs outcome session hfrag hstep hfree hnew)
  | ignored => exact Or.inr (.refl m)
  | unready entry e entry' hread hrecv => exact Or.inr (received_trace hread.get hrecv (by simp))
  | read entry result entry' ev hread hrecv hresult hlive hev =>
    have hput : Trace (Deed P t) m [] _ :=
      received_trace hread.get hrecv fun reason h => hlive reason (Except.ok.inj h)
    rcases hev with rfl | ⟨inner, rfl⟩
    · exact Or.inr hput
    · exact Or.inr (hput.trans (.single (.idle [_] [] _ (by simp [ManagerEvent.notice]))))
  | acked entry inner entry' hread hrecv =>
    exact Or.inr ((received_trace hread.get hrecv (by simp)).trans
      (encrypts_put ..).trace)
  | ended entry result entry' reason hread => exact Or.inr (.single (.ended _ entry _ hread.get))
  | charged entry entry' hread hrecv =>
    exact Or.inr ((received_trace hread.get hrecv (by simp)).trans (.single (.idle [] [] _ (by simp))))

variable (now : ℕ)

theorem closeSession_trace :
    Trace (Teardown P now) m (returned (m.closeSession P sid now).1) (m.closeSession P sid now).2 := by
  unfold closeSession
  split
  · exact .refl m
  · rename_i entry hget
    exact .single (.closedByUser sid entry hget)

/-- The events of the cover packets that the loop makes, whether or not an error drops them. -/
def coverEvents (P : Primitives T) (fills : SessionId → Except String Payload) :
    List SessionId → ServerSessionManager T → List ManagerEvent
  | [], _ => []
  | sid :: sids, m =>
    match m.coverPacket P sid (fills sid) with
    | (.error _, _) => []
    | (.ok ev, m) => ev.toList ++ coverEvents P fills sids m

theorem coverLoop_trace (fills : SessionId → Except String Payload) (sids : List SessionId)
    (m : ServerSessionManager T) :
    Trace (Deed P t) m (coverEvents P fills sids m) (coverLoop P fills sids m).2 ∧
      ∀ out, (coverLoop P fills sids m).1 = .ok out → coverEvents P fills sids m = out := by
  induction sids generalizing m with
  | nil => exact ⟨.refl m, fun out h => Except.ok.inj h⟩
  | cons sid sids ih =>
    have hone := (encrypts_coverPacket (P := P) m sid (fills sid)).trace (t := t)
    unfold coverLoop coverEvents
    cases hc : m.coverPacket P sid (fills sid) with
    | mk r m' =>
      rw [hc] at hone
      cases r with
      | error e => exact ⟨hone, nofun⟩
      | ok ev =>
        obtain ⟨htrace, hok⟩ := ih m'
        dsimp only
        cases hl : coverLoop P fills sids m' with
        | mk r' m'' =>
          rw [hl] at htrace hok
          refine ⟨?_, ?_⟩
          · cases r' <;> exact hone.trans htrace
          · intro out hout
            cases r' with
            | error e => cases hout
            | ok out' =>
              obtain rfl := Except.ok.inj hout
              rw [hok out' rfl]

variable (m)

theorem beginClose_sessions (entry : SessionEntry) (now : ℕ) :
    (m.beginClose P entry now).2.sessions = m.sessions := by
  unfold beginClose
  split <;> rfl

/-- The loop meets each expired session once, while it is still in the table. -/
theorem expireLoop_trace (l : List (SessionId × CloseReason)) (m : ServerSessionManager T)
    (hl : (l.map (·.1)).Nodup) (hlive : ∀ e ∈ l, ∃ entry, m.sessions.get e.1 = some entry) :
    Trace (Teardown P now) m (expireLoop P now l m).1 (expireLoop P now l m).2 := by
  induction l generalizing m with
  | nil => exact .refl m
  | cons e l ih =>
    obtain ⟨sid, reason⟩ := e
    obtain ⟨entry, hget⟩ := hlive _ List.mem_cons_self
    obtain ⟨hnot, hl⟩ := List.nodup_cons.mp hl
    have hone : Teardown P now m _ _ := .expired sid entry reason hget
    have hrest : ∀ e ∈ l, ∃ entry',
        ((m.removeSession sid).beginClose P entry now).2.sessions.get e.1 = some entry' := by
      intro e he
      obtain ⟨entry', hget'⟩ := hlive e (List.mem_cons_of_mem _ he)
      refine ⟨entry', ?_⟩
      rw [beginClose_sessions, removeSession, Table.get_remove_ne _ ?_, hget']
      rintro rfl
      exact hnot (List.mem_map.mpr ⟨e, he, rfl⟩)
    have htrace := (Trace.single hone).trans (ih _ hl hrest)
    unfold expireLoop
    simp only [hget]
    rw [List.append_assoc, List.singleton_append] at htrace
    exact htrace

theorem mem_expired {m : ServerSessionManager T} {now : ℕ} {order : List SessionId}
    {x : SessionId × CloseReason} : x ∈ m.expired now order ↔
      ∃ e, m.sessions.get x.1 = some e ∧ expiry m.limits now e = some x.2 := by
  obtain ⟨sid, reason⟩ := x
  rw [ServerSessionManager.expired, List.mem_filterMap]
  constructor
  · rintro ⟨⟨sid', e⟩, hmem, heq⟩
    obtain ⟨reason', hexp, hpair⟩ := Option.map_eq_some_iff.mp heq
    obtain ⟨rfl, rfl⟩ := Prod.mk.inj hpair
    exact ⟨e, Table.mem_iter.mp hmem, hexp⟩
  · rintro ⟨e, hget, hexp⟩
    exact ⟨(sid, e), Table.mem_iter.mpr hget, by rw [hexp]; rfl⟩

variable (order : List SessionId)

theorem nodup_expired : ((m.expired now order).map (·.1)).Nodup := by
  refine List.Nodup.sublist ?_ (m.sessions.nodup_iter order)
  unfold ServerSessionManager.expired
  rw [List.map_filterMap]
  induction m.sessions.iter order with
  | nil => exact .slnil
  | cons e l ih =>
    cases he : expiry m.limits now e.2 with
    | none => simpa [he] using ih.cons e.1
    | some reason => simpa [he] using ih.cons_cons e.1

/-- A tick takes the expired sessions down before it flushes the queues. -/
theorem expired_trace :
    Trace (Teardown P now) m (expireLoop P now (m.expired now order) m).1
      (expireLoop P now (m.expired now order) m).2 := by
  apply expireLoop_trace now _ m (nodup_expired m now order)
  intro x hx
  obtain ⟨e, hget, -⟩ := mem_expired.mp hx
  exact ⟨e, hget⟩

theorem tick_trace : Trace (Act P) m (m.tick P now order).1 (m.tick P now order).2 := by
  have htrace := ((expired_trace (P := P) m now order).mono Teardown.act).trans (.single (.flushed now
    ((expireLoop P now (m.expired now order) m).2.failGate.sweep now
      (expireLoop P now (m.expired now order) m).2.limits)))
  rw [← List.append_assoc] at htrace
  exact htrace

/-- The events that a failed cover batch loses. -/
def discarded (P : Primitives T) (m : ServerSessionManager T) : Call T → List ManagerEvent
  | .coverPacketAll fills =>
    match (m.coverPacketAll P fills).1 with
    | .ok _ => []
    | .error _ => coverEvents P fills m.sortedSids m
  | _ => []

theorem coverPacketAll_trace (fills : SessionId → Except String Payload) :
    Trace (Deed P t) m
      ((call P m (.coverPacketAll fills)).1 ++ discarded P m (.coverPacketAll fills))
      (m.coverPacketAll P fills).2 := by
  obtain ⟨htrace, hok⟩ := coverLoop_trace (P := P) fills m.sortedSids m
  change Trace (Deed P t) m _ (m.coverPacketAll P fills).2 at htrace
  cases hres : (m.coverPacketAll P fills).1 with
  | error e => simpa [call, discarded, returnedAll, hres] using htrace
  | ok out =>
    rw [hok out hres] at htrace
    simpa [call, discarded, returnedAll, hres] using htrace

/-- Every call but a tick opens a session or closes one, or it is a sequence of deeds. -/
theorem call_deeds {c : Call T} (htick : ∀ now order, c ≠ .tick now order)
    (ht : ∀ now, c.time = some now → now = t) :
    (∃ pkt src clock draw order, c = .datagram pkt src clock t draw order ∧
      Opens P m pkt src clock t draw order (call P m c).1 (call P m c).2) ∨
    (∃ sid, c = .closeSession sid t ∧
      Trace (Teardown P t) m (call P m c).1 (call P m c).2) ∨
    Trace (Deed P t) m ((call P m c).1 ++ discarded P m c) (call P m c).2 := by
  cases c with
  | datagram pkt src clock now draw order =>
    obtain rfl := ht now rfl
    rcases (handleDatagram_handles (P := P) m pkt src clock now draw order).trace (t := now) with h | h
    · exact Or.inl ⟨pkt, src, clock, draw, order, rfl, h⟩
    · exact Or.inr (Or.inr (by simpa [call, discarded] using h))
  | setRoster roster =>
    right
    right
    have hidle : Deed P t m _ _ := .idle [] [.setRoster roster] m.failGate (by simp)
    have heq : (m.setRoster roster).2 =
        { m with hs := ServerHandshake.run P m.hs [.setRoster roster] } := by
      rw [ServerHandshake.run, List.foldl_cons, List.foldl_nil, ServerHandshake.call, setRoster]
      split <;> rename_i h <;> rw [h]
    simpa [call, discarded, heq] using Trace.single hidle
  | appOutbound sid payload =>
    exact Or.inr (Or.inr (by simpa [call, discarded] using (encrypts_appOutbound ..).trace))
  | tunOutbound sid payload =>
    exact Or.inr (Or.inr (by simpa [call, discarded] using (encrypts_tunOutbound ..).trace))
  | coverPacket sid fill =>
    exact Or.inr (Or.inr (by simpa [call, discarded] using (encrypts_coverPacket ..).trace))
  | coverPacketAll fills => exact Or.inr (Or.inr (coverPacketAll_trace m fills))
  | closeSession sid now =>
    obtain rfl := ht now rfl
    exact Or.inr (Or.inl ⟨sid, rfl, closeSession_trace now⟩)
  | tick now order => exact absurd rfl (htick now order)

/-- A call opens a session, or it is a sequence of acts. -/
theorem call_cases (c : Call T) :
    (∃ pkt src clock now draw order, c = .datagram pkt src clock now draw order ∧
      Opens P m pkt src clock now draw order (call P m c).1 (call P m c).2) ∨
    Trace (Act P) m ((call P m c).1 ++ discarded P m c) (call P m c).2 := by
  by_cases htick : ∃ now order, c = .tick now order
  · obtain ⟨now, order, rfl⟩ := htick
    exact Or.inr (by simpa [call, discarded] using tick_trace ..)
  · simp only [not_exists] at htick
    have ht : ∀ now, c.time = some now → now = c.time.getD 0 := by
      intro now hnow
      rw [hnow, Option.getD_some]
    rcases call_deeds (P := P) m htick ht with
      ⟨pkt, src, clock, draw, order, hc, hopens⟩ | ⟨sid, hc, htrace⟩ | htrace
    · exact Or.inl ⟨pkt, src, clock, _, draw, order, hc, hopens⟩
    · have hkept : discarded P m c = [] := by
        rw [hc]
        rfl
      rw [hkept, List.append_nil]
      exact Or.inr (htrace.mono Teardown.act)
    · exact Or.inr (htrace.mono Deed.act)

end Traces

end PqTunnel.ServerSessionManager
