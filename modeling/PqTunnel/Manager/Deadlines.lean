import PqTunnel.Manager.Rearm

/-! What is left after a tick: no session and no handshake that is past a deadline. -/
namespace PqTunnel

variable {T : CryptoTypes} {P : Primitives T}

namespace ServerSessionManager

variable {m m' : ServerSessionManager T} {now : ℕ} {order : List SessionId} {sid : SessionId}
  {entry : SessionEntry}

/-- The session has been idle for the timeout, or has reached its lifetime cap. -/
def PastIdle (limits : SessionLimits) (now : ℕ) (e : SessionEntry) : Prop :=
  ∃ t, limits.idleTimeout = some t ∧ t ≤ now - e.lastActivity

def PastCap (limits : SessionLimits) (now : ℕ) (e : SessionEntry) : Prop :=
  ∃ t, limits.lifetimeCap = some t ∧ t ≤ now - e.establishedAt

theorem all_lt_iff {timeout : Option ℕ} {age : ℕ} :
    (timeout.all fun t => decide (age < t)) = true ↔ ¬ ∃ t, timeout = some t ∧ t ≤ age := by
  cases timeout with
  | none | some t => simp

theorem expiry_eq_none {limits : SessionLimits} :
    expiry limits now entry = none ↔
      ¬ PastIdle limits now entry ∧ ¬ PastCap limits now entry := by
  rw [PastIdle, PastCap, ← all_lt_iff, ← all_lt_iff, expiry]
  split_ifs with hok hlife
  · simpa using hok
  · simpa using fun _ => hlife
  · simp only [Bool.and_eq_true] at hok
    simpa using hok

theorem expiry_eq_some {limits : SessionLimits} {reason : CloseReason}
    (h : expiry limits now entry = some reason) :
    (PastIdle limits now entry ∨ PastCap limits now entry) ∧
      (reason = .lifetimeCap ↔ PastCap limits now entry) ∧
      (reason = .idleTimeout ↔ ¬ PastCap limits now entry) := by
  have hsome : expiry limits now entry ≠ none := by simp [h]
  rw [Ne, expiry_eq_none, not_and_or, not_not, not_not] at hsome
  refine ⟨hsome, ?_⟩
  rw [PastCap, ← not_iff_not (a := reason = .lifetimeCap), ← all_lt_iff]
  rw [expiry] at h
  split_ifs at h with hok hlife
  · obtain rfl := Option.some.inj h
    simpa using hlife
  · obtain rfl := Option.some.inj h
    simpa using hlife

def farewell (P : Primitives T) (e : SessionEntry) : List ManagerEvent :=
  match (e.session.encrypt P .close closeSlot).1 with
  | .ok packet => [.sendPacket packet e.peer]
  | .error _ => []

theorem beginClose_farewell (m : ServerSessionManager T) (e : SessionEntry) (now : ℕ) :
    (m.beginClose P e now).1.toList = farewell P e ∧
      (m.beginClose P e now).2.pendingClosed = m.pendingClosed := by
  rw [farewell]
  unfold beginClose
  split <;> rename_i heq <;> rw [heq] <;> exact ⟨rfl, rfl⟩

/-- What the tick says about a session that it removes. -/
def obituary (P : Primitives T) (m : ServerSessionManager T) (x : SessionId × CloseReason) :
    List ManagerEvent :=
  (m.sessions.get x.1).elim [] (farewell P) ++ [.closed x.1 x.2]

/-- What the loop over the expired sessions leaves and reports. -/
theorem expireLoop_spec (now : ℕ) (l : List (SessionId × CloseReason))
    (m : ServerSessionManager T) (hl : (l.map (·.1)).Nodup)
    (hlive : ∀ x ∈ l, ∃ e, m.sessions.get x.1 = some e) :
    (∀ sid, (expireLoop P now l m).2.sessions.get sid =
      if sid ∈ l.map (·.1) then none else m.sessions.get sid) ∧
    (expireLoop P now l m).2.pendingClosed = m.pendingClosed ∧
    (expireLoop P now l m).1 = l.flatMap (obituary P m) := by
  induction l generalizing m with
  | nil => exact ⟨fun sid => rfl, rfl, rfl⟩
  | cons x l ih =>
    obtain ⟨sid, reason⟩ := x
    obtain ⟨e, hget⟩ := hlive _ List.mem_cons_self
    obtain ⟨hnot, hl⟩ := List.nodup_cons.mp hl
    obtain ⟨hclose, hqueue⟩ := beginClose_farewell (P := P) (m.removeSession sid) e now
    have hother : ∀ {sid'}, sid' ≠ sid →
        ((m.removeSession sid).beginClose P e now).2.sessions.get sid' = m.sessions.get sid' := by
      intro sid' hne
      rw [beginClose_sessions, removeSession, Table.get_remove_ne _ hne]
    have hmem : ∀ x ∈ l, x.1 ≠ sid := by
      intro x hx heq
      exact hnot (List.mem_map.mpr ⟨x, hx, heq⟩)
    obtain ⟨hsessions, hpending, hevs⟩ := ih ((m.removeSession sid).beginClose P e now).2 hl
      fun x hx => by
        rw [hother (hmem x hx)]
        exact hlive x (List.mem_cons_of_mem _ hx)
    unfold expireLoop
    simp only [hget]
    refine ⟨fun sid' => ?_, hpending.trans hqueue, ?_⟩
    · rw [hsessions, List.map_cons]
      by_cases hsid : sid' = sid
      · subst hsid
        rw [if_neg hnot, if_pos List.mem_cons_self, beginClose_sessions, removeSession,
          Table.get_remove_self]
      · rw [hother hsid]
        simp only [List.mem_cons, hsid, false_or]
    · rw [hevs, hclose, List.flatMap_cons]
      have hrest : ∀ x ∈ l, obituary P ((m.removeSession sid).beginClose P e now).2 x =
          obituary P m x := by
        intro x hx
        rw [obituary, hother (hmem x hx), obituary]
      rw [List.flatMap_congr hrest, obituary, hget]
      simp only [Option.elim_some, List.append_assoc, List.singleton_append]

theorem farewell_sends {e : SessionEntry} {ev : ManagerEvent} (h : ev ∈ farewell P e) :
    ∃ pkt peer, ev = .sendPacket pkt peer := by
  unfold farewell at h
  split at h
  · exact ⟨_, _, List.mem_singleton.mp h⟩
  · cases h

theorem closed_mem_obituaries {l : List (SessionId × CloseReason)} {reason : CloseReason} :
    .closed sid reason ∈ l.flatMap (obituary P m) ↔ (sid, reason) ∈ l := by
  rw [List.mem_flatMap]
  constructor
  · rintro ⟨x, hx, hmem⟩
    rw [obituary, List.mem_append, List.mem_singleton] at hmem
    rcases hmem with hmem | heq
    · cases hget : m.sessions.get x.1 with
      | none => simp [hget] at hmem
      | some e =>
        rw [hget] at hmem
        obtain ⟨pkt, peer, heq⟩ := farewell_sends hmem
        cases heq
    · obtain ⟨rfl, rfl⟩ := ManagerEvent.closed.inj heq
      exact hx
  · intro hmem
    exact ⟨(sid, reason), hmem, List.mem_append_right _ (List.mem_singleton_self _)⟩

/-- What a tick at the given time does: the events and the manager it leaves. -/
structure Expires (P : Primitives T) (m : ServerSessionManager T) (now : ℕ)
    (evs : List ManagerEvent) (m' : ServerSessionManager T) : Prop where
  left : ∀ sid e, m'.sessions.get sid = some e ↔ m.sessions.get sid = some e ∧
    ¬ PastIdle m.limits now e ∧ ¬ PastCap m.limits now e
  reports : ∃ own resent, evs = own ++ m.pendingClosed ++ resent ∧
    (∀ ev ∈ resent, ∃ pkt peer, ev = .sendPacket pkt peer) ∧
    (∀ sid reason, .closed sid reason ∈ own → ∃ e, m.sessions.get sid = some e ∧
      (PastIdle m.limits now e ∨ PastCap m.limits now e)) ∧
    ∀ sid e, m.sessions.get sid = some e →
      PastIdle m.limits now e ∨ PastCap m.limits now e →
      ∃ before reason after, own = before ++ (farewell P e ++ .closed sid reason :: after) ∧
        (reason = .lifetimeCap ↔ PastCap m.limits now e) ∧
        (reason = .idleTimeout ↔ ¬ PastCap m.limits now e) ∧
        ∀ other, .closed sid other ∉ before ∧ .closed sid other ∉ after

/-- After a tick no session is past a deadline, and the tick reports each one it removed once,
after its Close packet. -/
theorem tick_expires (P : Primitives T) (m : ServerSessionManager T) (now : ℕ)
    (order : List SessionId) :
    Expires P m now (m.tick P now order).1 (m.tick P now order).2 := by
  have hlive : ∀ x ∈ m.expired now order, ∃ e, m.sessions.get x.1 = some e := by
    intro x hx
    obtain ⟨e, hget, -⟩ := mem_expired.mp hx
    exact ⟨e, hget⟩
  obtain ⟨hsessions, hqueue, hevs⟩ := expireLoop_spec (P := P) now (m.expired now order) m
    (nodup_expired m now order) hlive
  have hpast : ∀ {sid e}, m.sessions.get sid = some e →
      (sid ∈ (m.expired now order).map (·.1) ↔
        PastIdle m.limits now e ∨ PastCap m.limits now e) := by
    intro sid e hget
    rw [← not_iff_not, not_or, ← expiry_eq_none, List.mem_map]
    constructor
    · intro hnot
      by_contra hne
      obtain ⟨reason, hexp⟩ := Option.ne_none_iff_exists'.mp hne
      exact hnot ⟨(sid, reason), mem_expired.mpr ⟨e, hget, hexp⟩, rfl⟩
    · rintro hnone ⟨x, hx, rfl⟩
      obtain ⟨e', hget', hexp⟩ := mem_expired.mp hx
      obtain rfl := Option.mem_unique hget hget'
      rw [hnone] at hexp
      cases hexp
  refine ⟨fun sid e => ?_, (m.expired now order).flatMap (obituary P m), (retransmitCloses P
    (expireLoop P now (m.expired now order) m).2.pendingCloses now).1, ?_,
    fun ev => retransmitCloses_sends, ?_, ?_⟩
  · show (expireLoop P now (m.expired now order) m).2.sessions.get sid = some e ↔ _
    rw [hsessions]
    split_ifs with hgone
    · constructor
      · intro hnone
        cases hnone
      · rintro ⟨hget, hidle, hcap⟩
        exact absurd ((hpast hget).mp hgone) (not_or.mpr ⟨hidle, hcap⟩)
    · constructor
      · intro hget
        exact ⟨hget, not_or.mp fun hold => hgone ((hpast hget).mpr hold)⟩
      · exact And.left
  · rw [← hevs, ← hqueue]
    rfl
  · intro sid reason hmem
    obtain ⟨e, hget, hexp⟩ := mem_expired.mp (closed_mem_obituaries.mp hmem)
    exact ⟨e, hget, (expiry_eq_some hexp).1⟩
  · intro sid e hget hold
    obtain ⟨⟨sid', reason⟩, hmem, rfl⟩ := List.mem_map.mp ((hpast hget).mpr hold)
    obtain ⟨e', hget', hexp⟩ := mem_expired.mp hmem
    obtain rfl := Option.mem_unique hget hget'
    obtain ⟨l, l', hsplit⟩ := List.append_of_mem hmem
    have hnodup := nodup_expired m now order
    rw [hsplit, List.map_append, List.map_cons] at hnodup
    obtain ⟨-, hafter, hbefore⟩ := List.nodup_append.mp hnodup
    refine ⟨l.flatMap (obituary P m), reason, l'.flatMap (obituary P m), ?_,
      (expiry_eq_some hexp).2.1, (expiry_eq_some hexp).2.2, fun other => ?_⟩
    · rw [hsplit, List.flatMap_append, List.flatMap_cons, obituary, hget]
      simp only [Option.elim_some, List.append_assoc, List.singleton_append]
    · rw [closed_mem_obituaries, closed_mem_obituaries]
      constructor
      · intro hin
        exact hbefore _ (List.mem_map_of_mem hin) _ List.mem_cons_self rfl
      · intro hin
        exact (List.nodup_cons.mp hafter).1 (List.mem_map.mpr ⟨_, hin, rfl⟩)

end ServerSessionManager

namespace ClientSessionManager
open ServerSessionManager (Expires tick_expires closedSid)

variable {m m' : ClientSessionManager T} {now : ℕ} {evs : List ManagerEvent}

section Rules

/-- The three deadlines of a tick on the session, one after the other. -/
def sessionDeadlines (P : Primitives T) (m : ClientSessionManager T) (now : ℕ) :
    List ManagerEvent × ClientSessionManager T :=
  let (capped, m) := m.closeIf P (m.lifetimePassed now) .lifetimeCap now
  let (unconfirmed, m) := m.closeIf P (m.confirmDeadlinePassed now) .notConfirmed now
  let (silent, m) := m.closeIf P m.peerUnresponsive .peerUnresponsive now
  (capped ++ unconfirmed ++ silent, m)

/-- The events and the manager of a tick before it expires queued payloads. -/
def enforced (P : Primitives T) (m : ClientSessionManager T) (now : ℕ) :
    List ManagerEvent × ClientSessionManager T :=
  ((m.expireHandshake now).1 ++ ((m.expireHandshake now).2.sessionDeadlines P now).1,
    ((m.expireHandshake now).2.sessionDeadlines P now).2)

def lostReport (m : ClientSessionManager T) (now : ℕ) : List ManagerEvent :=
  if 0 < (m.expireQueued now).1 then
    [ManagerEvent.outboundDropped (m.expireQueued now).2.droppedOutbound]
  else []

variable (m)

theorem tick_events (now : ℕ) :
    (m.tick P now).1 = (m.enforced P now).1 ++ (m.enforced P now).2.lostReport now ++
      (m.enforced P now).2.pendingClosed ++
      (retransmitCloses P (m.enforced P now).2.pendingCloses now).1 := by
  simp only [enforced, sessionDeadlines, lostReport, tick, List.append_assoc]
  rfl

theorem tick_left (now : ℕ) :
    (m.tick P now).2 = { ((m.enforced P now).2.expireQueued now).2 with
      pendingClosed := []
      pendingCloses := (retransmitCloses P (m.enforced P now).2.pendingCloses now).2.1
      encrypted := (m.enforced P now).2.encrypted ++
        (retransmitCloses P (m.enforced P now).2.pendingCloses now).2.2 } := rfl

/-- The rule of a tick that closes a session for the given reason. -/
def Due (m : ClientSessionManager T) (now : ℕ) (reason : CloseReason) : Prop :=
  reason = .lifetimeCap ∧ m.lifetimePassed now = true ∨
    reason = .notConfirmed ∧ m.confirmDeadlinePassed now = true ∨
    reason = .peerUnresponsive ∧ m.peerUnresponsive = true

/-- The deadlines close the session once, or they all leave it alone. -/
theorem sessionDeadlines_cases (now : ℕ) :
    (m.sessionDeadlines P now = ([], m) ∧ (m.session = none ∨ ∀ reason, ¬ m.Due now reason)) ∨
      ∃ session reason, m.session = some session ∧ m.Due now reason ∧ m.sessionDeadlines P now =
        ((m.teardown P now true).1.toList ++ [.closed session.sessionId reason],
          (m.teardown P now true).2) := by
  have hfree : ∀ {session}, m.session = some session → (m.teardown P now true).2.session = none :=
    fun hget => (teardown_tornDown hget now true).session
  rw [sessionDeadlines]
  rcases m.closeIf_cases (P := P) (m.lifetimePassed now) .lifetimeCap now with
    ⟨hkeep, hcap⟩ | ⟨session, hget, hpassed, hclose⟩
  · rw [hkeep]
    dsimp only
    rcases m.closeIf_cases (P := P) (m.confirmDeadlinePassed now) .notConfirmed now with
      ⟨hkeep, hconfirm⟩ | ⟨session, hget, hpassed, hclose⟩
    · rw [hkeep]
      dsimp only
      rcases m.closeIf_cases (P := P) m.peerUnresponsive .peerUnresponsive now with
        ⟨hkeep, hpeer⟩ | ⟨session, hget, hpassed, hclose⟩
      · rw [hkeep]
        refine Or.inl ⟨rfl, ?_⟩
        rcases hcap, hconfirm, hpeer with ⟨hnone | hcap, hnone | hconfirm, hnone | hpeer⟩ <;>
          first | exact Or.inl hnone | skip
        simp [Due, hcap, hconfirm, hpeer]
      · rw [hclose]
        exact Or.inr ⟨session, _, hget, Or.inr (Or.inr ⟨rfl, hpassed⟩), rfl⟩
    · rw [hclose]
      dsimp only
      rw [closeIf_of_free (hfree hget)]
      refine Or.inr ⟨session, _, hget, Or.inr (Or.inl ⟨rfl, hpassed⟩), ?_⟩
      simp
  · rw [hclose]
    dsimp only
    rw [closeIf_of_free (hfree hget)]
    dsimp only
    rw [closeIf_of_free (hfree hget)]
    refine Or.inr ⟨session, _, hget, Or.inl ⟨rfl, hpassed⟩, ?_⟩
    simp

variable {m}

/-- A tick gives up the handshake, closes the session, or leaves both alone. -/
inductive Enforces (P : Primitives T) (m : ClientSessionManager T) (now : ℕ) :
    List ManagerEvent × ClientSessionManager T → Prop where
  | kept (hhs : m.hs = none ∨ m.handshakeDeadlinePassed now = false)
      (hsession : m.session = none ∨ ∀ reason, ¬ m.Due now reason) : Enforces P m now ([], m)
  | gaveUp (hs : ClientHandshake T) (hget : m.hs = some hs) (hfree : m.session = none)
      (hpassed : m.handshakeDeadlinePassed now = true) :
      Enforces P m now ([.closed hs.sid .handshakeTimeout], m.dropHandshake)
  | closed (session : WireSession) (reason : CloseReason) (hidle : m.hs = none)
      (hget : m.session = some session) (hdue : m.Due now reason) :
      Enforces P m now ((m.teardown P now true).1.toList ++ [.closed session.sessionId reason],
        (m.teardown P now true).2)

theorem enforced_cases (hone : OneLive m) (now : ℕ) : Enforces P m now (m.enforced P now) := by
  rw [enforced, expireHandshake]
  cases hget : m.hs with
  | none =>
    dsimp only [List.nil_append]
    rcases m.sessionDeadlines_cases (P := P) now with ⟨heq, hsession⟩ | ⟨session, reason, hs, hdue, heq⟩
    · rw [heq]
      exact .kept (Or.inl hget) hsession
    · rw [heq]
      exact .closed session reason hget hs hdue
  | some hs =>
    have hfree : m.session = none := hone.resolve_left (by simp [hget])
    dsimp only
    split_ifs with hpassed
    · have hnone : m.dropHandshake.session = none := hfree
      rcases m.dropHandshake.sessionDeadlines_cases (P := P) now with ⟨heq, -⟩ | ⟨session, _, hs', -, -⟩
      · rw [heq]
        exact .gaveUp hs hget hfree hpassed
      · rw [hnone] at hs'
        cases hs'
    · rcases m.sessionDeadlines_cases (P := P) now with ⟨heq, -⟩ | ⟨session, _, hs', -, -⟩
      · rw [heq]
        exact .kept (Or.inr (by simpa using hpassed)) (Or.inl hfree)
      · rw [hfree] at hs'
        cases hs'

theorem Enforces.pendingClosed {r : List ManagerEvent × ClientSessionManager T}
    (h : Enforces P m now r) : r.2.pendingClosed = m.pendingClosed := by
  cases h with
  | kept | gaveUp => rfl
  | closed session reason hidle hget => exact (teardown_tornDown hget now true).pendingClosed

end Rules

section Runs

/-- A handshake and a session have their starting times on record. -/
structure Dated (limits : SessionLimits) (m : ClientSessionManager T) : Prop where
  limits : m.limits = limits
  handshake : m.hs ≠ none → m.hsStarted ≠ none
  session : m.session ≠ none → m.preparedAt ≠ none

variable {limits : SessionLimits}

theorem Dated.act (h : Dated limits m) (hact : Act P now m evs m') : Dated limits m' := by
  cases hact with
  | quiet _ _ _ hsame =>
    refine ⟨hsame.limits.trans h.limits, ?_, ?_⟩
    · rw [hsame.hs, hsame.hsStarted]
      exact h.handshake
    · rw [hsame.session, hsame.preparedAt]
      exact h.session
  | began _ _ _ _ _ _ _ hfree => exact ⟨h.limits, by simp, fun hne => absurd hfree hne⟩
  | stepped _ hs hs' r _ hget => exact ⟨h.limits, fun _ => h.handshake (by simp [hget]), h.session⟩
  | timedOut => exact ⟨h.limits, fun hne => absurd rfl hne, h.session⟩
  | adopted => exact ⟨h.limits, fun hne => absurd rfl hne, by simp⟩
  | touched session _ _ _ _ _ hget | sent _ session _ _ _ _ _ hget =>
    exact ⟨h.limits, h.handshake, fun _ => h.session (by simp [hget])⟩
  | ended _ session _ sendClose _ hget =>
    have hdown := teardown_tornDown (P := P) hget now sendClose
    refine ⟨hdown.limits.trans h.limits, ?_, fun hne => absurd hdown.session hne⟩
    rw [hdown.hs, hdown.hsStarted]
    exact h.handshake
  | closedByUser _ session _ hget =>
    have hdown := teardown_tornDown (P := P) hget now true
    refine ⟨hdown.limits.trans h.limits, ?_, fun hne => absurd hdown.session hne⟩
    dsimp only
    rw [hdown.hs, hdown.hsStarted]
    exact h.handshake
  | flushed => exact ⟨h.limits, h.handshake, h.session⟩

theorem dated_run (hheld : Held P m) (h : Dated limits m) (calls : List (Call T)) :
    Dated limits (run P m calls) := by
  induction calls generalizing m with
  | nil => exact h
  | cons c calls ih =>
    exact ih (hheld.call c) ((call_trace hheld c).keeps (fun h hact => h.act hact) h)

theorem dated_new {cfg : ClientConfig T} (hnew : new cfg limits = .ok m) : Dated limits m := by
  obtain ⟨-, -, hlimits, hhs, hsession, -⟩ := new_ok hnew
  exact ⟨hlimits, fun hne => absurd hhs hne, fun hne => absurd hsession hne⟩

/-- What a tick at the given time leaves and reports. -/
structure Punctual (P : Primitives T) (limits : SessionLimits) (m : ClientSessionManager T)
    (now : ℕ) (evs : List ManagerEvent) (m' : ClientSessionManager T) : Prop where
  handshake : m'.hs ≠ none → ∃ started, m'.hsStarted = some started ∧
    ∀ t, limits.handshakeTimeout = some t → now - started < t
  session : m'.session ≠ none → ∃ since, m'.preparedAt = some since ∧
    (∀ t, limits.lifetimeCap = some t → now - since < t) ∧
    (m'.ready = false → ∀ t, limits.confirmTimeout = some t → now - since < t) ∧
    (m'.ready = true → m'.roundsUnanswered < limits.livenessRounds)
  reports : ∃ own resent, evs = own ++ m.pendingClosed ++ resent ∧
    (own.filterMap closedSid).length ≤ 1 ∧ ∀ ev ∈ resent, ∃ pkt peer, ev = .sendPacket pkt peer

theorem handshake_on_time (h : Dated limits m) (hhs : m.hs ≠ none)
    (hpassed : m.handshakeDeadlinePassed now = false) :
    ∃ started, m.hsStarted = some started ∧
      ∀ t, limits.handshakeTimeout = some t → now - started < t := by
  obtain ⟨started, hstarted⟩ := Option.ne_none_iff_exists'.mp (h.handshake hhs)
  refine ⟨started, hstarted, fun t ht => ?_⟩
  rw [handshakeDeadlinePassed, h.limits, ht, hstarted] at hpassed
  simpa using hpassed

theorem session_on_time (h : Dated limits m) (hsession : m.session ≠ none)
    (hdue : ∀ reason, ¬ m.Due now reason) :
    ∃ since, m.preparedAt = some since ∧
      (∀ t, limits.lifetimeCap = some t → now - since < t) ∧
      (m.ready = false → ∀ t, limits.confirmTimeout = some t → now - since < t) ∧
      (m.ready = true → m.roundsUnanswered < limits.livenessRounds) := by
  obtain ⟨since, hsince⟩ := Option.ne_none_iff_exists'.mp (h.session hsession)
  have hcap : ¬ m.lifetimePassed now = true := fun hp => hdue _ (Or.inl ⟨rfl, hp⟩)
  have hconfirm : ¬ m.confirmDeadlinePassed now = true :=
    fun hp => hdue _ (Or.inr (Or.inl ⟨rfl, hp⟩))
  have hpeer : ¬ m.peerUnresponsive = true := fun hp => hdue _ (Or.inr (Or.inr ⟨rfl, hp⟩))
  refine ⟨since, hsince, fun t ht => ?_, fun hready t ht => ?_, fun hready => ?_⟩
  · rw [lifetimePassed, hsince, h.limits, ht] at hcap
    simpa using hcap
  · rw [confirmDeadlinePassed, hready, hsince, h.limits, ht] at hconfirm
    simpa using hconfirm
  · rw [peerUnresponsive, hready, h.limits] at hpeer
    simpa using hpeer

theorem lostReport_closed (m : ClientSessionManager T) (now : ℕ) :
    (m.lostReport now).filterMap closedSid = [] := by
  unfold lostReport
  split_ifs <;> rfl

theorem teardown_closed (m : ClientSessionManager T) (now : ℕ) :
    (m.teardown P now true).1.toList.filterMap closedSid = [] := by
  cases hget : m.session with
  | none => simp [teardown, hget]
  | some session =>
    rcases teardown_closes (P := P) hget now true with ⟨hev, -⟩ | ⟨_, _, -, hev, -⟩ <;> rw [hev] <;>
      rfl

theorem Enforces.punctual (h : Dated limits m) {r : List ManagerEvent × ClientSessionManager T}
    (henforce : Enforces P m now r) :
    (r.2.hs ≠ none → ∃ started, r.2.hsStarted = some started ∧
      ∀ t, limits.handshakeTimeout = some t → now - started < t) ∧
    (r.2.session ≠ none → ∃ since, r.2.preparedAt = some since ∧
      (∀ t, limits.lifetimeCap = some t → now - since < t) ∧
      (r.2.ready = false → ∀ t, limits.confirmTimeout = some t → now - since < t) ∧
      (r.2.ready = true → r.2.roundsUnanswered < limits.livenessRounds)) ∧
    (r.1.filterMap closedSid).length ≤ 1 := by
  cases henforce with
  | kept hhs hsession =>
    refine ⟨fun hne => ?_, fun hne => ?_, Nat.zero_le _⟩
    · exact handshake_on_time h hne (hhs.resolve_left hne)
    · exact session_on_time h hne (hsession.resolve_left hne)
  | gaveUp hs hget hfree =>
    exact ⟨fun hne => absurd rfl hne, fun hne => absurd hfree hne, le_rfl⟩
  | closed session reason hidle hget hdue =>
    have hdown := teardown_tornDown (P := P) hget now true
    refine ⟨fun hne => absurd (hdown.hs.trans hidle) hne, fun hne => absurd hdown.session hne, ?_⟩
    rw [List.filterMap_append, teardown_closed]
    exact le_rfl

/-- After a tick of either manager nothing is past a deadline. The server removes exactly the
sessions that are, and reports each once, after its Close packet. The client closes at most one,
beside the Closed events that were queued before. -/
theorem tick_meets_deadlines (P : Primitives T) (server : ServerSessionManager T)
    (order : List SessionId) {cfg : ClientConfig T} (hnew : new cfg limits = .ok m)
    (calls : List (Call T)) (now : ℕ) :
    Expires P server now (server.tick P now order).1 (server.tick P now order).2 ∧
      Punctual P limits (run P m calls) now ((run P m calls).tick P now).1
        ((run P m calls).tick P now).2 := by
  have hheld := held_run (P := P) (held_new hnew) calls
  have henforced := enforced_cases (P := P) hheld.oneLive now
  obtain ⟨hhs, hsession, hown⟩ := henforced.punctual
    (dated_run (held_new (P := P) hnew) (dated_new hnew) calls)
  have hevs := tick_events (P := P) (run P m calls) now
  rw [henforced.pendingClosed] at hevs
  refine ⟨tick_expires P server now order, hhs, hsession, _, _, hevs, ?_,
    fun ev => retransmitCloses_sends⟩
  rw [List.filterMap_append, lostReport_closed, List.append_nil]
  exact hown

/-- A sample handshake at its deadline, beside a server that has no session. -/
theorem tick_meets_deadlines_sample :
    Expires Sample.primitives ServerSessionManager.sampleManager (fromSecs 30)
      (ServerSessionManager.sampleManager.tick Sample.primitives (fromSecs 30) []).1
      (ServerSessionManager.sampleManager.tick Sample.primitives (fromSecs 30) []).2 ∧
    Punctual Sample.primitives {} (run Sample.primitives (sampleClient {}) [sampleBegin 0])
      (fromSecs 30)
      ((run Sample.primitives (sampleClient {}) [sampleBegin 0]).tick Sample.primitives
        (fromSecs 30)).1
      ((run Sample.primitives (sampleClient {}) [sampleBegin 0]).tick Sample.primitives
        (fromSecs 30)).2 :=
  tick_meets_deadlines Sample.primitives _ [] (new_sampleClient rfl) [sampleBegin 0] (fromSecs 30)

end Runs

end ClientSessionManager
end PqTunnel
