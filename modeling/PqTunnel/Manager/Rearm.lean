import PqTunnel.Manager.Accounting
import PqTunnel.Manager.ClientEstablish

/-! Re-establishment on the client: there is always a handshake, a session or a request for a new
handshake, and every begun handshake ends in one Closed event. -/
namespace PqTunnel.ClientSessionManager
open Transition Lifecycle
open ServerSessionManager (returned reports reports_eq_nil reports_append closedSid
  reports_of_closed retransmitCloses_reports)

variable {T : CryptoTypes} {P : Primitives T} {m m' : ClientSessionManager T} {now : ℕ}
  {evs : List ManagerEvent}

/-- The session id of the handshake that a call begins. -/
def begins (P : Primitives T) (m : ClientSessionManager T) : Call T → List SessionId
  | .beginHandshake draws kemSk xSk now =>
    match m.beginHandshake P draws kemSk xSk now with
    | (.ok _, m') => (m'.hs.map (·.sid)).toList
    | (.error _, _) => []
  | _ => []

def handshakes (P : Primitives T) : ClientSessionManager T → List (Call T) → List SessionId :=
  outputs (fun m c => (call P m c).2) (begins P)

def events (P : Primitives T) : ClientSessionManager T → List (Call T) → List ManagerEvent :=
  outputs (fun m c => (call P m c).2) (fun m c => (call P m c).1)

/-- The id of what the manager holds, a handshake or a session. -/
def heldSid (m : ClientSessionManager T) : Option SessionId :=
  (m.hs.map (·.sid)).or m.sessionId

/-- The manager as a lifecycle: a handshake opens an id, and its Closed event closes it. -/
def lifecycle (m : ClientSessionManager T) : State SessionId where
  live sid := decide (m.heldSid = some sid)
  queued := m.pendingClosed.filterMap closedSid

def QueueOk (m : ClientSessionManager T) : Prop :=
  ∀ ev ∈ m.pendingClosed, ∃ sid reason, ev = .closed sid reason

section Moves

variable {sid : SessionId} {session : WireSession} {hs : ClientHandshake T}

theorem heldSid_of_machine (hget : m.hs = some hs) : m.heldSid = some hs.sid := by
  simp [heldSid, hget]

theorem heldSid_of_session (hidle : m.hs = none) (hget : m.session = some session) :
    m.heldSid = some session.sessionId := by
  simp [heldSid, sessionId, hidle, hget]

theorem heldSid_eq_none (hidle : m.hs = none) (hfree : m.session = none) : m.heldSid = none := by
  simp [heldSid, sessionId, hidle, hfree]

theorem lifecycle_eq (hheld : m'.heldSid = m.heldSid) (hqueue : m'.pendingClosed = m.pendingClosed) :
    m'.lifecycle = m.lifecycle := by
  rw [lifecycle, lifecycle, hheld, hqueue]

theorem live_released (hheld : m.heldSid = some sid) (hnone : m'.heldSid = none) :
    m.lifecycle.live sid = true ∧
      m'.lifecycle.live = Function.update m.lifecycle.live sid false := by
  constructor
  · simp [lifecycle, hheld]
  · funext k
    simp only [lifecycle, hnone, hheld]
    by_cases hk : k = sid
    · simp [hk]
    · simp [hk, Ne.symm hk]

theorem lifecycle_closed (hheld : m.heldSid = some sid) (hnone : m'.heldSid = none)
    (hqueue : m'.pendingClosed = m.pendingClosed) :
    Move m.lifecycle [.closed sid] m'.lifecycle := by
  obtain ⟨hlive, hafter⟩ := live_released hheld hnone
  have heq : m'.lifecycle =
      { m.lifecycle with live := Function.update m.lifecycle.live sid false } := by
    rw [← hafter, lifecycle, lifecycle, hqueue]
  rw [heq]
  exact .closed sid hlive

theorem lifecycle_queued {reason : CloseReason} (hheld : m.heldSid = some sid)
    (hnone : m'.heldSid = none)
    (hqueue : m'.pendingClosed = m.pendingClosed ++ [.closed sid reason]) :
    Move m.lifecycle [] m'.lifecycle := by
  obtain ⟨hlive, hafter⟩ := live_released hheld hnone
  have heq : m'.lifecycle =
      ⟨Function.update m.lifecycle.live sid false, m.lifecycle.queued ++ [sid]⟩ := by
    rw [← hafter, lifecycle, lifecycle, hqueue, List.filterMap_append]
    rfl
  rw [heq]
  exact .queued sid hlive

theorem lifecycle_opened (hnone : m.heldSid = none) (hheld : m'.heldSid = some sid)
    (hqueue : m'.pendingClosed = m.pendingClosed) :
    Move m.lifecycle [.opened sid] m'.lifecycle := by
  have hdead : m.lifecycle.live sid = false := by simp [lifecycle, hnone]
  have hafter : m'.lifecycle =
      { m.lifecycle with live := Function.update m.lifecycle.live sid true } := by
    simp only [lifecycle, hqueue, hnone, hheld, State.mk.injEq, and_true]
    funext k
    by_cases hk : k = sid
    · simp [hk]
    · simp [hk, Ne.symm hk]
  rw [hafter]
  exact .opened sid hdead

/-- What a call that begins no handshake does to the ids. -/
theorem Act.moves (h : Held P m) (hq : QueueOk m) (hact : Act P now m evs m') :
    QueueOk m' ∧ m.begun ≤ m'.begun ∧ (∀ sid, .opened sid ∉ reports evs) ∧
      (m'.begun = m.begun → Move m.lifecycle (reports evs) m'.lifecycle) := by
  have hnone : ∀ {evs : List ManagerEvent}, Silent evs → ∀ sid, .opened sid ∉ reports evs := by
    intro evs hevs sid
    rw [reports_eq_nil hevs]
    exact List.not_mem_nil
  have hsilent : ∀ {m' : ClientSessionManager T} {evs : List ManagerEvent}, Silent evs →
      m'.heldSid = m.heldSid → m'.pendingClosed = m.pendingClosed →
      Move m.lifecycle (reports evs) m'.lifecycle := by
    intro m' evs hevs hheld hqueue
    rw [reports_eq_nil hevs, lifecycle_eq hheld hqueue]
    exact .silent
  cases hact with
  | quiet _ _ hevs hsame =>
    refine ⟨?_, hsame.begun.ge, hnone hevs, fun _ => hsilent hevs ?_ hsame.pendingClosed⟩
    · rwa [QueueOk, hsame.pendingClosed]
    · rw [heldSid, heldSid, sessionId, sessionId, hsame.hs, hsame.session]
  | began _ _ _ _ _ hevs =>
    exact ⟨hq, Nat.le_succ _, hnone hevs, fun heq => absurd heq (Nat.succ_ne_self _)⟩
  | stepped _ hs hs' r hevs hget hstep =>
    have hsid := (hstep.frame (h.machine hs hget)).sid
    refine ⟨hq, le_rfl, hnone hevs, fun _ => hsilent hevs ?_ rfl⟩
    rw [heldSid_of_machine hget, heldSid_of_machine rfl, hsid]
  | timedOut hs hget =>
    refine ⟨hq, le_rfl, by simp [reports, ManagerEvent.notice], fun _ => ?_⟩
    exact lifecycle_closed (heldSid_of_machine hget)
      (heldSid_eq_none rfl (h.session_none hget)) rfl
  | adopted hs hs' packets outcome session hget hfree hstep hnew =>
    obtain ⟨-, hsid, -⟩ := WireSession.established_ok hnew
    have hout := ((hstep.frame (h.machine hs hget)).outcome _ _ rfl).1
    refine ⟨hq, le_rfl, hnone silent_nil, fun _ => hsilent silent_nil ?_ rfl⟩
    rw [heldSid_of_machine hget, heldSid_of_session rfl rfl, hsid, hout]
  | touched session st w ready rounds peer hget =>
    have hidle : m.hs = none := h.oneLive.resolve_right (by simp [hget])
    refine ⟨hq, le_rfl, hnone silent_nil, fun _ => hsilent silent_nil ?_ rfl⟩
    simp [heldSid, sessionId, hidle, hget]
  | sent _ session msgType payload _ session' hevs hget henc =>
    have hidle : m.hs = none := h.oneLive.resolve_right (by simp [hget])
    have hsid : session'.sessionId = session.sessionId := by
      rw [← session.encrypt_sessionId (P := P) msgType payload, henc]
    refine ⟨hq, le_rfl, hnone hevs, fun _ => hsilent hevs ?_ rfl⟩
    simp [heldSid, sessionId, hidle, hget, hsid]
  | ended evs session reason sendClose hevs hget =>
    have hidle : m.hs = none := h.oneLive.resolve_right (by simp [hget])
    have hdown := teardown_tornDown (P := P) hget now sendClose
    rw [reports_append, reports_eq_nil hevs]
    refine ⟨?_, hdown.begun.ge, by simp [reports, ManagerEvent.notice], fun _ => ?_⟩
    · rwa [QueueOk, hdown.pendingClosed]
    · exact lifecycle_closed (heldSid_of_session hidle hget)
        (heldSid_eq_none (hdown.hs.trans hidle) hdown.session) hdown.pendingClosed
  | closedByUser _ session hevs hget =>
    have hidle : m.hs = none := h.oneLive.resolve_right (by simp [hget])
    have hdown := teardown_tornDown (P := P) hget now true
    refine ⟨?_, hdown.begun.ge, hnone hevs, fun _ => ?_⟩
    · intro ev hev
      rcases List.mem_append.mp hev with hev | hev
      · exact hq ev hev
      · exact ⟨_, _, List.mem_singleton.mp hev⟩
    · rw [reports_eq_nil hevs]
      exact lifecycle_queued (heldSid_of_session hidle hget)
        (heldSid_eq_none (hdown.hs.trans hidle) hdown.session) rfl
  | flushed =>
    rw [reports_append, retransmitCloses_reports, List.append_nil, reports_of_closed hq]
    exact ⟨by simp [QueueOk], le_rfl, by simp, fun _ => .flushed⟩

end Moves

section Begin

/-- What `begin_handshake` answers while something is held. -/
def alreadyRunning : Fault ManagerError :=
  .err (.invalidState "handshake already running or session established")

theorem beginHandshake_busy {draws : List.Vector (Except String SessionId) 8}
    {kemSk : Except CryptoError T.KemSk} {xSk : T.XSk} (h : m.hs ≠ none ∨ m.session ≠ none) :
    m.beginHandshake P draws kemSk xSk now = (.error alreadyRunning, m) := by
  rw [beginHandshake, if_pos]
  · rfl
  · simpa [Option.isSome_iff_ne_none] using h

/-- With nothing held, a handshake begins unless no fresh session id can be drawn or the key
generation fails. -/
theorem beginHandshake_idle (hv : m.cfg.version = protocolVersion) (hidle : m.hs = none)
    (hfree : m.session = none) (draws : List.Vector (Except String SessionId) 8)
    (kemSk : Except CryptoError T.KemSk) (xSk : T.XSk) (now : ℕ) :
    (∃ e m₁, m.freshSid draws.toList = (.error e, m₁) ∧
      m.beginHandshake P draws kemSk xSk now = (.error (.err e), m₁)) ∨
    (∃ e sid m₁, m.freshSid draws.toList = (.ok sid, m₁) ∧ kemSk = .error e ∧
      m.beginHandshake P draws kemSk xSk now =
        (.error (.err (.handshake (.crypto e))), m₁)) ∨
    ∃ sid m₁ hs, m.freshSid draws.toList = (.ok sid, m₁) ∧ hs.sid = sid ∧
      m.beginHandshake P draws kemSk xSk now = (.ok (.send hs.m1Frags m₁.cfg.serverAddr),
        { m₁ with
          hs := some hs, hsStarted := some now, ready := false, peer := m₁.cfg.serverAddr
          rearmRequested := false, begun := m₁.begun + 1 }) := by
  have hfresh := freshSid_same m draws.toList
  have hbusy : ¬ (m.hs.isSome || m.session.isSome) := by simp [hidle, hfree]
  rw [beginHandshake, if_neg hbusy]
  cases hdraw : m.freshSid draws.toList with
  | mk r m₁ =>
    rw [hdraw] at hfresh
    have hv₁ : m₁.cfg.version = protocolVersion := by rw [hfresh.cfg, hv]
    cases r with
    | error e => exact Or.inl ⟨e, m₁, rfl, rfl⟩
    | ok sid =>
      cases kemSk with
      | error e =>
        refine Or.inr (Or.inl ⟨e, sid, m₁, rfl, rfl, ?_⟩)
        simp only [newHandshake, validateVersion, hv₁, if_true]
        rfl
      | ok kemSk =>
        obtain ⟨hs, hnew⟩ := ClientHandshake.new_exists (P := P) m₁.cfg sid kemSk xSk hv₁
        refine Or.inr (Or.inr ⟨sid, m₁, hs, rfl, (ClientHandshake.new_ok hnew fun _ _ => True).2.2.1,
          ?_⟩)
        simp only [newHandshake, validateVersion, hv₁, if_true, hnew]

theorem freshSid_ne_alreadyRunning {e : ManagerError} {m₁ : ClientSessionManager T}
    {draws : List (Except String SessionId)} (h : m.freshSid draws = (.error e, m₁)) :
    Fault.err e ≠ alreadyRunning := by
  rcases m.freshSid_cases draws with ⟨e', heq, hwhy⟩ | ⟨_, -, -, heq⟩ <;>
    cases (Prod.mk.inj (h.symm.trans heq)).1
  rcases hwhy with ⟨_, rfl⟩ | rfl <;> simp [alreadyRunning]

end Begin

section Begun

theorem begun_call {c : Call T}
    (hc : ∀ draws kemSk xSk now, c ≠ .beginHandshake draws kemSk xSk now) :
    (call P m c).2.begun = m.begun := by
  cases c with
  | datagram pkt src rand now => exact begun_handleDatagram ..
  | _ => exact (kept_call hc (by simp)).begun

end Begun

section Runs

theorem begin_moves (hq : QueueOk m) (hv : m.cfg.version = protocolVersion)
    (draws : List.Vector (Except String SessionId) 8) (kemSk : Except CryptoError T.KemSk)
    (xSk : T.XSk) (now : ℕ) {r : Except (Fault ManagerError) ManagerEvent}
    (heq : m.beginHandshake P draws kemSk xSk now = (r, m')) :
    QueueOk m' ∧ (∀ sid, .opened sid ∉ reports (returned r)) ∧
      Trace Move m.lifecycle ((begins P m (.beginHandshake draws kemSk xSk now)).map .opened ++
        reports (returned r)) m'.lifecycle := by
  have hfresh := freshSid_same m draws.toList
  have hkept : ∀ e, r = .error e → Same m m' → QueueOk m' ∧
      (∀ sid, .opened sid ∉ reports (returned r)) ∧
      Trace Move m.lifecycle ((begins P m (.beginHandshake draws kemSk xSk now)).map .opened ++
        reports (returned r)) m'.lifecycle := by
    rintro e rfl hsame
    have hheld : m'.heldSid = m.heldSid := by
      rw [heldSid, heldSid, sessionId, sessionId, hsame.hs, hsame.session]
    rw [QueueOk, hsame.pendingClosed, lifecycle_eq hheld hsame.pendingClosed, begins, heq]
    exact ⟨hq, by simp [returned], .refl _⟩
  by_cases hbusy : m.hs ≠ none ∨ m.session ≠ none
  · rw [beginHandshake_busy hbusy] at heq
    obtain ⟨rfl, rfl⟩ := Prod.mk.inj heq
    exact hkept _ rfl (.refl m)
  · obtain ⟨hidle, hfree⟩ : m.hs = none ∧ m.session = none := by simpa using hbusy
    rcases beginHandshake_idle (P := P) hv hidle hfree draws kemSk xSk now with
      ⟨e, m₁, hdraw, hres⟩ | ⟨e, sid, m₁, hdraw, -, hres⟩ | ⟨sid, m₁, hs, hdraw, hsid, hres⟩ <;>
      rw [hdraw] at hfresh <;> obtain ⟨rfl, rfl⟩ := Prod.mk.inj (heq.symm.trans hres)
    · exact hkept _ rfl hfresh
    · exact hkept _ rfl hfresh
    · rw [begins, hres]
      refine ⟨fun ev hev => hq ev (hfresh.pendingClosed ▸ hev),
        by simp [returned, ManagerEvent.toList, reports, ManagerEvent.notice], .single ?_⟩
      exact lifecycle_opened (heldSid_eq_none hidle hfree) (heldSid_of_machine rfl)
        hfresh.pendingClosed

/-- Every call moves the ids: a begun handshake opens one, and every other change is a Closed
event, returned or queued. -/
theorem call_moves (h : Held P m) (hq : QueueOk m) (hv : m.cfg.version = protocolVersion)
    (c : Call T) :
    QueueOk (call P m c).2 ∧ (∀ sid, .opened sid ∉ reports (call P m c).1) ∧
      Trace Move m.lifecycle ((begins P m c).map .opened ++ reports (call P m c).1)
        (call P m c).2.lifecycle := by
  by_cases hc : ∃ draws kemSk xSk now, c = .beginHandshake draws kemSk xSk now
  · obtain ⟨draws, kemSk, xSk, now, rfl⟩ := hc
    exact begin_moves hq hv draws kemSk xSk now rfl
  · have hbegins : begins P m c = [] := by
      cases c with
      | beginHandshake draws kemSk xSk now => exact absurd ⟨_, _, _, _, rfl⟩ hc
      | _ => rfl
    have hbegun : (call P m c).2.begun = m.begun :=
      begun_call fun draws kemSk xSk now heq => hc ⟨draws, kemSk, xSk, now, heq⟩
    -- The counter of begun handshakes never falls, so no act of this call begins one.
    obtain ⟨-, hq', hnone, -, hmove⟩ := (call_trace h c).extend
      (J := fun evs m' => Held P m' ∧ QueueOk m' ∧ (∀ sid, .opened sid ∉ reports evs) ∧
        m.begun ≤ m'.begun ∧ (m'.begun = m.begun → Trace Move m.lifecycle (reports evs) m'.lifecycle))
      (fun evs m₁ out m₂ hJ hact => by
        obtain ⟨hheld, hq₁, hnone, hle, htrace⟩ := hJ
        obtain ⟨hq₂, hle', hout, hmove⟩ := hact.moves hheld hq₁
        rw [reports_append]
        refine ⟨hheld.act hact, hq₂, fun sid hmem => ?_, hle.trans hle', fun heq => ?_⟩
        · exact (List.mem_append.mp hmem).elim (hnone sid) (hout sid)
        · have hsame : m₁.begun = m.begun := by omega
          exact (htrace hsame).snoc (hmove (by omega)))
      (h := []) ⟨h, hq, by simp, le_rfl, fun _ => .refl _⟩
    rw [hbegins]
    exact ⟨hq', hnone, hmove hbegun⟩

/-- Once a handshake was begun, a manager that holds nothing asks for the next one. -/
def AsksRearm (m : ClientSessionManager T) : Prop :=
  0 < m.begun → m.hs = none → m.session = none → m.rearmRequested = true

theorem Act.rearm (hact : Act P now m evs m') (h : AsksRearm m) :
    m'.cfg = m.cfg ∧ AsksRearm m' := by
  cases hact with
  | quiet _ _ _ hsame =>
    refine ⟨hsame.cfg, ?_⟩
    rwa [AsksRearm, hsame.begun, hsame.hs, hsame.session, hsame.rearmRequested]
  | began | stepped => exact ⟨rfl, fun _ hidle => by cases hidle⟩
  | timedOut => exact ⟨rfl, fun _ _ _ => rfl⟩
  | adopted | touched | sent => exact ⟨rfl, fun _ _ hfree => by cases hfree⟩
  | ended _ session reason sendClose _ hget =>
    have hdown := teardown_tornDown (P := P) hget now sendClose
    exact ⟨hdown.cfg, fun _ _ _ => hdown.rearmRequested⟩
  | closedByUser _ session _ hget =>
    have hdown := teardown_tornDown (P := P) hget now true
    exact ⟨hdown.cfg, fun _ _ _ => hdown.rearmRequested⟩
  | flushed => exact ⟨rfl, h⟩

structure Cycling (P : Primitives T) (cfg : ClientConfig T) (m : ClientSessionManager T) : Prop where
  held : Held P m
  queue : QueueOk m
  cfg : m.cfg = cfg
  asks : AsksRearm m

variable {cfg : ClientConfig T}

theorem Cycling.call (h : Cycling P cfg m) (hv : cfg.version = protocolVersion) (c : Call T) :
    Cycling P cfg (call P m c).2 := by
  obtain ⟨hcfg, hasks⟩ := (call_trace h.held c).keeps (I := fun m' => m'.cfg = m.cfg ∧ AsksRearm m')
    (fun hI hact => ⟨(hact.rearm hI.2).1.trans hI.1, (hact.rearm hI.2).2⟩) ⟨rfl, h.asks⟩
  exact ⟨h.held.call c, (call_moves h.held h.queue (h.cfg ▸ hv) c).1, hcfg.trans h.cfg, hasks⟩

variable {limits : SessionLimits}

theorem cycling_new (hnew : new cfg limits = .ok m) :
    cfg.version = protocolVersion ∧ Cycling P cfg m ∧ m.lifecycle = ⟨fun _ => false, []⟩ := by
  obtain ⟨hv, hcfg, -, hhs, hsession, -, hclosed, -, -, hbegun, -⟩ := new_ok hnew
  refine ⟨hv, ⟨held_new hnew, ?_, hcfg, ?_⟩, ?_⟩
  · simp [QueueOk, hclosed]
  · intro hpos
    omega
  · simp [lifecycle, hclosed, heldSid_eq_none hhs hsession]

/-- Every handshake begun so far is still held, as a machine or as its session, or has given one
Closed event. -/
theorem handshakes_balanced (hnew : new cfg limits = .ok m) (calls : List (Call T)) :
    Cycling P cfg (run P m calls) ∧ ∀ sid, (handshakes P m calls).count sid =
      (reports (events P m calls)).count (.closed sid) +
        (run P m calls).lifecycle.queued.count sid +
        ((run P m calls).lifecycle.live sid).toNat := by
  obtain ⟨hv, hstart, hempty⟩ := cycling_new (P := P) hnew
  induction calls using List.reverseRecOn with
  | nil => simpa [run, handshakes, events, outputs, hempty] using hstart
  | append_singleton calls c ih =>
    obtain ⟨hcycle, hcount⟩ := ih
    refine ⟨by rw [run_snoc]; exact hcycle.call hv c, fun sid => ?_⟩
    obtain ⟨-, hnone, hmoves⟩ := call_moves hcycle.held hcycle.queue (hcycle.cfg ▸ hv) c
    have hstep := Trace.conserves hmoves sid
    have hbegins : ((begins P (run P m calls) c).map Report.opened).count (.opened sid) =
        (begins P (run P m calls) c).count sid :=
      List.count_map_of_injective _ _ (fun _ _ heq => Report.opened.inj heq) sid
    have hbegins' : ((begins P (run P m calls) c).map Report.opened).count (.closed sid) = 0 := by
      simp [List.count_eq_zero]
    rw [List.count_append, List.count_append, hbegins, hbegins',
      List.count_eq_zero.mpr (hnone sid)] at hstep
    have hsnoc := hcount sid
    rw [handshakes, events, outputs_snoc, outputs_snoc, reports_append, List.count_append,
      List.count_append, run_snoc]
    simp only [handshakes, events, run] at hsnoc hstep ⊢
    omega

theorem begun_beginHandshake (hv : m.cfg.version = protocolVersion)
    (draws : List.Vector (Except String SessionId) 8) (kemSk : Except CryptoError T.KemSk)
    (xSk : T.XSk) (now : ℕ) :
    (m.beginHandshake P draws kemSk xSk now).2.begun =
      m.begun + (begins P m (.beginHandshake draws kemSk xSk now)).length := by
  have hfresh := freshSid_same m draws.toList
  by_cases hbusy : m.hs ≠ none ∨ m.session ≠ none
  · simp [begins, beginHandshake_busy hbusy]
  · obtain ⟨hidle, hfree⟩ : m.hs = none ∧ m.session = none := by simpa using hbusy
    rcases beginHandshake_idle (P := P) hv hidle hfree draws kemSk xSk now with
      ⟨e, m₁, hdraw, hres⟩ | ⟨e, sid, m₁, hdraw, -, hres⟩ | ⟨sid, m₁, hs, hdraw, -, hres⟩ <;>
      rw [hdraw] at hfresh <;> have hbegun : m₁.begun = m.begun := hfresh.begun <;>
      simp [begins, hres, hbegun]

theorem begun_eq_length (hnew : new cfg limits = .ok m)
    (calls : List (Call T)) : (run P m calls).begun = (handshakes P m calls).length := by
  have hv := (cycling_new (P := P) hnew).1
  induction calls using List.reverseRecOn with
  | nil =>
    obtain ⟨-, -, -, -, -, -, -, -, -, hbegun, -⟩ := new_ok hnew
    exact hbegun
  | append_singleton calls c ih =>
    have hcycle := (handshakes_balanced (P := P) hnew calls).1
    have hstep : (call P (run P m calls) c).2.begun =
        (run P m calls).begun + (begins P (run P m calls) c).length := by
      cases c with
      | beginHandshake draws kemSk xSk now =>
        exact begun_beginHandshake (hcycle.cfg ▸ hv) draws kemSk xSk now
      | _ => exact begun_call (by simp)
    rw [handshakes, outputs_snoc, List.length_append, ← handshakes, run_snoc, hstep, ih]
    rfl

/-- In every run the client holds a handshake or a session but not both; once it has begun a
handshake, a client that holds neither asks for a new one. A handshake is refused as already
running exactly while something is held, and else begins unless no fresh session id can be drawn or
the key generation fails. And the handshakes begun under a session id are exactly accounted for, at
every point of the run, by the Closed events returned or queued and by what is held. -/
theorem session_or_rearm (P : Primitives T) {limits : SessionLimits}
    (hnew : new cfg limits = .ok m) (calls : List (Call T)) :
    OneLive (run P m calls) ∧
    (handshakes P m calls ≠ [] → (run P m calls).hs = none → (run P m calls).session = none →
      (run P m calls).needsRearm = true) ∧
    (∀ draws kemSk xSk now,
      (((run P m calls).beginHandshake P draws kemSk xSk now).1 = .error alreadyRunning ↔
        (run P m calls).hs ≠ none ∨ (run P m calls).session ≠ none) ∧
      ((run P m calls).hs = none → (run P m calls).session = none →
        ∀ e, ((run P m calls).beginHandshake P draws kemSk xSk now).1 = .error e →
          (∃ e', ((run P m calls).freshSid draws.toList).1 = .error e') ∨
            ∃ e', kemSk = .error e')) ∧
    ∀ sid, (handshakes P m calls).count sid =
      (reports (events P m calls)).count (.closed sid) +
        (reports (run P m calls).pendingClosed).count (.closed sid) +
        (decide ((run P m calls).heldSid = some sid)).toNat := by
  obtain ⟨hv, -, -⟩ := cycling_new (P := P) hnew
  obtain ⟨hcycle, hcount⟩ := handshakes_balanced (P := P) hnew calls
  have hbegun := begun_eq_length (P := P) hnew calls
  have hcfg : (run P m calls).cfg.version = protocolVersion := by rw [hcycle.cfg, hv]
  generalize run P m calls = m' at hcycle hcount hbegun hcfg ⊢
  refine ⟨hcycle.held.oneLive, fun hsome hidle hfree => ?_, fun draws kemSk xSk now => ?_,
    fun sid => ?_⟩
  · have hpos : 0 < m'.begun := hbegun ▸ List.length_pos_iff.mpr hsome
    simp [needsRearm, hcycle.asks hpos hidle hfree, hidle, hfree]
  · by_cases hbusy : m'.hs ≠ none ∨ m'.session ≠ none
    · rw [beginHandshake_busy hbusy]
      refine ⟨by simp [hbusy], fun hidle hfree => ?_⟩
      rcases hbusy with hbusy | hbusy
      · exact absurd hidle hbusy
      · exact absurd hfree hbusy
    · obtain ⟨hidle, hfree⟩ : m'.hs = none ∧ m'.session = none := by simpa using hbusy
      rcases beginHandshake_idle (P := P) hcfg hidle hfree draws kemSk xSk now with
        ⟨e, m₁, hdraw, hres⟩ | ⟨e, sid, m₁, -, hkem, hres⟩ | ⟨sid, m₁, hs, -, -, hres⟩ <;>
        rw [hres]
      · refine ⟨⟨fun heq => ?_, fun h => absurd h hbusy⟩, fun _ _ _ _ => Or.inl ⟨e, by rw [hdraw]⟩⟩
        exact absurd (Except.error.inj heq) (freshSid_ne_alreadyRunning hdraw)
      · exact ⟨⟨by simp [alreadyRunning], fun h => absurd h hbusy⟩, fun _ _ _ _ => Or.inr ⟨e, hkem⟩⟩
      · exact ⟨⟨by simp, fun h => absurd h hbusy⟩, fun _ _ e heq => by cases heq⟩
  · rw [reports_of_closed hcycle.queue, count_closed_map_closed]
    exact hcount sid

end Runs

section Timeout

variable {hs : ClientHandshake T}

theorem tick_handshake_timeout (hget : m.hs = some hs) (hfree : m.session = none)
    (hpassed : m.handshakeDeadlinePassed now = true) :
    (m.tick P now).2.hs = none ∧ (m.tick P now).2.session = none ∧
      (m.tick P now).2.rearmRequested = true := by
  have hexpire : m.expireHandshake now =
      ([.closed hs.sid .handshakeTimeout], m.dropHandshake) := by
    rw [expireHandshake, hget]
    exact if_pos hpassed
  have hfree' : m.dropHandshake.session = none := hfree
  simp only [tick, hexpire, closeIf_of_free hfree']
  exact ⟨rfl, hfree, rfl⟩

end Timeout

section Sample

theorem begins_of_call {draws : List.Vector (Except String SessionId) 8}
    {kemSk : Except CryptoError T.KemSk} {xSk : T.XSk} {ev : ManagerEvent}
    (h : call P m (.beginHandshake draws kemSk xSk now) = (ev :: evs, m')) :
    begins P m (.beginHandshake draws kemSk xSk now) = (m'.hs.map (·.sid)).toList := by
  simp only [call] at h
  unfold begins
  dsimp only
  cases hres : m.beginHandshake P draws kemSk xSk now with
  | mk r m₁ =>
    rw [hres] at h
    obtain ⟨hr, rfl⟩ := Prod.mk.inj h
    cases r with
    | error e => cases hr
    | ok ev => rfl

/-- A sample handshake that times out: its Closed event is out and the client asks for the next
handshake. -/
theorem session_or_rearm_sample :
    (run Sample.primitives (sampleClient {}) [sampleBegin 0, .tick (fromSecs 30)]).needsRearm =
        true ∧
      1 = (reports (events Sample.primitives (sampleClient {})
          [sampleBegin 0, .tick (fromSecs 30)])).count (.closed Exchange.sampleSid) +
        (reports (run Sample.primitives (sampleClient {})
          [sampleBegin 0, .tick (fromSecs 30)]).pendingClosed).count (.closed Exchange.sampleSid) +
        (decide ((run Sample.primitives (sampleClient {})
          [sampleBegin 0, .tick (fromSecs 30)]).heldSid = some Exchange.sampleSid)).toNat := by
  obtain ⟨c, hbegun, hsid, -, -⟩ := exists_sample_begun {} 0
  have hpassed : (sampleBegun {} 0 c).handshakeDeadlinePassed (fromSecs 30) = true := by
    simp [handshakeDeadlinePassed, sampleBegun, sampleClient]
  obtain ⟨hidle, hfree, -⟩ := tick_handshake_timeout (P := Sample.primitives)
    (m := sampleBegun {} 0 c) rfl rfl hpassed
  have hrun : run Sample.primitives (sampleClient {}) [sampleBegin 0, .tick (fromSecs 30)] =
      ((sampleBegun {} 0 c).tick Sample.primitives (fromSecs 30)).2 := by
    rw [run, List.foldl_cons, List.foldl_cons, List.foldl_nil, hbegun]
    rfl
  have hsids : handshakes Sample.primitives (sampleClient {})
      [sampleBegin 0, .tick (fromSecs 30)] = [Exchange.sampleSid] := by
    rw [handshakes, outputs, outputs, outputs, sampleBegin, begins_of_call hbegun, ← hsid]
    rfl
  have hnew : new Exchange.sampleClientConfig {} = .ok (sampleClient {}) := new_sampleClient rfl
  obtain ⟨-, hrearm, -, hcount⟩ := session_or_rearm Sample.primitives hnew
    [sampleBegin 0, .tick (fromSecs 30)]
  rw [hsids] at hrearm hcount
  rw [hrun] at hrearm
  refine ⟨?_, ?_⟩
  · rw [hrun]
    exact hrearm (by simp) hidle hfree
  · rw [← hcount Exchange.sampleSid, List.count_singleton_self]

end Sample

end PqTunnel.ClientSessionManager
