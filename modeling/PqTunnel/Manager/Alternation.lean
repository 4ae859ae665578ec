import PqTunnel.Manager.Accounting

/-! When the Established and Closed events of a session id come in order. -/
namespace PqTunnel.ServerSessionManager
open Transition Lifecycle
open Exchange (sampleServerConfig sampleSid sampleAddr)

variable {T : CryptoTypes} {P : Primitives T} {m m' : ServerSessionManager T}
  {evs : List ManagerEvent}

/-- The datagram is an M3 that confirms the pending handshake of this id. -/
def Confirms (P : Primitives T) (s : ServerHandshake T) (pkt : WirePacket) (src : SocketAddr)
    (clock : Clock) (sid : SessionId) : Prop :=
  ∃ frag entry m3 skS m1 m2 master key peer,
    ServerHandshake.Addressed s pkt src clock hsTypeClientConfirm frag entry ∧
    ServerHandshake.Confirmed P s.cfg frag entry m3 skS m1 m2 master key peer ∧ frag.sid = sid

/-- No M3 confirms the handshake of an id while a Closed event of that id is queued, and no cover
batch loses a Closed event. -/
structure Calm (P : Primitives T) (m : ServerSessionManager T) (c : Call T) : Prop where
  fresh : ∀ pkt src clock now draw order sid, c = .datagram pkt src clock now draw order →
    Confirms P m.hs pkt src clock sid → ∀ reason, .closed sid reason ∉ m.pendingClosed
  safe : CoverSafe m c

/-- What every state of a run satisfies. -/
structure Sound (m : ServerSessionManager T) : Prop where
  entries : EntriesOk m
  pending : ServerHandshake.PendingOk m.hs
  queue : QueueOk m

theorem Sound.call (h : Sound m) (c : Call T) : Sound (call P m c).2 := by
  refine ⟨entriesOk_run h.entries [c], ?_, h.queue.call c⟩
  obtain ⟨calls, hhs⟩ := exists_run_hs (P := P) (m := m) [c]
  rw [show (ServerSessionManager.call P m c).2.hs = _ from hhs]
  exact h.pending.run calls

theorem Opens.confirms {pkt : WirePacket} {src : SocketAddr} {clock : Clock} {now : ℕ}
    {draw : ServerDraw T} {order : List SessionId} {sid : SessionId} {peer : SocketAddr}
    (ho : Opens P m pkt src clock now draw order [.established sid peer] m')
    (hok : ServerHandshake.PendingOk m.hs) : Confirms P m.hs pkt src clock sid := by
  cases ho with
  | mk hs outcome session hfrag hcomplete =>
    have hmove := (ServerHandshake.handleDatagram_does (P := P) hok pkt src clock draw).1
    rw [hcomplete] at hmove
    obtain ⟨frag, entry, m3, skS, m1, m2, key, hto, hconf, -, hsid, -⟩ := hmove.of_complete
    exact ⟨frag, entry, m3, skS, m1, m2, _, key, _, hto, hconf, hsid.symm⟩

/-- A calm call keeps the order of the reports. -/
theorem orderly_call (hP : CipherSession.AeadTotal P) {h : List ManagerEvent} {c : Call T}
    (hm : Sound m) (ho : Orderly (reports h) m.lifecycle) (hc : Calm P m c) :
    Orderly (reports (h ++ (call P m c).1)) (call P m c).2.lifecycle := by
  have hdiscarded := hc.safe.reports_discarded hP hm.entries hm.queue
  rcases call_cases (P := P) m c with ⟨pkt, src, clock, now, draw, order, rfl, hopens⟩ | ht
  · obtain ⟨sid, peer, mid, hevs, hroom, hopen, -, hmid⟩ := hopens.moves hm.queue
    have hfresh : sid ∉ m.lifecycle.queued := by
      rw [mem_queued]
      rintro ⟨reason, hmem⟩
      rw [hevs] at hopens
      exact hc.fresh pkt src clock now draw order sid rfl (hopens.confirms hm.pending) reason hmem
    have hstep := (ho.move hroom fun _ hk => by cases hk).move hopen fun k hk => by
      rw [hevs] at hk
      obtain rfl := Report.opened.inj (List.mem_singleton.mp hk)
      exact hmid hfresh
    rwa [List.append_nil, ← reports_append] at hstep
  · have hstep := (ht.extend (J := fun h m => QueueOk m ∧ Orderly (reports h) m.lifecycle)
      (fun h m out m' hJ ha => by
        obtain ⟨hmove, hq', hnone⟩ := ha.move hJ.1
        rw [reports_append]
        exact ⟨hq', hJ.2.move hmove fun k hk => absurd hk (hnone k)⟩) ⟨hm.queue, ho⟩).2
    rwa [reports_append, reports_append, hdiscarded, List.append_nil, ← reports_append] at hstep

theorem orderly_run (hP : CipherSession.AeadTotal P) {calls : List (Call T)}
    {h : List ManagerEvent} (hm : Sound m) (ho : Orderly (reports h) m.lifecycle)
    (hcalm : Along (fun m c => (call P m c).2) (Calm P) m calls) :
    Orderly (reports (h ++ events P m calls)) (run P m calls).lifecycle := by
  induction calls generalizing m h with
  | nil =>
    rw [events, outputs, List.append_nil]
    exact ho
  | cons c calls ih =>
    rw [events, outputs, ← List.append_assoc]
    exact ih (hm.call c) (orderly_call hP hm ho hcalm.1) hcalm.2

/-- In a run whose calls are all calm, the Established and Closed events of every id alternate,
and no Closed is queued for an id that is live. -/
theorem notices_alternate (hP : CipherSession.AeadTotal P) {cfg : ServerConfig T}
    {limits : SessionLimits} {rateNow gateNow : ℕ}
    (hnew : new cfg limits rateNow gateNow = .ok m) {calls : List (Call T)}
    (hcalm : Along (fun m c => (call P m c).2) (Calm P) m calls) (sid : SessionId) :
    Alternates sid (reports (events P m calls)) ∧
      ∀ reason, .closed sid reason ∈ (run P m calls).pendingClosed →
        (run P m calls).sessions.get sid = none := by
  obtain ⟨hview, hq⟩ := lifecycle_new hnew
  have hsound : Sound m := by
    refine ⟨entriesOk_new hnew, ?_, hq⟩
    rw [(new_ok hnew).1]
    exact ServerHandshake.pendingOk_new cfg rateNow
  have hstart : Orderly (reports []) m.lifecycle := by
    rw [hview]
    exact ⟨List.nodup_nil, nofun, fun _ => rfl⟩
  have horder := orderly_run hP hsound hstart hcalm
  rw [List.nil_append] at horder
  refine ⟨horder.alternates sid, fun reason hmem => ?_⟩
  have hdead := horder.apart sid (mem_queued.mpr ⟨reason, hmem⟩)
  rwa [lifecycle, Option.isSome_eq_false_iff, Option.isNone_iff_eq_none] at hdead

section Reopened

variable {sid : SessionId} {entry : SessionEntry} {now : ℕ}

theorem call_closeSession (hget : m.sessions.get sid = some entry) (now : ℕ) :
    reports (call P m (.closeSession sid now)).1 = [] ∧
      (call P m (.closeSession sid now)).2.sessions = m.sessions.remove sid ∧
      (call P m (.closeSession sid now)).2.pendingClosed =
        m.pendingClosed ++ [.closed sid .userClosed] ∧
      (call P m (.closeSession sid now)).2.hs = m.hs ∧
      (call P m (.closeSession sid now)).2.limits = m.limits := by
  simp only [call, closeSession, hget, returned]
  refine ⟨beginClose_reports .., ?_, ?_, ?_, ?_⟩
  · rw [beginClose_sessions]
    rfl
  · rw [beginClose_pendingClosed]
    rfl
  · rw [beginClose_hs]
    rfl
  · rw [beginClose_limits]
    rfl

theorem call_tick (hq : QueueOk m) (hlive : ∀ sid entry, m.sessions.get sid = some entry →
      expiry m.limits now entry = none) (order : List SessionId) :
    reports (call P m (.tick now order)).1 = m.lifecycle.queued.map .closed ∧
      (call P m (.tick now order)).2.sessions = m.sessions := by
  have hnone : m.expired now order = [] := by
    rw [ServerSessionManager.expired, List.filterMap_eq_nil_iff]
    rintro ⟨sid, entry⟩ hmem
    rw [hlive sid entry (Table.mem_iter.mp hmem)]
    rfl
  have hticked : (call P m (.tick now order)).1 =
      [] ++ m.pendingClosed ++ (retransmitCloses P m.pendingCloses now).1 := by
    simp only [call, tick, hnone, expireLoop]
  refine ⟨?_, ?_⟩
  · rw [hticked, List.nil_append, reports_append, hq.reports, retransmitCloses_reports,
      List.append_nil]
  · simp only [call, tick, hnone, expireLoop]

theorem calm_of_queue (hqueue : m.pendingClosed = []) {c : Call T}
    (hbatch : ∀ fills, c ≠ .coverPacketAll fills) : Calm P m c :=
  ⟨fun _ _ _ _ _ _ _ _ _ _ => hqueue ▸ List.not_mem_nil, coverSafe_of_noBatch hbatch⟩

theorem calm_of_quiet {calls : List (Call T)}
    (h : Along (fun m c => (call P m c).2) (Quiet P) m calls) (hqueue : m.pendingClosed = []) :
    Along (fun m c => (call P m c).2) (Calm P) m calls := by
  induction calls generalizing m with
  | nil => trivial
  | cons c calls ih =>
    exact ⟨calm_of_queue hqueue h.1.noBatch, ih h.2 (h.1.queue.trans hqueue)⟩

/-- A tick right after a handshake reports the queue and keeps the new session. -/
theorem Establishing.call_tick {src : SocketAddr} {before : List (Call T)} {last : Call T}
    {hs₀ hs : ServerHandshake T} {session : WireSession}
    (h : Establishing P m sid src before last hs₀ hs session { m with hs }) (hq : QueueOk m)
    (hsessions : ∀ sid, m.sessions.get sid = none) (hlimits : m.limits = {}) :
    reports (call P (run P m (before ++ [last])) (.tick 0 [])).1 =
        m.lifecycle.queued.map .closed ∧
      ((call P (run P m (before ++ [last])) (.tick 0 [])).2.sessions.get sid).isSome := by
  have hlive : ∀ sid' entry, (run P m (before ++ [last])).sessions.get sid' = some entry →
      expiry (run P m (before ++ [last])).limits 0 entry = none := by
    intro sid' entry hget
    rw [h.run_eq] at hget ⊢
    simp only [putSession, Table.get_put, hsessions] at hget
    split_ifs at hget
    obtain rfl := Option.some.inj hget
    simp only [putSession, hlimits]
    rfl
  obtain ⟨hreports, hsame⟩ :=
    ServerSessionManager.call_tick (P := P) (m := run P m (before ++ [last]))
      (by rw [h.run_eq]; exact hq) hlive []
  rw [hreports, hsame, h.run_eq]
  exact ⟨rfl, by rw [putSession, Table.get_put_self]; rfl⟩

/-- A session that the application has closed, with its Closed event still in the queue. -/
theorem exists_closed_session :
    ∃ calls, Along (fun m c => (call Sample.primitives m c).2) (Calm Sample.primitives)
        sampleManager calls ∧
      reports (events Sample.primitives sampleManager calls) = [.opened sampleSid] ∧
      (∀ sid, (run Sample.primitives sampleManager calls).sessions.get sid = none) ∧
      (run Sample.primitives sampleManager calls).pendingClosed =
        [.closed sampleSid .userClosed] ∧
      (run Sample.primitives sampleManager calls).limits = {} ∧
      Exchange.Ready (run Sample.primitives sampleManager calls).hs ∧
      (run Sample.primitives sampleManager calls).hs.cfg = sampleServerConfig := by
  obtain ⟨before, last, _, hs, session, h⟩ := exists_sample_establishing
    (m := sampleManager) sampleSid rfl (fun _ => Table.get_empty _) (Table.get_empty _)
    (by decide) 3 4
  have hget : (run Sample.primitives sampleManager (before ++ [last])).sessions.get sampleSid =
      some ⟨session, sampleAddr, 0, 0⟩ := by
    rw [h.run_eq]
    exact Table.get_put_self ..
  obtain ⟨hreports, hsessions, hqueue, hhs, hlimits⟩ :=
    call_closeSession (P := Sample.primitives) hget 0
  have hempty : (run Sample.primitives sampleManager before).pendingClosed = [] := by
    rw [h.reached]
    rfl
  have hempty' : (run Sample.primitives sampleManager (before ++ [last])).pendingClosed = [] := by
    rw [h.run_eq]
    rfl
  refine ⟨(before ++ [last]) ++ [.closeSession sampleSid 0], ?_, ?_, ?_⟩
  · rw [along_append, along_append]
    exact ⟨⟨calm_of_quiet h.quiet rfl, calm_of_queue hempty h.noBatch, trivial⟩,
      calm_of_queue hempty' nofun, trivial⟩
  · rw [events_append, reports_append, h.reports_eq, events, outputs, outputs, List.append_nil,
      hreports]
    rfl
  · rw [run_snoc, hsessions, hqueue, hhs, hlimits, h.run_eq, putSession, Table.remove_put_self]
    refine ⟨fun sid => ?_, rfl, rfl, h.ready, h.cfg⟩
    rw [Table.get_remove]
    split_ifs
    · rfl
    · exact Table.get_empty _

/-- The application closes a session, and its id is established again before the next tick: the
Closed event of the first session comes while the second one is live. -/
theorem established_twice_before_closed :
    new sampleServerConfig {} 0 0 = .ok sampleManager ∧
    ∃ calls, reports (events Sample.primitives sampleManager calls) =
        [.opened sampleSid, .opened sampleSid, .closed sampleSid] ∧
      ¬ Alternates sampleSid (reports (events Sample.primitives sampleManager calls)) ∧
      ((run Sample.primitives sampleManager calls).sessions.get sampleSid).isSome := by
  refine ⟨new_sampleManager, ?_⟩
  obtain ⟨calls, -, hreports, hsessions, hqueue, hlimits, hready, hcfg⟩ := exists_closed_session
  have hroom : (run Sample.primitives sampleManager calls).sessions.size <
      (run Sample.primitives sampleManager calls).limits.maxSessions := by
    rw [Table.size_eq_zero hsessions, hlimits]
    decide
  obtain ⟨before, last, _, hs, session, h⟩ := exists_sample_establishing
    (m := run Sample.primitives sampleManager calls) sampleSid hcfg hready.empty
    (hsessions sampleSid) hroom 5 6
  have hq : QueueOk (run Sample.primitives sampleManager calls) :=
    (lifecycle_new new_sampleManager).2.run calls
  obtain ⟨htick, hsome⟩ := h.call_tick hq hsessions hlimits
  have hqueued : (run Sample.primitives sampleManager calls).lifecycle.queued = [sampleSid] := by
    rw [lifecycle, hqueue]
    rfl
  rw [hqueued] at htick
  have hevents : reports (events Sample.primitives sampleManager
      (calls ++ ((before ++ [last]) ++ [.tick 0 []]))) =
      [.opened sampleSid, .opened sampleSid, .closed sampleSid] := by
    rw [events_append, reports_append, hreports, events_append, reports_append, h.reports_eq,
      events, outputs, outputs, List.append_nil, htick]
    rfl
  refine ⟨calls ++ ((before ++ [last]) ++ [.tick 0 []]), hevents, ?_, ?_⟩
  · rw [hevents]
    decide
  · rw [run_append, run_snoc]
    exact hsome

theorem notices_alternate_sample :
    ∃ calls, reports (events Sample.primitives sampleManager calls) = [.opened sampleSid] ∧
      Alternates sampleSid (reports (events Sample.primitives sampleManager calls)) ∧
      (run Sample.primitives sampleManager calls).pendingClosed =
        [.closed sampleSid .userClosed] ∧
      (run Sample.primitives sampleManager calls).sessions.get sampleSid = none := by
  obtain ⟨calls, hcalm, hreports, -, hqueue, -⟩ := exists_closed_session
  obtain ⟨halt, hdead⟩ := notices_alternate CipherSession.sample_aeadTotal new_sampleManager
    hcalm sampleSid
  refine ⟨calls, hreports, halt, hqueue, hdead .userClosed ?_⟩
  rw [hqueue]
  exact List.mem_singleton_self _

end Reopened

end PqTunnel.ServerSessionManager
