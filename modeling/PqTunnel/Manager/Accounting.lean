import PqTunnel.Manager.Establish

/-! The Established and Closed events of the server manager: they account for every session, and
when they come in order. -/
namespace PqTunnel.ServerSessionManager
open ByteString Transition Lifecycle WireSession
open Exchange (sampleServerConfig sampleSid)

variable {T : CryptoTypes} {P : Primitives T} {m m' : ServerSessionManager T}
  {evs : List ManagerEvent} {pkt : WirePacket} {src : SocketAddr} {clock : Clock} {now : ℕ}
  {draw : ServerDraw T} {order : List SessionId}

def events (P : Primitives T) : ServerSessionManager T → List (Call T) → List ManagerEvent :=
  outputs (fun m c => (call P m c).2) (fun m c => (call P m c).1)

/-- The events that the failed cover batches of a run lose. -/
def lost (P : Primitives T) : ServerSessionManager T → List (Call T) → List ManagerEvent :=
  outputs (fun m c => (call P m c).2) (discarded P)

def reports (evs : List ManagerEvent) : List (Report SessionId) :=
  evs.filterMap ManagerEvent.notice

@[simp] theorem reports_nil : reports [] = [] := rfl

@[simp] theorem reports_append (evs evs' : List ManagerEvent) :
    reports (evs ++ evs') = reports evs ++ reports evs' := List.filterMap_append

theorem reports_eq_nil (h : ∀ ev ∈ evs, ev.notice = none) : reports evs = [] :=
  List.filterMap_eq_nil_iff.mpr h

def QueueOk (m : ServerSessionManager T) : Prop :=
  ∀ ev ∈ m.pendingClosed, ∃ sid reason, ev = .closed sid reason

def closedSid : ManagerEvent → Option SessionId
  | .closed sid _ => some sid
  | _ => none

theorem reports_of_closed (h : ∀ ev ∈ evs, ∃ sid reason, ev = ManagerEvent.closed sid reason) :
    reports evs = (evs.filterMap closedSid).map .closed := by
  induction evs with
  | nil => rfl
  | cons ev evs ih =>
    obtain ⟨sid, reason, rfl⟩ := h ev List.mem_cons_self
    simpa [reports, ManagerEvent.notice, closedSid] using
      ih fun ev hev => h ev (List.mem_cons_of_mem _ hev)

/-- The manager as a lifecycle: the ids in the table, and the ids whose Closed is queued. -/
def lifecycle (m : ServerSessionManager T) : State SessionId where
  live sid := (m.sessions.get sid).isSome
  queued := m.pendingClosed.filterMap closedSid

theorem QueueOk.reports (h : QueueOk m) :
    reports m.pendingClosed = m.lifecycle.queued.map .closed := reports_of_closed h

theorem mem_queued {sid : SessionId} :
    sid ∈ m.lifecycle.queued ↔ ∃ reason, ManagerEvent.closed sid reason ∈ m.pendingClosed := by
  rw [lifecycle, List.mem_filterMap]
  constructor
  · rintro ⟨ev, hev, heq⟩
    cases ev <;> cases heq
    exact ⟨_, hev⟩
  · rintro ⟨reason, hev⟩
    exact ⟨_, hev, rfl⟩

theorem beginClose_reports (m : ServerSessionManager T) (entry : SessionEntry) (now : ℕ) :
    reports (m.beginClose P entry now).1.toList = [] := by
  unfold beginClose
  split <;> rfl

theorem retransmitCloses_reports (closes : List PendingClose) (now : ℕ) :
    reports (retransmitCloses P closes now).1 = [] := by
  apply reports_eq_nil
  intro ev hev
  obtain ⟨pkt, peer, rfl⟩ := retransmitCloses_sends hev
  rfl

section Views

variable {sid : SessionId} {entry : SessionEntry}

theorem lifecycle_putSession (m : ServerSessionManager T) (sid : SessionId)
    (entry : SessionEntry) :
    (m.putSession sid entry).lifecycle =
      { m.lifecycle with live := Function.update m.lifecycle.live sid true } := by
  simp only [lifecycle, putSession, State.mk.injEq, and_true]
  funext sid'
  rw [Table.get_put]
  split_ifs with h
  · subst h
    simp
  · rw [Function.update_of_ne h]

theorem lifecycle_removeSession (m : ServerSessionManager T) (sid : SessionId) :
    (m.removeSession sid).lifecycle =
      { m.lifecycle with live := Function.update m.lifecycle.live sid false } := by
  simp only [lifecycle, removeSession, State.mk.injEq, and_true]
  funext sid'
  rw [Table.get_remove]
  split_ifs with h
  · subst h
    simp
  · rw [Function.update_of_ne h]

theorem lifecycle_live (hget : m.sessions.get sid = some entry) : m.lifecycle.live sid = true := by
  simp [lifecycle, hget]

theorem lifecycle_rewritten (hget : m.sessions.get sid = some entry) (entry' : SessionEntry) :
    (m.putSession sid entry').lifecycle = m.lifecycle := by
  rw [lifecycle_putSession, ← lifecycle_live hget, Function.update_eq_self]

theorem lifecycle_queueClosed (m : ServerSessionManager T) (sid : SessionId)
    (reason : CloseReason) :
    (m.queueClosed sid reason).lifecycle =
      ⟨Function.update m.lifecycle.live sid false, m.lifecycle.queued ++ [sid]⟩ := by
  have h := congrArg State.live (lifecycle_removeSession m sid)
  simp only [lifecycle, queueClosed, State.mk.injEq] at h ⊢
  exact ⟨h, by simp [closedSid]⟩

theorem lifecycle_beginClose (m : ServerSessionManager T) (entry : SessionEntry) (now : ℕ) :
    (m.beginClose P entry now).2.lifecycle = m.lifecycle := by
  rw [lifecycle, beginClose_sessions, beginClose_pendingClosed, lifecycle]

theorem QueueOk.queueClosed (h : QueueOk m) (sid : SessionId) (reason : CloseReason) :
    QueueOk (m.queueClosed sid reason) := by
  intro ev hev
  rcases List.mem_append.mp hev with hev | hev
  · exact h ev hev
  · exact ⟨sid, reason, List.mem_singleton.mp hev⟩

end Views

theorem Act.move (ha : Act P m evs m') (hq : QueueOk m) :
    Move m.lifecycle (reports evs) m'.lifecycle ∧ QueueOk m' ∧
      ∀ sid, .opened sid ∉ reports evs := by
  cases ha with
  | idle _ calls gate hevs =>
    rw [reports_eq_nil hevs]
    exact ⟨.silent, hq, fun _ => List.not_mem_nil⟩
  | received sid entry entry' w hget hsame =>
    rw [lifecycle_rewritten hget]
    exact ⟨.silent, hq, fun _ => List.not_mem_nil⟩
  | sent sid entry msgType payload packet session hget henc =>
    have hview : ({ m.putSession sid { entry with session } with
        encrypted := m.encrypted ++ entry.session.sealing (.ok packet) } :
          ServerSessionManager T).lifecycle = m.lifecycle := lifecycle_rewritten hget _
    rw [hview]
    exact ⟨.silent, hq, fun _ => List.not_mem_nil⟩
  | ended sid entry reason hget =>
    rw [lifecycle_removeSession]
    exact ⟨.closed sid (lifecycle_live hget), hq, fun _ h => by cases List.mem_singleton.mp h⟩
  | expired sid entry reason now hget =>
    rw [lifecycle_beginClose, lifecycle_removeSession, reports_append, beginClose_reports]
    refine ⟨.closed sid (lifecycle_live hget), ?_, fun _ h => by cases List.mem_singleton.mp h⟩
    intro ev hev
    rw [beginClose_pendingClosed] at hev
    exact hq ev hev
  | closedByUser sid entry now hget =>
    rw [lifecycle_beginClose, lifecycle_queueClosed, beginClose_reports]
    refine ⟨.queued sid (lifecycle_live hget), ?_, fun _ => List.not_mem_nil⟩
    intro ev hev
    rw [beginClose_pendingClosed] at hev
    exact hq.queueClosed sid .userClosed ev hev
  | evicted order =>
    refine ⟨?_, ?_, fun _ => List.not_mem_nil⟩ <;>
      rcases m.evictAtCapacity_cases order with ⟨h, -⟩ | ⟨-, stale, entry, hget, -, h⟩ <;> rw [h]
    · exact .silent
    · rw [lifecycle_queueClosed]
      exact .queued stale (lifecycle_live hget)
    · exact hq
    · exact hq.queueClosed stale .capacity
  | flushed now gate =>
    rw [reports_append, retransmitCloses_reports, List.append_nil, hq.reports]
    refine ⟨.flushed, nofun, fun sid h => ?_⟩
    obtain ⟨_, -, heq⟩ := List.mem_map.mp h
    cases heq

/-- An opening makes room first, by a move that queues no Closed of the new session's id. -/
theorem Opens.moves (ho : Opens P m pkt src clock now draw order evs m') (hq : QueueOk m) :
    ∃ sid peer mid, evs = [.established sid peer] ∧ Move m.lifecycle [] mid ∧
      Move mid (reports evs) m'.lifecycle ∧ QueueOk m' ∧
      (sid ∉ m.lifecycle.queued → sid ∉ mid.queued) := by
  cases ho with
  | mk hs outcome session hfrag hcomplete hnone hnew =>
    have hact : Act P { m with hs } [] (({ m with hs } : ServerSessionManager T).evictAtCapacity
      order) := .evicted order
    obtain ⟨hmove, hq', -⟩ := hact.move hq
    refine ⟨_, _, _, rfl, hmove, ?_, hq', ?_⟩
    · rw [lifecycle_putSession]
      refine .opened _ ?_
      rw [lifecycle, Option.isSome_eq_false_iff, Option.isNone_iff_eq_none]
      cases hget : (({ m with hs } : ServerSessionManager T).evictAtCapacity order).sessions.get
          outcome.sessionId with
      | none => rfl
      | some e => exact (Option.some_ne_none e ((get_of_evictAtCapacity hget).symm.trans hnone)).elim
    · intro hsid
      rcases ({ m with hs } : ServerSessionManager T).evictAtCapacity_cases order with
        ⟨h, -⟩ | ⟨-, stale, entry, hget, -, h⟩
      · rw [h]
        exact hsid
      · rw [h, lifecycle_queueClosed]
        intro hmem
        rcases List.mem_append.mp hmem with hmem | hmem
        · exact hsid hmem
        · rw [List.mem_singleton.mp hmem] at hnone
          exact Option.some_ne_none entry (hget.symm.trans hnone)

theorem lifecycle_new {cfg : ServerConfig T} {limits : SessionLimits} {rateNow gateNow : ℕ}
    (h : new cfg limits rateNow gateNow = .ok m) : m.lifecycle = ⟨fun _ => false, []⟩ ∧ QueueOk m := by
  obtain ⟨-, -, hsessions, hclosed, -⟩ := new_ok h
  constructor
  · simp [lifecycle, hsessions, hclosed]
  · simp [QueueOk, hclosed]

section Balance

theorem trace_opens_nothing (ht : Trace (Act P) m evs m') (hq : QueueOk m) :
    QueueOk m' ∧ ∀ sid, .opened sid ∉ reports evs := by
  refine ht.extend (J := fun h m => QueueOk m ∧ ∀ sid, .opened sid ∉ reports h) ?_ (h := [])
    ⟨hq, fun _ => List.not_mem_nil⟩
  intro h m out m' hJ ha
  obtain ⟨-, hq', hout⟩ := ha.move hJ.1
  refine ⟨hq', fun sid hmem => ?_⟩
  rw [reports_append, List.mem_append] at hmem
  exact hmem.elim (hJ.2 sid) (hout sid)

theorem trace_moves (ht : Trace (Act P) m evs m') (hq : QueueOk m) :
    Trace Move m.lifecycle (reports evs) m'.lifecycle := by
  refine (ht.extend (J := fun h m' => QueueOk m' ∧
    Trace Move m.lifecycle (reports h) m'.lifecycle) ?_ (h := []) ⟨hq, .refl _⟩).2
  rintro h m₁ out m₂ ⟨hq, htrace⟩ ha
  obtain ⟨hmove, hq', -⟩ := ha.move hq
  exact ⟨hq', reports_append h out ▸ htrace.snoc hmove⟩

theorem QueueOk.call (hq : QueueOk m) (c : Call T) : QueueOk (call P m c).2 := by
  rcases call_cases (P := P) m c with ⟨_, _, _, _, _, _, -, ho⟩ | ht
  · obtain ⟨-, -, -, -, -, -, hq', -⟩ := ho.moves hq
    exact hq'
  · exact (trace_opens_nothing ht hq).1

theorem QueueOk.run (hq : QueueOk m) (calls : List (Call T)) : QueueOk (run P m calls) := by
  induction calls generalizing m with
  | nil => exact hq
  | cons c calls ih => exact ih (hq.call c)

theorem opened_notMem_discarded (hq : QueueOk m) (c : Call T) (sid : SessionId) :
    .opened sid ∉ reports (discarded P m c) := by
  cases c with
  | coverPacketAll fills =>
    unfold discarded
    dsimp only
    split
    · exact List.not_mem_nil
    · exact (trace_opens_nothing ((coverLoop_trace (t := 0) fills _ m).1.mono Deed.act) hq).2 sid
  | _ => exact List.not_mem_nil

theorem opened_notMem_lost (hq : QueueOk m) (calls : List (Call T)) (sid : SessionId) :
    .opened sid ∉ reports (lost P m calls) := by
  induction calls generalizing m with
  | nil => exact List.not_mem_nil
  | cons c calls ih =>
    rw [lost, outputs, reports_append, List.mem_append, not_or]
    exact ⟨opened_notMem_discarded hq c sid, ih (hq.call c)⟩

theorem balanced_call {h : List ManagerEvent} (hq : QueueOk m)
    (hb : Balanced (reports h) m.lifecycle) (c : Call T) :
    Balanced (reports (h ++ ((call P m c).1 ++ discarded P m c))) (call P m c).2.lifecycle := by
  rcases call_cases (P := P) m c with ⟨pkt, src, clock, now, draw, order, rfl, ho⟩ | ht
  · obtain ⟨sid, peer, mid, -, hroom, hopen, -⟩ := ho.moves hq
    have hlast := (hb.move hroom).move hopen
    rw [List.append_nil, ← reports_append] at hlast
    simpa [discarded] using hlast
  · refine (ht.extend (J := fun h m => QueueOk m ∧ Balanced (reports h) m.lifecycle) ?_
      ⟨hq, hb⟩).2
    intro h m out m' hJ ha
    obtain ⟨hmove, hq', -⟩ := ha.move hJ.1
    exact ⟨hq', reports_append h out ▸ hJ.2.move hmove⟩

/-- Over a run: every Established is matched by a live session or by one Closed, which was
returned, is queued, or was lost with a failed cover batch. -/
theorem balanced_run {cfg : ServerConfig T} {limits : SessionLimits} {rateNow gateNow : ℕ}
    (hnew : new cfg limits rateNow gateNow = .ok m) (calls : List (Call T)) (sid : SessionId) :
    (reports (events P m calls)).count (.opened sid) =
      (reports (events P m calls)).count (.closed sid) +
        (reports (lost P m calls)).count (.closed sid) +
        (reports (run P m calls).pendingClosed).count (.closed sid) +
        ((run P m calls).sessions.get sid).isSome.toNat := by
  obtain ⟨hview, hq⟩ := lifecycle_new hnew
  have hstart : QueueOk m ∧ Balanced (reports []) m.lifecycle := by
    refine ⟨hq, fun k => ?_⟩
    simp [hview]
  have hbal : Balanced (reports ([] ++ outputs (fun m c => (call P m c).2)
      (fun m c => (call P m c).1 ++ discarded P m c) m calls)) (run P m calls).lifecycle :=
    (outputs_invariant (J := fun h m => QueueOk m ∧ Balanced (reports h) m.lifecycle)
      (fun h m c hJ => ⟨hJ.1.call c, balanced_call hJ.1 hJ.2 c⟩) hstart calls).2
  have hperm : (reports (outputs (fun m c => (call P m c).2)
      (fun m c => (call P m c).1 ++ discarded P m c) m calls)).Perm
      (reports (events P m calls) ++ reports (lost P m calls)) := by
    rw [← reports_append]
    exact (outputs_append_perm m calls).filterMap _
  have hcount := hbal sid
  rw [List.nil_append, hperm.count_eq, hperm.count_eq, List.count_append, List.count_append,
    List.count_eq_zero.mpr (opened_notMem_lost hq calls sid)] at hcount
  rw [(hq.run calls).reports, count_closed_map_closed]
  exact hcount

end Balance

section CoverBatch

variable {sid : SessionId} {entry : SessionEntry}

/-- At the threshold a cover packet closes the session. -/
theorem coverPacket_exhausted (hget : m.sessions.get sid = some entry)
    (hstate : entry.session.state = .established)
    (hdone : isCounterExhausted entry.session.cipher.sendCounter = true) (fill : Payload) :
    m.coverPacket P sid (.ok fill) =
      (.ok (.closed sid .nonceExhausted), m.removeSession sid) := by
  have hlen : fill.toList.length = payloadLen := fill.toList_length
  simp only [coverPacket, hget, cover, requireEstablished, hstate, if_true,
    encrypt, CipherSession.encrypt, CipherSession.sealPacket, hlen, ne_eq,
    not_true_eq_false, if_false, hdone, afterEncrypt]

theorem coverPacket_no_random (hget : m.sessions.get sid = some entry)
    (hstate : entry.session.state = .established) (e : String) :
    m.coverPacket P sid (.error e) =
      (.error (.err (.session (.crypto (.invalidInput ("getrandom: " ++ e))))),
        m.putSession sid entry) := by
  simp only [coverPacket, hget, cover, requireEstablished, hstate, if_true,
    afterEncrypt]

theorem coverPacket_sends (hP : CipherSession.AeadTotal P) (hget : m.sessions.get sid = some entry)
    (hstate : entry.session.state = .established)
    (hfresh : isCounterExhausted entry.session.cipher.sendCounter = false) (fill : Payload) :
    ∃ packet entry' log, m.coverPacket P sid (.ok fill) = (.ok (.sendPacket packet entry.peer),
      { m.putSession sid entry' with encrypted := log }) := by
  obtain ⟨packet, henc⟩ := encrypt_next hP hstate hfresh .cover fill.toList_length
  refine ⟨packet, ?_⟩
  simp only [coverPacket, hget, cover, requireEstablished, hstate, if_true,
    henc, afterEncrypt]
  exact ⟨_, _, rfl⟩

/-- A batch fails only where the random source does, and it loses the Closed events of earlier
sessions whose counter is used up. -/
theorem coverLoop_error (hP : CipherSession.AeadTotal P)
    {fills : SessionId → Except String Payload} {entries : SessionId → Option SessionEntry}
    (hstate : ∀ sid entry, entries sid = some entry → entry.session.state = .established)
    {sids : List SessionId} (hsids : sids.Pairwise fun a b => a ≠ b ∧ lexLe a.toList b.toList = true)
    (hsome : ∀ sid ∈ sids, (entries sid).isSome)
    (m : ServerSessionManager T) (hget : ∀ sid ∈ sids, m.sessions.get sid = entries sid)
    {err : Fault ManagerError} (herr : (coverLoop P fills sids m).1 = .error err) :
    ∃ b ∈ sids, (∃ e, fills b = .error e) ∧
      ∀ a reason, .closed a reason ∈ coverEvents P fills sids m →
        a ∈ sids ∧ a ≠ b ∧ lexLe a.toList b.toList = true ∧
          ∃ entry, entries a = some entry ∧
            isCounterExhausted entry.session.cipher.sendCounter = true := by
  induction sids generalizing m with
  | nil => cases herr
  | cons k sids ih =>
    obtain ⟨hk, hsids⟩ := List.pairwise_cons.mp hsids
    obtain ⟨entry, hentry⟩ := Option.isSome_iff_exists.mp (hsome k List.mem_cons_self)
    have hgetk : m.sessions.get k = some entry := (hget k List.mem_cons_self).trans hentry
    -- the sessions behind this one are as they were when the batch began
    have hrest : ∀ (ev : ManagerEvent) (m' : ServerSessionManager T),
        m.coverPacket P k (fills k) = (.ok ev, m') →
        (∀ j ≠ k, m'.sessions.get j = m.sessions.get j) →
        (∀ a reason, .closed a reason ∈ ev.toList →
          a = k ∧ isCounterExhausted entry.session.cipher.sendCounter = true) →
        ∃ b ∈ k :: sids, (∃ e, fills b = .error e) ∧
          ∀ a reason, .closed a reason ∈ coverEvents P fills (k :: sids) m →
            a ∈ k :: sids ∧ a ≠ b ∧ lexLe a.toList b.toList = true ∧
              ∃ entry, entries a = some entry ∧
                isCounterExhausted entry.session.cipher.sendCounter = true := by
      intro ev m' hstep hother hev
      have herr' : (coverLoop P fills sids m').1 = .error err := by
        simp only [coverLoop, hstep] at herr
        cases hl : coverLoop P fills sids m' with
        | mk r m'' => cases r <;> simp_all
      obtain ⟨b, hb, hfail, hclosed⟩ := ih hsids
        (fun sid hsid => hsome sid (List.mem_cons_of_mem _ hsid)) m' (fun sid hsid => by
          rw [hother sid (hk sid hsid).1.symm]
          exact hget sid (List.mem_cons_of_mem _ hsid)) herr'
      refine ⟨b, List.mem_cons_of_mem _ hb, hfail, fun a reason hmem => ?_⟩
      simp only [coverEvents, hstep] at hmem
      rcases List.mem_append.mp hmem with hmem | hmem
      · obtain ⟨rfl, hdone⟩ := hev a reason hmem
        exact ⟨List.mem_cons_self, (hk b hb).1, (hk b hb).2, entry, hentry, hdone⟩
      · obtain ⟨ha, hrest⟩ := hclosed a reason hmem
        exact ⟨List.mem_cons_of_mem _ ha, hrest⟩
    cases hfill : fills k with
    | error e =>
      refine ⟨k, List.mem_cons_self, ⟨e, hfill⟩, fun a reason hmem => ?_⟩
      rw [coverEvents, hfill, coverPacket_no_random hgetk (hstate k entry hentry) e] at hmem
      cases hmem
    | ok fill =>
      cases hdone : isCounterExhausted entry.session.cipher.sendCounter with
      | true =>
        refine hrest _ _ (hfill ▸ coverPacket_exhausted hgetk (hstate k entry hentry) hdone fill)
          (fun j hj => Table.get_remove_ne _ hj) fun a reason hmem => ?_
        exact ⟨(ManagerEvent.closed.inj (List.mem_singleton.mp hmem)).1, hdone⟩
      | false =>
        obtain ⟨packet, entry', log, hstep⟩ :=
          coverPacket_sends hP hgetk (hstate k entry hentry) hdone fill
        refine hrest _ _ (hfill ▸ hstep) (fun j hj => Table.get_put_ne _ _ hj)
          fun a reason hmem => ?_
        cases List.mem_singleton.mp hmem

theorem pairwise_sortedSids (m : ServerSessionManager T) :
    m.sortedSids.Pairwise fun a b => a ≠ b ∧ lexLe a.toList b.toList = true := by
  have htrans : ∀ a b c : SessionId, lexLe a.toList b.toList = true →
      lexLe b.toList c.toList = true → lexLe a.toList c.toList = true :=
    fun _ _ _ => lexLe_trans
  have hsorted : m.sortedSids.Pairwise fun a b => lexLe a.toList b.toList = true :=
    List.pairwise_mergeSort htrans (fun a b => lexLe_total a.toList b.toList) _
  have hnodup : m.sortedSids.Nodup := (List.mergeSort_perm ..).nodup_iff.mpr m.sessions.nodup_keys
  exact List.Pairwise.and hnodup hsorted

/-- In a cover batch, the random source does not fail on a session that comes, in byte order,
after one whose counter is used up. -/
def CoverSafe (m : ServerSessionManager T) : Call T → Prop
  | .coverPacketAll fills =>
    ∀ a ea b eb, m.sessions.get a = some ea → m.sessions.get b = some eb → a ≠ b →
      lexLe a.toList b.toList = true →
      isCounterExhausted ea.session.cipher.sendCounter = true → ∃ fill, fills b = .ok fill
  | _ => True

theorem coverSafe_of_noBatch {c : Call T} (h : ∀ fills, c ≠ .coverPacketAll fills) :
    CoverSafe m c := by
  cases c with
  | coverPacketAll fills => exact absurd rfl (h fills)
  | _ => trivial

theorem CoverSafe.kept (hP : CipherSession.AeadTotal P) (hentries : EntriesOk m) {c : Call T}
    (hsafe : CoverSafe m c) (sid : SessionId) (reason : CloseReason) :
    .closed sid reason ∉ discarded P m c := by
  cases c with
  | coverPacketAll fills =>
    intro hmem
    simp only [discarded] at hmem
    split at hmem
    · cases hmem
    · rename_i err herr
      have hsids : ∀ k ∈ m.sortedSids, (m.sessions.get k).isSome := by
        intro k hk
        rw [sortedSids, List.mem_mergeSort, Table.mem_keys] at hk
        exact Option.isSome_iff_exists.mpr hk
      obtain ⟨b, hb, ⟨e, hfail⟩, hclosed⟩ := coverLoop_error hP
        (fun sid entry h => (hentries sid entry h).1) m.pairwise_sortedSids hsids m
        (fun _ _ => rfl) herr
      obtain ⟨-, hne, hle, entry, hget, hdone⟩ := hclosed sid reason hmem
      obtain ⟨eb, hgetb⟩ := Option.isSome_iff_exists.mp (hsids b hb)
      obtain ⟨fill, hfill⟩ := hsafe sid entry b eb hget hgetb hne hle hdone
      rw [hfail] at hfill
      cases hfill
  | _ => exact List.not_mem_nil

theorem mem_of_closed_mem_reports (h : .closed sid ∈ reports evs) :
    ∃ reason, .closed sid reason ∈ evs := by
  obtain ⟨ev, hev, heq⟩ := List.mem_filterMap.mp h
  cases ev <;> cases heq
  exact ⟨_, hev⟩

theorem CoverSafe.reports_discarded (hP : CipherSession.AeadTotal P) (hentries : EntriesOk m)
    (hq : QueueOk m) {c : Call T} (hsafe : CoverSafe m c) : reports (discarded P m c) = [] := by
  rw [List.eq_nil_iff_forall_not_mem]
  intro r hr
  cases r with
  | opened sid => exact opened_notMem_discarded hq c sid hr
  | closed sid =>
    obtain ⟨reason, hmem⟩ := mem_of_closed_mem_reports hr
    exact hsafe.kept hP hentries sid reason hmem

theorem reports_lost (hP : CipherSession.AeadTotal P) (hentries : EntriesOk m) (hq : QueueOk m)
    {calls : List (Call T)} (hsafe : Along (fun m c => (call P m c).2) CoverSafe m calls) :
    reports (lost P m calls) = [] := by
  induction calls generalizing m with
  | nil => rfl
  | cons c calls ih =>
    rw [lost, outputs, reports_append, hsafe.1.reports_discarded hP hentries hq]
    exact ih (entriesOk_run hentries [c]) (hq.call c) hsafe.2

end CoverBatch

section Capacity

theorem size_evictAtCapacity_le (m : ServerSessionManager T) (order : List SessionId) :
    (m.evictAtCapacity order).sessions.size ≤ m.sessions.size := by
  rcases m.evictAtCapacity_cases order with ⟨h, -⟩ | ⟨-, stale, _, -, -, h⟩
  · rw [h]
  · rw [h]
    exact Table.size_remove_le ..

theorem Act.size (ha : Act P m evs m') :
    m'.limits = m.limits ∧ m'.sessions.size ≤ m.sessions.size := by
  cases ha with
  | idle | flushed => exact ⟨rfl, le_rfl⟩
  | received sid entry entry' w hget | sent sid entry _ _ _ _ hget =>
    exact ⟨rfl, (Table.size_put_of_some _ hget).le⟩
  | ended sid => exact ⟨rfl, Table.size_remove_le ..⟩
  | expired sid | closedByUser sid =>
    rw [beginClose_limits, beginClose_sessions]
    exact ⟨rfl, Table.size_remove_le ..⟩
  | evicted order => exact ⟨evictAtCapacity_limits .., size_evictAtCapacity_le ..⟩

theorem Opens.size (ho : Opens P m pkt src clock now draw order evs m') :
    m'.limits = m.limits ∧
      (1 ≤ m.limits.maxSessions → m.sessions.size ≤ m.limits.maxSessions →
        m'.sessions.size ≤ m.limits.maxSessions) := by
  cases ho with
  | mk hs outcome session hfrag hcomplete hnone hnew =>
    refine ⟨by rw [putSession, evictAtCapacity_limits], fun hone hle => ?_⟩
    have hput : ∀ t : Table SessionId SessionEntry, t.get outcome.sessionId = none →
        (t.put outcome.sessionId ⟨session, src, now, now⟩).size = t.size + 1 :=
      fun t ht => Table.size_put_of_none _ ht
    rcases ({ m with hs } : ServerSessionManager T).evictAtCapacity_cases order with
      ⟨h, hroom⟩ | ⟨hfull, stale, entry, hget, -, h⟩
    · rw [h, putSession, hput _ hnone]
      dsimp only at hroom ⊢
      omega
    · have hremoved : (m.sessions.remove stale).get outcome.sessionId = none := by
        rw [Table.get_remove]
        split_ifs
        · rfl
        · exact hnone
      have hsize := Table.size_remove_of_some (t := m.sessions) hget
      rw [h, putSession]
      exact (hput _ hremoved).trans_le (by omega)

theorem size_run {limits : SessionLimits} (hmax : 1 ≤ limits.maxSessions)
    (h : m.limits = limits ∧ m.sessions.size ≤ limits.maxSessions) (calls : List (Call T)) :
    (run P m calls).limits = limits ∧ (run P m calls).sessions.size ≤ limits.maxSessions := by
  refine run_invariant (I := fun m => m.limits = limits ∧ m.sessions.size ≤ limits.maxSessions)
    ?_ ?_ h calls
  · rintro m evs m' ⟨hlim, hsize⟩ ha
    exact ⟨ha.size.1.trans hlim, ha.size.2.trans hsize⟩
  · rintro m pkt src clock now draw order evs m' ⟨hlim, hsize⟩ ho
    obtain ⟨hlim', hsize'⟩ := ho.size
    rw [hlim] at hlim' hsize'
    exact ⟨hlim', hsize' hmax hsize⟩

/-- Whether or not the new session can be set up, only its own id and the evicted one change. -/
theorem get_onHandshakeComplete (m : ServerSessionManager T) (outcome : HandshakeOutcome T)
    (hnone : m.sessions.get outcome.sessionId = none) {sid : SessionId}
    (hsid : sid ≠ outcome.sessionId) :
    (m.onHandshakeComplete P outcome src now order).2.sessions.get sid =
      (m.evictAtCapacity order).sessions.get sid := by
  unfold onHandshakeComplete
  simp only [hnone]
  split
  · rfl
  · exact Table.get_put_ne _ _ hsid

/-- What a completed handshake does to the table of a manager with at most `max_sessions`
sessions. -/
structure Admits (m : ServerSessionManager T) (outcome : HandshakeOutcome T)
    (r : ManagerStep T) : Prop where
  collision : ∀ entry, m.sessions.get outcome.sessionId = some entry →
    returned r.1 = [] ∧ r.2.sessions = m.sessions
  room : m.sessions.get outcome.sessionId = none → m.sessions.size < m.limits.maxSessions →
    ∀ sid ≠ outcome.sessionId, r.2.sessions.get sid = m.sessions.get sid
  eviction : m.sessions.get outcome.sessionId = none →
    m.sessions.size = m.limits.maxSessions →
    ∃ stale entry, stale ≠ outcome.sessionId ∧ m.sessions.get stale = some entry ∧
      (∀ sid e, m.sessions.get sid = some e → entry.lastActivity ≤ e.lastActivity) ∧
      ∀ sid ≠ outcome.sessionId,
        r.2.sessions.get sid = if sid = stale then none else m.sessions.get sid

theorem onHandshakeComplete_admits (hmax : 1 ≤ m.limits.maxSessions)
    (outcome : HandshakeOutcome T) :
    Admits m outcome (m.onHandshakeComplete P outcome src now order) where
  collision entry hget := by
    have h : m.onHandshakeComplete P outcome src now order = (.ok .none, m) := by
      simp only [onHandshakeComplete, hget]
    rw [h]
    exact ⟨rfl, rfl⟩
  room hnone hroom sid hsid := by
    rw [get_onHandshakeComplete m outcome hnone hsid]
    rcases m.evictAtCapacity_cases order with ⟨h, -⟩ | ⟨hfull, -⟩
    · rw [h]
    · omega
  eviction hnone hfull := by
    rcases m.evictAtCapacity_cases order with ⟨-, h⟩ | ⟨-, stale, entry, hget, hmin, h⟩
    · omega
    · refine ⟨stale, entry, ?_, hget, hmin, fun sid hsid => ?_⟩
      · rintro rfl
        exact Option.some_ne_none entry (hget.symm.trans hnone)
      · rw [get_onHandshakeComplete m outcome hnone hsid, h]
        exact Table.get_remove ..

theorem handleDatagram_admits (hmax : 1 ≤ m.limits.maxSessions)
    (hfrag : isHandshakeFragment pkt = true) {outcome : HandshakeOutcome T}
    {hs : ServerHandshake T}
    (hcomplete : m.hs.handleDatagram P pkt src clock draw = (.ok (.complete outcome), hs)) :
    Admits m outcome (m.handleDatagram P pkt src clock now draw order) := by
  have h : Admits { m with hs } outcome
      (onHandshakeComplete P { m with hs } outcome src now order) :=
    onHandshakeComplete_admits (m := { m with hs }) hmax outcome
  rw [handleDatagram, if_pos hfrag, hcomplete]
  exact ⟨h.collision, h.room, h.eviction⟩

/-- In every run the table stays within its bound and a completed handshake evicts at most one
session; and while no failed cover batch loses a Closed event, the events returned and queued
account for every session. -/
theorem sessions_accounted (hP : CipherSession.AeadTotal P) {cfg : ServerConfig T}
    {limits : SessionLimits} {rateNow gateNow : ℕ}
    (hnew : new cfg limits rateNow gateNow = .ok m) (hmax : 1 ≤ limits.maxSessions)
    {calls : List (Call T)} (hsafe : Along (fun m c => (call P m c).2) CoverSafe m calls) :
    (run P m calls).sessions.size ≤ limits.maxSessions ∧
    (∀ pkt src clock now draw order outcome hs, isHandshakeFragment pkt = true →
      (run P m calls).hs.handleDatagram P pkt src clock draw = (.ok (.complete outcome), hs) →
      Admits (run P m calls) outcome
        ((run P m calls).handleDatagram P pkt src clock now draw order)) ∧
    ∀ sid, (reports (events P m calls)).count (.opened sid) =
      (reports (events P m calls)).count (.closed sid) +
        (reports (run P m calls).pendingClosed).count (.closed sid) +
        ((run P m calls).sessions.get sid).isSome.toNat := by
  obtain ⟨-, hlimits, hsessions, -⟩ := new_ok hnew
  have hstart : m.limits = limits ∧ m.sessions.size ≤ limits.maxSessions := by
    rw [hsessions, Table.size_empty]
    exact ⟨hlimits, Nat.zero_le _⟩
  obtain ⟨hlim, hsize⟩ := size_run (P := P) hmax hstart calls
  refine ⟨hsize, ?_, fun sid => ?_⟩
  · intro pkt src clock now draw order outcome hs hfrag hcomplete
    exact handleDatagram_admits (hlim.symm ▸ hmax) hfrag hcomplete
  · have hlost := reports_lost hP (entriesOk_new hnew) (lifecycle_new hnew).2 hsafe
    rw [balanced_run hnew calls sid, hlost, List.count_nil, Nat.add_zero]

end Capacity

section LostClosed

variable {sid other : SessionId} {entry : SessionEntry}

theorem events_append (m : ServerSessionManager T) (as bs : List (Call T)) :
    events P m (as ++ bs) = events P m as ++ events P (run P m as) bs := outputs_append m as bs

theorem events_quiet {calls : List (Call T)}
    (h : Along (fun m a => (call P m a).2) (Quiet P) m calls) :
    reports (events P m calls) = [] := by
  induction calls generalizing m with
  | nil => rfl
  | cons c calls ih =>
    rw [events, outputs, reports_append, reports_eq_nil h.1.silent]
    exact ih h.2

/-- What a session of the table looks like after `n` packets. -/
structure Sent (m : ServerSessionManager T) (sid other : SessionId) (n : ℕ) : Prop where
  session : ∃ entry, m.sessions.get sid = some entry ∧ entry.session.state = .established ∧
    entry.session.cipher.sendCounter.toNat = n
  second : ∃ entry, m.sessions.get other = some entry ∧ entry.session.state = .established
  keys : m.sessions.keys = [sid, other]
  queue : m.pendingClosed = []

theorem Sent.next (hP : CipherSession.AeadTotal P) (hne : other ≠ sid) {n : ℕ}
    (h : Sent m sid other n) (hn : n < maxPacketNonce.toNat) :
    Quiet P m (.appOutbound sid []) ∧ Sent (call P m (.appOutbound sid [])).2 sid other (n + 1) := by
  obtain ⟨entry, hget, hstate, hcounter⟩ := h.session
  have hfresh : isCounterExhausted entry.session.cipher.sendCounter = false := by
    rw [CipherSession.not_exhausted_iff, UInt64.lt_iff_toNat_lt, hcounter]
    exact hn
  obtain ⟨packet, henc⟩ := encrypt_next hP hstate hfresh .data length_padSlot_nil
  have hcall : m.appOutbound P sid [] = m.afterEncrypt sid entry (.ok packet, entry.session.next) := by
    simp only [appOutbound, List.length_nil, not_lt_zero, if_false, sendEncrypted, hget, henc]
  simp only [call, hcall, afterEncrypt]
  refine ⟨⟨?_, by simp only [call, hcall, afterEncrypt, putSession], by simp⟩,
    ⟨_, Table.get_put_self .., hstate, ?_⟩, ?_, ?_, h.queue⟩
  · simp only [call, hcall, afterEncrypt, returned, ManagerEvent.toList, List.mem_singleton,
      forall_eq, ManagerEvent.notice]
  · exact (CipherSession.checkedSucc_of_not_exhausted hfresh).2.trans (congrArg (· + 1) hcounter)
  · obtain ⟨entry', hget', hstate'⟩ := h.second
    exact ⟨entry', (Table.get_put_ne _ _ hne).trans hget', hstate'⟩
  · refine (Table.keys_put ..).trans ?_
    rw [h.keys, List.erase_cons_head]

theorem Sent.run (hP : CipherSession.AeadTotal P) (hne : other ≠ sid) {n k : ℕ}
    (h : Sent m sid other n) (hk : n + k ≤ maxPacketNonce.toNat) :
    Along (fun m a => (call P m a).2) (Quiet P) m (List.replicate k (.appOutbound sid [])) ∧
      Sent (run P m (List.replicate k (.appOutbound sid []))) sid other (n + k) := by
  induction k generalizing m n with
  | zero => exact ⟨trivial, h⟩
  | succ k ih =>
    obtain ⟨hquiet, hnext⟩ := h.next hP hne (by omega)
    obtain ⟨hrest, hlast⟩ := ih hnext (by omega)
    rw [List.replicate_succ]
    rw [Nat.add_right_comm] at hlast
    exact ⟨⟨hquiet, hrest⟩, hlast⟩

/-- The random source fails on every session but one. -/
def failingFills (sid : SessionId) (fill : Payload) (e : String) (k : SessionId) :
    Except String Payload :=
  if k = sid then .ok fill else .error e

/-- At the threshold, a cover batch that fails on the second session loses the Closed event of
the first one. -/
theorem Sent.lose (hne : other ≠ sid) (hle : lexLe sid.toList other.toList = true)
    (h : Sent m sid other maxPacketNonce.toNat) (fill : Payload) (e : String) :
    ∃ entry, call P m (.coverPacketAll (failingFills sid fill e)) =
      ([], (m.removeSession sid).putSession other entry) := by
  obtain ⟨entry, hget, hstate, hcounter⟩ := h.session
  obtain ⟨entry', hget', hstate'⟩ := h.second
  have hdone : isCounterExhausted entry.session.cipher.sendCounter = true := by
    rw [isCounterExhausted, decide_eq_true_eq, UInt64.le_iff_toNat_le, hcounter]
  have hsorted : m.sortedSids = [sid, other] := by
    rw [sortedSids, h.keys]
    exact List.mergeSort_of_pairwise (by simpa using hle)
  have hother : (m.removeSession sid).sessions.get other = some entry' :=
    (Table.get_remove_ne _ hne).trans hget'
  refine ⟨entry', ?_⟩
  simp only [call, coverPacketAll, hsorted, coverLoop, failingFills, if_true, hne, if_false,
    coverPacket_exhausted hget hstate hdone fill, coverPacket_no_random hother hstate' e,
    returnedAll]

theorem Establishing.reports_eq {before : List (Call T)} {last : Call T}
    {hs₀ hs : ServerHandshake T} {session : WireSession} {room : ServerSessionManager T}
    (h : Establishing P m sid src before last hs₀ hs session room) :
    reports (events P m (before ++ [last])) = [.opened sid] := by
  rw [events_append, reports_append, events_quiet h.quiet, h.reached, events, outputs,
    h.completes]
  rfl

theorem Establishing.coverSafe {before : List (Call T)} {last : Call T}
    {hs₀ hs : ServerHandshake T} {session : WireSession} {room : ServerSessionManager T}
    (h : Establishing P m sid src before last hs₀ hs session room) :
    Along (fun m c => (call P m c).2) CoverSafe m (before ++ [last]) := by
  rw [along_append]
  exact ⟨h.quiet.mono fun _ _ hquiet => coverSafe_of_noBatch hquiet.noBatch,
    coverSafe_of_noBatch h.noBatch, trivial⟩

def otherSid : SessionId := List.Vector.replicate _ 8

theorem exists_two_sessions :
    ∃ calls, reports (events Sample.primitives sampleManager calls) =
        [.opened otherSid, .opened sampleSid] ∧
      Sent (run Sample.primitives sampleManager calls) sampleSid otherSid 0 := by
  have hne : otherSid ≠ sampleSid := by decide
  obtain ⟨before₁, last₁, _, hs₁, session₁, h₁⟩ := exists_sample_establishing
    (m := sampleManager) otherSid rfl (fun _ => Table.get_empty _) (Table.get_empty _)
    (by decide) 3 4
  have hsize : (sampleManager.sessions.put otherSid ⟨session₁, Exchange.sampleAddr, 0, 0⟩).size <
      sampleManager.limits.maxSessions :=
    (Table.size_put_of_none _ (Table.get_empty _)).trans_lt (by decide)
  obtain ⟨before₂, last₂, _, hs₂, session₂, h₂⟩ := exists_sample_establishing
    (m := run Sample.primitives sampleManager (before₁ ++ [last₁])) sampleSid
    (h₁.run_eq ▸ h₁.cfg) (h₁.run_eq ▸ h₁.ready.empty)
    (h₁.run_eq ▸ (Table.get_put_ne _ _ hne.symm).trans (Table.get_empty _)) (h₁.run_eq ▸ hsize) 5 6
  refine ⟨(before₁ ++ [last₁]) ++ (before₂ ++ [last₂]), ?_, ?_⟩
  · rw [events_append, reports_append, h₁.reports_eq, h₂.reports_eq]
    rfl
  · rw [run_append, h₂.run_eq, h₁.run_eq]
    refine ⟨⟨_, Table.get_put_self .., h₂.state, ?_⟩,
      ⟨_, (Table.get_put_ne _ _ hne).trans (Table.get_put_self ..), h₁.state⟩, ?_, rfl⟩
    · rw [h₂.counter]
      rfl
    · refine (Table.keys_put ..).trans (congrArg _ ?_)
      refine (congrArg (List.erase · sampleSid) (Table.keys_put ..)).trans ?_
      exact List.erase_of_not_mem (by simpa [sampleManager] using hne.symm)

/-- Two sessions, of which the first has sent as many packets as it can: the failed cover batch
closes it, and no event says so. -/
theorem closed_lost_with_failed_batch :
    new sampleServerConfig {} 0 0 = .ok sampleManager ∧
    1 ≤ sampleManager.limits.maxSessions ∧
    ∃ calls, (reports (events Sample.primitives sampleManager calls)).count (.opened sampleSid) ≠
      (reports (events Sample.primitives sampleManager calls)).count (.closed sampleSid) +
        (reports (run Sample.primitives sampleManager calls).pendingClosed).count
          (.closed sampleSid) +
        ((run Sample.primitives sampleManager calls).sessions.get sampleSid).isSome.toNat := by
  refine ⟨new_sampleManager, by decide, ?_⟩
  have hne : otherSid ≠ sampleSid := by decide
  obtain ⟨calls, hreports, hsent⟩ := exists_two_sessions
  obtain ⟨hquiet, hfull⟩ := hsent.run CipherSession.sample_aeadTotal hne (k := maxPacketNonce.toNat)
    (Nat.zero_add _).le
  rw [Nat.zero_add, ← run_append] at hfull
  obtain ⟨entry, hlose⟩ := hfull.lose (P := Sample.primitives) hne (by decide)
    (List.Vector.replicate _ 0) "unavailable"
  have hqueue := hfull.queue
  refine ⟨(calls ++ List.replicate maxPacketNonce.toNat (.appOutbound sampleSid [])) ++
    [.coverPacketAll (failingFills sampleSid (List.Vector.replicate _ 0) "unavailable")], ?_⟩
  have hevents : reports (events Sample.primitives sampleManager
      ((calls ++ List.replicate maxPacketNonce.toNat (.appOutbound sampleSid [])) ++
        [.coverPacketAll (failingFills sampleSid (List.Vector.replicate _ 0) "unavailable")])) =
      [.opened otherSid, .opened sampleSid] := by
    rw [events_append, reports_append, events_append, reports_append, hreports,
      events_quiet hquiet, events, outputs, hlose]
    rfl
  rw [hevents, run_snoc, hlose]
  have hdead := (Table.get_put_ne ((run Sample.primitives sampleManager (calls ++
    List.replicate maxPacketNonce.toNat (.appOutbound sampleSid []))).sessions.remove sampleSid)
      entry hne.symm).trans (Table.get_remove_self ..)
  simp only [putSession, removeSession, hdead, hqueue]
  decide

theorem sessions_accounted_sample :
    ∃ calls, (run Sample.primitives sampleManager calls).sessions.size ≤ 64 ∧
      (reports (events Sample.primitives sampleManager calls)).count (.opened sampleSid) = 1 ∧
      1 = (reports (events Sample.primitives sampleManager calls)).count (.closed sampleSid) +
        (reports (run Sample.primitives sampleManager calls).pendingClosed).count
          (.closed sampleSid) +
        ((run Sample.primitives sampleManager calls).sessions.get sampleSid).isSome.toNat := by
  obtain ⟨before, last, _, hs, session, h⟩ := exists_sample_establishing
    (m := sampleManager) sampleSid rfl (fun _ => Table.get_empty _) (Table.get_empty _)
    (by decide) 3 4
  obtain ⟨hsize, -, hbalance⟩ := sessions_accounted CipherSession.sample_aeadTotal new_sampleManager
    (by decide) h.coverSafe
  have hone : (reports (events Sample.primitives sampleManager (before ++ [last]))).count
      (.opened sampleSid) = 1 := by
    rw [h.reports_eq]
    decide
  exact ⟨before ++ [last], hsize, hone, hone.symm.trans (hbalance sampleSid)⟩

end LostClosed

end PqTunnel.ServerSessionManager
