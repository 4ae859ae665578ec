import PqTunnel.Manager.Deadlines
import PqTunnel.Tun.Rearm
import PqTunnel.Tun.Server

/-! How the TUN server mirrors the sessions of its manager. -/
namespace PqTunnel.TunServer
open Transition Lifecycle ServerSessionManager
open ServerSessionManager (reports QueueOk)

variable {T : CryptoTypes} {P : Primitives T} {w : TunServer T} {m m' : ServerSessionManager T}
  {sid : SessionId} {evs : List ManagerEvent} {out : List (Report SessionId)}

/-- The manager has the session. -/
def Live (m : ServerSessionManager T) (sid : SessionId) : Prop :=
  ∃ entry, m.sessions.get sid = some entry

/-- The Closed event of the session waits in the manager. -/
def Queued (m : ServerSessionManager T) (sid : SessionId) : Prop :=
  ∃ reason, .closed sid reason ∈ m.pendingClosed

/-- What the driver keeps agrees with the manager: its current session is the live one, and it has
reassemblers of live sessions and of those about to be reported closed only. -/
structure Mirrors (w : TunServer T) : Prop where
  current : ∀ sid, Live w.manager sid → w.currentSid = some sid
  keys : ∀ sid ∈ w.reasms.keys, Live w.manager sid ∨ Queued w.manager sid

/-- The send counters of the sessions leave room for `n` packets. -/
def Room (m : ServerSessionManager T) (n : ℕ) : Prop :=
  ∀ sid entry, m.sessions.get sid = some entry →
    entry.session.cipher.sendCounter.toNat + n ≤ maxPacketNonce.toNat

/-- No Closed event reaches the driver late and none is ignored by it: at a tick none waits beside a
live session, and no send meets an exhausted counter. -/
def Timely (w : TunServer T) : TunServerInput T → Prop
  | .recv _ _ _ _ _ _ => True
  | .packet pkt => isBoundaryDropped pkt = false → validateInner pkt = true →
      ∀ slots, fragmentIpPacket pkt w.ctr = .ok slots → Room w.manager slots.length
  | .tick _ _ _ => (w.manager.pendingClosed = [] ∨ ∀ sid, ¬ Live w.manager sid) ∧ Room w.manager 1

section Managers

theorem live_iff : Live m sid ↔ m.lifecycle.live sid = true :=
  Option.isSome_iff_exists.symm

theorem queued_iff : Queued m sid ↔ sid ∈ m.lifecycle.queued :=
  mem_queued.symm

theorem Live.unique {sid' : SessionId} (h : Live m sid) (h' : Live m sid')
    (hsize : m.sessions.size ≤ 1) : sid = sid' :=
  Table.eq_of_size_le_one hsize (Table.mem_keys.mpr h) (Table.mem_keys.mpr h')

/-- Of the sessions that the driver may know, none is lost unless it is reported. -/
theorem Mirrors.kept (h : Mirrors w) (ht : Trace Move w.manager.lifecycle out m.lifecycle)
    (hkey : sid ∈ w.reasms.keys) (hout : .closed sid ∉ out) : Live m sid ∨ Queued m sid := by
  rw [live_iff, queued_iff]
  refine Trace.kept ht ?_ hout
  rw [← live_iff, ← queued_iff]
  exact h.keys sid hkey

/-- No deed shortens the queue of Closed events. -/
theorem deeds_queue {t : ℕ} (ht : Trace (ServerSessionManager.Deed P t) m evs m') :
    m.pendingClosed <+: m'.pendingClosed := by
  induction ht with
  | refl => exact List.prefix_rfl
  | snoc _ hdeed ih =>
    refine ih.trans ?_
    cases hdeed with
    | evicted order =>
      rcases evictAtCapacity_cases _ order with
        ⟨h, -⟩ | ⟨-, stale, entry, -, -, h⟩
      · rw [h]
      · rw [h]
        exact List.prefix_append ..
    | _ => exact List.prefix_rfl

/-- A session that deeds report closed was live before, and is not any more. -/
theorem deeds_closed {t : ℕ} (ht : Trace (ServerSessionManager.Deed P t) m evs m') (hq : QueueOk m)
    (hmem : .closed sid ∈ reports evs) : Live m sid ∧ ¬ Live m' sid := by
  have hacts := ht.mono ServerSessionManager.Deed.act
  have hcount := Trace.conserves (trace_moves hacts hq) sid
  have hqueue : m.lifecycle.queued.count sid ≤ m'.lifecycle.queued.count sid :=
    ((deeds_queue ht).sublist.filterMap _).count_le sid
  have hopen := List.count_eq_zero.mpr ((trace_opens_nothing hacts hq).2 sid)
  have hpos := List.count_pos_iff.mpr hmem
  have hlive := (m.lifecycle.live sid).toNat_le
  rw [live_iff, live_iff]
  cases h : m.lifecycle.live sid <;> cases h' : m'.lifecycle.live sid <;>
    simp only [h, h', Bool.toNat_true, Bool.toNat_false] at hcount hlive ⊢
  · omega
  · omega
  · simp
  · omega

/-- Only live sessions hand data to the application. -/
theorem handleDatagram_appData {pkt : WirePacket} {src : SocketAddr} {clock : Clock} {now : ℕ}
    {draw : ServerDraw T} {order : List SessionId} {inner : InnerPlaintext}
    (h : (m.handleDatagram P pkt src clock now draw order).1 = .ok (.appData sid inner)) :
    Live (m.handleDatagram P pkt src clock now draw order).2 sid := by
  have hhandles := handleDatagram_handles (P := P) m pkt src clock now draw order
  generalize m.handleDatagram P pkt src clock now draw order = r at hhandles h ⊢
  cases hhandles with
  | stepped _ _ _ _ _ hr =>
    rcases hr with ⟨_, _, -, rfl⟩ | ⟨e, -, rfl⟩ | rfl
    · cases h
    · cases e <;> cases h
    · cases h
  | read _ _ _ _ _ _ _ _ hev =>
    rcases hev with rfl | ⟨_, rfl⟩ <;> cases h
    exact ⟨_, Table.get_put_self ..⟩
  | acked _ _ entry' =>
    have hsends := encrypts_put (P := P) m pkt.sid entry' .handshake
      (Control.slot Control.ack)
    generalize afterEncrypt _ _ _ _ = r at hsends h
    cases hsends <;> cases h
  | _ => cases h

end Managers

section Sending

variable {n : ℕ}

/-- The manager has the same sessions and the same queue, with room for `n` more packets. -/
structure Keeps (m : ServerSessionManager T) (n : ℕ) (m' : ServerSessionManager T) : Prop where
  view : m'.lifecycle = m.lifecycle
  room : Room m' n

theorem Room.less (h : Room m (n + 1)) : Room m n := fun sid entry hget =>
  le_trans (Nat.le_succ _) (h sid entry hget)

theorem keeps_put {entry : SessionEntry} {session : WireSession} (hroom : Room m (n + 1))
    (hget : m.sessions.get sid = some entry)
    (hleft : session.cipher.sendCounter.toNat + n ≤ maxPacketNonce.toNat) :
    Keeps m n (m.putSession sid { entry with session }) := by
  refine ⟨lifecycle_rewritten hget _, fun sid' entry' hget' => ?_⟩
  rw [putSession, Table.get_put] at hget'
  split_ifs at hget' with heq
  · rw [← Option.some.inj hget']
    exact hleft
  · exact hroom.less sid' entry' hget'

theorem keeps_sends {r : ManagerStep T} (hroom : Room m (n + 1))
    (h : ServerSessionManager.Encrypts P m sid r) : Keeps m n r.2 := by
  cases h with
  | idle => exact ⟨rfl, hroom.less⟩
  | sent entry msgType payload packet session hget henc =>
    have hin := TunClient.inTime_enc (hroom sid entry hget) (.sent msgType payload _ _ henc)
    have hput := keeps_put hroom hget hin.room
    exact ⟨hput.view, hput.room⟩
  | spent entry msgType payload hget henc =>
    exact absurd rfl (TunClient.inTime_enc (hroom sid entry hget) (.spent msgType payload henc)).alive
  | failed entry e hget => exact keeps_put hroom hget (hroom.less sid entry hget)

variable (fills : SessionId → Except String Payload)

theorem lifecycle_coverLoop {sids : List SessionId} (hroom : Room m sids.length) :
    (coverLoop P fills sids m).2.lifecycle = m.lifecycle := by
  induction sids generalizing m with
  | nil => rfl
  | cons sid sids ih =>
    have hkeeps := keeps_sends hroom (encrypts_coverPacket (P := P) m sid (fills sid))
    have hrest := ih hkeeps.room
    unfold coverLoop
    split
    · rename_i heq
      rw [heq] at hkeeps
      exact hkeeps.view
    · rename_i heq
      rw [heq] at hkeeps hrest
      dsimp only at hrest ⊢
      split
      · rename_i heq'
        rw [heq'] at hrest
        exact hrest.trans hkeeps.view
      · rename_i heq'
        rw [heq'] at hrest
        exact hrest.trans hkeeps.view

theorem lifecycle_coverPacketAll (hroom : Room m 1)
    (hsize : m.sessions.size ≤ 1) : (m.coverPacketAll P fills).2.lifecycle = m.lifecycle := by
  apply lifecycle_coverLoop
  intro sid entry hget
  have hlen : m.sortedSids.length ≤ 1 := by
    rw [sortedSids, List.length_mergeSort, ← Table.size_eq_length_keys]
    exact hsize
  have := hroom sid entry hget
  omega

end Sending

section Turns

variable {reason : CloseReason} {peer : SocketAddr}

theorem Mirrors.of_view (h : Mirrors w) (hview : m.lifecycle = w.manager.lifecycle) :
    Mirrors { w with manager := m } := by
  constructor
  · intro sid hlive
    rw [live_iff, hview, ← live_iff] at hlive
    exact h.current sid hlive
  · intro sid hkey
    rw [live_iff, queued_iff, hview, ← live_iff, ← queued_iff]
    exact h.keys sid hkey

theorem live_before (ht : Trace Move m.lifecycle out m'.lifecycle)
    (hopen : ∀ sid, .opened sid ∉ out) (hlive : Live m' sid) : Live m sid :=
  live_iff.mpr ((Trace.live_before ht (live_iff.mp hlive)).resolve_right (hopen sid))

theorem Mirrors.quiet (h : Mirrors w) (ht : Trace Move w.manager.lifecycle [] m.lifecycle) :
    Mirrors { w with manager := m } := by
  constructor
  · intro sid hlive
    exact h.current sid (live_before ht (fun _ => List.not_mem_nil) hlive)
  · intro sid hkey
    exact h.kept ht hkey List.not_mem_nil

theorem feed_spec (w : TunServer T) (sid : SessionId) (slot : Payload) (now : ℕ) :
    (w.feed sid slot now).manager = w.manager ∧ (w.feed sid slot now).currentSid = w.currentSid ∧
      ∀ k ∈ (w.feed sid slot now).reasms.keys, k = sid ∨ k ∈ w.reasms.keys := by
  unfold feed
  split
  · split_ifs
    · exact ⟨rfl, rfl, fun k => Table.mem_keys_put.mp⟩
    · exact ⟨rfl, rfl, fun k => Table.mem_keys_put.mp⟩
  · exact ⟨rfl, rfl, fun k => Table.mem_keys_put.mp⟩

theorem Mirrors.turnTo {w' : TunServer T} (h : Mirrors w)
    (ht : Trace Move w.manager.lifecycle out w'.manager.lifecycle)
    (hclosed : ∀ sid, .closed sid ∉ out) (hcurrent : w'.currentSid = some sid)
    (hkeys : ∀ k ∈ w'.reasms.keys, k = sid ∨ k ∈ w.reasms.keys)
    (hlive : Live w'.manager sid) (hsize : w'.manager.sessions.size ≤ 1) : Mirrors w' := by
  constructor
  · intro k hk
    rw [hcurrent, hlive.unique hk hsize]
  · intro k hk
    rcases hkeys k hk with rfl | hk
    · exact Or.inl hlive
    · exact h.kept ht hk (hclosed k)

theorem mirrors_onData (h : Mirrors w) {feedAt : ℕ} {inner : InnerPlaintext}
    (ht : Trace Move w.manager.lifecycle [] m.lifecycle) (hlive : Live m sid)
    (hsize : m.sessions.size ≤ 1) :
    Mirrors ({ w with manager := m }.onEvent feedAt (.appData sid inner)) := by
  obtain ⟨hm, hcurrent, hkeys⟩ :=
    feed_spec { w with manager := m, currentSid := some sid } sid inner.payload feedAt
  dsimp only at hm hcurrent
  unfold onEvent
  dsimp only
  split_ifs
  · rw [← hm] at ht hlive hsize
    exact h.turnTo ht (fun _ => List.not_mem_nil) hcurrent hkeys hlive hsize
  · exact h.turnTo ht (fun _ => List.not_mem_nil) rfl (fun k hk => Or.inr hk) hlive hsize

theorem mirrors_onClosed (h : Mirrors w)
    (ht : Trace Move w.manager.lifecycle [.closed sid] m.lifecycle) (hdead : ∀ k, ¬ Live m k) :
    Mirrors ({ w with manager := m }.onClosed sid) := by
  constructor
  · intro k hk
    exact absurd hk (hdead k)
  · intro k hk
    have hk' : k ≠ sid ∧ k ∈ w.reasms.keys := by
      change k ∈ (w.reasms.remove sid).keys at hk
      rw [Table.keys_remove] at hk
      exact (w.reasms.nodup_keys.mem_erase_iff).mp hk
    apply h.kept ht hk'.2
    rintro hmem
    cases List.mem_singleton.mp hmem
    exact hk'.1 rfl

variable {order : List SessionId}

theorem opens_live {pkt : WirePacket} {src : SocketAddr} {clock : Clock} {now : ℕ}
    {draw : ServerDraw T} (h : ServerSessionManager.Opens P m pkt src clock now draw order evs m')
    (hevs : evs = [.established sid peer]) : Live m' sid := by
  cases h with
  | mk hs outcome session =>
    cases hevs
    exact ⟨_, Table.get_put_self ..⟩

variable {r : Except (Fault ManagerError) ManagerEvent}

theorem of_returned {ev : ManagerEvent}
    (h : returned r = [ev]) : r = .ok ev := by
  cases r with
  | error e => cases h
  | ok ev' => cases ev' <;> cases h <;> rfl

theorem mirrors_handled {pkt : WirePacket} {src : SocketAddr} {clock : Clock} {now : ℕ}
    {draw : ServerDraw T} (feedAt : ℕ) (h : Mirrors w) (hq : QueueOk w.manager)
    (hsize : w.manager.sessions.size ≤ 1) (hsize' : m.sessions.size ≤ 1)
    (hres : w.manager.handleDatagram P pkt src clock now draw order = (r, m)) :
    Mirrors (match r with
      | .ok ev => { w with manager := m }.onEvent feedAt ev
      | .error _ => { w with manager := m }) := by
  have hcases := (handleDatagram_handles (P := P) w.manager pkt src clock now draw
    order).trace (t := 0)
  have hdata : ∀ sid inner, r = .ok (.appData sid inner) → Live m sid := by
    intro sid inner heq
    have hlive := @handleDatagram_appData T P w.manager sid pkt src clock now draw order inner
    rw [hres] at hlive
    exact hlive heq
  rw [hres] at hcases
  dsimp only at hcases
  rcases hcases with hopens | hdeeds
  · obtain ⟨sid, peer, mid, hevs, hroom, hopen, -, -⟩ := hopens.moves hq
    have hlive := opens_live hopens hevs
    have ht : Trace Move w.manager.lifecycle [.opened sid] m.lifecycle := by
      rw [hevs] at hopen
      exact (Trace.single hroom).trans (.single hopen)
    rw [of_returned hevs]
    exact h.turnTo ht (by simp) rfl (fun k => Table.mem_keys_put.mp) hlive hsize'
  · have ht := trace_moves (hdeeds.mono ServerSessionManager.Deed.act) hq
    cases r with
    | error e => exact h.quiet ht
    | ok ev =>
      cases ev with
      | established sid peer =>
        exact absurd List.mem_cons_self ((trace_opens_nothing
          (hdeeds.mono ServerSessionManager.Deed.act) hq).2 sid)
      | appData sid inner => exact mirrors_onData h ht (hdata sid inner rfl) hsize'
      | closed sid reason =>
        obtain ⟨hbefore, hafter⟩ := deeds_closed hdeeds hq List.mem_cons_self
        refine mirrors_onClosed h ht fun k hk => hafter ?_
        have hk' : Live w.manager k := live_before ht
          (trace_opens_nothing (hdeeds.mono ServerSessionManager.Deed.act) hq).2 hk
        exact hbefore.unique hk' hsize ▸ hk
      | send packets peer | sendPacket packet peer =>
        have := h.quiet ht
        exact ⟨this.current, this.keys⟩
      | _ => exact h.quiet ht

theorem mirrors_onRecv (h : Mirrors w) (hq : QueueOk w.manager)
    (hsize : w.manager.sessions.size ≤ 1) {os : Except IoError (Bytes × SocketAddr)} {clock : Clock}
    {now : ℕ} {draw : ServerDraw T} (feedAt : ℕ)
    (hsize' : ∀ pkt src, (w.manager.handleDatagram P pkt src clock now draw order).2.sessions.size ≤ 1) :
    Mirrors (w.onRecv P os clock now draw order feedAt) := by
  unfold onRecv
  split
  · exact h
  · rename_i pkt src _
    generalize hres : w.manager.handleDatagram P pkt src clock now draw order = res
    obtain ⟨r, m⟩ := res
    have hm : m.sessions.size ≤ 1 := by
      have := hsize' pkt src
      rwa [hres] at this
    have hmirrors := mirrors_handled feedAt h hq hsize hm hres
    cases r with
    | error e | ok ev => exact hmirrors

theorem outbound_frame (w : TunServer T) (sid : SessionId) (slot : Payload) :
    (w.outbound P sid slot).manager = (w.manager.tunOutbound P sid slot.toList).2 ∧
      (w.outbound P sid slot).currentSid = w.currentSid ∧
      (w.outbound P sid slot).reasms = w.reasms := by
  unfold outbound
  split
  · rename_i heq
    rw [heq]
    exact ⟨rfl, rfl, rfl⟩
  · rename_i heq
    rw [heq]
    exact ⟨rfl, rfl, rfl⟩

theorem mirrors_outbounds (h : Mirrors w) (sid : SessionId) {slots : List Payload}
    (hroom : Room w.manager slots.length) :
    Mirrors (slots.foldl (fun w slot => w.outbound P sid slot) w) := by
  induction slots generalizing w with
  | nil => exact h
  | cons slot slots ih =>
    have hkeeps := keeps_sends hroom (encrypts_tunOutbound (P := P) _ sid slot.toList)
    obtain ⟨hm, hcurrent, hreasms⟩ := outbound_frame (P := P) w sid slot
    have hnext := h.of_view hkeeps.view
    apply ih
    · constructor
      · rw [hm, hcurrent]
        exact hnext.current
      · rw [hm, hreasms]
        exact hnext.keys
    · rw [hm]
      exact hkeeps.room

theorem mirrors_onPacket (h : Mirrors w) {pkt : Bytes} (htimely : Timely w (.packet pkt)) :
    Mirrors (w.onPacket P pkt) := by
  unfold onPacket
  split_ifs with hdrop hvalid
  · exact h
  · exact h
  split
  · exact h
  · split
    · exact ⟨h.current, h.keys⟩
    · rename_i slots hslots
      have hroom := htimely (Bool.eq_false_iff.mpr hdrop) (Bool.not_eq_false _ ▸ hvalid) slots hslots
      exact mirrors_outbounds (w := { w with ctr := w.ctr + 1 }) ⟨h.current, h.keys⟩ _ hroom

theorem manager_tickEvents (w : TunServer T) (evs : List ManagerEvent) :
    (evs.foldl onTickEvent w).manager = w.manager := by
  induction evs generalizing w with
  | nil => rfl
  | cons ev evs ih =>
    rw [List.foldl_cons, ih]
    cases ev <;> rfl

/-- A batch of events without an opening removes the keys that it reports, and clears the current
session if it reports any. -/
theorem tickEvents_spec (w : TunServer T) {evs : List ManagerEvent}
    (hopen : ∀ sid, .opened sid ∉ reports evs) :
    (∀ k ∈ (evs.foldl onTickEvent w).reasms.keys, k ∈ w.reasms.keys ∧ .closed k ∉ reports evs) ∧
      (evs.foldl onTickEvent w).currentSid = if reports evs = [] then w.currentSid else none := by
  induction evs generalizing w with
  | nil => exact ⟨fun k hk => ⟨hk, List.not_mem_nil⟩, rfl⟩
  | cons ev evs ih =>
    have hrest : ∀ sid, .opened sid ∉ reports evs := by
      intro sid hmem
      apply hopen sid
      rw [← List.singleton_append, reports_append]
      exact List.mem_append_right _ hmem
    obtain ⟨hkeys, hcurrent⟩ := ih (w.onTickEvent ev) hrest
    rw [List.foldl_cons]
    cases ev with
    | established sid peer => exact absurd List.mem_cons_self (hopen sid)
    | closed sid reason =>
      have hreports : reports (.closed sid reason :: evs) = .closed sid :: reports evs := rfl
      rw [hcurrent, hreports]
      refine ⟨fun k hk => ?_, ?_⟩
      · obtain ⟨hk, hnot⟩ := hkeys k hk
        change k ∈ (w.reasms.remove sid).keys at hk
        rw [Table.keys_remove, w.reasms.nodup_keys.mem_erase_iff] at hk
        refine ⟨hk.2, ?_⟩
        rw [List.mem_cons, not_or]
        exact ⟨by simpa using hk.1, hnot⟩
      · rw [if_neg (List.cons_ne_nil _ _)]
        exact ite_self _
    | _ => exact ⟨hkeys, hcurrent⟩

theorem cover_frame (w : TunServer T) (fills : SessionId → Except String Payload) :
    (w.cover P fills).manager = (w.manager.coverPacketAll P fills).2 ∧
      (w.cover P fills).currentSid = w.currentSid ∧ (w.cover P fills).reasms = w.reasms := by
  have hevents : ∀ (evs : List ManagerEvent) (w : TunServer T),
      (evs.foldl onCoverEvent w).manager = w.manager ∧
        (evs.foldl onCoverEvent w).currentSid = w.currentSid ∧
        (evs.foldl onCoverEvent w).reasms = w.reasms := by
    intro evs
    induction evs with
    | nil => exact fun _ => ⟨rfl, rfl, rfl⟩
    | cons ev evs ih =>
      intro w
      rw [List.foldl_cons]
      obtain ⟨hm, hcurrent, hreasms⟩ := ih (w.onCoverEvent ev)
      rw [hm, hcurrent, hreasms]
      cases ev <;> exact ⟨rfl, rfl, rfl⟩
  unfold cover
  split
  · rename_i evs manager heq
    rw [heq]
    exact hevents evs _
  · rename_i heq
    rw [heq]
    exact ⟨rfl, rfl, rfl⟩

theorem mirrors_cover (h : Mirrors w) (fills : SessionId → Except String Payload)
    (hroom : Room w.manager 1) (hsize : w.manager.sessions.size ≤ 1) :
    Mirrors (w.cover P fills) := by
  obtain ⟨hm, hcurrent, hreasms⟩ := cover_frame (P := P) w fills
  have hnext := h.of_view (lifecycle_coverPacketAll (P := P) fills hroom hsize)
  constructor
  · rw [hm, hcurrent]
    exact hnext.current
  · rw [hm, hreasms]
    exact hnext.keys

theorem mirrors_tickEvents (h : Mirrors w) (hq : QueueOk w.manager)
    (hsize : w.manager.sessions.size ≤ 1)
    (hwaits : w.manager.pendingClosed = [] ∨ ∀ sid, ¬ Live w.manager sid) (now : ℕ)
    (order : List SessionId) :
    Mirrors ((w.manager.tick P now order).1.foldl onTickEvent
      { w with manager := (w.manager.tick P now order).2 }) := by
  have hacts := tick_trace (P := P) w.manager now order
  have ht := trace_moves hacts hq
  have hopen := (trace_opens_nothing hacts hq).2
  obtain ⟨hkeys, hcurrent⟩ :=
    tickEvents_spec { w with manager := (w.manager.tick P now order).2 } hopen
  constructor
  · intro sid hlive
    rw [manager_tickEvents] at hlive
    have hbefore := live_before ht hopen hlive
    -- a session reported closed would be this one, which is still live
    have hnone : reports (w.manager.tick P now order).1 = [] := by
      rw [List.eq_nil_iff_forall_not_mem]
      intro x hx
      cases x with
      | opened k => exact hopen k hx
      | closed k =>
        have hcount := Trace.conserves ht k
        have hpos := List.count_pos_iff.mpr hx
        rw [List.count_eq_zero.mpr (hopen k)] at hcount
        have hqueue : w.manager.lifecycle.queued = [] := by
          rcases hwaits with hnil | hdead
          · rw [lifecycle, hnil]
            rfl
          · exact absurd hbefore (hdead sid)
        rw [hqueue, List.count_nil] at hcount
        have hk : w.manager.lifecycle.live k = true := by
          by_contra hdead
          rw [Bool.not_eq_true] at hdead
          rw [hdead, Bool.toNat_false] at hcount
          omega
        obtain rfl := hbefore.unique (live_iff.mpr hk) hsize
        rw [hk, live_iff.mp hlive, Bool.toNat_true] at hcount
        omega
    rw [hcurrent, if_pos hnone]
    exact h.current sid hbefore
  · intro sid hkey
    rw [manager_tickEvents]
    obtain ⟨hkey, hnot⟩ := hkeys sid hkey
    exact h.kept ht hkey hnot

end Turns

section Runs

variable (w)

theorem manager_onEvent (feedAt : ℕ) (ev : ManagerEvent) :
    (w.onEvent feedAt ev).manager = w.manager := by
  cases ev with
  | appData sid inner =>
    unfold onEvent
    dsimp only
    split_ifs
    · exact (feed_spec ..).1
    · rfl
  | _ => rfl

theorem manager_onRecv (os : Except IoError (Bytes × SocketAddr)) (clock : Clock) (now : ℕ)
    (draw : ServerDraw T) (order : List SessionId) (feedAt : ℕ) :
    (w.onRecv P os clock now draw order feedAt).manager = match UdpTransport.recv os with
      | .error _ => w.manager
      | .ok (pkt, src) => (w.manager.handleDatagram P pkt src clock now draw order).2 := by
  unfold onRecv
  cases UdpTransport.recv os with
  | error e => rfl
  | ok x =>
    dsimp only
    generalize w.manager.handleDatagram P x.1 x.2 clock now draw order = res
    obtain ⟨r, m⟩ := res
    cases r with
    | error e => rfl
    | ok ev => exact manager_onEvent ..

theorem manager_onTick (now : ℕ) (order : List SessionId)
    (fills : SessionId → Except String Payload) :
    (w.onTick P now order fills).manager =
      ((w.manager.tick P now order).2.coverPacketAll P fills).2 := by
  unfold onTick
  rw [(cover_frame ..).1, manager_tickEvents]

theorem turn_calls (input : TunServerInput T) :
    ∃ calls, (w.turn P input).manager = ServerSessionManager.run P w.manager calls := by
  cases input with
  | recv os clock now draw order feedAt =>
    rw [turn, manager_onRecv]
    split
    · exact ⟨[], rfl⟩
    · rename_i pkt src _
      exact ⟨[.datagram pkt src clock now draw order], rfl⟩
  | packet pkt =>
    have hslots : ∀ (sid : SessionId) (slots : List Payload) (w : TunServer T),
        (slots.foldl (fun w slot => w.outbound P sid slot) w).manager =
          ServerSessionManager.run P w.manager
            (slots.map fun slot => .tunOutbound sid slot.toList) := by
      intro sid slots
      induction slots with
      | nil => exact fun _ => rfl
      | cons slot slots ih =>
        intro w
        rw [List.foldl_cons, ih, (outbound_frame ..).1]
        rfl
    rw [turn, onPacket]
    split_ifs
    · exact ⟨[], rfl⟩
    · exact ⟨[], rfl⟩
    split
    · exact ⟨[], rfl⟩
    split
    · exact ⟨[], rfl⟩
    · exact ⟨_, hslots ..⟩
  | tick now order fills =>
    rw [turn, manager_onTick]
    exact ⟨[.tick now order, .coverPacketAll fills], rfl⟩

variable {w}

/-- The state of a driver with at most one session. -/
structure Single (w : TunServer T) : Prop where
  queue : QueueOk w.manager
  limits : w.manager.limits.maxSessions = 1
  size : w.manager.sessions.size ≤ 1

theorem Single.calls {w' : TunServer T} (h : Single w) (calls : List (ServerSessionManager.Call T))
    (hm : w'.manager = ServerSessionManager.run P w.manager calls) : Single w' := by
  have hstart : w.manager.limits = w.manager.limits ∧
      w.manager.sessions.size ≤ w.manager.limits.maxSessions := ⟨rfl, h.limits.symm ▸ h.size⟩
  have hsize := size_run (P := P) h.limits.ge hstart calls
  rw [← hm, h.limits] at hsize
  exact ⟨hm ▸ h.queue.run calls, hsize.1 ▸ h.limits, hsize.2⟩

theorem Single.turn (h : Single w) (input : TunServerInput T) : Single (w.turn P input) := by
  obtain ⟨calls, hm⟩ := turn_calls (P := P) w input
  exact h.calls calls hm

theorem Single.run (h : Single w) (inputs : List (TunServerInput T)) : Single (w.run P inputs) := by
  induction inputs generalizing w with
  | nil => exact h
  | cons input inputs ih => exact ih (h.turn input)

theorem Mirrors.turn (h : Mirrors w) (hone : Single w) {input : TunServerInput T}
    (htimely : Timely w input) : Mirrors (w.turn P input) := by
  cases input with
  | recv os clock now draw order feedAt =>
    refine mirrors_onRecv h hone.queue hone.size feedAt fun pkt src => ?_
    have hnext : Single { w with
        manager := (w.manager.handleDatagram P pkt src clock now draw order).2 } :=
      hone.calls (P := P) [.datagram pkt src clock now draw order] rfl
    exact hnext.size
  | packet pkt => exact mirrors_onPacket h htimely
  | tick now order fills =>
    have hmirrors := mirrors_tickEvents (P := P) h hone.queue hone.size htimely.1 now order
    have htick : Single { w with manager := (w.manager.tick P now order).2 } :=
      hone.calls (P := P) [.tick now order] rfl
    apply mirrors_cover hmirrors fills
    · rw [manager_tickEvents]
      intro sid entry hget
      have hleft := (tick_expires P w.manager now order).left sid entry
      exact htimely.2 sid entry (hleft.mp hget).1
    · rw [manager_tickEvents]
      exact htick.size

theorem mirrors_run (h : Mirrors w) (hone : Single w) {inputs : List (TunServerInput T)}
    (htimely : Along (turn P) Timely w inputs) : Mirrors (w.run P inputs) := by
  induction inputs generalizing w with
  | nil => exact h
  | cons input inputs ih => exact ih (h.turn hone htimely.1) (hone.turn input) htimely.2

variable {cfg : ServerConfig T} {limits : SessionLimits} {rateNow gateNow : ℕ}

theorem init_single (hnew : new cfg limits rateNow gateNow = .ok m)
    (hmax : limits.maxSessions = 1) : Single (init m) := by
  obtain ⟨-, hlimits, hsessions, -⟩ := new_ok hnew
  refine ⟨(lifecycle_new hnew).2, hlimits.symm ▸ hmax, ?_⟩
  change m.sessions.size ≤ 1
  rw [hsessions]
  exact Nat.zero_le 1

theorem init_mirrors (hnew : new cfg limits rateNow gateNow = .ok m) :
    Mirrors (init m) := by
  constructor
  · intro sid hlive
    rw [live_iff, init, (lifecycle_new hnew).1] at hlive
    cases hlive
  · intro sid hkey
    cases hkey

/-- While no Closed event is late or ignored, the driver follows its manager. -/
theorem mirrors_while_timely (hnew : ServerSessionManager.new cfg limits rateNow gateNow = .ok m)
    (hmax : limits.maxSessions = 1) {inputs : List (TunServerInput T)}
    (htimely : Along (turn P) Timely (init m) inputs) : Mirrors ((init m).run P inputs) :=
  mirrors_run (init_mirrors hnew) (init_single hnew hmax) htimely

end Runs

section Sample

open Exchange (sampleServerConfig sampleSid sampleAddr)
open ServerSessionManager (FromPeer sampleManager otherSid exists_sample_establishing
  exists_sample_admitting)

def sampleSingle : ServerSessionManager Sample.types :=
  { sampleManager with limits := { maxSessions := 1 } }

theorem new_sampleSingle : new sampleServerConfig { maxSessions := 1 } 0 0 =
    .ok sampleSingle := rfl

/-- The turn takes a datagram from the socket. -/
def Received (input : TunServerInput T) : Prop :=
  ∃ os clock now draw order feedAt, input = .recv os clock now draw order feedAt

theorem timely_received {inputs : List (TunServerInput T)} (h : ∀ i ∈ inputs, Received i) :
    Along (turn P) Timely w inputs := by
  induction inputs generalizing w with
  | nil => trivial
  | cons input inputs ih =>
    obtain ⟨os, clock, now, draw, order, feedAt, rfl⟩ := h input List.mem_cons_self
    exact ⟨trivial, ih fun i hi => h i (List.mem_cons_of_mem _ hi)⟩

theorem exists_received {src : SocketAddr} {calls : List (ServerSessionManager.Call T)}
    (h : ∀ a ∈ calls, FromPeer src a) (w : TunServer T) :
    ∃ inputs, (∀ i ∈ inputs, Received i) ∧
      (w.run P inputs).manager = ServerSessionManager.run P w.manager calls := by
  induction calls generalizing w with
  | nil => exact ⟨[], by simp, rfl⟩
  | cons a calls ih =>
    obtain ⟨pkt, clock, draw, rfl⟩ := h a List.mem_cons_self
    let input : TunServerInput T := .recv (.ok (pkt.toList, src)) clock 0 draw [] 0
    obtain ⟨inputs, hinputs, hrun⟩ :=
      ih (fun a ha => h a (List.mem_cons_of_mem _ ha)) (w.turn P input)
    refine ⟨input :: inputs, ?_, ?_⟩
    · intro i hi
      rcases List.mem_cons.mp hi with rfl | hi
      · exact ⟨_, _, _, _, _, _, rfl⟩
      · exact hinputs i hi
    · have hm : (w.turn P input).manager = (w.manager.handleDatagram P pkt src clock 0 draw []).2 := by
        rw [turn, manager_onRecv, UdpTransport.recv_packet]
      rw [run, List.foldl_cons]
      refine hrun.trans ?_
      rw [hm]
      rfl

/-- The session was set up at time zero and has sent nothing. -/
def Fresh (m : ServerSessionManager T) (sid : SessionId) : Prop :=
  ∃ session, session.cipher.sendCounter = 0 ∧
    m.sessions.get sid = some ⟨session, sampleAddr, 0, 0⟩

theorem Fresh.live (h : Fresh m sid) : Live m sid := by
  obtain ⟨session, -, hget⟩ := h
  exact ⟨_, hget⟩

theorem Fresh.room (h : Fresh m sid) (hsize : m.sessions.size ≤ 1) : Room m 1 := by
  intro sid' entry hget
  obtain rfl := h.live.unique ⟨entry, hget⟩ hsize
  obtain ⟨session, hzero, hfresh⟩ := h
  rw [hfresh] at hget
  rw [← Option.some.inj hget, hzero]
  decide

theorem Fresh.onTick (h : Fresh w.manager sid) (hone : Single w)
    (hlimits : w.manager.limits = { maxSessions := 1 }) (order : List SessionId)
    (fills : SessionId → Except String Payload) :
    Live (w.onTick P 0 order fills).manager sid := by
  have htick : Fresh (w.manager.tick P 0 order).2 sid := by
    obtain ⟨session, hzero, hget⟩ := h
    have hleft := (tick_expires P w.manager 0 order).left sid
      ⟨session, sampleAddr, 0, 0⟩
    rw [hlimits] at hleft
    refine ⟨session, hzero, hleft.mpr ⟨hget, ?_, ?_⟩⟩
    · rintro ⟨t, ht, hle⟩
      obtain rfl : fromSecs (5 * 60) = t := Option.some.inj ht
      exact absurd (Nat.le_zero.mp hle) (by decide)
    · rintro ⟨t, ht, -⟩
      cases ht
  have hsize : (w.manager.tick P 0 order).2.sessions.size ≤ 1 := by
    have hnext : Single { w with manager := (w.manager.tick P 0 order).2 } :=
      hone.calls (P := P) [.tick 0 order] rfl
    exact hnext.size
  rw [manager_onTick, live_iff, lifecycle_coverPacketAll fills (htick.room hsize) hsize, ← live_iff]
  exact htick.live

/-- The Closed event of any session clears the current one. -/
theorem Queued.clears (h : Queued w.manager sid) (hq : QueueOk w.manager) (now : ℕ)
    (order : List SessionId) (fills : SessionId → Except String Payload) :
    (w.onTick P now order fills).currentSid = none := by
  have hopen := (trace_opens_nothing
    (tick_trace (P := P) w.manager now order) hq).2
  have hmem : .closed sid ∈ reports (w.manager.tick P now order).1 := by
    obtain ⟨reason, hreason⟩ := h
    obtain ⟨own, resent, hevs, -⟩ :=
      (tick_expires P w.manager now order).reports
    rw [hevs]
    refine List.mem_filterMap.mpr ⟨.closed sid reason, ?_, rfl⟩
    exact List.mem_append_left _ (List.mem_append_right _ hreason)
  unfold onTick
  rw [(cover_frame ..).2.1, (tickEvents_spec _ hopen).2, if_neg (List.ne_nil_of_mem hmem)]

theorem evictAtCapacity_queues (hfull : m.limits.maxSessions ≤ m.sessions.size)
    (hpos : m.sessions.size ≠ 0) (order : List SessionId) (sid : SessionId)
    (entry : SessionEntry) : ∃ k, Queued ((m.evictAtCapacity order).putSession sid entry) k := by
  rcases m.evictAtCapacity_cases order with ⟨-, hroom⟩ | ⟨-, stale, -, -, -, h⟩
  · omega
  · rw [h]
    exact ⟨stale, .capacity, List.mem_append_right _ (List.mem_singleton_self _)⟩

theorem exists_one_session : ∃ recvs, (∀ i ∈ recvs, Received i) ∧
    ∃ hs session, session.cipher.sendCounter = 0 ∧ Exchange.Ready hs ∧ hs.cfg = sampleServerConfig ∧
      ((init sampleSingle).run Sample.primitives recvs).manager =
        ({ sampleSingle with hs } : ServerSessionManager Sample.types).putSession otherSid
          ⟨session, sampleAddr, 0, 0⟩ := by
  obtain ⟨before, last, _, hs, session, h⟩ := exists_sample_establishing (m := sampleSingle) otherSid
    rfl (fun _ => Table.get_empty _) (Table.get_empty _) (by decide) 3 4
  obtain ⟨recvs, hrecvs, hm⟩ :=
    exists_received (P := Sample.primitives) h.fromPeer (init sampleSingle)
  exact ⟨recvs, hrecvs, hs, session, h.counter, h.ready, h.cfg, hm.trans h.run_eq⟩

/-- A sample run with one session. -/
theorem mirrors_while_timely_sample : ∃ inputs,
    ServerSessionManager.new sampleServerConfig { maxSessions := 1 } 0 0 = .ok sampleSingle ∧
      Live ((init sampleSingle).run Sample.primitives inputs).manager otherSid ∧
      Mirrors ((init sampleSingle).run Sample.primitives inputs) := by
  obtain ⟨recvs, hrecvs, hs, session, -, -, -, hm⟩ := exists_one_session
  refine ⟨recvs, new_sampleSingle, ?_,
    mirrors_while_timely new_sampleSingle rfl (timely_received hrecvs)⟩
  rw [hm]
  exact ⟨_, Table.get_put_self ..⟩

/-- A second handshake evicts the session of the first one. The next tick reports that, and the
driver then has no current session, though the second one is live. -/
theorem stale_closed_clears_current : ∃ recvs,
    ServerSessionManager.new sampleServerConfig { maxSessions := 1 } 0 0 = .ok sampleSingle ∧
      (∀ i ∈ recvs, Received i) ∧
      ((init sampleSingle).run Sample.primitives recvs).currentSid = some sampleSid ∧
      Live ((init sampleSingle).run Sample.primitives
        (recvs ++ [.tick 0 [] fun _ => .error ""])).manager sampleSid ∧
      ((init sampleSingle).run Sample.primitives
        (recvs ++ [.tick 0 [] fun _ => .error ""])).currentSid = none := by
  have hne : sampleSid ≠ otherSid := by decide
  obtain ⟨recvs₁, hrecvs₁, hs₁, session₁, -, hready, hcfg, hm₁⟩ := exists_one_session
  obtain ⟨before, last, _, hs₂, session₂, h⟩ := exists_sample_admitting
    (m := ((init sampleSingle).run Sample.primitives recvs₁).manager) sampleSid (hm₁ ▸ hcfg)
    (hm₁ ▸ hready.empty) (hm₁ ▸ (Table.get_put_ne _ _ hne).trans (Table.get_empty _)) 5 6
  obtain ⟨recvs₂, hrecvs₂, hm₂⟩ := exists_received (P := Sample.primitives) h.fromPeer
    ((init sampleSingle).run Sample.primitives recvs₁)
  rw [h.run_eq] at hm₂
  have happend : ∀ inputs, ((init sampleSingle).run Sample.primitives recvs₁).run Sample.primitives
      inputs = (init sampleSingle).run Sample.primitives (recvs₁ ++ inputs) :=
    fun inputs => List.foldl_append.symm
  rw [happend] at hm₂
  have hrecvs : ∀ i ∈ recvs₁ ++ recvs₂, Received i := by
    intro i hi
    exact (List.mem_append.mp hi).elim (hrecvs₁ i) (hrecvs₂ i)
  generalize hw : (init sampleSingle).run Sample.primitives (recvs₁ ++ recvs₂) = w at hm₂
  have hone : Single w := hw ▸ (init_single new_sampleSingle rfl).run _
  have hfresh : Fresh w.manager sampleSid := by
    rw [hm₂]
    exact ⟨session₂, h.counter, Table.get_put_self ..⟩
  have hmirrors : Mirrors w :=
    hw ▸ mirrors_run (init_mirrors new_sampleSingle) (init_single new_sampleSingle rfl)
      (timely_received hrecvs)
  have hsize : ((init sampleSingle).run Sample.primitives recvs₁).manager.sessions.size = 1 := by
    rw [hm₁]
    exact Table.size_put_of_none _ (Table.get_empty _)
  have hlimits₁ : ((init sampleSingle).run Sample.primitives recvs₁).manager.limits =
      { maxSessions := 1 } := by
    rw [hm₁]
    rfl
  have hqueued : ∃ sid, Queued w.manager sid := by
    rw [hm₂]
    apply evictAtCapacity_queues
    · dsimp only
      rw [hlimits₁, hsize]
    · dsimp only
      rw [hsize]
      exact one_ne_zero
  have hlimits : w.manager.limits = { maxSessions := 1 } := by
    rw [hm₂]
    exact (ServerSessionManager.evictAtCapacity_limits ..).trans hlimits₁
  obtain ⟨sid, hqueued⟩ := hqueued
  have hsnoc : (init sampleSingle).run Sample.primitives
      (recvs₁ ++ recvs₂ ++ [.tick 0 [] fun _ => .error ""]) =
        w.onTick Sample.primitives 0 [] fun _ => .error "" := by
    rw [← hw]
    exact List.foldl_append
  refine ⟨recvs₁ ++ recvs₂, new_sampleSingle, hrecvs, hw ▸ hmirrors.current _ hfresh.live, ?_, ?_⟩
  · rw [hsnoc]
    exact hfresh.onTick hone hlimits _ _
  · rw [hsnoc]
    exact hqueued.clears hone.queue _ _ _

end Sample

end PqTunnel.TunServer
