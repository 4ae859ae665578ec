import PqTunnel.Manager.ClientFrame
import PqTunnel.Manager.Deadlines

/-! The outbound queue of the client manager: what it accepts leaves it once and in order, what it
drops is counted, and the slots that empty it keep their pace. -/
namespace PqTunnel.ClientSessionManager
open Transition
open ServerSessionManager (returned)

variable {T : CryptoTypes} {P : Primitives T} {m m' : ClientSessionManager T}

section Steps

def isFresh (now : ℕ) (q : QueuedPayload) : Bool := decide (now - q.queuedAt < outboundQueueTtl)

/-- What an expiry at the given time leaves in the queue, and what it takes out. -/
def freshQueue (m : ClientSessionManager T) (now : ℕ) : List QueuedPayload :=
  m.outQueue.filter (isFresh now)

def staleQueue (m : ClientSessionManager T) (now : ℕ) : List QueuedPayload :=
  m.outQueue.filter fun q => !isFresh now q

theorem expireQueued_eq (m : ClientSessionManager T) (now : ℕ) :
    m.expireQueued now = ((m.staleQueue now).length,
      { m with
        outQueue := m.freshQueue now
        droppedOutbound := saturatingAddU64 m.droppedOutbound (m.staleQueue now).length }) := by
  have hlen : m.outQueue.length - (m.freshQueue now).length = (m.staleQueue now).length := by
    have hsum := List.length_eq_length_filter_add (l := m.outQueue) (isFresh now)
    rw [freshQueue, staleQueue]
    omega
  rw [← hlen]
  rfl

/-- The encryption of a flushed payload, with the event that the slot returns for it. -/
inductive Flush (P : Primitives T) (m : ClientSessionManager T) (q : QueuedPayload) :
    ManagerEvent → Prop where
  | sent (s s' : WireSession) (packet : WirePacket) (hget : m.session = some s)
      (henc : s.encrypt P .data (padSlot (q.payload.take payloadLen)) = (.ok packet, s')) :
      Flush P m q (.sendPacket packet m.peer)
  | lost (s s' : WireSession) (e : SessionError) (ev : ManagerEvent) (hget : m.session = some s)
      (henc : s.encrypt P .data (padSlot (q.payload.take payloadLen)) = (.error e, s'))
      (hev : ev = .none ∨ ev = .closed s.sessionId .nonceExhausted) : Flush P m q ev

/-- What a slot does to the queue. -/
inductive Slotted (P : Primitives T) (m : ClientSessionManager T) (now : ℕ) :
    Option ManagerEvent × ClientSessionManager T → Prop where
  | shut (h : ¬ m.SlotOpen now) : Slotted P m now (none, m)
  | flushed (hopen : m.SlotOpen now) (q : QueuedPayload) (rest : List QueuedPayload)
      (hfresh : m.freshQueue now = q :: rest) (ev : ManagerEvent) (m' : ClientSessionManager T)
      (hbacklog : m'.backlog = (rest,
        saturatingAddU64 m.droppedOutbound (m.staleQueue now).length, some now, m.limits))
      (hflush : Flush P m q ev) : Slotted P m now (some ev, m')
  | drained (hopen : m.SlotOpen now) (hfresh : m.freshQueue now = [])
      (ev : Option ManagerEvent) (m' : ClientSessionManager T)
      (hbacklog : m'.backlog = ([],
        saturatingAddU64 m.droppedOutbound (m.staleQueue now).length,
        if ev.isSome then some now else m.lastSlotAt, m.limits))
      (hprobe : ∀ e, ev = some e → ∃ packet peer, e = .sendPacket packet peer) :
      Slotted P m now (ev, m')

theorem sendEncrypted_flush {q : QueuedPayload} (m' : ClientSessionManager T)
    (hopen : m.session.isSome) (hsession : m'.session = m.session) (hpeer : m'.peer = m.peer)
    (clock : ℕ) : Flush P m q
      (eventOf (m'.sendEncrypted P .data (padSlot (q.payload.take payloadLen)) clock).1) := by
  obtain ⟨s, hget⟩ := Option.isSome_iff_exists.mp hopen
  have henc := WireSession.enc_encrypt (P := P) s .data (padSlot (q.payload.take payloadLen))
  simp only [sendEncrypted, hsession, hget]
  generalize hr : s.encrypt P .data (padSlot (q.payload.take payloadLen)) = r at henc ⊢
  cases henc with
  | sent _ _ packet s' =>
    rw [afterEncrypt, hpeer]
    exact .sent s s' packet hget hr
  | spent => exact .lost s _ _ _ hget hr (Or.inr rfl)
  | failed e hne =>
    refine .lost s s e _ hget hr (Or.inl ?_)
    cases e with
    | rekeyRequired => exact absurd rfl hne
    | _ => rfl

theorem takeSlot_slotted (m : ClientSessionManager T) (now clock : ℕ) :
    Slotted P m now (m.takeSlot P now clock) := by
  have hslot := takeSlot_slot (P := P) m now clock
  have hback : (m.expireQueued now).2.backlog = (m.freshQueue now,
      saturatingAddU64 m.droppedOutbound (m.staleQueue now).length, m.lastSlotAt, m.limits) := by
    rw [expireQueued_eq]
    rfl
  simp only [backlog, Prod.mk.injEq] at hback
  generalize m.takeSlot P now clock = res at hslot ⊢
  cases hslot with
  | shut hshut => exact .shut hshut
  | flushed hopen q rest r hfresh hsend hdoes =>
    have hrest := (hdoes.bystands (by simp)).backlog
    simp only [backlog, Prod.mk.injEq] at hrest
    refine .flushed hopen q rest hfresh _ _ ?_ ?_
    · simp only [backlog, hrest, hback]
    · rw [← hsend]
      refine sendEncrypted_flush _ hopen.1 ?_ ?_ clock <;> rfl
  | drained hopen hempty =>
    refine .drained hopen hempty none _ ?_ (by simp)
    simp only [backlog, hempty, hback, Option.isSome_none, Bool.false_eq_true, if_false]
  | unsent hopen hempty _ m' _ hbuild =>
    have hrest := (backlog_probe hbuild).1
    simp only [backlog, Prod.mk.injEq] at hrest
    refine .drained hopen hempty none _ ?_ (by simp)
    simp only [backlog, hrest, probing, hempty, hback, Option.isSome_none, Bool.false_eq_true,
      if_false]
  | probed hopen hempty _ packet m' _ hbuild =>
    have hrest := (backlog_probe hbuild).1
    simp only [backlog, Prod.mk.injEq] at hrest
    refine .drained hopen hempty (some _) _ ?_ (by simp)
    simp only [backlog, counted, hrest, probing, hempty, hback, Option.isSome_some, if_true]

end Steps

section Records

/-- How a queued payload leaves the queue: in a packet, in a flush whose encryption failed, or by
its age. -/
inductive Fate where
  | emitted (packet : WirePacket)
  | failed
  | expired

def Fate.isExpired : Fate → Bool
  | .expired => true
  | _ => false

/-- What becomes of a payload that a slot flushes. -/
def fate (P : Primitives T) (m : ClientSessionManager T) (q : QueuedPayload) : Fate :=
  match m.session with
  | none => .failed
  | some s =>
    match (s.encrypt P .data (padSlot (q.payload.take payloadLen))).1 with
    | .ok packet => .emitted packet
    | .error _ => .failed

/-- The time that the caller passes. -/
def Call.queueTime : Call T → ℕ
  | .takeSlot now _ => now
  | c => c.time

/-- The payload that a call puts into the queue, padded to the slot. -/
def accepts (m : ClientSessionManager T) : Call T → List QueuedPayload
  | .appOutbound payload now =>
    if payload.length ≤ payloadLen ∧ m.session.isNone ∧ m.outQueue.length < outboundQueueCap then
      [⟨padSlot payload, now⟩]
    else []
  | _ => []

/-- The payload that a call drops since the queue is full. -/
def refuses (m : ClientSessionManager T) : Call T → List Bytes
  | .appOutbound payload _ =>
    if payload.length ≤ payloadLen ∧ m.session.isNone ∧ outboundQueueCap ≤ m.outQueue.length then
      [payload]
    else []
  | _ => []

/-- The payloads that a call takes out of the queue, from its front. -/
def departs (P : Primitives T) (m : ClientSessionManager T) :
    Call T → List (QueuedPayload × Fate)
  | .tick now => (m.staleQueue now).map fun q => (q, .expired)
  | .takeSlot now _ =>
    if m.SlotOpen now then
      (m.staleQueue now).map (fun q => (q, .expired)) ++
        ((m.freshQueue now).take 1).map fun q => (q, m.fate P q)
    else []
  | _ => []

/-- The time of the slot that a call uses. -/
def usesSlot (P : Primitives T) (m : ClientSessionManager T) : Call T → List ℕ
  | .takeSlot now clock => if (m.takeSlot P now clock).1.isSome then [now] else []
  | _ => []

section Runs

variable (P : Primitives T)

def accepted : ClientSessionManager T → List (Call T) → List QueuedPayload :=
  outputs (fun m c => (call P m c).2) accepts

def refused : ClientSessionManager T → List (Call T) → List Bytes :=
  outputs (fun m c => (call P m c).2) refuses

def departed : ClientSessionManager T → List (Call T) → List (QueuedPayload × Fate) :=
  outputs (fun m c => (call P m c).2) (departs P)

def slotTimes : ClientSessionManager T → List (Call T) → List ℕ :=
  outputs (fun m c => (call P m c).2) (usesSlot P)

end Runs

/-- Why a call takes a payload out of the queue. -/
inductive Leaves (P : Primitives T) (m : ClientSessionManager T) (q : QueuedPayload) :
    Call T → Fate → Prop where
  | emitted (now clock : ℕ) (s s' : WireSession) (packet : WirePacket)
      (hage : now - q.queuedAt < fromSecs 2) (hget : m.session = some s)
      (henc : s.encrypt P .data q.payload = (.ok packet, s'))
      (hout : (call P m (.takeSlot now clock)).1 = [.sendPacket packet m.peer]) :
      Leaves P m q (.takeSlot now clock) (.emitted packet)
  | failed (now clock : ℕ) (s s' : WireSession) (e : SessionError) (hget : m.session = some s)
      (henc : s.encrypt P .data q.payload = (.error e, s')) :
      Leaves P m q (.takeSlot now clock) .failed
  | expired (c : Call T) (hage : fromSecs 2 ≤ c.queueTime - q.queuedAt) : Leaves P m q c .expired

theorem padSlot_take {payload : Bytes} (h : payload.length = payloadLen) :
    padSlot (payload.take payloadLen) = payload := by
  rw [List.take_of_length_le h.le, padSlot, h, Nat.sub_self]
  exact List.append_nil payload

theorem departs_leaves (hsized : ∀ q ∈ m.outQueue, q.payload.length = payloadLen) (c : Call T) :
    ∀ x ∈ departs P m c, Leaves P m x.1 c x.2 := by
  have hstale : ∀ now, c.queueTime = now →
      ∀ x ∈ (m.staleQueue now).map (fun q => (q, Fate.expired)), Leaves P m x.1 c x.2 := by
    rintro now rfl x hx
    obtain ⟨q, hq, rfl⟩ := List.mem_map.mp hx
    refine .expired c ?_
    have hold := (List.mem_filter.mp hq).2
    rw [isFresh, Bool.not_eq_true', decide_eq_false_iff_not, not_lt] at hold
    exact hold
  cases c with
  | tick now => exact hstale now rfl
  | takeSlot now clock =>
    intro x hx
    rw [departs] at hx
    split_ifs at hx with hopen
    · rcases List.mem_append.mp hx with hx | hx
      · exact hstale now rfl x hx
      · have hslot := takeSlot_slotted (P := P) m now clock
        generalize hres : m.takeSlot P now clock = r at hslot
        cases hslot with
        | shut hshut => exact absurd hopen hshut
        | drained _ hfresh => simp [hfresh] at hx
        | flushed _ q rest hfresh ev m' _ hflush =>
          rw [hfresh] at hx
          obtain rfl : x = (q, m.fate P q) := by simpa using hx
          have hq := List.mem_filter.mp (hfresh ▸ List.mem_cons_self : q ∈ m.freshQueue now)
          have hpad := padSlot_take (hsized q hq.1)
          have hage := of_decide_eq_true hq.2
          cases hflush with
          | sent s s' packet hget henc =>
            have hfate : m.fate P q = .emitted packet := by simp only [fate, hget, henc]
            rw [hfate]
            rw [hpad] at henc
            refine .emitted now clock s s' packet hage hget henc ?_
            simp only [call, hres]
            rfl
          | lost s s' e _ hget henc =>
            have hfate : m.fate P q = .failed := by simp only [fate, hget, henc]
            rw [hfate]
            rw [hpad] at henc
            exact .failed now clock s s' e hget henc
    · cases hx
  | _ => exact fun x hx => absurd hx List.not_mem_nil

end Records

section Steps

variable (m)

theorem backlog_closeIf (passed : Bool) (reason : CloseReason)
    (now : ℕ) : (m.closeIf P passed reason now).2.backlog = m.backlog ∧
      dropCounts (m.closeIf P passed reason now).1 = [] := by
  rcases m.closeIf_cases (P := P) passed reason now with ⟨heq, -⟩ | ⟨session, hget, -, heq⟩
  · rw [heq]
    exact ⟨rfl, rfl⟩
  · rw [heq]
    refine ⟨(backlog_teardown hget now true).1, ?_⟩
    rcases teardown_closes (P := P) hget now true with ⟨hev, -⟩ | ⟨_, _, -, hev, -⟩ <;> rw [hev] <;>
      rfl

theorem backlog_enforced (now : ℕ) :
    (m.enforced P now).2.backlog = m.backlog ∧ dropCounts (m.enforced P now).1 = [] := by
  have hhs : (m.expireHandshake now).2.backlog = m.backlog ∧
      dropCounts (m.expireHandshake now).1 = [] := by
    unfold expireHandshake
    split
    · exact ⟨rfl, rfl⟩
    · split_ifs <;> exact ⟨rfl, rfl⟩
  have hrules : ∀ m : ClientSessionManager T, (m.sessionDeadlines P now).2.backlog = m.backlog ∧
      dropCounts (m.sessionDeadlines P now).1 = [] := by
    intro m
    simp only [sessionDeadlines, dropCounts_append, backlog_closeIf, List.append_nil, and_self]
  simp only [enforced, dropCounts_append, hrules, hhs, List.append_nil, and_self]

theorem tick_backlog (now : ℕ) :
    (m.tick P now).2.backlog = (m.freshQueue now,
      saturatingAddU64 m.droppedOutbound (m.staleQueue now).length, m.lastSlotAt, m.limits) := by
  have hback := (backlog_enforced (P := P) m now).1
  rw [tick_left, expireQueued_eq]
  generalize (m.enforced P now).2 = m' at hback
  simp only [backlog, Prod.mk.injEq] at hback
  simp only [backlog, freshQueue, staleQueue, hback]

theorem saturatingAddU64_zero {n : ℕ} (h : n ≤ 2 ^ 64 - 1) : saturatingAddU64 n 0 = n :=
  min_eq_left h

theorem saturatingAddU64_add (a b c : ℕ) :
    saturatingAddU64 (saturatingAddU64 a b) c = saturatingAddU64 a (b + c) := by
  simp only [saturatingAddU64]
  omega

theorem appOutbound_cases (payload : Bytes) (now : ℕ) :
    ((m.appOutbound P payload now).2.backlog =
        (m.outQueue ++ accepts m (.appOutbound payload now), m.droppedOutbound, m.lastSlotAt,
          m.limits) ∧ refuses m (.appOutbound payload now) = [] ∧
      dropCounts (returned (m.appOutbound P payload now).1) = []) ∨
    ((m.appOutbound P payload now).2.backlog =
        (m.outQueue, saturatingAddU64 m.droppedOutbound 1, m.lastSlotAt, m.limits) ∧
      accepts m (.appOutbound payload now) = [] ∧
      refuses m (.appOutbound payload now) = [payload] ∧
      dropCounts (returned (m.appOutbound P payload now).1) =
        [saturatingAddU64 m.droppedOutbound 1]) := by
  unfold appOutbound
  split_ifs with hlong hnone
  · refine Or.inl ⟨?_, ?_, rfl⟩
    · simp [accepts, backlog, Nat.not_le.mpr hlong]
    · simp [refuses, Nat.not_le.mpr hlong]
  · unfold enqueue
    split_ifs with hfull
    · refine Or.inr ⟨rfl, ?_, ?_, rfl⟩
      · simp [accepts, Nat.not_lt.mpr hfull]
      · simp [refuses, Nat.not_lt.mp hlong, hfull, hnone]
    · refine Or.inl ⟨?_, ?_, rfl⟩
      · simp [accepts, backlog, Nat.not_lt.mp hlong, hnone, Nat.not_le.mp hfull]
      · simp [refuses, hfull]
  · have h := bystands_sendEncrypted (P := P) m .data (padSlot payload) now
    refine Or.inl ⟨?_, ?_, h.drops⟩
    · rw [h.backlog]
      simp [accepts, backlog, hnone]
    · simp [refuses, hnone]

variable {m}

/-- One call and the queue: what was there and what is accepted is what leaves, in this order, and
what is then there. -/
structure QueueStep (P : Primitives T) (m : ClientSessionManager T) (c : Call T) : Prop where
  limits : (call P m c).2.limits = m.limits
  queue : m.outQueue.Pairwise (fun q q' => q.queuedAt ≤ q'.queuedAt) →
    m.outQueue ++ accepts m c = (departs P m c).map (·.1) ++ (call P m c).2.outQueue
  count : m.droppedOutbound ≤ 2 ^ 64 - 1 →
    (call P m c).2.droppedOutbound = saturatingAddU64 m.droppedOutbound
      ((departs P m c).countP (·.2.isExpired) + (refuses m c).length)
  slot : usesSlot P m c = [] ∧ (call P m c).2.lastSlotAt = m.lastSlotAt ∨
    usesSlot P m c = [c.queueTime] ∧ (call P m c).2.lastSlotAt = some c.queueTime ∧
      m.SlotOpen c.queueTime

theorem filter_not_append_filter {α : Type*} {p : α → Bool} {l : List α}
    (h : l.Pairwise fun a b => p a = true → p b = true) :
    l.filter (fun a => !p a) ++ l.filter p = l := by
  induction l with
  | nil => rfl
  | cons a l ih =>
    obtain ⟨hhead, htail⟩ := List.pairwise_cons.mp h
    by_cases ha : p a = true
    · have hall : ∀ b ∈ l, p b = true := fun b hb => hhead b hb ha
      simpa [ha, List.filter_eq_self.mpr hall] using hall
    · simp [ha, ih htail]

/-- In a queue filled in the order of time the old payloads stand in front. -/
theorem staleQueue_append (h : m.outQueue.Pairwise fun q q' => q.queuedAt ≤ q'.queuedAt)
    (now : ℕ) : m.staleQueue now ++ m.freshQueue now = m.outQueue := by
  refine filter_not_append_filter (h.imp fun {q q'} hle => ?_)
  simp only [isFresh, decide_eq_true_iff]
  omega

theorem countP_expired (l : List QueuedPayload) :
    (l.map fun q => (q, Fate.expired)).countP (·.2.isExpired) = l.length := by
  rw [List.countP_map, List.countP_eq_length]
  exact fun q _ => rfl

theorem fate_not_expired (m : ClientSessionManager T) (q : QueuedPayload) :
    (m.fate P q).isExpired = false := by
  unfold fate
  split
  · rfl
  · split <;> rfl

theorem map_expired (l : List QueuedPayload) :
    (l.map fun q => (q, Fate.expired)).map (·.1) = l := by
  rw [List.map_map]
  exact List.map_id l

/-- A step is told by the queue, the count and the last slot that it leaves. -/
theorem queueStep_of_backlog {c : Call T} {queue : List QueuedPayload} {n : ℕ} {last : Option ℕ}
    (h : (call P m c).2.backlog = (queue, n, last, m.limits))
    (hqueue : m.outQueue.Pairwise (fun q q' => q.queuedAt ≤ q'.queuedAt) →
      m.outQueue ++ accepts m c = (departs P m c).map (·.1) ++ queue)
    (hcount : m.droppedOutbound ≤ 2 ^ 64 - 1 → n = saturatingAddU64 m.droppedOutbound
      ((departs P m c).countP (·.2.isExpired) + (refuses m c).length))
    (hslot : usesSlot P m c = [] ∧ last = m.lastSlotAt ∨
      usesSlot P m c = [c.queueTime] ∧ last = some c.queueTime ∧ m.SlotOpen c.queueTime) :
    QueueStep P m c := by
  simp only [backlog, Prod.mk.injEq] at h
  obtain ⟨rfl, rfl, rfl, hlimits⟩ := h
  exact ⟨hlimits, hqueue, hcount, hslot⟩

theorem takeSlot_step (m : ClientSessionManager T) (now clock : ℕ) :
    QueueStep P m (.takeSlot now clock) := by
  have hslot := takeSlot_slotted (P := P) m now clock
  generalize hres : m.takeSlot P now clock = r at hslot
  have hcall : (call P m (.takeSlot now clock)).2 = r.2 := by rw [call, hres]
  have huses : usesSlot P m (.takeSlot now clock) = if r.1.isSome then [now] else [] := by
    rw [usesSlot, hres]
  cases hslot with
  | shut hshut =>
    refine queueStep_of_backlog (by rw [hcall]; rfl) (fun _ => ?_) (fun hle => ?_) ?_
    · simp [accepts, departs, hshut]
    · simp [departs, refuses, hshut, saturatingAddU64_zero hle]
    · exact Or.inl ⟨by rw [huses]; rfl, rfl⟩
  | flushed hopen q rest hfresh ev m' hback hflush =>
    refine queueStep_of_backlog (by rw [hcall]; exact hback) (fun hsorted => ?_) (fun hle => ?_) ?_
    · rw [← staleQueue_append hsorted now, departs, if_pos hopen, hfresh, List.map_append,
        map_expired]
      simp [accepts]
    · rw [departs, if_pos hopen, hfresh, List.countP_append, countP_expired]
      simp [refuses, fate_not_expired]
    · exact Or.inr ⟨by rw [huses]; rfl, rfl, hopen⟩
  | drained hopen hfresh ev m' hback =>
    refine queueStep_of_backlog (by rw [hcall]; exact hback) (fun hsorted => ?_) (fun hle => ?_) ?_
    · rw [← staleQueue_append hsorted now, departs, if_pos hopen, hfresh, List.map_append,
        map_expired]
      simp [accepts]
    · rw [departs, if_pos hopen, hfresh, List.countP_append, countP_expired]
      simp [refuses]
    · cases ev with
      | none => exact Or.inl ⟨by rw [huses]; rfl, rfl⟩
      | some ev => exact Or.inr ⟨by rw [huses]; rfl, rfl, hopen⟩

theorem call_queueStep (m : ClientSessionManager T) (c : Call T) : QueueStep P m c := by
  cases c with
  | appOutbound payload now =>
    rcases appOutbound_cases (P := P) m payload now with ⟨hback, hrefuses, -⟩ |
      ⟨hback, haccepts, hrefuses, -⟩
    · refine queueStep_of_backlog hback (fun _ => rfl) (fun hle => ?_) (Or.inl ⟨rfl, rfl⟩)
      rw [hrefuses]
      exact (saturatingAddU64_zero hle).symm
    · refine queueStep_of_backlog hback (fun _ => ?_) (fun _ => ?_) (Or.inl ⟨rfl, rfl⟩)
      · rw [haccepts, List.append_nil]
        rfl
      · rw [hrefuses]
        rfl
  | takeSlot now clock => exact takeSlot_step m now clock
  | tick now =>
    refine queueStep_of_backlog (tick_backlog m now) (fun hsorted => ?_) (fun _ => ?_)
      (Or.inl ⟨rfl, rfl⟩)
    · rw [← staleQueue_append hsorted now, departs, map_expired]
      exact List.append_nil _
    · rw [departs, countP_expired]
      rfl
  | _ =>
    refine queueStep_of_backlog (bystands_call (by simp) (by simp) (by simp)).1 (fun _ => ?_)
      (fun hle => ?_) (Or.inl ⟨rfl, rfl⟩)
    · exact List.append_nil _
    · exact (saturatingAddU64_zero hle).symm

end Steps

section Runs

variable {limits : SessionLimits} {calls : List (Call T)}

/-- The queue after a run, and the records of what went through it. -/
structure Balanced (P : Primitives T) (limits : SessionLimits) (m : ClientSessionManager T)
    (calls : List (Call T)) : Prop where
  kept : (run P m calls).limits = limits
  sorted : (run P m calls).outQueue.Pairwise fun q q' => q.queuedAt ≤ q'.queuedAt
  dated : ∀ q ∈ (run P m calls).outQueue, ∃ c ∈ calls, q.queuedAt = c.queueTime
  sized : ∀ q ∈ (run P m calls).outQueue, q.payload.length = payloadLen
  short : (run P m calls).outQueue.length ≤ outboundQueueCap
  conserved : accepted P m calls = (departed P m calls).map (·.1) ++ (run P m calls).outQueue
  counted : (run P m calls).droppedOutbound = saturatingAddU64 0
    ((departed P m calls).countP (·.2.isExpired) + (refused P m calls).length)
  paced : (slotTimes P m calls).Pairwise fun t t' => t + limits.slotInterval ≤ t'
  lastSlot : ∀ t ∈ slotTimes P m calls, ∃ last, (run P m calls).lastSlotAt = some last ∧ t ≤ last

theorem accepts_spec {c : Call T} {q : QueuedPayload} (h : q ∈ accepts m c) :
    q.queuedAt = c.queueTime ∧ q.payload.length = payloadLen ∧
      accepts m c = [q] ∧ m.outQueue.length < outboundQueueCap := by
  cases c with
  | appOutbound payload now =>
    rw [accepts] at h ⊢
    split_ifs at h ⊢ with hok
    · obtain rfl := List.mem_singleton.mp h
      exact ⟨rfl, length_padSlot hok.1, rfl, hok.2.2⟩
    · cases h
  | _ => cases h

theorem accepts_cases (m : ClientSessionManager T) (c : Call T) :
    accepts m c = [] ∨ ∃ q, accepts m c = [q] ∧ m.outQueue.length < outboundQueueCap := by
  cases hacc : accepts m c with
  | nil => exact Or.inl rfl
  | cons q rest =>
    have hmem : q ∈ accepts m c := by simp [hacc]
    obtain ⟨-, -, heq, hroom⟩ := accepts_spec hmem
    exact Or.inr ⟨q, hacc.symm.trans heq, hroom⟩

theorem Balanced.snoc (h : Balanced P limits m calls) (hpos : 0 < limits.slotInterval) (c : Call T)
    (htimes : ∀ c' ∈ calls, c'.queueTime ≤ c.queueTime) : Balanced P limits m (calls ++ [c]) := by
  have hstep := call_queueStep (P := P) (run P m calls) c
  have hqueue := hstep.queue h.sorted
  have hafter : ∀ q ∈ (run P m (calls ++ [c])).outQueue,
      q ∈ (run P m calls).outQueue ++ accepts (run P m calls) c := by
    intro q hq
    rw [hqueue, ← run_snoc]
    exact List.mem_append_right _ hq
  have hsub : (run P m (calls ++ [c])).outQueue.Sublist
      ((run P m calls).outQueue ++ accepts (run P m calls) c) := by
    rw [hqueue, ← run_snoc]
    exact List.sublist_append_right _ _
  refine ⟨?_, ?_, ?_, ?_, ?_, ?_, ?_, ?_, ?_⟩
  · rw [run_snoc, hstep.limits, h.kept]
  · refine List.Pairwise.sublist hsub
      (List.pairwise_append.mpr ⟨h.sorted, ?_, fun q hq q' hq' => ?_⟩)
    · rcases accepts_cases (run P m calls) c with hnil | ⟨q, hone, -⟩
      · simp [hnil]
      · simp [hone]
    · obtain ⟨c', hc', hq⟩ := h.dated q hq
      rw [hq, (accepts_spec hq').1]
      exact htimes c' hc'
  · intro q hq
    rcases List.mem_append.mp (hafter q hq) with hq | hq
    · obtain ⟨c', hc', hq⟩ := h.dated q hq
      exact ⟨c', List.mem_append_left _ hc', hq⟩
    · exact ⟨c, by simp, (accepts_spec hq).1⟩
  · intro q hq
    rcases List.mem_append.mp (hafter q hq) with hq | hq
    · exact h.sized q hq
    · exact (accepts_spec hq).2.1
  · refine hsub.length_le.trans ?_
    rw [List.length_append]
    rcases accepts_cases (run P m calls) c with hnil | ⟨q, hone, hroom⟩
    · simpa [hnil] using h.short
    · rw [hone]
      exact hroom
  · rw [accepted, outputs_snoc, departed, outputs_snoc, ← accepted, ← departed, h.conserved,
      List.map_append, List.append_assoc, List.append_assoc, run_snoc]
    exact congrArg _ hqueue
  · have hle : (run P m calls).droppedOutbound ≤ 2 ^ 64 - 1 := by
      rw [h.counted]
      exact min_le_right _ _
    rw [run_snoc, hstep.count hle, h.counted, saturatingAddU64_add, departed, outputs_snoc,
      refused, outputs_snoc, List.countP_append, List.length_append]
    congr 1
    simp only [run]
    omega
  · rw [slotTimes, outputs_snoc]
    rcases hstep.slot with ⟨hnone, -⟩ | ⟨huses, -, hopen⟩
    · rw [← run, hnone, List.append_nil]
      exact h.paced
    · rw [← run, huses]
      refine List.pairwise_append.mpr ⟨h.paced, List.pairwise_singleton _ _, fun t ht t' ht' => ?_⟩
      obtain rfl := List.mem_singleton.mp ht'
      obtain ⟨last, hlast, hle⟩ := h.lastSlot t ht
      have hpace := hopen.2
      rw [hlast, Option.all_some, decide_eq_true_iff, h.kept] at hpace
      omega
  · intro t ht
    rw [slotTimes, outputs_snoc] at ht
    rw [run_snoc]
    rcases hstep.slot with ⟨hnone, hlast⟩ | ⟨huses, hlast, hopen⟩
    · rw [← run, hnone, List.append_nil] at ht
      rw [hlast]
      exact h.lastSlot t ht
    · rw [← run, huses] at ht
      refine ⟨_, hlast, ?_⟩
      rcases List.mem_append.mp ht with ht | ht
      · obtain ⟨last, hlast, hle⟩ := h.lastSlot t ht
        have hpace := hopen.2
        rw [hlast, Option.all_some, decide_eq_true_iff, h.kept] at hpace
        omega
      · exact (List.mem_singleton.mp ht).le

theorem slotInterval_pos (hvalid : limits.validate = .ok ()) : 0 < limits.slotInterval := by
  unfold SessionLimits.validate at hvalid
  dsimp only at hvalid
  split at hvalid
  · split_ifs at hvalid
    omega
  · split_ifs at hvalid
    omega

theorem new_backlog {cfg : ClientConfig T} (hnew : new cfg limits = .ok m) :
    limits.validate = .ok () ∧ m.backlog = ([], 0, none, limits) := by
  unfold new at hnew
  split_ifs at hnew
  split at hnew
  · cases hnew
  · rename_i hvalid
    obtain rfl := Except.ok.inj hnew
    exact ⟨hvalid, rfl⟩

theorem balanced_run {cfg : ClientConfig T} (hnew : new cfg limits = .ok m)
    (htimes : (calls.map Call.queueTime).Pairwise (· ≤ ·)) : Balanced P limits m calls := by
  obtain ⟨hvalid, hback⟩ := new_backlog hnew
  simp only [backlog, Prod.mk.injEq] at hback
  obtain ⟨hqueue, hcount, hlast, hlimits⟩ := hback
  induction calls using List.reverseRecOn with
  | nil =>
    refine ⟨hlimits, ?_, ?_, ?_, ?_, ?_, ?_, List.Pairwise.nil, ?_⟩ <;>
      simp [run, hqueue, hcount, accepted, departed, refused, slotTimes, outputs,
        saturatingAddU64]
  | append_singleton calls c ih =>
    rw [List.map_append, List.map_singleton, List.pairwise_append] at htimes
    obtain ⟨hbefore, -, hlater⟩ := htimes
    refine (ih hbefore).snoc (slotInterval_pos hvalid) c fun c' hc' => ?_
    exact hlater _ (List.mem_map_of_mem hc') _ (List.mem_singleton_self _)

/-- In every run with times that do not decrease, what the queue accepts is what has left it, in
the order of acceptance, followed by what it still holds, at most 64 payloads. A payload leaves in
a Data packet of its padded bytes while it is younger than two seconds, in a flush whose encryption
failed, or by its age; those that leave by age and those that a full queue refuses are what
`outbound_dropped` counts. Two slots are never closer than the slot interval. -/
theorem outbound_accounted (P : Primitives T) {cfg : ClientConfig T}
    (hnew : new cfg limits = .ok m) (calls : List (Call T))
    (htimes : (calls.map Call.queueTime).Pairwise (· ≤ ·)) :
    (run P m calls).outQueue.length ≤ 64 ∧
    accepted P m calls = (departed P m calls).map (·.1) ++ (run P m calls).outQueue ∧
    (run P m calls).droppedOutbound = saturatingAddU64 0
      ((departed P m calls).countP (·.2.isExpired) + (refused P m calls).length) ∧
    (∀ before c after, calls = before ++ c :: after →
      ∀ x ∈ departs P (run P m before) c, Leaves P (run P m before) x.1 c x.2) ∧
    (slotTimes P m calls).Pairwise fun t t' => t + limits.slotInterval ≤ t' := by
  have h := balanced_run (P := P) hnew htimes
  refine ⟨h.short, h.conserved, h.counted, ?_, h.paced⟩
  rintro before c after rfl
  rw [List.map_append, List.pairwise_append] at htimes
  exact departs_leaves (balanced_run (P := P) hnew htimes.1).sized c

/-- A payload that waits for two seconds without a session is counted as dropped. -/
theorem outbound_accounted_sample :
    (run Sample.primitives (sampleClient {}) [.appOutbound [] 0, .tick (fromSecs 2)]).outQueue = []
      ∧ accepted Sample.primitives (sampleClient {}) [.appOutbound [] 0, .tick (fromSecs 2)] =
        (departed Sample.primitives (sampleClient {})
          [.appOutbound [] 0, .tick (fromSecs 2)]).map (·.1) ++
        (run Sample.primitives (sampleClient {}) [.appOutbound [] 0, .tick (fromSecs 2)]).outQueue
      ∧ (run Sample.primitives (sampleClient {})
          [.appOutbound [] 0, .tick (fromSecs 2)]).droppedOutbound = saturatingAddU64 0
        ((departed Sample.primitives (sampleClient {})
          [.appOutbound [] 0, .tick (fromSecs 2)]).countP (·.2.isExpired) +
          (refused Sample.primitives (sampleClient {})
            [.appOutbound [] 0, .tick (fromSecs 2)]).length) := by
  have hnew : new Exchange.sampleClientConfig {} = .ok (sampleClient {}) := new_sampleClient rfl
  obtain ⟨-, hqueue, hcount, -⟩ := outbound_accounted Sample.primitives hnew
    [.appOutbound [] 0, .tick (fromSecs 2)] (by simp [Call.queueTime, Call.time])
  exact ⟨rfl, hqueue, hcount⟩

end Runs

section Reports

/-- The largest count of dropped payloads that the events report. -/
def reported (evs : List ManagerEvent) : ℕ := (dropCounts evs).foldr max 0

theorem reported_append (evs evs' : List ManagerEvent) :
    reported (evs ++ evs') = max (reported evs) (reported evs') := by
  rw [reported, dropCounts_append, reported, reported]
  induction dropCounts evs with
  | nil => exact (Nat.zero_max _).symm
  | cons n counts ih => rw [List.cons_append, List.foldr_cons, ih, List.foldr_cons, max_assoc]

theorem dropCounts_eq_nil {evs : List ManagerEvent} (h : ∀ ev ∈ evs, ∀ n, ev ≠ .outboundDropped n) :
    dropCounts evs = [] := by
  rw [dropCounts, List.filterMap_eq_nil_iff]
  intro ev hmem
  cases ev with
  | outboundDropped n => exact absurd rfl (h _ hmem n)
  | _ => rfl

theorem takeSlot_dropCounts (m : ClientSessionManager T) (now clock : ℕ) :
    dropCounts (call P m (.takeSlot now clock)).1 = [] := by
  have hslot := takeSlot_slotted (P := P) m now clock
  rw [call]
  generalize m.takeSlot P now clock = r at hslot
  cases hslot with
  | shut => rfl
  | flushed _ q rest _ ev m' _ hflush =>
    cases hflush with
    | sent => rfl
    | lost s s' e _ _ _ hev => rcases hev with rfl | rfl <;> rfl
  | drained _ _ ev m' _ hprobe =>
    cases ev with
    | none => rfl
    | some ev =>
      obtain ⟨packet, peer, rfl⟩ := hprobe ev rfl
      rfl

/-- A tick reports what it expires, and nothing else, as dropped. -/
theorem tick_dropCounts (hone : OneLive m) (hq : QueueOk m) (now : ℕ) :
    dropCounts (m.tick P now).1 = if m.staleQueue now = [] then [] else
      [saturatingAddU64 m.droppedOutbound (m.staleQueue now).length] := by
  obtain ⟨hback, hown⟩ := backlog_enforced (P := P) m now
  have hclosed := (enforced_cases (P := P) hone now).pendingClosed
  have hqueued : dropCounts m.pendingClosed = [] := by
    refine dropCounts_eq_nil fun ev hmem n => ?_
    obtain ⟨sid, reason, rfl⟩ := hq ev hmem
    simp
  have hresent : dropCounts (retransmitCloses P (m.enforced P now).2.pendingCloses now).1 = [] := by
    refine dropCounts_eq_nil fun ev hmem n => ?_
    obtain ⟨pkt, peer, rfl⟩ := retransmitCloses_sends hmem
    simp
  have hlost : dropCounts ((m.enforced P now).2.lostReport now) = if m.staleQueue now = [] then []
      else [saturatingAddU64 m.droppedOutbound (m.staleQueue now).length] := by
    generalize (m.enforced P now).2 = m' at hback
    simp only [backlog, Prod.mk.injEq] at hback
    have hstale : m'.staleQueue now = m.staleQueue now := by
      rw [staleQueue, hback.1, staleQueue]
    rw [lostReport, expireQueued_eq, hstale, hback.2.1]
    by_cases hnone : m.staleQueue now = []
    · rw [if_pos hnone, hnone]
      rfl
    · rw [if_neg hnone, if_pos (List.length_pos_iff.mpr hnone)]
      rfl
  rw [tick_events, hclosed]
  simp only [dropCounts_append, hown, hqueued, hresent, hlost, List.nil_append, List.append_nil]

/-- No slot that is open finds a payload whose time in the queue is over. -/
def SlotsInTime (m : ClientSessionManager T) (c : Call T) : Prop :=
  ∀ now clock, c = .takeSlot now clock → m.SlotOpen now → m.staleQueue now = []

theorem call_reports (hone : OneLive m) (hq : QueueOk m) (hle : m.droppedOutbound ≤ 2 ^ 64 - 1)
    {c : Call T}
    (htime : SlotsInTime m c) :
    m.droppedOutbound ≤ (call P m c).2.droppedOutbound ∧
      (dropCounts (call P m c).1 = [] ∧
          (call P m c).2.droppedOutbound = m.droppedOutbound ∨
        dropCounts (call P m c).1 = [(call P m c).2.droppedOutbound]) := by
  have hstep := (call_queueStep (P := P) m c).count hle
  have hmono : m.droppedOutbound ≤ (call P m c).2.droppedOutbound := by
    rw [hstep, saturatingAddU64]
    omega
  refine ⟨hmono, ?_⟩
  cases c with
  | appOutbound payload now =>
    rcases appOutbound_cases (P := P) m payload now with ⟨hback, -, hdrops⟩ |
      ⟨hback, -, -, hdrops⟩ <;> simp only [backlog, Prod.mk.injEq] at hback
    · exact Or.inl ⟨hdrops, hback.2.1⟩
    · right
      show dropCounts (returned (m.appOutbound P payload now).1) = _
      rw [hdrops]
      exact congrArg (fun n => [n]) hback.2.1.symm
  | takeSlot now clock =>
    refine Or.inl ⟨takeSlot_dropCounts m now clock, ?_⟩
    rw [hstep, departs]
    split_ifs with hopen
    · rw [htime now clock rfl hopen, List.map_nil, List.nil_append, List.countP_map]
      have hnone : ((m.freshQueue now).take 1).countP
          ((fun x => x.2.isExpired) ∘ fun q => (q, m.fate P q)) = 0 := by
        rw [List.countP_eq_zero]
        intro q _
        simp [fate_not_expired]
      rw [hnone]
      exact saturatingAddU64_zero hle
    · exact saturatingAddU64_zero hle
  | tick now =>
    have hback := tick_backlog (P := P) m now
    simp only [backlog, Prod.mk.injEq] at hback
    simp only [call, tick_dropCounts hone hq, hback.2.1]
    split_ifs with hnone
    · rw [hnone]
      exact Or.inl ⟨rfl, saturatingAddU64_zero hle⟩
    · exact Or.inr rfl
  | _ =>
    refine Or.inl ⟨(bystands_call (by simp) (by simp) (by simp)).2.2.1, ?_⟩
    exact hstep.trans (saturatingAddU64_zero hle)

theorem reported_step (hone : OneLive m) (hq : QueueOk m) {c : Call T} {evs : List ManagerEvent}
    (hle : m.droppedOutbound ≤ 2 ^ 64 - 1) (htime : SlotsInTime m c)
    (h : reported evs = m.droppedOutbound) :
    reported (evs ++ (call P m c).1) = (call P m c).2.droppedOutbound := by
  obtain ⟨hmono, hsame⟩ := call_reports (P := P) hone hq hle htime
  rw [reported_append, h]
  rcases hsame with ⟨hnil, heq⟩ | hnew
  · rw [reported, hnil, heq]
    exact Nat.max_zero _
  · rw [reported, hnew, List.foldr_cons, List.foldr_nil, Nat.max_zero]
    exact max_eq_right hmono

variable {limits : SessionLimits}

theorem dropped_run (hle : m.droppedOutbound ≤ 2 ^ 64 - 1) (calls : List (Call T)) :
    (run P m calls).droppedOutbound ≤ 2 ^ 64 - 1 := by
  induction calls using List.reverseRecOn with
  | nil => exact hle
  | append_singleton calls c ih =>
    rw [run_snoc, (call_queueStep (P := P) (run P m calls) c).count ih]
    exact min_le_right _ _

/-- As long as no open slot finds a payload whose time in the queue is over, the largest count that
was reported is the number of dropped payloads, after every call and so after every tick. -/
theorem drops_reported (P : Primitives T) {cfg : ClientConfig T} (hnew : new cfg limits = .ok m)
    (calls : List (Call T)) (htime : Along (fun m c => (call P m c).2) SlotsInTime m calls) :
    reported (events P m calls) = (run P m calls).droppedOutbound := by
  obtain ⟨-, hback⟩ := new_backlog hnew
  simp only [backlog, Prod.mk.injEq] at hback
  obtain ⟨-, hcount, -, -⟩ := hback
  have hle : m.droppedOutbound ≤ 2 ^ 64 - 1 := by omega
  induction calls using List.reverseRecOn with
  | nil => exact hcount.symm
  | append_singleton calls c ih =>
    obtain ⟨hbefore, hlast, -⟩ := along_append.mp htime
    have hcycle := (handshakes_balanced (P := P) hnew calls).1
    rw [events, outputs_snoc, run_snoc]
    exact reported_step hcycle.held.oneLive hcycle.queue (dropped_run hle calls) hlast (ih hbefore)

end Reports

section Sample

theorem AllFrom.backlog {src : SocketAddr} {t : ℕ} {calls : List (Call T)} (h : AllFrom src t calls)
    (m : ClientSessionManager T) :
    (run P m calls).backlog = m.backlog ∧ dropCounts (events P m calls) = [] := by
  induction calls generalizing m with
  | nil => exact ⟨rfl, rfl⟩
  | cons c calls ih =>
    obtain ⟨pkt, rand, rfl⟩ := h c List.mem_cons_self
    obtain ⟨hback, hdrops⟩ := ih (fun a ha => h a (List.mem_cons_of_mem _ ha))
      (call P m (.datagram pkt src rand t)).2
    have hcall := bystands_call (P := P) (m := m) (c := .datagram pkt src rand t) (by simp)
      (by simp) (by simp)
    rw [run, List.foldl_cons, ← run, events, outputs, ← events, dropCounts_append, hcall.2.2.1]
    exact ⟨hback.trans hcall.1, hdrops⟩

def sampleWaiting (c : ClientHandshake Sample.types) : ClientSessionManager Sample.types :=
  { sampleBegun {} 0 c with outQueue := [⟨padSlot [], 0⟩] }

theorem exists_waiting : ∃ calls,
    dropCounts (events Sample.primitives (sampleClient {}) calls) = [] ∧
      (run Sample.primitives (sampleClient {}) calls).session.isSome ∧
      (run Sample.primitives (sampleClient {}) calls).backlog = ([⟨padSlot [], 0⟩], 0, none, {}) := by
  obtain ⟨c, hbegun, hsid, hwait, hmeet⟩ := exists_sample_begun {} 0
  obtain ⟨calls, _, _, session, _, hall, h⟩ := exists_adopted (m := sampleWaiting c) hmeet
    Sample.hkdfTotal CipherSession.sample_aeadTotal
    rfl hwait rfl (by simp [sampleWaiting, sampleBegun, sampleClient]) 0
  obtain ⟨hback, hdrops⟩ := hall.backlog (P := Sample.primitives) (sampleWaiting c)
  refine ⟨sampleBegin 0 :: .appOutbound [] 0 :: calls, ?_, ?_, ?_⟩
  · rw [events, outputs, outputs, hbegun]
    exact hdrops
  · rw [run, List.foldl_cons, List.foldl_cons, hbegun]
    exact Option.isSome_iff_exists.mpr ⟨session.next, congrArg _ h.eq⟩
  · rw [run, List.foldl_cons, List.foldl_cons, hbegun]
    exact hback

/-- A payload that expires inside a slot is counted, and the tick after it reports nothing. -/
theorem slot_expiry_unreported : ∃ calls now,
    new Exchange.sampleClientConfig {} = .ok (sampleClient {}) ∧
      reported (events Sample.primitives (sampleClient {}) (calls ++ [.tick now])) = 0 ∧
      (run Sample.primitives (sampleClient {}) (calls ++ [.tick now])).droppedOutbound = 1 := by
  have hnew : new Exchange.sampleClientConfig {} = .ok (sampleClient {}) := new_sampleClient rfl
  obtain ⟨calls, hdrops, hsession, hback⟩ := exists_waiting
  have hslot := takeSlot_slotted (P := Sample.primitives)
    (run Sample.primitives (sampleClient {}) calls) (fromSecs 2) (fromSecs 2)
  have hcycle := (handshakes_balanced (P := Sample.primitives) hnew
    (calls ++ [.takeSlot (fromSecs 2) (fromSecs 2)])).1
  have hsilent := takeSlot_dropCounts (P := Sample.primitives)
    (run Sample.primitives (sampleClient {}) calls) (fromSecs 2) (fromSecs 2)
  have hleft : (run Sample.primitives (sampleClient {})
      (calls ++ [.takeSlot (fromSecs 2) (fromSecs 2)])).outQueue = [] ∧
      (run Sample.primitives (sampleClient {})
        (calls ++ [.takeSlot (fromSecs 2) (fromSecs 2)])).droppedOutbound = 1 := by
    rw [run_snoc]
    simp only [call]
    generalize run Sample.primitives (sampleClient {}) calls = m at hslot hsession hback
    simp only [backlog, Prod.mk.injEq] at hback
    obtain ⟨hqueue, hcount, hlast, hlimits⟩ := hback
    have hopen : m.SlotOpen (fromSecs 2) := ⟨hsession, by rw [hlast]; rfl⟩
    have hfresh : m.freshQueue (fromSecs 2) = [] := by rw [freshQueue, hqueue]; rfl
    have hstale : (m.staleQueue (fromSecs 2)).length = 1 := by rw [staleQueue, hqueue]; rfl
    generalize m.takeSlot Sample.primitives (fromSecs 2) (fromSecs 2) = r at hslot
    cases hslot with
    | shut hshut => exact absurd hopen hshut
    | flushed _ q rest hsome => cases hfresh.symm.trans hsome
    | drained _ _ ev m' hback =>
      simp only [backlog, Prod.mk.injEq] at hback
      refine ⟨hback.1, hback.2.1.trans ?_⟩
      rw [hcount, hstale]
      rfl
  refine ⟨calls ++ [.takeSlot (fromSecs 2) (fromSecs 2)], fromSecs 2, hnew, ?_, ?_⟩
  · have hbefore : dropCounts (events Sample.primitives (sampleClient {})
        (calls ++ [.takeSlot (fromSecs 2) (fromSecs 2)])) = [] := by
      rw [events, outputs_snoc, dropCounts_append, ← events, hdrops]
      exact hsilent
    have htick := tick_dropCounts (P := Sample.primitives) hcycle.held.oneLive hcycle.queue
      (fromSecs 2)
    rw [staleQueue, hleft.1] at htick
    rw [reported, events, outputs_snoc, dropCounts_append, ← events, hbefore]
    exact congrArg (List.foldr max 0) htick
  · have htick := tick_backlog (P := Sample.primitives) (run Sample.primitives (sampleClient {})
      (calls ++ [.takeSlot (fromSecs 2) (fromSecs 2)])) (fromSecs 2)
    simp only [backlog, Prod.mk.injEq] at htick
    rw [run_snoc]
    refine htick.2.1.trans ?_
    rw [hleft.2, staleQueue, hleft.1]
    rfl

/-- Two payloads on a client without a session, and a tick that expires them. -/
theorem drops_reported_sample :
    reported (events Sample.primitives (sampleClient {})
        [.appOutbound [] 0, .appOutbound [] 1, .tick (fromSecs 3)]) =
      (run Sample.primitives (sampleClient {})
        [.appOutbound [] 0, .appOutbound [] 1, .tick (fromSecs 3)]).droppedOutbound ∧
    (run Sample.primitives (sampleClient {})
        [.appOutbound [] 0, .appOutbound [] 1, .tick (fromSecs 3)]).droppedOutbound = 2 := by
  have hnew : new Exchange.sampleClientConfig {} = .ok (sampleClient {}) := new_sampleClient rfl
  refine ⟨drops_reported Sample.primitives hnew _ ?_, rfl⟩
  simp [Along, SlotsInTime]

end Sample
end PqTunnel.ClientSessionManager
