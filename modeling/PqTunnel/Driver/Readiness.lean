import PqTunnel.Driver.Resets
import PqTunnel.Manager.MachineLife
import PqTunnel.Manager.Relay

/-! What the client driver tells the application about its sessions, over a whole run: a Ready for
the session that the manager holds, and its Closed before the next Ready. -/
namespace PqTunnel
open Failing

section Notifications

variable {told : List ManagerNotification} {n : ManagerNotification} {sid : SessionId}

def ManagerNotification.readySid : ManagerNotification → Option SessionId
  | .ready sid => some sid
  | _ => none

def readies (told : List ManagerNotification) : List SessionId := told.filterMap (·.readySid)

/-- Every Ready, except one for the given id, has been followed by a Closed for its session. -/
def Awaits (open' : Option SessionId) (told : List ManagerNotification) : Prop :=
  ∀ before after sid, told = before ++ .ready sid :: after →
    open' = some sid ∨ ∃ reason, .closed sid reason ∈ after

/-- Between two Ready notifications there is a Closed for the session of the first. -/
def ClosedBetween (told : List ManagerNotification) : Prop :=
  ∀ before between after sid sid', told = before ++ .ready sid :: (between ++ .ready sid' :: after) →
    ∃ reason, .closed sid reason ∈ between

theorem snoc_eq_split {α : Type} {l before after : List α} {x y : α}
    (h : l ++ [x] = before ++ y :: after) :
    after = [] ∧ x = y ∧ l = before ∨ ∃ after', after = after' ++ [x] ∧ l = before ++ y :: after' := by
  rcases List.eq_nil_or_concat' after with rfl | ⟨after', z, rfl⟩
  · obtain ⟨hl, hx⟩ := List.append_inj' h rfl
    exact Or.inl ⟨rfl, (List.cons.inj hx).1, hl⟩
  · rw [← List.cons_append, ← List.append_assoc] at h
    obtain ⟨hl, hx⟩ := List.append_inj' h rfl
    exact Or.inr ⟨after', by rw [(List.cons.inj hx).1], hl⟩

theorem readies_snoc (told : List ManagerNotification) (n : ManagerNotification) :
    readies (told ++ [n]) = readies told ++ n.readySid.toList := by
  rw [readies, List.filterMap_append]
  cases hn : n.readySid <;> simp [readies, hn]

theorem Awaits.weaken (h : Awaits none told) (open' : Option SessionId) : Awaits open' told := by
  intro before after sid heq
  exact (h before after sid heq).elim (fun habs => by cases habs) Or.inr

theorem Awaits.snoc {open' : Option SessionId} (h : Awaits open' told) (hn : n.readySid = none) :
    Awaits open' (told ++ [n]) := by
  intro before after sid heq
  rcases snoc_eq_split heq with ⟨-, rfl, -⟩ | ⟨after', rfl, hold⟩
  · cases hn
  · refine (h before after' sid hold).imp_right fun ⟨reason, hmem⟩ => ⟨reason, ?_⟩
    exact List.mem_append_left _ hmem

theorem Awaits.ready (h : Awaits none told) (sid : SessionId) :
    Awaits (some sid) (told ++ [.ready sid]) := by
  intro before after sid' heq
  rcases snoc_eq_split heq with ⟨-, hready, -⟩ | ⟨after', rfl, hold⟩
  · rw [ManagerNotification.ready.inj hready]
    exact Or.inl rfl
  · obtain habs | ⟨reason, hmem⟩ := h before after' sid' hold
    · cases habs
    · exact Or.inr ⟨reason, List.mem_append_left _ hmem⟩

theorem Awaits.closed (h : Awaits (some sid) told) (reason : CloseReason) :
    Awaits none (told ++ [.closed sid reason]) := by
  intro before after sid' heq
  rcases snoc_eq_split heq with ⟨-, habs, -⟩ | ⟨after', rfl, hold⟩
  · cases habs
  · right
    obtain hsid | ⟨reason', hmem⟩ := h before after' sid' hold
    · rw [← Option.some.inj hsid]
      exact ⟨reason, List.mem_append_right _ List.mem_cons_self⟩
    · exact ⟨reason', List.mem_append_left _ hmem⟩

theorem ClosedBetween.snoc (h : ClosedBetween told) (hn : n.readySid = none) :
    ClosedBetween (told ++ [n]) := by
  intro before between after sid sid' heq
  rw [← List.cons_append, ← List.append_assoc] at heq
  rcases snoc_eq_split heq with ⟨-, rfl, -⟩ | ⟨after', rfl, hold⟩
  · cases hn
  · rw [List.append_assoc, List.cons_append] at hold
    exact h before between after' sid sid' hold

theorem ClosedBetween.ready (h : ClosedBetween told) (hclosed : Awaits none told)
    (sid : SessionId) : ClosedBetween (told ++ [.ready sid]) := by
  intro before between after sid' sid'' heq
  rw [← List.cons_append, ← List.append_assoc] at heq
  rcases snoc_eq_split heq with ⟨-, -, hold⟩ | ⟨after', rfl, hold⟩
  · exact (hclosed before between sid' hold).resolve_left (by simp)
  · rw [List.append_assoc, List.cons_append] at hold
    exact h before between after' sid' sid'' hold

end Notifications

/-- The session ids that the random source offers to one begin. -/
def ClientDraws.offered {T : CryptoTypes} (draws : ClientDraws T) (k : ℕ) : List SessionId :=
  (draws.begins k).sids.toList.filterMap Except.toOption

/-- How many of the first begins are offered the id. -/
def ClientDraws.offers {T : CryptoTypes} (draws : ClientDraws T) (sid : SessionId) (k : ℕ) : ℕ :=
  (List.range k).countP fun i => decide (sid ∈ draws.offered i)

/-- The random source does not repeat an id over the first begins. -/
def ClientDraws.Distinct {T : CryptoTypes} (draws : ClientDraws T) (k : ℕ) : Prop :=
  ∀ i < k, ∀ j < k, ∀ sid, sid ∈ draws.offered i → sid ∈ draws.offered j → i = j

namespace ClientDriver
open Drive ClientSessionManager

variable {T : CryptoTypes} {P : Primitives T} {out : Outside} {draws : ClientDraws T}
  {cfg : ClientConfig T} {m m' : ClientSessionManager T} {sid : SessionId} {now : ℕ}

theorem offers_succ (draws : ClientDraws T) (sid : SessionId) (k : ℕ) :
    draws.offers sid (k + 1) = draws.offers sid k + if sid ∈ draws.offered k then 1 else 0 := by
  rw [ClientDraws.offers, List.range_succ, List.countP_append]
  simp [ClientDraws.offers, List.countP_singleton]

theorem offers_le_one {k : ℕ} (h : draws.Distinct k) (sid : SessionId) :
    draws.offers sid k ≤ 1 := by
  induction k with
  | zero => simp [ClientDraws.offers]
  | succ k ih =>
    have hbefore : draws.Distinct k := fun i hi j hj => h i (by omega) j (by omega)
    rw [offers_succ]
    split_ifs with hmem
    · have hnone : draws.offers sid k = 0 := by
        rw [ClientDraws.offers, List.countP_eq_zero]
        intro i hi hoffer
        have hlt := List.mem_range.mp hi
        have := h i (by omega) k (by omega) sid (of_decide_eq_true hoffer) hmem
        omega
      omega
    · exact ih hbefore

/-- What matters of the driver for its notifications. -/
structure View (T : CryptoTypes) where
  manager : ClientSessionManager T
  wasReady : Bool
  begins : ℕ
  told : List ManagerNotification

def view (w : World (ClientSessionManager T) ClientVars) : View T :=
  ⟨w.manager, w.vars.wasReady, w.vars.begins, w.told⟩

/-- A manager that only the driver has called. -/
structure Driven (P : Primitives T) (cfg : ClientConfig T) (m : ClientSessionManager T) : Prop where
  cycling : Cycling P cfg m
  version : cfg.version = protocolVersion
  ready : ReadyHeld m

def Idle (m : ClientSessionManager T) : Prop := m.hs = none ∧ m.session = none

/-- Between two events of the manager. -/
structure Live (P : Primitives T) (cfg : ClientConfig T) (draws : ClientDraws T) (v : View T) :
    Prop where
  driven : Driven P cfg v.manager
  queue : v.manager.pendingClosed = []
  ready : v.wasReady = true → v.manager.ready = true
  awaits : Awaits (if v.wasReady then v.manager.heldSid else none) v.told
  between : ClosedBetween v.told
  counted : ∀ sid, (readies v.told).count sid +
    (if v.wasReady = false ∧ v.manager.heldSid = some sid then 1 else 0) ≤ draws.offers sid v.begins

/-- The manager has let its session go, and the Closed is still to be notified. -/
structure Parting (P : Primitives T) (cfg : ClientConfig T) (draws : ClientDraws T)
    (sid : SessionId) (v : View T) : Prop where
  driven : Driven P cfg v.manager
  queue : v.manager.pendingClosed = []
  idle : Idle v.manager
  awaits : Awaits (some sid) v.told
  between : ClosedBetween v.told
  counted : ∀ sid, (readies v.told).count sid ≤ draws.offers sid v.begins

/-- What a turn has notified so far. -/
structure Adds (start v : View T) (new : List ManagerNotification) : Prop where
  told : v.told = start.told ++ new
  ready : ∀ sid, .ready sid ∈ new → start.manager.sessionId = some sid
  begins : start.begins ≤ v.begins

/-- What holds however a turn ends. -/
structure Safe (draws : ClientDraws T) (start v : View T) : Prop where
  between : ClosedBetween v.told
  counted : ∀ sid, (readies v.told).count sid ≤ draws.offers sid v.begins
  adds : ∃ new, Adds start v new

/-- The turn has relayed no Closed so far. -/
def Quiet (start v : View T) : Prop :=
  ∃ new, Adds start v new ∧ ∀ sid reason, .closed sid reason ∉ new

/-- A begin of this turn, on a manager that held nothing, failed and left this manager. -/
def StartFailed (P : Primitives T) (draws : ClientDraws T) (start v : View T) : Prop :=
  ∃ m k now e, Idle m ∧ start.begins ≤ k ∧ v.begins = k + 1 ∧
    m.beginHandshake P (draws.begins k).sids (draws.begins k).kemSk (draws.begins k).xSk now =
      (.error e, v.manager)

def Rearmed (P : Primitives T) (draws : ClientDraws T) (start v : View T) : Prop :=
  v.manager.needsRearm = false ∨ StartFailed P draws start v

/-- The turn is over, and a handshake runs again if it relayed a Closed. -/
def Turned (P : Primitives T) (cfg : ClientConfig T) (draws : ClientDraws T) (start v : View T) :
    Prop :=
  Live P cfg draws v ∧
    (Quiet start v ∨ (∃ new, Adds start v new) ∧ Rearmed P draws start v)

def Heard (P : Primitives T) (cfg : ClientConfig T) (draws : ClientDraws T) (ev : ManagerEvent)
    (v : View T) : Prop :=
  match ev with
  | .closed sid _ => Parting P cfg draws sid v
  | _ => Live P cfg draws v

section Views

variable {start v : View T} {n : ManagerNotification} {new : List ManagerNotification}

theorem Driven.oneLive (h : Driven P cfg m) : OneLive m := h.cycling.held.oneLive

theorem Driven.call (h : Driven P cfg m) (c : Call T) : Driven P cfg (call P m c).2 :=
  ⟨h.cycling.call h.version c, h.version, h.ready.call h.cycling.held c⟩

theorem Adds.refl (v : View T) : Adds v v [] := ⟨by simp, by simp, le_rfl⟩

theorem Adds.notify (h : Adds start v new) (hn : n.readySid = none) :
    Adds start { v with told := v.told ++ [n] } (new ++ [n]) := by
  refine ⟨by rw [h.told, List.append_assoc], fun sid hmem => ?_, h.begins⟩
  rcases List.mem_append.mp hmem with hmem | hmem
  · exact h.ready sid hmem
  · rw [← List.mem_singleton.mp hmem] at hn
    cases hn

theorem Quiet.adds (h : Quiet start v) : ∃ new, Adds start v new := h.imp fun _ h => h.1

theorem Quiet.same {v' : View T} (h : Quiet start v) (htold : v'.told = v.told)
    (hbegins : v'.begins = v.begins) : Quiet start v' := by
  obtain ⟨new, hadds, hquiet⟩ := h
  exact ⟨new, ⟨htold.trans hadds.told, hadds.ready, hbegins ▸ hadds.begins⟩, hquiet⟩

theorem Quiet.notify (h : Quiet start v) (hn : n.readySid = none)
    (hclosed : ∀ sid reason, n ≠ .closed sid reason) :
    Quiet start { v with told := v.told ++ [n] } := by
  obtain ⟨new, hadds, hquiet⟩ := h
  refine ⟨new ++ [n], hadds.notify hn, fun sid reason hmem => ?_⟩
  rcases List.mem_append.mp hmem with hmem | hmem
  · exact hquiet sid reason hmem
  · exact hclosed sid reason (List.mem_singleton.mp hmem).symm

theorem Live.safe (h : Live P cfg draws v) (hadds : ∃ new, Adds start v new) :
    Safe draws start v :=
  ⟨h.between, fun sid => le_trans (Nat.le_add_right _ _) (h.counted sid), hadds⟩

theorem Parting.safe (h : Parting P cfg draws sid v) (hadds : ∃ new, Adds start v new) :
    Safe draws start v := ⟨h.between, h.counted, hadds⟩

theorem Live.notify (h : Live P cfg draws v) (hn : n.readySid = none) :
    Live P cfg draws { v with told := v.told ++ [n] } := by
  refine ⟨h.driven, h.queue, h.ready, h.awaits.snoc hn, h.between.snoc hn, fun sid => ?_⟩
  rw [readies_snoc, hn, Option.toList_none, List.append_nil]
  exact h.counted sid

theorem Parting.notify (h : Parting P cfg draws sid v) (hn : n.readySid = none) :
    Parting P cfg draws sid { v with told := v.told ++ [n] } := by
  refine ⟨h.driven, h.queue, h.idle, h.awaits.snoc hn, h.between.snoc hn, fun sid => ?_⟩
  rw [readies_snoc, hn, Option.toList_none, List.append_nil]
  exact h.counted sid

theorem Live.goesOn (h : Live P cfg draws v) (hdriven : Driven P cfg m')
    (hgo : GoesOn v.manager m') : Live P cfg draws { v with manager := m' } := by
  refine ⟨hdriven, hgo.queue.trans h.queue, fun hr => hgo.ready (h.ready hr), ?_, h.between, ?_⟩
  · rw [hgo.sid]
    exact h.awaits
  · rw [hgo.sid]
    exact h.counted

theorem Live.ends (h : Live P cfg draws v) (hdriven : Driven P cfg m')
    (hends : Ends sid v.manager m') : Parting P cfg draws sid { v with manager := m' } := by
  refine ⟨hdriven, hends.queue.trans h.queue, ⟨hends.hs, hends.session⟩, ?_, h.between,
    fun sid => le_trans (Nat.le_add_right _ _) (h.counted sid)⟩
  have hawaits := h.awaits
  rw [hends.sid] at hawaits
  split_ifs at hawaits
  · exact hawaits
  · exact hawaits.weaken _

theorem Live.heard {ev : ManagerEvent} (h : Live P cfg draws v) (hdriven : Driven P cfg m')
    (htells : Tells v.manager ev m') : Heard P cfg draws ev { v with manager := m' } := by
  cases ev with
  | closed sid reason => exact h.ends hdriven htells
  | _ => exact h.goesOn hdriven htells

theorem Parting.closed (h : Parting P cfg draws sid v) (hready : v.wasReady = false)
    (reason : CloseReason) :
    Live P cfg draws { v with told := v.told ++ [.closed sid reason] } := by
  have hheld : v.manager.heldSid = none := heldSid_eq_none h.idle.1 h.idle.2
  refine ⟨h.driven, h.queue, fun hr => ?_, ?_, h.between.snoc rfl, fun sid' => ?_⟩
  · rw [hready] at hr
    cases hr
  · rw [if_neg (by simp [hready])]
    exact h.awaits.closed reason
  · rw [readies_snoc, hheld, if_neg (by simp), Nat.add_zero]
    simpa [ManagerNotification.readySid] using h.counted sid'

theorem Live.unready (h : Live P cfg draws v) (hidle : Idle v.manager) : v.wasReady = false := by
  rw [Bool.eq_false_iff]
  exact fun hr => h.driven.ready (h.ready hr) hidle.2

theorem Live.begun (h : Live P cfg draws v) (hidle : Idle v.manager)
    (hbegins : start.begins ≤ v.begins) (now : ℕ) {r : ClientStep T}
    (hr : v.manager.beginHandshake P (draws.begins v.begins).sids (draws.begins v.begins).kemSk
      (draws.begins v.begins).xSk now = r) :
    Live P cfg draws { v with manager := r.2, begins := v.begins + 1 } ∧
      Rearmed P draws start { v with manager := r.2, begins := v.begins + 1 } := by
  have hunready := h.unready hidle
  have hdriven : Driven P cfg r.2 := by
    rw [← hr]
    exact h.driven.call (.beginHandshake _ _ _ now)
  have hlive : ∀ m₁, r.2 = m₁ → m₁.pendingClosed = v.manager.pendingClosed →
      (∀ sid, m₁.heldSid = some sid → sid ∈ draws.offered v.begins) →
      Live P cfg draws { v with manager := m₁, begins := v.begins + 1 } := by
    rintro m₁ rfl hqueue hoffer
    refine ⟨hdriven, hqueue.trans h.queue, by simp [hunready], by simpa [hunready] using h.awaits,
      h.between, fun sid => ?_⟩
    have hcount := le_trans (Nat.le_add_right _ _) (h.counted sid)
    dsimp only
    rw [offers_succ]
    split_ifs with hnew hmem
    · omega
    · exact absurd (hoffer sid hnew.2) hmem
    · omega
    · omega
  have hfresh := freshSid_same v.manager (draws.begins v.begins).sids.toList
  have hversion : v.manager.cfg.version = protocolVersion := h.driven.cycling.cfg ▸ h.driven.version
  have hfailed : ∀ e m₁, (v.manager.freshSid (draws.begins v.begins).sids.toList).2 = m₁ →
      r = (.error e, m₁) → Live P cfg draws { v with manager := r.2, begins := v.begins + 1 } ∧
        Rearmed P draws start { v with manager := r.2, begins := v.begins + 1 } := by
    rintro e m₁ rfl hres
    have hnone := heldSid_eq_none (hfresh.hs.trans hidle.1) (hfresh.session.trans hidle.2)
    rw [hres]
    exact ⟨hlive _ (by rw [hres]) hfresh.pendingClosed (by simp [hnone]),
      Or.inr ⟨_, _, now, e, hidle, hbegins, rfl, hr.trans hres⟩⟩
  rcases beginHandshake_idle (P := P) hversion hidle.1 hidle.2 (draws.begins v.begins).sids
    (draws.begins v.begins).kemSk (draws.begins v.begins).xSk now with
    ⟨e, m₁, hdraw, hres⟩ | ⟨e, sid, m₁, hdraw, -, hres⟩ | ⟨sid, m₁, hs, hdraw, hsid, hres⟩
  · exact hfailed _ m₁ (by rw [hdraw]) (hr.symm.trans hres)
  · exact hfailed _ m₁ (by rw [hdraw]) (hr.symm.trans hres)
  · rw [hdraw] at hfresh
    obtain rfl := hr.symm.trans hres
    have hoffer : sid ∈ draws.offered v.begins := by
      rcases v.manager.freshSid_cases (draws.begins v.begins).sids.toList with
        ⟨_, heq, -⟩ | ⟨_, hmem, -, heq⟩ <;> cases (Prod.mk.inj (hdraw.symm.trans heq)).1
      exact List.mem_filterMap.mpr ⟨_, hmem, rfl⟩
    refine ⟨hlive _ rfl hfresh.pendingClosed fun sid' hnew => ?_, Or.inl (by simp [needsRearm])⟩
    rw [heldSid_of_machine rfl, hsid] at hnew
    rwa [← Option.some.inj hnew]

end Views

/-- The specification of a part of a turn that began at `start`. -/
def Spec (draws : ClientDraws T) (start : View T) {α : Type} (p : View T → Prop) (x : Run T α)
    (q : α → View T → Prop) : Prop :=
  Triple (fun w => p (view w)) x (fun a w => q a (view w)) fun _ w => Safe draws start (view w)

section Rules

variable {start : View T} {α β : Type} {p p' : View T → Prop} {q q' : α → View T → Prop}

theorem Spec.bind {x : Run T α} {k : α → Run T β} {r : β → View T → Prop}
    (hx : Spec draws start p x q) (hk : ∀ a, Spec draws start (q a) (k a) r) :
    Spec draws start p (x >>= k) r := Triple.bind hx hk

theorem Spec.pre {x : Run T α} (h : Spec draws start p x q) (hp : ∀ v, p' v → p v) :
    Spec draws start p' x q := fun w hw => h w (hp _ hw)

theorem Spec.post {x : Run T α} (h : Spec draws start p x q) (hq : ∀ a v, q a v → q' a v) :
    Spec draws start p x q' := Triple.conseq h (fun _ hw => hw) fun a w => hq a (view w)

theorem Spec.pure {a : α} (h : ∀ v, p v → q a v) : Spec draws start p (pure a) q :=
  Triple.pure fun w => h (view w)

theorem Spec.throw {e : Halt} (h : ∀ v, p v → Safe draws start v) :
    Spec draws start p (throw e) q := Triple.throw fun w => h (view w)

theorem Spec.read {k : World (ClientSessionManager T) ClientVars → Run T α}
    (h : ∀ w, Spec draws start p (k w) q) : Spec draws start p (get >>= k) q :=
  Triple.bind (q := fun _ w => p (view w)) (.get fun _ hw => hw) h

theorem Spec.get {k : World (ClientSessionManager T) ClientVars → Run T α}
    (h : ∀ w, Spec draws start (fun v => v = view w ∧ p v) (k w) q) :
    Spec draws start p (get >>= k) q := by
  refine Triple.bind (q := fun a w => a = w ∧ p (view w)) (Triple.get fun _ hw => ⟨rfl, hw⟩) ?_
  rintro w w' ⟨rfl, hw⟩
  exact h w w ⟨rfl, hw⟩

theorem Spec.hidden {g : World (ClientSessionManager T) ClientVars →
    World (ClientSessionManager T) ClientVars} (h : ∀ w, view (g w) = view w) :
    Spec draws start p (modify g) fun _ => p :=
  Triple.modify fun w hw => by rwa [h w]

theorem Spec.armSlot (coverOwnsSlot : Bool) (now : ℕ) :
    Spec draws start p (armSlot coverOwnsSlot now) fun _ => p := .hidden fun _ => rfl

theorem Spec.rearmSlot (now : ℕ) : Spec draws start p (rearmSlot now) fun _ => p :=
  .read fun _ => .armSlot _ now

theorem Spec.armRetransmit (now : ℕ) : Spec draws start p (armRetransmit draws now) fun _ => p := by
  refine .hidden fun w => ?_
  dsimp only
  split <;> rfl

theorem Spec.assign {f : ClientVars → ClientVars} (h : ∀ v, (f v).wasReady = v.wasReady)
    (hbegins : ∀ v, (f v).begins = v.begins) : Spec draws start p (assign f) fun _ => p := by
  refine .hidden fun w => ?_
  rw [view, view, h, hbegins]

theorem Spec.sendTo (hsafe : ∀ v, p v → Safe draws start v) (packet : WirePacket)
    (peer : SocketAddr) : Spec draws start p (sendTo out packet peer) fun _ => p := by
  refine Triple.bind (q := fun a w => a = w ∧ p (view w)) (Triple.get fun _ hw => ⟨rfl, hw⟩)
    fun a => Triple.bind (q := fun _ w => p (view w)) ?_ fun _ => ?_
  · refine Triple.set ?_
    rintro w ⟨rfl, hw⟩
    exact hw
  · split
    · exact Triple.pure fun _ hw => hw
    · exact Triple.throw fun _ hw => hsafe _ hw

theorem Spec.sendAll (hsafe : ∀ v, p v → Safe draws start v) (packets : List WirePacket)
    (peer : SocketAddr) : Spec draws start p (sendAll out packets peer) fun _ => p :=
  Triple.forM fun packet _ => Spec.sendTo hsafe packet peer

theorem Spec.notify {n : ManagerNotification} {q : View T → Prop}
    (hsafe : ∀ v, p v → Safe draws start v)
    (h : ∀ v, p v → q { v with told := v.told ++ [n] }) :
    Spec draws start p (notify out n) fun _ => q := by
  refine Triple.bind (q := fun a w => a = w ∧ p (view w)) (Triple.get fun _ hw => ⟨rfl, hw⟩)
    fun a => ?_
  split
  · refine Triple.set ?_
    rintro w ⟨rfl, hw⟩
    exact h _ hw
  · exact Triple.throw fun _ hw => hsafe _ hw.2

theorem Spec.ask {call : ClientSessionManager T → α × ClientSessionManager T}
    (h : ∀ v, p v → q (call v.manager).1 { v with manager := (call v.manager).2 }) :
    Spec draws start p (ask call) q := fun w hw => h (view w) hw

theorem Spec.orFail {r : Except (Fault ManagerError) α} (hsafe : ∀ v, p v → Safe draws start v)
    (h : ∀ a, r = .ok a → ∀ v, p v → q a v) : Spec draws start p (orFail r) q := by
  cases r with
  | ok a => exact .pure (h a rfl)
  | error e => exact .throw hsafe

end Rules

section Branches

variable {start : View T}

/-- A turn that has relayed no Closed yet. -/
def Calling (P : Primitives T) (cfg : ClientConfig T) (draws : ClientDraws T) (start v : View T) :
    Prop := Live P cfg draws v ∧ Quiet start v

/-- A turn that ends with a handshake started again. -/
def Restarted (P : Primitives T) (cfg : ClientConfig T) (draws : ClientDraws T) (start v : View T) :
    Prop := Live P cfg draws v ∧ (∃ new, Adds start v new) ∧ Rearmed P draws start v

/-- What a call has returned: the manager it leaves goes on, or parts with its session. -/
def Answered (P : Primitives T) (cfg : ClientConfig T) (draws : ClientDraws T) (start : View T)
    (r : Except (Fault ManagerError) ManagerEvent) (v : View T) : Prop :=
  match r with
  | .ok ev => Heard P cfg draws ev v ∧ Quiet start v
  | .error _ => Calling P cfg draws start v

/-- A branch of a turn: it may relay a Closed, and then starts a handshake again. -/
def Branch (P : Primitives T) (cfg : ClientConfig T) (draws : ClientDraws T) (start : View T)
    (x : Run T Unit) : Prop :=
  Spec draws start (Calling P cfg draws start) x fun _ => Turned P cfg draws start

variable {v : View T}

theorem Calling.safe (h : Calling P cfg draws start v) : Safe draws start v :=
  h.1.safe h.2.adds

theorem Calling.turned (h : Calling P cfg draws start v) :
    Turned P cfg draws start v := ⟨h.1, Or.inl h.2⟩

theorem Restarted.safe (h : Restarted P cfg draws start v) : Safe draws start v :=
  h.1.safe h.2.1

theorem Restarted.turned (h : Restarted P cfg draws start v) :
    Turned P cfg draws start v := ⟨h.1, Or.inr h.2⟩

theorem heard_safe {ev : ManagerEvent}
    (h : Heard P cfg draws ev v ∧ Quiet start v) : Safe draws start v := by
  cases ev with
  | closed sid reason => exact Parting.safe h.1 h.2.adds
  | _ => exact Live.safe h.1 h.2.adds

theorem heard_turned {ev : ManagerEvent} (h : Heard P cfg draws ev v ∧ Quiet start v)
    (hev : ∀ sid reason, ev ≠ .closed sid reason) : Turned P cfg draws start v := by
  cases ev with
  | closed sid reason => exact absurd rfl (hev sid reason)
  | _ => exact Calling.turned h

theorem Answered.safe {r : Except (Fault ManagerError) ManagerEvent}
    (h : Answered P cfg draws start r v) : Safe draws start v := by
  cases r with
  | ok ev => exact heard_safe h
  | error e => exact Calling.safe h

variable (now)

theorem spec_beginHandshake :
    Spec draws start
      (fun v => Live P cfg draws v ∧ (∃ new, Adds start v new) ∧ Idle v.manager)
      (beginHandshake P draws now) fun _ => Restarted P cfg draws start := by
  rintro w ⟨hlive, ⟨new, hadds⟩, hidle⟩
  obtain ⟨hlive', hrearmed⟩ := hlive.begun hidle hadds.begins now rfl
  exact ⟨hlive', ⟨new, hadds.told, hadds.ready, Nat.le_succ_of_le hadds.begins⟩, hrearmed⟩

theorem spec_rearmClient :
    Spec draws start
      (fun v => Live P cfg draws v ∧ (∃ new, Adds start v new) ∧ Idle v.manager)
      (rearmClient P out draws now) fun _ => Restarted P cfg draws start := by
  refine (spec_beginHandshake now).bind fun r => ?_
  split
  · exact .sendAll (fun _ h => h.safe) _ _
  · exact .pure fun _ h => h
  · exact .pure fun _ h => h
  · exact .throw fun _ h => h.safe

theorem spec_onClosed (sid : SessionId) (reason : CloseReason) (now : ℕ) :
    Spec draws start (fun v => Parting P cfg draws sid v ∧ Quiet start v)
      (onClosed P out draws sid reason now) fun _ => Restarted P cfg draws start := by
  have hassign : Spec draws start (fun v => Parting P cfg draws sid v ∧ Quiet start v)
      (assign fun v => stopCover { v with wasReady := false })
      fun _ v => (Parting P cfg draws sid v ∧ Quiet start v) ∧ v.wasReady = false := by
    refine Triple.modify ?_
    rintro w ⟨hparting, hquiet⟩
    exact ⟨⟨⟨hparting.driven, hparting.queue, hparting.idle, hparting.awaits, hparting.between,
      hparting.counted⟩, hquiet.same rfl rfl⟩, rfl⟩
  refine hassign.bind fun _ => (Spec.armSlot false now).bind fun _ => ?_
  refine .bind (q := fun _ v => Live P cfg draws v ∧ (∃ new, Adds start v new) ∧ Idle v.manager)
    (.notify (fun _ h => h.1.1.safe h.1.2.adds) ?_) fun _ =>
      (spec_rearmClient now).bind fun _ => .armRetransmit now
  rintro v ⟨⟨hparting, hquiet⟩, hunready⟩
  obtain ⟨new, hadds⟩ := hquiet.adds
  exact ⟨hparting.closed hunready reason, ⟨_, hadds.notify rfl⟩, hparting.idle⟩

theorem Spec.turned {α : Type} {p : View T → Prop} {x : Run T α}
    (h : Spec draws start p x fun _ => Restarted P cfg draws start) :
    Spec draws start p x fun _ => Turned P cfg draws start :=
  h.post fun _ _ h => h.turned

theorem spec_call {f : ClientSessionManager T → ClientStep T}
    (hdriven : ∀ m, Driven P cfg m → Driven P cfg (f m).2)
    (hrelays : ∀ m, Driven P cfg m → Relays m (f m)) :
    Spec draws start (Calling P cfg draws start) (ask f) (Answered P cfg draws start) := by
  refine .ask ?_
  rintro v ⟨hlive, hquiet⟩
  have hnext := hdriven _ hlive.driven
  have htells := hrelays _ hlive.driven
  generalize f v.manager = r at hnext htells
  obtain ⟨r, m'⟩ := r
  cases r with
  | ok ev => exact ⟨hlive.heard hnext htells, hquiet.same rfl rfl⟩
  | error e => exact ⟨hlive.goesOn hnext htells, hquiet.same rfl rfl⟩

theorem spec_answered (r : Except (Fault ManagerError) ManagerEvent) :
    Spec draws start (Answered P cfg draws start r) (orFail r)
      fun ev v => Heard P cfg draws ev v ∧ Quiet start v :=
  .orFail (fun _ h => h.safe) fun ev hr v h => by rwa [hr] at h

theorem spec_onEvent (ev : ManagerEvent) :
    Spec draws start (fun v => Heard P cfg draws ev v ∧ Quiet start v)
      (onEvent P out draws now ev) fun _ => Turned P cfg draws start := by
  have hturned : ∀ v, Calling P cfg draws start v → Turned P cfg draws start v :=
    fun _ h => h.turned
  cases ev with
  | send packets peer =>
    exact (Spec.sendAll (fun _ h => heard_safe h) packets peer).post fun _ v => hturned v
  | sendPacket packet peer =>
    exact (Spec.sendTo (fun _ h => heard_safe h) packet peer).post fun _ v => hturned v
  | appData sid inner =>
    refine .notify (fun _ h => heard_safe h) fun v h => hturned _ ⟨Live.notify h.1 rfl, ?_⟩
    exact h.2.notify rfl (by simp)
  | closed sid reason => exact (spec_onClosed sid reason now).turned
  | _ => exact .pure hturned

theorem spec_onRecv (os : Except IoError (Bytes × SocketAddr)) (rand : T.KemRand) (now : ℕ) :
    Branch P cfg draws start (onRecv P out draws os rand now) := by
  unfold onRecv
  split
  · exact .pure fun _ h => h.turned
  · exact .pure fun _ h => h.turned
  · exact .throw fun _ h => h.safe
  · rename_i pkt src _
    refine .read fun w => .bind (spec_call (fun m h => h.call (.datagram pkt src rand now))
      fun m h => (does_handleDatagram m pkt src rand now).relays h.cycling.held h.ready (by simp)
        (by simp)) fun r => ?_
    refine .bind (spec_answered r) fun ev => (spec_onEvent now ev).bind fun _ => .read fun w' => ?_
    split
    · exact .bind (.armRetransmit now) fun _ => .rearmSlot now
    · exact .rearmSlot now

theorem spec_onCommand (cmd : Option Bytes) :
    Branch P cfg draws start (onCommand P out draws now cmd) := by
  cases cmd with
  | none => exact .throw fun _ h => h.safe
  | some payload =>
    refine (spec_call (fun m h => h.call (.appOutbound payload now)) fun m h =>
      (does_appOutbound m payload now).relays h.cycling.held h.ready (by simp) (by simp)).bind fun r => ?_
    split
    · exact (Spec.sendTo (fun _ h => h.safe) _ _).post fun _ _ h => Calling.turned h
    · exact (spec_onClosed _ _ now).turned
    · refine .notify (fun _ h => h.safe) fun v h => Calling.turned ⟨Live.notify h.1 rfl, ?_⟩
      exact h.2.notify rfl (by simp)
    · rename_i ev _ hclosed _
      exact (Spec.rearmSlot now).post fun _ _ h => heard_turned h hclosed
    · exact .pure fun _ h => Calling.turned h
    · exact .pure fun _ h => Calling.turned h
    · exact .throw fun _ h => h.safe

theorem spec_onRetransmit :
    Branch P cfg draws start (onRetransmit P out draws now) := by
  refine (spec_call (fun m h => h.call (.onTimer now)) fun m h =>
    (does_onTimer m now).relays h.cycling.held h.ready (by simp) (by simp)).bind fun r => ?_
  refine .bind (spec_answered r) fun ev => ?_
  split
  · exact .bind ((Spec.sendAll (fun _ h => heard_safe h) _ _).post fun _ _ h => Calling.turned h)
      fun _ => .armRetransmit now
  · exact (spec_onClosed _ _ now).turned
  · rename_i hclosed
    exact (Spec.armRetransmit now).post fun _ _ h => heard_turned h hclosed

theorem spec_outboundDropped {p : View T → Prop} (hsafe : ∀ v, p v → Safe draws start v)
    (hnotify : ∀ v dropped, p v → p { v with told := v.told ++ [.outboundDropped dropped] })
    {evs : List ManagerEvent} (hevs : Uneventful evs) (now : ℕ) :
    Spec draws start p (evs.forM (onTickEvent P out draws now)) fun _ => p := by
  refine Triple.forM fun ev hmem => ?_
  cases ev with
  | sendPacket packet peer => exact Spec.sendTo hsafe packet peer
  | closed sid reason => exact absurd rfl (hevs _ hmem sid reason)
  | outboundDropped dropped => exact Spec.notify hsafe fun v h => hnotify v dropped h
  | _ => exact .pure fun _ h => h

theorem spec_tickEvents {evs : List ManagerEvent} {m m' : ClientSessionManager T}
    (hticked : Ticked m (evs, m')) (hdriven : Driven P cfg m') (now : ℕ) :
    Spec draws start (fun v => ∃ v', Calling P cfg draws start v' ∧ v'.manager = m ∧
        v = { v' with manager := m' })
      (evs.forM (onTickEvent P out draws now)) fun _ => Turned P cfg draws start := by
  have hquiet : ∀ v dropped, Quiet start v →
      Quiet start { v with told := v.told ++ [.outboundDropped dropped] } :=
    fun _ _ h => h.notify rfl (by simp)
  cases hticked with
  | goesOn _ _ hevs hgo =>
    refine (spec_outboundDropped (p := Calling P cfg draws start) (fun _ h => h.safe)
      (fun v dropped h => ⟨h.1.notify rfl, hquiet v dropped h.2⟩) hevs now).pre ?_ |>.post
      fun _ _ h => h.turned
    rintro _ ⟨v, hcalling, rfl, rfl⟩
    exact ⟨hcalling.1.goesOn hdriven hgo, hcalling.2.same rfl rfl⟩
  | ends before after sid reason _ hbefore hafter hends =>
    have hsplit : (before ++ .closed sid reason :: after).forM (onTickEvent P out draws now) =
        before.forM (onTickEvent P out draws now) >>= fun _ =>
          (ManagerEvent.closed sid reason :: after).forM (onTickEvent P out draws now) :=
      List.forM_append
    rw [hsplit]
    refine .bind (q := fun _ v => Parting P cfg draws sid v ∧ Quiet start v) ?_ fun _ =>
      (spec_onClosed sid reason now).bind fun _ => ?_
    · refine (spec_outboundDropped (fun _ h => h.1.safe h.2.adds)
        (fun v dropped h => ⟨h.1.notify rfl, hquiet v dropped h.2⟩) hbefore now).pre ?_
      rintro _ ⟨v, hcalling, rfl, rfl⟩
      exact ⟨hcalling.1.ends hdriven hends, hcalling.2.same rfl rfl⟩
    · refine (spec_outboundDropped (p := Restarted P cfg draws start) (fun _ h => h.safe) ?_ hafter
        now).turned
      rintro v dropped ⟨hlive, ⟨new, hadds⟩, hrearmed⟩
      exact ⟨hlive.notify rfl, ⟨_, hadds.notify rfl⟩, hrearmed⟩

theorem idle_of_needsRearm (h : m.needsRearm = true) : Idle m := by
  simp only [needsRearm, Bool.and_eq_true, Option.isNone_iff_eq_none] at h
  exact ⟨h.1.2, h.2⟩

/-- After a tick a handshake runs again, or its start failed. -/
theorem spec_onTick :
    Spec draws start (Calling P cfg draws start) (onTick P out draws now)
      fun _ => Restarted P cfg draws start := by
  refine .bind (q := fun evs v => ∃ v', Calling P cfg draws start v' ∧
      (v'.manager.tick P now).1 = evs ∧ v = { v' with manager := (v'.manager.tick P now).2 })
    (.ask fun v h => ⟨v, h, rfl, rfl⟩) fun evs => ?_
  refine .bind (q := fun _ => Turned P cfg draws start) ?_ fun _ => .get fun w => ?_
  · rintro w ⟨v, hcalling, rfl, hv⟩
    refine spec_tickEvents (tick_ticked hcalling.1.driven.oneLive hcalling.1.driven.ready
      hcalling.1.queue now) (hcalling.1.driven.call (.tick now)) now w ⟨v, hcalling, rfl, hv⟩
  · split
    · rename_i hneeds
      refine Spec.bind ?_ fun _ => .armRetransmit now
      refine (spec_rearmClient now).pre ?_
      rintro _ ⟨rfl, hlive, hturned⟩
      exact ⟨hlive, hturned.elim Quiet.adds And.left, idle_of_needsRearm hneeds⟩
    · rename_i hneeds
      refine .pure ?_
      rintro _ ⟨rfl, hlive, hturned⟩
      exact ⟨hlive, hturned.elim Quiet.adds And.left, Or.inl (Bool.eq_false_iff.mpr hneeds)⟩

def Taken (P : Primitives T) (cfg : ClientConfig T) (draws : ClientDraws T) (start : View T)
    (ev : Option ManagerEvent) (v : View T) : Prop :=
  match ev with
  | some ev => Heard P cfg draws ev v ∧ Quiet start v
  | none => Calling P cfg draws start v

theorem spec_takeSlot (clock : ℕ) :
    Spec draws start (Calling P cfg draws start) (ask fun m => m.takeSlot P now clock)
      (Taken P cfg draws start) := by
  refine .ask ?_
  rintro v ⟨hlive, hquiet⟩
  have hnext : Driven P cfg (v.manager.takeSlot P now clock).2 :=
    hlive.driven.call (.takeSlot now clock)
  have hslips := slips_takeSlot (P := P) hlive.driven.cycling.held hlive.driven.ready now clock
  generalize v.manager.takeSlot P now clock = r at hnext hslips
  obtain ⟨ev, m'⟩ := r
  cases ev with
  | some ev => exact ⟨hlive.heard hnext hslips, hquiet.same rfl rfl⟩
  | none => exact ⟨hlive.goesOn hnext hslips, hquiet.same rfl rfl⟩

theorem spec_onSlotEvent (ev : Option ManagerEvent) :
    Spec draws start (Taken P cfg draws start ev) (onSlotEvent P out draws now ev)
      fun _ => Turned P cfg draws start := by
  unfold onSlotEvent
  split
  · exact (Spec.sendTo (fun _ h => heard_safe h) _ _).post fun _ _ h => Calling.turned h
  · exact (spec_onClosed _ _ now).turned
  · rename_i hclosed
    refine .pure fun v h => ?_
    cases ev with
    | none => exact Calling.turned h
    | some ev => exact heard_turned h fun sid reason heq => hclosed sid reason (by rw [heq])

theorem spec_onSlot (clock : ℕ) :
    Branch P cfg draws start (onSlot P out draws now clock) :=
  (spec_takeSlot now clock).bind fun ev => (spec_onSlotEvent now ev).bind fun _ =>
    .rearmSlot now

theorem spec_coverEvent (clock : ℕ) (fill : Except String Payload) :
    Spec draws start (Calling P cfg draws start) (coverEvent P now clock fill)
      (Taken P cfg draws start) := by
  refine (spec_takeSlot now clock).bind fun taken => ?_
  cases taken with
  | some ev => exact .pure fun _ h => h
  | none =>
    refine .bind (q := Answered P cfg draws start)
      (spec_call (fun m h => h.call (.coverPacket fill clock)) fun m h =>
        (does_coverPacket m fill clock).relays h.cycling.held h.ready (by simp) (by simp))
          fun r => ?_
    split
    · exact .pure fun _ h => h
    · exact .pure fun _ h => h
    · exact .throw fun _ h => h.safe

theorem spec_onCover (clock : ℕ) (fill : Except String Payload) :
    Branch P cfg draws start (onCover P out draws now clock fill) := by
  have harm : ∀ p : View T → Prop, Spec draws start p (assign armCover) fun _ => p :=
    fun p => .assign (fun _ => rfl) fun _ => rfl
  refine .read fun w => .bind (.assign (fun _ => rfl) fun _ => rfl) fun _ => ?_
  dsimp only
  split
  · exact (spec_coverEvent now clock fill).bind fun ev => (spec_onSlotEvent now ev).bind fun _ =>
      harm _
  · exact (harm _).post fun _ _ h => h.turned

theorem spec_whenDue {arm : ClientVars → Option ℕ} {now : ℕ} {branch : Run T Unit}
    (h : Branch P cfg draws start branch) :
    Branch P cfg draws start (whenDue arm now branch) := by
  refine .read fun w => ?_
  split
  · exact h
  · exact .pure fun _ h => h.turned

/-- The head of the loop notifies the Ready of the session that is held. -/
theorem spec_noticeReady :
    Spec draws start (fun v => v = start ∧ Live P cfg draws v) (noticeReady out now)
      fun _ => Calling P cfg draws start := by
  have hcalling : ∀ v, v = start ∧ Live P cfg draws v → Calling P cfg draws start v := by
    rintro v ⟨rfl, hlive⟩
    exact ⟨hlive, [], .refl v, by simp⟩
  refine .get fun w => ?_
  split
  · rename_i hready
    simp only [Bool.and_eq_true, Bool.not_eq_true'] at hready
    obtain ⟨hready, hunready⟩ := hready
    -- The driver knows of the session before the application does.
    have hassign : Spec draws start
        (fun v => v = view w ∧ v = start ∧ Live P cfg draws v)
        (assign fun v => armCover { v with wasReady := true, coverSched := v.coverSched.start now })
        fun _ v => view w = start ∧ Live P cfg draws start ∧ v = { start with wasReady := true } := by
      refine Triple.modify ?_
      rintro w' ⟨hw, hstart, hlive⟩
      refine ⟨hw.symm.trans hstart, hstart ▸ hlive, ?_⟩
      rw [← hstart]
      rfl
    refine hassign.bind fun _ => (Spec.rearmSlot now).bind fun _ => ?_
    have hsafe : ∀ v, view w = start ∧ Live P cfg draws start ∧
        v = { start with wasReady := true } → Safe draws start v := by
      rintro _ ⟨-, hlive, rfl⟩
      exact ⟨hlive.between, (hlive.safe ⟨[], .refl start⟩).counted, [],
        ⟨by simp, by simp, le_rfl⟩⟩
    split
    · rename_i sid hsid
      refine .notify hsafe ?_
      rintro _ ⟨rfl, hlive, rfl⟩
      have hfalse : (view w).wasReady = false := hunready
      have hidle : w.manager.hs = none := by
        refine hlive.driven.oneLive.resolve_right fun hnone => ?_
        exact hlive.driven.ready hready hnone
      have hheld : w.manager.heldSid = some sid := by
        rw [heldSid, hidle]
        exact hsid
      have hclosed : Awaits none (view w).told := by simpa [hfalse] using hlive.awaits
      refine ⟨⟨hlive.driven, hlive.queue, fun _ => hready, ?_, hlive.between.ready hclosed sid,
        fun sid' => ?_⟩, [.ready sid], ⟨rfl, fun sid' hmem => ?_, le_rfl⟩, by simp⟩
      · rw [if_pos rfl]
        change Awaits w.manager.heldSid _
        rw [hheld]
        exact hclosed.ready sid
      · have hcount := hlive.counted sid'
        rw [readies_snoc, if_neg (by simp), Nat.add_zero, List.count_append]
        simp only [ManagerNotification.readySid, Option.toList_some, List.count_singleton]
        have hiff : ((view w).wasReady = false ∧ (view w).manager.heldSid = some sid') ↔
            sid = sid' := by
          rw [show (view w).manager.heldSid = some sid from hheld]
          simp [hfalse]
        rw [if_congr hiff rfl rfl] at hcount
        simpa using hcount
      · rw [ManagerNotification.ready.inj (List.mem_singleton.mp hmem)]
        exact hsid
    · rename_i hnone
      refine .pure ?_
      rintro _ ⟨rfl, hlive, rfl⟩
      have hsession : w.manager.session ≠ none := hlive.driven.ready hready
      exact absurd (by simpa [sessionId] using hnone) hsession
  · exact .pure fun v h => hcalling v h.2

variable {now}

/-- One turn of the loop. -/
theorem spec_turn (out : Outside) (start : View T) (input : ClientInput T) :
    Spec draws start (fun v => v = start ∧ Live P cfg draws v) (turn P out draws input)
      fun _ v => Turned P cfg draws start v ∧
        ∀ now, input = .tick now → Rearmed P draws start v := by
  refine (spec_noticeReady _).bind fun _ => ?_
  have hother : ∀ {x : Run T Unit}, (∀ now, input ≠ .tick now) →
      Branch P cfg draws start x →
      Spec draws start (Calling P cfg draws start) x fun _ v => Turned P cfg draws start v ∧
        ∀ now, input = .tick now → Rearmed P draws start v := fun hinput h =>
    h.post fun _ _ h => ⟨h, fun now heq => absurd heq (hinput now)⟩
  cases input with
  | recv os rand now => exact hother (by simp) (spec_onRecv os rand now)
  | command cmd now => exact hother (by simp) (spec_onCommand now cmd)
  | retransmit now => exact hother (by simp) (spec_whenDue (spec_onRetransmit now))
  | tick now =>
    exact (spec_onTick now).post fun _ _ h => ⟨h.turned, fun _ _ => h.2.2⟩
  | slot now clock => exact hother (by simp) (spec_whenDue (spec_onSlot now clock))
  | cover now clock fill => exact hother (by simp) (spec_whenDue (spec_onCover now clock fill))

end Branches
section Runs

/-- What has been told and drawn, however the run ends. -/
structure Kept (draws : ClientDraws T) (w : World (ClientSessionManager T) ClientVars) : Prop where
  between : ClosedBetween w.told
  counted : ∀ sid, (readies w.told).count sid ≤ draws.offers sid w.vars.begins

variable {limits : SessionLimits}

theorem Safe.kept {start : View T} {w : World (ClientSessionManager T) ClientVars}
    (h : Safe draws start (view w)) : Kept draws w := ⟨h.between, h.counted⟩

theorem live_init (hnew : ClientSessionManager.new cfg limits = .ok m) (cover : CoverPolicy) :
    Live P cfg draws (view (init m cover)) := by
  obtain ⟨hv, hcycling, -⟩ := cycling_new (P := P) hnew
  obtain ⟨-, -, -, hhs, hsession, -, hclosed, -⟩ := new_ok hnew
  have hready : m.ready = false := by
    unfold ClientSessionManager.new at hnew
    split_ifs at hnew
    split at hnew
    · cases hnew
    · obtain rfl := Except.ok.inj hnew
      rfl
  refine ⟨⟨hcycling, hv, fun hr => ?_⟩, hclosed, fun hr => ?_, ?_, ?_, fun sid => ?_⟩
  · cases hready.symm.trans hr
  · cases hr
  · intro before after sid heq
    simp [view, init] at heq
  · intro before between after sid sid' heq
    simp [view, init] at heq
  · rw [show (view (init m cover)).manager.heldSid = none from heldSid_eq_none hhs hsession]
    simp [view, init, readies]

/-- The driver connects before it notifies anything. -/
theorem spec_connect (out : Outside) (draws : ClientDraws T)
    (hnew : ClientSessionManager.new cfg limits = .ok m) (cover : CoverPolicy) (now : ℕ) :
    Spec draws (view (init m cover)) (fun v => v = view (init m cover)) (connect P out draws now)
      fun _ => Restarted P cfg draws (view (init m cover)) := by
  obtain ⟨-, -, -, hhs, hsession, -⟩ := new_ok hnew
  have hbegin : Spec draws (view (init m cover)) (fun v => v = view (init m cover))
      (beginHandshake P draws now) fun _ => Restarted P cfg draws (view (init m cover)) := by
    refine (spec_beginHandshake now).pre ?_
    rintro v rfl
    exact ⟨live_init hnew cover, ⟨[], .refl _⟩, hhs, hsession⟩
  have harms : Spec draws (view (init m cover)) (Restarted P cfg draws (view (init m cover)))
      (armSlot false now >>= fun _ => armRetransmit draws now)
      fun _ => Restarted P cfg draws (view (init m cover)) :=
    Spec.bind (.armSlot false now) fun _ => .armRetransmit now
  refine hbegin.bind fun r => Spec.bind (.orFail (fun _ h => h.safe) fun _ _ _ h => h)
    fun ev => ?_
  split
  · exact (Spec.sendAll (fun _ h => h.safe) _ _).bind fun _ => harms
  · exact harms

theorem turn_live (input : ClientInput T) :
    Triple (fun w => Live P cfg draws (view w)) (turn P out draws input)
      (fun _ w => Live P cfg draws (view w)) fun _ => Kept draws := by
  intro w hlive
  have hturn := spec_turn out (view w) input w ⟨rfl, hlive⟩
  generalize ((turn P out draws input).run w : Except Halt Unit × _) = r at hturn
  obtain ⟨r, w'⟩ := r
  cases r with
  | ok _ => exact hturn.1.1
  | error e => exact hturn.kept

/-- The whole run, from a new manager. -/
theorem run_live (out : Outside) (draws : ClientDraws T)
    (hnew : ClientSessionManager.new cfg limits = .ok m) (cover : CoverPolicy) (start : ℕ)
    (inputs : List (ClientInput T)) :
    Triple (fun w => w = init m cover) (runClientManager P out draws start inputs)
      (fun _ w => Live P cfg draws (view w)) fun _ => Kept draws := by
  refine Triple.bind ?_ fun _ => Triple.forM fun input _ => turn_live input
  rintro w rfl
  have hconnect := spec_connect (P := P) out draws hnew cover start _ rfl
  generalize ((connect P out draws start).run (init m cover) : Except Halt Unit × _) = r at hconnect
  obtain ⟨r, w'⟩ := r
  cases r with
  | ok _ => exact hconnect.1
  | error e => exact hconnect.kept

variable {w : World (ClientSessionManager T) ClientVars}

/-- A new manager holds no session, so nothing is ready before the first turn. -/
theorem connect_readies (hnew : ClientSessionManager.new cfg limits = .ok m) (cover : CoverPolicy)
    (start : ℕ) {r : Except Halt Unit}
    (hrun : (connect P out draws start).exec (init m cover) = (r, w)) : readies w.told = [] := by
  have hadds : ∃ new, Adds (view (init m cover)) (view w) new := by
    have hconnect := (spec_connect (P := P) out draws hnew cover start).result rfl hrun
    cases r with
    | ok _ => exact hconnect.2.1
    | error e => exact hconnect.adds
  obtain ⟨new, htold, hready, -⟩ := hadds
  obtain ⟨-, -, -, -, hsession, -⟩ := new_ok hnew
  change w.told = new at htold
  rw [readies, List.filterMap_eq_nil_iff, htold]
  intro n hmem
  cases n with
  | ready sid =>
    have hsid : m.sessionId = some sid := hready sid hmem
    simp [sessionId, hsession] at hsid
  | _ => rfl

/-- What one turn tells: a Ready for the session that the manager holds when the turn begins, and
after a tick or a Closed a handshake runs again, unless its start failed. -/
def Reports (P : Primitives T) (draws : ClientDraws T) (input : ClientInput T)
    (w : World (ClientSessionManager T) ClientVars)
    (r : Except Halt Unit × World (ClientSessionManager T) ClientVars) : Prop :=
  ∃ new, r.2.told = w.told ++ new ∧
    (∀ sid, .ready sid ∈ new → w.manager.sessionId = some sid) ∧
    (r.1 = .ok () →
      ((∃ now, input = .tick now) ∨ ∃ sid reason, .closed sid reason ∈ new) →
        r.2.manager.needsRearm = false ∨ StartFailed P draws (view w) (view r.2))

theorem turn_reports (h : Live P cfg draws (view w)) (input : ClientInput T) :
    Reports P draws input w ((turn P out draws input).exec w) := by
  generalize hres : (turn P out draws input).exec w = r
  obtain ⟨r, w'⟩ := r
  have hturn := (spec_turn out (view w) input).result ⟨rfl, h⟩ hres
  cases r with
  | error e =>
    obtain ⟨new, hadds⟩ := hturn.adds
    exact ⟨new, hadds.told, hadds.ready, fun habs => by cases habs⟩
  | ok _ =>
    obtain ⟨⟨-, hquiet | ⟨⟨new, hadds⟩, hrearmed⟩⟩, htick⟩ := hturn
    · obtain ⟨new, hadds, hnone⟩ := hquiet
      refine ⟨new, hadds.told, hadds.ready, fun _ hcase => ?_⟩
      rcases hcase with ⟨now, htime⟩ | ⟨sid, reason, hmem⟩
      · exact htick now htime
      · exact absurd hmem (hnone sid reason)
    · exact ⟨new, hadds.told, hadds.ready, fun _ _ => hrearmed⟩

/-- Over every run of the driver a Ready is notified at most as often as the random source offers
its id, so at most once if the source repeats none, and each Ready is closed before the next.
Nothing is ready before the first turn, and every turn reports as it should. -/
theorem ready_then_closed (hnew : ClientSessionManager.new cfg limits = .ok m)
    (cover : CoverPolicy) (start : ℕ) :
    (∀ r w, (connect P out draws start).exec (init m cover) = (r, w) → readies w.told = []) ∧
    ∀ inputs r w, (runClientManager P out draws start inputs).exec (init m cover) = (r, w) →
      (∀ sid, (readies w.told).count sid ≤ draws.offers sid w.vars.begins) ∧
      (draws.Distinct w.vars.begins → (readies w.told).Nodup) ∧
      ClosedBetween w.told ∧
      (r = .ok () → ∀ input, Reports P draws input w ((turn P out draws input).exec w)) := by
  refine ⟨fun r w hrun => connect_readies hnew cover start hrun, fun inputs r w hrun => ?_⟩
  have hend := (run_live out draws hnew cover start inputs).result rfl hrun
  have hkept : Kept draws w := by
    cases r with
    | ok _ => exact (hend.safe ⟨[], .refl _⟩).kept
    | error e => exact hend
  refine ⟨hkept.counted, fun hdistinct => ?_, hkept.between, ?_⟩
  · rw [List.nodup_iff_count_le_one]
    exact fun sid => le_trans (hkept.counted sid) (offers_le_one hdistinct sid)
  · rintro rfl input
    exact turn_reports hend input

/-- A random source that has one id to offer. -/
def onceDraws : ClientDraws Sample.types where
  begins := fun k =>
    { sids := List.Vector.replicate 8 (if k = 0 then .ok Exchange.sampleSid else .error "exhausted")
      kemSk := .ok (3 : UInt8)
      xSk := (4 : UInt8) }
  delays := fun _ => 0

theorem onceDraws_distinct (k : ℕ) : onceDraws.Distinct k := by
  have hzero : ∀ i sid, sid ∈ onceDraws.offered i → i = 0 := by
    intro i sid hmem
    by_contra hne
    simp [ClientDraws.offered, onceDraws, hne, Except.toOption] at hmem
  intro i _ j _ sid hi hj
  rw [hzero i sid hi, hzero j sid hj]

/-- The sample client, over every run. -/
theorem ready_then_closed_sample :
    ClientSessionManager.new Exchange.sampleClientConfig {} = .ok (sampleClient {}) ∧
    (∀ k, onceDraws.Distinct k) ∧
    ∀ inputs r w, (runClientManager Sample.primitives sending onceDraws 0 inputs).exec
      (init (sampleClient {}) ⟨false, 1⟩) = (r, w) → (readies w.told).Nodup :=
  ⟨new_sampleClient rfl, onceDraws_distinct, fun inputs r w hrun =>
    ((ready_then_closed (new_sampleClient rfl) ⟨false, 1⟩ 0).2 inputs r w hrun).2.1
      (onceDraws_distinct _)⟩

end Runs
end ClientDriver
end PqTunnel
