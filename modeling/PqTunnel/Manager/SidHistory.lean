import Mathlib.Data.List.DropRight
import PqTunnel.Manager.ClientFrame

/-! The session ids that a client manager remembers: the last ones it drew, which it does not draw
again, and the last ones it retired, under which it creates no session. -/
namespace PqTunnel

section Windows

variable {cap : ℕ} {history order sids l : List SessionId} {sid : SessionId}

theorem forgetOldest_eq (cap : ℕ) (order sids : List SessionId) : forgetOldest cap order sids =
    (order.rtake cap, sids.filter (· ∉ order.take (order.length - cap))) := by
  induction order generalizing sids with
  | nil => simp [forgetOldest]
  | cons old order ih =>
    rw [forgetOldest, List.rtake, List.length_cons]
    split_ifs with hlong
    · rw [ih, List.rtake, Nat.sub_add_comm (Nat.le_of_lt_succ hlong), List.drop_succ_cons,
        List.take_succ_cons, List.filter_filter]
      simp [Bool.and_comm]
    · rw [Nat.sub_eq_zero_of_le (not_lt.mp hlong)]
      simp

/-- A set and its queue remember the last `cap` ids of a history, which are distinct. -/
structure Remembers (cap : ℕ) (history order sids : List SessionId) : Prop where
  window : order = history.rtake cap
  nodup : order.Nodup
  perm : sids.Perm order

theorem Remembers.length_le (h : Remembers cap history order sids) : order.length ≤ cap := by
  rw [h.window, List.rtake, List.length_drop]
  omega

theorem rtake_snoc (hcap : 0 < cap) (l : List SessionId) (sid : SessionId) :
    (l.rtake cap ++ [sid]).rtake cap = (l ++ [sid]).rtake cap := by
  obtain ⟨k, rfl⟩ := Nat.exists_eq_succ_of_ne_zero hcap.ne'
  simp [List.rtake_eq_reverse_take_reverse, List.take_take]

theorem filter_take (h : l.Nodup) (k : ℕ) : l.filter (· ∉ l.take k) = l.drop k := by
  have hdisj := List.disjoint_take_drop h k.le_refl
  conv_lhs => arg 2; rw [← List.take_append_drop k l]
  rw [List.filter_append, List.filter_eq_nil_iff.mpr (by simp), List.nil_append,
    List.filter_eq_self.mpr]
  intro x hx
  simpa using fun hmem => hdisj hmem hx

theorem Remembers.snoc (h : Remembers cap history order sids) (hcap : 0 < cap)
    (hnew : sid ∉ sids) : Remembers cap (history ++ [sid])
      (forgetOldest cap (order ++ [sid]) (sid :: sids)).1
      (forgetOldest cap (order ++ [sid]) (sid :: sids)).2 := by
  have hperm : (sid :: sids).Perm (order ++ [sid]) :=
    (h.perm.cons sid).trans (List.perm_append_singleton sid order).symm
  have hnodup : (order ++ [sid]).Nodup :=
    hperm.nodup_iff.mp (List.nodup_cons.mpr ⟨hnew, h.perm.nodup_iff.mpr h.nodup⟩)
  rw [forgetOldest_eq]
  refine ⟨?_, hnodup.sublist (List.drop_sublist ..), ?_⟩
  · rw [h.window]
    exact rtake_snoc hcap history sid
  · exact (hperm.filter _).trans (.of_eq (filter_take hnodup _))

/-- Where the last ids of a history are distinct, they are its last distinct ids. -/
theorem rtake_dedup (h : (l.rtake cap).Nodup) : l.dedup.rtake cap = l.rtake cap := by
  by_cases hshort : l.length ≤ cap
  · have hall : l.rtake cap = l := by rw [List.rtake, Nat.sub_eq_zero_of_le hshort, List.drop_zero]
    rw [hall] at h ⊢
    rw [h.dedup, hall]
  · have hsuffix : l.rtake cap <:+ l.dedup := by
      have hjoin := List.dedup_append (l.take (l.length - cap)) (l.rtake cap)
      rw [List.rtake, List.take_append_drop] at hjoin
      rw [hjoin, ← List.rtake, h.dedup]
      exact List.suffix_union_right ..
    obtain ⟨front, hfront⟩ := hsuffix
    have hlen : (l.rtake cap).length = cap := by
      rw [List.rtake, List.length_drop]
      omega
    rw [← hfront, List.rtake, List.length_append, hlen, Nat.add_sub_cancel, List.drop_left]

end Windows

/-- What a manager knows of its session ids: the queue and the set of the used ones and of the
retired ones, and the id of its session. -/
structure Ids where
  used : List SessionId × List SessionId
  retired : List SessionId × List SessionId
  live : Option SessionId

namespace Ids

variable {s s' : Ids} {sid : SessionId} {new drawn retired : List SessionId}

def remember (cap : ℕ) (known : List SessionId × List SessionId) (sid : SessionId) :
    List SessionId × List SessionId := forgetOldest cap (known.1 ++ [sid]) (sid :: known.2)

def retire (s : Ids) (sid : SessionId) : Ids where
  used := s.used
  retired := if sid ∈ s.retired.2 then s.retired else remember retiredSidCap s.retired sid
  live := none

/-- The turns of the ids, with the ids that each one draws. -/
inductive Turn (s : Ids) : List SessionId → Ids → Prop where
  | stays : Turn s [] s
  | draws (sid : SessionId) (hunused : sid ∉ s.used.2) :
      Turn s [sid] { s with used := remember sidHistoryCap s.used sid }
  | creates (sid : SessionId) (hfree : s.live = none) (hunretired : sid ∉ s.retired.2) :
      Turn s [] { s with live := some sid }
  | ends (sid : SessionId) (hlive : s.live = some sid) : Turn s [] (s.retire sid)

/-- The remembered ids are the last ones of the histories, and the session has another one. -/
structure Chronicles (drawn retired : List SessionId) (s : Ids) : Prop where
  used : Remembers sidHistoryCap drawn s.used.1 s.used.2
  retired : Remembers retiredSidCap retired s.retired.1 s.retired.2
  live : ∀ sid, s.live = some sid → sid ∉ s.retired.2

/-- The session that is there before and not after. -/
def departed (live live' : Option SessionId) : List SessionId :=
  if live' = live then [] else live.toList

/-- A turn keeps the histories; it draws no remembered id and creates no session under a retired
one. -/
theorem Chronicles.turn (h : Chronicles drawn retired s) (ht : Turn s new s') :
    Chronicles (drawn ++ new) (retired ++ departed s.live s'.live) s' ∧ (∀ sid ∈ new, sid ∉ s.used.2) ∧
      ∀ sid ∈ departed s'.live s.live, sid ∉ s.retired.2 := by
  cases ht with
  | stays => simpa [departed] using h
  | draws sid hunused =>
    refine ⟨⟨h.used.snoc (by decide) hunused, ?_, h.live⟩, by simpa using hunused, by simp [departed]⟩
    simpa [departed] using h.retired
  | creates sid hfree hunretired =>
    have hlive : ∀ sid', some sid = some sid' → sid' ∉ s.retired.2 := by
      rintro _ ⟨⟩
      exact hunretired
    simpa [departed, hfree, hunretired] using ⟨h.used, h.retired, hlive⟩
  | ends sid hlive =>
    have hretired := h.retired.snoc (by decide) (h.live sid hlive)
    rw [retire, if_neg (h.live sid hlive)]
    refine ⟨⟨by simpa using h.used, ?_, nofun⟩, nofun, by simp [departed]⟩
    simpa [departed, hlive, remember] using hretired

end Ids

namespace ClientSessionManager
open Transition Exchange Ids

variable {T : CryptoTypes} {P : Primitives T} {m m' m'' : ClientSessionManager T}
  {session session' : WireSession}

def ids (m : ClientSessionManager T) : Ids where
  used := (m.usedOrder, m.usedSids)
  retired := (m.retiredOrder, m.retiredSids)
  live := m.sessionId

/-- The id that a call draws. -/
def drew (m : ClientSessionManager T) : Call T → List SessionId
  | .beginHandshake draws _ _ _ =>
    if m.hs.isSome || m.session.isSome then [] else (m.freshSid draws.toList).1.toOption.toList
  | _ => []

abbrev after (P : Primitives T) (m : ClientSessionManager T) (c : Call T) : ClientSessionManager T :=
  (call P m c).2

/-- The id of the session that a call ends. -/
def ends (P : Primitives T) (m : ClientSessionManager T) (c : Call T) : List SessionId :=
  Ids.departed m.sessionId (after P m c).sessionId

/-- The id of the session that a call creates. -/
def creates (P : Primitives T) (m : ClientSessionManager T) (c : Call T) : List SessionId :=
  Ids.departed (after P m c).sessionId m.sessionId

/-- What a call does to the ids, if it draws none and creates no session. -/
def Rests (m m' : ClientSessionManager T) : Prop :=
  m'.ids = m.ids ∨ ∃ sid, m.sessionId = some sid ∧ m'.ids = m.ids.retire sid

theorem Rests.refl (m : ClientSessionManager T) : Rests m m := Or.inl rfl

theorem Rests.trans (h : Rests m m') (h' : Rests m' m'') : Rests m m'' := by
  rcases h with heq | ⟨sid, hlive, heq⟩
  · simpa only [Rests, heq, show m'.sessionId = m.sessionId from congrArg live heq] using h'
  · have hgone : m'.sessionId = none := congrArg live heq
    rcases h' with heq' | ⟨sid', hlive', -⟩
    · exact Or.inr ⟨sid, hlive, heq'.trans heq⟩
    · cases hgone.symm.trans hlive'

theorem Rests.turn (h : Rests m m') : Turn m.ids [] m'.ids := by
  rcases h with heq | ⟨sid, hlive, heq⟩ <;> rw [heq]
  · exact .stays
  · exact .ends sid hlive

theorem ids_session (hget : m.session = some session) (hget' : m'.session = some session')
    (hsid : session'.sessionId = session.sessionId)
    (hkept : { m'.ids with live := none } = { m.ids with live := none }) : m'.ids = m.ids := by
  have hlive := sessionId_eq hget hget' hsid
  injection hkept with hused hretired
  rw [ids, ids, hlive]
  exact congrArg₂ (Ids.mk · · m.sessionId) hused hretired

theorem ids_probe {probe : Option WirePacket} (h : m.buildProbe P = (probe, m')) :
    m'.ids = m.ids := by
  cases probed_of_eq h with
  | sent session packet session' hget henc =>
    obtain ⟨-, rfl⟩ := WireSession.encrypt_ok henc
    exact ids_session hget rfl rfl rfl
  | spent session hget => exact ids_session hget rfl rfl rfl
  | unsent => rfl

theorem rests_teardown (hget : m.session = some session) (now : ℕ) (sendClose : Bool) :
    Rests m (m.teardown P now sendClose).2 := by
  refine Or.inr ⟨session.sessionId, by rw [sessionId, hget, Option.map_some], ?_⟩
  unfold teardown retireSid retire ids
  rw [hget]
  dsimp only
  split_ifs
  all_goals first | rfl | split <;> rfl

theorem Rests.tornDown {now : ℕ} {sendClose : Bool} (h : m'.ids = m.ids)
    (hget : m'.session = some session) : Rests m (m'.teardown P now sendClose).2 :=
  Rests.trans (Or.inl h) (rests_teardown hget now sendClose)

/-- A session is created under an id that is not retired. -/
def Creates (m m' : ClientSessionManager T) : Prop :=
  m.session = none ∧ ∃ sid ∉ m.retiredSids, m'.ids = { m.ids with live := some sid }

theorem Does.rests {c : Call T} {r : ClientStep T} (h : Does P m c r)
    (hbegin : ∀ draws kemSk xSk now, c ≠ .beginHandshake draws kemSk xSk now) :
    Rests m r.2 ∨ Creates m r.2 := by
  have hread : ∀ {pkt session}, Reads m pkt session → ∀ ready rounds peer, ids { m with
      session := some (session.decrypt P pkt).2, ready, roundsUnanswered := rounds, peer } =
        m.ids := by
    intro pkt session hread ready rounds peer
    obtain ⟨st, w, hframe, -⟩ := session.decrypt_frame (P := P) pkt
    exact ids_session hread.get rfl (by rw [hframe]) rfl
  cases h with
  | drew | began => exact absurd rfl (hbegin _ _ _ _)
  | adopted _ _ _ _ outcome session _ m' _ _ hfree _ hunretired hnew hbuild =>
    refine Or.inr ⟨hfree, _, hunretired, (ids_probe hbuild).trans ?_⟩
    rw [← (WireSession.established_ok hnew).2.1]
    rfl
  | resent _ _ _ _ hbuild => exact Or.inl (Or.inl (ids_probe hbuild :))
  | sent _ _ _ _ _ _ _ hget henc =>
    obtain ⟨-, rfl⟩ := WireSession.encrypt_ok henc
    exact Or.inl (Or.inl (ids_session hget rfl rfl rfl))
  | spent _ session _ _ _ hget =>
    have hrekey : ids { m with session := some { session with state := .rekey } } = m.ids :=
      ids_session hget rfl rfl rfl
    exact Or.inl (.tornDown hrekey rfl)
  | unread _ _ _ _ _ _ hr => exact Or.inl (Or.inl (hread hr _ _ _))
  | read _ src _ _ _ _ _ hr => exact Or.inl (Or.inl (hread hr true 0 src))
  | hungUp _ src _ _ _ _ hr => exact Or.inl (.tornDown (hread hr true 0 src) rfl)
  | died _ _ _ _ _ hr => exact Or.inl (.tornDown (hread hr m.ready m.roundsUnanswered m.peer) rfl)
  | closed now session hget => exact Or.inl ((rests_teardown hget now true).trans (Or.inl rfl))
  | _ => exact Or.inl (.refl m)

variable (m)

theorem takeSlot_rests (t clock : ℕ) : Rests m (m.takeSlot P t clock).2 := by
  have hslot := takeSlot_slot (P := P) m t clock
  generalize m.takeSlot P t clock = res at hslot ⊢
  cases hslot with
  | shut | drained => exact .refl m
  | flushed hopen q rest r _ _ hdoes =>
    rcases hdoes.rests (by simp) with hrests | ⟨hfree, -⟩
    · exact hrests
    · have hfree : m.session = none := hfree
      simp [SlotOpen, hfree] at hopen
  | unsent _ _ _ m' _ hbuild | probed _ _ _ packet m' _ hbuild => exact Or.inl (ids_probe hbuild :)

theorem tick_rests (now : ℕ) : Rests m (m.tick P now).2 := by
  have hteardown : ∀ (m : ClientSessionManager T) session, m.session = some session →
      Rests m (m.teardown P now true).2 := fun m _ hget => rests_teardown hget now true
  obtain ⟨_, hrests, -⟩ := beforeFlush_rule (R := fun m _ m' => Rests m m') Rests.refl .trans
    (fun m hs _ => .refl m) (fun m session _ hget => hteardown m session hget)
    (fun m _ _ => .refl m) m
  exact hrests

theorem beginHandshake_turn (draws : List.Vector (Except String SessionId) 8)
    (kemSk : Except CryptoError T.KemSk) (xSk : T.XSk)
    (now : ℕ) : Turn m.ids (m.drew (.beginHandshake draws kemSk xSk now))
      (m.beginHandshake P draws kemSk xSk now).2.ids := by
  rw [beginHandshake, drew]
  split_ifs
  · exact .stays
  · rcases m.freshSid_cases draws.toList with ⟨e, heq, -⟩ | ⟨sid, -, hunused, heq⟩ <;> rw [heq]
    · exact .stays
    · dsimp only
      split
      · exact .draws sid hunused
      · exact .draws sid hunused

variable {m}

theorem call_turn (P : Primitives T) (m : ClientSessionManager T) (c : Call T) :
    Turn m.ids (drew m c) (after P m c).ids := by
  rcases call_does P m c with ⟨t, clock, rfl⟩ | ⟨now, rfl⟩ | ⟨r, hdoes, hcall, -⟩
  · exact (takeSlot_rests m t clock).turn
  · exact (tick_rests m now).turn
  · cases c with
    | beginHandshake draws kemSk xSk now => exact beginHandshake_turn m draws kemSk xSk now
    | _ =>
      rw [after, hcall]
      rcases hdoes.rests (by simp) with hrests | ⟨hfree, sid, hunretired, heq⟩
      · exact hrests.turn
      · rw [heq]
        exact .creates sid (by rw [ids, sessionId, hfree, Option.map_none]) hunretired

theorem run_chronicles {cfg : ClientConfig T} {limits : SessionLimits}
    (hnew : new cfg limits = .ok m) (calls : List (Call T)) :
    Chronicles (outputs (after P) drew m calls) (outputs (after P) (ends P) m calls)
      (run P m calls).ids := by
  induction calls using List.reverseRecOn with
  | nil =>
    unfold new at hnew
    split_ifs at hnew
    split at hnew <;> cases hnew
    have hnone : ∀ cap, Remembers cap [] [] [] :=
      fun cap => ⟨(List.rtake_nil cap).symm, List.nodup_nil, .refl _⟩
    exact ⟨hnone _, hnone _, nofun⟩
  | append_singleton calls c ih =>
    rw [outputs_snoc, outputs_snoc, run_snoc]
    exact (ih.turn (call_turn P _ c)).1

/-- In every run the two sets hold the ids of their queues, at most 64 and 1024 of them and none
twice, no call draws one of the last 64 drawn ids, and no call creates a session under one of the
last 1024 distinct retired ids. -/
theorem sid_histories {cfg : ClientConfig T} {limits : SessionLimits}
    (hnew : new cfg limits = .ok m) (calls : List (Call T)) :
    ((run P m calls).usedOrder.Nodup ∧ (run P m calls).usedSids.Perm (run P m calls).usedOrder ∧
      (run P m calls).usedOrder.length ≤ 64) ∧
    ((run P m calls).retiredOrder.Nodup ∧
      (run P m calls).retiredSids.Perm (run P m calls).retiredOrder ∧
      (run P m calls).retiredOrder.length ≤ 1024) ∧
    ∀ c, (∀ sid ∈ drew (run P m calls) c, sid ∉ (outputs (after P) drew m calls).rtake 64) ∧
      ∀ sid ∈ creates P (run P m calls) c,
        sid ∉ (outputs (after P) (ends P) m calls).dedup.rtake 1024 := by
  have h := run_chronicles (P := P) hnew calls
  refine ⟨⟨h.used.nodup, h.used.perm, h.used.length_le⟩,
    ⟨h.retired.nodup, h.retired.perm, h.retired.length_le⟩, fun c => ?_⟩
  obtain ⟨-, hdrew, hcreates⟩ := h.turn (call_turn P _ c)
  refine ⟨fun sid hsid hmem => hdrew sid hsid ?_, fun sid hsid hmem => hcreates sid hsid ?_⟩
  · rw [← show _ = (outputs (after P) drew m calls).rtake 64 from h.used.window] at hmem
    exact h.used.perm.mem_iff.mpr hmem
  · have hwindow : _ = (outputs (after P) (ends P) m calls).rtake 1024 := h.retired.window
    rw [rtake_dedup (hwindow ▸ h.retired.nodup), ← hwindow] at hmem
    exact h.retired.perm.mem_iff.mpr hmem

/-- An attempt that draws an id but no key pair. -/
def drawOnly : Call Sample.types :=
  .beginHandshake (List.Vector.replicate 8 (.ok sampleSid)) (.error (.invalidInput "")) (4 : UInt8) 0

/-- The attempt uses the id up. -/
theorem sid_histories_sample :
    sampleSid ∉ drew (run Sample.primitives (sampleClient {}) [drawOnly]) drawOnly := by
  intro hsid
  refine ((sid_histories (P := Sample.primitives) (new_sampleClient rfl) [drawOnly]).2.2
    drawOnly).1 _ hsid ?_
  have hdrawn : outputs (after Sample.primitives) drew (sampleClient {}) [drawOnly] = [sampleSid] := rfl
  rw [hdrawn]
  decide

end ClientSessionManager
end PqTunnel
