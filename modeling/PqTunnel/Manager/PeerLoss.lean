import PqTunnel.Manager.OutboundQueue
import PqTunnel.Session.Voice

/-! When the client gives a peer up: liveness probes, their answers and the tick that counts the
rounds without one. -/
namespace PqTunnel.ClientSessionManager
open Transition WireSession CipherSession
open ServerSessionManager (returned)

variable {T : CryptoTypes} {P : Primitives T} {m m' : ClientSessionManager T}

/-- The session, just after it, on which a call takes a liveness probe while it is confirmed. -/
def probesOn (P : Primitives T) (m : ClientSessionManager T) : Call T → Option WireSession
  | .takeSlot now clock =>
    if m.ready = true ∧ m.SlotOpen now then
      match m.takeQueuedPayload P now clock with
      | (some _, _) => none
      | (none, m') =>
        match m'.takeProbe P now with
        | (some _, m'') => m''.session
        | (none, _) => none
    else none
  | _ => none

/-- The call brings a packet of the data path that the session authenticates. -/
def Answers (P : Primitives T) (s : WireSession) : Call T → Prop
  | .datagram pkt _ _ _ =>
    isHandshakeFragment pkt = false ∧ pkt.sid = s.sessionId ∧ ∃ inner, (s.decrypt P pkt).1 = .ok inner
  | _ => False

def Authenticates (P : Primitives T) (m : ClientSessionManager T) (c : Call T) : Prop :=
  ∃ s, m.session = some s ∧ Answers P s c

section Steps

/-- What a call does to the unanswered rounds: a probe on a confirmed session counts one more, and
every other call clears them or leaves them and the session as they are. -/
inductive Rounds (P : Primitives T) (m : ClientSessionManager T) (c : Call T) : Prop where
  | kept (hnone : probesOn P m c = none) (hkeep : KeepsRounds m (call P m c).2)
  | counted (s : WireSession) (hprobe : probesOn P m c = some s)
      (hrounds : (call P m c).2.roundsUnanswered = saturatingAddU32 m.roundsUnanswered 1)
      (hsession : (call P m c).2.session = some s) (hsid : m.sessionId = some s.sessionId)

theorem takeSlot_rounds (m : ClientSessionManager T) (now clock : ℕ) :
    Rounds P m (.takeSlot now clock) ∧ lostPeers (call P m (.takeSlot now clock)).1 = [] := by
  have hslot := takeSlot_slot (P := P) m now clock
  have hcall : call P m (.takeSlot now clock) =
      ((m.takeSlot P now clock).1.toList.flatMap (·.toList), (m.takeSlot P now clock).2) := rfl
  generalize m.takeSlot P now clock = res at hslot hcall
  cases hslot with
  | shut hshut =>
    refine ⟨.kept (if_neg fun h => hshut h.2) ?_, by rw [hcall]; rfl⟩
    rw [hcall]
    exact .refl m
  | flushed _ q rest r _ _ hdoes htake =>
    have h := hdoes.bystands (by simp)
    refine ⟨.kept (by simp only [probesOn, htake, ite_self]) ?_, ?_⟩
    · rw [hcall]
      exact h.rounds
    · rw [hcall, returned_eventOf]
      exact h.lost
  | drained _ _ htake hprobe =>
    refine ⟨.kept (by simp only [probesOn, htake, hprobe, ite_self]) ?_, by rw [hcall]; rfl⟩
    rw [hcall]
    exact Or.inr ⟨rfl, rfl⟩
  | unsent _ _ _ m' htake hbuild hprobe =>
    obtain ⟨-, hrounds, hsid, -⟩ := backlog_probe hbuild
    refine ⟨.kept (by simp only [probesOn, htake, hprobe, ite_self]) ?_, by rw [hcall]; rfl⟩
    rw [hcall]
    exact Or.inr ⟨hrounds, hsid⟩
  | probed hopen _ _ packet m' htake hbuild hprobe =>
    obtain ⟨-, hrounds, hsid, hready⟩ := backlog_probe hbuild
    refine ⟨?_, by rw [hcall]; rfl⟩
    cases hm : m.ready with
    | false =>
      refine .kept (by simp [probesOn, hm]) ?_
      rw [hcall]
      exact Or.inr ⟨(if_neg (by simp [hready.trans hm])).trans hrounds, hsid⟩
    | true =>
      obtain ⟨s, hget⟩ : ∃ s, m'.session = some s := by
        cases probed_of_eq hbuild with
        | sent _ _ session' => exact ⟨session', rfl⟩
      refine .counted s ?_ ?_ ?_ ?_
      · simp only [probesOn, htake, hprobe, if_pos (And.intro hm hopen)]
        exact hget
      · rw [hcall]
        exact (if_pos (hready.trans hm)).trans (congrArg (saturatingAddU32 · 1) hrounds)
      · rw [hcall]
        exact hget
      · rw [← show m'.sessionId = m.sessionId from hsid, sessionId, hget, Option.map_some]

theorem appOutbound_rounds (m : ClientSessionManager T) (payload : Bytes) (now : ℕ) :
    KeepsRounds m (m.appOutbound P payload now).2 ∧
      lostPeers (returned (m.appOutbound P payload now).1) = [] := by
  unfold appOutbound
  split_ifs
  · exact ⟨.refl m, rfl⟩
  · unfold enqueue
    split_ifs <;> exact ⟨Or.inr ⟨rfl, rfl⟩, rfl⟩
  · have h := bystands_sendEncrypted (P := P) m .data (padSlot payload) now
    exact ⟨h.rounds, h.lost⟩

/-- The queue of Closed events is filled by the user's own closes. -/
def UserClosed (m : ClientSessionManager T) : Prop :=
  ∀ ev ∈ m.pendingClosed, ∃ sid, ev = .closed sid .userClosed

theorem Act.userClosed {now : ℕ} {evs : List ManagerEvent} (hact : Act P now m evs m')
    (h : UserClosed m) : UserClosed m' := by
  cases hact with
  | quiet _ _ _ hsame => rwa [UserClosed, hsame.pendingClosed]
  | ended _ session _ sendClose _ hget =>
    rwa [UserClosed, (teardown_tornDown (P := P) hget now sendClose).pendingClosed]
  | closedByUser _ session _ hget =>
    intro ev hmem
    rcases List.mem_append.mp hmem with hmem | hmem
    · exact h ev hmem
    · exact ⟨_, List.mem_singleton.mp hmem⟩
  | flushed => exact fun ev hmem => absurd hmem List.not_mem_nil
  | _ => exact h

theorem lostPeers_eq_nil {evs : List ManagerEvent}
    (h : ∀ ev ∈ evs, ∀ sid, ev ≠ .closed sid .peerUnresponsive) : lostPeers evs = [] := by
  rw [lostPeers, List.filterMap_eq_nil_iff]
  intro ev hmem
  split
  · exact absurd rfl (h _ hmem _)
  · rfl

theorem Enforces.rounds {now : ℕ} {r : List ManagerEvent × ClientSessionManager T}
    (h : Enforces P m now r) :
    KeepsRounds m r.2 ∧ (lostPeers r.1 = [] ∨ m.peerUnresponsive = true) := by
  cases h with
  | kept => exact ⟨.refl m, Or.inl rfl⟩
  | gaveUp => exact ⟨Or.inr ⟨rfl, rfl⟩, Or.inl rfl⟩
  | closed session reason hidle hget hdue =>
    refine ⟨Or.inl (backlog_teardown hget now true).2, ?_⟩
    have hquiet : lostPeers (m.teardown P now true).1.toList = [] := by
      rcases teardown_closes (P := P) hget now true with ⟨hev, -⟩ | ⟨_, _, -, hev, -⟩ <;> rw [hev] <;>
        rfl
    rcases hdue with ⟨rfl, -⟩ | ⟨rfl, -⟩ | ⟨-, hdue⟩
    · left
      rw [lostPeers_append, hquiet]
      rfl
    · left
      rw [lostPeers_append, hquiet]
      rfl
    · exact Or.inr hdue

theorem tick_rounds (hone : OneLive m) (huser : UserClosed m) (now : ℕ) :
    KeepsRounds m (m.tick P now).2 ∧
      (lostPeers (m.tick P now).1 = [] ∨ m.limits.livenessRounds ≤ m.roundsUnanswered) := by
  have henforced := enforced_cases (P := P) hone now
  obtain ⟨hkeep, hlost⟩ := henforced.rounds
  refine ⟨hkeep, ?_⟩
  rcases hlost with hlost | hpeer
  · left
    have hqueue : lostPeers (m.enforced P now).2.pendingClosed = [] := by
      rw [henforced.pendingClosed]
      refine lostPeers_eq_nil fun ev hmem sid => ?_
      obtain ⟨sid', rfl⟩ := huser ev hmem
      simp
    have hresent : lostPeers (retransmitCloses P (m.enforced P now).2.pendingCloses now).1 = [] := by
      refine lostPeers_eq_nil fun ev hmem sid => ?_
      obtain ⟨pkt, peer, rfl⟩ := retransmitCloses_sends hmem
      simp
    have hdrops : lostPeers ((m.enforced P now).2.lostReport now) = [] := by
      unfold lostReport
      split_ifs <;> rfl
    rw [tick_events, lostPeers_append, lostPeers_append, lostPeers_append, hlost, hdrops, hqueue,
      hresent]
    rfl
  · right
    rw [peerUnresponsive, Bool.and_eq_true, decide_eq_true_iff] at hpeer
    exact hpeer.2

theorem call_rounds (hone : OneLive m) (huser : UserClosed m) (c : Call T) :
    Rounds P m c ∧ (lostPeers (call P m c).1 = [] ∨
      (∃ now, c = .tick now) ∧ m.limits.livenessRounds ≤ m.roundsUnanswered) := by
  cases c with
  | appOutbound payload now =>
    obtain ⟨hkeep, hlost⟩ := appOutbound_rounds (P := P) m payload now
    exact ⟨.kept rfl hkeep, Or.inl hlost⟩
  | takeSlot now clock =>
    obtain ⟨hrounds, hlost⟩ := takeSlot_rounds (P := P) m now clock
    exact ⟨hrounds, Or.inl hlost⟩
  | tick now =>
    obtain ⟨hkeep, hlost⟩ := tick_rounds (P := P) hone huser now
    exact ⟨.kept rfl hkeep, hlost.imp_right fun h => ⟨⟨now, rfl⟩, h⟩⟩
  | _ =>
    exact ⟨.kept rfl (bystands_call (by simp) (by simp) (by simp)).2.1,
      Or.inl (bystands_call (by simp) (by simp) (by simp)).2.2.2⟩

theorem Authenticates.clears {c : Call T} (h : Authenticates P m c) :
    probesOn P m c = none ∧ (call P m c).2.roundsUnanswered = 0 := by
  obtain ⟨s, hget, hans⟩ := h
  cases c with
  | datagram pkt src rand now =>
    obtain ⟨hdata, hsid, inner, hopen⟩ := hans
    refine ⟨rfl, ?_⟩
    have hne : ¬ pkt.sid ≠ s.sessionId := not_not.mpr hsid
    have hpayload : dataResult (s.decrypt P pkt).1 = .ok (.payload inner) := by rw [hopen]; rfl
    simp only [call, handleDatagram, hdata, Bool.false_eq_true, if_false, onDataPacket, hget,
      if_neg hne, hpayload]
    split
    · rfl
    · rfl
    · exact (backlog_teardown rfl now false).2
    · rfl
    · rfl
  | _ => cases hans

end Steps

section Runs

def probes (P : Primitives T) : ClientSessionManager T → List (Call T) → List WireSession :=
  outputs (fun m c => (call P m c).2) (fun m c => (probesOn P m c).toList)

/-- Before the next probe, and in time, a packet comes that is authenticated; or one that the
session would authenticate, if the manager does not hold it any more. -/
def Answered (P : Primitives T) (s : WireSession) (deadline : ℕ) :
    ClientSessionManager T → List (Call T) → Prop
  | _, [] => False
  | m, c :: calls =>
    c.time < deadline ∧
        (Authenticates P m c ∨ m.sessionId ≠ some s.sessionId ∧ Answers P s c) ∨
      probesOn P m c = none ∧ Answered P s deadline (call P m c).2 calls

/-- Every probe on a confirmed session is answered within the probe interval. -/
def Prompt (P : Primitives T) : ClientSessionManager T → List (Call T) → Prop
  | _, [] => True
  | m, c :: calls =>
    (∀ s, probesOn P m c = some s →
      Answered P s (c.queueTime + m.limits.livenessProbeInterval) (call P m c).2 calls) ∧
    Prompt P (call P m c).2 calls

/-- At most one round is open, and its answer is still to come. -/
def Calm (P : Primitives T) (m : ClientSessionManager T) (calls : List (Call T)) : Prop :=
  m.roundsUnanswered = 0 ∨ m.roundsUnanswered = 1 ∧
    ∃ s deadline, m.sessionId = some s.sessionId ∧ Answered P s deadline m calls

structure Attended (P : Primitives T) (limits : SessionLimits) (m : ClientSessionManager T) :
    Prop where
  held : Held P m
  user : UserClosed m
  limits : m.limits = limits

variable {limits : SessionLimits} {c : Call T} {calls : List (Call T)}

theorem Attended.call (h : Attended P limits m) (c : Call T) : Attended P limits (call P m c).2 := by
  refine ⟨h.held.call c, ?_, (call_queueStep m c).limits.trans h.limits⟩
  exact (call_trace h.held c).keeps (fun h hact => hact.userClosed h) h.user

theorem attended_new {cfg : ClientConfig T} (hnew : new cfg limits = .ok m) : Attended P limits m := by
  obtain ⟨-, -, hlimits, -, -, -, hclosed, -⟩ := new_ok hnew
  refine ⟨held_new hnew, ?_, hlimits⟩
  rw [UserClosed, hclosed]
  exact fun ev hmem => absurd hmem List.not_mem_nil

theorem attended_run (h : Attended P limits m) (calls : List (Call T)) :
    Attended P limits (run P m calls) := by
  induction calls generalizing m with
  | nil => exact h
  | cons c calls ih => exact ih (h.call c)

theorem Calm.step (hw : Attended P limits m) (h : Calm P m (c :: calls))
    (hprompt : Prompt P m (c :: calls)) : Calm P (call P m c).2 calls := by
  obtain ⟨hrounds, -⟩ := call_rounds (P := P) hw.held.oneLive hw.user c
  cases hrounds with
  | kept hnone hkeep =>
    rcases hkeep with hzero | ⟨hsame, hsid⟩
    · exact Or.inl hzero
    · rcases h with hzero | ⟨hone, s, deadline, hs, hans⟩
      · exact Or.inl (hsame.trans hzero)
      · rcases hans with ⟨-, hauth | ⟨hother, -⟩⟩ | ⟨-, hans⟩
        · exact Or.inl hauth.clears.2
        · exact absurd hs hother
        · exact Or.inr ⟨hsame.trans hone, s, deadline, hsid.trans hs, hans⟩
  | counted s hprobe hrounds hsession hsid =>
    have hzero : m.roundsUnanswered = 0 := by
      rcases h with hzero | ⟨-, s', deadline, hs, hans⟩
      · exact hzero
      · rcases hans with ⟨-, hauth | ⟨hother, -⟩⟩ | ⟨hnone, -⟩
        · rw [hauth.clears.1] at hprobe
          cases hprobe
        · exact absurd hs hother
        · rw [hnone] at hprobe
          cases hprobe
    refine Or.inr ⟨?_, s, _, ?_, hprompt.1 s hprobe⟩
    · rw [hrounds, hzero]
      rfl
    · rw [sessionId, hsession]
      rfl

/-- With prompt answers and at least two rounds no peer is given up. -/
theorem prompt_kept (hw : Attended P limits m) (hrounds : 2 ≤ limits.livenessRounds)
    (hcalm : Calm P m calls) (hprompt : Prompt P m calls) : lostPeers (events P m calls) = [] := by
  induction calls generalizing m with
  | nil => rfl
  | cons c calls ih =>
    have hfew : m.roundsUnanswered < m.limits.livenessRounds := by
      rw [hw.limits]
      rcases hcalm with hzero | ⟨hone, -⟩ <;> omega
    have hstep := hcalm.step hw hprompt
    obtain ⟨-, hlost | ⟨-, hmany⟩⟩ := call_rounds (P := P) hw.held.oneLive hw.user c
    · rw [events, outputs, lostPeers_append, hlost, ← events, ih (hw.call c) hstep hprompt.2]
      rfl
    · omega

/-- The unanswered rounds are probes taken since the last authenticated packet. -/
theorem rounds_le_probes (hw : Attended P limits m) (hzero : m.roundsUnanswered = 0)
    (calls : List (Call T)) :
    ∃ before after, calls = before ++ after ∧
      Along (fun m c => (call P m c).2) (fun m c => ¬ Authenticates P m c) (run P m before) after ∧
      (run P m calls).roundsUnanswered ≤ (probes P (run P m before) after).length := by
  induction calls using List.reverseRecOn with
  | nil => exact ⟨[], [], rfl, trivial, hzero.le⟩
  | append_singleton calls c ih =>
    have hw' := attended_run hw calls
    obtain ⟨hrounds, -⟩ := call_rounds (P := P) hw'.held.oneLive hw'.user c
    obtain ⟨before, after, rfl, hquiet, hle⟩ := ih
    by_cases hauth : Authenticates P (run P m (before ++ after)) c
    · refine ⟨before ++ after ++ [c], [], (List.append_nil _).symm, trivial, ?_⟩
      rw [run_snoc, hauth.clears.2]
      exact Nat.zero_le _
    · refine ⟨before, after ++ [c], List.append_assoc .., ?_, ?_⟩
      · rw [run_append] at hauth
        exact along_append.mpr ⟨hquiet, hauth, trivial⟩
      · rw [run_snoc, probes, outputs_snoc, List.length_append, ← probes, ← run, ← run_append]
        cases hrounds with
        | kept hnone hkeep =>
          rcases hkeep with hzero | ⟨hsame, -⟩
          · rw [hzero]
            exact Nat.zero_le _
          · rw [hsame]
            exact hle.trans (Nat.le_add_right _ _)
        | counted s hprobe hrounds =>
          rw [hrounds, hprobe]
          exact (min_le_left _ _).trans (Nat.add_le_add_right hle 1)

/-- With at least two rounds, a peer that answers every probe on a confirmed session within the
probe interval is never given up, at whatever times the client ticks. And whatever the limits, a
peer is given up only by a tick, after at least `liveness_rounds` probes since the last
authenticated packet. -/
theorem prompt_peer_kept (P : Primitives T) {cfg : ClientConfig T}
    (hnew : new cfg limits = .ok m) (calls : List (Call T)) :
    (2 ≤ limits.livenessRounds → Prompt P m calls → lostPeers (events P m calls) = []) ∧
    ∀ c, lostPeers (call P (run P m calls) c).1 ≠ [] → (∃ now, c = .tick now) ∧
      ∃ before after, calls = before ++ after ∧
        Along (fun m c => (call P m c).2) (fun m c => ¬ Authenticates P m c) (run P m before)
          after ∧
        limits.livenessRounds ≤ (probes P (run P m before) after).length := by
  have hw := attended_new (P := P) hnew
  have hzero : m.roundsUnanswered = 0 := by
    unfold new at hnew
    split_ifs at hnew
    split at hnew
    · cases hnew
    · obtain rfl := Except.ok.inj hnew
      rfl
  refine ⟨fun hrounds hprompt => prompt_kept hw hrounds (Or.inl hzero) hprompt, fun c hlost => ?_⟩
  have hw' := attended_run hw calls
  obtain ⟨-, hnil | ⟨htick, hmany⟩⟩ := call_rounds (P := P) hw'.held.oneLive hw'.user c
  · exact absurd hnil hlost
  · obtain ⟨before, after, hcalls, hquiet, hle⟩ := rounds_le_probes hw hzero calls
    rw [hw'.limits] at hmany
    exact ⟨htick, before, after, hcalls, hquiet, hmany.trans hle⟩

end Runs

section Sample

open Exchange

theorem prompt_append {calls rest : List (Call T)} (h : ∀ c ∈ calls, ∀ m, probesOn P m c = none)
    (m : ClientSessionManager T) (hrest : Prompt P (run P m calls) rest) :
    Prompt P m (calls ++ rest) := by
  induction calls generalizing m with
  | nil => exact hrest
  | cons c calls ih =>
    refine ⟨fun s hs => ?_, ih (fun c' hc' => h c' (List.mem_cons_of_mem _ hc')) _ hrest⟩
    rw [h c List.mem_cons_self m] at hs
    cases hs

def hastyLimits : SessionLimits := { livenessRounds := 1 }

/-- A client with a confirmed session whose first probe is due, and the next packet of its
server. -/
structure Confirmed (limits : SessionLimits) (m : ClientSessionManager Sample.types)
    (s : WireSession) (pkt : WirePacket) : Prop where
  session : m.session = some s
  state : s.state = .established
  fresh : isCounterExhausted s.cipher.sendCounter = false
  hs : m.hs = none
  ready : m.ready = true
  rounds : m.roundsUnanswered = 0
  probe : m.nextProbeAt = some limits.livenessProbeInterval
  backlog : m.backlog = ([], 0, none, limits)
  answer : ∃ slot, s.cipher.ear.Seals Sample.primitives 1 .handshake slot pkt
  sid : s.cipher.sessionId = s.sessionId
  replay : s.cipher.replay.Below 1

theorem datagram_heard (haead : Channel.AeadCorrect P) {s : WireSession}
    (hget : m.session = some s) (hstate : s.state = .established)
    (hsid : s.cipher.sessionId = s.sessionId) {c : UInt64} {slot : Payload} {pkt : WirePacket}
    (hseals : s.cipher.ear.Seals P c .handshake slot pkt) (hc : c.toNat < 2 ^ 60)
    (hbelow : s.cipher.replay.Below c.toNat) (src : SocketAddr) (rand : T.KemRand) (now : ℕ) :
    Answers P s (.datagram pkt src rand now) ∧
    ∃ w, w.Below (c.toNat + 1) ∧ (call P m (.datagram pkt src rand now)).2 =
      { m with
        session := some { s with cipher := { s.cipher with replay := w } }
        ready := true
        roundsUnanswered := 0
        peer := src } := by
  obtain ⟨w, hopen, hbelow'⟩ := decrypt_heard haead hstate hseals hbelow
  have hdata := hseals.data_path hc
  have hpkt : pkt.sid = s.sessionId := hseals.sid.trans hsid
  have hne : ¬ pkt.sid ≠ s.sessionId := not_not.mpr hpkt
  refine ⟨⟨hdata, hpkt, _, by rw [hopen]⟩, w, hbelow', ?_⟩
  simp only [call, handleDatagram, hdata, Bool.false_eq_true, if_false, onDataPacket, hget,
    if_neg hne, hopen, dataResult]

theorem exists_sample_confirmed (limits : SessionLimits) : ∃ calls s pkt,
    (∀ c ∈ calls, ∀ m, probesOn Sample.primitives m c = none) ∧
      Confirmed limits (run Sample.primitives (sampleClient limits) calls) s pkt := by
  have haead := sample_aeadTotal
  have hcorrect : Channel.AeadCorrect Sample.primitives := Channel.sample_correct
  obtain ⟨calls, _, outcome, session, _, hall, h⟩ := exists_sample_adopted limits 0
  obtain ⟨server, hserver⟩ := established_total Sample.hkdfTotal .server outcome
  obtain ⟨hstate, hsid', hcipher⟩ := established_ok h.new
  obtain ⟨hstate', -, hcipher'⟩ := established_ok hserver
  obtain ⟨-, hear, -⟩ := mirrored hcipher hcipher'
  obtain ⟨_, _, _, _, -, -, -, -, hnew⟩ := CipherSession.new_ok hcipher
  obtain ⟨_, _, _, _, -, -, -, -, hnew'⟩ := CipherSession.new_ok hcipher'
  have hzero : session.cipher.sendCounter = 0 := by rw [hnew]
  have hzero' : server.cipher.sendCounter = 0 := by rw [hnew']
  obtain ⟨first, slot, -, -, hfirst, -⟩ := encrypt_says haead hstate'
    (by rw [hzero']; rfl) .handshake (Control.length_slot Control.probe)
  obtain ⟨second, slot', -, -, hsecond, -⟩ := encrypt_says (s := server.next) haead
    hstate' (by rw [next, hzero']; rfl) .handshake (Control.length_slot Control.probe)
  have hget : (run Sample.primitives (sampleClient limits) (sampleBegin 0 :: calls)).session =
      some session.next := by
    rw [h.eq]
    rfl
  have hseals : session.next.cipher.ear.Seals Sample.primitives 0 .handshake slot first := by
    rw [← hzero']
    exact hear ▸ hfirst
  have hreplay : session.next.cipher.replay.Below 0 := by
    rw [next, hnew]
    exact ReplayWindow.below_new 0
  have hids : session.next.cipher.sessionId = session.next.sessionId := by
    show session.cipher.sessionId = session.sessionId
    rw [hnew, hsid']
  obtain ⟨-, w, hbelow, hheard⟩ := datagram_heard hcorrect hget hstate hids hseals (by decide)
    hreplay sampleAddr (0 : UInt8) 0
  refine ⟨sampleBegin 0 :: calls ++ [.datagram first sampleAddr (0 : UInt8) 0],
    { session.next with cipher := { session.next.cipher with replay := w } }, second, ?_, ?_⟩
  · intro a ha m
    rw [List.cons_append, List.mem_cons, List.mem_append, List.mem_singleton] at ha
    rcases ha with rfl | ha | rfl
    · rfl
    · obtain ⟨pkt, rand, rfl⟩ := hall a ha
      rfl
    · rfl
  · rw [run_snoc, hheard, h.eq]
    refine ⟨?_, hstate, ?_, rfl, rfl, rfl, ?_, rfl, ⟨slot', ?_⟩, hids, hbelow⟩
    · rfl
    · show isCounterExhausted (session.cipher.sendCounter + 1) = false
      rw [hzero]
      rfl
    · exact congrArg some (Nat.zero_add _)
    · have hone : server.next.cipher.sendCounter = 1 := by
        rw [next, hzero']
        rfl
      rw [← hone]
      exact hear ▸ hsecond

variable {s : WireSession}

theorem takeProbe_due (haead : CipherSession.AeadTotal P) {now : ℕ} (hget : m.session = some s)
    (hstate : s.state = .established) (hfresh : isCounterExhausted s.cipher.sendCounter = false)
    (hready : m.ready = true) (hdue : m.nextProbeAt = some now) :
    ∃ packet, m.takeProbe P now = (some (.sendPacket packet m.peer),
      { m with
        nextProbeAt := some (now + m.limits.livenessProbeInterval)
        session := some s.next
        encrypted := m.encrypted ++ s.sealing (.ok packet)
        roundsUnanswered := saturatingAddU32 m.roundsUnanswered 1 }) := by
  obtain ⟨packet, -, henc, -, -, -⟩ := encrypt_says haead hstate hfresh .handshake
    (Control.length_slot Control.probe)
  refine ⟨packet, ?_⟩
  simp only [takeProbe, hdue, lt_irrefl, if_false, buildProbe, hget, henc, stored, hready, if_true,
    Except.toOption]

theorem Confirmed.slot {limits : SessionLimits} {m : ClientSessionManager Sample.types}
    {pkt : WirePacket} (h : Confirmed limits m s pkt) {t : ℕ}
    (ht : limits.livenessProbeInterval = t) :
    probesOn Sample.primitives m (.takeSlot t t) = some s.next ∧
      ∃ m', (call Sample.primitives m (.takeSlot t t)).2 = m' ∧
        m'.session = some s.next ∧ m'.hs = none ∧ m'.ready = true ∧ m'.roundsUnanswered = 1 ∧
        m'.limits = limits ∧ m.limits = limits := by
  subst ht
  have haead := sample_aeadTotal
  have hback := h.backlog
  simp only [ClientSessionManager.backlog, Prod.mk.injEq] at hback
  obtain ⟨hqueue, hcount, hlast, hlimits⟩ := hback
  have hopen : m.SlotOpen limits.livenessProbeInterval := by
    constructor
    · rw [h.session]
      rfl
    · rw [hlast]
      rfl
  have hqueued : m.takeQueuedPayload Sample.primitives limits.livenessProbeInterval
      limits.livenessProbeInterval =
      (none, { m with outQueue := [], droppedOutbound := 0 }) := by
    rw [takeQueuedPayload, expireQueued_eq, freshQueue, staleQueue, hqueue, hcount]
    rfl
  obtain ⟨packet, hprobe⟩ := takeProbe_due
    (m := { m with outQueue := [], droppedOutbound := 0 }) haead h.session h.state h.fresh h.ready
    h.probe
  constructor
  · rw [probesOn, if_pos ⟨h.ready, hopen⟩, hqueued]
    dsimp only
    rw [hprobe]
  · simp only [call, takeSlot_probe hopen hqueued hprobe]
    refine ⟨_, rfl, rfl, h.hs, h.ready, ?_, hlimits, hlimits⟩
    rw [h.rounds]
    rfl

theorem tick_gives_up {m : ClientSessionManager T} (hidle : m.hs = none) (hget : m.session = some s)
    (hready : m.ready = true) (hcap : m.limits.lifetimeCap = none)
    (hrounds : m.limits.livenessRounds ≤ m.roundsUnanswered) (now : ℕ) :
    lostPeers (m.tick P now).1 ≠ [] ∧ (m.tick P now).2.session = none := by
  have hpeer : m.peerUnresponsive = true := by simp [peerUnresponsive, hready, hrounds]
  have henforced := enforced_cases (P := P) (m := m) (Or.inl hidle) now
  have hevs := tick_events (P := P) m now
  have hleft : (m.tick P now).2.session = (m.enforced P now).2.session := by rw [tick_left]; rfl
  rw [hevs, hleft, lostPeers_append, lostPeers_append, lostPeers_append]
  generalize m.enforced P now = r at henforced
  cases henforced with
  | kept _ hsession =>
    rcases hsession with hnone | hnot
    · rw [hget] at hnone
      cases hnone
    · exact absurd (Or.inr (Or.inr ⟨rfl, hpeer⟩)) (hnot .peerUnresponsive)
  | gaveUp hs hsome =>
    rw [hidle] at hsome
    cases hsome
  | closed session reason _ hget' hdue =>
    refine ⟨?_, (teardown_tornDown hget' now true).session⟩
    obtain rfl : reason = .peerUnresponsive := by
      rcases hdue with ⟨-, hlife⟩ | ⟨-, hconfirm⟩ | ⟨hreason, -⟩
      · simp [lifetimePassed, hcap] at hlife
      · simp [confirmDeadlinePassed, hready] at hconfirm
      · exact hreason
    rw [lostPeers_append]
    simp [lostPeers]

theorem Confirmed.answers {limits : SessionLimits} {m m' : ClientSessionManager Sample.types}
    {pkt : WirePacket} (h : Confirmed limits m s pkt) (hget : m'.session = some s.next) (t : ℕ) :
    Answers Sample.primitives s.next (.datagram pkt sampleAddr (0 : UInt8) t) := by
  obtain ⟨slot, hseals⟩ := h.answer
  exact (datagram_heard (s := s.next) Channel.sample_correct hget h.state h.sid hseals (by decide)
    h.replay sampleAddr (0 : UInt8) t).1

/-- With one liveness round, a tick between a probe and its answer gives the peer up. -/
theorem one_round_gives_up : hastyLimits.validate = .ok () ∧
    ∃ calls, Prompt Sample.primitives (sampleClient hastyLimits) calls ∧
      lostPeers (events Sample.primitives (sampleClient hastyLimits) calls) ≠ [] := by
  refine ⟨rfl, ?_⟩
  obtain ⟨calls, s, pkt, hquiet, hconf⟩ := exists_sample_confirmed hastyLimits
  obtain ⟨hprobe, m', hslot, hget, hidle, hready, hrounds, hlimits, hsame⟩ :=
    hconf.slot (t := fromSecs 5) rfl
  obtain ⟨hlost, hgone⟩ := tick_gives_up (P := Sample.primitives) hidle hget hready
    (by rw [hlimits]; rfl) (by rw [hlimits, hrounds]; rfl) (fromSecs 5)
  refine ⟨calls ++ [.takeSlot (fromSecs 5) (fromSecs 5), .tick (fromSecs 5),
    .datagram pkt sampleAddr (0 : UInt8) (fromSecs 5)], ?_, ?_⟩
  · refine prompt_append hquiet _ ⟨fun s' hs' => ?_, ?_, ?_, trivial⟩
    · obtain rfl := Option.mem_unique hprobe hs'
      rw [hslot, hsame]
      refine Or.inr ⟨rfl, Or.inl ⟨?_, Or.inr ⟨?_, hconf.answers hget (fromSecs 5)⟩⟩⟩
      · show fromSecs 5 < fromSecs 5 + hastyLimits.livenessProbeInterval
        decide
      · simp [call, sessionId, hgone]
    · simp [probesOn]
    · simp [probesOn]
  · rw [events, outputs_append, lostPeers_append]
    intro hnil
    have hrest := (List.append_eq_nil_iff.mp hnil).2
    rw [outputs, outputs, lostPeers_append, ← run, hslot, lostPeers_append] at hrest
    exact hlost (List.append_eq_nil_iff.mp (List.append_eq_nil_iff.mp hrest).2).1

/-- On the default limits a sample session whose first probe is answered is kept. -/
theorem prompt_peer_kept_sample : ∃ calls,
    probes Sample.primitives (sampleClient {}) calls ≠ [] ∧
      Prompt Sample.primitives (sampleClient {}) calls ∧
      lostPeers (events Sample.primitives (sampleClient {}) calls) = [] := by
  have hnew : new sampleClientConfig {} = .ok (sampleClient {}) := new_sampleClient rfl
  obtain ⟨calls, s, pkt, hquiet, hconf⟩ := exists_sample_confirmed {}
  obtain ⟨hprobe, m', hslot, hget, -, -, -, -, hsame⟩ := hconf.slot (t := fromSecs 5) rfl
  have hprompt : Prompt Sample.primitives (sampleClient {})
      (calls ++ [.takeSlot (fromSecs 5) (fromSecs 5),
        .datagram pkt sampleAddr (0 : UInt8) (fromSecs 5), .tick (fromSecs 5)]) := by
    refine prompt_append hquiet _ ⟨fun s' hs' => ?_, ?_, ?_, trivial⟩
    · obtain rfl := Option.mem_unique hprobe hs'
      rw [hslot, hsame]
      refine Or.inl ⟨?_, Or.inl ⟨s.next, hget, hconf.answers hget (fromSecs 5)⟩⟩
      show fromSecs 5 < fromSecs 5 + ({} : SessionLimits).livenessProbeInterval
      decide
    · simp [probesOn]
    · simp [probesOn]
  refine ⟨_, ?_, hprompt, (prompt_peer_kept Sample.primitives hnew _).1 (by decide) hprompt⟩
  rw [probes, outputs_append, outputs, ← run, hprobe]
  simp

end Sample

end PqTunnel.ClientSessionManager
