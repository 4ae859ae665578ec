import PqTunnel.Manager.ClientEstablish
import PqTunnel.Manager.ServerInvariant

/-! What an exhausted send counter does to the session of the client. An encryption that meets it
takes the session out of the established state. The senders of payloads and covers then close the
session; the builder of probes does not. -/
namespace PqTunnel.ClientSessionManager
open Transition WireSession

variable {T : CryptoTypes} {P : Primitives T} {m m' : ClientSessionManager T} {now : ℕ}

def CanSend (m : ClientSessionManager T) : Prop :=
  ∀ s, m.session = some s → isCounterExhausted s.cipher.sendCounter = false

/-- A call that builds a probe finds the send counter below its limit. -/
def ProbesInTime (m : ClientSessionManager T) : Call T → Prop
  | .takeSlot t _ => m.probeSlot t = true → CanSend m
  | .onTimer _ => m.resendsM3 = true → CanSend m
  | _ => True

def Steady (m : ClientSessionManager T) : Prop := ∀ s, m.session = some s → s.state = .established

section Encryption

variable {s : WireSession} {msgType : MessageType} {payload : Bytes}

theorem sealPacket_in_time {c : CipherSession} (hfresh : isCounterExhausted c.sendCounter = false)
    (n : UInt64) : c.sealPacket P msgType payload ≠ .error (.nonceExhausted n) := by
  simp only [CipherSession.sealPacket, hfresh, Bool.false_eq_true, if_false]
  split
  · simp
  · rename_i hlen
    cases hinner : InnerPlaintext.new msgType c.role.sendDirection payload with
    | error e =>
      rw [InnerPlaintext.new, dif_neg hlen] at hinner
      cases hinner
    | ok inner =>
      dsimp only
      cases P.aeadEncrypt c.sendKey c.nextNonce inner.encode.toList c.nextHeader.encode.toList with
      | error e => simp
      | ok ct =>
        simp only [WirePacket.fromParts]
        split_ifs <;> simp

theorem cipherEncrypt_in_time {c : CipherSession}
    (hfresh : isCounterExhausted c.sendCounter = false) (n : UInt64) :
    (c.encrypt P msgType payload).1 ≠ .error (.nonceExhausted n) := by
  unfold CipherSession.encrypt
  cases hseal : c.sealPacket P msgType payload with
  | error e =>
    intro h
    exact sealPacket_in_time hfresh n (hseal.trans h)
  | ok packet =>
    rw [(CipherSession.checkedSucc_of_not_exhausted hfresh).1]
    simp

theorem encrypt_in_time (hfresh : isCounterExhausted s.cipher.sendCounter = false) :
    (s.encrypt P msgType payload).1 ≠ .error .rekeyRequired := by
  unfold encrypt requireEstablished
  split_ifs
  · dsimp only
    split
    · simp
    · rename_i heq
      exact absurd (congrArg Prod.fst heq) (cipherEncrypt_in_time hfresh _)
    · simp
  · simp

theorem decrypt_state {pkt : WirePacket} (h : (s.decrypt P pkt).1 ≠ .error .rekeyRequired) :
    (s.decrypt P pkt).2.state = s.state := by
  obtain ⟨st, w, hframe, hst | ⟨-, hspent⟩⟩ := s.decrypt_frame (P := P) pkt
  · rw [hframe, hst]
  · exact absurd hspent h

end Encryption

section Steps

theorem steady_of_none (h : m.session = none) : Steady m := by
  intro s hs
  rw [h] at hs
  cases hs

theorem teardown_session (m : ClientSessionManager T) (now : ℕ) (sendClose : Bool) :
    (m.teardown P now sendClose).2.session = none := by
  cases hget : m.session with
  | none => rw [teardown, hget]; exact hget
  | some s => exact (teardown_tornDown hget now sendClose).session

theorem steady_of_session {s : WireSession} (hget : m.session = some s)
    (hstate : s.state = .established) : Steady m := by
  intro t ht
  obtain rfl := Option.mem_unique hget ht
  exact hstate

theorem steady_probe {probe : Option WirePacket} (hbuild : m.buildProbe P = (probe, m'))
    (h : Steady m) (hsend : CanSend m) : Steady m' := by
  cases probed_of_eq hbuild with
  | sent session packet _ hget henc =>
    obtain ⟨-, rfl⟩ := encrypt_ok henc
    exact steady_of_session rfl (h session hget)
  | spent session hget henc =>
    exact absurd (congrArg Prod.fst henc) (encrypt_in_time (hsend session hget))
  | unsent => exact h

theorem Plain.sound {r : Except (Fault ManagerError) ManagerEvent} (hr : Plain m r) (h : Steady m)
    (a b : ProtocolState) : errorOf r ≠ some (.err (.session (.wrongState a b))) := by
  cases hr with
  | none => simp [errorOf]
  | failed e he => exact fun heq => he h a b (Option.some.inj heq)

/-- In a steady state nothing fails on the state of the session, and only the probe of a
retransmission can take the session out of it. -/
theorem Does.steady {c : Call T} {r : ClientStep T} (hdoes : Does P m c r) (h : Steady m) :
    ((∀ now, c = .onTimer now → m.resendsM3 = true → CanSend m) → Steady r.2) ∧
      ∀ a b, errorOf r.1 ≠ some (.err (.session (.wrongState a b))) := by
  have hgone : ∀ {m₁ : ClientSessionManager T} {now sendClose},
      Steady (m₁.teardown P now sendClose).2 := steady_of_none (teardown_session ..)
  cases hdoes with
  | idle _ r hr | drew _ _ _ _ _ _ r hr => exact ⟨fun _ => h, hr.sound h⟩
  | stepped _ _ _ _ r' _ _ _ _ hr =>
    rcases hr with hr | ⟨_, -, rfl⟩
    · exact ⟨fun _ => h, hr.sound h⟩
    · exact ⟨fun _ => h, by simp [errorOf]⟩
  | adopted _ _ _ _ _ session _ _ _ _ _ _ _ hnew hbuild =>
    have hstate := (established_ok hnew).1
    refine ⟨fun _ => steady_probe hbuild (steady_of_session rfl hstate) fun s hs => ?_,
      by simp [errorOf]⟩
    obtain rfl := Option.some.inj hs
    exact established_not_exhausted hnew
  | resent now _ _ hdue hbuild =>
    exact ⟨fun hsend => steady_probe hbuild h (hsend now rfl hdue), by simp [errorOf]⟩
  | sent _ session _ _ _ _ _ hget henc =>
    obtain ⟨-, rfl⟩ := encrypt_ok henc
    exact ⟨fun _ => steady_of_session rfl (h session hget), by simp [errorOf]⟩
  | unread _ _ _ _ session r hread hr _ hlive =>
    refine ⟨fun _ => steady_of_session rfl ?_, hr.sound h⟩
    rw [decrypt_state fun heq => hlive .nonceExhausted (by rw [heq]; rfl)]
    exact h session hread.get
  | read _ _ _ _ session _ _ hread hopen =>
    refine ⟨fun _ => steady_of_session rfl ?_, by simp [errorOf]⟩
    rw [decrypt_state (by simp [hopen])]
    exact h session hread.get
  | spent | hungUp | died | closed => exact ⟨fun _ => hgone, by simp [errorOf]⟩
  | _ => exact ⟨fun _ => h, by simp [errorOf]⟩

theorem Steady.takeSlot (h : Steady m) {t clock : ℕ} (hprobe : m.probeSlot t = true → CanSend m) :
    Steady (m.takeSlot P t clock).2 := by
  have hslot := m.takeSlot_slot (P := P) t clock
  generalize m.takeSlot P t clock = r at hslot ⊢
  cases hslot with
  | flushed _ _ _ _ _ _ hdoes => exact (hdoes.steady h).1 (by simp)
  | unsent _ _ hslot _ _ hbuild => exact steady_probe hbuild h (hprobe hslot)
  | probed _ _ hslot _ _ _ hbuild =>
    have hsteady := steady_probe hbuild h (hprobe hslot)
    exact hsteady
  | _ => exact h

theorem Steady.tick (h : Steady m) (now : ℕ) : Steady (m.tick P now).2 := by
  obtain ⟨-, hkeeps, -⟩ := beforeFlush_rule (P := P) (R := fun m _ m' => Steady m → Steady m')
    (fun _ => id) (fun h h' => h' ∘ h) (fun _ _ _ => id)
    (fun m _ _ _ _ => steady_of_none (teardown_session m now true)) (fun _ _ _ => id) m
  exact hkeeps h

/-- In a steady state no call fails on the state of the session, and a call that builds its probe
in time leaves a steady state. -/
theorem Steady.call (h : Steady m) (c : Call T) :
    (ProbesInTime m c → Steady (call P m c).2) ∧
      ∀ a b, fault P m c ≠ some (.err (.session (.wrongState a b))) := by
  rcases call_does P m c with ⟨t, clock, rfl⟩ | ⟨now, rfl⟩ | ⟨r, hdoes, hcall, hfault⟩
  · exact ⟨h.takeSlot, by simp [fault]⟩
  · exact ⟨fun _ => h.tick now, by simp [fault]⟩
  · rw [hcall, hfault]
    refine ⟨fun hprobes => (hdoes.steady h).1 ?_, (hdoes.steady h).2⟩
    rintro now rfl
    exact hprobes

theorem steady_run (h : Steady m) {calls : List (Call T)}
    (hprobes : Along (fun m c => (ClientSessionManager.call P m c).2) ProbesInTime m calls) :
    Steady (run P m calls) := by
  induction calls generalizing m with
  | nil => exact h
  | cons c calls ih => exact ih ((h.call c).1 hprobes.1) hprobes.2

end Steps

section Liveness

/-- What a call keeps of the session it finds, if it does not take it down. -/
structure Carries (m m' : ClientSessionManager T) : Prop where
  limits : m'.limits = m.limits
  session : m'.session = none ∨
    (∃ s s', m.session = some s ∧ m'.session = some s' ∧ s'.sessionId = s.sessionId) ∧
      m'.ready = m.ready ∧ min m.roundsUnanswered (2 ^ 32 - 1) ≤ m'.roundsUnanswered

theorem Carries.refl (m : ClientSessionManager T) : Carries m m := by
  refine ⟨rfl, ?_⟩
  cases hget : m.session with
  | none => exact Or.inl rfl
  | some s => exact Or.inr ⟨⟨s, s, rfl, rfl, rfl⟩, rfl, min_le_left ..⟩

theorem Carries.trans {m'' : ClientSessionManager T} (h : Carries m m') (h' : Carries m' m'') :
    Carries m m'' := by
  refine ⟨h'.limits.trans h.limits, ?_⟩
  rcases h'.session with hnone | ⟨⟨s', s'', hs', hs'', hid'⟩, hready', hrounds'⟩
  · exact Or.inl hnone
  · rcases h.session with hnone | ⟨⟨s, t, hs, ht, hid⟩, hready, hrounds⟩
    · rw [hnone] at hs'
      cases hs'
    · obtain rfl := Option.mem_unique ht hs'
      exact Or.inr ⟨⟨s, s'', hs, hs'', hid'.trans hid⟩, hready'.trans hready,
        (le_min hrounds (min_le_right ..)).trans hrounds'⟩

theorem Carries.congr {m₁ m₁' : ClientSessionManager T} (h : Carries m m')
    (hm : m₁.limits = m.limits ∧ m₁.session = m.session ∧ m₁.ready = m.ready ∧
      m₁.roundsUnanswered = m.roundsUnanswered)
    (hm' : m₁'.limits = m'.limits ∧ m₁'.session = m'.session ∧ m₁'.ready = m'.ready ∧
      m₁'.roundsUnanswered = m'.roundsUnanswered) : Carries m₁ m₁' := by
  obtain ⟨hlimits, hsession⟩ := h
  refine ⟨by rw [hm'.1, hlimits, hm.1], ?_⟩
  rw [hm'.2.1, hm'.2.2.1, hm'.2.2.2, hm.2.1, hm.2.2.1, hm.2.2.2]
  exact hsession

theorem carries_same (hlimits : m'.limits = m.limits) (hsession : m'.session = m.session)
    (hready : m'.ready = m.ready) (hrounds : m'.roundsUnanswered = m.roundsUnanswered) :
    Carries m m' :=
  (Carries.refl m).congr ⟨rfl, rfl, rfl, rfl⟩ ⟨hlimits, hsession, hready, hrounds⟩

theorem carries_probe {probe : Option WirePacket} (hbuild : m.buildProbe P = (probe, m')) :
    Carries m m' := by
  cases probed_of_eq hbuild with
  | sent session packet _ hget henc =>
    obtain ⟨-, rfl⟩ := encrypt_ok henc
    exact ⟨rfl, Or.inr ⟨⟨session, _, hget, rfl, rfl⟩, rfl, min_le_left ..⟩⟩
  | spent session hget =>
    exact ⟨rfl, Or.inr ⟨⟨session, _, hget, rfl, rfl⟩, rfl, min_le_left ..⟩⟩
  | unsent => exact .refl m

/-- The datagram, if it is one, is not an authentic packet of the session. -/
def Unanswered (P : Primitives T) (m : ClientSessionManager T) : Call T → Prop
  | .datagram pkt _ _ _ => isHandshakeFragment pkt = false → ∀ s, m.session = some s →
    pkt.sid = s.sessionId → ∀ inner, (s.decrypt P pkt).1 ≠ .ok inner
  | _ => True

theorem Does.carries {c : Call T} {r : ClientStep T} (hdoes : Does P m c r)
    (hsome : m.session.isSome) (hsilent : Unanswered P m c) : Carries m r.2 := by
  cases hdoes with
  | adopted _ _ _ _ _ _ _ _ _ _ hfree | began _ _ _ _ _ _ _ _ _ _ _ _ hfree => simp [hfree] at hsome
  | resent _ _ _ _ hbuild =>
    exact (carries_probe hbuild).congr ⟨rfl, rfl, rfl, rfl⟩ ⟨rfl, rfl, rfl, rfl⟩
  | sent _ session _ _ _ _ _ hget henc =>
    obtain ⟨-, rfl⟩ := encrypt_ok henc
    exact ⟨rfl, Or.inr ⟨⟨session, _, hget, rfl, rfl⟩, rfl, min_le_left ..⟩⟩
  | unread pkt _ _ _ session _ hread =>
    obtain ⟨st, w, hframe, -⟩ := session.decrypt_frame (P := P) pkt
    exact ⟨rfl, Or.inr ⟨⟨session, _, hread.get, rfl, by rw [hframe]⟩, rfl, min_le_left ..⟩⟩
  | read _ _ _ _ session inner _ hread hopen =>
    exact absurd hopen (hsilent hread.data session hread.get hread.sid inner)
  | spent | hungUp | died =>
    exact ⟨(teardown_tornDown rfl _ _).limits, Or.inl (teardown_session ..)⟩
  | closed now _ hget => exact ⟨(teardown_tornDown hget now true).limits, Or.inl (teardown_session ..)⟩
  | _ => exact carries_same rfl rfl rfl rfl

theorem carries_takeSlot (m : ClientSessionManager T) (t clock : ℕ) :
    Carries m (m.takeSlot P t clock).2 := by
  have hslot := m.takeSlot_slot (P := P) t clock
  generalize m.takeSlot P t clock = r at hslot ⊢
  cases hslot with
  | shut => exact .refl m
  | flushed hopen _ _ _ _ _ hdoes =>
    exact (hdoes.carries hopen.1 trivial).congr ⟨rfl, rfl, rfl, rfl⟩ ⟨rfl, rfl, rfl, rfl⟩
  | drained => exact carries_same rfl rfl rfl rfl
  | unsent _ _ _ _ _ hbuild =>
    exact (carries_probe hbuild).congr ⟨rfl, rfl, rfl, rfl⟩ ⟨rfl, rfl, rfl, rfl⟩
  | probed _ _ _ _ m' _ hbuild =>
    have hprobed : Carries m m' :=
      (carries_probe hbuild).congr ⟨rfl, rfl, rfl, rfl⟩ ⟨rfl, rfl, rfl, rfl⟩
    refine hprobed.trans ⟨rfl, ?_⟩
    cases hget : m'.session with
    | none => exact Or.inl hget
    | some s =>
      refine Or.inr ⟨⟨s, s, rfl, hget, rfl⟩, rfl, ?_⟩
      simp only [counted, saturatingAddU32]
      split_ifs <;> omega

theorem carries_tick (m : ClientSessionManager T) (now : ℕ) : Carries m (m.tick P now).2 := by
  obtain ⟨-, hcarries, -⟩ := beforeFlush_rule (P := P) (R := fun m _ m' => Carries m m') .refl
    .trans (fun _ _ _ => carries_same rfl rfl rfl rfl)
    (fun m _ _ hget => ⟨(teardown_tornDown hget now true).limits, Or.inl (teardown_session ..)⟩)
    (fun _ _ _ => carries_same rfl rfl rfl rfl) m
  exact hcarries.congr ⟨rfl, rfl, rfl, rfl⟩ ⟨rfl, rfl, rfl, rfl⟩

/-- The session slots of a call that go to a probe. -/
def probeDeadlines (m : ClientSessionManager T) : Call T → List ℕ
  | .takeSlot t _ => if m.probeSlot t then [t] else []
  | _ => []

/-- A probe of a confirmed session that can send is counted. -/
theorem takeSlot_counts (haead : CipherSession.AeadTotal P) (hsteady : Steady m)
    (hsend : CanSend m) (hready : m.ready = true) {t : ℕ} (hslot : m.probeSlot t = true)
    (clock : ℕ) :
    (m.takeSlot P t clock).2.roundsUnanswered = saturatingAddU32 m.roundsUnanswered 1 := by
  simp only [probeSlot, Bool.and_eq_true, Bool.not_eq_true', List.isEmpty_iff] at hslot
  obtain ⟨⟨⟨hsome, hpaced⟩, hempty⟩, hdue⟩ := hslot
  obtain ⟨session, hget⟩ := Option.isSome_iff_exists.mp hsome
  obtain ⟨packet, henc⟩ := encrypt_next haead (hsteady session hget)
    (hsend session hget) .handshake (Control.length_slot Control.probe)
  have hbuild : ∃ m', ((m.expireQueued t).2.probing t).buildProbe P = (some packet, m') ∧
      m'.ready = m.ready ∧ m'.roundsUnanswered = m.roundsUnanswered := by
    have hget' : ((m.expireQueued t).2.probing t).session = some session := hget
    simp only [buildProbe, hget', henc, Except.toOption]
    exact ⟨_, rfl, rfl, rfl⟩
  obtain ⟨m', hbuild, hready', hrounds⟩ := hbuild
  rw [takeSlot_probe ((m.slotOpen_iff t).mpr ⟨hsome, hpaced⟩) (takeQueuedPayload_empty hempty clock)
    (takeProbe_builds (m := (m.expireQueued t).2) hdue hbuild)]
  change m'.counted.roundsUnanswered = _
  simp only [counted, hready', hready, if_true, hrounds]

/-- A confirmed session of which at least `k` probes in a row went unanswered. -/
structure Watched (sid : SessionId) (k : ℕ) (m : ClientSessionManager T) : Prop where
  session : ∃ s, m.session = some s ∧ s.sessionId = sid
  ready : m.ready = true
  rounds : min k (2 ^ 32 - 1) ≤ m.roundsUnanswered

variable {sid : SessionId} {k : ℕ}

theorem Watched.carry (h : Watched sid k m) (hc : Carries m m') (hheld : m'.session.isSome) :
    Watched sid k m' := by
  obtain ⟨s, hget, hid⟩ := h.session
  rcases hc.session with hnone | ⟨⟨s₁, s', hs, hs', hid'⟩, hready, hrounds⟩
  · rw [hnone] at hheld
    cases hheld
  · obtain rfl := Option.mem_unique hget hs
    exact ⟨⟨s', hs', hid'.trans hid⟩, hready.trans h.ready,
      (le_min h.rounds (min_le_right ..)).trans hrounds⟩

/-- While a confirmed session is held and its peer does not answer, every call keeps it so. -/
theorem Watched.carries_call (h : Watched sid k m) {c : Call T} (hsilent : Unanswered P m c) :
    Carries m (call P m c).2 := by
  obtain ⟨s, hget, -⟩ := h.session
  rcases call_does P m c with ⟨t, clock, rfl⟩ | ⟨now, rfl⟩ | ⟨r, hdoes, hcall, -⟩
  · exact carries_takeSlot m t clock
  · exact carries_tick m now
  · rw [hcall]
    exact hdoes.carries (by simp [hget]) hsilent

theorem Watched.call (h : Watched sid k m) (haead : CipherSession.AeadTotal P)
    (hsteady : Steady m) {c : Call T} (hprobes : ProbesInTime m c)
    (hsilent : Unanswered P m c) (hafter : (call P m c).2.session.isSome) :
    Watched sid (k + (probeDeadlines m c).length) (ClientSessionManager.call P m c).2 := by
  have hnext := h.carry (h.carries_call hsilent) hafter
  cases c with
  | takeSlot t clock =>
    rw [probeDeadlines]
    split_ifs with hslot
    · refine ⟨hnext.session, hnext.ready, ?_⟩
      have hcount := takeSlot_counts haead hsteady (hprobes hslot) h.ready hslot clock
      have hrounds := h.rounds
      simp only [ClientSessionManager.call, hcount, saturatingAddU32, List.length_singleton]
      omega
    · exact hnext
  | _ => exact hnext

theorem Watched.run (h : Watched sid k m) (haead : CipherSession.AeadTotal P)
    (hsteady : Steady m) {calls : List (Call T)}
    (hprobes : Along (fun m c => (ClientSessionManager.call P m c).2) ProbesInTime m calls)
    (hsilent : Along (fun m c => (ClientSessionManager.call P m c).2) (Unanswered P) m calls)
    (hafter : ∀ mid, mid <+: calls → (ClientSessionManager.run P m mid).session.isSome) :
    Watched sid (k + (outputs (fun m c => (ClientSessionManager.call P m c).2) probeDeadlines m
      calls).length) (ClientSessionManager.run P m calls) := by
  induction calls generalizing m k with
  | nil => exact h
  | cons c calls ih =>
    have hone := hafter [c] ⟨calls, rfl⟩
    have hrest := ih (h.call haead hsteady hprobes.1 hsilent.1 hone)
      ((hsteady.call c).1 hprobes.1) hprobes.2 hsilent.2
      fun mid hmid => hafter (c :: mid) (List.cons_prefix_cons.mpr ⟨rfl, hmid⟩)
    rw [outputs, List.length_append, ← Nat.add_assoc]
    exact hrest

theorem closeNow_closed {s : WireSession} (hget : m.session = some s) (reason : CloseReason)
    (now : ℕ) : .closed s.sessionId reason ∈ (m.closeNow P reason now).1 := by
  simp [closeNow, sessionId, hget]

/-- The tick closes a session with enough unanswered probes. -/
theorem Watched.tick (h : Watched sid k m) (hk : m.limits.livenessRounds ≤ k)
    (hmax : m.limits.livenessRounds < 2 ^ 32) (now : ℕ) :
    .closed sid .peerUnresponsive ∈ (m.tick P now).1 ∨
      m.lifetimePassed now = true ∧ .closed sid .lifetimeCap ∈ (m.tick P now).1 := by
  obtain ⟨s, hget, rfl⟩ := h.session
  have hsilent : m.peerUnresponsive = true := by
    have hrounds := h.rounds
    simp only [peerUnresponsive, h.ready, Bool.true_and, decide_eq_true_eq]
    omega
  have hsame : (m.expireHandshake now).2.session = m.session ∧
      (m.expireHandshake now).2.ready = m.ready ∧
      (m.expireHandshake now).2.peerUnresponsive = m.peerUnresponsive ∧
      (m.expireHandshake now).2.lifetimePassed now = m.lifetimePassed now := by
    rcases m.expireHandshake_cases now with heq | ⟨_, -, heq⟩ <;> rw [heq] <;>
      exact ⟨rfl, rfl, rfl, rfl⟩
  obtain ⟨hsession, hready, hquiet, hlife⟩ := hsame
  unfold ClientSessionManager.tick
  generalize m.expireHandshake now = r at hsession hready hquiet hlife
  obtain ⟨timedOut, m₁⟩ := r
  dsimp only at hsession hready hquiet hlife ⊢
  rw [hget] at hsession
  rw [hsilent] at hquiet
  cases hpassed : m₁.lifetimePassed now with
  | true =>
    right
    have hclosed := closeNow_closed (P := P) hsession .lifetimeCap now
    simp only [closeIf, if_true, List.mem_append]
    exact ⟨hlife.symm.trans hpassed, by tauto⟩
  | false =>
    left
    have hconfirm : m₁.confirmDeadlinePassed now = false := by
      rw [confirmDeadlinePassed, hready, h.ready, if_pos rfl]
    have hclosed := closeNow_closed (P := P) hsession .peerUnresponsive now
    simp only [closeIf, Bool.false_eq_true, if_false, hconfirm, hquiet, if_true, List.mem_append]
    tauto

end Liveness

theorem limits_act {evs : List ManagerEvent} (h : Act P now m evs m') : m'.limits = m.limits := by
  cases h with
  | quiet _ _ _ hsame => exact hsame.limits
  | ended _ session _ sendClose _ hget => exact (teardown_tornDown hget now sendClose).limits
  | closedByUser _ session _ hget => exact (teardown_tornDown hget now true).limits
  | _ => rfl

theorem limits_run (h : Held P m) (calls : List (Call T)) : (run P m calls).limits = m.limits := by
  induction calls generalizing m with
  | nil => rfl
  | cons c calls ih =>
    refine (ih (h.call c)).trans ?_
    exact (call_trace h c).keeps (fun hlim hact => (limits_act hact).trans hlim) rfl

/-- In every run whose probes find the counter below its limit, a held session is established, no
call fails on the state of the session, and a confirmed session that is held while its peer stays
silent over `livenessRounds` probe deadlines is closed by the next tick. -/
theorem session_stays_established (P : Primitives T) {cfg : ClientConfig T}
    {limits : SessionLimits} (hnew : new cfg limits = .ok m) {calls : List (Call T)}
    (hprobes : Along (fun m c => (call P m c).2) ProbesInTime m calls) :
    (∀ s, (run P m calls).session = some s → s.state = .established) ∧
    (∀ c a b, fault P (run P m calls) c ≠ some (.err (.session (.wrongState a b)))) ∧
    ∀ (s : WireSession) (more : List (Call T)) (now : ℕ), CipherSession.AeadTotal P →
      limits.livenessRounds < 2 ^ 32 → (run P m calls).session = some s →
      (run P m calls).ready = true →
      Along (fun m c => (call P m c).2) ProbesInTime (run P m calls) more →
      Along (fun m c => (call P m c).2) (Unanswered P) (run P m calls) more →
      (∀ mid, mid <+: more → (run P (run P m calls) mid).session.isSome) →
      limits.livenessRounds ≤ (outputs (fun m c => (call P m c).2) probeDeadlines (run P m calls)
        more).length →
      .closed s.sessionId .peerUnresponsive ∈ ((run P (run P m calls) more).tick P now).1 ∨
        (run P (run P m calls) more).lifetimePassed now = true ∧
          .closed s.sessionId .lifetimeCap ∈ ((run P (run P m calls) more).tick P now).1 := by
  obtain ⟨-, -, hlimits, -, hnone, -⟩ := new_ok hnew
  have hsteady := steady_run (steady_of_none hnone) hprobes
  refine ⟨hsteady, fun c => (hsteady.call c).2, ?_⟩
  intro s more now haead hmax hget hready hprobes' hsilent hheld hcount
  have hwatched : Watched s.sessionId 0 (run P m calls) := ⟨⟨s, hget, rfl⟩, hready, by simp⟩
  have hstart := held_run (P := P) (held_new hnew) calls
  have hafter := hwatched.run haead hsteady hprobes' hsilent hheld
  have hlim : (run P (run P m calls) more).limits = limits :=
    (limits_run hstart more).trans ((limits_run (held_new hnew) calls).trans hlimits)
  rw [Nat.zero_add] at hafter
  exact hafter.tick (by rw [hlim]; exact hcount) (by rw [hlim]; exact hmax) now

section Sample
open Exchange

/-- A session that waits for its confirmation, with retransmissions of the M3 left. -/
structure Unconfirmed (m : ClientSessionManager T) (s : WireSession) : Prop where
  hs : m.hs = none
  ready : m.ready = false
  left : m.m3Exhausted = false
  attempts : m.m3Attempts < m.cfg.m3MaxAttempts
  session : m.session = some s
  state : s.state = .established

variable {s : WireSession}

theorem Unconfirmed.send (h : Unconfirmed m s) (haead : CipherSession.AeadTotal P)
    (hfresh : isCounterExhausted s.cipher.sendCounter = false) :
    Unconfirmed (call P m (.appOutbound [] 0)).2
      s.next := by
  obtain ⟨packet, henc⟩ := encrypt_next haead h.state hfresh .data length_padSlot_nil
  simp only [call, appOutbound, List.length_nil, not_lt_zero, if_false, h.session,
    Option.isNone_some, Bool.false_eq_true, sendEncrypted, afterEncrypt, henc, stored]
  exact ⟨h.hs, h.ready, h.left, h.attempts, rfl, h.state⟩

theorem Unconfirmed.exists_exhausted (haead : CipherSession.AeadTotal P) (n : ℕ)
    (h : Unconfirmed m s) (hn : maxPacketNonce.toNat ≤ s.cipher.sendCounter.toNat + n) :
    ∃ calls s', Unconfirmed (run P m calls) s' ∧ s'.sessionId = s.sessionId ∧
      isCounterExhausted s'.cipher.sendCounter = true := by
  induction n generalizing m s with
  | zero =>
    refine ⟨[], s, h, rfl, decide_eq_true (UInt64.le_iff_toNat_le.mpr ?_)⟩
    omega
  | succ n ih =>
    cases hfresh : isCounterExhausted s.cipher.sendCounter with
    | true => exact ⟨[], s, h, rfl, hfresh⟩
    | false =>
      have hnext := (CipherSession.checkedSucc_of_not_exhausted hfresh).2
      obtain ⟨calls, s', hs', hid, hspent⟩ := ih (h.send haead hfresh) (by
        dsimp only [next]
        omega)
      exact ⟨.appOutbound [] 0 :: calls, s', hs', hid, hspent⟩

/-- The probe of a retransmission strands a session whose counter is used up. -/
theorem Unconfirmed.strand (h : Unconfirmed m s) (haead : CipherSession.AeadTotal P)
    (hspent : isCounterExhausted s.cipher.sendCounter = true) (now : ℕ) :
    (call P m (.onTimer now)).2.session = some { s with state := .rekey } ∧
      (call P m (.onTimer now)).2.hs = none := by
  have henc : s.encrypt P .handshake (Control.slot Control.probe) =
      (.error .rekeyRequired, { s with state := .rekey }) := by
    rcases s.encrypt_cases (P := P) .handshake (Control.slot Control.probe) with
      ⟨pkt, -, hfresh⟩ | heq | ⟨e, hne, heq⟩
    · rw [hspent] at hfresh
      cases hfresh
    · exact heq
    · rcases s.encrypt_established haead h.state .handshake
        (Control.length_slot Control.probe) with ⟨pkt, hok⟩ | hfail
      · rw [heq] at hok
        cases hok
      · rw [heq] at hfail
        exact absurd (Except.error.inj hfail) hne
  simp only [call, onTimer, h.hs, h.session, Option.isNone_some, h.ready, h.left, Bool.or_false,
    Bool.false_eq_true, if_false, not_le.mpr h.attempts, buildProbe, henc, stored]
  exact ⟨trivial, trivial⟩

def strayPacket (sid : SessionId) : WirePacket := fragmentPacket 0 protocolVersion 0 sid [] 0

theorem strayPacket_data (sid : SessionId) : isHandshakeFragment (strayPacket sid) = false := by
  have htype : hsTypeOf (strayPacket sid) = 0 := by
    rw [hsTypeOf, WirePacket.byteAt, strayPacket, toList_fragmentPacket, ← List.cons_append]
    apply getD_append_at
    simp [sid.toList_length]
    rfl
  rw [isHandshakeFragment, htype]
  rfl

/-- A session in another state than established fails every packet of its id. -/
theorem stranded_fails (hget : m.session = some s) (hstate : s.state = .rekey)
    (src : SocketAddr) (rand : T.KemRand) (now : ℕ) :
    fault P m (.datagram (strayPacket s.sessionId) src rand now) =
      some (.err (.session (.wrongState .established .rekey))) := by
  have hsid : (strayPacket s.sessionId).sid = s.sessionId := sid_fragmentPacket ..
  simp only [fault, handleDatagram, strayPacket_data, Bool.false_eq_true, if_false, onDataPacket,
    hget, hsid, ne_eq, not_true_eq_false, decrypt, requireEstablished,
    hstate, reduceCtorEq, dataResult, errorOf]

theorem exists_sample_unconfirmed : ∃ calls s,
    Unconfirmed (run Sample.primitives (sampleClient {}) calls) s := by
  obtain ⟨calls, packets, outcome, session, probe, -, h⟩ := exists_sample_adopted {} 0
  refine ⟨sampleBegin 0 :: calls, session.next, ?_⟩
  rw [h.eq]
  exact ⟨rfl, rfl, rfl, Nat.succ_pos 2, rfl, (established_ok h.new).1⟩

/-- A run after which the session is held in the rekey state, and every packet of its session id
makes the manager fail. -/
theorem probe_strands_session :
    ∃ m calls s, new sampleClientConfig {} = .ok m ∧
      (run Sample.primitives m calls).session = some s ∧ s.state = .rekey ∧
      fault Sample.primitives (run Sample.primitives m calls)
        (.datagram (strayPacket s.sessionId) sampleAddr (5 : UInt8) 0) =
          some (.err (.session (.wrongState .established .rekey))) := by
  obtain ⟨calls, s, hs⟩ := exists_sample_unconfirmed
  obtain ⟨more, s', hs', -, hspent⟩ := hs.exists_exhausted CipherSession.sample_aeadTotal
    maxPacketNonce.toNat (Nat.le_add_left ..)
  obtain ⟨hget, -⟩ := hs'.strand CipherSession.sample_aeadTotal hspent 0
  refine ⟨sampleClient {}, calls ++ more ++ [.onTimer 0], { s' with state := .rekey },
    new_sampleClient rfl, ?_, rfl, ?_⟩
  · rw [run_snoc, run_append]
    exact hget
  · rw [run_snoc, run_append]
    exact stranded_fails hget rfl sampleAddr (5 : UInt8) 0

theorem along_allFrom {src : SocketAddr} {t : ℕ} {calls : List (Call T)}
    (h : AllFrom src t calls) :
    Along (fun m c => (call P m c).2) ProbesInTime m calls := by
  induction calls generalizing m with
  | nil => trivial
  | cons c calls ih =>
    obtain ⟨pkt, rand, rfl⟩ := h c List.mem_cons_self
    exact ⟨trivial, ih fun a ha => h a (List.mem_cons_of_mem _ ha)⟩

theorem session_stays_established_sample :
    ∃ calls s, (run Sample.primitives (sampleClient {}) calls).session = some s ∧
      s.state = .established := by
  obtain ⟨calls, packets, outcome, session, probe, hall, h⟩ := exists_sample_adopted {} 0
  have hget : (run Sample.primitives (sampleClient {}) (sampleBegin 0 :: calls)).session =
      some session.next := by
    rw [h.eq]
    rfl
  have halong : Along (fun m c => (call Sample.primitives m c).2) ProbesInTime (sampleClient {})
      (sampleBegin 0 :: calls) := ⟨trivial, along_allFrom hall⟩
  exact ⟨sampleBegin 0 :: calls, _, hget, (session_stays_established Sample.primitives
    (new_sampleClient rfl) halong).1 _ hget⟩

end Sample

end PqTunnel.ClientSessionManager
