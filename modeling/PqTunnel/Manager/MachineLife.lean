import PqTunnel.Manager.KeyLifetime

/-! The life of the client's handshake machine: it is held only while it awaits M2, and every M3
burst belongs to the handshake whose session the manager holds. -/
namespace PqTunnel.ClientSessionManager
open Transition
open ServerSessionManager (returned)

variable {T : CryptoTypes} {P : Primitives T} {m m' m'' : ClientSessionManager T}
  {evs evs' : List ManagerEvent} {session : WireSession} {now : ℕ}

/-- No handshake burst among the events. -/
def NoBurst (evs : List ManagerEvent) : Prop := ∀ packets dest, .send packets dest ∉ evs

theorem noBurst_nil : NoBurst [] := fun _ _ => List.not_mem_nil

theorem NoBurst.append (h : NoBurst evs) (h' : NoBurst evs') : NoBurst (evs ++ evs') := by
  intro packets dest hmem
  rcases List.mem_append.mp hmem with hmem | hmem
  · exact h packets dest hmem
  · exact h' packets dest hmem

theorem noBurst_singleton {ev : ManagerEvent} (h : ∀ packets dest, ev ≠ .send packets dest) :
    NoBurst [ev] :=
  fun packets dest hmem => h packets dest (List.mem_singleton.mp hmem).symm

/-- What the manager does beside its handshakes: it may drop its machine or its session, but it
makes neither, it keeps the M3 of a session it keeps, and it sends no burst. -/
structure Aside (m : ClientSessionManager T) (evs : List ManagerEvent)
    (m' : ClientSessionManager T) : Prop where
  hs : m'.hs = m.hs ∨ m'.hs = none
  begun : m'.begun = m.begun
  outcomes : m'.outcomes = m.outcomes
  retired : m.session = none → m'.retiredSids = m.retiredSids
  session : ∀ s', m'.session = some s' →
    m'.m3Frags = m.m3Frags ∧ ∃ s, m.session = some s ∧ s'.keys = s.keys
  queue : QueueOk m → QueueOk m'
  noBurst : NoBurst evs

namespace Aside

theorem refl (m : ClientSessionManager T) (h : NoBurst evs) : Aside m evs m :=
  ⟨Or.inl rfl, rfl, rfl, fun _ => rfl, fun s hs => ⟨rfl, s, hs, rfl⟩, id, h⟩

theorem session_none (h : Aside m evs m') (hfree : m.session = none) : m'.session = none := by
  cases hget : m'.session with
  | none => rfl
  | some s' =>
    obtain ⟨-, s, hs, -⟩ := h.session s' hget
    cases hs.symm.trans hfree

theorem trans (h : Aside m evs m') (h' : Aside m' evs' m'') : Aside m (evs ++ evs') m'' := by
  refine ⟨?_, h'.begun.trans h.begun, h'.outcomes.trans h.outcomes, ?_, ?_,
    fun hq => h'.queue (h.queue hq), h.noBurst.append h'.noBurst⟩
  · rcases h'.hs with heq | hnone
    · rw [heq]
      exact h.hs
    · exact Or.inr hnone
  · intro hfree
    rw [h'.retired (h.session_none hfree), h.retired hfree]
  · intro s'' hs''
    obtain ⟨hfrags', s', hs', hkeys'⟩ := h'.session s'' hs''
    obtain ⟨hfrags, s, hs, hkeys⟩ := h.session s' hs'
    exact ⟨hfrags'.trans hfrags, s, hs, hkeys'.trans hkeys⟩

end Aside

theorem aside_session (session' : WireSession) (hget : m.session = some session)
    (hkeys : session'.keys = session.keys) (encrypted : List Sealing) (ready : Bool) (rounds : ℕ)
    (peer : SocketAddr) : Aside m [] { m with
      session := some session', encrypted, ready, roundsUnanswered := rounds, peer } := by
  refine ⟨Or.inl rfl, rfl, rfl, fun _ => rfl, fun s' hs' => ⟨rfl, session, hget, ?_⟩, id,
    noBurst_nil⟩
  obtain rfl := Option.some.inj hs'
  exact hkeys

theorem aside_encrypt {msgType : MessageType} {payload : Bytes} {session' : WireSession}
    {r : Except SessionError WirePacket} (hget : m.session = some session)
    (henc : session.encrypt P msgType payload = (r, session')) :
    Aside m [] (m.stored session (r, session')) := by
  have hkeys := session.encrypt_keys (P := P) msgType payload
  rw [henc] at hkeys
  exact aside_session session' hget hkeys _ _ _ _

theorem aside_probe {probe : Option WirePacket} (h : m.buildProbe P = (probe, m')) :
    Aside m [] m' := by
  cases probed_of_eq h with
  | sent session _ _ hget henc => exact aside_encrypt hget henc
  | spent session hget =>
    exact aside_session { session with state := .rekey } hget rfl _ _ _ _
  | unsent => exact .refl m noBurst_nil

theorem aside_teardown (hget : m.session = some session) (now : ℕ) (sendClose : Bool) :
    Aside m (m.teardown P now sendClose).1.toList (m.teardown P now sendClose).2 := by
  have hgone : ∀ {α : Prop}, m.session = none → α := fun hfree => by cases hget.symm.trans hfree
  obtain ⟨_, _, heq | ⟨_, _, -, heq⟩⟩ := teardown_cases (P := P) hget now sendClose <;> rw [heq]
  · exact ⟨Or.inl rfl, rfl, rfl, fun h => hgone h, nofun, id, noBurst_nil⟩
  · exact ⟨Or.inl rfl, rfl, rfl, fun h => hgone h, nofun, id, noBurst_singleton (by simp)⟩

theorem noBurst_closed (sid : SessionId) (reason : CloseReason) : NoBurst [.closed sid reason] :=
  noBurst_singleton (by simp)

theorem Aside.ends {sendClose : Bool} (h : Aside m [] m') (hget : m'.session = some session)
    (hevs : NoBurst evs) : Aside m evs (m'.teardown P now sendClose).2 := by
  have hdown := h.trans (aside_teardown (P := P) hget now sendClose)
  exact ⟨hdown.hs, hdown.begun, hdown.outcomes, hdown.retired, hdown.session, hdown.queue, hevs⟩

/-- What a call does that neither begins a handshake nor runs its machine. -/
theorem Does.aside {c : Call T} {r : ClientStep T} (h : Does P m c r)
    (hbegin : ∀ draws kemSk xSk now, c ≠ .beginHandshake draws kemSk xSk now)
    (hc : c.machine = false) : Aside m (returned r.1) r.2 := by
  have hread : ∀ {pkt session}, Reads m pkt session → ∀ ready rounds peer, Aside m [] { m with
      session := some (session.decrypt P pkt).2, ready, roundsUnanswered := rounds, peer } := by
    intro pkt session hread ready rounds peer
    obtain ⟨st, w, hframe, -⟩ := session.decrypt_frame (P := P) pkt
    exact aside_session _ hread.get (by rw [hframe]; rfl) _ _ _ _
  cases h with
  | idle _ r hr =>
    rw [hr.returned]
    exact .refl m noBurst_nil
  | drew | began => exact absurd rfl (hbegin _ _ _ _)
  | stepped _ _ _ _ _ hrun | doubled _ _ _ _ hrun | adopted _ _ _ _ _ _ _ _ hrun =>
    cases hrun.symm.trans hc
  | timedOut | gaveUp | resent => cases hc
  | sent _ session _ _ _ _ _ hget henc =>
    exact (aside_encrypt hget henc).trans (.refl _ (noBurst_singleton (by simp)))
  | spent _ session _ _ _ hget =>
    exact (aside_session { session with state := .rekey } hget rfl _ _ _ _).ends rfl
      (noBurst_closed _ _)
  | queued =>
    exact ⟨Or.inl rfl, rfl, rfl, fun _ => rfl, fun s hs => ⟨rfl, s, hs, rfl⟩, id, noBurst_nil⟩
  | refused =>
    exact ⟨Or.inl rfl, rfl, rfl, fun _ => rfl, fun s hs => ⟨rfl, s, hs, rfl⟩, id,
      noBurst_singleton (by simp)⟩
  | unread _ _ _ _ _ r hr hplain =>
    rw [hplain.returned]
    exact hread hr m.ready m.roundsUnanswered m.peer
  | read _ src _ _ _ _ ev hr _ _ hev =>
    refine (hread hr true 0 src).trans (.refl _ ?_)
    rcases hev with rfl | rfl
    · exact noBurst_nil
    · exact noBurst_singleton (by simp)
  | hungUp _ src _ _ _ _ hr => exact (hread hr true 0 src).ends rfl (noBurst_closed _ _)
  | died _ _ _ _ _ hr =>
    exact (hread hr m.ready m.roundsUnanswered m.peer).ends rfl (noBurst_closed _ _)
  | closed now session hget =>
    have hdown := aside_teardown (P := P) hget now true
    refine ⟨hdown.hs, hdown.begun, hdown.outcomes, hdown.retired, hdown.session, ?_, ?_⟩
    · intro hqueue ev hev
      rcases List.mem_append.mp hev with hev | hev
      · exact hdown.queue hqueue ev hev
      · exact ⟨_, .userClosed, List.mem_singleton.mp hev⟩
    · rcases teardown_closes (P := P) hget now true with ⟨hev, -⟩ | ⟨_, _, -, hev, -⟩ <;> rw [hev]
      · exact noBurst_nil
      · exact noBurst_singleton (by simp)

theorem aside_expireQueued (m : ClientSessionManager T) (now : ℕ) :
    Aside m [] (m.expireQueued now).2 :=
  ⟨Or.inl rfl, rfl, rfl, fun _ => rfl, fun s hs => ⟨rfl, s, hs, rfl⟩, id, noBurst_nil⟩

theorem aside_takeSlot (m : ClientSessionManager T) (t now : ℕ) :
    Aside m ((m.takeSlot P t now).1.toList.flatMap (·.toList)) (m.takeSlot P t now).2 := by
  have hslot := takeSlot_slot (P := P) m t now
  generalize m.takeSlot P t now = res at hslot ⊢
  cases hslot with
  | shut => exact .refl m noBurst_nil
  | flushed _ q rest r _ _ hdoes =>
    have h := hdoes.aside (by simp) rfl
    rw [returned_eventOf]
    exact ⟨h.hs, h.begun, h.outcomes, h.retired, h.session, h.queue, h.noBurst⟩
  | drained => exact aside_expireQueued m t
  | unsent _ _ _ _ _ hbuild =>
    have h := aside_probe hbuild
    exact ⟨h.hs, h.begun, h.outcomes, h.retired, h.session, h.queue, noBurst_nil⟩
  | probed _ _ _ _ _ _ hbuild =>
    have h := aside_probe hbuild
    exact ⟨h.hs, h.begun, h.outcomes, h.retired, h.session, h.queue, noBurst_singleton (by simp)⟩

theorem noBurst_retransmitCloses (closes : List PendingClose) (now : ℕ) :
    NoBurst (retransmitCloses P closes now).1 := by
  intro packets dest hmem
  obtain ⟨pkt, peer, heq⟩ := retransmitCloses_sends hmem
  cases heq

theorem aside_tick (hqueue : QueueOk m) (now : ℕ) :
    Aside m (m.tick P now).1 (m.tick P now).2 := by
  obtain ⟨evs, hclosed, hevs⟩ := beforeFlush_rule (P := P) (.refl · noBurst_nil) .trans
    (fun m hs _ => ⟨Or.inr rfl, rfl, rfl, fun _ => rfl, fun s hs => ⟨rfl, s, hs, rfl⟩, id,
      noBurst_closed _ _⟩)
    (fun m session reason hget =>
      (aside_teardown hget now true).trans (.refl _ (noBurst_closed _ _)))
    (fun m evs hevs => by
      refine (aside_expireQueued m now).trans (.refl _ ?_)
      rcases hevs with rfl | ⟨n, rfl⟩
      · exact noBurst_nil
      · exact noBurst_singleton (by simp)) m
  have hpending : NoBurst (m.beforeFlush P now).pendingClosed := by
    intro packets dest hmem
    obtain ⟨sid, reason, heq⟩ := hclosed.queue hqueue _ hmem
    cases heq
  rw [hevs]
  exact ⟨hclosed.hs, hclosed.begun, hclosed.outcomes, hclosed.retired, hclosed.session,
    fun _ ev hev => absurd hev List.not_mem_nil,
    hclosed.noBurst.append (hpending.append (noBurst_retransmitCloses _ now))⟩

/-- The session comes from an outcome of the latest handshake, and the cached M3 is what the
machine gave with that outcome. -/
def Origin (P : Primitives T) (m : ClientSessionManager T) (session : WireSession) : Prop :=
  ∃ hs hs' outcome fresh, MachineStep P hs (.ok (.m3Sent m.m3Frags outcome)) hs' ∧
    (m.begun, outcome) ∈ m.outcomes ∧ WireSession.established P .client outcome = .ok fresh ∧
    session.keys = fresh.keys

/-- A burst is the M1 of the machine that awaits its answer, or the M3 of the handshake whose
session is held, with a probe of that session. -/
inductive Burst (P : Primitives T) (m : ClientSessionManager T) (packets : List WirePacket) :
    Prop where
  | hello (hs : ClientHandshake T) (hget : m.hs = some hs) (hwait : Awaiting hs)
      (hpackets : packets = hs.m1Frags)
      (htype : ∀ pkt ∈ packets, hsTypeOf pkt = hsTypeClientHello)
  | confirm (session : WireSession) (probe : Option WirePacket)
      (hget : m.session = some session) (horigin : Origin P m session)
      (hpackets : packets = m.m3Frags ++ probe.toList)
      (hprobe : ∀ pkt ∈ probe, ∃ s s' : WireSession, s.keys = session.keys ∧
        s.encrypt P .handshake (Control.slot Control.probe) = (.ok pkt, s'))

/-- The manager holds a machine only while it awaits M2, for an id that was never retired. -/
structure Orderly (P : Primitives T) (m : ClientSessionManager T) : Prop where
  held : Held P m
  queue : QueueOk m
  waits : ∀ hs, m.hs = some hs → Awaiting hs ∧ hs.sid ∉ m.retiredSids
  origin : ∀ session, m.session = some session → Origin P m session

/-- The ids that a new handshake may draw were not given to a session that was torn down. -/
def DrawsUnretired (m : ClientSessionManager T) : Call T → Prop
  | .beginHandshake draws _ _ _ =>
    ∀ sid, .ok sid ∈ draws.toList → sid ∉ m.usedSids → sid ∉ m.retiredSids
  | _ => True

theorem Orderly.aside (h : Orderly P m) (ha : Aside m evs m') (hheld : Held P m') :
    Orderly P m' := by
  refine ⟨hheld, ha.queue h.queue, ?_, ?_⟩
  · intro hs hget
    rcases ha.hs with heq | hnone
    · have hget' := heq.symm.trans hget
      rw [ha.retired (h.held.session_none hget')]
      exact h.waits hs hget'
    · cases hnone.symm.trans hget
  · intro s' hs'
    obtain ⟨hfrags, s, hs, hkeys⟩ := ha.session s' hs'
    obtain ⟨hc, hc', outcome, fresh, hstep, hmem, hnew, hfresh⟩ := h.origin s hs
    refine ⟨hc, hc', outcome, fresh, hfrags ▸ hstep, ?_, hnew, hkeys.trans hfresh⟩
    rw [ha.begun, ha.outcomes]
    exact hmem

theorem m1Frags_type {hs : ClientHandshake T} (hok : ClientHandshake.Ok P (fun _ _ => True) hs) :
    ∀ pkt ∈ hs.m1Frags, hsTypeOf pkt = hsTypeClientHello := by
  intro pkt hpkt
  have hversion : hs.m1.version = protocolVersion := by
    rw [hok.m1]
    exact hok.version
  rw [hok.m1Frags, ClientHandshake.m1FragsOf, hversion] at hpkt
  obtain ⟨i, hi, rfl⟩ := List.mem_map.mp hpkt
  obtain ⟨len, hp⟩ := fromDatagram_ok (fromDatagram_fragmentPacket layout_m1 _
    (ClientHandshake.length_m1 hs.m1) (List.mem_range.mp hi))
  exact hp.hsType.symm

section Steps

variable {hs hs' : ClientHandshake T}

variable {r : Except (Fault HandshakeV2Error) (ClientEvent T)}

/-- A machine that awaits M2 goes on awaiting it, unless it gives its outcome; what it emits is
its M1. -/
theorem MachineStep.awaiting (hstep : MachineStep P hs r hs')
    (hok : ClientHandshake.Ok P (fun _ _ => True) hs) (hwait : Awaiting hs)
    (hmore : ∀ packets outcome, r ≠ .ok (.m3Sent packets outcome)) :
    Awaiting hs' ∧ ∀ packets, r = .ok (.emit packets) → packets = hs'.m1Frags := by
  rcases hstep with ⟨pkt, rand, hres⟩ | hres
  · have hmove := ClientHandshake.handleDatagram_move hok pkt rand
    rw [hres] at hmove
    dsimp only at hmove
    cases hmove with
    | idle => exact ⟨hwait, by simp⟩
    | stored | dropped | kdfFailed => exact ⟨⟨_, _, rfl⟩, by simp⟩
    | finished => exact absurd rfl (hmore _ _)
  · rcases hs.onTimer_cases with heq | ⟨asm, attempts, -, heq⟩ |
        ⟨frags, attempts, outcome, hstate, heq⟩ <;>
      rw [hres] at heq <;> obtain ⟨rfl, rfl⟩ := Prod.mk.inj heq
    · exact ⟨hwait, by simp⟩
    · exact ⟨⟨_, _, rfl⟩, by simp⟩
    · obtain ⟨asm, attempts', hstate'⟩ := hwait
      cases hstate.symm.trans hstate'

theorem orderly_probe {probe : Option WirePacket} (hbuild : m.buildProbe P = (probe, m'))
    (hqueue : QueueOk m) (hidle : m.hs = none) (hget : m.session = some session)
    (horigin : Origin P m session) :
    Orderly P m' ∧ m'.m3Frags = m.m3Frags ∧ Burst P m' (m'.m3Frags ++ probe.toList) := by
  have hkept : ∀ (session' : WireSession) (encrypted : List Sealing),
      session'.keys = session.keys →
      Orderly P { m with session := some session', encrypted } ∧
        Origin P { m with session := some session', encrypted } session' := by
    intro session' encrypted hkeys
    obtain ⟨hs, hs', outcome, fresh, hstep, hmem, hnew, hfresh⟩ := horigin
    have horigin' : Origin P { m with session := some session', encrypted } session' :=
      ⟨hs, hs', outcome, fresh, hstep, hmem, hnew, hkeys.trans hfresh⟩
    refine ⟨⟨⟨Or.inl hidle, ?_⟩, hqueue, ?_, ?_⟩, horigin'⟩
    · intro hs hs'
      cases hidle.symm.trans hs'
    · intro hs hs'
      cases hidle.symm.trans hs'
    · intro s hs
      obtain rfl := Option.some.inj hs
      exact horigin'
  cases probed_of_eq hbuild with
  | sent s packet s' hs henc =>
    obtain rfl := Option.mem_unique hget hs
    have hkeys : s'.keys = session.keys := by rw [(WireSession.encrypt_ok henc).2]; rfl
    obtain ⟨horderly, horigin'⟩ := hkept s' (m.encrypted ++ session.sealing (.ok packet)) hkeys
    refine ⟨horderly, rfl, .confirm s' _ rfl horigin' rfl fun pkt hpkt => ?_⟩
    obtain rfl := Option.some.inj hpkt
    exact ⟨session, s', hkeys.symm, henc⟩
  | spent s hs =>
    obtain rfl := Option.mem_unique hget hs
    obtain ⟨horderly, horigin'⟩ :=
      hkept { session with state := .rekey } m.encrypted rfl
    exact ⟨horderly, rfl, .confirm _ none rfl horigin' rfl (by simp)⟩
  | unsent =>
    obtain ⟨horderly, -⟩ := hkept session m.encrypted rfl
    rw [with_session hget] at horderly
    exact ⟨horderly, rfl, .confirm session none hget horigin rfl (by simp)⟩

theorem Orderly.stepped (h : Orderly P m) (hget : m.hs = some hs) (hstep : MachineStep P hs r hs')
    (hmore : ∀ packets outcome, r ≠ .ok (.m3Sent packets outcome)) :
    Orderly P (m.withMachine hs' r) ∧
      ∀ packets, r = .ok (.emit packets) → Burst P (m.withMachine hs' r) packets := by
  have hok := h.held.machine hs hget
  have hframe := hstep.frame hok
  obtain ⟨hwait, hsid⟩ := h.waits hs hget
  obtain ⟨hwait', hemit⟩ := hstep.awaiting hok hwait hmore
  have hfree := h.held.session_none hget
  constructor
  · refine ⟨⟨Or.inr hfree, ?_⟩, h.queue, ?_, ?_⟩
    · intro hs'' hget''
      obtain rfl := Option.some.inj hget''
      exact hframe.ok
    · intro hs'' hget''
      obtain rfl := Option.some.inj hget''
      exact ⟨hwait', hframe.sid ▸ hsid⟩
    · intro s hs
      cases hfree.symm.trans hs
  · intro packets hr
    obtain rfl := hemit packets hr
    exact .hello hs' rfl hwait' rfl (m1Frags_type hframe.ok)

end Steps

theorem Call.aside_of_sends {c : Call T} (h : c.sends = true) : c.machine = false ∧
    ∀ draws kemSk xSk now, c ≠ .beginHandshake draws kemSk xSk now := by
  cases c with
  | takeSlot | appOutbound | tunOutbound | coverPacket => exact ⟨rfl, by simp⟩
  | _ => cases h

theorem Orderly.does (h : Orderly P m) (hkdf : Kdf.HkdfTotal P) {c : Call T} {r : ClientStep T}
    (hdoes : Does P m c r) (hdraws : DrawsUnretired m c)
    (hc : ¬ (c.machine = false ∧
      ∀ draws kemSk xSk now, c ≠ .beginHandshake draws kemSk xSk now)) :
    Orderly P r.2 ∧ ∀ burst dest, .send burst dest ∈ returned r.1 → Burst P r.2 burst := by
  have hquiet : ∀ {r m'}, Plain m r → Orderly P m' →
      Orderly P m' ∧ ∀ burst dest, .send burst dest ∈ returned r → Burst P m' burst :=
    fun hr h => ⟨h, by simp [hr.returned]⟩
  have hsent : ∀ {m' packets dest'}, Orderly P m' → Burst P m' packets → Orderly P m' ∧
      ∀ burst dest, .send burst dest ∈ returned (.ok (.send packets dest')) → Burst P m' burst := by
    intro m' packets dest' h hburst
    refine ⟨h, fun burst dest hsend => ?_⟩
    obtain ⟨rfl, -⟩ := ManagerEvent.send.inj (List.mem_singleton.mp hsend)
    exact hburst
  cases hdoes with
  | idle _ r hr => exact hquiet hr h
  | drew _ _ _ _ _ _ r hr =>
    exact hquiet hr ⟨⟨h.held.oneLive, h.held.machine⟩, h.queue, h.waits, h.origin⟩
  | began _ _ xSk _ _ _ sid sk hs hdraw hunused hidle hfree hnew =>
    obtain ⟨hok, -, hsid, -, -, asm, hstate, -⟩ := ClientHandshake.new_ok hnew fun _ _ => True
    have hwait : Awaiting hs := ⟨asm, 0, hstate⟩
    refine hsent ⟨⟨Or.inr hfree, ?_⟩, h.queue, ?_, ?_⟩ (.hello hs rfl hwait rfl (m1Frags_type hok))
    · intro hs' hget
      obtain rfl := Option.some.inj hget
      exact hok
    · intro hs' hget
      obtain rfl := Option.some.inj hget
      exact ⟨hwait, hsid ▸ hdraws sid hdraw hunused⟩
    · intro s hs
      cases hfree.symm.trans hs
  | stepped _ hs hs' r r' _ hget hstep hkept hr =>
    have hmore : ∀ packets outcome, r ≠ .ok (.m3Sent packets outcome) := by
      intro packets outcome heq
      rcases hkept packets outcome heq with hret | ⟨e, herr⟩
      · have hout := ((hstep.frame (h.held.machine hs hget)).outcome packets outcome heq).1
        exact (h.waits hs hget).2 (hout ▸ hret)
      · obtain ⟨fresh, hnew⟩ := WireSession.established_total hkdf .client outcome
        cases hnew.symm.trans herr
    obtain ⟨horderly, hburst⟩ := h.stepped hget hstep hmore
    rcases hr with hr | ⟨packets, rfl, rfl⟩
    · exact hquiet hr horderly
    · exact hsent horderly (hburst packets rfl)
  | timedOut _ hs hget =>
    refine ⟨⟨⟨Or.inl rfl, nofun⟩, h.queue, nofun, ?_⟩, by simp [returned, ManagerEvent.toList]⟩
    intro s hs
    cases (h.held.session_none hget).symm.trans hs
  | doubled _ _ _ _ _ hget hbusy => simp [h.held.session_none hget] at hbusy
  | adopted _ hs hs' packets outcome session probe m' _ hget hfree hstep _ hnew hbuild =>
    have hlast : (m.begun, outcome) ∈ (m.adopting packets outcome session c.time).outcomes :=
      List.mem_append_right _ (List.mem_singleton_self _)
    obtain ⟨horderly, hfrags, hburst⟩ := orderly_probe hbuild h.queue rfl rfl
      ⟨hs, hs', outcome, session, hstep, hlast, hnew, rfl⟩
    rw [hfrags] at hburst
    exact hsent horderly hburst
  | gaveUp =>
    exact hquiet .none ⟨⟨h.held.oneLive, h.held.machine⟩, h.queue, h.waits, h.origin⟩
  | resent _ probe m' hdue hbuild =>
    simp only [resendsM3, Bool.and_eq_true, Option.isNone_iff_eq_none] at hdue
    obtain ⟨session, hget⟩ := Option.isSome_iff_exists.mp hdue.1.1.1.2
    obtain ⟨horderly, -, hburst⟩ :=
      orderly_probe hbuild h.queue hdue.1.1.1.1 hget (h.origin session hget)
    exact hsent horderly hburst
  | sent _ _ _ _ _ _ hsends | spent _ _ _ _ hsends => exact absurd (Call.aside_of_sends hsends) hc
  | unread _ _ _ _ _ _ hread | read _ _ _ _ _ _ _ hread | hungUp _ _ _ _ _ _ hread
  | died _ _ _ _ _ hread => exact absurd ⟨hread.data, by simp⟩ hc
  | _ => exact absurd ⟨rfl, by simp⟩ hc

/-- Every call keeps the manager orderly, and each burst is of one of the two kinds. -/
theorem Orderly.call (h : Orderly P m) (hkdf : Kdf.HkdfTotal P) {c : Call T}
    (hdraws : DrawsUnretired m c) :
    Orderly P (call P m c).2 ∧
      ∀ packets dest, .send packets dest ∈ (ClientSessionManager.call P m c).1 →
        Burst P (ClientSessionManager.call P m c).2 packets := by
  have haside : Aside m (ClientSessionManager.call P m c).1 (ClientSessionManager.call P m c).2 →
      Orderly P (ClientSessionManager.call P m c).2 ∧
        ∀ packets dest, .send packets dest ∈ (ClientSessionManager.call P m c).1 →
          Burst P (ClientSessionManager.call P m c).2 packets := fun ha =>
    ⟨h.aside ha (h.held.call c), fun packets dest hsend => absurd hsend (ha.noBurst packets dest)⟩
  rcases call_does P m c with ⟨t, clock, rfl⟩ | ⟨now, rfl⟩ | ⟨r, hdoes, hcall, -⟩
  · exact haside (aside_takeSlot m t clock)
  · exact haside (aside_tick h.queue now)
  · by_cases hc : c.machine = false ∧
        ∀ draws kemSk xSk now, c ≠ .beginHandshake draws kemSk xSk now
    · exact haside (hcall ▸ hdoes.aside hc.2 hc.1)
    · rw [hcall]
      exact h.does hkdf hdoes hdraws hc

theorem orderly_new {cfg : ClientConfig T} {limits : SessionLimits}
    (hnew : new cfg limits = .ok m) : Orderly P m := by
  obtain ⟨-, -, -, hidle, hfree, -, hclosed, -⟩ := new_ok hnew
  refine ⟨held_new hnew, by simp [QueueOk, hclosed], ?_, ?_⟩
  · intro hs hget
    cases hidle.symm.trans hget
  · intro s hs
    cases hfree.symm.trans hs

theorem orderly_run (h : Orderly P m) (hkdf : Kdf.HkdfTotal P) {calls : List (Call T)}
    (hdraws : Along (fun m c => (ClientSessionManager.call P m c).2) DrawsUnretired m calls) :
    Orderly P (run P m calls) := by
  induction calls generalizing m with
  | nil => exact h
  | cons c calls ih => exact ih (h.call hkdf hdraws.1).1 hdraws.2

section Sample

open Exchange

/-- The sample client between two handshakes, once the session of `sampleSid` is retired. -/
structure Between (m : ClientSessionManager Sample.types) : Prop where
  cfg : m.cfg = sampleClientConfig
  idle : m.hs = none
  free : m.session = none
  usedOrder : m.usedOrder = [sampleSid]
  usedSids : m.usedSids = [sampleSid]
  retired : sampleSid ∈ m.retiredSids

private def drawn (used : List SessionId × List SessionId) (sid : SessionId) :
    List SessionId × List SessionId :=
  if sid ∈ used.2 then used else forgetOldest sidHistoryCap (used.1 ++ [sid]) (sid :: used.2)

/-- An attempt that draws an id, and then no key pair. -/
private def failing (sid : SessionId) : Call Sample.types :=
  .beginHandshake (List.Vector.replicate 8 (.ok sid)) (.error (.invalidInput "")) (4 : UInt8) 0

theorem run_failing {m : ClientSessionManager Sample.types} (hidle : m.hs = none)
    (hfree : m.session = none) (sids : List SessionId) :
    run Sample.primitives m (sids.map failing) =
      { m with
        usedOrder := (sids.foldl drawn (m.usedOrder, m.usedSids)).1
        usedSids := (sids.foldl drawn (m.usedOrder, m.usedSids)).2 } := by
  induction sids generalizing m with
  | nil => rfl
  | cons sid sids ih =>
    have hcall : (call Sample.primitives m (failing sid)).2 =
        { m with
          usedOrder := (drawn (m.usedOrder, m.usedSids) sid).1
          usedSids := (drawn (m.usedOrder, m.usedSids) sid).2 } := by
      have hbusy : ¬ (m.hs.isSome || m.session.isSome) := by simp [hidle, hfree]
      simp only [call, failing, beginHandshake]
      rw [if_neg hbusy]
      by_cases hused : sid ∈ m.usedSids
      · simp [freshSid, hused, drawn]
      · have hfresh : m.freshSid (List.Vector.replicate 8 (Except.ok sid)).toList = _ :=
          if_neg hused
        rw [hfresh, drawn, if_neg hused]
        simp only [newHandshake]
        cases validateVersion m.cfg.version <;> rfl
    rw [List.map_cons, run, List.foldl_cons, hcall]
    exact ih hidle hfree

theorem draws_again {m : ClientSessionManager Sample.types} (hcfg : m.cfg = sampleClientConfig)
    (hidle : m.hs = none) (hfree : m.session = none) (hunused : sampleSid ∉ m.usedSids) :
    ∃ c m', ClientHandshake.new Sample.primitives sampleClientConfig sampleSid (3 : UInt8)
        (4 : UInt8) = .ok c ∧ (call Sample.primitives m (sampleBegin 0)).2 = m' ∧
      m'.hs = some c ∧ m'.session = none ∧ m'.retiredSids = m.retiredSids ∧ m'.cfg = m.cfg := by
  obtain ⟨c, hnew⟩ := exists_sampleHandshake sampleSid
  refine ⟨c, _, hnew, rfl, ?_⟩
  have hfresh : m.freshSid (List.Vector.replicate 8 (Except.ok sampleSid)).toList = _ :=
    if_neg hunused
  have hversion : validateVersion sampleClientConfig.version = .ok () := rfl
  have hbusy : ¬ (m.hs.isSome || m.session.isSome) := by simp [hidle, hfree]
  simp only [call, sampleBegin, beginHandshake]
  rw [if_neg hbusy, hfresh]
  simp only [newHandshake, hcfg, hversion, hnew]
  exact ⟨trivial, hfree, trivial, trivial⟩

/-- An outcome for a retired id is ignored, and the machine that gave it stays. -/
theorem onM3Sent_retired {packets : List WirePacket} {outcome : HandshakeOutcome T}
    (hfree : m.session = none) (hretired : outcome.sessionId ∈ m.retiredSids) :
    m.onM3Sent P packets outcome now = (.ok .none, m) := by
  rw [ClientSessionManager.onM3Sent, if_neg (by simp [hfree]), if_pos hretired]

theorem between_close {m : ClientSessionManager Sample.types} (hget : m.session = some session)
    (hsid : session.sessionId = sampleSid) (hcfg : m.cfg = sampleClientConfig) (hidle : m.hs = none)
    (horder : m.usedOrder = [sampleSid]) (hused : m.usedSids = [sampleSid])
    (hnone : m.retiredSids = []) (hnone' : m.retiredOrder = []) :
    Between (m.close Sample.primitives 0).2 := by
  have hforget : forgetOldest retiredSidCap [sampleSid] [sampleSid] = ([sampleSid], [sampleSid]) :=
    rfl
  simp only [close, sessionId, hget, Option.map_some, teardown, retireSid, hsid, hnone, hnone',
    List.not_mem_nil, if_false, List.nil_append, hforget, Bool.true_eq_false]
  split <;> exact ⟨hcfg, hidle, rfl, horder, hused, List.mem_singleton_self _⟩

theorem exists_between : ∃ calls, Between
    (run Sample.primitives (sampleClient {}) calls) := by
  obtain ⟨calls, _, outcome, session, _, -, h⟩ := exists_sample_adopted {} 0
  refine ⟨sampleBegin 0 :: calls ++ [.close 0], ?_⟩
  rw [run_snoc, h.eq]
  exact between_close (show _ = some session.next from rfl)
    ((WireSession.established_ok h.new).2.1.trans h.sid) rfl rfl rfl rfl rfl rfl

private def otherSids : List SessionId :=
  (List.range 64).map fun i => List.Vector.replicate 8 (UInt8.ofNat (i + 10))

/-- Sixty-four handshakes after its session was torn down, an id can be drawn again. Its
handshake succeeds, but the manager keeps the machine and sends an M3 with no session. -/
theorem m3_without_session :
    ∃ (m : ClientSessionManager Sample.types) (calls : List (Call Sample.types))
      (hs : ClientHandshake Sample.types) (packets : List WirePacket),
      new sampleClientConfig {} = .ok m ∧ (run Sample.primitives m calls).hs = some hs ∧
      ¬ Awaiting hs ∧ (run Sample.primitives m calls).session = none ∧
      (call Sample.primitives (run Sample.primitives m calls) (.onTimer 0)).1 =
        [.send packets sampleAddr] ∧
      (call Sample.primitives (run Sample.primitives m calls) (.onTimer 0)).2.session = none ∧
      ∃ pkt ∈ packets, hsTypeOf pkt = hsTypeClientConfirm := by
  obtain ⟨calls₁, h⟩ := exists_between
  generalize hm : run Sample.primitives (sampleClient {}) calls₁ = m at h
  have hfailed := run_failing h.idle h.free otherSids
  rw [h.usedOrder, h.usedSids] at hfailed
  generalize hm₂ : run Sample.primitives m (otherSids.map failing) = m₂ at hfailed
  have hforgotten : sampleSid ∉ (otherSids.foldl drawn ([sampleSid], [sampleSid])).2 := by
    decide +kernel
  generalize otherSids.foldl drawn ([sampleSid], [sampleSid]) = used at hfailed hforgotten
  obtain ⟨c, m', hnew, hm', hhs, hfree, hretired, hcfg'⟩ := draws_again (m := m₂) (hfailed ▸ h.cfg)
    (hfailed ▸ h.idle) (hfailed ▸ h.free) (hfailed ▸ hforgotten)
  obtain ⟨-, hcfg, hsid, -, -, asm, hstate, -⟩ := ClientHandshake.new_ok hnew fun _ _ => True
  obtain ⟨calls₄, -, d, c', packets, outcome, hrun, hout, hdcfg, hsent, hccfg, m3, hlen, rfl⟩ :=
    exists_concluded (sample_meeting hnew (s := sampleServer) rfl fun _ => Table.get_empty _) hhs
      ⟨asm, 0, hstate⟩ 0
  have hretired : outcome.sessionId ∈ m'.retiredSids := by
    rw [hretired, hout, hsid, hfailed]
    exact h.retired
  have hserver : m'.cfg.serverAddr = sampleAddr := by
    rw [hcfg', hfailed]
    exact congrArg _ h.cfg
  have hkept : run Sample.primitives m' calls₄ =
      ({ m' with hs := some d } : ClientSessionManager Sample.types).withMachine c'
        (.ok (.m3Sent (ClientHandshake.m3FragsOf d m3) outcome)) := by
    rw [hrun]
    exact congrArg Prod.snd (onM3Sent_retired (m := ({ m' with hs := some d } :
      ClientSessionManager Sample.types).withMachine c' _) hfree hretired)
  have hwaits : ¬ Awaiting c' := by
    rintro ⟨asm', attempts, hstate'⟩
    cases hsent.symm.trans hstate'
  refine ⟨sampleClient {}, calls₁ ++ otherSids.map failing ++ sampleBegin 0 :: calls₄, c',
    ClientHandshake.m3FragsOf d m3, new_sampleClient rfl, ?_⟩
  have hall : run Sample.primitives (sampleClient {})
      (calls₁ ++ otherSids.map failing ++ sampleBegin 0 :: calls₄) =
      run Sample.primitives m' calls₄ := by
    rw [run_append, run_append, hm, hm₂, run, List.foldl_cons, hm']
    rfl
  rw [hall, hkept]
  have htimer : c'.onTimer = (.ok (.emit (ClientHandshake.m3FragsOf d m3)),
      { c' with state := .m3Sent (ClientHandshake.m3FragsOf d m3) 1 outcome }) := by
    have hbudget : ¬ c'.cfg.m3MaxAttempts ≤ 0 := by
      rw [hccfg, hcfg]
      decide
    simp only [ClientHandshake.onTimer, hsent, if_neg hbudget]
  refine ⟨rfl, hwaits, hfree, ?_, ?_, _, List.mem_singleton_self _, ?_⟩
  · simp [call, ClientSessionManager.onTimer, withMachine, htimer, returned, ManagerEvent.toList,
      hserver]
  · simp [call, ClientSessionManager.onTimer, withMachine, htimer, hfree]
  · have hversion : d.cfg.version = protocolVersion := by
      rw [hdcfg, hcfg]
      rfl
    obtain ⟨len, hp⟩ := fromDatagram_ok (fromDatagram_fragmentPacket layout_m3 d.sid hlen
      (show 0 < m3FragCount.toNat by decide))
    rw [hversion]
    exact hp.hsType.symm

end Sample

/-- As long as no handshake draws the id of a session that was torn down, the manager holds a
machine only while it awaits M2, and every M3 goes out for the handshake of the session held. -/
theorem machine_awaits_m2 (hkdf : Kdf.HkdfTotal P) {cfg : ClientConfig T} {limits : SessionLimits}
    (hnew : new cfg limits = .ok m) (calls : List (Call T)) (c : Call T)
    (hdraws : Along (fun m c => (call P m c).2) DrawsUnretired m (calls ++ [c])) :
    (∀ hs, (run P m (calls ++ [c])).hs = some hs → Awaiting hs) ∧
      ∀ packets dest, .send packets dest ∈ (call P (run P m calls) c).1 →
        Burst P (run P m (calls ++ [c])) packets := by
  obtain ⟨hbefore, hlast⟩ := along_append.mp hdraws
  have h := orderly_run (orderly_new hnew) hkdf hbefore
  obtain ⟨horderly, hburst⟩ := h.call hkdf hlast.1
  rw [run_snoc]
  exact ⟨fun hs hget => (horderly.waits hs hget).1, hburst⟩

theorem machine_awaits_m2_sample :
    ∃ m c, new Exchange.sampleClientConfig {} = .ok m ∧
      (run Sample.primitives m [sampleBegin 0]).hs = some c ∧ Awaiting c ∧
      Burst Sample.primitives (run Sample.primitives m [sampleBegin 0]) c.m1Frags := by
  obtain ⟨c, hcall, -⟩ := exists_sample_begun {} 0
  have hdraws : Along (fun m c => (call Sample.primitives m c).2) DrawsUnretired
      (sampleClient {}) ([] ++ [sampleBegin 0]) :=
    ⟨fun _ _ _ => List.not_mem_nil, trivial⟩
  obtain ⟨hwaits, hburst⟩ := machine_awaits_m2 Sample.hkdfTotal (new_sampleClient rfl) []
    (sampleBegin 0) hdraws
  have hrun : run Sample.primitives (sampleClient {}) [sampleBegin 0] = sampleBegun {} 0 c :=
    congrArg Prod.snd hcall
  have hget : (run Sample.primitives (sampleClient {}) [sampleBegin 0]).hs = some c := by
    rw [hrun]
    rfl
  refine ⟨sampleClient {}, c, new_sampleClient rfl, hget, hwaits c hget, hburst c.m1Frags
    Exchange.sampleAddr ?_⟩
  exact hcall ▸ List.mem_singleton_self _

end PqTunnel.ClientSessionManager
