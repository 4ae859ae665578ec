import PqTunnel.Manager.ClientActs

/-! Invariants of the client manager over whole runs. -/
namespace PqTunnel.ClientSessionManager

variable {T : CryptoTypes} {P : Primitives T} {m m' : ClientSessionManager T} {now : ℕ}
  {evs : List ManagerEvent}

def Awaiting (hs : ClientHandshake T) : Prop := ∃ asm attempts, hs.state = .awaitM2 asm attempts

/-- A machine keeps its session id. It never returns to the wait for M2, and it gives an outcome
only when it leaves that wait. -/
structure MachineFrame (P : Primitives T) (hs : ClientHandshake T)
    (r : Except (Fault HandshakeV2Error) (ClientEvent T)) (hs' : ClientHandshake T) : Prop where
  ok : ClientHandshake.Ok P (fun _ _ => True) hs'
  sid : hs'.sid = hs.sid
  back : Awaiting hs' → Awaiting hs
  outcome : ∀ packets outcome, r = .ok (.m3Sent packets outcome) →
    outcome.sessionId = hs.sid ∧ Awaiting hs ∧ ¬ Awaiting hs'

theorem MachineStep.frame {hs hs' : ClientHandshake T}
    {r : Except (Fault HandshakeV2Error) (ClientEvent T)} (hstep : MachineStep P hs r hs')
    (hok : ClientHandshake.Ok P (fun _ _ => True) hs) : MachineFrame P hs r hs' := by
  rcases hstep with ⟨pkt, rand, hres⟩ | hres
  · have hmove := ClientHandshake.handleDatagram_move hok pkt rand
    rw [hres] at hmove
    refine ⟨hmove.ok hok fun _ _ _ _ => trivial, ?_, ?_, ?_⟩
    · obtain ⟨st, rfl⟩ := hmove.frame
      rfl
    · dsimp only at hmove
      cases hmove with
      | idle => exact id
      | stored frag asm attempts _ _ hstate | dropped frag asm _ attempts _ _ hstate
      | finished frag asm attempts _ _ _ _ _ _ hstate | kdfFailed asm attempts _ frag _ _ hstate =>
        exact fun _ => ⟨asm, attempts, hstate⟩
    · rintro packets outcome rfl
      dsimp only at hmove
      cases hmove with
      | finished frag asm attempts m2 dhCs master key hparsed hsid hstate =>
        exact ⟨rfl, ⟨asm, attempts, hstate⟩, nofun⟩
  · rcases hs.onTimer_cases with heq | ⟨asm, attempts, hstate, heq⟩ |
        ⟨frags, attempts, outcome, hstate, heq⟩ <;>
      rw [hres] at heq <;> obtain ⟨rfl, rfl⟩ := Prod.mk.inj heq
    · exact ⟨hok, rfl, id, nofun⟩
    · refine ⟨hok.withState fun asm' attempts' h => ?_, rfl, fun _ => ⟨asm, attempts, hstate⟩, nofun⟩
      obtain ⟨rfl, -⟩ := ClientState.awaitM2.inj h
      exact hok.awaits asm attempts hstate
    · exact ⟨hok.withState nofun, rfl, nofun, nofun⟩

theorem Held.act (h : Held P m) (hact : Act P now m evs m') : Held P m' := by
  cases hact with
  | quiet _ _ _ hsame =>
    refine ⟨?_, fun hs hget => h.machine hs (hsame.hs.symm.trans hget)⟩
    rw [OneLive, hsame.hs, hsame.session]
    exact h.oneLive
  | began _ sid kemSk xSk hs _ _ hfree hnew =>
    refine ⟨Or.inr hfree, fun hs' hget => ?_⟩
    obtain rfl := Option.some.inj hget
    exact (ClientHandshake.new_ok hnew _).1
  | stepped _ hs hs' r _ hget hstep =>
    refine ⟨Or.inr (h.session_none hget), fun hs'' hget' => ?_⟩
    obtain rfl := Option.some.inj hget'
    exact (hstep.frame (h.machine hs hget)).ok
  | timedOut | adopted => exact ⟨Or.inl rfl, nofun⟩
  | touched session st w ready rounds peer hget | sent _ session _ _ _ _ _ hget =>
    refine ⟨Or.inl ?_, h.machine⟩
    exact h.oneLive.resolve_right (by simp [hget])
  | ended _ session reason sendClose _ hget =>
    have hdown := teardown_tornDown (P := P) hget now sendClose
    exact ⟨Or.inr hdown.session, fun hs hs' => h.machine hs (hdown.hs.symm.trans hs')⟩
  | closedByUser _ session _ hget =>
    have hdown := teardown_tornDown (P := P) hget now true
    exact ⟨Or.inr hdown.session, fun hs hs' => h.machine hs (hdown.hs.symm.trans hs')⟩
  | flushed => exact ⟨h.oneLive, h.machine⟩

theorem Held.call (h : Held P m) (c : Call T) : Held P (call P m c).2 :=
  (call_trace h c).keeps (fun h hact => h.act hact) h

theorem held_run (h : Held P m) (calls : List (Call T)) : Held P (run P m calls) := by
  induction calls generalizing m with
  | nil => exact h
  | cons c calls ih => exact ih (h.call c)

theorem new_ok {cfg : ClientConfig T} {limits : SessionLimits}
    (h : new cfg limits = .ok m) :
    cfg.version = protocolVersion ∧ m.cfg = cfg ∧ m.limits = limits ∧ m.hs = none ∧
      m.session = none ∧ m.rearmRequested = false ∧ m.pendingClosed = [] ∧
      m.pendingCloses = [] ∧ m.encrypted = [] ∧ m.begun = 0 ∧ m.outcomes = [] := by
  unfold new at h
  split_ifs at h with hv
  split at h
  · cases h
  · obtain rfl := Except.ok.inj h
    exact ⟨not_not.mp hv, rfl, rfl, rfl, rfl, rfl, rfl, rfl, rfl, rfl, rfl⟩

theorem held_new {cfg : ClientConfig T} {limits : SessionLimits} (h : new cfg limits = .ok m) :
    Held P m := by
  obtain ⟨-, -, -, hhs, -⟩ := new_ok h
  refine ⟨Or.inl hhs, fun hs hget => ?_⟩
  rw [hhs] at hget
  cases hget

section Kept

structure Kept (m m' : ClientSessionManager T) : Prop where
  begun : m'.begun = m.begun
  peer : m'.peer = m.peer

theorem Kept.trans {m'' : ClientSessionManager T} (h : Kept m m') (h' : Kept m' m'') :
    Kept m m'' := ⟨h'.begun.trans h.begun, h'.peer.trans h.peer⟩

theorem kept_probe {probe : Option WirePacket} (h : m.buildProbe P = (probe, m')) : Kept m m' := by
  cases probed_of_eq h <;> exact ⟨rfl, rfl⟩

theorem kept_teardown {session : WireSession} (hget : m.session = some session) (now : ℕ)
    (sendClose : Bool) : Kept m (m.teardown P now sendClose).2 :=
  ⟨(teardown_tornDown hget now sendClose).begun, (teardown_tornDown hget now sendClose).peer⟩

/-- Only a new handshake is counted, and only a datagram moves the peer besides. -/
theorem Does.kept {c : Call T} {r : ClientStep T} (h : Does P m c r)
    (hbegin : ∀ draws kemSk xSk now, c ≠ .beginHandshake draws kemSk xSk now) :
    r.2.begun = m.begun ∧
      ((∀ pkt src rand now, c ≠ .datagram pkt src rand now) → r.2.peer = m.peer) := by
  have hboth : ∀ {m'}, Kept m m' → m'.begun = m.begun ∧
      ((∀ pkt src rand now, c ≠ .datagram pkt src rand now) → m'.peer = m.peer) :=
    fun h => ⟨h.begun, fun _ => h.peer⟩
  cases h with
  | drew | began => exact absurd rfl (hbegin _ _ _ _)
  | adopted _ _ _ _ _ _ _ _ _ _ _ _ _ _ hbuild | resent _ _ _ _ hbuild =>
    exact hboth ⟨(kept_probe hbuild).begun, (kept_probe hbuild).peer⟩
  | spent => exact hboth ⟨(kept_teardown rfl _ true).begun, (kept_teardown rfl _ true).peer⟩
  | read => exact ⟨rfl, fun hin => absurd rfl (hin _ _ _ _)⟩
  | hungUp => exact ⟨(kept_teardown rfl _ false).begun, fun hin => absurd rfl (hin _ _ _ _)⟩
  | died => exact ⟨(kept_teardown rfl _ true).begun, fun hin => absurd rfl (hin _ _ _ _)⟩
  | closed now session hget =>
    exact hboth ⟨(kept_teardown hget now true).begun, (kept_teardown hget now true).peer⟩
  | _ => exact ⟨rfl, fun _ => rfl⟩

theorem kept_takeSlot (m : ClientSessionManager T) (t clock : ℕ) :
    Kept m (m.takeSlot P t clock).2 := by
  have hslot := takeSlot_slot (P := P) m t clock
  generalize m.takeSlot P t clock = res at hslot ⊢
  cases hslot with
  | shut | drained => exact ⟨rfl, rfl⟩
  | flushed _ _ _ _ _ _ hdoes =>
    obtain ⟨hbegun, hpeer⟩ := hdoes.kept (by simp)
    exact ⟨hbegun, hpeer (by simp)⟩
  | unsent _ _ _ _ _ hbuild | probed _ _ _ _ _ _ hbuild =>
    exact ⟨(kept_probe hbuild).begun, (kept_probe hbuild).peer⟩

theorem kept_tick (m : ClientSessionManager T) (now : ℕ) : Kept m (m.tick P now).2 := by
  obtain ⟨-, hkept, -⟩ := beforeFlush_rule (P := P) (R := fun m _ m' => Kept m m')
    (fun _ => ⟨rfl, rfl⟩) .trans (fun _ _ _ => ⟨rfl, rfl⟩)
    (fun m session reason hget => kept_teardown hget now true) (fun _ _ _ => ⟨rfl, rfl⟩) m
  exact ⟨hkept.begun, hkept.peer⟩

/-- Every call but a datagram and a new handshake keeps both. -/
theorem kept_call {c : Call T}
    (hbegin : ∀ draws kemSk xSk now, c ≠ .beginHandshake draws kemSk xSk now)
    (hin : ∀ pkt src rand now, c ≠ .datagram pkt src rand now) : Kept m (call P m c).2 := by
  rcases call_does P m c with ⟨t, clock, rfl⟩ | ⟨now, rfl⟩ | ⟨r, hdoes, hcall, -⟩
  · exact kept_takeSlot m t clock
  · exact kept_tick m now
  · rw [hcall]
    exact ⟨(hdoes.kept hbegin).1, (hdoes.kept hbegin).2 hin⟩

theorem begun_handleDatagram (m : ClientSessionManager T) (pkt : WirePacket) (src : SocketAddr)
    (rand : T.KemRand) (now : ℕ) : (m.handleDatagram P pkt src rand now).2.begun = m.begun :=
  ((does_handleDatagram m pkt src rand now).kept (by simp)).1

end Kept

end PqTunnel.ClientSessionManager
