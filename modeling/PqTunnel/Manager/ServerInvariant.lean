import PqTunnel.Handshake.Completion
import PqTunnel.Manager.ServerActs

/-! What holds in every state of the server manager, and that no datagram makes it fail. -/
namespace PqTunnel.ServerSessionManager

variable {T : CryptoTypes} {P : Primitives T} {m m' : ServerSessionManager T}
  {evs : List ManagerEvent} {pkt : WirePacket} {src : SocketAddr} {clock : Clock} {now : ℕ}
  {draw : ServerDraw T} {order : List SessionId}

/-- A property that acts and openings keep holds in every state of a run. -/
theorem run_invariant {I : ServerSessionManager T → Prop}
    (hact : ∀ m evs m', I m → Act P m evs m' → I m')
    (hopens : ∀ m pkt src clock now draw order evs m', I m →
      Opens P m pkt src clock now draw order evs m' → I m')
    (h : I m) (calls : List (Call T)) : I (run P m calls) := by
  induction calls generalizing m with
  | nil => exact h
  | cons c calls ih =>
    apply ih
    rcases call_cases (P := P) m c with ⟨pkt, src, clock, now, draw, order, -, ho⟩ | ht
    · exact hopens _ _ _ _ _ _ _ _ _ h ho
    · exact ht.keeps (hact _ _ _) h

variable (m) (entry : SessionEntry)

@[simp] theorem beginClose_hs (now : ℕ) : (m.beginClose P entry now).2.hs = m.hs := by
  unfold beginClose
  split <;> rfl

@[simp] theorem beginClose_limits (now : ℕ) : (m.beginClose P entry now).2.limits = m.limits := by
  unfold beginClose
  split <;> rfl

@[simp] theorem beginClose_pendingClosed
    (now : ℕ) : (m.beginClose P entry now).2.pendingClosed = m.pendingClosed := by
  unfold beginClose
  split <;> rfl

variable (order)

/-- The eviction drops one of the least recently active sessions, and only at capacity. -/
theorem evictAtCapacity_cases :
    (m.evictAtCapacity order = m ∧
      (m.sessions.size < m.limits.maxSessions ∨ m.sessions.size = 0)) ∨
    (m.limits.maxSessions ≤ m.sessions.size ∧
      ∃ stale entry, m.sessions.get stale = some entry ∧
        (∀ sid e, m.sessions.get sid = some e → entry.lastActivity ≤ e.lastActivity) ∧
        m.evictAtCapacity order = m.queueClosed stale .capacity) := by
  unfold evictAtCapacity
  split_ifs with hfull
  · unfold stalest
    cases hmin : (m.sessions.iter order).argmin fun e => e.2.lastActivity with
    | none =>
      refine Or.inl ⟨rfl, Or.inr (Table.size_eq_zero fun sid => ?_)⟩
      cases hget : m.sessions.get sid with
      | none => rfl
      | some e =>
        have hiter : (sid, e) ∈ m.sessions.iter order := Table.mem_iter.mpr hget
        rw [List.argmin_eq_none.mp hmin] at hiter
        cases hiter
    | some e =>
      have hmem : (e.1, e.2) ∈ m.sessions.iter order := List.argmin_mem hmin
      refine Or.inr ⟨hfull, e.1, e.2, Table.mem_iter.mp hmem, ?_, rfl⟩
      intro sid e' hget
      have hmem' : (sid, e') ∈ m.sessions.iter order := Table.mem_iter.mpr hget
      exact List.le_of_mem_argmin (f := fun e => e.2.lastActivity) hmem' hmin
  · exact Or.inl ⟨rfl, Or.inl (not_le.mp hfull)⟩

@[simp] theorem evictAtCapacity_hs : (m.evictAtCapacity order).hs = m.hs := by
  rcases m.evictAtCapacity_cases order with ⟨h, -⟩ | ⟨-, _, _, -, -, h⟩
  · rw [h]
  · rw [h]
    rfl

@[simp] theorem evictAtCapacity_limits : (m.evictAtCapacity order).limits = m.limits := by
  rcases m.evictAtCapacity_cases order with ⟨h, -⟩ | ⟨-, _, _, -, -, h⟩
  · rw [h]
  · rw [h]
    rfl

variable {m} {order}

theorem get_of_evictAtCapacity {sid : SessionId} {e : SessionEntry}
    (h : (m.evictAtCapacity order).sessions.get sid = some e) : m.sessions.get sid = some e := by
  rcases m.evictAtCapacity_cases order with ⟨heq, -⟩ | ⟨-, _, _, -, -, heq⟩
  · rwa [heq] at h
  · rw [heq] at h
    exact (Table.get_of_remove h).2

theorem exists_run_hs (calls : List (Call T)) :
    ∃ calls', (run P m calls).hs = ServerHandshake.run P m.hs calls' := by
  have hrun : ∀ (s : ServerHandshake T) as bs,
      ServerHandshake.run P (ServerHandshake.run P s as) bs = ServerHandshake.run P s (as ++ bs) :=
    fun s as bs => (List.foldl_append ..).symm
  refine run_invariant (I := fun m' => ∃ calls', m'.hs = ServerHandshake.run P m.hs calls')
    ?_ ?_ ⟨[], rfl⟩ calls
  · rintro m₁ evs m₂ ⟨calls', hcalls⟩ ha
    cases ha with
    | idle _ calls'' => exact ⟨calls' ++ calls'', by rw [← hrun, ← hcalls]⟩
    | expired _ _ _ _ _ => exact ⟨calls', by simpa [removeSession] using hcalls⟩
    | closedByUser _ _ _ _ => exact ⟨calls', by simpa [queueClosed, removeSession] using hcalls⟩
    | evicted _ => exact ⟨calls', by simpa using hcalls⟩
    | _ => exact ⟨calls', hcalls⟩
  · rintro m₁ pkt src clock now draw order evs m₂ ⟨calls', hcalls⟩ ho
    cases ho with
    | mk hs outcome session _ hcomplete =>
      refine ⟨calls' ++ [.datagram pkt src clock draw], ?_⟩
      rw [ServerHandshake.run_snoc, ← hcalls, ServerHandshake.call, hcomplete]
      simp [putSession]

/-- Every session of the table is established and stored under its own id. -/
def EntriesOk (m : ServerSessionManager T) : Prop :=
  ∀ sid e, m.sessions.get sid = some e →
    e.session.state = .established ∧ e.session.sessionId = sid

theorem EntriesOk.put (h : EntriesOk m) {sid : SessionId} {entry : SessionEntry}
    (hstate : entry.session.state = .established) (hsid : entry.session.sessionId = sid) :
    EntriesOk (m.putSession sid entry) := by
  intro sid' e hget
  rw [putSession, Table.get_put] at hget
  split_ifs at hget with heq
  · obtain rfl := Option.some.inj hget
    exact ⟨hstate, hsid.trans heq.symm⟩
  · exact h sid' e hget

theorem EntriesOk.remove (h : EntriesOk m) (sid : SessionId) : EntriesOk (m.removeSession sid) :=
  fun sid' e hget => h sid' e (Table.get_of_remove hget).2

theorem EntriesOk.act (h : EntriesOk m) (ha : Act P m evs m') : EntriesOk m' := by
  cases ha with
  | idle | flushed now gate => exact h
  | received sid entry entry' w hget hsame =>
    obtain ⟨hstate, hsid⟩ := h sid entry hget
    exact h.put (by rw [hsame]; exact hstate) (by rw [hsame]; exact hsid)
  | sent sid entry msgType payload packet session hget henc =>
    obtain ⟨hstate, hsid⟩ := h sid entry hget
    rcases entry.session.encrypt_cases (P := P) msgType payload with
      ⟨_, heq, -⟩ | heq | ⟨_, -, heq⟩ <;> rw [henc] at heq <;> cases heq
    exact h.put hstate hsid
  | ended sid entry reason hget => exact h.remove sid
  | expired sid entry reason now hget | closedByUser sid entry now hget =>
    intro sid' e hget'
    rw [beginClose_sessions] at hget'
    exact h.remove sid sid' e hget'
  | evicted order => exact fun sid e hget => h sid e (get_of_evictAtCapacity hget)

theorem EntriesOk.opens (h : EntriesOk m) (ho : Opens P m pkt src clock now draw order evs m') :
    EntriesOk m' := by
  cases ho with
  | mk hs outcome session hfrag hcomplete hnone hnew =>
    obtain ⟨hstate, hsid, -⟩ := WireSession.established_ok hnew
    refine EntriesOk.put ?_ hstate hsid
    exact fun sid e hget => h sid e (get_of_evictAtCapacity (m := { m with hs := hs }) hget)

theorem entriesOk_run (h : EntriesOk m) (calls : List (Call T)) : EntriesOk (run P m calls) :=
  run_invariant (fun _ _ _ hm ha => hm.act ha) (fun _ _ _ _ _ _ _ _ _ hm ho => hm.opens ho) h calls

theorem new_ok {cfg : ServerConfig T} {limits : SessionLimits} {rateNow gateNow : ℕ}
    (h : new cfg limits rateNow gateNow = .ok m) :
    m.hs = ServerHandshake.new cfg rateNow ∧ m.limits = limits ∧ m.sessions = Table.empty ∧
      m.pendingClosed = [] ∧ m.pendingCloses = [] ∧ m.encrypted = [] := by
  unfold new at h
  split at h
  · cases h
  · cases h
  · split at h
    · cases h
    · obtain rfl := Except.ok.inj h
      exact ⟨rfl, rfl, rfl, rfl, rfl, rfl⟩

theorem entriesOk_new {cfg : ServerConfig T} {limits : SessionLimits} {rateNow gateNow : ℕ}
    (h : new cfg limits rateNow gateNow = .ok m) : EntriesOk m := by
  intro sid e hget
  rw [(new_ok h).2.2.1, Table.get_empty] at hget
  cases hget

section NoFailure

variable {entry : SessionEntry} {sid : SessionId}

theorem afterEncrypt_ok (hP : CipherSession.AeadTotal P)
    (hstate : entry.session.state = .established) (msgType : MessageType) {payload : Bytes}
    (hlen : payload.length = payloadLen) :
    ∃ ev, (m.afterEncrypt sid entry (entry.session.encrypt P msgType payload)).1 = .ok ev := by
  rcases WireSession.encrypt_established hP hstate msgType hlen with ⟨packet, h⟩ | h
  · rw [← Prod.mk.eta (p := entry.session.encrypt P msgType payload), h]
    exact ⟨_, rfl⟩
  · rw [← Prod.mk.eta (p := entry.session.encrypt P msgType payload), h]
    exact ⟨_, rfl⟩

/-- An established session classifies every packet, and stays established when the packet is a
control message. -/
theorem receive_ok (hstate : entry.session.state = .established) (pkt : WirePacket)
    (src : SocketAddr) (now : ℕ) :
    ∃ result entry', entry.receive P pkt src now = (.ok result, entry') ∧
      ∀ inner, result = .control inner → entry'.session.state = .established := by
  have hdec := WireSession.decrypt_established (P := P) hstate pkt
  unfold SessionEntry.receive
  generalize entry.session.decrypt P pkt = d at hdec
  obtain ⟨r, session⟩ := d
  rcases hdec with ⟨inner, rfl, -, hst⟩ | rfl | ⟨e, rfl, -⟩
  · dsimp only
    split <;> exact ⟨_, _, rfl, fun _ _ => hst⟩
  · exact ⟨_, _, rfl, nofun⟩
  · cases e <;> exact ⟨_, _, rfl, nofun⟩

/-- In every state that a manager reaches, every datagram is handled without an error or a
panic, and every session of the table is established and stored under its own id. -/
theorem handleDatagram_never_fails (hkdf : Kdf.HkdfTotal P) (haead : CipherSession.AeadTotal P)
    {cfg : ServerConfig T} {limits : SessionLimits} {rateNow gateNow : ℕ}
    (hnew : new cfg limits rateNow gateNow = .ok m) (calls : List (Call T)) :
    (∀ pkt src clock now draw order,
      ∃ ev, ((run P m calls).handleDatagram P pkt src clock now draw order).1 = .ok ev) ∧
    ∀ sid entry, (run P m calls).sessions.get sid = some entry →
      entry.session.state = .established ∧ entry.session.sessionId = sid := by
  have hentries : EntriesOk (run P m calls) := entriesOk_run (entriesOk_new hnew) calls
  obtain ⟨calls', hhs⟩ := exists_run_hs (P := P) (m := m) calls
  have hpending : ServerHandshake.PendingOk (run P m calls).hs := by
    rw [hhs, (new_ok hnew).1]
    exact (ServerHandshake.pendingOk_new cfg rateNow).run calls'
  refine ⟨?_, hentries⟩
  intro pkt src clock now draw order
  have hstep := (ServerHandshake.handleDatagram_does (P := P) hpending pkt src clock draw).1.ok hkdf
  have h := handleDatagram_handles (P := P) (run P m calls) pkt src clock now draw order
  generalize (run P m calls).handleDatagram P pkt src clock now draw order = r at h ⊢
  cases h with
  | stepped r hs r' hfrag heq hr =>
    rw [heq] at hstep
    rcases hr with ⟨packets, peer, -, rfl⟩ | ⟨e, rfl, -⟩ | rfl
    · exact ⟨_, rfl⟩
    · obtain ⟨ev, hev⟩ := hstep
      cases hev
    · exact ⟨_, rfl⟩
  | unopened outcome hs e hfrag heq hfree hnew =>
    obtain ⟨session, hsession⟩ := WireSession.established_total hkdf .server outcome
    cases hnew.symm.trans hsession
  | unready entry e entry' hread hrecv =>
    obtain ⟨result, entry', hok, -⟩ := receive_ok (P := P) (hentries _ _ hread.get).1 pkt src now
    cases hrecv.symm.trans hok
  | acked entry inner entry' hread hrecv =>
    obtain ⟨result, entry', hok, hcontrol⟩ :=
      receive_ok (P := P) (hentries _ _ hread.get).1 pkt src now
    cases hrecv.symm.trans hok
    exact afterEncrypt_ok haead (hcontrol inner rfl) .handshake (Control.length_slot _)
  | _ => exact ⟨_, rfl⟩

theorem handleDatagram_never_fails_sample :
    ∃ m, new Exchange.sampleServerConfig {} 0 0 = .ok m ∧
      ∀ calls pkt src clock now draw order,
        ∃ ev, ((run Sample.primitives m calls).handleDatagram Sample.primitives pkt src clock now
          draw order).1 = .ok ev := by
  obtain ⟨m, hnew⟩ : ∃ m, new Exchange.sampleServerConfig {} 0 0 = .ok m := ⟨_, rfl⟩
  exact ⟨m, hnew, fun calls =>
    (handleDatagram_never_fails Sample.hkdfTotal CipherSession.sample_aeadTotal hnew calls).1⟩

end NoFailure

end PqTunnel.ServerSessionManager
