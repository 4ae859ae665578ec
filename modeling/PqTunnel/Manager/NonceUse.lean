import PqTunnel.Foundation.Ledger
import PqTunnel.Manager.Accounting
import PqTunnel.Manager.ClientEstablish

/-! Both managers keep a ledger of counters: a session is one live counter under its send key,
wherever it stands, and every packet uses one up. -/
namespace PqTunnel
open Transition WireSession

abbrev SendKey := Secret × Direction

def WireSession.sendKey (s : WireSession) : SendKey :=
  (s.cipher.sendKey, s.cipher.role.sendDirection)

def WireSession.counter (s : WireSession) : SendKey × ℕ :=
  (s.sendKey, s.cipher.sendCounter.toNat)

def Sealing.pair (e : Sealing) : SendKey × ℕ := ((e.key, e.direction), e.counter.toNat)

/-- The moves of a ledger whose counters stay below the rotation threshold. -/
abbrev LedgerTrace := Trace (Ledger.Move (κ := SendKey) maxPacketNonce.toNat)

section Encrypt

variable {T : CryptoTypes} {P : Primitives T} {session session' : WireSession}
  {msgType : MessageType} {payload : Bytes} {packet : WirePacket}

theorem WireSession.encrypt_counter
    (henc : session.encrypt P msgType payload = (.ok packet, session')) :
    session'.counter = (session.sendKey, session.cipher.sendCounter.toNat + 1) ∧
      (session.sealing (.ok packet)).map Sealing.pair = [session.counter] ∧
      session.cipher.sendCounter.toNat < maxPacketNonce.toNat := by
  obtain ⟨hfresh, rfl⟩ := encrypt_ok henc
  have hsucc := (CipherSession.checkedSucc_of_not_exhausted hfresh).2
  exact ⟨Prod.ext rfl hsucc, rfl,
    UInt64.lt_iff_toNat_lt.mp (CipherSession.not_exhausted_iff.mp hfresh)⟩

theorem WireSession.encrypt_failed {e : SessionError}
    (henc : session.encrypt P msgType payload = (.error e, session')) :
    session'.counter = session.counter := by
  rcases session.encrypt_cases (P := P) msgType payload with
    ⟨pkt, heq, -⟩ | heq | ⟨e, -, heq⟩ <;> rw [henc] at heq <;>
    obtain ⟨hr, rfl⟩ := Prod.mk.inj heq
  · cases hr
  · rfl
  · rfl

theorem ledger_use (henc : session.encrypt P msgType payload = (.ok packet, session'))
    (rest : Multiset (SendKey × ℕ)) (used : List (SendKey × ℕ)) :
    LedgerTrace ⟨session.counter ::ₘ rest, used⟩ []
      ⟨session'.counter ::ₘ rest, used ++ (session.sealing (.ok packet)).map Sealing.pair⟩ := by
  obtain ⟨hnext, hsealed, hbound⟩ := encrypt_counter henc
  rw [hnext, hsealed]
  exact .single (.use _ _ rest rfl hbound)

def closeCounters (closes : List PendingClose) : Multiset (SendKey × ℕ) :=
  Multiset.ofList (closes.map (·.session.counter))

theorem closeCounters_cons (pc : PendingClose) (closes : List PendingClose) :
    closeCounters (pc :: closes) = pc.session.counter ::ₘ closeCounters closes := rfl

theorem closeCounters_snoc (closes : List PendingClose) (pc : PendingClose) :
    closeCounters (closes ++ [pc]) = pc.session.counter ::ₘ closeCounters closes := by
  rw [closeCounters, List.map_append]
  exact Multiset.coe_eq_coe.mpr (List.perm_append_singleton ..)

theorem closeCounters_le {closes closes' : List PendingClose} (h : closes.Sublist closes') :
    closeCounters closes ≤ closeCounters closes' :=
  Multiset.coe_le.mpr (h.map _).subperm

theorem retransmit_ledger (pc : PendingClose) (now : ℕ) (rest : Multiset (SendKey × ℕ))
    (used : List (SendKey × ℕ)) :
    LedgerTrace ⟨pc.session.counter ::ₘ rest, used⟩ []
      ⟨(pc.retransmit P now).2.1.session.counter ::ₘ rest,
        used ++ (pc.retransmit P now).2.2.map Sealing.pair⟩ := by
  unfold PendingClose.retransmit
  split_ifs
  · simpa using Trace.refl _
  · dsimp only
    split <;> rename_i session henc
    · exact ledger_use henc rest used
    · simpa [encrypt_failed henc] using Trace.refl _

/-- One pass over the pending closes: each one that is due uses its counter up once more. -/
theorem retransmitCloses_ledger (closes : List PendingClose) (now : ℕ)
    (rest : Multiset (SendKey × ℕ)) (used : List (SendKey × ℕ)) :
    LedgerTrace ⟨closeCounters closes + rest, used⟩ []
      ⟨closeCounters (retransmitCloses P closes now).2.1 + rest,
        used ++ (retransmitCloses P closes now).2.2.map Sealing.pair⟩ := by
  have hpass : ∀ (rest : Multiset (SendKey × ℕ)) (used : List (SendKey × ℕ)),
      LedgerTrace ⟨closeCounters closes + rest, used⟩ []
        ⟨closeCounters (closes.map fun pc => (pc.retransmit P now).2.1) + rest,
          used ++ (closes.flatMap fun pc => (pc.retransmit P now).2.2).map Sealing.pair⟩ := by
    induction closes with
    | nil => intro rest used; simpa using Trace.refl _
    | cons pc closes ih =>
      intro rest used
      have hone := retransmit_ledger (P := P) pc now (closeCounters closes + rest) used
      have hrest := ih ((pc.retransmit P now).2.1.session.counter ::ₘ rest)
        (used ++ (pc.retransmit P now).2.2.map Sealing.pair)
      rw [Multiset.add_cons, Multiset.add_cons] at hrest
      have htrace := hone.trans hrest
      rw [List.append_assoc, ← List.map_append, ← Multiset.cons_add, ← Multiset.cons_add] at htrace
      simp only [closeCounters_cons, List.map_cons, List.flatMap_cons]
      exact htrace
  have hfilter : closeCounters (retransmitCloses P closes now).2.1 ≤
      closeCounters (closes.map fun pc => (pc.retransmit P now).2.1) := by
    refine closeCounters_le ?_
    simp only [retransmitCloses, List.map_map]
    exact List.filter_sublist
  have htrace := (hpass rest used).trans (.single (.drop _ (Multiset.add_le_add_right hfilter)))
  simpa [retransmitCloses, List.flatMap_map] using htrace

end Encrypt

section Outcomes

variable {T : CryptoTypes} {P : Primitives T} {role : Role}

/-- The send key of the session that an outcome gives. -/
def sendKeyOf (P : Primitives T) (role : Role) (outcome : HandshakeOutcome T) : Option SendKey :=
  (WireSession.established P role outcome).toOption.map (·.sendKey)

/-- The key derivation keeps the masters of these outcomes apart. -/
def KeysApart (P : Primitives T) (role : Role) (outcomes : List (HandshakeOutcome T)) : Prop :=
  ∀ o ∈ outcomes, ∀ o' ∈ outcomes, ∀ s s', WireSession.established P role o = .ok s →
    WireSession.established P role o' = .ok s' → s.cipher.sendKey = s'.cipher.sendKey →
      o.master = o'.master

theorem sendKeyOf_eq_some {outcome : HandshakeOutcome T} {key : SendKey}
    (h : sendKeyOf P role outcome = some key) :
    ∃ s, established P role outcome = .ok s ∧ s.sendKey = key := by
  unfold sendKeyOf at h
  cases hs : established P role outcome with
  | error e => simp [hs, Except.toOption] at h
  | ok s => exact ⟨s, rfl, by simpa [hs, Except.toOption] using h⟩

theorem nodup_sendKeys {outcomes : List (HandshakeOutcome T)}
    (hmasters : (outcomes.map (·.master)).Nodup) (hkeys : KeysApart P role outcomes) :
    (outcomes.filterMap (sendKeyOf P role)).Nodup := by
  have hpair : outcomes.Pairwise fun o o' => o.master ≠ o'.master := List.pairwise_map.mp hmasters
  refine List.pairwise_filterMap.mpr (hpair.imp_of_mem fun {o o'} ho ho' hne key hkey key' hkey' => ?_)
  obtain ⟨s, hs, rfl⟩ := sendKeyOf_eq_some hkey
  obtain ⟨s', hs', rfl⟩ := sendKeyOf_eq_some hkey'
  intro heq
  exact hne (hkeys o ho o' ho' s s' hs hs' (Prod.mk.inj heq).1)

theorem established_counter {outcome : HandshakeOutcome T} {session : WireSession}
    (h : established P role outcome = .ok session) :
    session.counter = (session.sendKey, 0) := by
  obtain ⟨-, -, hnew⟩ := established_ok h
  obtain ⟨kc, ks, pc, ps, -, -, -, -, hcipher⟩ := CipherSession.new_ok hnew
  have hzero : session.cipher.sendCounter.toNat = 0 := by
    rw [hcipher]
    rfl
  rw [counter, hzero]

/-- What a ledger in order says about the packets encrypted. -/
theorem sealings_once {keys : List SendKey} {live : Multiset (SendKey × ℕ)}
    {encrypted : List Sealing} (hkeys : keys.Nodup)
    (htrace : LedgerTrace ⟨0, []⟩ keys ⟨live, encrypted.map Sealing.pair⟩) :
    encrypted.Nodup ∧ ∀ e ∈ encrypted, e.counter < maxPacketNonce := by
  have hok := (Ledger.ok_empty maxPacketNonce.toNat).trace htrace hkeys
  refine ⟨List.Nodup.of_map _ hok.once, fun e he => UInt64.lt_iff_toNat_lt.mpr ?_⟩
  exact hok.bounded e.pair (List.mem_map.mpr ⟨e, he, rfl⟩)

end Outcomes

namespace ServerSessionManager
variable {T : CryptoTypes} {P : Primitives T} {m m' : ServerSessionManager T} {sid : SessionId}
  {entry : SessionEntry}

def tableCounters (t : Table SessionId SessionEntry) : Multiset (SendKey × ℕ) :=
  Multiset.ofList (t.entries.map (·.2.session.counter))

theorem tableCounters_get {t : Table SessionId SessionEntry} (h : t.get sid = some entry) :
    tableCounters t = entry.session.counter ::ₘ tableCounters (t.remove sid) :=
  Multiset.coe_eq_coe.mpr ((Table.entries_perm h).map _)

theorem tableCounters_put (t : Table SessionId SessionEntry) (sid : SessionId)
    (entry : SessionEntry) :
    tableCounters (t.put sid entry) = entry.session.counter ::ₘ tableCounters (t.remove sid) := by
  rw [tableCounters, Table.entries_put]
  rfl

/-- The sessions of the table and those whose Close is still being retransmitted, as live
counters. -/
def ledger (m : ServerSessionManager T) : Ledger.State SendKey where
  live := tableCounters m.sessions + closeCounters m.pendingCloses
  used := m.encrypted.map Sealing.pair

theorem ledger_get (h : m.sessions.get sid = some entry) :
    m.ledger.live = entry.session.counter ::ₘ (m.removeSession sid).ledger.live := by
  rw [ledger, tableCounters_get h, Multiset.cons_add]
  rfl

theorem ledger_remove_le (m : ServerSessionManager T) (sid : SessionId) :
    (m.removeSession sid).ledger.live ≤ m.ledger.live := by
  have hsub := (m.sessions.entries_remove_sublist sid).map fun e => e.2.session.counter
  exact Multiset.add_le_add_right (Multiset.coe_le.mpr hsub.subperm)

theorem ledger_remove (m : ServerSessionManager T) (sid : SessionId) :
    LedgerTrace m.ledger [] (m.removeSession sid).ledger :=
  .single (.drop _ (ledger_remove_le m sid))

theorem beginClose_ledger (entry : SessionEntry) (now : ℕ) :
    LedgerTrace ⟨entry.session.counter ::ₘ m.ledger.live, m.ledger.used⟩ []
      (m.beginClose P entry now).2.ledger := by
  unfold beginClose
  split <;> rename_i henc
  · exact .single (.drop _ (Multiset.le_cons_self _ _))
  · have huse := ledger_use henc m.ledger.live m.ledger.used
    simp only [ledger, List.map_append, closeCounters_snoc, Multiset.add_cons] at huse ⊢
    exact huse

theorem queueClosed_ledger (m : ServerSessionManager T) (sid : SessionId) (reason : CloseReason) :
    (m.queueClosed sid reason).ledger = (m.removeSession sid).ledger := rfl

theorem Act.ledger {evs : List ManagerEvent} (hact : Act P m evs m') :
    LedgerTrace m.ledger [] m'.ledger := by
  cases hact with
  | idle => exact .refl _
  | received sid entry entry' w hget hsame =>
    have hview : (m.putSession sid entry').ledger = m.ledger := by
      simp only [ServerSessionManager.ledger, putSession, tableCounters_put,
        tableCounters_get hget]
      rw [show entry'.session.counter = entry.session.counter by rw [hsame]; rfl]
    rw [hview]
    exact .refl _
  | sent sid entry msgType payload packet session hget henc =>
    have huse := ledger_use henc (m.removeSession sid).ledger.live m.ledger.used
    rw [← ledger_get hget] at huse
    simp only [ServerSessionManager.ledger, putSession, tableCounters_put, List.map_append,
      Multiset.cons_add] at huse ⊢
    exact huse
  | ended sid => exact ledger_remove m sid
  | expired sid entry reason now hget =>
    have hclose := beginClose_ledger (P := P) (m := m.removeSession sid) entry now
    rw [← ledger_get hget] at hclose
    exact hclose
  | closedByUser sid entry now hget =>
    have hclose := beginClose_ledger (P := P) (m := m.queueClosed sid .userClosed) entry now
    rw [queueClosed_ledger, ← ledger_get hget] at hclose
    exact hclose
  | evicted order =>
    rcases evictAtCapacity_cases m order with ⟨heq, -⟩ | ⟨-, stale, _, -, -, heq⟩
    · rw [heq]
      exact .refl _
    · rw [heq, queueClosed_ledger]
      exact ledger_remove m stale
  | flushed now gate =>
    have hpass := retransmitCloses_ledger (P := P) m.pendingCloses now (tableCounters m.sessions)
      m.ledger.used
    simp only [ServerSessionManager.ledger, List.map_append] at hpass ⊢
    rwa [Multiset.add_comm, Multiset.add_comm (closeCounters _)] at hpass

theorem trace_ledger {evs : List ManagerEvent} (h : Trace (Act P) m evs m') :
    LedgerTrace m.ledger [] m'.ledger := by
  induction h with
  | refl => exact .refl _
  | snoc _ hact ih => exact ih.trans hact.ledger

/-- The outcome of the handshake that a call completes. -/
def completed (P : Primitives T) (m : ServerSessionManager T) : Call T → List (HandshakeOutcome T)
  | .datagram pkt src clock _ draw _ =>
    if isHandshakeFragment pkt then
      match (m.hs.handleDatagram P pkt src clock draw).1 with
      | .ok (.complete outcome) => [outcome]
      | _ => []
    else []
  | _ => []

def completions (P : Primitives T) (m : ServerSessionManager T) (calls : List (Call T)) :
    List (HandshakeOutcome T) :=
  outputs (fun m c => (call P m c).2) (completed P) m calls

theorem call_ledger (m : ServerSessionManager T) (c : Call T) :
    ∃ keys, keys.Sublist ((completed P m c).filterMap (sendKeyOf P .server)) ∧
      LedgerTrace m.ledger keys (call P m c).2.ledger := by
  rcases call_cases (P := P) m c with ⟨pkt, src, clock, now, draw, order, rfl, hopens⟩ | htrace
  · generalize (call P m (.datagram pkt src clock now draw order)).1 = evs at hopens
    generalize (call P m (.datagram pkt src clock now draw order)).2 = m' at hopens ⊢
    cases hopens with
    | mk hs outcome session hfrag hcomplete hnone hnew =>
      have hkey : sendKeyOf P .server outcome = some session.sendKey := by
        simp [sendKeyOf, hnew, Except.toOption]
      refine ⟨[session.sendKey], ?_, ?_⟩
      · simp [completed, hfrag, hcomplete, hkey]
      · have hevict := (Act.evicted (P := P) (m := { m with hs }) order).ledger
        have hdrop : LedgerTrace _ [] _ := Trace.single (.drop _
          (ledger_remove_le (({ m with hs } : ServerSessionManager T).evictAtCapacity order)
            outcome.sessionId))
        have hopen := (hevict.trans hdrop).trans (.single (.opened session.sendKey))
        rw [← established_counter hnew] at hopen
        simp only [ledger, putSession, removeSession, tableCounters_put, Multiset.cons_add]
          at hopen ⊢
        exact hopen
  · exact ⟨[], List.nil_sublist _, trace_ledger htrace⟩

theorem run_ledger (m : ServerSessionManager T) (calls : List (Call T)) :
    ∃ keys, keys.Sublist ((completions P m calls).filterMap (sendKeyOf P .server)) ∧
      LedgerTrace m.ledger keys (run P m calls).ledger := by
  induction calls generalizing m with
  | nil => exact ⟨[], List.nil_sublist _, .refl _⟩
  | cons c calls ih =>
    obtain ⟨keys, hsub, htrace⟩ := call_ledger (P := P) m c
    obtain ⟨keys', hsub', htrace'⟩ := ih (call P m c).2
    refine ⟨keys ++ keys', ?_, htrace.trans htrace'⟩
    rw [completions, outputs, List.filterMap_append]
    exact hsub.append hsub'

theorem ledger_new {cfg : ServerConfig T} {limits : SessionLimits} {rateNow gateNow : ℕ}
    (hnew : new cfg limits rateNow gateNow = .ok m) : m.ledger = ⟨0, []⟩ := by
  obtain ⟨-, -, hsessions, -, hcloses, hencrypted⟩ := new_ok hnew
  rw [ledger, hsessions, hcloses, hencrypted]
  rfl

end ServerSessionManager

namespace ClientSessionManager
variable {T : CryptoTypes} {P : Primitives T} {m m' : ClientSessionManager T} {now : ℕ}
  {session : WireSession} {evs : List ManagerEvent}

def sessionCounters (session : Option WireSession) : Multiset (SendKey × ℕ) :=
  Multiset.ofList (session.toList.map (·.counter))

/-- The session and those whose Close is still being retransmitted, as live counters. -/
def ledger (m : ClientSessionManager T) : Ledger.State SendKey where
  live := sessionCounters m.session + closeCounters m.pendingCloses
  used := m.encrypted.map Sealing.pair

theorem ledger_session (h : m.session = some session) :
    m.ledger = ⟨session.counter ::ₘ closeCounters m.pendingCloses, m.encrypted.map Sealing.pair⟩ := by
  rw [ledger, h]
  rfl

theorem ledger_free (h : m.session = none) :
    m.ledger = ⟨closeCounters m.pendingCloses, m.encrypted.map Sealing.pair⟩ := by
  rw [ledger, h]
  simp [sessionCounters]

theorem TornDown.ledger (hget : m.session = some session) (h : TornDown P now m session m') :
    LedgerTrace m.ledger [] m'.ledger := by
  rw [ledger_session hget, ledger_free h.session]
  rcases h.closes with ⟨hcloses, hencrypted⟩ | ⟨packet, closing, henc, hcloses, hencrypted⟩
  · rw [hcloses, hencrypted]
    exact .single (.drop _ (Multiset.le_cons_self _ _))
  · rw [hcloses, hencrypted, closeCounters_snoc, List.map_append]
    exact ledger_use henc _ _

/-- An act issues the key of a session only when it adopts the session's outcome. -/
theorem Act.ledger (hact : Act P now m evs m') :
    ∃ keys given, m'.outcomes = m.outcomes ++ given ∧
      keys.Sublist (given.filterMap fun o => sendKeyOf P .client o.2) ∧
      LedgerTrace m.ledger keys m'.ledger := by
  have hnone : m'.outcomes = m.outcomes → LedgerTrace m.ledger [] m'.ledger →
      ∃ keys given, m'.outcomes = m.outcomes ++ given ∧
        keys.Sublist (given.filterMap fun o => sendKeyOf P .client o.2) ∧
        LedgerTrace m.ledger keys m'.ledger :=
    fun houtcomes htrace =>
      ⟨[], [], by rw [houtcomes, List.append_nil], List.nil_sublist _, htrace⟩
  cases hact with
  | quiet _ _ _ hsame =>
    refine hnone hsame.outcomes ?_
    rw [ClientSessionManager.ledger, ClientSessionManager.ledger, hsame.session,
      hsame.pendingCloses, hsame.encrypted]
    exact .refl _
  | began | timedOut => exact hnone rfl (.refl _)
  | stepped => exact ⟨[], _, rfl, List.nil_sublist _, .refl _⟩
  | adopted hs hs' packets outcome session hget hfree hstep hnew =>
    have hkey : sendKeyOf P .client outcome = some session.sendKey := by
      simp [sendKeyOf, hnew, Except.toOption]
    refine ⟨[session.sendKey], [(m.begun, outcome)], rfl, by simp [hkey], ?_⟩
    rw [ledger_free hfree, ledger_session rfl, established_counter hnew]
    exact .single (.opened session.sendKey)
  | touched session st w ready rounds peer hget =>
    refine hnone rfl ?_
    rw [ledger_session hget, ledger_session rfl]
    exact .refl _
  | sent _ session msgType payload packet session' _ hget henc =>
    refine hnone rfl ?_
    rw [ledger_session hget, ledger_session rfl, List.map_append]
    exact ledger_use henc _ _
  | ended _ session reason sendClose _ hget =>
    have hdown := teardown_tornDown (P := P) hget now sendClose
    exact hnone hdown.outcomes (hdown.ledger hget)
  | closedByUser _ session _ hget =>
    have hdown := teardown_tornDown (P := P) hget now true
    have hclosed := hdown.ledger hget
    exact hnone hdown.outcomes hclosed
  | flushed =>
    have hpass := retransmitCloses_ledger (P := P) m.pendingCloses now (sessionCounters m.session)
      m.ledger.used
    refine hnone rfl ?_
    simp only [ClientSessionManager.ledger, List.map_append] at hpass ⊢
    rwa [Multiset.add_comm, Multiset.add_comm (closeCounters _)] at hpass

/-- Every handshake gives one outcome at most. -/
structure Tagged (m : ClientSessionManager T) : Prop where
  once : (m.outcomes.map (·.1)).Nodup
  past : ∀ o ∈ m.outcomes, o.1 ≤ m.begun
  fresh : ∀ hs, m.hs = some hs → Awaiting hs → ∀ o ∈ m.outcomes, o.1 ≠ m.begun

theorem Tagged.give (h : Tagged m) (hfresh : ∀ o ∈ m.outcomes, o.1 ≠ m.begun)
    (outcome : HandshakeOutcome T) :
    ((m.outcomes ++ [(m.begun, outcome)]).map (·.1)).Nodup ∧
      ∀ o ∈ m.outcomes ++ [(m.begun, outcome)], o.1 ≤ m.begun := by
  refine ⟨?_, fun o ho => ?_⟩
  · rw [List.map_append, List.nodup_append]
    refine ⟨h.once, List.nodup_singleton _, fun i hi j hj => ?_⟩
    obtain ⟨o, ho, rfl⟩ := List.mem_map.mp hi
    rw [List.mem_singleton.mp hj]
    exact hfresh o ho
  · rcases List.mem_append.mp ho with ho | ho
    · exact h.past o ho
    · rw [List.mem_singleton.mp ho]

theorem Tagged.act (h : Tagged m) (hheld : Held P m) (hact : Act P now m evs m') : Tagged m' := by
  cases hact with
  | quiet _ _ _ hsame =>
    refine ⟨?_, ?_, ?_⟩
    · rw [hsame.outcomes]
      exact h.once
    · rw [hsame.outcomes, hsame.begun]
      exact h.past
    · rw [hsame.outcomes, hsame.begun, hsame.hs]
      exact h.fresh
  | began =>
    refine ⟨h.once, fun o ho => (h.past o ho).trans (Nat.le_succ _), fun _ _ _ o ho => ?_⟩
    exact (Nat.lt_succ_of_le (h.past o ho)).ne
  | stepped _ hs hs' r _ hget hstep =>
    have hframe := hstep.frame (hheld.machine hs hget)
    unfold withMachine
    dsimp only
    split
    · rename_i packets outcome
      obtain ⟨-, hawait, hdone⟩ := hframe.outcome packets outcome rfl
      obtain ⟨honce, hpast⟩ := h.give (h.fresh hs hget hawait) outcome
      refine ⟨honce, hpast, fun hs'' hget' hawait' => ?_⟩
      obtain rfl := Option.some.inj hget'
      exact absurd hawait' hdone
    · rw [List.append_nil]
      refine ⟨h.once, h.past, fun hs'' hget' hawait' => ?_⟩
      obtain rfl := Option.some.inj hget'
      exact h.fresh hs hget (hframe.back hawait')
  | timedOut => exact ⟨h.once, h.past, nofun⟩
  | adopted hs hs' packets outcome session hget hfree hstep hnew =>
    have hframe := hstep.frame (hheld.machine hs hget)
    obtain ⟨-, hawait, -⟩ := hframe.outcome packets outcome rfl
    obtain ⟨honce, hpast⟩ := h.give (h.fresh hs hget hawait) outcome
    exact ⟨honce, hpast, nofun⟩
  | touched | sent | flushed => exact ⟨h.once, h.past, h.fresh⟩
  | ended _ session reason sendClose _ hget =>
    have hdown := teardown_tornDown (P := P) hget now sendClose
    refine ⟨?_, ?_, ?_⟩
    · rw [hdown.outcomes]
      exact h.once
    · rw [hdown.outcomes, hdown.begun]
      exact h.past
    · rw [hdown.outcomes, hdown.begun, hdown.hs]
      exact h.fresh
  | closedByUser _ session _ hget =>
    have hdown := teardown_tornDown (P := P) hget now true
    refine ⟨?_, ?_, ?_⟩
    · dsimp only
      rw [hdown.outcomes]
      exact h.once
    · dsimp only
      rw [hdown.outcomes, hdown.begun]
      exact h.past
    · dsimp only
      rw [hdown.outcomes, hdown.begun, hdown.hs]
      exact h.fresh

/-- What a run of acts has done to the ledger and to the outcomes. -/
def Booked (P : Primitives T) (m : ClientSessionManager T) : Prop :=
  Held P m ∧ Tagged m ∧
    ∃ keys, keys.Sublist (m.outcomes.filterMap fun o => sendKeyOf P .client o.2) ∧
      LedgerTrace ⟨0, []⟩ keys m.ledger

theorem Booked.act (h : Booked P m) (hact : Act P now m evs m') : Booked P m' := by
  obtain ⟨hheld, htagged, keys, hsub, htrace⟩ := h
  obtain ⟨keys', given, houtcomes, hsub', htrace'⟩ := hact.ledger
  refine ⟨hheld.act hact, htagged.act hheld hact, keys ++ keys', ?_, htrace.trans htrace'⟩
  rw [houtcomes, List.filterMap_append]
  exact hsub.append hsub'

theorem booked_run (h : Booked P m) (calls : List (Call T)) : Booked P (run P m calls) := by
  induction calls generalizing m with
  | nil => exact h
  | cons c calls ih =>
    exact ih ((call_trace h.1 c).keeps (fun h hact => h.act hact) h)

theorem booked_new {cfg : ClientConfig T} {limits : SessionLimits}
    (hnew : new cfg limits = .ok m) : Booked P m := by
  obtain ⟨-, -, -, hhs, hsession, -, -, hcloses, hencrypted, -, houtcomes⟩ := new_ok hnew
  refine ⟨held_new hnew, ⟨?_, ?_, ?_⟩, [], List.nil_sublist _, ?_⟩
  · simp [houtcomes]
  · simp [houtcomes]
  · simp [houtcomes]
  · rw [ledger_free hsession, hcloses, hencrypted]
    exact .refl _

end ClientSessionManager

/-- In every run of either manager, as long as different handshakes give different masters and
the key derivation keeps these masters apart, no two packets are encrypted under the same key,
direction and counter, and every counter is below the rotation threshold. -/
theorem no_counter_reused {T : CryptoTypes} (P : Primitives T) :
    (∀ (cfg : ServerConfig T) (limits : SessionLimits) (rateNow gateNow : ℕ)
      (m : ServerSessionManager T) (calls : List (ServerSessionManager.Call T)),
      ServerSessionManager.new cfg limits rateNow gateNow = .ok m →
      ((ServerSessionManager.completions P m calls).map (·.master)).Nodup →
      KeysApart P .server (ServerSessionManager.completions P m calls) →
      (ServerSessionManager.run P m calls).encrypted.Nodup ∧
        ∀ e ∈ (ServerSessionManager.run P m calls).encrypted, e.counter < maxPacketNonce) ∧
    ∀ (cfg : ClientConfig T) (limits : SessionLimits) (m : ClientSessionManager T)
      (calls : List (ClientSessionManager.Call T)),
      ClientSessionManager.new cfg limits = .ok m →
      (∀ o ∈ (ClientSessionManager.run P m calls).outcomes,
        ∀ o' ∈ (ClientSessionManager.run P m calls).outcomes,
          o.1 ≠ o'.1 → o.2.master ≠ o'.2.master) →
      KeysApart P .client ((ClientSessionManager.run P m calls).outcomes.map (·.2)) →
      (ClientSessionManager.run P m calls).encrypted.Nodup ∧
        ∀ e ∈ (ClientSessionManager.run P m calls).encrypted, e.counter < maxPacketNonce := by
  refine ⟨?_, ?_⟩
  · intro cfg limits rateNow gateNow m calls hnew hmasters hkeys
    obtain ⟨keys, hsub, htrace⟩ := ServerSessionManager.run_ledger (P := P) m calls
    rw [ServerSessionManager.ledger_new hnew] at htrace
    exact sealings_once ((nodup_sendKeys hmasters hkeys).sublist hsub) htrace
  · intro cfg limits m calls hnew hmasters hkeys
    obtain ⟨-, htagged, keys, hsub, htrace⟩ :=
      ClientSessionManager.booked_run (ClientSessionManager.booked_new (P := P) hnew) calls
    have hnodup : (((ClientSessionManager.run P m calls).outcomes.map (·.2)).map
        (·.master)).Nodup := by
      rw [List.map_map, List.Nodup, List.pairwise_map]
      have htags := List.pairwise_map.mp htagged.once
      exact htags.imp_of_mem fun ho ho' hne => hmasters _ ho _ ho' hne
    have hall := nodup_sendKeys hnodup hkeys
    rw [List.filterMap_map] at hall
    exact sealings_once (hall.sublist hsub) htrace

section Sample

namespace ServerSessionManager
variable {T : CryptoTypes} {P : Primitives T} {m : ServerSessionManager T}

theorem completed_eq_nil (hkdf : Kdf.HkdfTotal P) (hempty : m.sessions.size = 0) {c : Call T}
    (hsilent : ∀ ev ∈ (call P m c).1, ev.notice = none) : completed P m c = [] := by
  cases c with
  | datagram pkt src clock now draw order =>
    unfold completed
    dsimp only
    split_ifs with hfrag
    · split
      · rename_i outcome hres
        obtain ⟨session, hnew⟩ := established_total hkdf .server outcome
        have hnone : m.sessions.get outcome.sessionId = none := Table.get_of_size_zero hempty _
        simp only [call, handleDatagram, hfrag, if_true] at hsilent
        rw [← Prod.mk.eta (p := m.hs.handleDatagram P pkt src clock draw), hres] at hsilent
        simp only [onHandshakeComplete, hnone, hnew] at hsilent
        cases hsilent _ List.mem_cons_self
      · rfl
    · rfl
  | _ => rfl

theorem size_of_silent (hempty : m.sessions.size = 0) {c : Call T}
    (hsilent : ∀ ev ∈ (call P m c).1, ev.notice = none) : (call P m c).2.sessions.size = 0 := by
  rcases call_cases (P := P) m c with ⟨pkt, src, clock, now, draw, order, rfl, hopens⟩ | htrace
  · generalize (call P m (.datagram pkt src clock now draw order)).1 = evs at hopens hsilent
    generalize (call P m (.datagram pkt src clock now draw order)).2 = m' at hopens ⊢
    cases hopens with
    | mk hs outcome session => exact absurd (hsilent _ List.mem_cons_self) nofun
  · have hsize := htrace.keeps (I := fun m' => m'.sessions.size ≤ m.sessions.size)
      (fun hle hact => hact.size.2.trans hle) le_rfl
    exact Nat.le_zero.mp (hempty ▸ hsize)

theorem completions_quiet (hkdf : Kdf.HkdfTotal P) (hempty : m.sessions.size = 0)
    {calls : List (Call T)} (h : Along (fun m a => (call P m a).2) (Quiet P) m calls) :
    completions P m calls = [] := by
  induction calls generalizing m with
  | nil => rfl
  | cons c calls ih =>
    rw [completions, outputs, completed_eq_nil hkdf hempty h.1.silent, List.nil_append]
    exact ih (size_of_silent hempty h.1.silent) h.2

theorem length_completed_le (m : ServerSessionManager T) (c : Call T) :
    (completed P m c).length ≤ 1 := by
  unfold completed
  split
  · split_ifs
    · split <;> simp
    · simp
  · simp

theorem exists_sample_sent :
    ∃ calls, (completions Sample.primitives sampleManager calls).length ≤ 1 ∧
      (run Sample.primitives sampleManager calls).encrypted ≠ [] := by
  obtain ⟨before, last, hs₀, hs, session, h⟩ := exists_sample_establishing (m := sampleManager)
    Exchange.sampleSid rfl (fun _ => Table.get_empty _) (Table.get_empty _) (by decide)
    (3 : UInt8) (4 : UInt8)
  have hfresh : isCounterExhausted session.cipher.sendCounter = false := by
    rw [h.counter]
    rfl
  obtain ⟨packet, henc⟩ := encrypt_next CipherSession.sample_aeadTotal h.state hfresh
    .data length_padSlot_nil
  refine ⟨before ++ [last] ++ [.appOutbound Exchange.sampleSid []], ?_, ?_⟩
  · rw [completions, outputs_append, outputs_append, ← completions,
      completions_quiet Sample.hkdfTotal rfl h.quiet]
    simpa [outputs, completed] using length_completed_le _ _
  · rw [run_append, h.run_eq]
    simp only [run, List.foldl_cons, List.foldl_nil, call, appOutbound, List.length_nil,
      not_lt_zero, if_false, sendEncrypted, putSession, Table.get_put_self, henc, afterEncrypt,
      sealing]
    simp

end ServerSessionManager

theorem keysApart_of_length_le {T : CryptoTypes} (P : Primitives T) (role : Role)
    {outcomes : List (HandshakeOutcome T)} (h : outcomes.length ≤ 1) :
    (outcomes.map (·.master)).Nodup ∧ KeysApart P role outcomes := by
  match outcomes, h with
  | [], _ => exact ⟨List.nodup_nil, nofun⟩
  | [o], _ =>
    refine ⟨List.nodup_singleton _, fun o₁ ho₁ o₂ ho₂ _ _ _ _ _ => ?_⟩
    rw [List.mem_singleton.mp ho₁, List.mem_singleton.mp ho₂]

theorem no_counter_reused_sample :
    (∃ calls, (ServerSessionManager.run Sample.primitives ServerSessionManager.sampleManager
        calls).encrypted ≠ [] ∧
      (ServerSessionManager.run Sample.primitives ServerSessionManager.sampleManager
        calls).encrypted.Nodup) ∧
    ∃ calls, (ClientSessionManager.run Sample.primitives (ClientSessionManager.sampleClient {})
        calls).encrypted ≠ [] ∧
      (ClientSessionManager.run Sample.primitives (ClientSessionManager.sampleClient {})
        calls).encrypted.Nodup := by
  constructor
  · obtain ⟨calls, hone, hsent⟩ := ServerSessionManager.exists_sample_sent
    obtain ⟨hmasters, hkeys⟩ := keysApart_of_length_le Sample.primitives .server hone
    exact ⟨calls, hsent, ((no_counter_reused Sample.primitives).1 _ _ _ _ _ calls
      ServerSessionManager.new_sampleManager hmasters hkeys).1⟩
  · obtain ⟨calls, _, outcome, session, probe, -, h⟩ :=
      ClientSessionManager.exists_sample_adopted {} 0
    have houtcomes : (ClientSessionManager.run Sample.primitives
        (ClientSessionManager.sampleClient {})
        (ClientSessionManager.sampleBegin 0 :: calls)).outcomes = [(1, outcome)] := by
      rw [h.eq]
      rfl
    have hone : ((ClientSessionManager.run Sample.primitives (ClientSessionManager.sampleClient {})
        (ClientSessionManager.sampleBegin 0 :: calls)).outcomes.map (·.2)).length ≤ 1 := by
      rw [houtcomes]
      exact le_rfl
    refine ⟨_, ?_, ((no_counter_reused Sample.primitives).2 _ _ _
      (ClientSessionManager.sampleBegin 0 :: calls) (ClientSessionManager.new_sampleClient rfl) ?_
      (keysApart_of_length_le Sample.primitives .client hone).2).1⟩
    · rw [h.eq]
      exact List.cons_ne_nil _ _
    · intro o ho o' ho' hne
      rw [houtcomes] at ho ho'
      rw [List.mem_singleton.mp ho, List.mem_singleton.mp ho'] at hne
      exact absurd rfl hne

end Sample

end PqTunnel
