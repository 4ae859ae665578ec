import PqTunnel.Foundation.Retry
import PqTunnel.Manager.Types

/-! What a session manager holds of its sessions, whichever side it is on: the live ones, and the
closed ones whose Close packet is still being retransmitted. A manager that ticks once a second
lets go of both in time. -/
namespace PqTunnel
open Transition

/-- The secrets that a session object holds. -/
structure SessionKeys where
  sessionId : SessionId
  keyC2s : Secret
  keyS2c : Secret
  prefixC2s : Octets 4
  prefixS2c : Octets 4

def WireSession.keys (s : WireSession) : SessionKeys where
  sessionId := s.cipher.sessionId
  keyC2s := s.cipher.keyC2s
  keyS2c := s.cipher.keyS2c
  prefixC2s := s.cipher.prefixC2s
  prefixS2c := s.cipher.prefixS2c

variable {T : CryptoTypes} {P : Primitives T}

theorem WireSession.encrypt_keys (s : WireSession) (msgType : MessageType) (payload : Bytes) :
    (s.encrypt P msgType payload).2.keys = s.keys := by
  rcases s.encrypt_cases (P := P) msgType payload with ⟨pkt, heq, -⟩ | heq | ⟨e, -, heq⟩ <;>
    rw [heq] <;> rfl

def IsClose (P : Primitives T) (keys : SessionKeys) (peer : SocketAddr) (ev : ManagerEvent) :
    Prop :=
  ∃ (s s' : WireSession) (packet : WirePacket), s.keys = keys ∧
    s.encrypt P .close closeSlot = (.ok packet, s') ∧ ev = .sendPacket packet peer

namespace PendingClose

def timer (pc : PendingClose) : Retry.Timer := ⟨pc.attemptsLeft, pc.nextAt⟩

/-- A pending Close in one pass of `retransmit_closes`, and whether the pass retains it. -/
def pass (P : Primitives T) (pc : PendingClose) (now : ℕ) :
    List ManagerEvent × Option PendingClose :=
  let r := pc.retransmit P now
  (r.1, if 0 < r.2.1.attemptsLeft ∧ now < r.2.1.nextAt then some r.2.1 else none)

theorem retransmitCloses_eq (closes : List PendingClose) (now : ℕ) :
    (retransmitCloses P closes now).1 = closes.flatMap (fun pc => (pc.pass P now).1) ∧
      (retransmitCloses P closes now).2.1 = closes.filterMap fun pc => (pc.pass P now).2 := by
  constructor
  · simp only [retransmitCloses, List.flatMap_map, pass]
  · simp only [retransmitCloses, pass]
    induction closes with
    | nil => rfl
    | cons pc closes ih =>
      rw [List.map_cons, List.map_cons, List.filter_cons, List.filterMap_cons, ih]
      split_ifs with hkeep hkeep' hkeep'
      · rfl
      · exact absurd (of_decide_eq_true hkeep) hkeep'
      · exact absurd (decide_eq_true hkeep') hkeep
      · rfl

variable {pc : PendingClose} {now : ℕ}

theorem pass_early (hleft : 0 < pc.attemptsLeft) (hearly : now < pc.nextAt) :
    pc.pass P now = ([], some pc) := by
  simp only [pass, retransmit, if_pos (Or.inr hearly : pc.attemptsLeft = 0 ∨ now < pc.nextAt),
    if_pos (And.intro hleft hearly)]

theorem pass_due (hleft : 0 < pc.attemptsLeft) (hdue : pc.nextAt ≤ now) :
    pc.pass P now = ([], none) ∨
      ∃ packet session, pc.session.encrypt P .close closeSlot = (.ok packet, session) ∧
        pc.pass P now = ([.sendPacket packet pc.peer],
          if 1 < pc.attemptsLeft then
            some ⟨session, pc.peer, pc.attemptsLeft - 1, now + closeRetransmitBase * 2⟩
          else none) := by
  have hnow : ¬ (pc.attemptsLeft = 0 ∨ now < pc.nextAt) := by omega
  have hlater : now < now + closeRetransmitBase * 2 := by simp [closeRetransmitBase, fromSecs]
  simp only [pass, retransmit, if_neg hnow]
  cases henc : pc.session.encrypt P .close closeSlot with
  | mk r session =>
    cases r with
    | error e => exact Or.inl (by simp)
    | ok packet =>
      right
      refine ⟨packet, session, rfl, ?_⟩
      have hiff : 0 < pc.attemptsLeft - 1 ↔ 1 < pc.attemptsLeft := by omega
      simp only [hlater, and_true, hiff]

/-- The retransmissions of a Close are a retry with a gap of two seconds. -/
theorem pass_law : Retry.Law (pass P) timer (2 * closeRetransmitBase) where
  early hleft hearly := pass_early hleft hearly
  due := by
    intro pc now hleft hdue
    rcases pass_due (P := P) hleft hdue with hgone | ⟨packet, session, -, hsent⟩
    · exact Or.inl hgone
    · right
      by_cases hmore : 1 < pc.attemptsLeft
      · rw [if_pos hmore] at hsent
        exact Or.inr ⟨_, _, hmore, hsent, by rw [Nat.mul_comm 2]; rfl⟩
      · rw [if_neg hmore] at hsent
        have hone : pc.timer.left = 1 := by
          have hpos : 0 < pc.timer.left := hleft
          simp only [timer] at hpos ⊢
          omega
        exact Or.inl ⟨_, hone, hsent⟩

/-- Every pass sends only Close packets to the recorded peer, and keeps session and peer. -/
theorem pass_close (keys : SessionKeys) (peer : SocketAddr) (pc : PendingClose) (now : ℕ)
    (hpc : 0 < pc.attemptsLeft ∧ pc.session.keys = keys ∧ pc.peer = peer) :
    (∀ ev ∈ (pc.pass P now).1, IsClose P keys peer ev) ∧
      ∀ pc' ∈ (pc.pass P now).2,
        0 < pc'.attemptsLeft ∧ pc'.session.keys = keys ∧ pc'.peer = peer := by
  obtain ⟨hleft, rfl, rfl⟩ := hpc
  rcases lt_or_ge now pc.nextAt with hearly | hdue
  · rw [pass_early hleft hearly]
    simp [hleft]
  · rcases pass_due (P := P) hleft hdue with hgone | ⟨packet, session, henc, hsent⟩
    · rw [hgone]
      simp
    · have hkeys := pc.session.encrypt_keys (P := P) .close closeSlot
      rw [henc] at hkeys
      rw [hsent]
      constructor
      · intro ev hev
        exact ⟨pc.session, session, packet, rfl, henc, List.mem_singleton.mp hev⟩
      · intro pc' hpc'
        split_ifs at hpc' with hmore
        · obtain rfl := Option.mem_some_iff.mp hpc'
          exact ⟨by simp only; omega, hkeys, rfl⟩
        · cases hpc'

end PendingClose

/-- A live session, the peer it talks to and the time it was created. -/
structure Holding where
  session : WireSession
  peer : SocketAddr
  createdAt : ℕ

def Holding.born (x : Holding) : SessionKeys × ℕ := (x.session.keys, x.createdAt)

/-- All the session objects of a manager. -/
structure Custody where
  live : List Holding
  closing : List PendingClose

def Custody.Holds (c : Custody) (keys : SessionKeys) : Prop :=
  (∃ x ∈ c.live, x.session.keys = keys) ∨ ∃ pc ∈ c.closing, pc.session.keys = keys

/-- The teardown at `now` encrypts the first Close of a session and records what is left to
send. -/
structure Begins (P : Primitives T) (now : ℕ) (x : Holding) (pc : PendingClose) : Prop where
  first : ∃ packet, x.session.encrypt P .close closeSlot = (.ok packet, pc.session)
  peer : pc.peer = x.peer
  attempts : pc.attemptsLeft = closeRetransmitTotal - 1
  due : pc.nextAt = now + closeRetransmitBase

/-- The packet, with its destination, is the first Close of the session behind a pending one. -/
def FirstClose (P : Primitives T) (pc : PendingClose) (p : WirePacket × SocketAddr) : Prop :=
  p.2 = pc.peer ∧ ∃ session : WireSession,
    session.encrypt P .close closeSlot = (.ok p.1, pc.session)

/-- What a move gives out: a session that it creates, or a first Close packet. -/
inductive Issue where
  | created (keys : SessionKeys) (time : ℕ)
  | close (packet : WirePacket) (peer : SocketAddr)

def Issue.birth : Issue → Option (SessionKeys × ℕ)
  | .created keys t => some (keys, t)
  | .close _ _ => none

def Issue.packet : Issue → Option (WirePacket × SocketAddr)
  | .created _ _ => none
  | .close packet peer => some (packet, peer)

def births (out : List Issue) : List (SessionKeys × ℕ) := out.filterMap Issue.birth

def firstCloses (out : List Issue) : List (WirePacket × SocketAddr) := out.filterMap Issue.packet

/-- What a call at `now` can do to the sessions, apart from the flush of a tick. -/
inductive Custody.Move (P : Primitives T) (now : ℕ) (c : Custody) :
    List Issue → Custody → Prop where
  | keep (live : List Holding) (hlive : ∀ x ∈ live, ∃ x₀ ∈ c.live, x₀.born = x.born) :
      Move P now c [] { c with live }
  | create (keys : SessionKeys) (live : List Holding)
      (hlive : ∀ x ∈ live, x.born = (keys, now) ∨ ∃ x₀ ∈ c.live, x₀.born = x.born) :
      Move P now c [.created keys now] { c with live }
  | close (x : Holding) (pc : PendingClose) (live : List Holding) (out : List Issue)
      (hx : x ∈ c.live) (hpc : Begins P now x pc)
      (hlive : ∀ x ∈ live, ∃ x₀ ∈ c.live, x₀.born = x.born) (hborn : births out = [])
      (hout : ∀ p ∈ firstCloses out, FirstClose P pc p) :
      Move P now c out ⟨live, c.closing ++ [pc]⟩

section Life

variable {now : ℕ} {x : Holding} {pc : PendingClose}

theorem Custody.Move.kept {c c' : Custody} (hclosing : c'.closing = c.closing)
    (hlive : ∀ x ∈ c'.live, ∃ x₀ ∈ c.live, x₀.born = x.born) : Move P now c [] c' := by
  obtain ⟨live, closing⟩ := c'
  obtain rfl : closing = _ := hclosing
  exact .keep live hlive

theorem Custody.Move.created {c c' : Custody} {keys : SessionKeys}
    (hclosing : c'.closing = c.closing)
    (hlive : ∀ x ∈ c'.live, x.born = (keys, now) ∨ ∃ x₀ ∈ c.live, x₀.born = x.born) :
    Move P now c [.created keys now] c' := by
  obtain ⟨live, closing⟩ := c'
  obtain rfl : closing = _ := hclosing
  exact .create keys live hlive

theorem Begins.keys (h : Begins P now x pc) : pc.session.keys = x.session.keys := by
  obtain ⟨packet, henc⟩ := h.first
  have hkeys := x.session.encrypt_keys (P := P) .close closeSlot
  rwa [henc] at hkeys

/-- The retransmissions of a Close that was first sent at `now`, over a list of ticks. -/
structure Retransmits (P : Primitives T) (now : ℕ) (x : Holding) (pc : PendingClose)
    (ticks : List ℕ) : Prop where
  close : ∀ e ∈ (Retry.life (PendingClose.pass P) pc ticks).1,
    IsClose P x.session.keys x.peer e.2
  count : (Retry.life (PendingClose.pass P) pc ticks).1.length ≤ 2
  first : ∀ e ∈ (Retry.life (PendingClose.pass P) pc ticks).1.head?, now + fromSecs 1 ≤ e.1
  second : (Retry.life (PendingClose.pass P) pc ticks).1.IsChain
    fun a b => a.1 + fromSecs 2 ≤ b.1
  last : (Retry.life (PendingClose.pass P) pc ticks).1.length = 2 →
    (Retry.life (PendingClose.pass P) pc ticks).2 = none

theorem Begins.retransmits (h : Begins P now x pc) (ticks : List ℕ) :
    Retransmits P now x pc ticks := by
  have hleft : 0 < pc.timer.left := by simp [PendingClose.timer, h.attempts, closeRetransmitTotal]
  obtain ⟨hcount, hfirst, hchain, hlast⟩ :=
    (PendingClose.pass_law (P := P)).life_spec hleft ticks
  have htwo : pc.timer.left = 2 := h.attempts
  have hdue : pc.timer.due = now + fromSecs 1 := h.due
  rw [htwo] at hcount hlast
  rw [hdue] at hfirst
  exact ⟨Retry.life_forall (PendingClose.pass_close x.session.keys x.peer)
    ⟨hleft, h.keys, h.peer⟩ ticks, hcount, hfirst, hchain, hlast⟩

end Life

section Moves

variable {now : ℕ} {c c' : Custody} {out : List Issue} {born : List (SessionKeys × ℕ)}

@[simp] theorem births_append (out out' : List Issue) :
    births (out ++ out') = births out ++ births out' := List.filterMap_append

@[simp] theorem firstCloses_append (out out' : List Issue) :
    firstCloses (out ++ out') = firstCloses out ++ firstCloses out' := List.filterMap_append

/-- Every live session is one of those created. -/
def Custody.Born (born : List (SessionKeys × ℕ)) (c : Custody) : Prop :=
  ∀ x ∈ c.live, x.born ∈ born

theorem Custody.Born.of_kept (h : c.Born born) {live : List Holding}
    (hlive : ∀ x ∈ live, ∃ x₀ ∈ c.live, x₀.born = x.born) : ∀ x ∈ live, x.born ∈ born := by
  intro x hx
  obtain ⟨x₀, hx₀, heq⟩ := hlive x hx
  exact heq ▸ h x₀ hx₀

theorem Custody.Born.move (h : c.Born born) (hmove : Move P now c out c') :
    c'.Born (born ++ births out) := by
  cases hmove with
  | keep live hlive | close x pc live out hx hpc hlive =>
    exact fun x hx => List.mem_append_left _ (h.of_kept hlive x hx)
  | create keys live hlive =>
    intro x hx
    rcases hlive x hx with hnew | ⟨x₀, hx₀, heq⟩
    · rw [hnew]
      simp [births, Issue.birth]
    · exact heq ▸ List.mem_append_left _ (h x₀ hx₀)

/-- Moves only add to the pending closes, and the Close packets they give out are the first ones
of what they add. -/
theorem Custody.begun_of_trace (ht : Trace (Move P now) c out c') (h : c.Born born) :
    c'.Born (born ++ births out) ∧ ∃ begun, c'.closing = c.closing ++ begun ∧
      (∀ pc ∈ begun, ∃ x, x.born ∈ born ++ births out ∧ Begins P now x pc) ∧
      ∀ p ∈ firstCloses out, ∃ pc ∈ begun, FirstClose P pc p := by
  refine ht.extend (h := []) (J := fun out c' => c'.Born (born ++ births out) ∧
    ∃ begun, c'.closing = c.closing ++ begun ∧
      (∀ pc ∈ begun, ∃ x, x.born ∈ born ++ births out ∧ Begins P now x pc) ∧
      ∀ p ∈ firstCloses out, ∃ pc ∈ begun, FirstClose P pc p) ?_
    ⟨by simpa [births] using h, [], by simp, by simp, by simp [firstCloses]⟩
  rintro done c₁ out c₂ ⟨hborn, begun, hclosing, hbegun, hfirst⟩ hmove
  have hborn' := hborn.move hmove
  rw [List.append_assoc, ← births_append] at hborn'
  have hold : ∀ pc ∈ begun, ∃ x, x.born ∈ born ++ births (done ++ out) ∧ Begins P now x pc := by
    intro pc hpc
    obtain ⟨x, hx, hb⟩ := hbegun pc hpc
    refine ⟨x, ?_, hb⟩
    rw [births_append, ← List.append_assoc]
    exact List.mem_append_left _ hx
  refine ⟨hborn', ?_⟩
  cases hmove with
  | keep live hlive => exact ⟨begun, hclosing, hold, by simpa using hfirst⟩
  | create keys live hlive =>
    exact ⟨begun, hclosing, hold, by simpa [firstCloses, Issue.packet] using hfirst⟩
  | close x pc live out hx hpc hlive hnone hout =>
    refine ⟨begun ++ [pc], ?_, ?_, ?_⟩
    · simp only [hclosing, List.append_assoc]
    · intro pc' hpc'
      rcases List.mem_append.mp hpc' with hpc' | hpc'
      · exact hold pc' hpc'
      · rw [List.mem_singleton.mp hpc', births_append, hnone, List.append_nil]
        exact ⟨x, hborn x hx, hpc⟩
    · intro p hp
      rw [firstCloses_append] at hp
      rcases List.mem_append.mp hp with hp | hp
      · obtain ⟨pc', hpc', hfst⟩ := hfirst p hp
        exact ⟨pc', List.mem_append_left _ hpc', hfst⟩
      · exact ⟨pc, by simp, hout p hp⟩

/-- With the next tick at `next` and a lifetime cap, no session object outlives its creation by
more than the cap and four seconds. -/
structure Custody.Aged (cap next : ℕ) (born : List (SessionKeys × ℕ)) (c : Custody) : Prop where
  known : c.Born born
  live : ∀ x ∈ c.live, next ≤ x.createdAt + cap + fromSecs 1
  closing : ∀ pc ∈ c.closing, ∃ t, (pc.session.keys, t) ∈ born ∧
    Retry.EndsBy closeRetransmitBase 2 next (t + cap + fromSecs 4) pc.timer

variable {cap next : ℕ}

theorem Custody.Aged.move (h : c.Aged cap next born) (hmove : Move P now c out c')
    (hnow : now ≤ next) (hnext : next ≤ now + fromSecs 1) :
    c'.Aged cap next (born ++ births out) := by
  have hborn := h.known.move hmove
  have hold : ∀ pc ∈ c.closing, ∃ t, (pc.session.keys, t) ∈ born ++ births out ∧
      Retry.EndsBy closeRetransmitBase 2 next (t + cap + fromSecs 4) pc.timer := by
    intro pc hpc
    obtain ⟨t, ht, hends⟩ := h.closing pc hpc
    exact ⟨t, List.mem_append_left _ ht, hends⟩
  have hkept : ∀ x x₀ : Holding, x₀ ∈ c.live → x₀.born = x.born →
      next ≤ x.createdAt + cap + fromSecs 1 := by
    intro x x₀ hx₀ heq
    have hsince : x₀.createdAt = x.createdAt := congrArg Prod.snd heq
    exact hsince ▸ h.live x₀ hx₀
  cases hmove with
  | keep live hlive =>
    refine ⟨hborn, fun x hx => ?_, hold⟩
    obtain ⟨x₀, hx₀, heq⟩ := hlive x hx
    exact hkept x x₀ hx₀ heq
  | create keys live hlive =>
    refine ⟨hborn, fun x hx => ?_, hold⟩
    rcases hlive x hx with hnew | ⟨x₀, hx₀, heq⟩
    · have hsince : x.createdAt = now := congrArg Prod.snd hnew
      rw [hsince]
      omega
    · exact hkept x x₀ hx₀ heq
  | close x pc live out hx hpc hlive =>
    refine ⟨hborn, fun x hx => ?_, fun pc' hpc' => ?_⟩
    · obtain ⟨x₀, hx₀, heq⟩ := hlive x hx
      exact hkept x x₀ hx₀ heq
    rcases List.mem_append.mp hpc' with hpc' | hpc'
    · exact hold pc' hpc'
    · rw [List.mem_singleton.mp hpc']
      refine ⟨x.createdAt, List.mem_append_left _ ?_, ?_, 1, ?_, ?_⟩
      · rw [hpc.keys]
        exact h.known x hx
      · simp [PendingClose.timer, hpc.attempts, closeRetransmitTotal]
      · simp only [PendingClose.timer, hpc.due, one_mul]
        omega
      · have hlive := h.live x hx
        simp only [PendingClose.timer, hpc.attempts, closeRetransmitTotal, closeRetransmitBase,
          fromSecs] at hlive ⊢
        omega

theorem Custody.Aged.trace (h : c.Aged cap next born) (ht : Trace (Move P now) c out c')
    (hnow : now ≤ next) (hnext : next ≤ now + fromSecs 1) :
    c'.Aged cap next (born ++ births out) := by
  refine ht.extend (h := []) (J := fun out c => c.Aged cap next (born ++ births out)) ?_
    (by simpa [births] using h)
  intro done c₁ out c₂ hc hmove
  rw [births_append, ← List.append_assoc]
  exact hc.move hmove hnow hnext

/-- A tick that finds no session over the cap leaves everything aged for the next one. -/
theorem Custody.Aged.flush (h : c.Aged cap next born)
    (hyoung : ∀ x ∈ c.live, next - x.createdAt < cap) :
    Custody.Aged cap (next + fromSecs 1) born
      ⟨c.live, (retransmitCloses P c.closing next).2.1⟩ := by
  refine ⟨h.known, fun x hx => ?_, fun pc' hpc' => ?_⟩
  · have := hyoung x hx
    omega
  · rw [(PendingClose.retransmitCloses_eq c.closing next).2] at hpc'
    obtain ⟨pc, hpc, hpass⟩ := List.mem_filterMap.mp hpc'
    obtain ⟨t, ht, hends⟩ := h.closing pc hpc
    have hstep := (PendingClose.pass_law (P := P)).endsBy_look (by decide) hends
      (Prod.ext rfl hpass : pc.pass P next = (_, some pc'))
    have hkeys := ((PendingClose.pass_close (P := P) pc.session.keys pc.peer pc next
      ⟨hends.1, rfl, rfl⟩).2 pc' hpass).2.1
    exact ⟨t, hkeys ▸ ht, hstep⟩

/-- No object that is left was created too long ago. -/
theorem Custody.Aged.exists_born (h : c.Aged cap next born) {keys : SessionKeys}
    (hholds : c.Holds keys) : ∃ t, (keys, t) ∈ born ∧ next ≤ t + cap + fromSecs 4 := by
  rcases hholds with ⟨x, hx, rfl⟩ | ⟨pc, hpc, rfl⟩
  · refine ⟨x.createdAt, h.known x hx, ?_⟩
    have := h.live x hx
    simp only [fromSecs] at this ⊢
    omega
  · obtain ⟨t, ht, hends⟩ := h.closing pc hpc
    exact ⟨t, ht, hends.le⟩

/-- The moves behind some events: they create nothing, and every packet among the events is a
first Close. -/
def Custody.Accounts (P : Primitives T) (now : ℕ) (c : Custody) (evs : List ManagerEvent)
    (c' : Custody) : Prop :=
  ∃ out, Trace (Move P now) c out c' ∧ births out = [] ∧
    ∀ p ∈ evs.flatMap (·.packets), p ∈ firstCloses out

variable {evs : List ManagerEvent}

theorem Custody.Accounts.refl (c : Custody)
    (hevs : ∀ ev ∈ evs, ev.packets = []) : Accounts P now c evs c := by
  refine ⟨[], .refl c, rfl, fun p hp => ?_⟩
  obtain ⟨ev, hev, hmem⟩ := List.mem_flatMap.mp hp
  rw [hevs ev hev] at hmem
  cases hmem

theorem Custody.Accounts.trans {c'' : Custody} {evs' : List ManagerEvent}
    (h : Accounts P now c evs c') (h' : Accounts P now c' evs' c'') :
    Accounts P now c (evs ++ evs') c'' := by
  obtain ⟨out, htrace, hnone, hevs⟩ := h
  obtain ⟨out', htrace', hnone', hevs'⟩ := h'
  refine ⟨out ++ out', htrace.trans htrace', by rw [births_append, hnone, hnone']; rfl, ?_⟩
  intro p hp
  rw [List.flatMap_append, List.mem_append] at hp
  rw [firstCloses_append, List.mem_append]
  exact hp.imp (hevs p) (hevs' p)

theorem Begins.accounts {x : Holding} {pc : PendingClose} {packet : WirePacket}
    (hx : x ∈ c.live) (h : Begins P now x pc) (hclosing : c'.closing = c.closing ++ [pc])
    (hlive : ∀ x ∈ c'.live, ∃ x₀ ∈ c.live, x₀.born = x.born)
    (hfirst : FirstClose P pc (packet, x.peer))
    (hevs : ∀ ev ∈ evs, ev = .sendPacket packet x.peer ∨ ev.packets = []) :
    Custody.Accounts P now c evs c' := by
  obtain ⟨live, closing⟩ := c'
  obtain rfl : closing = _ := hclosing
  refine ⟨[.close packet x.peer], .single (.close x pc live _ hx h hlive rfl ?_), rfl, ?_⟩
  · intro p hp
    rw [List.mem_singleton.mp hp]
    exact hfirst
  · intro p hp
    obtain ⟨ev, hev, hmem⟩ := List.mem_flatMap.mp hp
    rcases hevs ev hev with rfl | hnone
    · exact hmem
    · rw [hnone] at hmem
      cases hmem

/-- The moves behind a call: they create nothing, and if the call gives one event only, then a
Close that it begins leaves no room for other packets. -/
def Custody.Spares (P : Primitives T) (now : ℕ) (c : Custody) (evs : List ManagerEvent)
    (c' : Custody) : Prop :=
  ∃ out, Trace (Move P now) c out c' ∧ births out = [] ∧ (c'.closing = c.closing ∨
    evs ≠ [] ∧ (evs.length ≤ 1 → ∀ p ∈ evs.flatMap (·.packets), p ∈ firstCloses out))

theorem Custody.Accounts.spares (h : Accounts P now c evs c')
    (hne : evs ≠ []) : Spares P now c evs c' := by
  obtain ⟨out, htrace, hnone, hout⟩ := h
  exact ⟨out, htrace, hnone, Or.inr ⟨hne, fun _ => hout⟩⟩

theorem Custody.Spares.of_move (evs : List ManagerEvent) (h : Move P now c [] c')
    (hsame : c'.closing = c.closing) : Spares P now c evs c' :=
  ⟨[], .single h, rfl, Or.inl hsame⟩

theorem Custody.Spares.trans {c'' : Custody} {evs' : List ManagerEvent} (h : Spares P now c evs c')
    (h' : Spares P now c' evs' c'') : Spares P now c (evs ++ evs') c'' := by
  obtain ⟨out, htrace, hnone, hout⟩ := h
  obtain ⟨out', htrace', hnone', hout'⟩ := h'
  refine ⟨out ++ out', htrace.trans htrace', by rw [births_append, hnone, hnone']; rfl, ?_⟩
  have hpos : ∀ l : List ManagerEvent, l ≠ [] → 0 < l.length := fun l => List.length_pos_iff.mpr
  rcases hout with hsame | ⟨hne, hout⟩
  · rcases hout' with hsame' | ⟨hne', hout'⟩
    · exact Or.inl (hsame'.trans hsame)
    · refine Or.inr ⟨List.append_ne_nil_of_right_ne_nil _ hne', fun hlen p hp => ?_⟩
      have hnil : evs = [] := by
        have := hpos _ hne'
        rw [List.length_append] at hlen
        exact List.length_eq_zero_iff.mp (by omega)
      subst hnil
      rw [firstCloses_append]
      exact List.mem_append_right _ (hout' hlen p hp)
  · refine Or.inr ⟨List.append_ne_nil_of_left_ne_nil hne _, fun hlen p hp => ?_⟩
    have hnil : evs' = [] := by
      have := hpos _ hne
      rw [List.length_append] at hlen
      exact List.length_eq_zero_iff.mp (by omega)
    subst hnil
    rw [List.append_nil] at hlen hp
    rw [firstCloses_append]
    exact List.mem_append_left _ (hout hlen p hp)

end Moves

end PqTunnel
