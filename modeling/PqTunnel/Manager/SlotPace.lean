import PqTunnel.Manager.PeerLoss

/-! The slot arm of the client: when the next slot is due, and what the slot that is due does. -/
namespace PqTunnel.ClientSessionManager

variable {T : CryptoTypes} {P : Primitives T} {m m' : ClientSessionManager T} {now : ℕ}

theorem nextSlotDelay_zero (h : m.nextSlotDelay now = some 0)
    (hpace : 0 < m.limits.slotInterval) :
    m.SlotOpen now ∧ (m.outQueue ≠ [] ∨ ∃ due, m.nextProbeAt = some due ∧ due ≤ now) := by
  rw [SlotOpen]
  cases hget : m.session with
  | none => simp [nextSlotDelay, hget] at h
  | some session =>
    cases hlast : m.lastSlotAt <;> cases hqueue : m.outQueue <;> cases hprobe : m.nextProbeAt <;>
      simp [nextSlotDelay, hget, hlast, hqueue, hprobe] at h ⊢ <;> omega

theorem sendEncrypted_kept {m₁ : ClientSessionManager T} {payload : Bytes} {clock : ℕ}
    {r : ClientStep T} (h : m₁.sendEncrypted P .data payload clock = r) :
    r.2.outQueue = m₁.outQueue ∧ r.2.limits = m₁.limits := by
  have hback := (bystands_sendEncrypted (P := P) m₁ .data payload clock).backlog
  rw [h] at hback
  exact ⟨congrArg (·.1) hback, congrArg (·.2.2.2) hback⟩

theorem SlotOpen.not_paced (hopen : m.SlotOpen now) (hpace : 0 < m.limits.slotInterval) :
    m.lastSlotAt ≠ some now := by
  intro h
  obtain ⟨-, hlast⟩ := hopen
  rw [h, Option.all_some, decide_eq_true_iff] at hlast
  omega

/-- After a slot the next one is not due at once. -/
theorem nextSlotDelay_takeSlot (hpace : 0 < m.limits.slotInterval)
    (hprobe : 0 < m.limits.livenessProbeInterval) (clock : ℕ) :
    (m.takeSlot P now clock).2.nextSlotDelay now ≠ some 0 := by
  have hslot := m.takeSlot_slot (P := P) now clock
  generalize m.takeSlot P now clock = res at hslot ⊢
  intro hzero
  cases hslot with
  | shut hshut => exact hshut (nextSlotDelay_zero hzero hpace).1
  | flushed _ q rest r _ hsend =>
    have hlimits : r.2.limits = m.limits := (sendEncrypted_kept hsend).2
    rw [← hlimits] at hpace
    exact (nextSlotDelay_zero hzero hpace).1.not_paced hpace rfl
  | drained _ hempty _ _ hearly =>
    obtain ⟨-, hqueue | ⟨due, hnext, hle⟩⟩ := nextSlotDelay_zero hzero hpace
    · exact hqueue hempty
    · have hdue : m.nextProbeAt = some due := hnext
      rw [hdue, Option.all_some, decide_eq_true_iff] at hearly
      omega
  | unsent _ hempty _ m' _ hbuild =>
    have hkept : m'.limits = m.limits ∧ m'.outQueue = [] ∧
        m'.nextProbeAt = some (now + m.limits.livenessProbeInterval) := by
      cases probed_of_eq hbuild <;> exact ⟨rfl, hempty, rfl⟩
    obtain ⟨hlimits, hqueue, hnext⟩ := hkept
    rw [← hlimits] at hpace
    obtain ⟨-, hqueue' | ⟨due, hnext', hle⟩⟩ := nextSlotDelay_zero hzero hpace
    · exact hqueue' hqueue
    · cases hnext.symm.trans hnext'
      omega
  | probed _ _ _ packet m' _ hbuild =>
    have hlimits : m'.limits = m.limits := by cases probed_of_eq hbuild; rfl
    rw [← hlimits] at hpace
    exact (nextSlotDelay_zero hzero hpace).1.not_paced hpace rfl

/-- With limits that pass the validation and a probe interval, whatever a slot returned, the next
one is not due at the same instant. A slot that is due returns an event, drops a queue of expired
payloads, or moves the deadline of the probe into the future; where the event says nothing, a
payload has left the queue. -/
theorem slot_arm_never_spins (P : Primitives T) (m : ClientSessionManager T)
    (hvalid : m.limits.validate = .ok ()) (hprobe : m.limits.livenessProbeInterval ≠ 0)
    (now clock : ℕ) :
    (∀ d, (m.takeSlot P now clock).2.nextSlotDelay now = some d → 0 < d) ∧
    (m.nextSlotDelay now = some 0 →
      (∃ ev, (m.takeSlot P now clock).1 = some ev ∧
        (ev = .none → (m.takeSlot P now clock).2.outQueue.length < m.outQueue.length)) ∨
      (m.outQueue ≠ [] ∧ (∀ q ∈ m.outQueue, outboundQueueTtl ≤ now - q.queuedAt) ∧
        (m.takeSlot P now clock).2.outQueue = []) ∨
      ∃ due due', m.nextProbeAt = some due ∧ due ≤ now ∧
        (m.takeSlot P now clock).2.nextProbeAt = some due' ∧ now < due') := by
  have hpace := slotInterval_pos hvalid
  have hpos := Nat.pos_of_ne_zero hprobe
  constructor
  · intro d hd
    refine Nat.pos_of_ne_zero ?_
    rintro rfl
    exact nextSlotDelay_takeSlot hpace hpos clock hd
  intro hzero
  obtain ⟨hopen, hdue⟩ := nextSlotDelay_zero hzero hpace
  have hslot := m.takeSlot_slot (P := P) now clock
  generalize m.takeSlot P now clock = res at hslot ⊢
  cases hslot with
  | shut hshut => exact absurd hopen hshut
  | flushed _ q rest r hqueue hsend =>
    refine Or.inl ⟨_, rfl, fun _ => ?_⟩
    have hrest : r.2.outQueue = rest := (sendEncrypted_kept hsend).1
    have hfilter : (m.expireQueued now).2.outQueue.length ≤ m.outQueue.length :=
      List.length_filter_le ..
    rw [hqueue, List.length_cons] at hfilter
    rw [hrest]
    omega
  | drained _ hempty _ _ hearly =>
    refine Or.inr (Or.inl ⟨hdue.resolve_right ?_, fun q hq => ?_, hempty⟩)
    · rintro ⟨due, hnext, hle⟩
      rw [hnext, Option.all_some, decide_eq_true_iff] at hearly
      omega
    · have hold := List.filter_eq_nil_iff.mp hempty q hq
      simpa using hold
  | unsent _ _ hslot m' _ hbuild =>
    simp only [probeSlot, Bool.and_eq_true] at hslot
    obtain ⟨due, hnext, hle⟩ := (Option.any_eq_true ..).mp hslot.2
    refine Or.inr (Or.inr ⟨due, now + m.limits.livenessProbeInterval, hnext,
      of_decide_eq_true hle, ?_, by omega⟩)
    cases probed_of_eq hbuild <;> rfl
  | probed => exact Or.inl ⟨_, rfl, by simp⟩

/-- A confirmed session whose first probe is due. -/
theorem slot_arm_probe_due : ∃ m : ClientSessionManager Sample.types,
    m.limits.validate = .ok () ∧ m.limits.livenessProbeInterval ≠ 0 ∧
      m.nextSlotDelay (fromSecs 5) = some 0 ∧
      ∀ d, (m.takeSlot Sample.primitives (fromSecs 5) 0).2.nextSlotDelay (fromSecs 5) = some d →
        0 < d := by
  obtain ⟨calls, s, pkt, -, h⟩ := exists_sample_confirmed hastyLimits
  have hback := h.backlog
  simp only [backlog, Prod.mk.injEq] at hback
  obtain ⟨hqueue, -, hlast, hlimits⟩ := hback
  have hvalid : (run Sample.primitives (sampleClient hastyLimits) calls).limits.validate =
      .ok () := by
    rw [hlimits]
    rfl
  have hprobe : (run Sample.primitives (sampleClient hastyLimits)
      calls).limits.livenessProbeInterval ≠ 0 := by
    rw [hlimits]
    decide
  refine ⟨_, hvalid, hprobe, ?_, (slot_arm_never_spins Sample.primitives _ hvalid hprobe _ _).1⟩
  have hdue : hastyLimits.livenessProbeInterval = fromSecs 5 := rfl
  simp [nextSlotDelay, h.session, hlast, hqueue, h.probe, hdue]

end PqTunnel.ClientSessionManager
