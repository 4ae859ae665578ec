import PqTunnel.Manager.Types

/-! The periodic schedule of cover packets. -/
namespace PqTunnel
open Transition

structure CoverPolicy where
  enabled : Bool
  interval : ℕ

def defaultCoverRateBps : UInt64 := 2000000

def minCoverIntervalNanos : ℕ := 21762

def packetNanos : ℕ := packetSize * 8 * 1000000000

def maxCoverRateBps : ℕ := packetNanos / minCoverIntervalNanos

/-- The interval of a rate in nanoseconds; the product saturates at the largest `u64`. -/
def intervalFromRateBps (rateBps : UInt64) : ℕ :=
  max (min packetNanos (2 ^ 64 - 1) / max rateBps.toNat 1) minCoverIntervalNanos

/-- The largest rate in megabits that does not overflow as a rate in bits. -/
def maxCoverMbps : ℕ := (2 ^ 64 - 1) / 1000000

def maxCoverMbpsPacing : ℕ := maxCoverRateBps / 1000000

def checkedMul (a b : UInt64) : Option UInt64 :=
  if a.toNat * b.toNat < 2 ^ 64 then some (a * b) else none

def coverPolicyFromArgs (noCover : Bool) (mbps : UInt64) : Except String CoverPolicy :=
  if noCover then .ok ⟨false, intervalFromRateBps defaultCoverRateBps⟩
  else if mbps = 0 then
    .error "--cover-mbps must be >= 1; use --no-cover to disable cover traffic"
  else
    match checkedMul mbps 1000000 with
    | none => .error ("--cover-mbps " ++ toString mbps ++ " overflows a u64 bitrate (max " ++
        toString maxCoverMbps ++ ")")
    | some bps =>
      if maxCoverRateBps < bps.toNat then
        .error ("--cover-mbps " ++ toString mbps ++
          " exceeds the maximum schedulable cover rate (max " ++ toString maxCoverMbpsPacing ++ " Mbps): a cover interval shorter than " ++
          toString minCoverIntervalNanos ++ " ns is not schedulable")
      else .ok ⟨true, intervalFromRateBps bps⟩

section Rates

/-- Nothing saturates: a packet's nanoseconds fit in a `u64`. -/
theorem intervalFromRateBps_eq (r : UInt64) :
    intervalFromRateBps r = max (packetNanos / max r.toNat 1) minCoverIntervalNanos := by
  rw [intervalFromRateBps, min_eq_left (by decide)]

theorem interval_exact_iff {r : UInt64} (hr : 1 ≤ r.toNat) :
    intervalFromRateBps r = packetNanos / r.toNat ↔ r.toNat ≤ maxCoverRateBps := by
  rw [intervalFromRateBps_eq, max_eq_left hr, max_eq_left_iff, maxCoverRateBps,
    Nat.le_div_iff_mul_le hr, Nat.le_div_iff_mul_le (by decide), Nat.mul_comm]

theorem checkedMul_eq_some {a b c : UInt64} :
    checkedMul a b = some c ↔ a.toNat * b.toNat = c.toNat := by
  unfold checkedMul
  split_ifs with hfits
  · rw [Option.some_inj, ← UInt64.toNat_inj, UInt64.toNat_mul, Nat.mod_eq_of_lt hfits]
  · have := c.toNat_lt
    simp only [false_iff]
    omega

/-- The interval of a rate is exact up to the largest schedulable rate and at its floor above it;
the command line takes exactly the rates whose interval is exact. -/
theorem cover_rates_exact :
    (∀ r : UInt64, packetNanos < 2 ^ 64 ∧ minCoverIntervalNanos ≤ intervalFromRateBps r) ∧
    (∀ r r' : UInt64, r ≤ r' → intervalFromRateBps r' ≤ intervalFromRateBps r) ∧
    (∀ r : UInt64, 1 ≤ r.toNat →
      (intervalFromRateBps r = 1280 * 8 * 10 ^ 9 / r.toNat ↔ r.toNat ≤ maxCoverRateBps)) ∧
    IsGreatest {n | ∃ r : UInt64, r.toNat = n ∧ 1 ≤ n ∧
      intervalFromRateBps r = 1280 * 8 * 10 ^ 9 / n} maxCoverRateBps ∧
    ∀ mbps : UInt64,
      ((∃ policy, coverPolicyFromArgs false mbps = .ok policy) ↔
        1 ≤ mbps.toNat ∧ mbps.toNat * 10 ^ 6 ≤ maxCoverRateBps) ∧
      ∀ policy, coverPolicyFromArgs false mbps = .ok policy →
        policy = ⟨true, 1280 * 8 * 10 ^ 9 / (mbps.toNat * 10 ^ 6)⟩ := by
  refine ⟨fun r => ⟨by decide, le_max_right _ _⟩, ?_, fun r => interval_exact_iff, ?_, ?_⟩
  · intro r r' hle
    rw [intervalFromRateBps_eq, intervalFromRateBps_eq]
    have hnat : r.toNat ≤ r'.toNat := hle
    exact max_le_max_right _ (Nat.div_le_div_left (max_le_max_right 1 hnat) (by omega))
  · refine ⟨⟨470544986, rfl, by decide, interval_exact_iff (by decide) |>.mpr (by decide)⟩, ?_⟩
    rintro n ⟨r, rfl, hr, hexact⟩
    exact (interval_exact_iff hr).mp hexact
  · intro mbps
    unfold coverPolicyFromArgs
    by_cases hzero : mbps = 0
    · simp [hzero]
    have hpos : 1 ≤ mbps.toNat := by
      rw [Nat.one_le_iff_ne_zero]
      exact fun h => hzero (UInt64.toNat_inj.mp h)
    simp only [Bool.false_eq_true, hzero, if_false, hpos, true_and]
    cases hmul : checkedMul mbps 1000000 with
    | none =>
      have hwide : ¬ mbps.toNat * 10 ^ 6 < 2 ^ 64 := by simpa [checkedMul] using hmul
      have hmax : maxCoverRateBps < 2 ^ 64 := by decide
      simp only [reduceCtorEq, exists_false, false_iff, false_imp_iff, implies_true, and_true]
      omega
    | some bps =>
      have hbps : mbps.toNat * 10 ^ 6 = bps.toNat := checkedMul_eq_some.mp hmul
      dsimp only
      rw [hbps]
      split_ifs with hfast
      · simpa using hfast
      · have hexact := (interval_exact_iff (r := bps) (by omega)).mpr (not_lt.mp hfast)
        refine ⟨⟨fun _ => not_lt.mp hfast, fun _ => ⟨_, rfl⟩⟩, ?_⟩
        rintro policy ⟨⟩
        rw [hexact]
        rfl

end Rates

/-- `next` is the deadline of the next cover packet, if one is scheduled. -/
structure CoverScheduler where
  policy : CoverPolicy
  next : Option ℕ

namespace CoverScheduler

def new (policy : CoverPolicy) : CoverScheduler where
  policy := policy
  next := none

def start (s : CoverScheduler) (now : ℕ) : CoverScheduler :=
  if s.next.isNone && s.policy.enabled then { s with next := some (now + s.policy.interval) }
  else s

def stop (s : CoverScheduler) : CoverScheduler := { s with next := none }

def nextDeadline (s : CoverScheduler) : Option ℕ := s.next

/-- Whether one packet is due, and the schedule after it. -/
def onDeadline (s : CoverScheduler) (now : ℕ) : Bool × CoverScheduler :=
  if s.policy.enabled = false then (false, { s with next := none })
  else
    match s.next with
    | none => (false, s)
    | some due =>
      if due ≤ now then (true, { s with next := some (now + s.policy.interval) }) else (false, s)

inductive Call where
  | start (now : ℕ)
  | stop
  | onDeadline (now : ℕ)

def Call.time : Call → Option ℕ
  | .start now => some now
  | .stop => none
  | .onDeadline now => some now

def call (s : CoverScheduler) : Call → CoverScheduler
  | .start now => s.start now
  | .stop => s.stop
  | .onDeadline now => (s.onDeadline now).2

def run (s : CoverScheduler) (calls : List Call) : CoverScheduler := calls.foldl call s

def emission (s : CoverScheduler) : Call → List ℕ
  | .onDeadline now => if (s.onDeadline now).1 then [now] else []
  | _ => []

def emissions : CoverScheduler → List Call → List ℕ := outputs call emission

def times (calls : List Call) : List ℕ := calls.filterMap Call.time

/-- The start that armed the deadline: there was none before it, and no stop came after it. -/
def ArmedAt (policy : CoverPolicy) (calls : List Call) (t : ℕ) : Prop :=
  ∃ before after, calls = before ++ .start t :: after ∧ ((new policy).run before).next = none ∧
    .stop ∉ after

/-- Every start was followed by a stop. -/
def Stopped (calls : List Call) : Prop :=
  ∀ before t after, calls = before ++ .start t :: after → .stop ∈ after

variable {policy : CoverPolicy} {calls : List Call} {s : CoverScheduler}

theorem emissions_sublist (s : CoverScheduler) (calls : List Call) :
    (s.emissions calls).Sublist (times calls) := by
  induction calls generalizing s with
  | nil => exact .refl _
  | cons c calls ih =>
    change (s.emission c ++ _).Sublist _
    cases c with
    | start t => exact (ih _).cons t
    | stop => exact ih _
    | onDeadline t =>
      rw [emission]
      split_ifs
      · exact (ih _).cons_cons t
      · exact (ih _).cons t

/-- An armed deadline is an interval behind the start that armed it and behind every packet. -/
structure Paced (policy : CoverPolicy) (calls : List Call) : Prop where
  same : ((new policy).run calls).policy = policy
  spaced : ((new policy).emissions calls).Pairwise fun t t' => t + policy.interval ≤ t'
  armed : ∀ due, ((new policy).run calls).next = some due → policy.enabled = true ∧
    (∀ t ∈ (new policy).emissions calls, t + policy.interval ≤ due) ∧
    ∃ t, ArmedAt policy calls t ∧ t + policy.interval ≤ due

theorem ArmedAt.snoc {t : ℕ} (h : ArmedAt policy calls t) {c : Call} (hc : c ≠ .stop) :
    ArmedAt policy (calls ++ [c]) t := by
  obtain ⟨before, after, rfl, hnone, hafter⟩ := h
  refine ⟨before, after ++ [c], by simp, hnone, ?_⟩
  simp [hafter, hc.symm]

theorem onDeadline_due {due : ℕ} (henabled : s.policy.enabled = true) (hnext : s.next = some due)
    (now : ℕ) :
    s.onDeadline now =
      if due ≤ now then (true, { s with next := some (now + s.policy.interval) })
      else (false, s) := by
  simp [onDeadline, henabled, hnext]

theorem onDeadline_unarmed (h : s.policy.enabled = false ∨ s.next = none) (now : ℕ) :
    s.onDeadline now = (false, { s with next := none }) := by
  unfold onDeadline
  split_ifs with hdisabled
  · rfl
  · have hnone := h.resolve_left hdisabled
    obtain ⟨policy, next⟩ := s
    obtain rfl : next = none := hnone
    rfl

theorem Paced.snoc (h : Paced policy calls) (c : Call)
    (hlast : ∀ t ∈ (new policy).emissions calls, ∀ now, c.time = some now → t ≤ now) :
    Paced policy (calls ++ [c]) := by
  have hrun : (new policy).run (calls ++ [c]) = ((new policy).run calls).call c := by
    simp [run, List.foldl_append]
  have hout : (new policy).emissions (calls ++ [c]) =
      (new policy).emissions calls ++ ((new policy).run calls).emission c := outputs_snoc ..
  obtain ⟨hpolicy, hspaced, harmed⟩ := h
  have hnone : ((new policy).run calls).next = none →
      ∀ t, ArmedAt policy (calls ++ [.start t]) t := fun hn t => ⟨calls, [], rfl, hn, by simp⟩
  generalize (new policy).run calls = s at hrun hout hpolicy harmed hnone
  generalize (new policy).emissions calls = es at hout hspaced harmed hlast
  -- a call that neither arms a deadline nor lets a packet go
  have hquiet : ∀ s', (new policy).run (calls ++ [c]) = s' → s'.policy = s.policy →
      (s'.next = none ∨ s'.next = s.next ∧ c ≠ .stop) → s.emission c = [] →
      Paced policy (calls ++ [c]) := by
    intro s' heq hsame hnext hnil
    rw [hnil, List.append_nil] at hout
    refine ⟨by rw [heq, hsame, hpolicy], by rwa [hout], ?_⟩
    rw [heq, hout]
    intro due hdue
    rcases hnext with hnext | ⟨hnext, hc⟩
    · rw [hnext] at hdue
      cases hdue
    · obtain ⟨henabled, hes, t, ht, hle⟩ := harmed due (hnext ▸ hdue)
      exact ⟨henabled, hes, t, ht.snoc hc, hle⟩
  cases c with
  | stop => exact hquiet _ hrun rfl (Or.inl rfl) rfl
  | start now =>
    rw [call, start] at hrun
    split_ifs at hrun with hfree
    · simp only [Bool.and_eq_true, Option.isNone_iff_eq_none] at hfree
      have hes : (new policy).emissions (calls ++ [.start now]) = es := by
        rw [hout]
        exact List.append_nil _
      refine ⟨by rw [hrun, hpolicy], by rwa [hes], ?_⟩
      rw [hrun, hes, ← hpolicy]
      rintro due ⟨⟩
      refine ⟨hfree.2, fun t ht => Nat.add_le_add_right (hlast t ht now rfl) _, now, ?_, le_refl _⟩
      exact hpolicy.symm ▸ hnone hfree.1 now
    · exact hquiet s hrun rfl (Or.inr ⟨rfl, by simp⟩) rfl
  | onDeadline now =>
    cases hnext : s.next with
    | none =>
      have heq := onDeadline_unarmed (Or.inr hnext) now
      refine hquiet _ hrun ?_ (Or.inl ?_) ?_ <;> simp [call, emission, heq]
    | some due =>
      obtain ⟨henabled, hes, t, ht, hle⟩ := harmed due hnext
      have heq := onDeadline_due (hpolicy ▸ henabled) hnext now
      by_cases hdue : due ≤ now
      · rw [if_pos hdue] at heq
        have hemit : s.emission (.onDeadline now) = [now] := by simp [emission, heq]
        rw [hemit] at hout
        rw [call, heq] at hrun
        refine ⟨by rw [hrun, hpolicy], ?_, ?_⟩
        · rw [hout]
          refine List.pairwise_append.mpr ⟨hspaced, List.pairwise_singleton _ _, ?_⟩
          intro t ht t' ht'
          rw [List.mem_singleton.mp ht']
          exact (hes t ht).trans hdue
        · rw [hrun, hout, hpolicy]
          rintro due' ⟨⟩
          refine ⟨henabled, ?_, t, ht.snoc (by simp), by omega⟩
          intro t' ht'
          rcases List.mem_append.mp ht' with ht' | ht'
          · exact Nat.add_le_add_right ((Nat.le_of_add_right_le (hes t' ht')).trans hdue) _
          · rw [List.mem_singleton.mp ht']
      · rw [if_neg hdue] at heq
        refine hquiet s ?_ rfl (Or.inr ⟨rfl, by simp⟩) ?_ <;> simp [hrun, call, emission, heq]

theorem paced_run (policy : CoverPolicy) (h : (times calls).Pairwise (· ≤ ·)) :
    Paced policy calls := by
  induction calls using List.reverseRecOn with
  | nil => exact ⟨rfl, .nil, fun due hdue => by cases hdue⟩
  | append_singleton calls c ih =>
    rw [times, List.filterMap_append, List.pairwise_append] at h
    refine (ih h.1).snoc c fun t ht now hnow => ?_
    exact h.2.2 t ((emissions_sublist _ _).subset ht) now (by simp [hnow])

/-- Cover packets are at least an interval apart and behind the start that armed the schedule,
over any calls. Nothing goes out when the schedule is disabled or stopped, and one packet goes out
when a deadline has come, however late. -/
theorem cover_paced (policy : CoverPolicy) (calls : List Call)
    (hsorted : (times calls).Pairwise (· ≤ ·)) :
    ((new policy).emissions calls).Pairwise (fun t t' => t + policy.interval ≤ t') ∧
    ∀ before now after, calls = before ++ .onDeadline now :: after →
      ((((new policy).run before).onDeadline now).1 = true →
        ∃ t, ArmedAt policy before t ∧ t + policy.interval ≤ now) ∧
      (policy.enabled = false ∨ Stopped before →
        (((new policy).run before).onDeadline now).1 = false) ∧
      ∀ due, policy.enabled = true → ((new policy).run before).nextDeadline = some due →
        due ≤ now → (((new policy).run before).onDeadline now).1 = true ∧
        ∀ mid rest, after = mid ++ rest → (∀ t ∈ times mid, t < now + policy.interval) →
          ((new policy).run before).emissions (.onDeadline now :: mid) = [now] := by
  refine ⟨(paced_run policy hsorted).spaced, ?_⟩
  rintro before now after rfl
  have hbefore : (times before).Pairwise (· ≤ ·) := by
    rw [times, List.filterMap_append] at hsorted
    exact (List.pairwise_append.mp hsorted).1
  obtain ⟨hpolicy, -, harmed⟩ := paced_run policy hbefore
  generalize hrun : (new policy).run before = s at hpolicy harmed
  refine ⟨?_, ?_, ?_⟩
  · intro hemit
    cases hnext : s.next with
    | none => simp [onDeadline_unarmed (Or.inr hnext)] at hemit
    | some due =>
      obtain ⟨henabled, -, t, ht, hle⟩ := harmed due hnext
      rw [onDeadline_due (hpolicy ▸ henabled) hnext] at hemit
      by_cases hdue : due ≤ now
      · exact ⟨t, ht, hle.trans hdue⟩
      · simp [hdue] at hemit
  · intro hidle
    rw [onDeadline_unarmed]
    rcases hidle with hdisabled | hstopped
    · exact Or.inl (hpolicy ▸ hdisabled)
    · right
      cases hnext : s.next with
      | none => rfl
      | some due =>
        obtain ⟨-, -, t, ⟨b, a, heq, -, hstop⟩, -⟩ := harmed due hnext
        exact absurd (hstopped b t a heq) hstop
  · intro due henabled hnext hdue
    have heq := onDeadline_due (hpolicy ▸ henabled) hnext now
    rw [if_pos hdue] at heq
    refine ⟨by rw [heq], ?_⟩
    rintro mid rest rfl hmid
    have hcons : s.emissions (.onDeadline now :: mid) =
        now :: (s.call (.onDeadline now)).emissions mid := by
      change s.emission _ ++ _ = _
      rw [emission, heq]
      rfl
    -- a packet among the later calls would be less than an interval behind this one
    rw [← List.cons_append, ← List.append_assoc, times, List.filterMap_append] at hsorted
    have hspaced := (paced_run policy (List.pairwise_append.mp hsorted).1).spaced
    rw [emissions, outputs_append, List.pairwise_append] at hspaced
    have hpair : (s.emissions (.onDeadline now :: mid)).Pairwise
        fun t t' => t + policy.interval ≤ t' := hrun.symm ▸ hspaced.2.1
    rw [hcons] at hpair ⊢
    refine congrArg (now :: ·) (List.eq_nil_iff_forall_not_mem.mpr fun t ht => ?_)
    have hearly := hmid t ((emissions_sublist _ _).subset ht)
    exact absurd (List.rel_of_pairwise_cons hpair ht) (not_le.mpr hearly)

/-- A wake-up two intervals late lets one packet go, and a restart waits for a new interval. -/
theorem cover_paced_late :
    ((new ⟨true, 5⟩).emissions [.start 0, .onDeadline 11, .onDeadline 12, .stop, .start 13,
      .onDeadline 17, .onDeadline 18]).Pairwise (fun t t' => t + 5 ≤ t') ∧
    (new ⟨true, 5⟩).emissions [.start 0, .onDeadline 11, .onDeadline 12, .stop, .start 13,
      .onDeadline 17, .onDeadline 18] = [11, 18] :=
  ⟨(cover_paced ⟨true, 5⟩ _ (by decide)).1, by decide⟩

end CoverScheduler
end PqTunnel
