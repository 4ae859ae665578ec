import PqTunnel.Manager.FailureBudget

/-! Sweeping the failure buckets against leaving them. Expiry is a logical property of a bucket,
so a sweep is invisible to every later check, except through the bound on the table: a swept
table has room where an unswept one drops its oldest source, live or not. -/
namespace PqTunnel.FailGate
open PqTunnel.Transition

inductive GateCall where
  | peek (src : SocketAddr) (now : ℕ)
  | consume (src : SocketAddr) (now : ℕ)
  | sweep (now : ℕ)
  deriving DecidableEq

def GateCall.time : GateCall → ℕ
  | .peek _ now => now
  | .consume _ now => now
  | .sweep now => now

def GateCall.isSweep : GateCall → Bool
  | .sweep _ => true
  | _ => false

def call (limits : SessionLimits) (g : FailGate) : GateCall → FailGate
  | .peek _ _ => g
  | .consume src now => g.consume src now limits
  | .sweep now => g.sweep now limits

def decision (limits : SessionLimits) (g : FailGate) : GateCall → List Bool
  | .peek src now => [g.peek src now limits]
  | _ => []

def decisions (limits : SessionLimits) : FailGate → List GateCall → List Bool :=
  outputs (call limits) (decision limits)

def unswept (calls : List GateCall) : List GateCall := calls.filter fun c => !c.isSweep

/-- The operation makes room by dropping a tracked source: a new source comes at the bound. -/
def Evicts (limits : SessionLimits) (g : FailGate) : GateCall → Prop
  | .consume src _ => 1 ≤ limits.maxFailBuckets ∧ g.buckets.get src = none ∧
      limits.maxFailBuckets ≤ g.buckets.size
  | _ => False

variable {limits : SessionLimits} {g h : FailGate} {src : SocketAddr} {now t t' : ℕ}

/-- The first gate is the second one without some of its expired buckets. -/
structure Lags (limits : SessionLimits) (t : ℕ) (g h : FailGate) : Prop where
  left : Ok limits g
  right : Ok limits h
  agree : ∀ src, g.buckets.get src = h.buckets.get src ∨
    g.buckets.get src = none ∧
      ∃ b, h.buckets.get src = some b ∧ limits.failWindow ≤ t - b.lastRefill

theorem new_lags (limits : SessionLimits) (start t : ℕ) :
    Lags limits t (FailGate.new start) (FailGate.new start) :=
  ⟨new_ok limits start, new_ok limits start, fun _ => Or.inl rfl⟩

namespace Lags

theorem later (hlag : Lags limits t g h) (ht : t ≤ t') : Lags limits t' g h := by
  refine ⟨hlag.left, hlag.right, fun src => ?_⟩
  rcases hlag.agree src with heq | ⟨hnone, b, hb, hold⟩
  · exact Or.inl heq
  · exact Or.inr ⟨hnone, b, hb, by omega⟩

theorem get_right (hlag : Lags limits t g h) {b : RateBucket}
    (hget : g.buckets.get src = some b) : h.buckets.get src = some b := by
  rcases hlag.agree src with heq | ⟨hnone, -⟩
  · rw [← heq, hget]
  · cases hnone.symm.trans hget

/-- An expired bucket passes the check, as a missing one does. -/
theorem peek_eq (hlag : Lags limits t g h) (src : SocketAddr) :
    g.peek src t limits = h.peek src t limits := by
  unfold peek
  rcases hlag.agree src with heq | ⟨hnone, b, hb, hold⟩
  · rw [heq]
  · simp only [hnone, hb, hold, if_true]

theorem keys_subset (hlag : Lags limits t g h) : g.buckets.keys ⊆ h.buckets.keys := by
  intro k hk
  obtain ⟨b, hb⟩ := Table.mem_keys.mp hk
  exact Table.mem_keys.mpr ⟨b, hlag.get_right hb⟩

theorem size_le (hlag : Lags limits t g h) : g.buckets.size ≤ h.buckets.size := by
  rw [Table.size_eq_length_keys, Table.size_eq_length_keys]
  exact (g.buckets.nodup_keys.subperm hlag.keys_subset).length_le

/-- A source tracked by the second gate only leaves the first one room. -/
theorem size_lt (hlag : Lags limits t g h) {b : RateBucket} (hnone : g.buckets.get src = none)
    (hget : h.buckets.get src = some b) : g.buckets.size < h.buckets.size := by
  have hmem : src ∈ h.buckets.keys := Table.mem_keys.mpr ⟨b, hget⟩
  have hsub : g.buckets.keys ⊆ h.buckets.keys.erase src := by
    intro k hk
    have hne : k ≠ src := by
      rintro rfl
      obtain ⟨c, hc⟩ := Table.mem_keys.mp hk
      cases hnone.symm.trans hc
    exact (List.mem_erase_of_ne hne).mpr (hlag.keys_subset hk)
  have hle := (g.buckets.nodup_keys.subperm hsub).length_le
  have hpos := List.length_pos_of_mem hmem
  rw [List.length_erase_of_mem hmem] at hle
  rw [Table.size_eq_length_keys, Table.size_eq_length_keys]
  omega

/-- Where the second gate drops no source, neither does the first. -/
theorem not_evicts (hlag : Lags limits t g h) (hroom : ¬ Evicts limits h (.consume src now)) :
    ¬ Evicts limits g (.consume src now) := by
  rintro ⟨hmax, hnone, hfull⟩
  have hsize := hlag.right.size
  have hle := hlag.size_le
  cases hget : h.buckets.get src with
  | none => exact hroom ⟨hmax, hget, by omega⟩
  | some b =>
    have hlt := hlag.size_lt hnone hget
    omega

theorem get_consume_other (hok : Ok limits g) (hmax : 1 ≤ limits.maxFailBuckets)
    (hroom : ¬ Evicts limits g (.consume src now)) {src' : SocketAddr} (hne : src' ≠ src) :
    (g.consume src now limits).buckets.get src' = g.buckets.get src' := by
  rcases hok.get_consume_ne hmax hne now with heq | ⟨hnone, hsize, -⟩
  · exact heq
  · exact absurd ⟨hmax, hnone, hsize.ge⟩ hroom

/-- A charge refills an expired bucket to what a new bucket starts with. -/
theorem consume (hlag : Lags limits t g h) (src : SocketAddr)
    (hroom : ¬ Evicts limits h (.consume src t)) :
    Lags limits t (g.consume src t limits) (h.consume src t limits) := by
  rcases Nat.eq_zero_or_pos limits.maxFailBuckets with hzero | hmax
  · simp only [FailGate.consume, hzero, if_true]
    exact hlag
  refine ⟨hlag.left.consume hmax, hlag.right.consume hmax, fun src' => ?_⟩
  by_cases hsrc : src' = src
  · subst hsrc
    left
    rw [get_consume_self g src' t hmax, get_consume_self h src' t hmax]
    rcases hlag.agree src' with heq | ⟨hnone, b, hb, hold⟩
    · rw [heq]
    · simp only [hnone, hb, hold, if_true]
  · rw [get_consume_other hlag.left hmax (hlag.not_evicts hroom) hsrc,
      get_consume_other hlag.right hmax hroom hsrc]
    exact hlag.agree src'

/-- A sweep of the first gate removes expired buckets only. -/
theorem sweep (hlag : Lags limits t g h) : Lags limits t (g.sweep t limits) h := by
  refine ⟨hlag.left.sweep t, hlag.right, fun src => ?_⟩
  unfold FailGate.sweep
  split_ifs
  · exact hlag.agree src
  · exact hlag.agree src
  · dsimp only
    rw [Table.get_retain]
    rcases hlag.agree src with heq | ⟨hnone, hgone⟩
    · rw [← heq]
      cases hget : g.buckets.get src with
      | none => exact Or.inl rfl
      | some b =>
        by_cases hfresh : t - b.lastRefill < limits.failWindow
        · left
          simp [hfresh]
        · right
          exact ⟨by simp only [Option.filter_some, hfresh, decide_false]; rfl, b, rfl,
            not_lt.mp hfresh⟩
    · exact Or.inr ⟨by rw [hnone]; rfl, hgone⟩

end Lags

/-- A run decides as the same run with no sweep does, as long as the latter drops no source. -/
theorem Lags.decisions_eq {calls : List GateCall} (hlag : Lags limits t g h)
    (hsorted : (t :: calls.map GateCall.time).Pairwise (· ≤ ·))
    (hroom : Along (call limits) (fun h c => ¬ Evicts limits h c) h (unswept calls)) :
    decisions limits g calls = decisions limits h (unswept calls) := by
  induction calls generalizing t g h with
  | nil => rfl
  | cons c calls ih =>
    rw [List.map_cons, List.pairwise_cons] at hsorted
    obtain ⟨hfirst, hsorted⟩ := hsorted
    have hnow := hlag.later (hfirst c.time List.mem_cons_self)
    cases c with
    | peek src now =>
      have hrest := ih hnow hsorted hroom.2
      exact congrArg₂ List.cons (hnow.peek_eq src) hrest
    | consume src now => exact ih (hnow.consume src hroom.1) hsorted hroom.2
    | sweep now => exact ih hnow.sweep hsorted hroom

private def tightLimits : SessionLimits :=
  { failBurst := 1, failWindow := 10, maxFailBuckets := 2 }

private def charges (sweeps : List GateCall) : List GateCall :=
  [.consume (.v4 0 1) 0, .consume (.v4 0 2) 1, .consume (.v4 0 1) 10] ++ sweeps ++
    [.consume (.v4 0 3) 11, .peek (.v4 0 1) 12]

/-- At the bound a skipped sweep costs a live bucket: the first source has just been charged
again, and the third one displaces it because the expired bucket of the second is still there. -/
theorem sweep_changes_decision :
    ∃ (limits : SessionLimits) (start : ℕ) (calls calls' : List GateCall),
      unswept calls = unswept calls' ∧ (calls.map GateCall.time).Pairwise (· ≤ ·) ∧
      (calls'.map GateCall.time).Pairwise (· ≤ ·) ∧
      decisions limits (FailGate.new start) calls = [false] ∧
      decisions limits (FailGate.new start) calls' = [true] :=
  ⟨tightLimits, 0, charges [.sweep 11], charges [], by decide, by decide, by decide,
    by decide, by decide⟩

/-- Two runs that differ in their sweeps only take the same decisions, provided no failure of a
new source is charged while the table of the sweep-free run is full. -/
theorem sweeps_change_no_decision (limits : SessionLimits) (start : ℕ)
    (calls calls' : List GateCall) (hsame : unswept calls = unswept calls')
    (hsorted : (calls.map GateCall.time).Pairwise (· ≤ ·))
    (hsorted' : (calls'.map GateCall.time).Pairwise (· ≤ ·))
    (hroom : Along (call limits) (fun h c => ¬ Evicts limits h c) (FailGate.new start)
      (unswept calls)) :
    decisions limits (FailGate.new start) calls =
      decisions limits (FailGate.new start) calls' := by
  have hplain : ∀ cs : List GateCall, (cs.map GateCall.time).Pairwise (· ≤ ·) →
      unswept cs = unswept calls →
      decisions limits (FailGate.new start) cs =
        decisions limits (FailGate.new start) (unswept calls) := by
    intro cs hcs hun
    rw [← hun]
    refine (new_lags limits start 0).decisions_eq ?_ (hun ▸ hroom)
    exact List.pairwise_cons.mpr ⟨fun _ _ => Nat.zero_le _, hcs⟩
  rw [hplain calls hsorted rfl, hplain calls' hsorted' hsame.symm]

theorem sweeps_change_no_decision_sample :
    decisions tightLimits (FailGate.new 0)
        [.consume (.v4 0 1) 0, .sweep 11, .consume (.v4 0 1) 11, .peek (.v4 0 1) 12] =
      decisions tightLimits (FailGate.new 0)
        [.consume (.v4 0 1) 0, .consume (.v4 0 1) 11, .peek (.v4 0 1) 12] := by
  refine sweeps_change_no_decision tightLimits 0 _ _ (by decide) (by decide) (by decide) ?_
  refine ⟨?_, ?_, id, trivial⟩
  · rintro ⟨-, -, hfull⟩
    exact absurd hfull (by decide)
  · rintro ⟨-, hnone, -⟩
    exact absurd hnone (by decide)

end PqTunnel.FailGate
