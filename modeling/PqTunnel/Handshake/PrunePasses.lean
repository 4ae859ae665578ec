import Mathlib.Algebra.Group.Action.Defs
import Mathlib.Algebra.Order.BigOperators.Group.List
import Mathlib.Algebra.Order.Ring.Nat
import PqTunnel.Handshake.Isolation

/-! How often the handshake rate limiter walks over its whole table. -/
namespace PqTunnel.ServerHandshake
open Transition

variable {T : CryptoTypes} {s : ServerHandshake T}

/-- The pass of the window prune that a call of `rate_ok` makes: its time and the buckets visited. -/
def prunePass (s : ServerHandshake T) (c : SocketAddr × ℕ) : List (ℕ × ℕ) :=
  if 32 < s.rateBuckets.size ∧
      (s.cfg.rateLimitWindow ≤ c.2 - s.lastRatePrune ∨ c.2 - s.lastRatePrune < 1) then
    [(c.2, s.rateBuckets.size)]
  else []

def prunePasses : ServerHandshake T → List (SocketAddr × ℕ) → List (ℕ × ℕ) :=
  outputs (fun s c => (s.rateOk c.1 c.2).2) prunePass

/-- The clock has moved since the last pass, where the table is large enough for another one. -/
def Moved (s : ServerHandshake T) (c : SocketAddr × ℕ) : Prop :=
  32 < s.rateBuckets.size → c.2 ≠ s.lastRatePrune

theorem lastRatePrune_rateOk (s : ServerHandshake T) (c : SocketAddr × ℕ) :
    (s.rateOk c.1 c.2).2.lastRatePrune =
      if s.prunePass c = [] then s.lastRatePrune else c.2 := by
  have hprune : (s.pruneRate c.2).lastRatePrune =
      if s.prunePass c = [] then s.lastRatePrune else c.2 := by
    unfold pruneRate prunePass
    split_ifs <;> simp_all
  rw [← hprune, rateOk]
  split
  · dsimp only
    split_ifs <;> rfl
  · rfl

/-- Every pass comes a window after the one before it, and visits no more than the whole table. -/
theorem prunePasses_spaced {t : ℕ} {calls : List (SocketAddr × ℕ)} (hok : LimiterOk s)
    (hlast : s.lastRatePrune ≤ t) (hsorted : (t :: calls.map Prod.snd).Pairwise (· ≤ ·))
    (hmoved : Along (fun s c => (s.rateOk c.1 c.2).2) Moved s calls) :
    (s.prunePasses calls).Pairwise (fun p p' => p.1 + s.cfg.rateLimitWindow ≤ p'.1) ∧
    ∀ p ∈ s.prunePasses calls,
      s.lastRatePrune + s.cfg.rateLimitWindow ≤ p.1 ∧ p.2 ≤ maxRateBuckets := by
  induction calls generalizing s t with
  | nil => exact ⟨.nil, by simp [prunePasses, outputs]⟩
  | cons c calls ih =>
    rw [List.map_cons, List.pairwise_cons] at hsorted
    have hle : t ≤ c.2 := hsorted.1 _ List.mem_cons_self
    have hnext := lastRatePrune_rateOk s c
    have hcfg := (rateOk_frame s c.1 c.2).2
    have hbound : (s.rateOk c.1 c.2).2.lastRatePrune ≤ c.2 := by
      rw [hnext]
      split_ifs <;> omega
    obtain ⟨hpair, hrest⟩ := ih (hok.asks (rateOk_asks hok c.1 c.2)) hbound hsorted.2 hmoved.2
    have hcons : s.prunePasses (c :: calls) =
        s.prunePass c ++ (s.rateOk c.1 c.2).2.prunePasses calls := rfl
    rw [hcfg, hnext] at hrest
    rw [hcfg] at hpair
    rw [hcons]
    have hguard : s.prunePass c = [] ∨ s.prunePass c = [(c.2, s.rateBuckets.size)] ∧
        s.lastRatePrune + s.cfg.rateLimitWindow ≤ c.2 := by
      unfold prunePass
      split_ifs with h
      · have := hmoved.1 h.1
        exact Or.inr ⟨rfl, by omega⟩
      · exact Or.inl rfl
    rcases hguard with hnone | ⟨hone, hwindow⟩
    · rw [hnone, if_pos rfl] at hrest
      rw [hnone]
      exact ⟨hpair, hrest⟩
    · rw [hone, if_neg (by simp)] at hrest
      rw [hone]
      refine ⟨List.pairwise_cons.mpr ⟨fun p hp => (hrest p hp).1, hpair⟩, ?_⟩
      refine List.forall_mem_cons.mpr ⟨⟨hwindow, hok.bounded⟩, fun p hp => ?_⟩
      have := hrest p hp
      exact ⟨by omega, this.2⟩

/-- Times a gap apart in a period: the first takes no gap. -/
theorem length_spaced {gap a b : ℕ} {ps : List (ℕ × ℕ)}
    (hpair : ps.Pairwise fun p p' => p.1 + gap ≤ p'.1)
    (hin : ∀ p ∈ ps, a ≤ p.1 ∧ p.1 ≤ b) (hne : ps ≠ []) : a + ps.length * gap ≤ b + gap := by
  induction ps generalizing a with
  | nil => exact absurd rfl hne
  | cons p ps ih =>
    obtain ⟨hhead, hpair⟩ := List.pairwise_cons.mp hpair
    obtain ⟨⟨hlow, hhigh⟩, hrest⟩ := List.forall_mem_cons.mp hin
    rw [List.length_cons, Nat.add_one_mul]
    cases ps with
    | nil => simp only [List.length_nil]; omega
    | cons q ps =>
      have := ih (a := p.1 + gap) hpair (fun r hr => ⟨hhead r hr, (hrest r hr).2⟩) (by simp)
      omega

/-- As long as the clock moves between a pass and the next call, passes are a window apart, so
that in any period they visit few buckets. -/
theorem prunes_amortised (cfg : ServerConfig T) (start : ℕ) (calls : List (SocketAddr × ℕ))
    (hsorted : (start :: calls.map Prod.snd).Pairwise (· ≤ ·))
    (hmoved : Along (fun s c => (s.rateOk c.1 c.2).2) Moved (new cfg start) calls) :
    ((new cfg start).prunePasses calls).Pairwise (fun p p' =>
      p.1 + cfg.rateLimitWindow ≤ p'.1) ∧
    ∀ a len, 0 < cfg.rateLimitWindow →
      ((((new cfg start).prunePasses calls).filter fun p =>
        decide (a ≤ p.1 ∧ p.1 ≤ a + len)).map Prod.snd).sum ≤
          (len / cfg.rateLimitWindow + 1) * maxRateBuckets := by
  have hcfg : (new cfg start).cfg.rateLimitWindow = cfg.rateLimitWindow := by
    unfold new
    dsimp only
    split_ifs <;> rfl
  have hok : LimiterOk (new cfg start) := ⟨List.nodup_nil, fun k => Iff.rfl, Nat.zero_le _⟩
  obtain ⟨hpair, hsize⟩ := prunePasses_spaced hok (le_refl start) hsorted hmoved
  rw [hcfg] at hpair
  refine ⟨hpair, fun a len hwindow => ?_⟩
  generalize (new cfg start).prunePasses calls = ps at hpair hsize
  have hcount : (ps.filter fun p => decide (a ≤ p.1 ∧ p.1 ≤ a + len)).length ≤
      len / cfg.rateLimitWindow + 1 := by
    by_cases hnil : ps.filter (fun p => decide (a ≤ p.1 ∧ p.1 ≤ a + len)) = []
    · rw [hnil]
      exact Nat.zero_le _
    · have := length_spaced (hpair.filter _) (a := a) (b := a + len) (by simp) hnil
      rw [← Nat.sub_le_iff_le_add, Nat.le_div_iff_mul_le hwindow, Nat.sub_one_mul]
      omega
  refine (List.sum_le_card_nsmul _ maxRateBuckets ?_).trans ?_
  · intro n hn
    obtain ⟨p, hp, rfl⟩ := List.mem_map.mp hn
    exact (hsize p (List.mem_filter.mp hp).1).2
  · rw [List.length_map, smul_eq_mul]
    exact Nat.mul_le_mul_right _ hcount

/-- A clock that never stands still between two calls. -/
theorem along_moved {t : ℕ} {calls : List (SocketAddr × ℕ)} (hlast : s.lastRatePrune ≤ t)
    (hsorted : (t :: calls.map Prod.snd).Pairwise (· < ·)) :
    Along (fun s c => (s.rateOk c.1 c.2).2) Moved s calls := by
  induction calls generalizing s t with
  | nil => trivial
  | cons c calls ih =>
    rw [List.map_cons, List.pairwise_cons] at hsorted
    have hlt : t < c.2 := hsorted.1 _ List.mem_cons_self
    refine ⟨fun _ => by omega, ih ?_ hsorted.2⟩
    rw [lastRatePrune_rateOk]
    split_ifs <;> omega

def crowd (time : ℕ → ℕ) : List (SocketAddr × ℕ) :=
  (List.range 35).map fun i => (.v4 0 (UInt16.ofNat i), time i)

def windowed : ServerConfig Sample.types :=
  { Exchange.sampleServerConfig with rateLimitWindow := 5 }

theorem prunes_amortised_crowd :
    (new windowed 0).prunePasses (crowd (· + 1)) = [(34, 33)] ∧
      ((((new windowed 0).prunePasses (crowd (· + 1))).filter fun p =>
        decide (30 ≤ p.1 ∧ p.1 ≤ 30 + 9)).map Prod.snd).sum ≤ (9 / 5 + 1) * maxRateBuckets :=
  ⟨by decide +kernel, (prunes_amortised windowed 0 (crowd (· + 1)) (by decide)
    (along_moved (le_refl _) (by decide))).2 30 9 (by decide)⟩

/-- At the instant of a pass every further call makes another one. -/
theorem prunes_repeated :
    (new windowed 0).prunePasses (crowd fun _ => 0) = [(0, 33), (0, 34)] := by decide +kernel

end PqTunnel.ServerHandshake
