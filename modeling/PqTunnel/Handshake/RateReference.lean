import PqTunnel.Handshake.Isolation

/-! The handshake rate limiter against a reference that never drops a bucket. The prune drops only
buckets that are due for a refill, and a missing bucket starts as a refilled one does. -/
namespace PqTunnel.RateReference
open Transition ServerHandshake

/-- One bucket per source, kept for ever. -/
abbrev Buckets := SocketAddr → Option RateBucket

structure Verdict where
  src : SocketAddr
  refilled : Bool
  admitted : Bool

/-- The bucket a call is charged to: filled on the first call of its source, and on the first one
made a window or more after the last refill. -/
def filled (burst window : ℕ) (b : Option RateBucket) (now : ℕ) : RateBucket :=
  match b with
  | none => ⟨burst, now⟩
  | some b => if window ≤ now - b.lastRefill then ⟨burst, now⟩ else b

def refills (window : ℕ) (b : Option RateBucket) (now : ℕ) : Bool :=
  b.all fun b => decide (window ≤ now - b.lastRefill)

def charge (b : RateBucket) : RateBucket := { b with tokens := b.tokens - 1 }

theorem charge_of_empty {b : RateBucket} (h : b.tokens = 0) : charge b = b := by
  obtain ⟨tokens, last⟩ := b
  simp only [charge, RateBucket.mk.injEq, and_true]
  dsimp only at h
  omega

def next (burst window : ℕ) (ref : Buckets) (c : SocketAddr × ℕ) : Buckets :=
  Function.update ref c.1 (some (charge (filled burst window (ref c.1) c.2)))

def verdict (burst window : ℕ) (ref : Buckets) (c : SocketAddr × ℕ) : Verdict where
  src := c.1
  refilled := refills window (ref c.1) c.2
  admitted := decide (0 < (filled burst window (ref c.1) c.2).tokens)

def verdicts (burst window : ℕ) : Buckets → List (SocketAddr × ℕ) → List Verdict :=
  outputs (next burst window) fun ref c => [verdict burst window ref c]

section Budget
variable {burst window : ℕ} {ref : Buckets} {src : SocketAddr}

theorem tokens_filled_le (b : Option RateBucket) (now : ℕ) (h : ∀ c ∈ b, c.tokens ≤ burst) :
    (filled burst window b now).tokens ≤ burst := by
  cases b with
  | none => exact le_rfl
  | some b =>
    rw [filled]
    split
    · exact le_rfl
    · exact h b rfl

/-- No bucket ever has more than a burst. -/
theorem tokens_le (calls : List (SocketAddr × ℕ)) :
    ∀ b ∈ calls.foldl (next burst window) (fun _ => none) src, b.tokens ≤ burst := by
  induction calls using List.reverseRecOn generalizing src with
  | nil =>
    intro b hb
    cases hb
  | append_singleton calls c ih =>
    intro b hb
    rw [List.foldl_append, List.foldl_cons, List.foldl_nil, next] at hb
    by_cases hsrc : src = c.1
    · subst hsrc
      rw [Function.update_self] at hb
      obtain rfl := Option.some.inj hb
      exact (Nat.sub_le _ _).trans (tokens_filled_le _ _ ih)
    · rw [Function.update_of_ne hsrc] at hb
      exact ih b hb

/-- The calls of `src` that are admitted. -/
def admissions (src : SocketAddr) (vs : List Verdict) : ℕ :=
  vs.countP fun v => decide (v.src = src) && v.admitted

/-- Without a refill a source spends what its bucket holds. -/
theorem admissions_le {b : RateBucket} (hb : ref src = some b) (calls : List (SocketAddr × ℕ))
    (hkept : ∀ v ∈ verdicts burst window ref calls, v.src = src → v.refilled = false) :
    admissions src (verdicts burst window ref calls) ≤ b.tokens := by
  induction calls generalizing ref b with
  | nil => exact Nat.zero_le _
  | cons c calls ih =>
    rw [verdicts, outputs, ← verdicts] at hkept ⊢
    rw [admissions, List.countP_append, ← admissions, ← admissions]
    have hrest := fun v hv => hkept v (List.mem_append_right _ hv)
    by_cases hsrc : src = c.1
    · have hdue := hkept _ (List.mem_append_left _ List.mem_cons_self) hsrc.symm
      have hsame : filled burst window (ref c.1) c.2 = b := by
        simp only [verdict, refills, ← hsrc, hb, Option.all_some, decide_eq_false_iff_not] at hdue
        rw [← hsrc, hb, filled, if_neg hdue]
      have hnext : next burst window ref c src = some (charge b) := by
        rw [next, hsrc, Function.update_self, hsame]
      have hstep := ih hnext hrest
      simp only [admissions, List.countP_singleton, verdict, hsame, hsrc, decide_true,
        Bool.true_and, decide_eq_true_eq, charge] at hstep ⊢
      split <;> omega
    · have hnext : next burst window ref c src = some b := by
        rw [next, Function.update_of_ne hsrc, hb]
      have hstep := ih hnext hrest
      have hother : admissions src [verdict burst window ref c] = 0 := by
        simp [admissions, verdict, Ne.symm hsrc]
      omega

/-- A call of a source and the calls after it, up to the next refill, admit at most a burst. -/
theorem admissions_le_burst (pre mid : List (SocketAddr × ℕ)) (c : SocketAddr × ℕ)
    (hkept : ∀ v ∈ verdicts burst window
      ((pre ++ [c]).foldl (next burst window) fun _ => none) mid,
        v.src = c.1 → v.refilled = false) :
    admissions c.1 (verdicts burst window (pre.foldl (next burst window) fun _ => none)
      (c :: mid)) ≤ burst := by
  rw [List.foldl_append, List.foldl_cons, List.foldl_nil] at hkept
  generalize href : pre.foldl (next burst window) (fun _ => none) = ref at hkept ⊢
  have hle : (filled burst window (ref c.1) c.2).tokens ≤ burst := by
    apply tokens_filled_le
    rw [← href]
    exact tokens_le pre
  have hrest := admissions_le (b := charge (filled burst window (ref c.1) c.2))
    (by rw [next, Function.update_self]) mid hkept
  rw [verdicts, outputs, ← verdicts, admissions, List.countP_append, ← admissions, ← admissions]
  simp only [admissions, List.countP_singleton, verdict, decide_true, Bool.true_and,
    decide_eq_true_eq, charge] at hrest ⊢
  split <;> omega

end Budget

section Simulation
variable {T : CryptoTypes} {s : ServerHandshake T} {ref : Buckets} {srcs : List SocketAddr}
  {src : SocketAddr} {t now : ℕ}

def decisions (s : ServerHandshake T) (calls : List (SocketAddr × ℕ)) : List Bool :=
  outputs (fun s c => (s.rateOk c.1 c.2).2) (fun s c => [(s.rateOk c.1 c.2).1]) s calls

/-- While there is room a call charges the bucket of its source and touches no other. -/
theorem rateOk_eq (src : SocketAddr) (hroom : (s.pruneRate now).rateBuckets.size < maxRateBuckets) :
    (s.rateOk src now).1 = decide (0 < (filled s.cfg.rateLimitBurst s.cfg.rateLimitWindow
        ((s.pruneRate now).rateBuckets.get src) now).tokens) ∧
      (s.rateOk src now).2.rateBuckets = (s.pruneRate now).rateBuckets.put src
        (charge (filled s.cfg.rateLimitBurst s.cfg.rateLimitWindow
          ((s.pruneRate now).rateBuckets.get src) now)) := by
  have hcfg := (s.pruneRate_pending now).2
  simp only [rateOk, hcfg]
  cases (s.pruneRate now).rateBuckets.get src with
  | none =>
    simp only [evictOldest_below hroom, filled, charge]
    refine ⟨rfl, ?_⟩
    congr 2
    split <;> omega
  | some b =>
    by_cases hzero : (filled s.cfg.rateLimitBurst s.cfg.rateLimitWindow (some b) now).tokens = 0
    · rw [charge_of_empty hzero]
      simp only [filled] at hzero ⊢
      rw [if_pos hzero]
      exact ⟨by simp [hzero], rfl⟩
    · simp only [filled] at hzero ⊢
      rw [if_neg hzero]
      exact ⟨(decide_eq_true (Nat.pos_of_ne_zero hzero)).symm, rfl⟩

/-- The table is the reference without some buckets that are due. -/
structure Follows (srcs : List SocketAddr) (t : ℕ) (s : ServerHandshake T) (ref : Buckets) :
    Prop where
  known : ∀ k ∈ s.rateBuckets.keys, k ∈ srcs
  agree : ∀ k, s.rateBuckets.get k = ref k ∨ s.rateBuckets.get k = none ∧
    ∃ b, ref k = some b ∧ s.cfg.rateLimitWindow ≤ t - b.lastRefill

theorem Follows.later (h : Follows srcs t s ref) (ht : t ≤ now) : Follows srcs now s ref := by
  refine ⟨h.known, fun k => (h.agree k).imp_right ?_⟩
  rintro ⟨hnone, b, hb, hdue⟩
  exact ⟨hnone, b, hb, by omega⟩

theorem Follows.pruneRate (h : Follows srcs now s ref) :
    Follows srcs now (s.pruneRate now) ref := by
  have hcfg := (s.pruneRate_pending now).2
  refine ⟨fun k hk => ?_, fun k => ?_⟩
  · obtain ⟨b, hb⟩ := Table.mem_keys.mp hk
    exact h.known k (Table.mem_keys.mpr ⟨b, get_of_pruneRate hb⟩)
  · rw [hcfg]
    cases hget : (s.pruneRate now).rateBuckets.get k with
    | some b =>
      left
      rcases h.agree k with heq | ⟨hnone, -⟩
      · rw [← heq, get_of_pruneRate hget]
      · cases hnone.symm.trans (get_of_pruneRate hget)
    | none =>
      -- a bucket that was there and is gone was due
      rcases h.agree k with heq | hgone
      · cases hold : s.rateBuckets.get k with
        | none => exact Or.inl (hold.symm.trans heq)
        | some b =>
          refine Or.inr ⟨rfl, b, heq.symm.trans hold, ?_⟩
          by_contra hfresh
          cases hget.symm.trans (get_pruneRate hold (not_le.mp hfresh))
      · exact Or.inr ⟨rfl, hgone.2⟩

theorem Follows.filled_eq (h : Follows srcs now s ref) (burst : ℕ) (src : SocketAddr) :
    filled burst s.cfg.rateLimitWindow (s.rateBuckets.get src) now =
      filled burst s.cfg.rateLimitWindow (ref src) now := by
  rcases h.agree src with heq | ⟨hnone, b, hb, hdue⟩
  · rw [heq]
  · rw [hnone, hb, filled, filled, if_pos hdue]

theorem Follows.size_lt (h : Follows srcs t s ref) (hfew : srcs.dedup.length < maxRateBuckets) :
    s.rateBuckets.size < maxRateBuckets := by
  rw [Table.size_eq_length_keys]
  refine lt_of_le_of_lt (s.rateBuckets.nodup_keys.subperm ?_).length_le hfew
  intro k hk
  exact List.mem_dedup.mpr (h.known k hk)

/-- One call: the same decision, and the table still follows the reference. -/
theorem Follows.rateOk (h : Follows srcs t s ref) (ht : t ≤ now) (hsrc : src ∈ srcs)
    (hfew : srcs.dedup.length < maxRateBuckets) :
    (s.rateOk src now).1 =
        (verdict s.cfg.rateLimitBurst s.cfg.rateLimitWindow ref (src, now)).admitted ∧
      Follows srcs now (s.rateOk src now).2
        (next s.cfg.rateLimitBurst s.cfg.rateLimitWindow ref (src, now)) := by
  have hcfg := (s.pruneRate_pending now).2
  have hp := (h.later ht).pruneRate
  have hfilled := hp.filled_eq s.cfg.rateLimitBurst src
  obtain ⟨hdecision, hbuckets⟩ := rateOk_eq src (hp.size_lt hfew)
  rw [hcfg] at hfilled
  rw [hfilled] at hdecision hbuckets
  refine ⟨hdecision, fun k hk => ?_, fun k => ?_⟩
  · rw [hbuckets, Table.mem_keys_put] at hk
    rcases hk with rfl | hk
    · exact hsrc
    · exact hp.known k hk
  · have hagree := hp.agree k
    rw [hcfg] at hagree
    rw [hbuckets, (rateOk_frame s src now).2, next]
    by_cases hk : k = src
    · subst hk
      rw [Table.get_put_self, Function.update_self]
      exact Or.inl rfl
    · rw [Table.get_put_ne _ _ hk, Function.update_of_ne hk]
      exact hagree

theorem Follows.decisions_eq (h : Follows srcs t s ref) (hfew : srcs.dedup.length < maxRateBuckets)
    (calls : List (SocketAddr × ℕ)) (hsrcs : ∀ c ∈ calls, c.1 ∈ srcs)
    (hsorted : (t :: calls.map Prod.snd).Pairwise (· ≤ ·)) :
    decisions s calls = (verdicts s.cfg.rateLimitBurst s.cfg.rateLimitWindow ref calls).map
      Verdict.admitted := by
  induction calls generalizing t s ref with
  | nil => rfl
  | cons c calls ih =>
    rw [List.map_cons, List.pairwise_cons] at hsorted
    obtain ⟨hfirst, hsorted⟩ := hsorted
    obtain ⟨hdecision, hnext⟩ := h.rateOk (hfirst c.2 List.mem_cons_self)
      (hsrcs c List.mem_cons_self) hfew
    have hrest := ih hnext (fun c' hc' => hsrcs c' (List.mem_cons_of_mem _ hc')) hsorted
    rw [(rateOk_frame s c.1 c.2).2] at hrest
    rw [decisions, outputs, ← decisions, hrest, verdicts, outputs, ← verdicts, List.map_append,
      hdecision]
    rfl

end Simulation

/-- From fewer sources than the table has room for, and at nondecreasing times, the limiter decides
as the reference does; between two refills a source is admitted at most a burst of times. -/
theorem decides_as_reference {T : CryptoTypes} (s : ServerHandshake T)
    (hempty : s.rateBuckets = Table.empty) (calls : List (SocketAddr × ℕ))
    (hfew : (calls.map Prod.fst).dedup.length < maxRateBuckets)
    (hsorted : (calls.map Prod.snd).Pairwise (· ≤ ·)) :
    decisions s calls = (verdicts s.cfg.rateLimitBurst s.cfg.rateLimitWindow (fun _ => none)
        calls).map Verdict.admitted ∧
      ∀ pre c mid post, calls = pre ++ c :: (mid ++ post) →
        (∀ v ∈ verdicts s.cfg.rateLimitBurst s.cfg.rateLimitWindow
          ((pre ++ [c]).foldl (next s.cfg.rateLimitBurst s.cfg.rateLimitWindow) fun _ => none) mid,
            v.src = c.1 → v.refilled = false) →
        admissions c.1 (verdicts s.cfg.rateLimitBurst s.cfg.rateLimitWindow
          (pre.foldl (next s.cfg.rateLimitBurst s.cfg.rateLimitWindow) fun _ => none)
            (c :: mid)) ≤ s.cfg.rateLimitBurst := by
  refine ⟨?_, fun pre c mid _ _ hkept => admissions_le_burst pre mid c hkept⟩
  have hstart : Follows (calls.map Prod.fst) 0 s fun _ => none := by
    refine ⟨fun k hk => ?_, fun k => Or.inl ?_⟩
    · rw [hempty, Table.keys_empty] at hk
      cases hk
    · rw [hempty, Table.get_empty]
  refine hstart.decisions_eq hfew calls (fun c hc => List.mem_map_of_mem hc) ?_
  exact List.pairwise_cons.mpr ⟨fun _ _ => Nat.zero_le _, hsorted⟩

/-- A burst of one in a window of five: the second of three calls is refused. -/
theorem decides_as_reference_sample :
    decisions (.new { Exchange.sampleServerConfig with rateLimitWindow := 5 } 0)
      [(.v4 0 1, 0), (.v4 0 1, 4), (.v4 0 1, 5)] = [true, false, true] := by
  have hempty : (ServerHandshake.new { Exchange.sampleServerConfig with
      rateLimitWindow := 5 } 0).rateBuckets = Table.empty := rfl
  exact (decides_as_reference _ hempty _ (by decide) (by decide)).1

section Independence
variable {T : CryptoTypes} (s : ServerHandshake T) (src : SocketAddr)
  (calls : List (SocketAddr × ℕ))

def callsOf : List (SocketAddr × ℕ) := calls.filter fun c => decide (c.1 = src)

/-- Of the decisions on all calls, those that concern one source. -/
def decisionsFor (all : List Bool) : List Bool :=
  ((calls.zip all).filter fun p => decide (p.1.1 = src)).map Prod.snd

variable {calls}

theorem verdicts_alone {burst window : ℕ} {ref ref' : Buckets} (h : ref src = ref' src) :
    decisionsFor src calls ((verdicts burst window ref calls).map Verdict.admitted) =
      (verdicts burst window ref' (callsOf src calls)).map Verdict.admitted := by
  induction calls generalizing ref ref' with
  | nil => rfl
  | cons c calls ih =>
    by_cases hsrc : c.1 = src
    · subst hsrc
      have hnext : next burst window ref c c.1 = next burst window ref' c c.1 := by
        simp only [next, h, Function.update_self]
      simpa [decisionsFor, callsOf, verdicts, outputs, verdict, h] using ih hnext
    · have hnext : next burst window ref c src = ref' src := by
        rw [next, Function.update_of_ne (Ne.symm hsrc), h]
      simpa [decisionsFor, callsOf, verdicts, outputs, hsrc] using ih hnext

/-- From any state, and while the table has room for all, each source is decided as if it were
alone: the calls of the others change nothing for it. -/
theorem sources_decided_alone
    (hfew : (s.rateBuckets.keys ++ calls.map Prod.fst).dedup.length < maxRateBuckets)
    (hsorted : (calls.map Prod.snd).Pairwise (· ≤ ·)) :
    decisionsFor src calls (decisions s calls) = decisions s (callsOf src calls) := by
  have hstart : Follows (s.rateBuckets.keys ++ calls.map Prod.fst) 0 s s.rateBuckets.get :=
    ⟨fun _ hk => List.mem_append_left _ hk, fun _ => Or.inl rfl⟩
  have hmem : ∀ c ∈ calls, c.1 ∈ s.rateBuckets.keys ++ calls.map Prod.fst := fun c hc =>
    List.mem_append_right _ (List.mem_map_of_mem hc)
  have htimes : (0 :: calls.map Prod.snd).Pairwise (· ≤ ·) :=
    List.pairwise_cons.mpr ⟨fun _ _ => Nat.zero_le _, hsorted⟩
  have hsub : (callsOf src calls).Sublist calls := List.filter_sublist
  rw [hstart.decisions_eq hfew calls hmem htimes, verdicts_alone src rfl,
    hstart.decisions_eq hfew _ (fun c hc => hmem c (hsub.subset hc))
      (htimes.sublist ((hsub.map _).cons_cons 0))]

theorem sources_decided_alone_sample :
    decisionsFor (.v4 0 1) [(.v4 0 1, 0), (.v4 0 2, 3), (.v4 0 1, 4)]
      (decisions (.new Exchange.sampleServerConfig 0) [(.v4 0 1, 0), (.v4 0 2, 3), (.v4 0 1, 4)]) =
      decisions (.new Exchange.sampleServerConfig 0) [(.v4 0 1, 0), (.v4 0 1, 4)] :=
  sources_decided_alone _ _ (by decide) (by decide)

end Independence

end PqTunnel.RateReference
