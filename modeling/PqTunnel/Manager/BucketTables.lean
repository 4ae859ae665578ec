import PqTunnel.Handshake.Isolation
import PqTunnel.Manager.SweepEquivalence

/-! The two tables of token buckets, each beside the queue of its sources. -/
namespace PqTunnel
open ServerHandshake

variable {T : CryptoTypes} {P : Primitives T}

/-- The queue holds every tracked source once, and no bucket is above the burst. -/
structure InStep (cap burst : ℕ) (order : List SocketAddr) (t : Table SocketAddr RateBucket) :
    Prop where
  nodup : order.Nodup
  tracked : ∀ k, k ∈ order ↔ k ∈ t.keys
  size : t.size ≤ cap
  tokens : ∀ k b, t.get k = some b → b.tokens ≤ burst

/-- The eviction loop pops at most one source, another one than the new source, and it ends since
there is room, not since the queue is empty. -/
structure MakesRoom (cap : ℕ) (order : List SocketAddr) (t : Table SocketAddr RateBucket)
    (src : SocketAddr) : Prop where
  victims : ∃ victims, victims.length ≤ 1 ∧ src ∉ victims ∧
    order = victims ++ (evictOldest cap order t).1 ∧
    ∀ k, k ∈ (evictOldest cap order t).2.keys ↔ k ∈ t.keys ∧ k ∉ victims
  room : (evictOldest cap order t).2.size < cap

section Queue

variable {cap : ℕ} {order : List SocketAddr} {t : Table SocketAddr RateBucket}

theorem inStep_of_queued (h : t.Queued cap order) {burst : ℕ}
    (htokens : ∀ k b, t.get k = some b → b.tokens ≤ burst) : InStep cap burst order t :=
  ⟨h.order.nodup_iff.mpr t.nodup_keys, fun _ => h.order.mem_iff, h.size, htokens⟩

theorem makesRoom_of_queued (h : t.Queued cap order) (hcap : 1 ≤ cap) {src : SocketAddr}
    (hnone : t.get src = none) : MakesRoom cap order t src := by
  refine ⟨?_, (evictOldest_room h hcap).2⟩
  rcases evictOldest_cases h hcap with ⟨-, heq⟩ | ⟨victim, rest, -, rfl, heq⟩
  · rw [heq]
    exact ⟨[], by simp⟩
  · rw [heq]
    refine ⟨[victim], le_refl _, ?_, rfl, ?_⟩
    · intro hmem
      rw [List.mem_singleton.mp hmem] at hnone
      exact Table.not_mem_keys hnone (h.order.mem_iff.mp List.mem_cons_self)
    · intro k
      rw [Table.mem_keys_remove, List.mem_singleton, and_comm]

end Queue

theorem FailGate.Ok.tokens_call {limits : SessionLimits} {g : FailGate} (hok : g.Ok limits)
    (hmax : 1 ≤ limits.maxFailBuckets)
    (h : ∀ k b, g.buckets.get k = some b → b.tokens ≤ limits.failBurst) (c : GateCall) :
    ∀ k b, (g.call limits c).buckets.get k = some b → b.tokens ≤ limits.failBurst := by
  intro k b hb
  cases c with
  | peek src now => exact h k b hb
  | consume src now =>
    by_cases hk : k = src
    · rw [FailGate.call, ← hk, get_consume_self g k now hmax, Option.some_inj] at hb
      rw [← hb]
      cases hget : g.buckets.get k with
      | none => exact Nat.sub_le ..
      | some old =>
        dsimp only
        split_ifs
        · exact Nat.sub_le ..
        · exact (Nat.sub_le ..).trans (h k old hget)
    · rcases hok.get_consume_ne hmax hk now with heq | ⟨-, -, -, hnone⟩
      · exact h k b (heq ▸ hb)
      · cases hnone.symm.trans hb
  | sweep now =>
    rw [FailGate.call, FailGate.sweep] at hb
    split_ifs at hb
    · exact h k b hb
    · exact h k b hb
    · exact h k b (Table.get_of_retain hb).1

theorem FailGate.inStep_run {limits : SessionLimits} (hmax : 1 ≤ limits.maxFailBuckets) (start : ℕ)
    (calls : List GateCall) :
    let g := calls.foldl (FailGate.call limits) (FailGate.new start)
    g.Ok limits ∧ ∀ k b, g.buckets.get k = some b → b.tokens ≤ limits.failBurst := by
  induction calls using List.reverseRecOn with
  | nil => exact ⟨new_ok limits start, fun k b hb => by cases hb⟩
  | append_singleton calls c ih =>
    rw [List.foldl_append]
    refine ⟨?_, ih.1.tokens_call hmax ih.2 c⟩
    cases c with
    | peek src now => exact ih.1
    | consume src now => exact ih.1.consume hmax
    | sweep now => exact ih.1.sweep now

theorem ServerHandshake.LimiterOk.tokens_rateOk {s : ServerHandshake T} (hok : LimiterOk s)
    {burst : ℕ} (hburst : s.cfg.rateLimitBurst = burst)
    (h : ∀ k b, s.rateBuckets.get k = some b → b.tokens ≤ burst) (src : SocketAddr) (now : ℕ) :
    ∀ k b, (s.rateOk src now).2.rateBuckets.get k = some b → b.tokens ≤ burst := by
  intro k b hb
  by_cases hk : k = src
  · subst hk
    obtain ⟨-, b', hb', hcharged⟩ := s.rateOk_spec k now
    obtain rfl := Option.mem_unique hb' hb
    have hleft : s.tokensLeft k now ≤ burst := by
      unfold tokensLeft refill
      split
      · rename_i old hget
        split_ifs
        · exact hburst.le
        · exact h k old hget
      · exact hburst.le
    rw [hcharged.tokens]
    exact (Nat.sub_le ..).trans hleft
  · exact h k b (((rateOk_asks hok src now).other hk).origin b hb)

theorem ServerHandshake.tokens_run (cfg : ServerConfig T) (start : ℕ) (calls : List (Call T)) :
    ∀ k b, (run P (new cfg start) calls).rateBuckets.get k = some b →
      b.tokens ≤ cfg.rateLimitBurst := by
  induction calls using List.reverseRecOn with
  | nil =>
    intro k b hb
    cases hb
  | append_singleton calls c ih =>
    obtain ⟨roster, hcfg⟩ := cfg_run (P := P) cfg start calls
    have hburst : (run P (new cfg start) calls).cfg.rateLimitBurst = cfg.rateLimitBurst := by
      rw [hcfg]
    have hok := limiterOk_run (P := P) cfg start calls
    rw [run_snoc]
    generalize run P (new cfg start) calls = s at ih hburst hok
    cases c with
    | datagram pkt src clock draw =>
      have hlim := handleDatagram_limiter (P := P) s pkt src clock draw
      rcases hlim with hlim | hlim
      · exact fun k b hb => ih k b ((congrArg (·.1.get k) hlim).symm.trans hb)
      · exact fun k b hb => hok.tokens_rateOk hburst ih src clock.rate k b
          ((congrArg (·.1.get k) hlim).symm.trans hb)
    | setRoster roster =>
      simp only [call, setRoster]
      split_ifs <;> exact ih

/-- The buckets of the failure gate and of the handshake rate limiter stay in step with their
queues. Room for a new source costs at most one other source, and a tracked source costs none. -/
theorem bucket_tables_in_step (P : Primitives T) :
    (∀ (limits : SessionLimits) (start : ℕ) (calls : List FailGate.GateCall),
      1 ≤ limits.maxFailBuckets →
      let g := calls.foldl (FailGate.call limits) (FailGate.new start)
      InStep limits.maxFailBuckets limits.failBurst g.order g.buckets ∧
      ∀ src now,
        (g.buckets.get src = none → MakesRoom limits.maxFailBuckets g.order g.buckets src) ∧
        (src ∈ g.buckets.keys → (g.consume src now limits).order = g.order ∧
          ∀ k, k ∈ (g.consume src now limits).buckets.keys ↔ k ∈ g.buckets.keys)) ∧
    ∀ (cfg : ServerConfig T) (start : ℕ) (calls : List (ServerHandshake.Call T)),
      let s := run P (new cfg start) calls
      InStep maxRateBuckets cfg.rateLimitBurst s.rateOrder s.rateBuckets ∧
      ∀ src now,
        ((s.pruneRate now).rateBuckets.get src = none →
          MakesRoom maxRateBuckets (s.pruneRate now).rateOrder (s.pruneRate now).rateBuckets src) ∧
        (src ∈ s.rateBuckets.keys → ∀ k ∈ (s.pruneRate now).rateBuckets.keys,
          k ∈ (s.rateOk src now).2.rateBuckets.keys) := by
  constructor
  · intro limits start calls hmax
    obtain ⟨hok, htokens⟩ := FailGate.inStep_run hmax start calls
    refine ⟨inStep_of_queued hok.queued htokens, fun src now =>
      ⟨makesRoom_of_queued hok.queued hmax, fun htracked => ?_⟩⟩
    obtain ⟨b, hget⟩ := Table.mem_keys.mp htracked
    rw [FailGate.consume, if_neg (by omega), hget]
    refine ⟨rfl, fun k => ?_⟩
    rw [Table.mem_keys_put]
    exact or_iff_right_of_imp fun hk => hk ▸ htracked
  · intro cfg start calls
    have hok := limiterOk_run (P := P) cfg start calls
    refine ⟨inStep_of_queued (limiterOk_iff.mp hok) (tokens_run cfg start calls), fun src now =>
      ⟨makesRoom_of_queued (limiterOk_iff.mp (hok.pruneRate now)) (by decide), ?_⟩⟩
    intro htracked k hk
    cases rateOk_asks hok src now with
    | known b b' _ hbuckets _ | fresh b' _ _ hbuckets _ =>
      exact hbuckets ▸ Table.mem_keys_put.mpr (Or.inr hk)
    | evicts b' victim rest hget => exact absurd htracked (Table.not_mem_keys hget)

end PqTunnel
