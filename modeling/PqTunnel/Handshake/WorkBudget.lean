import PqTunnel.Handshake.CachedAnswer
import PqTunnel.Handshake.Stall

/-! How much work one source can make the server do between two refills of its rate bucket. Four
kinds of work are gated at four places by one bucket. -/
namespace PqTunnel.ServerHandshake
open Transition

variable {T : CryptoTypes}

inductive Work where
  | allocate
  | answer
  | resend
  | decapsulate
  deriving DecidableEq, Repr

section Work

variable (P : Primitives T)

def openEntryWork (s : ServerHandshake T) (frag : HandshakeFragment) (src : SocketAddr)
    (clock : Clock) : List Work :=
  if frag.fragIdx ≠ 0 then []
  else
    match s.rateOk src clock.rate with
    | (false, _) => []
    | (true, s) =>
      if s.cfg.maxPending ≤ s.pending.size then []
      else
        match FragmentAssembler.new hsTypeClientHello with
        | none => []
        | some _ => [.allocate]

def completeM1Work (s : ServerHandshake T) (sid : SessionId) (m1Bytes : Bytes) : List Work :=
  match ClientHello.decode P m1Bytes with
  | .error _ => []
  | .ok m1 => if m1.version ≠ s.cfg.version ∨ m1.sid ≠ sid then [] else [.answer]

def onAwaitM1Work (s : ServerHandshake T) (frag : HandshakeFragment) (entry : PendingSession T)
    (src : SocketAddr) (clock : Clock) : List Work :=
  match entry.assembler with
  | none => []
  | some asm =>
    match asm.addFragment frag with
    | (.ignored, _) => []
    | (.advanced, _) => []
    | (.completed, asm) =>
      match (s.putPending frag.sid { entry with assembler := some asm }).rateOk src clock.rate with
      | (false, _) => []
      | (true, s) =>
        match asm.message with
        | none => []
        | some m1Bytes => completeM1Work P s frag.sid m1Bytes

/-- The work of an M1 fragment for an answered entry: the cached M2 goes out again. -/
def resendM2Work (s : ServerHandshake T) (frag : HandshakeFragment) (entry : PendingSession T)
    (src : SocketAddr) (clock : Clock) : List Work :=
  match entry.m2Cache with
  | none => []
  | some _ =>
    if frag.fragIdx ≠ 0 then []
    else
      match s.rateOk src clock.rate with
      | (false, _) => []
      | (true, _) => [.resend]

def onM1FragmentWork (s : ServerHandshake T) (pkt : WirePacket) (src : SocketAddr)
    (clock : Clock) : List Work :=
  match HandshakeFragment.fromDatagram pkt with
  | .error _ => []
  | .ok frag =>
    let s := s.evictExpired clock.evict
    match s.pending.get frag.sid with
    | none => s.openEntryWork frag src clock
    | some entry =>
      if entry.source ≠ src then []
      else
        match entry.state with
        | .awaitM1 => s.onAwaitM1Work P frag entry src clock
        | .awaitM3 => s.resendM2Work frag entry src clock

def onM3FragmentWork (s : ServerHandshake T) (pkt : WirePacket) (src : SocketAddr)
    (clock : Clock) : List Work :=
  match HandshakeFragment.fromDatagram pkt with
  | .error _ => []
  | .ok frag =>
    let s := s.evictExpired clock.evict
    match s.pending.get frag.sid with
    | none => []
    | some entry =>
      if entry.source ≠ src ∨ entry.state ≠ .awaitM3 then []
      else
        match s.rateOk src clock.rate with
        | (false, _) => []
        | (true, s) =>
          match ClientConfirm.decode frag.body with
          | .error _ => []
          | .ok m3 =>
            if m3.version ≠ s.cfg.version ∨ m3.sid ≠ frag.sid then []
            else
              match entry.skS with
              | none => []
              | some _ => [.decapsulate]

def work (s : ServerHandshake T) (pkt : WirePacket) (src : SocketAddr) (clock : Clock) :
    List Work :=
  if hsTypeOf pkt = hsTypeClientHello then s.onM1FragmentWork P pkt src clock
  else if hsTypeOf pkt = hsTypeClientConfirm then s.onM3FragmentWork pkt src clock
  else []

end Work

variable {P : Primitives T}

/-- What the rate limiter reads and writes. -/
def limiter (s : ServerHandshake T) : Table SocketAddr RateBucket × List SocketAddr × ℕ :=
  (s.rateBuckets, s.rateOrder, s.lastRatePrune)

/-- The work accounts for the event: an M2 burst was answered or resent, a completion was
decapsulated. -/
def Explains (w : List Work) : Except (Fault HandshakeV2Error) (ServerEvent T) → Prop
  | .ok (.emit _ _) => .answer ∈ w ∨ .resend ∈ w
  | .ok (.complete _) => .decapsulate ∈ w
  | .ok .none => True
  | .error _ => True

/-- A step and its work: either the limiter is not asked, and there is no work, or it is asked
once, and there is at most one piece of work, none if it refuses. -/
inductive Gated (s : ServerHandshake T) (src : SocketAddr) (clock : Clock) :
    List Work → ServerStep T → Prop where
  | unasked (r : ServerStep T) (hev : Explains [] r.1) (hlim : r.2.limiter = s.limiter) :
      Gated s src clock [] r
  | refused (r : ServerStep T) (hev : Explains [] r.1)
      (hlim : r.2.limiter = (s.rateOk src clock.rate).2.limiter) : Gated s src clock [] r
  | passed (r : ServerStep T) (w : Work) (hev : Explains [w] r.1)
      (hok : (s.rateOk src clock.rate).1 = true)
      (hlim : r.2.limiter = (s.rateOk src clock.rate).2.limiter) : Gated s src clock [w] r

section Gates

variable {s s' : ServerHandshake T} {pkt : WirePacket} {src : SocketAddr} {clock : Clock}
  {draw : ServerDraw T} {frag : HandshakeFragment} {entry : PendingSession T}
  {t : Table SessionId (PendingSession T)}

theorem rateOk_limiter {ok : Bool}
    (h : ({ s with pending := t } : ServerHandshake T).rateOk src clock.rate = (ok, s')) :
    (s.rateOk src clock.rate).1 = ok ∧ s'.limiter = (s.rateOk src clock.rate).2.limiter := by
  rw [rateOk_withPending] at h
  obtain ⟨rfl, rfl⟩ := Prod.mk.inj h
  exact ⟨rfl, rfl⟩

theorem openEntry_gated : Gated s src clock
    (({ s with pending := t } : ServerHandshake T).openEntryWork frag src clock)
    (({ s with pending := t } : ServerHandshake T).openEntry frag src clock) := by
  simp only [openEntryWork, openEntry]
  split
  · exact .unasked _ trivial rfl
  · generalize hr : ({ s with pending := t } : ServerHandshake T).rateOk src clock.rate = r
    obtain ⟨ok, s'⟩ := r
    obtain ⟨hok, hlim⟩ := rateOk_limiter hr
    cases ok with
    | false => exact .refused _ trivial hlim
    | true =>
      dsimp only
      split
      · exact .refused _ trivial hlim
      · cases FragmentAssembler.new hsTypeClientHello with
        | none => exact .refused _ trivial hlim
        | some asm => exact .passed _ _ trivial hok hlim

theorem resendM2_gated : Gated s src clock
    (({ s with pending := t } : ServerHandshake T).resendM2Work frag entry src clock)
    (({ s with pending := t } : ServerHandshake T).resendM2 frag entry src clock) := by
  simp only [resendM2Work, resendM2]
  cases entry.m2Cache with
  | none => exact .unasked _ trivial rfl
  | some body =>
    dsimp only
    split
    · exact .unasked _ trivial rfl
    · generalize hr : ({ s with pending := t } : ServerHandshake T).rateOk src clock.rate = r
      obtain ⟨ok, s'⟩ := r
      obtain ⟨hok, hlim⟩ := rateOk_limiter hr
      cases ok with
      | false => exact .refused _ trivial hlim
      | true =>
        dsimp only
        split
        · exact .passed _ _ trivial hok hlim
        · exact .passed _ _ (Or.inr (List.mem_singleton_self _)) hok hlim

theorem completeM1_work (s : ServerHandshake T) (sid : SessionId) (m1Bytes : Bytes)
    (src : SocketAddr) (now : ℕ) (draw : ServerDraw T) :
    (completeM1Work P s sid m1Bytes = [] ∨ completeM1Work P s sid m1Bytes = [.answer]) ∧
      Explains (completeM1Work P s sid m1Bytes) (s.completeM1 P sid m1Bytes src now draw).1 ∧
      (s.completeM1 P sid m1Bytes src now draw).2.limiter = s.limiter := by
  simp only [completeM1Work, completeM1]
  cases ClientHello.decode P m1Bytes with
  | error e => exact ⟨Or.inl rfl, trivial, rfl⟩
  | ok m1 =>
    by_cases hm1 : m1.version ≠ s.cfg.version ∨ m1.sid ≠ sid
    · simp only [if_pos hm1]
      exact ⟨Or.inl trivial, trivial, rfl⟩
    · simp only [if_neg hm1]
      refine ⟨Or.inr trivial, ?_⟩
      repeat' split
      all_goals first
        | exact ⟨trivial, rfl⟩
        | exact ⟨Or.inl (List.mem_singleton_self _), rfl⟩

theorem onAwaitM1_gated : Gated s src clock
    (({ s with pending := t } : ServerHandshake T).onAwaitM1Work P frag entry src clock)
    (({ s with pending := t } : ServerHandshake T).onAwaitM1 P frag entry src clock draw) := by
  simp only [onAwaitM1Work, onAwaitM1]
  cases entry.assembler with
  | none => exact .unasked _ trivial rfl
  | some asm =>
    dsimp only
    cases asm.addFragment frag with
    | mk verdict asm' =>
      cases verdict with
      | ignored | advanced => exact .unasked _ trivial rfl
      | completed =>
        dsimp only [putPending]
        generalize hr : ServerHandshake.rateOk _ src clock.rate = r
        obtain ⟨ok, s'⟩ := r
        obtain ⟨hok, hlim⟩ := rateOk_limiter hr
        cases ok with
        | false => exact .refused _ trivial hlim
        | true =>
          dsimp only
          cases asm'.message with
          | none => exact .refused _ trivial hlim
          | some m1Bytes =>
            obtain ⟨hwork, hev, hkept⟩ := completeM1_work (P := P) s' frag.sid m1Bytes src
              clock.touch draw
            rcases hwork with hwork | hwork <;> rw [hwork] at hev <;> simp only [hwork]
            · exact .refused _ hev (hkept.trans hlim)
            · exact .passed _ _ hev hok (hkept.trans hlim)

theorem onM1Fragment_gated : Gated s src clock (s.onM1FragmentWork P pkt src clock)
    (s.onM1Fragment P pkt src clock draw) := by
  simp only [onM1FragmentWork, onM1Fragment]
  cases HandshakeFragment.fromDatagram pkt with
  | error e => cases e <;> exact .unasked _ trivial rfl
  | ok frag =>
    dsimp only [evictExpired]
    generalize s.pending.retain _ = t
    cases t.get frag.sid with
    | none => exact openEntry_gated
    | some entry =>
      by_cases hsrc : entry.source ≠ src
      · simp only [if_pos hsrc]
        exact .unasked _ trivial rfl
      · simp only [if_neg hsrc]
        cases entry.state with
        | awaitM1 => exact onAwaitM1_gated
        | awaitM3 => exact resendM2_gated

theorem confirm_work (s : ServerHandshake T) (frag : HandshakeFragment)
    (entry : PendingSession T) (m3 : ClientConfirm) (skS : T.KemSk) (now : ℕ) :
    Explains [.decapsulate] (s.confirm P frag entry m3 skS now).1 ∧
      (s.confirm P frag entry m3 skS now).2.limiter = s.limiter := by
  simp only [confirm]
  repeat' split
  all_goals first
    | exact ⟨trivial, rfl⟩
    | exact ⟨List.mem_singleton_self _, rfl⟩

theorem onM3Fragment_gated : Gated s src clock (s.onM3FragmentWork pkt src clock)
    (s.onM3Fragment P pkt src clock) := by
  simp only [onM3FragmentWork, onM3Fragment]
  cases HandshakeFragment.fromDatagram pkt with
  | error e => cases e <;> exact .unasked _ trivial rfl
  | ok frag =>
    dsimp only [evictExpired]
    generalize s.pending.retain _ = t
    cases t.get frag.sid with
    | none => exact .unasked _ trivial rfl
    | some entry =>
      by_cases hsrc : entry.source ≠ src ∨ entry.state ≠ .awaitM3
      · simp only [if_pos hsrc]
        exact .unasked _ trivial rfl
      · simp only [if_neg hsrc]
        generalize hr : ServerHandshake.rateOk _ src clock.rate = r
        obtain ⟨ok, s'⟩ := r
        obtain ⟨hok, hlim⟩ := rateOk_limiter hr
        cases ok with
        | false => exact .refused _ trivial hlim
        | true =>
          dsimp only
          cases ClientConfirm.decode frag.body with
          | error e => exact .refused _ trivial hlim
          | ok m3 =>
            by_cases hm3 : m3.version ≠ s'.cfg.version ∨ m3.sid ≠ frag.sid
            · simp only [if_pos hm3]
              exact .refused _ trivial hlim
            · simp only [if_neg hm3]
              cases entry.skS with
              | none => exact .refused _ trivial hlim
              | some skS =>
                obtain ⟨hev, hkept⟩ := confirm_work (P := P) s' frag entry m3 skS clock.touch
                exact .passed _ _ hev hok (hkept.trans hlim)

/-- Every datagram is gated by one question to the rate limiter. -/
theorem handleDatagram_gated (P : Primitives T) (s : ServerHandshake T) (pkt : WirePacket)
    (src : SocketAddr) (clock : Clock) (draw : ServerDraw T) :
    Gated s src clock (s.work P pkt src clock) (s.handleDatagram P pkt src clock draw) := by
  simp only [work, handleDatagram]
  split_ifs
  · exact onM1Fragment_gated
  · exact onM3Fragment_gated
  · exact .unasked _ trivial rfl

end Gates

/-- A pending entry is only opened as work. -/
theorem Opens.allocates {s : ServerHandshake T} {pkt : WirePacket} {src : SocketAddr}
    {clock : Clock} {draw : ServerDraw T} {sid : SessionId}
    (h : Opens P sid s (.datagram pkt src clock draw)) : .allocate ∈ s.work P pkt src clock := by
  obtain ⟨⟨frag, hparsed, htype, rfl, hnone⟩, e, hget⟩ := h
  obtain ⟨len, hp⟩ := fromDatagram_ok hparsed
  replace hnone : (s.evictExpired clock.evict).pending.get frag.sid = none := hnone
  rw [handleDatagram, if_pos (hp.hsType.symm.trans htype)] at hget
  rw [work, if_pos (hp.hsType.symm.trans htype)]
  simp only [onM1Fragment, onM1FragmentWork, hparsed, hnone] at hget ⊢
  generalize s.evictExpired clock.evict = s at hget hnone
  obtain ⟨hpend, -⟩ := rateOk_frame s src clock.rate
  simp only [openEntry, openEntryWork] at hget ⊢
  split
  · rename_i hidx
    rw [if_pos hidx, hnone] at hget
    cases hget
  · rename_i hidx
    rw [if_neg hidx] at hget
    generalize s.rateOk src clock.rate = r at hpend hget
    obtain ⟨ok, s'⟩ := r
    dsimp only at hpend
    rw [← hpend] at hnone
    cases ok with
    | false =>
      rw [hnone] at hget
      cases hget
    | true =>
      dsimp only at hget ⊢
      split
      · rename_i hfull
        rw [if_pos hfull, hnone] at hget
        cases hget
      · rename_i hroom
        rw [if_neg hroom] at hget
        generalize FragmentAssembler.new hsTypeClientHello = fresh at hget ⊢
        cases fresh with
        | none =>
          rw [hnone] at hget
          cases hget
        | some asm => exact List.mem_singleton_self _

section Limiter

variable {s : ServerHandshake T} {src src' : SocketAddr} {now : ℕ}

theorem get_pruneRate {b : RateBucket} (hget : s.rateBuckets.get src = some b)
    (hrecent : now - b.lastRefill < s.cfg.rateLimitWindow) :
    (s.pruneRate now).rateBuckets.get src = some b := by
  unfold pruneRate
  split_ifs
  · simp only [Table.get_retain, hget, Option.filter_some, hrecent, decide_true, if_true]
  · exact hget

/-- Within its window a bucket pays one token for every question, while it has one. -/
theorem rateOk_within {k t : ℕ} (hget : s.rateBuckets.get src = some ⟨k, t⟩)
    (hrecent : now - t < s.cfg.rateLimitWindow) :
    (s.rateOk src now).1 = decide (0 < k) ∧
      (s.rateOk src now).2.rateBuckets.get src = some ⟨k - 1, t⟩ := by
  have hkept := get_pruneRate hget hrecent
  have hcfg := (s.pruneRate_pending now).2
  simp only [rateOk, hkept, hcfg, if_neg (not_le.mpr hrecent)]
  split_ifs with hzero
  · subst hzero
    exact ⟨rfl, Table.get_put_self ..⟩
  · exact ⟨(decide_eq_true (Nat.pos_of_ne_zero hzero)).symm, Table.get_put_self ..⟩

theorem rateOk_refilled (hdue : ∀ b, s.rateBuckets.get src = some b →
      s.cfg.rateLimitWindow ≤ now - b.lastRefill) :
    (s.rateOk src now).1 = decide (0 < s.cfg.rateLimitBurst) ∧
      (s.rateOk src now).2.rateBuckets.get src = some ⟨s.cfg.rateLimitBurst - 1, now⟩ := by
  have hcfg := (s.pruneRate_pending now).2
  simp only [rateOk]
  cases hget : (s.pruneRate now).rateBuckets.get src with
  | none =>
    refine ⟨by rw [hcfg], ?_⟩
    dsimp only
    rw [Table.get_put_self, hcfg]
    split_ifs with hburst
    · rfl
    · rw [Nat.eq_zero_of_not_pos hburst]
  | some b =>
    simp only [hcfg, if_pos (hdue b (get_of_pruneRate hget))]
    split_ifs with hzero
    · rw [hzero]
      exact ⟨rfl, Table.get_put_self ..⟩
    · exact ⟨(decide_eq_true (Nat.pos_of_ne_zero hzero)).symm, Table.get_put_self ..⟩

/-- A question about another source keeps a bucket that is not due, unless the cap evicts it. -/
theorem rateOk_other {b : RateBucket} (hne : src ≠ src')
    (hget : s.rateBuckets.get src = some b)
    (hrecent : now - b.lastRefill < s.cfg.rateLimitWindow)
    (hkept : (s.rateOk src' now).2.rateBuckets.get src ≠ none) :
    (s.rateOk src' now).2.rateBuckets.get src = some b := by
  have hprune := get_pruneRate hget hrecent
  simp only [rateOk] at hkept ⊢
  split
  · split_ifs <;> rw [Table.get_put_ne _ _ hne, hprune]
  · rename_i hnone
    simp only [hnone] at hkept
    rw [Table.get_put_ne _ _ hne] at hkept ⊢
    rcases get_evictOldest maxRateBuckets (s.pruneRate now).rateOrder
      (s.pruneRate now).rateBuckets src with h | h
    · rw [h, hprune]
    · exact absurd h hkept

end Limiter

section Budget

/-- The call takes the bucket of `src` away because of the cap on the number of buckets: the
prune of the window keeps it, and afterwards it is gone. -/
def CapEvicts (P : Primitives T) (src : SocketAddr) (s : ServerHandshake T) : Call T → Prop
  | .setRoster _ => False
  | .datagram pkt src' clock draw =>
    (∃ b, (s.pruneRate clock.rate).rateBuckets.get src = some b) ∧
      (s.handleDatagram P pkt src' clock draw).2.rateBuckets.get src = none

/-- The call refills the bucket of `src` at time `t`: there is none, or its window has elapsed,
and afterwards there is one whose last refill is at `t`. -/
def Refills (P : Primitives T) (src : SocketAddr) (t : ℕ) (s : ServerHandshake T) :
    Call T → Prop
  | .setRoster _ => False
  | .datagram pkt src' clock draw => src' = src ∧ clock.rate = t ∧
    (∀ b, s.rateBuckets.get src = some b → s.cfg.rateLimitWindow ≤ t - b.lastRefill) ∧
    ∃ b, (s.handleDatagram P pkt src' clock draw).2.rateBuckets.get src = some b ∧
      b.lastRefill = t

def rateTime : Call T → Option ℕ
  | .setRoster _ => none
  | .datagram _ _ clock _ => some clock.rate

/-- The work that a datagram of `src` causes before the deadline. -/
def workBefore (P : Primitives T) (src : SocketAddr) (deadline : ℕ) (s : ServerHandshake T) :
    Call T → List Work
  | .setRoster _ => []
  | .datagram pkt src' clock _ =>
    if src' = src ∧ clock.rate < deadline then s.work P pkt src' clock else []

variable {s : ServerHandshake T} {src : SocketAddr} {t deadline : ℕ} {calls : List (Call T)}

theorem no_work_after (h : ∀ n ∈ calls.filterMap rateTime, deadline ≤ n) :
    outputs (call P) (workBefore P src deadline) s calls = [] := by
  apply outputs_eq_nil
  induction calls generalizing s with
  | nil => trivial
  | cons c calls ih =>
    have hrest : ∀ n ∈ calls.filterMap rateTime, deadline ≤ n := by
      intro n hn
      apply h n
      rw [List.filterMap_cons]
      split
      · exact hn
      · exact List.mem_cons_of_mem _ hn
    refine ⟨?_, ih hrest⟩
    cases c with
    | setRoster roster => rfl
    | datagram pkt src' clock draw =>
      have hlate : deadline ≤ clock.rate := h _ (by simp [rateTime])
      rw [workBefore, if_neg (by omega)]

/-- Before the deadline a bucket pays for at most as much work as it has tokens. -/
theorem work_within (hok : PendingOk s) {k : ℕ} (hget : s.rateBuckets.get src = some ⟨k, t⟩)
    (hafter : ∀ n ∈ calls.filterMap rateTime, t ≤ n)
    (hsorted : (calls.filterMap rateTime).Pairwise (· ≤ ·))
    (hkept : Along (call P) (fun s c => ¬ CapEvicts P src s c) s calls) :
    (outputs (call P) (workBefore P src (t + s.cfg.rateLimitWindow)) s calls).length ≤ k := by
  induction calls generalizing s k with
  | nil => exact Nat.zero_le k
  | cons c calls ih =>
    obtain ⟨hcap, hkept⟩ := hkept
    have hok' : PendingOk (call P s c) := hok.run [c]
    rw [outputs, List.length_append]
    cases c with
    | setRoster roster =>
      have hsame : (call P s (.setRoster roster)).rateBuckets = s.rateBuckets ∧
          (call P s (.setRoster roster)).cfg.rateLimitWindow = s.cfg.rateLimitWindow := by
        simp only [call, setRoster]
        split_ifs <;> exact ⟨rfl, rfl⟩
      have hnext := ih hok' (hsame.1.symm ▸ hget) hafter hsorted hkept
      rw [hsame.2] at hnext
      rw [workBefore, List.length_nil, Nat.zero_add]
      exact hnext
    | datagram pkt src' clock draw =>
      rw [List.filterMap_cons_some (by rfl : rateTime _ = some clock.rate)] at hafter hsorted
      obtain ⟨hfirst, hsorted⟩ := List.pairwise_cons.mp hsorted
      by_cases hlate : t + s.cfg.rateLimitWindow ≤ clock.rate
      · rw [no_work_after fun n hn => hlate.trans (hfirst n hn), workBefore, if_neg (by omega)]
        exact Nat.zero_le k
      · have hstart := hafter clock.rate List.mem_cons_self
        have hrecent : clock.rate - t < s.cfg.rateLimitWindow := by omega
        have hcfg : (call P s (.datagram pkt src' clock draw)).cfg = s.cfg :=
          (handleDatagram_does hok pkt src' clock draw).2
        have hnext : ∀ {k'}, (call P s (.datagram pkt src' clock draw)).rateBuckets.get src =
            some ⟨k', t⟩ → (outputs (call P) (workBefore P src (t + s.cfg.rateLimitWindow))
              (call P s (.datagram pkt src' clock draw)) calls).length ≤ k' := by
          intro k' hk'
          have hrest := ih hok' hk'
            (fun n hn => hafter n (List.mem_cons_of_mem _ hn)) hsorted hkept
          rwa [hcfg] at hrest
        have hgate := handleDatagram_gated P s pkt src' clock draw
        rw [workBefore]
        by_cases hsrc : src' = src
        · subst hsrc
          obtain ⟨hpass, hpaid⟩ := rateOk_within hget hrecent
          rw [if_pos ⟨rfl, not_le.mp hlate⟩]
          generalize s.work P pkt src' clock = w at hgate ⊢
          cases hgate with
          | unasked _ _ hlim =>
            rw [List.length_nil, Nat.zero_add]
            exact hnext ((congrArg (·.1.get src') hlim).trans hget)
          | refused _ _ hlim =>
            have := hnext ((congrArg (·.1.get src') hlim).trans hpaid)
            rw [List.length_nil]
            omega
          | passed _ w _ htrue hlim =>
            have := hnext ((congrArg (·.1.get src') hlim).trans hpaid)
            have hpos : 0 < k := of_decide_eq_true (hpass.symm.trans htrue)
            rw [List.length_singleton]
            omega
        · have hsame : (s.handleDatagram P pkt src' clock draw).2.limiter = s.limiter ∨
              (s.handleDatagram P pkt src' clock draw).2.limiter =
                (s.rateOk src' clock.rate).2.limiter := by
            generalize s.work P pkt src' clock = w at hgate
            cases hgate with
            | unasked _ _ hlim => exact Or.inl hlim
            | refused _ _ hlim | passed _ w _ htrue hlim => exact Or.inr hlim
          rw [if_neg fun h => hsrc h.1, List.length_nil, Nat.zero_add]
          apply hnext
          rcases hsame with hlim | hlim
          · exact (congrArg (·.1.get src) hlim).trans hget
          · have hbucket := congrArg (·.1.get src) hlim
            refine hbucket.trans (rateOk_other (Ne.symm hsrc) hget hrecent ?_)
            intro hnone
            exact hcap ⟨⟨_, get_pruneRate hget hrecent⟩, hbucket.trans hnone⟩

/-- A refill and the work that follows it. -/
theorem work_from_refill (hok : PendingOk s) {pkt : WirePacket} {clock : Clock}
    {draw : ServerDraw T} (hrefill : Refills P src t s (.datagram pkt src clock draw))
    (hafter : ∀ n ∈ calls.filterMap rateTime, t ≤ n)
    (hsorted : (calls.filterMap rateTime).Pairwise (· ≤ ·))
    (hkept : Along (call P) (fun s c => ¬ CapEvicts P src s c)
      (call P s (.datagram pkt src clock draw)) calls) :
    (outputs (call P) (workBefore P src (t + s.cfg.rateLimitWindow)) s
      (.datagram pkt src clock draw :: calls)).length ≤ s.cfg.rateLimitBurst := by
  obtain ⟨-, rfl, hdue, b, hb, hlast⟩ := hrefill
  have hok' : PendingOk (call P s (.datagram pkt src clock draw)) :=
    hok.run [.datagram pkt src clock draw]
  have hcfg : (call P s (.datagram pkt src clock draw)).cfg = s.cfg :=
    (handleDatagram_does hok pkt src clock draw).2
  have hrest : ∀ {k}, (call P s (.datagram pkt src clock draw)).rateBuckets.get src =
      some ⟨k, clock.rate⟩ →
      (outputs (call P) (workBefore P src (clock.rate + s.cfg.rateLimitWindow))
        (call P s (.datagram pkt src clock draw)) calls).length ≤ k := by
    intro k hk
    have hle := work_within hok' hk hafter hsorted hkept
    rwa [hcfg] at hle
  have hfirst : (workBefore P src (clock.rate + s.cfg.rateLimitWindow) s
      (.datagram pkt src clock draw)).length ≤ (s.work P pkt src clock).length := by
    rw [workBefore]
    split_ifs
    · exact le_refl _
    · exact Nat.zero_le _
  have hgate := handleDatagram_gated P s pkt src clock draw
  obtain ⟨hpass, hfull⟩ := rateOk_refilled hdue
  rw [outputs, List.length_append]
  generalize s.work P pkt src clock = w at hgate hfirst
  cases hgate with
  | unasked _ _ hlim =>
    -- an untouched bucket can only count as refilled when the window is empty
    have hsame : s.rateBuckets.get src = some b :=
      (congrArg (·.1.get src) hlim).symm.trans hb
    have hzero := hdue b hsame
    rw [hlast, Nat.sub_self] at hzero
    rw [no_work_after fun n hn => by have := hafter n hn; omega]
    rw [List.length_nil] at hfirst ⊢
    omega
  | refused _ _ hlim =>
    have := hrest ((congrArg (·.1.get src) hlim).trans hfull)
    rw [List.length_nil] at hfirst
    omega
  | passed _ w _ htrue hlim =>
    have := hrest ((congrArg (·.1.get src) hlim).trans hfull)
    have hpos : 0 < s.cfg.rateLimitBurst := of_decide_eq_true (hpass.symm.trans htrue)
    rw [List.length_singleton] at hfirst
    omega

end Budget

/-- Between one refill of the bucket of a source and the end of its window, the datagrams of the
source cause at most as much work as the bucket holds, whatever arrives from others, unless the
cap on the buckets takes it away. The work accounts for every M2 the server emits, every handshake
it completes and every entry it opens. -/
theorem work_per_refill (P : Primitives T) (cfg : ServerConfig T) (now : ℕ) :
    (∀ (calls : List (Call T)) (pkt : WirePacket) (src : SocketAddr) (clock : Clock)
        (draw : ServerDraw T),
      Explains ((run P (new cfg now) calls).work P pkt src clock)
        ((run P (new cfg now) calls).handleDatagram P pkt src clock draw).1 ∧
      ∀ sid, Opens P sid (run P (new cfg now) calls) (.datagram pkt src clock draw) →
        .allocate ∈ (run P (new cfg now) calls).work P pkt src clock) ∧
    ∀ (before after : List (Call T)) (c : Call T) (src : SocketAddr) (t : ℕ),
      ((before ++ c :: after).filterMap rateTime).Pairwise (· ≤ ·) →
      Refills P src t (run P (new cfg now) before) c →
      Along (call P) (fun s c => ¬ CapEvicts P src s c) (run P (new cfg now) (before ++ [c]))
        after →
      (outputs (call P) (workBefore P src (t + cfg.rateLimitWindow)) (run P (new cfg now) before)
        (c :: after)).length ≤ cfg.rateLimitBurst := by
  constructor
  · intro calls pkt src clock draw
    refine ⟨?_, fun sid h => h.allocates⟩
    have hgate := handleDatagram_gated P (run P (new cfg now) calls) pkt src clock draw
    generalize (run P (new cfg now) calls).work P pkt src clock = w at hgate ⊢
    cases hgate with
    | unasked _ hev | refused _ hev | passed _ w hev => exact hev
  · intro before after c src t hsorted hrefill hkept
    cases c with
    | setRoster roster => exact hrefill.elim
    | datagram pkt src' clock draw =>
      obtain ⟨rfl, rfl, -⟩ := id hrefill
      obtain ⟨roster, hcfg⟩ := cfg_run (P := P) cfg now before
      rw [List.filterMap_append, List.filterMap_cons_some (by rfl : rateTime _ = some clock.rate),
        List.pairwise_append] at hsorted
      obtain ⟨hfirst, hsorted⟩ := List.pairwise_cons.mp hsorted.2.1
      rw [run_snoc] at hkept
      have hle := work_from_refill ((pendingOk_new cfg now).run before) hrefill hfirst hsorted hkept
      rwa [hcfg] at hle

section Sample
open Exchange

theorem work_per_refill_sample :
    ∃ c : ClientHandshake Sample.types,
      Refills Sample.primitives sampleAddr 0 (new tightConfig 0)
        (.datagram (m1Frag Sample.primitives c 0) sampleAddr ⟨0, 0, 0⟩ (sampleDraws 0)) ∧
      (outputs (call Sample.primitives)
        (workBefore Sample.primitives sampleAddr (0 + tightConfig.rateLimitWindow))
        (new tightConfig 0)
        [.datagram (m1Frag Sample.primitives c 0) sampleAddr ⟨0, 0, 0⟩ (sampleDraws 0)]).length ≤
          tightConfig.rateLimitBurst := by
  obtain ⟨c, hnew⟩ := exists_sampleHandshake sampleSid
  obtain ⟨_, rfl, -, ⟨-, b, hb, -, hlast⟩, -⟩ := drained_open c (sampleDraws 0)
  have hrefill : Refills Sample.primitives sampleAddr 0 (new tightConfig 0)
      (.datagram (m1Frag Sample.primitives c 0) sampleAddr ⟨0, 0, 0⟩ (sampleDraws 0)) := by
    refine ⟨rfl, rfl, fun b hget => ?_, b, hb, hlast⟩
    rw [new, Table.get_empty] at hget
    cases hget
  exact ⟨c, hrefill, (work_per_refill Sample.primitives tightConfig 0).2 [] [] _ sampleAddr 0
    (List.pairwise_singleton ..) hrefill trivial⟩

end Sample

end PqTunnel.ServerHandshake
