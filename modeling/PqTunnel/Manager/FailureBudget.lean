import PqTunnel.Foundation.TokenBucket
import PqTunnel.Manager.Frame

/-! The budget of failed decryptions that the server grants a source. -/
namespace PqTunnel
open ByteString Transition TokenBucket

variable {T : CryptoTypes} {P : Primitives T}

namespace CipherSession

/-- Whether the AEAD decryption of a packet is performed in vain. -/
def tagFails (P : Primitives T) (s : CipherSession) (packet : WirePacket) : Bool :=
  match packet.parseHeader with
  | .error _ => false
  | .ok header =>
    match s.openPacket P packet header.packetNonce with
    | .error _ => true
    | .ok _ => false

theorem tagFails_iff {s : CipherSession} {packet : WirePacket} :
    s.tagFails P packet = true ↔ s.TagFails P packet := by
  unfold tagFails TagFails
  constructor
  · intro h
    split at h
    · cases h
    · rename_i header hheader
      split at h
      · rename_i e hopen
        exact ⟨header, e, hheader, hopen⟩
      · cases h
  · rintro ⟨header, e, hheader, hopen⟩
    simp only [hheader, hopen]

end CipherSession

namespace FailGate

variable {g : FailGate} {limits : SessionLimits} {src src' : SocketAddr} {now : ℕ}

/-- The queue holds exactly the sources with a bucket, and the table is within its bound. -/
structure Ok (limits : SessionLimits) (g : FailGate) : Prop where
  order : g.order.Perm g.buckets.keys
  size : g.buckets.size ≤ limits.maxFailBuckets

theorem new_ok (limits : SessionLimits) (now : ℕ) : Ok limits (FailGate.new now) :=
  ⟨List.Perm.refl _, Nat.zero_le _⟩

theorem Ok.queued (h : Ok limits g) : g.buckets.Queued limits.maxFailBuckets g.order :=
  ⟨h.order, h.size⟩

theorem get_consume_self (g : FailGate) (src : SocketAddr) (now : ℕ)
    (hmax : 1 ≤ limits.maxFailBuckets) :
    (g.consume src now limits).buckets.get src = some (match g.buckets.get src with
      | none => ⟨limits.failBurst - 1, now⟩
      | some b =>
        if limits.failWindow ≤ now - b.lastRefill then ⟨limits.failBurst - 1, now⟩
        else ⟨b.tokens - 1, b.lastRefill⟩) := by
  rw [consume, if_neg (by omega)]
  cases hget : g.buckets.get src with
  | none => exact Table.get_put_self ..
  | some b =>
    dsimp only
    rw [Table.get_put_self]
    split_ifs <;> rfl

/-- A charge leaves the buckets of other sources alone, but for the oldest one when a new source
comes at the bound. -/
theorem Ok.get_consume_ne (h : Ok limits g) (hmax : 1 ≤ limits.maxFailBuckets)
    (hne : src' ≠ src) (now : ℕ) :
    (g.consume src now limits).buckets.get src' = g.buckets.get src' ∨
    g.buckets.get src = none ∧ g.buckets.size = limits.maxFailBuckets ∧
      g.order.head? = some src' ∧ (g.consume src now limits).buckets.get src' = none := by
  rw [consume, if_neg (by omega)]
  cases hget : g.buckets.get src with
  | some b => exact Or.inl (Table.get_put_ne _ _ hne)
  | none =>
    rcases ServerHandshake.evictOldest_cases h.queued hmax with
      ⟨-, hevict⟩ | ⟨victim, rest, hsize, horder, hevict⟩
    · rw [hevict]
      exact Or.inl (Table.get_put_ne _ _ hne)
    · rw [hevict]
      dsimp only
      rw [Table.get_put_ne _ _ hne, Table.get_remove]
      split_ifs with hvictim
      · exact Or.inr ⟨rfl, hsize, by rw [horder, hvictim]; rfl, rfl⟩
      · exact Or.inl rfl

theorem Ok.consume (h : Ok limits g) (hmax : 1 ≤ limits.maxFailBuckets) :
    Ok limits (g.consume src now limits) := by
  rw [FailGate.consume, if_neg (by omega)]
  cases hget : g.buckets.get src with
  | some b =>
    obtain ⟨horder, hsize⟩ := h.queued.touch hget _
    exact ⟨horder, hsize⟩
  | none =>
    obtain ⟨hqueued, hroom⟩ := ServerHandshake.evictOldest_room h.queued hmax
    have hnone := ServerHandshake.get_evictOldest limits.maxFailBuckets g.order g.buckets src
    rw [hget, or_self] at hnone
    obtain ⟨horder, hsize⟩ := hqueued.push hnone hroom _
    exact ⟨horder, hsize⟩

theorem Ok.sweep (h : Ok limits g) (now : ℕ) : Ok limits (g.sweep now limits) := by
  unfold FailGate.sweep
  split_ifs
  · exact h
  · exact h
  · obtain ⟨horder, hsize⟩ := h.queued.retain fun _ b => decide (now - b.lastRefill < limits.failWindow)
    exact ⟨horder, hsize⟩

end FailGate

namespace ServerSessionManager

variable {m m' : ServerSessionManager T} {pkt : WirePacket} {src : SocketAddr} {clock : Clock}
  {now : ℕ} {draw : ServerDraw T} {order : List SessionId} {sid : SessionId} {entry : SessionEntry}

def failing (P : Primitives T) (m : ServerSessionManager T) : Call T → List (SocketAddr × ℕ)
  | .datagram pkt src _ now _ _ =>
    if isHandshakeFragment pkt then []
    else
      match m.sessions.get pkt.sid with
      | none => []
      | some entry =>
        if m.failGate.peek src now m.limits && entry.session.cipher.tagFails P pkt then [(src, now)]
        else []
  | _ => []

def failures (P : Primitives T) : ServerSessionManager T → List (Call T) → List (SocketAddr × ℕ) :=
  outputs (fun m c => (call P m c).2) (failing P)

theorem evictAtCapacity_failGate (m : ServerSessionManager T) (order : List SessionId) :
    (m.evictAtCapacity order).failGate = m.failGate := by
  rcases m.evictAtCapacity_cases order with ⟨h, -⟩ | ⟨-, _, _, -, -, h⟩
  · rw [h]
  · rw [h]
    rfl

theorem failing_reads {clock : Clock} {draw : ServerDraw T} {order : List SessionId}
    (h : Reads m pkt src now entry) : failing P m (.datagram pkt src clock now draw order) =
      if entry.session.cipher.tagFails P pkt then [(src, now)] else [] := by
  simp only [failing, h.data, h.get, h.passed, Bool.false_eq_true, if_false, Bool.true_and]

/-- The gate charges exactly the failed decryptions. -/
theorem handleDatagram_failGate (hentries : EntriesOk m) (pkt : WirePacket) (src : SocketAddr)
    (clock : Clock) (now : ℕ) (draw : ServerDraw T) (order : List SessionId) :
    (m.handleDatagram P pkt src clock now draw order).2.failGate =
        (if failing P m (.datagram pkt src clock now draw order) = [] then m.failGate
          else m.failGate.consume src now m.limits) ∧
      (m.handleDatagram P pkt src clock now draw order).2.limits = m.limits := by
  have hspared : ∀ {entry result entry'}, Reads m pkt src now entry →
      entry.receive P pkt src now = (.ok result, entry') → result ≠ .failed →
      failing P m (.datagram pkt src clock now draw order) = [] := by
    intro entry result entry' hread hrecv hresult
    have hreceipt := entry.receive_receipt (P := P) pkt src now
    rw [hrecv] at hreceipt
    rw [failing_reads hread, if_neg]
    rw [CipherSession.tagFails_iff]
    cases hreceipt with
    | forged => exact absurd rfl hresult
    | malformed _ hfails => exact hfails
    | refused _ _ hverify | opened _ _ hverify => exact hverify.not_fails
  have h := handleDatagram_handles (P := P) m pkt src clock now draw order
  generalize m.handleDatagram P pkt src clock now draw order = r at h ⊢
  cases h with
  | stepped _ _ _ hfrag => rw [failing, if_pos hfrag, if_pos rfl]; exact ⟨rfl, rfl⟩
  | unopened _ _ _ hfrag =>
    rw [failing, if_pos hfrag, if_pos rfl]
    exact ⟨evictAtCapacity_failGate .., evictAtCapacity_limits ..⟩
  | opened _ hs _ hfrag =>
    rw [failing, if_pos hfrag, if_pos rfl]
    exact ⟨evictAtCapacity_failGate { m with hs } order, evictAtCapacity_limits { m with hs } order⟩
  | ignored hdata hno =>
    rw [if_pos]
    · exact ⟨rfl, rfl⟩
    · rcases hno with hno | hno <;> simp only [failing, hdata, hno]
      · rfl
      · cases m.sessions.get pkt.sid <;> rfl
  | unready entry e entry' hread hrecv =>
    have hreceipt := entry.receive_receipt (P := P) pkt src now
    rw [hrecv] at hreceipt
    cases hreceipt with
    | unready _ hbad => exact absurd (hentries _ _ hread.get).1 hbad
  | read _ _ _ _ hread hrecv hresult => rw [if_pos (hspared hread hrecv hresult)]; exact ⟨rfl, rfl⟩
  | acked _ _ entry' hread hrecv =>
    have hkept := (encrypts_put (P := P) m pkt.sid entry' .handshake (Control.slot Control.ack)).kept
    rw [if_pos (hspared hread hrecv (by simp))]
    exact ⟨hkept.failGate, hkept.limits⟩
  | ended _ _ _ _ hread hrecv hend =>
    rw [if_pos (hspared hread hrecv (by rintro rfl; simp at hend))]
    exact ⟨rfl, rfl⟩
  | charged entry _ hread hrecv =>
    have hreceipt := entry.receive_receipt (P := P) pkt src now
    rw [hrecv] at hreceipt
    cases hreceipt with
    | forged hfails =>
      rw [failing_reads hread, if_pos (CipherSession.tagFails_iff.mpr hfails), if_neg (by simp)]
      exact ⟨rfl, rfl⟩
    | refused _ _ _ _ hresult => simp at hresult
    | opened _ _ _ _ hresult => exact absurd rfl hresult

/-- What the gate needs in every state of a run. -/
structure Guarded (limits : SessionLimits) (m : ServerSessionManager T) : Prop where
  entries : EntriesOk m
  gate : m.failGate.Ok limits
  limits : m.limits = limits

variable {limits : SessionLimits}

theorem tick_failGate (m : ServerSessionManager T) (now : ℕ) (order : List SessionId) :
    (m.tick P now order).2.failGate = m.failGate.sweep now m.limits ∧
      (m.tick P now order).2.limits = m.limits := by
  have hkept := kept_expireLoop (P := P) now (m.expired now order) m
  refine ⟨?_, hkept.limits⟩
  change (expireLoop P now (m.expired now order) m).2.failGate.sweep now _ = _
  rw [hkept.failGate, hkept.limits]

theorem Guarded.call (h : Guarded limits m) (hmax : 1 ≤ limits.maxFailBuckets) (c : Call T) :
    Guarded limits (ServerSessionManager.call P m c).2 := by
  have hentries : EntriesOk (ServerSessionManager.call P m c).2 := entriesOk_run h.entries [c]
  rcases c.shape with
    ⟨pkt, src, clock, now, draw, order, rfl⟩ | ⟨now, order, rfl⟩ | ⟨hin, htick⟩
  · obtain ⟨hgate, hlimits⟩ :=
      handleDatagram_failGate (P := P) h.entries pkt src clock now draw order
    refine ⟨hentries, ?_, hlimits.trans h.limits⟩
    simp only [ServerSessionManager.call]
    rw [hgate, h.limits]
    split_ifs
    · exact h.gate
    · exact h.gate.consume hmax
  · obtain ⟨hgate, hlimits⟩ := tick_failGate (P := P) m now order
    refine ⟨hentries, ?_, hlimits.trans h.limits⟩
    simp only [ServerSessionManager.call]
    rw [hgate, h.limits]
    exact h.gate.sweep now
  · have hkept := kept_call (P := P) (m := m) hin htick
    refine ⟨hentries, ?_, hkept.limits.trans h.limits⟩
    rw [hkept.failGate]
    exact h.gate

theorem guarded_run (h : Guarded limits m) (hmax : 1 ≤ limits.maxFailBuckets)
    (calls : List (Call T)) : Guarded limits (run P m calls) := by
  induction calls generalizing m with
  | nil => exact h
  | cons c calls ih => exact ih (h.call hmax c)

theorem guarded_new {cfg : ServerConfig T} {rateNow gateNow : ℕ}
    (h : new cfg limits rateNow gateNow = .ok m) : Guarded limits m := by
  refine ⟨entriesOk_new h, ?_, (new_ok h).2.1⟩
  unfold new at h
  split at h
  · cases h
  · cases h
  · split at h
    · cases h
    · obtain rfl := Except.ok.inj h
      exact FailGate.new_ok limits gateNow

def bucketOf (m : ServerSessionManager T) (src : SocketAddr) : Option Bucket :=
  (m.failGate.buckets.get src).map fun b => ⟨b.tokens, b.lastRefill⟩

/-- When a call looks at the bucket of a source, and whether it charges it. -/
def stamps (P : Primitives T) (m : ServerSessionManager T) (src : SocketAddr) :
    Call T → List Stamp
  | .datagram pkt from' clock now draw order =>
    ((failing P m (.datagram pkt from' clock now draw order)).filter fun f =>
      decide (f.1 = src)).map fun f => ⟨f.2, true⟩
  | .tick now _ => [⟨now, false⟩]
  | _ => []

/-- A datagram drops the bucket of a source, to make room for a new one at the bound. -/
def CapEvicts (P : Primitives T) (m : ServerSessionManager T) (src : SocketAddr) : Call T → Prop
  | .datagram pkt from' clock now draw order =>
    m.failGate.buckets.get src ≠ none ∧
      (m.handleDatagram P pkt from' clock now draw order).2.failGate.buckets.get src = none
  | _ => False

theorem failing_datagram (pkt : WirePacket) (src : SocketAddr) (clock : Clock) (now : ℕ)
    (draw : ServerDraw T) (order : List SessionId) :
    failing P m (.datagram pkt src clock now draw order) = [] ∨
    failing P m (.datagram pkt src clock now draw order) = [(src, now)] ∧
      isHandshakeFragment pkt = false ∧ m.failGate.peek src now m.limits = true ∧
      ∃ entry, m.sessions.get pkt.sid = some entry ∧ entry.session.cipher.TagFails P pkt := by
  unfold failing
  dsimp only
  split_ifs with hfrag
  · exact Or.inl rfl
  · split
    · exact Or.inl rfl
    · rename_i entry hget
      split_ifs with hboth
      · obtain ⟨hpeek, hfails⟩ := Bool.and_eq_true_iff.mp hboth
        exact Or.inr ⟨rfl, by simpa using hfrag, hpeek, entry, hget,
          CipherSession.tagFails_iff.mp hfails⟩
      · exact Or.inl rfl

theorem consume_moves (hmax : 1 ≤ limits.maxFailBuckets)
    (hpeek : m.failGate.peek src now limits = true)
    (hgate : m'.failGate = m.failGate.consume src now limits) :
    Trace (Move limits.failBurst limits.failWindow) (bucketOf m src) [⟨now, true⟩]
      (bucketOf m' src) := by
  rw [bucketOf, bucketOf, hgate, FailGate.get_consume_self m.failGate src now hmax]
  cases hget : m.failGate.buckets.get src with
  | none => exact .single (.created now)
  | some b =>
    rw [FailGate.peek, if_neg (by omega), hget] at hpeek
    dsimp only at hpeek ⊢
    split_ifs at hpeek ⊢ with hpassed
    · exact .single (.refilled ⟨b.tokens, b.lastRefill⟩ now hpassed)
    · exact .single (.charged ⟨b.tokens, b.lastRefill⟩ now (not_le.mp hpassed)
        (by simpa using hpeek))

theorem sweep_moves (m : ServerSessionManager T) (src : SocketAddr) (now : ℕ)
    (hgate : m'.failGate = m.failGate.sweep now limits) :
    Trace (Move limits.failBurst limits.failWindow) (bucketOf m src) [⟨now, false⟩]
      (bucketOf m' src) := by
  rw [bucketOf, bucketOf, hgate, FailGate.sweep]
  split_ifs
  · exact .single (.idle _ now)
  · exact .single (.idle _ now)
  · dsimp only
    rw [Table.get_retain]
    cases hget : m.failGate.buckets.get src with
    | none => exact .single (.idle _ now)
    | some b =>
      rw [Option.filter]
      split_ifs with hkept
      · exact .single (.idle _ now)
      · exact .single (.expired ⟨b.tokens, b.lastRefill⟩ now (by simpa using hkept))

/-- Every call moves the bucket of a source as a token bucket, unless it evicts it. -/
theorem bucket_moves (h : Guarded limits m) (hmax : 1 ≤ limits.maxFailBuckets) {c : Call T}
    (hcap : ¬ CapEvicts P m src c) :
    Trace (Move limits.failBurst limits.failWindow) (bucketOf m src) (stamps P m src c)
      (bucketOf (call P m c).2 src) := by
  rcases c.shape with
    ⟨pkt, from', clock, now, draw, order, rfl⟩ | ⟨now, order, rfl⟩ | ⟨hin, htick⟩
  · obtain ⟨hgate, -⟩ := handleDatagram_failGate (P := P) h.entries pkt from' clock now draw order
    change Trace _ (bucketOf m src) _
      (bucketOf (m.handleDatagram P pkt from' clock now draw order).2 src)
    rcases failing_datagram (P := P) (m := m) pkt from' clock now draw order with
      hnone | ⟨hone, -, hpeek, -⟩
    · rw [if_pos hnone] at hgate
      simp only [stamps, hnone, List.filter_nil, List.map_nil, bucketOf, hgate]
      exact .refl _
    · rw [hone, if_neg (by simp), h.limits] at hgate
      by_cases hsrc : from' = src
      · subst hsrc
        rw [h.limits] at hpeek
        simpa [stamps, hone] using consume_moves hmax hpeek hgate
      · have hstamps : stamps P m src (.datagram pkt from' clock now draw order) = [] := by
          simp [stamps, hone, hsrc]
        have hkept : bucketOf (m.handleDatagram P pkt from' clock now draw order).2 src =
            bucketOf m src := by
          rw [bucketOf, bucketOf]
          rcases h.gate.get_consume_ne hmax (Ne.symm hsrc) now with hsame | ⟨-, -, -, hgone⟩
          · rw [hgate, hsame]
          · rw [← hgate] at hgone
            cases hget : m.failGate.buckets.get src with
            | none => rw [hgone]
            | some b => exact absurd ⟨by simp [hget], hgone⟩ hcap
        rw [hkept, hstamps]
        exact .refl _
  · obtain ⟨hgate, -⟩ := tick_failGate (P := P) m now order
    rw [h.limits] at hgate
    exact sweep_moves m src now hgate
  · have hkept := kept_call (P := P) (m := m) hin htick
    have hstamps : stamps P m src c = [] := by
      cases c with
      | datagram pkt src clock now draw order =>
        exact absurd rfl (hin pkt src clock now draw order)
      | tick now order => exact absurd rfl (htick now order)
      | _ => rfl
    rw [hstamps, bucketOf, bucketOf, hkept.failGate]
    exact .refl _

/-- The stamps of a source over a run. -/
def history (P : Primitives T) (src : SocketAddr) :
    ServerSessionManager T → List (Call T) → List Stamp :=
  outputs (fun m c => (call P m c).2) (stamps P · src)

theorem bucket_run (h : Guarded limits m) (hmax : 1 ≤ limits.maxFailBuckets)
    {calls : List (Call T)}
    (hcap : Along (fun m c => (call P m c).2) (fun m c => ¬ CapEvicts P m src c) m calls) :
    Trace (Move limits.failBurst limits.failWindow) (bucketOf m src) (history P src m calls)
      (bucketOf (run P m calls) src) := by
  induction calls generalizing m with
  | nil => exact .refl _
  | cons c calls ih => exact (bucket_moves h hmax hcap.1).trans (ih (h.call hmax c) hcap.2)

theorem times_history (m : ServerSessionManager T) (src : SocketAddr) (calls : List (Call T)) :
    ((history P src m calls).map (·.time)).Sublist (calls.filterMap Call.time) := by
  induction calls generalizing m with
  | nil => exact .slnil
  | cons c calls ih =>
    have hone : ((stamps P m src c).map (·.time)).Sublist (c.time.toList) := by
      cases c with
      | datagram pkt from' clock now draw order =>
        rcases failing_datagram (P := P) (m := m) pkt from' clock now draw order with
          hnone | ⟨hone, -⟩
        · simp [stamps, hnone]
        · rw [stamps, hone]
          by_cases hsrc : from' = src <;> simp [hsrc, Call.time]
      | tick now order => exact List.Sublist.refl _
      | _ => exact List.nil_sublist _
    have hboth := hone.append (ih (call P m c).2)
    rw [history, outputs, ← history, List.map_append, List.filterMap_cons]
    cases htime : c.time with
    | none | some t => simpa [htime] using hboth

theorem length_charges (m : ServerSessionManager T) (src : SocketAddr) (deadline : ℕ)
    (calls : List (Call T)) :
    (chargesBefore deadline (history P src m calls)).length =
      ((failures P m calls).filter fun f => decide (f.1 = src ∧ f.2 < deadline)).length := by
  induction calls generalizing m with
  | nil => rfl
  | cons c calls ih =>
    have hone : (chargesBefore deadline (stamps P m src c)).length =
        ((failing P m c).filter fun f => decide (f.1 = src ∧ f.2 < deadline)).length := by
      cases c with
      | datagram pkt from' clock now draw order =>
        rcases failing_datagram (P := P) (m := m) pkt from' clock now draw order with
          hnone | ⟨hone, -⟩
        · simp [stamps, hnone, chargesBefore]
        · rw [stamps, hone]
          by_cases hsrc : from' = src <;> by_cases hlate : now < deadline <;>
            simp [hsrc, hlate, chargesBefore]
      | tick now order => simp [stamps, failing, chargesBefore]
      | _ => rfl
    rw [history, outputs, failures, outputs, chargesBefore_append, List.filter_append,
      List.length_append, List.length_append, hone]
    exact congrArg _ (ih _)

theorem handleDatagram_exhausted {b : RateBucket} (hget : m.failGate.buckets.get src = some b)
    (htokens : b.tokens = 0) (hwithin : now - b.lastRefill < m.limits.failWindow)
    (hfrag : isHandshakeFragment pkt = false) :
    m.handleDatagram P pkt src clock now draw order = (.ok .none, m) := by
  have hpeek : m.failGate.peek src now m.limits = false := by
    unfold FailGate.peek
    split_ifs
    · rfl
    · simp [hget, htokens, not_le.mpr hwithin]
  rw [handleDatagram, hfrag, if_neg (by simp), onDataPacket]
  cases m.sessions.get pkt.sid with
  | none => rfl
  | some entry => exact if_pos hpeek

/-- Only a failed decryption touches the gate, and it touches the bucket of its source and, when a
new source comes at the bound, the oldest one. -/
theorem handleDatagram_charges (h : Guarded limits m) (hmax : 1 ≤ limits.maxFailBuckets)
    (hchanged : (m.handleDatagram P pkt src clock now draw order).2.failGate ≠ m.failGate) :
    isHandshakeFragment pkt = false ∧
    (∃ entry, m.sessions.get pkt.sid = some entry ∧ entry.session.cipher.TagFails P pkt) ∧
    ∀ src' ≠ src, (m.handleDatagram P pkt src clock now draw order).2.failGate.buckets.get src' =
        m.failGate.buckets.get src' ∨
      m.failGate.buckets.get src = none ∧ m.failGate.buckets.size = limits.maxFailBuckets ∧
        m.failGate.order.head? = some src' ∧
        (m.handleDatagram P pkt src clock now draw order).2.failGate.buckets.get src' = none := by
  obtain ⟨hgate, -⟩ := handleDatagram_failGate (P := P) h.entries pkt src clock now draw order
  rcases failing_datagram (P := P) (m := m) pkt src clock now draw order with
    hnone | ⟨hone, hfrag, -, hlive⟩
  · rw [if_pos hnone] at hgate
    exact absurd hgate hchanged
  · rw [hone, if_neg (by simp), h.limits] at hgate
    refine ⟨hfrag, hlive, fun src' hne => ?_⟩
    rw [hgate]
    exact h.gate.get_consume_ne hmax hne now

/-- From a refill of its bucket on, and until the window has passed, a source gets at most one
burst of failed decryptions. -/
theorem failures_le_burst (h : Guarded limits m) (hmax : 1 ≤ limits.maxFailBuckets)
    {rest : List (Call T)}
    (htimes : ((.datagram pkt src clock now draw order :: rest).filterMap
      (Call.time (T := T))).Pairwise (· ≤ ·))
    (hfail : failing P m (.datagram pkt src clock now draw order) ≠ [])
    (hrefill : ∀ b, m.failGate.buckets.get src = some b →
      limits.failWindow ≤ now - b.lastRefill)
    (hcap : Along (fun m c => (call P m c).2) (fun m c => ¬ CapEvicts P m src c)
      (call P m (.datagram pkt src clock now draw order)).2 rest) :
    ((failures P m (.datagram pkt src clock now draw order :: rest)).filter fun f =>
      decide (f.1 = src ∧ f.2 < now + limits.failWindow)).length ≤ max 1 limits.failBurst := by
  have hone : failing P m (.datagram pkt src clock now draw order) = [(src, now)] :=
    ((failing_datagram pkt src clock now draw order).resolve_left hfail).1
  obtain ⟨hgate, -⟩ := handleDatagram_failGate (P := P) h.entries pkt src clock now draw order
  rw [if_neg hfail, h.limits] at hgate
  have hfull : bucketOf (call P m (.datagram pkt src clock now draw order)).2 src =
      some ⟨limits.failBurst - 1, now⟩ := by
    simp only [bucketOf, call, hgate]
    rw [FailGate.get_consume_self m.failGate src now hmax]
    cases hget : m.failGate.buckets.get src with
    | none => rfl
    | some b => simp [hrefill b hget]
  have hstamps : history P src m (.datagram pkt src clock now draw order :: rest) =
      ⟨now, true⟩ :: history P src (call P m (.datagram pkt src clock now draw order)).2 rest := by
    rw [history, outputs, stamps, hone]
    simp
  have htrace := bucket_run (h.call hmax (.datagram pkt src clock now draw order)) hmax hcap
  rw [hfull] at htrace
  have hsorted := List.pairwise_map.mp (htimes.sublist (times_history (P := P) m src _))
  rw [hstamps] at hsorted
  rw [← length_charges, hstamps]
  exact charges_le htrace hsorted

/-- With at least one bucket, and as long as the clock does not run back: the gate is touched by
failed decryptions alone and charges them to their source; a source with no budget left is not
listened to; and from one refill of its bucket on, until the window has passed, a source that is
not evicted gets at most one burst of failed decryptions. -/
theorem failures_budgeted (P : Primitives T) {cfg : ServerConfig T} {rateNow gateNow : ℕ}
    (hnew : new cfg limits rateNow gateNow = .ok m) (hmax : 1 ≤ limits.maxFailBuckets)
    (calls : List (Call T)) (htimes : (calls.filterMap Call.time).Pairwise (· ≤ ·)) :
    (∀ pkt src clock now draw order,
      ((run P m calls).handleDatagram P pkt src clock now draw order).2.failGate ≠
        (run P m calls).failGate →
      isHandshakeFragment pkt = false ∧
      (∃ entry, (run P m calls).sessions.get pkt.sid = some entry ∧
        entry.session.cipher.TagFails P pkt) ∧
      ∀ src' ≠ src,
        ((run P m calls).handleDatagram P pkt src clock now draw order).2.failGate.buckets.get
            src' = (run P m calls).failGate.buckets.get src' ∨
        (run P m calls).failGate.buckets.get src = none ∧
          (run P m calls).failGate.buckets.size = limits.maxFailBuckets ∧
          (run P m calls).failGate.order.head? = some src' ∧
          ((run P m calls).handleDatagram P pkt src clock now draw order).2.failGate.buckets.get
            src' = none) ∧
    (∀ pkt src clock now draw order b, (run P m calls).failGate.buckets.get src = some b →
      b.tokens = 0 → now - b.lastRefill < limits.failWindow → isHandshakeFragment pkt = false →
      (run P m calls).handleDatagram P pkt src clock now draw order =
        (.ok .none, run P m calls)) ∧
    ∀ before pkt src clock now draw order rest,
      calls = before ++ .datagram pkt src clock now draw order :: rest →
      failing P (run P m before) (.datagram pkt src clock now draw order) ≠ [] →
      (∀ b, (run P m before).failGate.buckets.get src = some b →
        limits.failWindow ≤ now - b.lastRefill) →
      Along (fun m c => (call P m c).2) (fun m c => ¬ CapEvicts P m src c)
        (run P m (before ++ [.datagram pkt src clock now draw order])) rest →
      ((failures P (run P m before) (.datagram pkt src clock now draw order :: rest)).filter
        fun f => decide (f.1 = src ∧ f.2 < now + limits.failWindow)).length ≤
          max 1 limits.failBurst := by
  have hstart : Guarded limits m := guarded_new hnew
  have hrun := fun calls => guarded_run (P := P) hstart hmax calls
  refine ⟨fun pkt src clock now draw order hchanged => ?_,
    fun pkt src clock now draw order b hget htokens hwithin hfrag => ?_, ?_⟩
  · exact handleDatagram_charges (hrun calls) hmax hchanged
  · exact handleDatagram_exhausted hget htokens ((hrun calls).limits ▸ hwithin) hfrag
  · rintro before pkt src clock now draw order rest rfl hfail hrefill hcap
    rw [run_snoc] at hcap
    rw [List.filterMap_append, List.pairwise_append] at htimes
    exact failures_le_burst (hrun before) hmax htimes.2.1 hfail hrefill hcap

section Sample

open Exchange (sampleSid sampleAddr still sampleDraws)

def forgedPacket : WirePacket :=
  ⟨protocolVersion :: sampleSid.toList ++ zeros (packetSize - 25) ++ List.replicate 16 1, by
    simp only [List.length_append, List.length_cons, length_zeros, List.Vector.toList_length,
      List.length_replicate]
    rfl⟩

theorem parseHeader_forgedPacket :
    forgedPacket.parseHeader = .ok ⟨protocolVersion, sampleSid, 0⟩ := by
  rfl

theorem sid_forgedPacket : forgedPacket.sid = sampleSid := by rfl

theorem plain_forgedPacket : isHandshakeFragment forgedPacket = false := by rfl

theorem aeadRegion_forgedPacket :
    forgedPacket.aeadRegion = zeros (packetSize - 33) ++ List.replicate 16 1 := by rfl

/-- The tag of a sample session ends with the counter of the packet. -/
theorem forgedPacket_fails (s : CipherSession) : s.TagFails Sample.primitives forgedPacket := by
  have hdrop : forgedPacket.aeadRegion.drop (forgedPacket.aeadRegion.length - 16) =
      List.replicate 16 1 := by
    rw [aeadRegion_forgedPacket, List.length_append, List.length_replicate, Nat.add_sub_cancel]
    exact List.drop_left
  have htag : ∀ key nonceHead, (List.replicate 16 1 : Bytes) ≠
      Sample.tagOf key (Kdf.buildSessionNonce nonceHead 0) := by
    intro key nonceHead heq
    have hlast := congrArg List.getLast? heq
    rw [Sample.tagOf, Kdf.buildSessionNonce, List.Vector.toList_mk, ← List.append_assoc,
      List.getLast?_append] at hlast
    cases hlast
  refine ⟨_, .aead "decryption failed: aead::Error", parseHeader_forgedPacket, ?_⟩
  have hopen : Sample.openBox s.recvKey (Kdf.buildSessionNonce s.recvPrefix 0)
      forgedPacket.aeadRegion = .error "aead::Error" := by
    rw [Sample.openBox]
    exact if_neg (hdrop ▸ htag _ _)
  have hprim : ∀ key nonce ciphertext aad, Sample.primitives.aeadOpen key nonce ciphertext aad =
      Sample.openBox key nonce ciphertext := fun _ _ _ _ => rfl
  rw [CipherSession.openPacket, Primitives.aeadDecrypt, hprim, hopen]
  rfl

/-- A forged packet for the sample session is charged to its source. -/
theorem failures_budgeted_sample :
    ∃ calls, failures Sample.primitives (run Sample.primitives sampleManager calls)
        [.datagram forgedPacket sampleAddr still 0 (sampleDraws 0) []] = [(sampleAddr, 0)] ∧
      ((failures Sample.primitives (run Sample.primitives sampleManager calls)
        [.datagram forgedPacket sampleAddr still 0 (sampleDraws 0) []]).filter
          fun f => decide (f.1 = sampleAddr ∧ f.2 < 0 + fromSecs 10)).length ≤ max 1 64 := by
  obtain ⟨before, last, hs₀, hs, session, h⟩ := exists_sample_establishing (m := sampleManager)
    sampleSid rfl (fun _ => Table.get_empty _) (Table.get_empty _) (by decide) 3 4
  have hfailing : failing Sample.primitives (run Sample.primitives sampleManager (before ++ [last]))
      (.datagram forgedPacket sampleAddr still 0 (sampleDraws 0) []) = [(sampleAddr, 0)] := by
    have hget : (run Sample.primitives sampleManager (before ++ [last])).sessions.get sampleSid =
        some ⟨session, sampleAddr, 0, 0⟩ := by
      rw [h.run_eq]
      exact Table.get_put_self ..
    have hpeek : (run Sample.primitives sampleManager (before ++ [last])).failGate.peek sampleAddr 0
        (run Sample.primitives sampleManager (before ++ [last])).limits = true := by
      rw [h.run_eq]
      rfl
    have htag := CipherSession.tagFails_iff.mpr (forgedPacket_fails session.cipher)
    simp only [failing, plain_forgedPacket, Bool.false_eq_true, if_false, sid_forgedPacket, hget,
      hpeek, htag, Bool.and_self, if_true]
  have hall : failures Sample.primitives (run Sample.primitives sampleManager (before ++ [last]))
      [.datagram forgedPacket sampleAddr still 0 (sampleDraws 0) []] = [(sampleAddr, 0)] := by
    rw [failures, outputs, outputs, hfailing, List.append_nil]
  have htimes : (((before ++ [last]) ++
      [Call.datagram forgedPacket sampleAddr still 0 (sampleDraws 0) []]).filterMap
        Call.time).Pairwise (· ≤ ·) := by
    have hzero : ∀ t ∈ ((before ++ [last]) ++
        [Call.datagram forgedPacket sampleAddr still 0 (sampleDraws 0) []]).filterMap Call.time,
        t = 0 := by
      intro t ht
      obtain ⟨a, ha, htime⟩ := List.mem_filterMap.mp ht
      rcases List.mem_append.mp ha with ha | ha
      · obtain ⟨pkt, clock, draw, rfl⟩ := h.fromPeer a ha
        exact (Option.some.inj htime).symm
      · rw [List.mem_singleton.mp ha] at htime
        exact (Option.some.inj htime).symm
    refine List.pairwise_of_forall_mem_list fun a ha b hb => ?_
    rw [hzero a ha, hzero b hb]
  refine ⟨before ++ [last], hall, ?_⟩
  refine (failures_budgeted Sample.primitives new_sampleManager (by decide) _ htimes).2.2
    (before ++ [last]) forgedPacket sampleAddr still 0 (sampleDraws 0) [] [] rfl ?_ ?_ trivial
  · rw [hfailing]
    simp
  · rw [h.run_eq]
    intro b hb
    cases hb

end Sample

end ServerSessionManager

end PqTunnel
