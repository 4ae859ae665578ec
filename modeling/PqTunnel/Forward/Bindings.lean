import Mathlib.Data.Finset.Card
import Mathlib.Data.List.MinMax
import PqTunnel.Driver.Effects
import PqTunnel.Forward.RelayExact

/-! The relay in front of the client: which application endpoint a reply goes to. What is logged is
left out. -/
namespace PqTunnel
open Table

def mapTtl : ℕ := fromSecs 60

def mapMax : ℕ := 256

/-- The application endpoint that last used a destination, and when. -/
abbrev Bindings := Table SocketAddr (SocketAddr × ℕ)

section Prune
variable (orders : ℕ → List SocketAddr)

/-- The loop over the cap, whose passes iterate the map in the given orders. A pass removes a
binding, so there are no more passes than bindings. -/
def evictEldest : ℕ → Bindings → Bindings
  | 0, b => b
  | passes + 1, b =>
    if b.size ≤ mapMax then b
    else
      match (b.iter (orders passes)).argmin (·.2.2) with
      | some eldest => evictEldest passes (b.remove eldest.1)
      | none => b

def removeExpired (b : Bindings) (now : ℕ) : Bindings :=
  let expired := (b.entries.filter fun x => decide (mapTtl < now - x.2.2)).map (·.1)
  expired.foldl remove b

def pruneBindings (b : Bindings) (now : ℕ) : Bindings :=
  let b := removeExpired b now
  evictEldest orders b.size b

end Prune

/-- The destinations of the well-formed frames of the applications, with the sender and the time,
the latest first. -/
abbrev FrameLog := List (SocketAddr × SocketAddr × ℕ)

/-- The map, the loops that run, what they have sent, and the frames they have received. -/
structure Relay where
  bindings : Bindings
  listening : Bool
  replying : Bool
  payloads : List Bytes
  replies : List (SocketAddr × Bytes)
  heard : FrameLog

namespace Relay

def new : Relay := ⟨Table.empty, true, true, [], [], []⟩

/-- A pass of `app_to_tunnel_loop`. -/
def appToTunnel (r : Relay) (os : Except IoError (Bytes × SocketAddr)) (dataOpen : Bool) (now : ℕ)
    (orders : ℕ → List SocketAddr) : Relay :=
  match os with
  | .ok (datagram, src) =>
    let msg := datagram.take payloadLen
    match decodeRelay msg with
    | .ok (dest, _) =>
      { r with
        bindings := pruneBindings orders (r.bindings.put dest (src, now)) now
        heard := (dest, src, now) :: r.heard
        payloads := if dataOpen then r.payloads ++ [msg] else r.payloads
        listening := dataOpen }
    | .error _ => r
  | .error e => if (UdpError.io e).isRecoverableReset then r else { r with listening := false }

/-- A pass of `tunnel_to_app_loop`. -/
def tunnelToApp (r : Relay) (n : Option ManagerNotification) (now : ℕ)
    (orders : ℕ → List SocketAddr) : Relay :=
  match n with
  | none => { r with replying := false }
  | some (.data _ inner) =>
    match decodeRelay inner.payload.val with
    | .ok (dest, datagram) =>
      let r := { r with bindings := pruneBindings orders r.bindings now }
      match encodeRelay dest datagram, r.bindings.get dest with
      | .ok frame, some (src, _) => { r with replies := r.replies ++ [(src, frame)] }
      | _, _ => r
    | .error _ => r
  | some _ => r

/-- A pass of one of the loops, with its reading of the clock. -/
inductive Pass where
  | app (os : Except IoError (Bytes × SocketAddr)) (dataOpen : Bool) (now : ℕ)
    (orders : ℕ → List SocketAddr)
  | tunnel (n : Option ManagerNotification) (now : ℕ) (orders : ℕ → List SocketAddr)

def Pass.now : Pass → ℕ
  | app _ _ now _ => now
  | tunnel _ now _ => now

/-- The loops hold the lock while they use the map, so their passes follow one another. -/
def step (r : Relay) : Pass → Relay
  | .app os dataOpen now orders => if r.listening then r.appToTunnel os dataOpen now orders else r
  | .tunnel n now orders => if r.replying then r.tunnelToApp n now orders else r

def run (passes : List Pass) : Relay := passes.foldl step new

/-- The other destinations that were used at the time or later. -/
def others (heard : FrameLog) (dest : SocketAddr) (time : ℕ) : Finset SocketAddr :=
  ((heard.filter fun x => decide (x.1 ≠ dest ∧ time ≤ x.2.2)).map (·.1)).toFinset

end Relay

/-- What a prune keeps is young, and what it drops is old or least recently used. -/
structure Pruned (b b' : Bindings) (now : ℕ) : Prop where
  kept : ∀ d v, b'.get d = some v → b.get d = some v ∧ now - v.2 ≤ mapTtl
  dropped : ∀ d v, b.get d = some v → b'.get d = none → mapTtl < now - v.2 ∨
    mapMax ≤ b'.size ∧ ∀ d' v', b'.get d' = some v' → v.2 ≤ v'.2

section Prune
variable {b b' : Bindings} {now : ℕ} {orders : ℕ → List SocketAddr}

theorem get_foldl_remove (b : Bindings) (l : List SocketAddr) (d : SocketAddr) :
    (l.foldl remove b).get d = if d ∈ l then none else b.get d := by
  induction l generalizing b with
  | nil => rfl
  | cons k l ih =>
    rw [List.foldl_cons, ih, get_remove]
    by_cases hk : d = k <;> by_cases hmem : d ∈ l <;> simp [hk, hmem]

theorem removeExpired_pruned (b : Bindings) (now : ℕ) : Pruned b (removeExpired b now) now := by
  have hmem : ∀ d v, b.get d = some v →
      (d ∈ (b.entries.filter fun x => decide (mapTtl < now - x.2.2)).map (·.1) ↔
        mapTtl < now - v.2) := by
    intro d v hv
    simp only [List.mem_map, List.mem_filter, decide_eq_true_eq]
    constructor
    · rintro ⟨⟨_, w⟩, ⟨hw, hold⟩, rfl⟩
      rw [mem_entries, hv] at hw
      cases hw
      exact hold
    · exact fun hold => ⟨⟨d, v⟩, ⟨mem_entries.mpr hv, hold⟩, rfl⟩
  refine ⟨fun d v hv => ?_, fun d v hv hnone => .inl ?_⟩
  · rw [removeExpired, get_foldl_remove] at hv
    split_ifs at hv with hd
    exact ⟨hv, not_lt.mp fun hold => hd ((hmem d v hv).mpr hold)⟩
  · rw [removeExpired, get_foldl_remove] at hnone
    split_ifs at hnone with hd
    · exact (hmem d v hv).mp hd
    · cases hv.symm.trans hnone

/-- One pass of the loop over the cap. -/
theorem Pruned.evict (h : Pruned b b' now) (hsize : mapMax < b'.size) {order : List SocketAddr}
    {eldest : SocketAddr × SocketAddr × ℕ}
    (heldest : (b'.iter order).argmin (·.2.2) = some eldest) :
    Pruned b (b'.remove eldest.1) now := by
  have hget : b'.get eldest.1 = some eldest.2 := mem_iter.mp (List.argmin_mem heldest)
  have hroom : mapMax ≤ (b'.remove eldest.1).size := by
    have := size_remove_of_some hget
    omega
  refine ⟨fun d v hv => h.kept d v (get_of_remove hv).2, fun d v hv hnone => ?_⟩
  by_cases hd : d = eldest.1
  · subst hd
    obtain rfl := Option.some.inj ((h.kept _ _ hget).1.symm.trans hv)
    refine .inr ⟨hroom, fun d' v' hv' => ?_⟩
    have hmem : (d', v') ∈ b'.iter order := mem_iter.mpr (get_of_remove hv').2
    exact List.le_of_mem_argmin (f := (·.2.2)) hmem heldest
  · rw [get_remove_ne b' hd] at hnone
    refine (h.dropped d v hv hnone).imp_right fun ⟨_, hleast⟩ => ?_
    exact ⟨hroom, fun d' v' hv' => hleast d' v' (get_of_remove hv').2⟩

theorem Pruned.evictEldest {passes : ℕ} (h : Pruned b b' now) (hpasses : b'.size ≤ passes) :
    Pruned b (evictEldest orders passes b') now ∧
      (PqTunnel.evictEldest orders passes b').size ≤ mapMax := by
  induction passes generalizing b' with
  | zero => exact ⟨h, hpasses.trans (Nat.zero_le _)⟩
  | succ passes ih =>
    unfold PqTunnel.evictEldest
    split_ifs with hsize
    · exact ⟨h, hsize⟩
    split
    · rename_i eldest heldest
      have hone := size_remove_of_some (mem_iter.mp (List.argmin_mem heldest))
      exact ih (h.evict (not_le.mp hsize) heldest) (by omega)
    · -- an iteration that finds nothing is one over an empty map
      rename_i hnone
      refine ⟨h, ?_⟩
      rw [size_eq_zero fun k => Option.eq_none_iff_forall_ne_some.mpr fun v hv => ?_]
      · exact Nat.zero_le _
      · have hmem : (k, v) ∈ b'.iter (orders passes) := mem_iter.mpr hv
        rw [List.argmin_eq_none.mp hnone] at hmem
        cases hmem

theorem pruneBindings_pruned (orders : ℕ → List SocketAddr) (b : Bindings) (now : ℕ) :
    Pruned b (pruneBindings orders b now) now ∧ (pruneBindings orders b now).size ≤ mapMax :=
  (removeExpired_pruned b now).evictEldest le_rfl

end Prune

namespace Relay

/-- The map holds the latest frames, but for those that are old or crowded out. -/
structure Recorded (b : Bindings) (heard : FrameLog) (clock : ℕ) : Prop where
  bound : ∀ d v, b.get d = some v → heard.lookup d = some v
  lost : ∀ d v, heard.lookup d = some v → b.get d = none →
    mapTtl < clock - v.2 ∨ mapMax ≤ (others heard d v.2).card

variable {b : Bindings} {heard : FrameLog} {clock : ℕ}

theorem mem_others {d d' : SocketAddr} {time : ℕ} :
    d' ∈ others heard d time ↔ d' ≠ d ∧ ∃ src t, (d', src, t) ∈ heard ∧ time ≤ t := by
  simp only [others, List.mem_toFinset, List.mem_map, List.mem_filter, decide_eq_true_eq]
  constructor
  · rintro ⟨⟨_, src, t⟩, ⟨hmem, hne, ht⟩, rfl⟩
    exact ⟨hne, src, t, hmem, ht⟩
  · rintro ⟨hne, src, t, hmem, ht⟩
    exact ⟨_, ⟨hmem, hne, ht⟩, rfl⟩

theorem Recorded.put (h : Recorded b heard clock) (d src : SocketAddr) (now : ℕ) :
    Recorded (b.put d (src, now)) ((d, src, now) :: heard) clock := by
  have hcons : ∀ d', ((d, src, now) :: heard).lookup d' =
      if d' = d then some (src, now) else heard.lookup d' := by
    intro d'
    rw [List.lookup_cons]
    by_cases hd : d' = d
    · simp [hd]
    · rw [beq_false_of_ne hd, if_neg hd]
  refine ⟨fun d' v hv => ?_, fun d' v hv hnone => ?_⟩
  · rw [get_put] at hv
    rw [hcons]
    split_ifs at hv ⊢ with hd
    · exact hv
    · exact h.bound d' v hv
  · rw [get_put] at hnone
    rw [hcons] at hv
    split_ifs at hv hnone with hd
    refine (h.lost d' v hv hnone).imp_right fun hmany => hmany.trans (Finset.card_le_card ?_)
    intro x hx
    rw [mem_others] at hx ⊢
    obtain ⟨hne, s, t, hmem, ht⟩ := hx
    exact ⟨hne, s, t, List.mem_cons_of_mem _ hmem, ht⟩

theorem Recorded.prune (h : Recorded b heard clock) {now : ℕ} (hnow : now ≤ clock)
    (orders : ℕ → List SocketAddr) : Recorded (pruneBindings orders b now) heard clock := by
  have hpruned := (pruneBindings_pruned orders b now).1
  have hbound : ∀ d v, (pruneBindings orders b now).get d = some v → heard.lookup d = some v :=
    fun d v hv => h.bound d v (hpruned.kept d v hv).1
  refine ⟨hbound, fun d v hv hnone => ?_⟩
  cases hb : b.get d with
  | none => exact h.lost d v hv hb
  | some w =>
    obtain rfl := Option.some.inj ((h.bound d w hb).symm.trans hv)
    refine (hpruned.dropped d w hb hnone).imp (fun hold => by omega) ?_
    rintro ⟨hfull, hleast⟩
    -- the bindings that are left are the destinations to count
    rw [size_eq_length_keys, ← List.toFinset_card_of_nodup (nodup_keys _)] at hfull
    refine hfull.trans (Finset.card_le_card fun d' hd' => ?_)
    obtain ⟨v', hv'⟩ := mem_keys.mp (List.mem_toFinset.mp hd')
    obtain ⟨l₁, l₂, hsplit, -⟩ := List.lookup_eq_some_iff.mp (hbound d' v' hv')
    have hne : d' ≠ d := by
      rintro rfl
      cases hnone.symm.trans hv'
    exact mem_others.mpr ⟨hne, v'.1, v'.2, by simp [hsplit], hleast d' v' hv'⟩

theorem Recorded.step {r : Relay} (h : Recorded r.bindings r.heard clock) {p : Pass}
    (hp : p.now ≤ clock) : Recorded (r.step p).bindings (r.step p).heard clock := by
  cases p with
  | app os dataOpen now orders =>
    simp only [Relay.step, appToTunnel]
    repeat' split
    all_goals first | exact h | exact (h.put ..).prune hp orders
  | tunnel n now orders =>
    simp only [Relay.step, tunnelToApp]
    repeat' split
    all_goals first | exact h | exact h.prune hp orders

theorem run_recorded {passes : List Pass} (h : ∀ p ∈ passes, p.now ≤ clock) :
    Recorded (run passes).bindings (run passes).heard clock := by
  induction passes using List.reverseRecOn with
  | nil => exact ⟨fun d v hv => by simp [run, new] at hv, fun d v hv => by cases hv⟩
  | append_singleton passes p ih =>
    rw [run, List.foldl_concat, ← run]
    exact (ih fun q hq => h q (List.mem_append_left _ hq)).step (h p (by simp))

end Relay
end PqTunnel
