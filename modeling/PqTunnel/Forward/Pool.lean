import PqTunnel.Forward.RelayExact
import PqTunnel.Forward.Replies

/-! The bounds of the socket pool over every run of the forwarding backend, and what the readers
make of the replies. -/
namespace PqTunnel

namespace Forwarder
open ByteString

variable {f f' f'' : Forwarder} {key : ForwardKey} {policy : EgressPolicy}

def sessionSize (f : Forwarder) (sid : SessionId) : ℕ :=
  f.sockets.keys.countP fun k => decide (k.1 = sid)

/-- Entries and readers have left; nothing was sent. -/
structure Thinned (f f' : Forwarder) : Prop where
  stays : ∀ key e, f'.sockets.get key = some e → f.sockets.get key = some e
  readers : ∀ r ∈ f'.readers, r ∈ f.readers
  sent : f'.sent = f.sent
  policy : f'.policy = f.policy

namespace Thinned

theorem refl (f : Forwarder) : Thinned f f := ⟨fun _ _ h => h, fun _ h => h, rfl, rfl⟩

theorem trans (h : Thinned f f') (h' : Thinned f' f'') : Thinned f f'' :=
  ⟨fun key e he => h.stays key e (h'.stays key e he), fun r hr => h.readers r (h'.readers r hr),
    h'.sent.trans h.sent, h'.policy.trans h.policy⟩

theorem subperm (h : Thinned f f') : f'.sockets.keys.Subperm f.sockets.keys :=
  Table.keys_subperm fun key e he => ⟨e, h.stays key e he⟩

theorem size_le (h : Thinned f f') : f'.sockets.size ≤ f.sockets.size := by
  rw [Table.size_eq_length_keys, Table.size_eq_length_keys]
  exact h.subperm.length_le

theorem sessionSize_le (h : Thinned f f') (sid : SessionId) :
    f'.sessionSize sid ≤ f.sessionSize sid := h.subperm.countP_le _

theorem get_none (h : Thinned f f') (hnone : f.sockets.get key = none) :
    f'.sockets.get key = none := by
  cases hget : f'.sockets.get key with
  | none => rfl
  | some e => cases hnone.symm.trans (h.stays key e hget)

end Thinned

section Dropping

variable (f)

theorem get_dropEntry (key k : ForwardKey) :
    (f.dropEntry key).sockets.get k = if k = key then none else f.sockets.get k := by
  unfold dropEntry
  split
  · rename_i hnone
    split_ifs with hk
    · rw [hk, hnone]
    · rfl
  · exact Table.get_remove ..

theorem dropEntry_thinned (key : ForwardKey) : Thinned f (f.dropEntry key) := by
  refine ⟨fun k e he => ?_, ?_, ?_, ?_⟩
  · rw [get_dropEntry] at he
    split_ifs at he
    exact he
  all_goals unfold dropEntry; split
  · exact fun _ h => h
  · exact fun r hr => List.mem_of_mem_filter hr
  all_goals rfl

theorem dropAll_thinned (keys : List ForwardKey) : Thinned f (f.dropAll keys) := by
  induction keys generalizing f with
  | nil => exact .refl f
  | cons key keys ih => exact (dropEntry_thinned f key).trans (ih _)

theorem get_dropAll (keys : List ForwardKey) (k : ForwardKey) :
    (f.dropAll keys).sockets.get k = if k ∈ keys then none else f.sockets.get k := by
  induction keys generalizing f with
  | nil => rfl
  | cons key keys ih =>
    rw [dropAll, List.foldl_cons, ← dropAll, ih, get_dropEntry]
    by_cases hk : k = key <;> by_cases hmem : k ∈ keys <;> simp [hk, hmem]

variable {f}

theorem size_dropEntry {e : ForwardEntry} (h : f.sockets.get key = some e) :
    (f.dropEntry key).sockets.size < f.sockets.size := by
  have hsize := Table.size_remove_of_some h
  have hdrop : (f.dropEntry key).sockets = f.sockets.remove key := by
    simp only [dropEntry, h, stopReaders]
  rw [hdrop]
  omega

theorem sessionSize_dropEntry {e : ForwardEntry} (h : f.sockets.get key = some e) :
    (f.dropEntry key).sessionSize key.1 < f.sessionSize key.1 := by
  have hdrop : (f.dropEntry key).sockets = f.sockets.remove key := by
    simp only [dropEntry, h, stopReaders]
  rw [sessionSize, sessionSize, hdrop]
  exact Table.countP_remove_lt h (decide_eq_true rfl)

theorem leastRecent_mem {l : List (ForwardKey × ForwardEntry)} {x : ForwardKey × ForwardEntry} :
    (l.foldl (fun best y => if y.2.lastUse < best.2.lastUse then y else best) x) ∈ x :: l := by
  induction l generalizing x with
  | nil => exact List.mem_cons_self
  | cons y l ih =>
    rw [List.foldl_cons]
    split_ifs
    · exact List.mem_cons_of_mem _ ih
    · rcases List.mem_cons.mp (ih (x := x)) with h | h
      · rw [h]
        exact List.mem_cons_self
      · exact List.mem_cons_of_mem _ (List.mem_cons_of_mem _ h)

/-- A list of entries that is not empty has a least recently used one, and it is in the list. -/
theorem exists_leastRecent {l : List (ForwardKey × ForwardEntry)} (h : 0 < l.length) :
    ∃ key e, leastRecent l = some key ∧ (key, e) ∈ l := by
  cases l with
  | nil => cases h
  | cons x l => exact ⟨_, _, rfl, leastRecent_mem⟩

theorem length_iter (f : Forwarder) (order : List ForwardKey) :
    ((f.sockets.iter order).map (·.1)).Perm f.sockets.keys := by
  rw [List.perm_ext_iff_of_nodup (Table.nodup_iter ..) f.sockets.nodup_keys]
  intro k
  rw [Table.mem_keys, List.mem_map]
  constructor
  · rintro ⟨⟨k', e⟩, hmem, rfl⟩
    exact ⟨e, Table.mem_iter.mp hmem⟩
  · rintro ⟨e, he⟩
    exact ⟨(k, e), Table.mem_iter.mpr he, rfl⟩

theorem length_sidEntries (f : Forwarder) (sid : SessionId) (order : List ForwardKey) :
    (f.sidEntries sid order).length = f.sessionSize sid := by
  rw [sessionSize, ← (length_iter f order).countP_eq, List.countP_map, List.countP_eq_length_filter]
  rfl

theorem evictSession_thinned (sid : SessionId) (orders : ℕ → List ForwardKey) (passes : ℕ)
    (f : Forwarder) : Thinned f (evictSession sid orders passes f) := by
  induction passes generalizing f with
  | zero => exact .refl f
  | succ passes ih =>
    unfold evictSession
    dsimp only
    split
    · exact .refl f
    split
    · exact (dropEntry_thinned f _).trans (ih _)
    · exact .refl f

/-- With a pass for every socket of the session the loop ends below the cap. -/
theorem sessionSize_evictSession {sid : SessionId} {orders : ℕ → List ForwardKey} {passes : ℕ}
    (h : f.sessionSize sid ≤ passes) :
    (evictSession sid orders passes f).sessionSize sid < perSessionCap := by
  induction passes generalizing f with
  | zero =>
    rw [evictSession, Nat.le_zero.mp h]
    decide
  | succ passes ih =>
    unfold evictSession
    dsimp only
    split
    · rename_i hlt
      rwa [length_sidEntries] at hlt
    · rename_i hfull
      have hpos : 0 < (f.sidEntries sid (orders passes)).length :=
        lt_of_lt_of_le (by decide) (not_lt.mp hfull)
      obtain ⟨key, e, hleast, hmem⟩ := exists_leastRecent hpos
      obtain ⟨hiter, hsid⟩ := List.mem_filter.mp hmem
      obtain rfl : key.1 = sid := of_decide_eq_true hsid
      have hless := sessionSize_dropEntry (Table.mem_iter.mp hiter)
      rw [hleast]
      exact ih (by omega)

theorem sessionSize_le_size (f : Forwarder) (sid : SessionId) :
    f.sessionSize sid ≤ f.sockets.size := by
  rw [Table.size_eq_length_keys]
  exact List.countP_le_length

/-- Room for one more socket: entries only leave, and both bounds are strict afterwards. -/
theorem makeRoom_spec (sid : SessionId) (env : HandleWorld) (h : f.sockets.size ≤ globalCap) :
    Thinned f (f.makeRoom sid env) ∧ (f.makeRoom sid env).sockets.size < globalCap ∧
      (f.makeRoom sid env).sessionSize sid < perSessionCap := by
  have hidle : Thinned f (f.pruneIdle env.evictAt) := dropAll_thinned f _
  unfold makeRoom
  dsimp only
  generalize f.pruneIdle env.evictAt = g at hidle
  have hg : g.sockets.size ≤ globalCap := hidle.size_le.trans h
  have hend : ∀ g', Thinned g g' → g'.sockets.size < globalCap →
      Thinned f (evictSession sid env.orders g'.sockets.size g') ∧
        (evictSession sid env.orders g'.sockets.size g').sockets.size < globalCap ∧
        (evictSession sid env.orders g'.sockets.size g').sessionSize sid < perSessionCap := by
    intro g' hthin hsize
    have hevict := evictSession_thinned sid env.orders g'.sockets.size g'
    exact ⟨(hidle.trans hthin).trans hevict, lt_of_le_of_lt hevict.size_le hsize,
      sessionSize_evictSession (sessionSize_le_size g' sid)⟩
  split
  · -- the pool is full, and its least recently used entry goes
    rename_i hfull
    have hpos : 0 < (g.sockets.iter (env.orders g.sockets.size)).length := by
      rw [← List.length_map (f := (·.1)), (length_iter g _).length_eq, ← Table.size_eq_length_keys]
      exact lt_of_lt_of_le (by decide) hfull
    obtain ⟨key, e, hleast, hmem⟩ := exists_leastRecent hpos
    have hless := size_dropEntry (Table.mem_iter.mp hmem)
    simp only [oldest, hleast]
    exact hend _ (dropEntry_thinned g key) (by omega)
  · exact hend g (.refl g) (by omega)

end Dropping

/-- What holds of the pool in every state of a run. -/
structure Lawful (f : Forwarder) (policy : EgressPolicy) : Prop where
  fixed : f.policy = policy
  perSession : ∀ sid, f.sessionSize sid ≤ perSessionCap
  total : f.sockets.size ≤ globalCap
  allowed : ∀ key e, f.sockets.get key = some e → Egress.denyReason key.2 policy = none
  sentAllowed : ∀ x ∈ f.sent, Egress.denyReason x.key.2 policy = none
  plain : ∀ r ∈ f.readers, r.dest.plain = r.dest

namespace Lawful

theorem thinned (h : f.Lawful policy) (ht : Thinned f f') : f'.Lawful policy := by
  refine ⟨ht.policy.trans h.fixed, fun sid => (ht.sessionSize_le sid).trans (h.perSession sid),
    ht.size_le.trans h.total, fun key e he => h.allowed key e (ht.stays key e he), ?_,
    fun r hr => h.plain r (ht.readers r hr)⟩
  rw [ht.sent]
  exact h.sentAllowed

theorem recordFailure (h : f.Lawful policy) : f.recordFailure.Lawful policy :=
  ⟨h.fixed, h.perSession, h.total, h.allowed, h.sentAllowed, h.plain⟩

theorem insert (h : f.Lawful policy) (hnone : f.sockets.get key = none)
    (hroom : f.sockets.size < globalCap) (hsession : f.sessionSize key.1 < perSessionCap)
    (hallowed : Egress.denyReason key.2 policy = none) (hplain : key.2.plain = key.2) (now : ℕ) :
    (f.insert key now).Lawful policy := by
  refine ⟨h.fixed, fun sid => ?_, ?_, fun k e he => ?_, h.sentAllowed, fun r hr => ?_⟩
  · have hold := h.perSession sid
    show (f.sockets.put key _).keys.countP _ ≤ perSessionCap
    refine (Table.countP_put_le ..).trans ?_
    rw [sessionSize] at hold hsession
    split_ifs with hsid
    · rw [of_decide_eq_true hsid] at hsession
      exact hsession
    · exact hold
  · show (f.sockets.put key _).size ≤ globalCap
    rw [Table.size_put_of_none _ hnone]
    omega
  · rw [Forwarder.insert, Table.get_put] at he
    split_ifs at he with hk
    · rw [hk]
      exact hallowed
    · exact h.allowed k e he
  · rcases List.mem_append.mp hr with hr | hr
    · exact h.plain r hr
    · rw [List.mem_singleton.mp hr]
      exact hplain

theorem pruneAndInsert (h : f.Lawful policy) (hnone : f.sockets.get key = none)
    (hallowed : Egress.denyReason key.2 policy = none) (hplain : key.2.plain = key.2)
    (env : HandleWorld) : (f.pruneAndInsert key env).Lawful policy := by
  obtain ⟨hthin, hroom, hsession⟩ := makeRoom_spec key.1 env h.total
  have hlaw := h.thinned hthin
  unfold Forwarder.pruneAndInsert
  dsimp only
  split
  · exact hlaw.recordFailure
  split
  · exact hlaw.recordFailure
  · exact hlaw.insert (hthin.get_none hnone) hroom hsession hallowed hplain env.insertAt

end Lawful

/-- A datagram goes out on the socket of its key, or there is none. -/
inductive Through (f : Forwarder) (key : ForwardKey) (datagram : Bytes) (env : HandleWorld) :
    Forwarder → Prop where
  | missing (hnone : f.sockets.get key = none) : Through f key datagram env f
  | sent (e : ForwardEntry) (g : Forwarder) (answerable : Bool) (hget : f.sockets.get key = some e)
      (hsockets : g.sockets = f.sockets.put key { e with lastUse := env.useAt })
      (hsent : g.sent = f.sent ++ [⟨key, e.socket, datagram, answerable⟩])
      (hreaders : ∀ r ∈ g.readers, r ∈ f.readers) (hpolicy : g.policy = f.policy) :
      Through f key datagram env g

theorem sendThrough_through (f : Forwarder) (key : ForwardKey) (datagram : Bytes)
    (env : HandleWorld) : Through f key datagram env (f.sendThrough key datagram env) := by
  unfold sendThrough
  split
  · rename_i hnone
    exact .missing hnone
  · rename_i e hget
    dsimp only
    split
    all_goals exact .sent e _ _ hget rfl rfl (fun r hr => List.mem_of_mem_filter hr) rfl

/-- The socket of a key, opened if it is not in the pool. -/
def ensure (f : Forwarder) (key : ForwardKey) (env : HandleWorld) : Forwarder :=
  if (f.sockets.get key).isNone then f.pruneAndInsert key env else f

/-- One call reaps the idle entries; what it accepts then goes through the socket of its key. -/
theorem handle_cases (f : Forwarder) (sid : SessionId) (slot : Bytes) (env : HandleWorld) :
    Thinned (f.pruneIdle env.reapAt) (f.handle sid slot env) ∨
      ∃ dest datagram, decodeRelay slot = .ok (dest, datagram) ∧
        Egress.denyReason dest f.policy = none ∧
        f.handle sid slot env =
          ((f.pruneIdle env.reapAt).ensure (sid, dest) env).sendThrough (sid, dest) datagram
            env := by
  have hpolicy : (f.pruneIdle env.reapAt).policy = f.policy := (dropAll_thinned f _).policy
  unfold handle
  dsimp only
  rw [hpolicy]
  split
  · exact Or.inl (.refl _)
  rename_i dest datagram hdecode
  split
  · exact Or.inl ⟨fun _ _ h => h, fun _ h => h, rfl, hpolicy.symm⟩
  rename_i hallowed
  split
  · left
    unfold answer
    split
    · exact .refl _
    split
    · exact ⟨fun _ _ h => h, fun _ h => h, rfl, rfl⟩
    · exact .refl _
  · exact Or.inr ⟨dest, datagram, hdecode, hallowed, rfl⟩

section Fresh

/-- Every entry was used within the idle time before `t`. -/
def Fresh (t : ℕ) (f : Forwarder) : Prop :=
  ∀ key e, f.sockets.get key = some e → t - e.lastUse ≤ idleTtl

variable {t : ℕ}

theorem fresh_pruneIdle (f : Forwarder) (t : ℕ) : (f.pruneIdle t).Fresh t := by
  intro key e he
  rw [pruneIdle, get_dropAll] at he
  split_ifs at he with hmem
  by_contra hidle
  apply hmem
  exact List.mem_map.mpr ⟨⟨key, e⟩, List.mem_filter.mpr
    ⟨Table.mem_entries.mpr he, decide_eq_true (not_le.mp hidle)⟩, rfl⟩

theorem Fresh.thinned (h : f.Fresh t) (ht : Thinned f f') : f'.Fresh t :=
  fun key e he => h key e (ht.stays key e he)

theorem Fresh.put (h : f.Fresh t) {e : ForwardEntry} (he : t ≤ e.lastUse)
    (hsockets : f'.sockets = f.sockets.put key e) : f'.Fresh t := by
  intro k e' hget
  rw [hsockets, Table.get_put] at hget
  split_ifs at hget
  · obtain rfl := Option.some.inj hget
    omega
  · exact h k e' hget

theorem Fresh.ensure (h : f.Fresh t) (key : ForwardKey) {env : HandleWorld}
    (hroom : f.sockets.size ≤ globalCap) (hinsert : t ≤ env.insertAt) :
    (f.ensure key env).Fresh t := by
  have hthin := h.thinned (makeRoom_spec key.1 env hroom).1
  unfold Forwarder.ensure Forwarder.pruneAndInsert
  dsimp only
  split
  · split
    · exact hthin
    split
    · exact hthin
    · exact hthin.put hinsert rfl
  · exact h

/-- After a call every entry was used within the idle time before its start. -/
theorem fresh_handle (hlaw : f.sockets.size ≤ globalCap) (sid : SessionId) (slot : Bytes)
    {env : HandleWorld} (hinsert : env.reapAt ≤ env.insertAt) (huse : env.reapAt ≤ env.useAt) :
    (f.handle sid slot env).Fresh env.reapAt := by
  have hreaped := fresh_pruneIdle f env.reapAt
  rcases handle_cases f sid slot env with hthin | ⟨dest, datagram, -, -, heq⟩
  · exact hreaped.thinned hthin
  · have hready := hreaped.ensure (sid, dest)
      ((dropAll_thinned f _).size_le.trans hlaw) hinsert
    have hthrough := sendThrough_through ((f.pruneIdle env.reapAt).ensure (sid, dest) env)
      (sid, dest) datagram env
    rw [heq]
    generalize Forwarder.sendThrough _ (sid, dest) datagram env = g at hthrough ⊢
    cases hthrough with
    | missing => exact hready
    | sent e g answerable hget hsockets => exact hready.put huse hsockets

end Fresh

namespace Lawful

theorem ensure (h : f.Lawful policy) (hallowed : Egress.denyReason key.2 policy = none)
    (hplain : key.2.plain = key.2) (env : HandleWorld) : (f.ensure key env).Lawful policy := by
  unfold Forwarder.ensure
  split
  · rename_i hnone
    exact h.pruneAndInsert (Option.isNone_iff_eq_none.mp hnone) hallowed hplain env
  · exact h

theorem through {datagram : Bytes} {env : HandleWorld} (h : f.Lawful policy)
    (ht : Through f key datagram env f') : f'.Lawful policy := by
  cases ht with
  | missing => exact h
  | sent e g answerable hget hsockets hsent hreaders hpolicy =>
    have hkeys : ∀ k e', f'.sockets.get k = some e' → ∃ w, f.sockets.get k = some w := by
      intro k e' hk
      rw [hsockets, Table.get_put] at hk
      split_ifs at hk with heq
      · exact ⟨e, heq ▸ hget⟩
      · exact ⟨e', hk⟩
    have hsub := Table.keys_subperm hkeys
    refine ⟨hpolicy.trans h.fixed, fun sid => (hsub.countP_le _).trans (h.perSession sid), ?_, ?_,
      ?_, fun r hr => h.plain r (hreaders r hr)⟩
    · have htotal := h.total
      rw [Table.size_eq_length_keys] at htotal ⊢
      exact hsub.length_le.trans htotal
    · intro k e' hk
      obtain ⟨w, hw⟩ := hkeys k e' hk
      exact h.allowed k w hw
    · rw [hsent]
      intro x hx
      rcases List.mem_append.mp hx with hx | hx
      · exact h.sentAllowed x hx
      · rw [List.mem_singleton.mp hx]
        exact h.allowed key e hget

theorem handle (h : f.Lawful policy) (sid : SessionId) (slot : Bytes) (env : HandleWorld) :
    (f.handle sid slot env).Lawful policy := by
  have hreaped := dropAll_thinned f ((f.sockets.entries.filter fun x =>
    decide (idleTtl < env.reapAt - x.2.lastUse)).map (·.1))
  rcases handle_cases f sid slot env with hthin | ⟨dest, datagram, hdecode, hallowed, heq⟩
  · exact h.thinned (hreaped.trans hthin)
  · rw [heq]
    rw [h.fixed] at hallowed
    exact ((h.thinned hreaped).ensure hallowed (encodeRelay_decodeRelay hdecode).1 env).through
      (sendThrough_through ..)

end Lawful

theorem replyReader_thinned (f : Forwarder) (socket : ℕ) (os : Except IoError Bytes)
    (commandsOpen : Bool) : Thinned f (f.replyReader socket os commandsOpen) := by
  have hstop : Thinned f (f.stopReaders [socket]) :=
    ⟨fun _ _ h => h, fun r hr => List.mem_of_mem_filter hr, rfl, rfl⟩
  unfold replyReader
  split
  · exact .refl f
  split
  · exact hstop
  split
  · exact .refl f
  split
  · exact ⟨fun _ _ h => h, fun _ h => h, rfl, rfl⟩
  · exact hstop

/-- Every operation but a call of `handle` only takes entries away. -/
theorem step_thinned {op : Op} (h : ∀ sid slot env, op ≠ .handle sid slot env) :
    Thinned f (f.step op) := by
  cases op with
  | handle sid slot env => exact absurd rfl (h sid slot env)
  | sessionClosed sid | shutdown => exact dropAll_thinned f _
  | read socket os commandsOpen => exact replyReader_thinned f socket os commandsOpen

theorem Lawful.run (h : f.Lawful policy) (ops : List Op) : (f.run ops).Lawful policy := by
  induction ops generalizing f with
  | nil => exact h
  | cons op ops ih =>
    apply ih
    cases op with
    | handle sid slot env => exact h.handle sid slot env
    | _ => exact h.thinned (step_thinned (by simp))

theorem lawful_new (echo : Bool) (policy : EgressPolicy) :
    (newWithPolicy echo policy).Lawful policy := by
  refine ⟨rfl, fun _ => Nat.zero_le _, Nat.zero_le _, fun key e he => ?_, ?_, ?_⟩
  · rw [newWithPolicy, Table.get_empty] at he
    cases he
  all_goals
    intro x hx
    cases hx

theorem run_thinned {ops : List Op} (h : ∀ op ∈ ops, ∀ sid slot env, op ≠ .handle sid slot env) :
    Thinned f (f.run ops) := by
  induction ops generalizing f with
  | nil => exact .refl f
  | cons op ops ih =>
    exact (step_thinned (h op List.mem_cons_self)).trans
      (ih fun op hop => h op (List.mem_cons_of_mem _ hop))

theorem ensure_sent (h : f.sockets.size ≤ globalCap) (key : ForwardKey) (env : HandleWorld) :
    (f.ensure key env).sent = f.sent := by
  have hroom := (makeRoom_spec key.1 env h).1.sent
  unfold ensure pruneAndInsert
  dsimp only
  split
  · split
    · exact hroom
    split
    · exact hroom
    · exact hroom
  · rfl

/-- One operation sends at most one datagram: that of a call of `handle`, on the socket that the
pool keeps under its session and decoded destination. -/
theorem step_sent (h : f.sockets.size ≤ globalCap) (op : Op) : (f.step op).sent = f.sent ∨
    ∃ sid slot env dest datagram e answerable, op = .handle sid slot env ∧
      decodeRelay slot = .ok (dest, datagram) ∧ (f.step op).sockets.get (sid, dest) = some e ∧
      (f.step op).sent = f.sent ++ [⟨(sid, dest), e.socket, datagram, answerable⟩] := by
  by_cases hop : ∃ sid slot env, op = .handle sid slot env
  · obtain ⟨sid, slot, env, rfl⟩ := hop
    have hreaped : Thinned f (f.pruneIdle env.reapAt) := dropAll_thinned f _
    simp only [step]
    rcases handle_cases f sid slot env with hthin | ⟨dest, datagram, hdecode, -, heq⟩
    · exact Or.inl (hthin.sent.trans hreaped.sent)
    · have hready := ensure_sent (hreaped.size_le.trans h) (sid, dest) env
      have hthrough := sendThrough_through ((f.pruneIdle env.reapAt).ensure (sid, dest) env)
        (sid, dest) datagram env
      rw [← heq] at hthrough
      rw [hreaped.sent] at hready
      generalize (f.pruneIdle env.reapAt).ensure (sid, dest) env = g at hthrough hready
      generalize f.handle sid slot env = g' at hthrough ⊢
      cases hthrough with
      | missing => exact Or.inl hready
      | sent e _ answerable hget hsockets hsent =>
        refine Or.inr ⟨sid, slot, env, dest, datagram, { e with lastUse := env.useAt }, answerable,
          rfl, hdecode, ?_, ?_⟩
        · rw [hsockets, Table.get_put_self]
        · rw [hsent, hready]
  · exact Or.inl (step_thinned fun sid slot env heq => hop ⟨sid, slot, env, heq⟩).sent

/-- The pool under the default policy, in every state of every run. The idle time counts from the
first reading of the clock in a call, which later readings of a monotonic clock do not precede. -/
theorem pool_bounded (echo : Bool) (ops : List Op) :
    (∀ sid, ((new echo).run ops).sessionSize sid ≤ 128) ∧
      ((new echo).run ops).sockets.size ≤ 512 ∧
      (∀ key ∈ ((new echo).run ops).sockets.keys, Egress.denyReason key.2 .denyUnsafe = none) ∧
      (∀ x ∈ ((new echo).run ops).sent, Egress.denyReason x.key.2 .denyUnsafe = none) ∧
      (∀ pre sid slot env post, ops = pre ++ .handle sid slot env :: post →
        (∀ op ∈ post, ∀ sid slot env, op ≠ .handle sid slot env) →
        env.reapAt ≤ env.insertAt → env.reapAt ≤ env.useAt →
        ∀ key e, ((new echo).run ops).sockets.get key = some e →
          env.reapAt - e.lastUse ≤ fromSecs 60) ∧
      (∀ sid key, (((new echo).run ops).onSessionClosed sid).sockets.get key =
        if key.1 = sid then none else ((new echo).run ops).sockets.get key) ∧
      ∀ op, (((new echo).run ops).step op).sent = ((new echo).run ops).sent ∨
        ∃ sid slot env dest datagram e answerable, op = .handle sid slot env ∧
          decodeRelay slot = .ok (dest, datagram) ∧
          (((new echo).run ops).step op).sockets.get (sid, dest) = some e ∧
          (((new echo).run ops).step op).sent = ((new echo).run ops).sent ++
            [⟨(sid, dest), e.socket, datagram, answerable⟩] := by
  have hnew := lawful_new echo .denyUnsafe
  have hlaw := hnew.run ops
  refine ⟨hlaw.perSession, hlaw.total, ?_, hlaw.sentAllowed, ?_, ?_, step_sent hlaw.total⟩
  · intro key hkey
    obtain ⟨e, he⟩ := Table.mem_keys.mp hkey
    exact hlaw.allowed key e he
  · rintro pre sid slot env post rfl hpost hinsert huse key e he
    rw [run, List.foldl_append, List.foldl_cons] at he
    have hbefore := (hnew.run pre).total
    exact ((fresh_handle hbefore sid slot hinsert huse).thinned (run_thinned hpost)) key e he
  · intro sid key
    rw [onSessionClosed, get_dropAll]
    by_cases hsid : key.1 = sid
    · rw [if_pos hsid]
      split_ifs with hmem
      · rfl
      · cases hget : ((new echo).run ops).sockets.get key with
        | none => rfl
        | some e =>
          have hkey := Table.mem_keys.mpr ⟨e, hget⟩
          exact absurd (List.mem_filter.mpr ⟨hkey, decide_eq_true hsid⟩) hmem
    · rw [if_neg hsid, if_neg]
      intro hmem
      exact hsid (of_decide_eq_true (List.mem_filter.mp hmem).2)

end Forwarder
end PqTunnel
