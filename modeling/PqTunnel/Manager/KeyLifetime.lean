import PqTunnel.Manager.Custody
import PqTunnel.Manager.Rearm

/-! How long the keys of a session exist: both managers as keepers of session objects, driven by
a tick once a second. -/
namespace PqTunnel
open Transition

variable {T : CryptoTypes} {P : Primitives T}

/-- A session manager as its driver sees it, and what it holds and creates. -/
structure Keeper (σ ι : Type*) where
  call : σ → ι → List ManagerEvent × σ
  time : ι → Option ℕ
  tick : ι → Option ℕ
  custody : σ → Custody
  created : σ → ι → List (SessionKeys × ℕ)

/-- The pending closes that a call leaves: a tick passes over them, other calls do not. -/
def survivors (P : Primitives T) (tick : Option ℕ) (closes : List PendingClose) :
    List PendingClose :=
  match tick with
  | some now => closes.filterMap fun pc => (pc.pass P now).2
  | none => closes

/-- The packets that a call sends for the pending closes. -/
def resent (P : Primitives T) (tick : Option ℕ) (closes : List PendingClose) :
    List ManagerEvent :=
  match tick with
  | some now => closes.flatMap fun pc => (pc.pass P now).1
  | none => []

namespace Keeper
variable {σ ι : Type*} (K : Keeper σ ι)

def run (m : σ) (calls : List ι) : σ := calls.foldl (fun m a => (K.call m a).2) m

def ticks (calls : List ι) : List ℕ := calls.filterMap K.tick

/-- The sessions created over a run, with the times. -/
def creations : σ → List ι → List (SessionKeys × ℕ) :=
  outputs (fun m a => (K.call m a).2) K.created

/-- Calls from `start` on in which the tick comes exactly once a second. The next tick is at
`next`, and the moment reached is `now`. -/
inductive Paced (start first : ℕ) : List ι → ℕ → ℕ → Prop where
  | start : Paced start first [] first start
  | wait {calls : List ι} {next now : ℕ} (now' : ℕ) (h : Paced start first calls next now)
      (hle : now ≤ now') (hnext : now' ≤ next) : Paced start first calls next now'
  | call {calls : List ι} {next now : ℕ} (a : ι) (h : Paced start first calls next now)
      (hquiet : K.tick a = none) (htime : ∀ t, K.time a = some t → t = now) :
      Paced start first (calls ++ [a]) next now
  | tick {calls : List ι} {next : ℕ} (a : ι) (h : Paced start first calls next next)
      (htick : K.tick a = some next) : Paced start first (calls ++ [a]) (next + fromSecs 1) next

/-- The keys of a session are gone four seconds after its lifetime cap, wherever they stood. The
sessions that a call tears down encrypt their first Close, and no other packet is sent beside
these and the retransmissions that are due; each is retransmitted at most twice, on ticks that are
far enough apart. -/
def KeysReleased (P : Primitives T) (cap : ℕ) (m : σ) : Prop :=
  (∀ start first calls next now, start ≤ first → first ≤ start + fromSecs 1 →
    K.Paced start first calls next now →
    ∀ keys created, (∀ t, (keys, t) ∈ K.creations m calls → t ≤ created) →
      created + cap + fromSecs 4 < now → ¬ (K.custody (K.run m calls)).Holds keys) ∧
  ∀ before a after now, (∀ t, K.time a = some t → t = now) →
    ∃ begun later,
      (K.custody (K.run m (before ++ [a]))).closing =
        survivors P (K.tick a) (K.custody (K.run m before)).closing ++ begun ∧
      (K.custody (K.run m (before ++ a :: after))).closing =
        ((K.custody (K.run m (before ++ [a]))).closing.filterMap fun pc =>
          (Retry.life (PendingClose.pass P) pc (K.ticks after)).2) ++ later ∧
      (∃ front, (K.call (K.run m before) a).1 =
          front ++ resent P (K.tick a) ((K.custody (K.run m before)).closing ++ begun) ∧
        (begun ≠ [] → ∀ p ∈ front.flatMap (·.packets), ∃ pc ∈ begun, FirstClose P pc p)) ∧
      ∀ pc ∈ begun, ∃ x, x.born ∈ K.creations m (before ++ [a]) ∧ Begins P now x pc ∧
        Retransmits P now x pc (K.ticks after)

/-- What the proofs need to know about a manager. -/
structure Lawful (P : Primitives T) (cap : ℕ) (I : σ → Prop) : Prop where
  keeps : ∀ {m} a, I m → I (K.call m a).2
  timed : ∀ {a t}, K.tick a = some t → K.time a = some t
  quiet : ∀ {m a now}, I m → K.tick a = none → (∀ t, K.time a = some t → t = now) →
    ∃ out, Trace (Custody.Move P now) (K.custody m) out (K.custody (K.call m a).2) ∧
      births out = K.created m a ∧
      ((K.custody (K.call m a).2).closing = (K.custody m).closing ∨
        ∀ p ∈ (K.call m a).1.flatMap (·.packets), p ∈ firstCloses out)
  flush : ∀ {m a now}, I m → K.tick a = some now → K.created m a = [] ∧
    ∃ c front, Custody.Accounts P now (K.custody m) front c ∧
      (∀ x ∈ c.live, now - x.createdAt < cap) ∧
      K.custody (K.call m a).2 = ⟨c.live, (retransmitCloses P c.closing now).2.1⟩ ∧
      (K.call m a).1 = front ++ (retransmitCloses P c.closing now).1

section Laws

variable {K} {cap : ℕ} {I : σ → Prop} {m : σ}

theorem run_snoc (m : σ) (calls : List ι) (a : ι) :
    K.run m (calls ++ [a]) = (K.call (K.run m calls) a).2 := by
  simp [run]

theorem creations_snoc (m : σ) (calls : List ι) (a : ι) :
    K.creations m (calls ++ [a]) = K.creations m calls ++ K.created (K.run m calls) a :=
  outputs_snoc ..

theorem eq_time (o : Option ℕ) : ∀ t, o = some t → t = o.getD 0 := by
  rintro t rfl
  rfl

theorem Lawful.run (h : K.Lawful P cap I) (hm : I m) (calls : List ι) : I (K.run m calls) := by
  induction calls generalizing m with
  | nil => exact hm
  | cons a calls ih => exact ih (h.keeps a hm)

variable {calls : List ι} {now : ℕ} {start : ℕ} {first : ℕ}

variable {next : ℕ}

theorem Paced.clock (h : K.Paced start first calls next now) (hstart : start ≤ first)
    (hfirst : first ≤ start + fromSecs 1) : now ≤ next ∧ next ≤ now + fromSecs 1 := by
  induction h with
  | start => exact ⟨hstart, hfirst⟩
  | wait now' _ hle hnext ih => exact ⟨hnext, by omega⟩
  | call a _ _ _ ih => exact ih
  | tick a _ _ ih => exact ⟨by omega, le_refl _⟩

/-- Everything that a paced run holds is young enough for the next tick. -/
theorem Lawful.aged (h : K.Lawful P cap I) (hm : I m) (hempty : K.custody m = ⟨[], []⟩)
    (hpaced : K.Paced start first calls next now) (hstart : start ≤ first)
    (hfirst : first ≤ start + fromSecs 1) :
    (K.custody (K.run m calls)).Aged cap next (K.creations m calls) := by
  induction hpaced with
  | start =>
    change (K.custody m).Aged cap first []
    rw [hempty]
    exact ⟨by simp [Custody.Born], by simp, by simp⟩
  | wait now' _ _ _ ih => exact ih
  | call a hp hquiet htime ih =>
    obtain ⟨hnow, hnext⟩ := hp.clock hstart hfirst
    obtain ⟨out, htrace, hcreated, -⟩ := h.quiet (h.run hm _) hquiet htime
    rw [run_snoc, creations_snoc, ← hcreated]
    exact ih.trace htrace hnow hnext
  | tick a hp htick ih =>
    obtain ⟨hcreated, c, front, ⟨out, htrace, hnone, -⟩, hyoung, hcustody, -⟩ :=
      h.flush (h.run hm _) htick
    have haged := ih.trace htrace (le_refl _) (Nat.le_add_right _ _)
    rw [hnone] at haged
    rw [run_snoc, creations_snoc, hcreated, hcustody]
    exact haged.flush hyoung

theorem pass_begun {begun : List PendingClose} (hbegun : ∀ pc ∈ begun, ∃ x, Begins P now x pc) :
    (begun.filterMap fun pc => (pc.pass P now).2) = begun := by
  induction begun with
  | nil => rfl
  | cons pc begun ih =>
    obtain ⟨x, hx⟩ := hbegun pc List.mem_cons_self
    have hleft : 0 < pc.attemptsLeft := by simp [hx.attempts, closeRetransmitTotal]
    have hearly : now < pc.nextAt := by simp [hx.due, closeRetransmitBase, fromSecs]
    have hrest := ih fun pc' hpc' => hbegun pc' (List.mem_cons_of_mem _ hpc')
    rw [List.filterMap_cons, PendingClose.pass_early hleft hearly, hrest]

/-- One call: the pending closes pass or stay, and those it begins come last. -/
theorem Lawful.step (h : K.Lawful P cap I) (hm : I m) {born : List (SessionKeys × ℕ)}
    (hborn : (K.custody m).Born born) {a : ι} (htime : ∀ t, K.time a = some t → t = now) :
    (K.custody (K.call m a).2).Born (born ++ K.created m a) ∧
    ∃ begun, (K.custody (K.call m a).2).closing =
        survivors P (K.tick a) (K.custody m).closing ++ begun ∧
      (∃ front, (K.call m a).1 = front ++ resent P (K.tick a) ((K.custody m).closing ++ begun) ∧
        (begun ≠ [] → ∀ p ∈ front.flatMap (·.packets), ∃ pc ∈ begun, FirstClose P pc p)) ∧
      ∀ pc ∈ begun, ∃ x, x.born ∈ born ++ K.created m a ∧ Begins P now x pc := by
  cases htick : K.tick a with
  | none =>
    obtain ⟨out, htrace, hcreated, hout⟩ := h.quiet hm htick htime
    obtain ⟨hborn', begun, hclosing, hbegun, hfirst⟩ := Custody.begun_of_trace htrace hborn
    rw [hcreated] at hborn' hbegun
    refine ⟨hborn', begun, hclosing, ⟨_, (List.append_nil _).symm, fun hne p hp => ?_⟩, hbegun⟩
    rcases hout with hsame | hout
    · exact absurd (List.append_right_eq_self.mp (hclosing.symm.trans hsame)) hne
    · exact hfirst p (hout p hp)
  | some t =>
    obtain rfl := htime t (h.timed htick)
    obtain ⟨hcreated, c, front, ⟨out, htrace, hnone, hout⟩, -, hcustody, hevs⟩ := h.flush hm htick
    obtain ⟨hborn', begun, hclosing, hbegun, hfirst⟩ := Custody.begun_of_trace htrace hborn
    obtain ⟨hresent, hkept⟩ := PendingClose.retransmitCloses_eq (P := P) c.closing t
    rw [hnone] at hborn' hbegun
    rw [hcustody, hcreated]
    refine ⟨hborn', begun, ?_, ⟨front, ?_, fun _ p hp => hfirst p (hout p hp)⟩, hbegun⟩
    · rw [hkept, hclosing, List.filterMap_append,
        pass_begun fun pc hpc => (hbegun pc hpc).imp fun _ hx => hx.2]
      rfl
    · rw [hevs, hresent, hclosing]
      rfl

theorem Lawful.born (h : K.Lawful P cap I) (hm : I m) (hempty : K.custody m = ⟨[], []⟩)
    (calls : List ι) : (K.custody (K.run m calls)).Born (K.creations m calls) := by
  induction calls using List.reverseRecOn with
  | nil =>
    change (K.custody m).Born []
    rw [hempty]
    intro x hx
    cases hx
  | append_singleton calls a ih =>
    rw [run_snoc, creations_snoc]
    exact (h.step (h.run hm calls) ih (eq_time _)).1

/-- Over a run the pending closes live their lives, one look per tick. -/
theorem Lawful.closing_run (h : K.Lawful P cap I) (hm : I m) (calls : List ι) :
    ∃ later, (K.custody (K.run m calls)).closing =
      ((K.custody m).closing.filterMap fun pc =>
        (Retry.life (PendingClose.pass P) pc (K.ticks calls)).2) ++ later := by
  induction calls generalizing m with
  | nil =>
    refine ⟨[], ?_⟩
    simp [Keeper.run, ticks, Retry.life]
  | cons a calls ih =>
    obtain ⟨later, hlater⟩ := ih (h.keeps a hm)
    have hborn : (K.custody m).Born ((K.custody m).live.map Holding.born) :=
      fun x hx => List.mem_map_of_mem hx
    obtain ⟨-, begun, hclosing, -⟩ := h.step hm hborn (eq_time _)
    have hrun : K.run m (a :: calls) = K.run (K.call m a).2 calls := rfl
    rw [hrun, hlater, hclosing, List.filterMap_append, List.append_assoc]
    refine ⟨_, congrArg (· ++ _) ?_⟩
    cases htick : K.tick a with
    | none => simp [survivors, ticks, htick]
    | some t =>
      have hticks : K.ticks (a :: calls) = t :: K.ticks calls := by simp [ticks, htick]
      rw [hticks]
      exact Retry.filterMap_life ..

theorem Lawful.keysReleased (h : K.Lawful P cap I) (hm : I m)
    (hempty : K.custody m = ⟨[], []⟩) : K.KeysReleased P cap m := by
  constructor
  · intro start first calls next now hstart hfirst hpaced keys created hcreated hlate hholds
    obtain ⟨t, ht, hnext⟩ := (h.aged hm hempty hpaced hstart hfirst).exists_born hholds
    have := hcreated t ht
    have := (hpaced.clock hstart hfirst).1
    omega
  · intro before a after now htime
    have hm' := h.run hm before
    obtain ⟨-, begun, hclosing, hevs, hbegun⟩ := h.step hm' (h.born hm hempty before) htime
    obtain ⟨later, hlater⟩ := h.closing_run (h.keeps a hm') after
    have hsplit : K.run m (before ++ a :: after) = K.run (K.call (K.run m before) a).2 after := by
      simp [Keeper.run]
    rw [hsplit, run_snoc, creations_snoc]
    refine ⟨begun, later, hclosing, hlater, hevs, fun pc hpc => ?_⟩
    obtain ⟨x, hx, hb⟩ := hbegun pc hpc
    exact ⟨x, hx, hb, hb.retransmits _⟩

theorem Paced.of_quiet (start first : ℕ)
    (h : ∀ a ∈ calls, K.tick a = none ∧ ∀ t, K.time a = some t → t = start) :
    K.Paced start first calls first start := by
  induction calls using List.reverseRecOn with
  | nil => exact .start
  | append_singleton calls a ih =>
    obtain ⟨hquiet, htime⟩ := h a (by simp)
    exact (ih fun a' ha' => h a' (List.mem_append_left _ ha')).call a hquiet htime

theorem Paced.ticks (h : K.Paced start first calls next now) (hle : now ≤ next) {tickAt : ℕ → ι}
    (htick : ∀ t, K.tick (tickAt t) = some t) (n : ℕ) :
    K.Paced start first (calls ++ (List.range (n + 1)).map fun i => tickAt (next + i * fromSecs 1))
      (next + (n + 1) * fromSecs 1) (next + n * fromSecs 1) := by
  induction n with
  | zero => simpa using (h.wait next hle (le_refl _)).tick (tickAt next) (htick next)
  | succ n ih =>
    have hwait := ih.wait (next + (n + 1) * fromSecs 1) (by simp [fromSecs]) (le_refl _)
    have hnext := hwait.tick _ (htick _)
    have hlast : next + (n + 1) * fromSecs 1 + fromSecs 1 = next + (n + 1 + 1) * fromSecs 1 := by
      simp only [fromSecs]
      omega
    rw [hlast] at hnext
    rw [List.range_succ, List.map_append, ← List.append_assoc]
    exact hnext

theorem Lawful.created_le (h : K.Lawful P cap I) (hm : I m)
    (hpaced : K.Paced start first calls next now) : ∀ e ∈ K.creations m calls, e.2 ≤ now := by
  induction hpaced with
  | start => simp [creations, outputs]
  | wait now' _ hle _ ih => exact fun e he => (ih e he).trans hle
  | @call calls next now a hp hquiet htime ih =>
    obtain ⟨out, htrace, hcreated, -⟩ := h.quiet (h.run hm calls) hquiet htime
    have hnew : ∀ e ∈ births out, e.2 ≤ now := by
      refine htrace.extend (h := []) (J := fun out _ => ∀ e ∈ births out, e.2 ≤ now) ?_
        (by simp [births])
      intro done c₁ out c₂ hdone hmove e he
      rw [births_append, List.mem_append] at he
      rcases he with he | he
      · exact hdone e he
      · cases hmove with
        | keep live hlive => cases he
        | create keys live hlive => rw [List.mem_singleton.mp he]
        | close x pc live out hx hpc hlive hnone =>
          rw [hnone] at he
          cases he
    intro e he
    rw [creations_snoc, ← hcreated, List.mem_append] at he
    exact he.elim (ih e) (hnew e)
  | tick a hp htick ih =>
    rw [creations_snoc, (h.flush (h.run hm _) htick).1, List.append_nil]
    exact ih

/-- Keys that were created before the first tick are gone after enough ticks. -/
theorem KeysReleased.after_ticks (hrel : K.KeysReleased P cap m) (h : K.Lawful P cap I) (hm : I m)
    (hpaced : K.Paced start first calls first start) (hstart : start ≤ first)
    (hfirst : first ≤ start + fromSecs 1) {tickAt : ℕ → ι} (htick : ∀ t, K.tick (tickAt t) = some t)
    {n : ℕ} (hn : start + cap + fromSecs 4 < first + n * fromSecs 1) (keys : SessionKeys) :
    ¬ (K.custody (K.run m (calls ++
      (List.range (n + 1)).map fun i => tickAt (first + i * fromSecs 1)))).Holds keys := by
  refine hrel.1 _ _ _ _ _ hstart hfirst (hpaced.ticks hstart htick n) keys start ?_ hn
  have hsame : ∀ l : List ℕ,
      K.creations m (calls ++ l.map fun i => tickAt (first + i * fromSecs 1)) =
        K.creations m calls := by
    intro l
    induction l using List.reverseRecOn with
    | nil => simp
    | append_singleton l i ih =>
      rw [List.map_append, ← List.append_assoc, List.map_singleton, creations_snoc, ih,
        (h.flush (h.run hm _) (htick _)).1, List.append_nil]
  intro t ht
  rw [hsame] at ht
  exact h.created_le hm hpaced _ ht

end Laws

end Keeper

def SessionEntry.holding (e : SessionEntry) : Holding := ⟨e.session, e.peer, e.establishedAt⟩

namespace ServerSessionManager

def custody (m : ServerSessionManager T) : Custody where
  live := m.sessions.entries.map fun e => e.2.holding
  closing := m.pendingCloses

def created (P : Primitives T) (m : ServerSessionManager T) : Call T → List (SessionKeys × ℕ)
  | .datagram pkt src clock now draw order =>
    match m.handleDatagram P pkt src clock now draw order with
    | (.ok (.established sid _), m') =>
      (m'.sessions.get sid).toList.map fun e => (e.session.keys, now)
    | _ => []
  | _ => []

def Call.tickTime : Call T → Option ℕ
  | .tick now _ => some now
  | _ => none

def keeper (P : Primitives T) : Keeper (ServerSessionManager T) (Call T) where
  call := call P
  time := Call.time
  tick := Call.tickTime
  custody := custody
  created := created P

variable {m m' : ServerSessionManager T} {now : ℕ} {evs : List ManagerEvent}

theorem mem_live {x : Holding} :
    x ∈ m.custody.live ↔ ∃ sid e, m.sessions.get sid = some e ∧ e.holding = x := by
  constructor
  · intro hx
    obtain ⟨⟨sid, e⟩, hmem, rfl⟩ := List.mem_map.mp hx
    exact ⟨sid, e, Table.mem_entries.mp hmem, rfl⟩
  · rintro ⟨sid, e, hget, rfl⟩
    exact List.mem_map.mpr ⟨⟨sid, e⟩, Table.mem_entries.mpr hget, rfl⟩

/-- Every session of the second manager is one of the first. -/
def LiveFrom (m m' : ServerSessionManager T) : Prop :=
  ∀ sid e', m'.sessions.get sid = some e' →
    ∃ e, m.sessions.get sid = some e ∧ e.holding.born = e'.holding.born

theorem LiveFrom.live (h : LiveFrom m m') :
    ∀ x ∈ m'.custody.live, ∃ x₀ ∈ m.custody.live, x₀.born = x.born := by
  intro x hx
  obtain ⟨sid, e', hget', rfl⟩ := mem_live.mp hx
  obtain ⟨e, hget, hborn⟩ := h sid e' hget'
  exact ⟨e.holding, mem_live.mpr ⟨sid, e, hget, rfl⟩, hborn⟩

theorem LiveFrom.move (h : LiveFrom m m') (hcloses : m'.pendingCloses = m.pendingCloses) :
    Custody.Move P now m.custody [] m'.custody := .kept hcloses h.live

theorem LiveFrom.accounts (h : LiveFrom m m') (hcloses : m'.pendingCloses = m.pendingCloses)
    (hevs : ∀ ev ∈ evs, ev.packets = []) :
    Custody.Accounts P now m.custody evs m'.custody := by
  refine ⟨[], .single (h.move hcloses), rfl, fun p hp => ?_⟩
  obtain ⟨ev, hev, hmem⟩ := List.mem_flatMap.mp hp
  rw [hevs ev hev] at hmem
  cases hmem

theorem liveFrom_remove (m : ServerSessionManager T) (sid : SessionId) :
    LiveFrom m (m.removeSession sid) :=
  fun _ e' hget' => ⟨e', (Table.get_of_remove hget').2, rfl⟩

variable {sid : SessionId}

theorem liveFrom_put {e e' : SessionEntry} (hget : m.sessions.get sid = some e)
    (hborn : e.holding.born = e'.holding.born) : LiveFrom m (m.putSession sid e') := by
  intro sid' e'' hget'
  rw [putSession, Table.get_put] at hget'
  split_ifs at hget' with hsid
  · obtain rfl := Option.some.inj hget'
    exact ⟨e, hsid ▸ hget, hborn⟩
  · exact ⟨e'', hget', rfl⟩

theorem beginClose_accounts {e : SessionEntry} (hget : m.sessions.get sid = some e)
    {m₁ : ServerSessionManager T} (hlive : LiveFrom m m₁)
    (hcloses : m₁.pendingCloses = m.pendingCloses) (now : ℕ) {rest : List ManagerEvent}
    (hrest : ∀ ev ∈ rest, ev.packets = []) :
    Custody.Accounts P now m.custody ((m₁.beginClose P e now).1.toList ++ rest)
      (m₁.beginClose P e now).2.custody := by
  unfold beginClose
  cases henc : e.session.encrypt P .close closeSlot with
  | mk r session =>
    cases r with
    | error err => exact hlive.accounts hcloses hrest
    | ok packet =>
      have hevs : ∀ ev ∈ ManagerEvent.sendPacket packet e.peer :: rest,
          ev = .sendPacket packet e.peer ∨ ev.packets = [] := by
        intro ev hev
        rcases List.mem_cons.mp hev with rfl | hev
        · exact Or.inl rfl
        · exact Or.inr (hrest ev hev)
      have hbegins : Begins P now e.holding
          ⟨session, e.peer, closeRetransmitTotal - 1, now + closeRetransmitBase⟩ :=
        ⟨⟨packet, henc⟩, rfl, rfl, rfl⟩
      exact hbegins.accounts (mem_live.mpr ⟨sid, e, hget, rfl⟩) (congrArg (· ++ [_]) hcloses)
        hlive.live ⟨rfl, e.session, henc⟩ hevs

theorem Teardown.accounts (h : Teardown P now m evs m') :
    Custody.Accounts P now m.custody evs m'.custody := by
  cases h with
  | expired sid entry reason hget =>
    exact beginClose_accounts hget (liveFrom_remove m sid) rfl now (by simp [ManagerEvent.packets])
  | closedByUser sid entry hget =>
    have hlive : LiveFrom m (m.queueClosed sid .userClosed) := liveFrom_remove m sid
    have hnone : ∀ ev ∈ ([] : List ManagerEvent), ev.packets = [] := by simp
    have haccounts := beginClose_accounts (P := P) hget hlive rfl now hnone
    rw [List.append_nil] at haccounts
    exact haccounts

theorem accounts_of_trace (h : Trace (Teardown P now) m evs m') :
    Custody.Accounts P now m.custody evs m'.custody := by
  refine h.extend (h := []) (J := fun evs m' => Custody.Accounts P now m.custody evs m'.custody)
    ?_ (.refl _ (by simp))
  intro _ _ _ _ hm hstep
  exact hm.trans hstep.accounts

theorem Deed.move (h : Deed P now m evs m') : Custody.Move P now m.custody [] m'.custody := by
  have hsame : LiveFrom m m := fun _ e hget => ⟨e, hget, rfl⟩
  cases h with
  | idle => exact hsame.move rfl
  | received sid entry entry' w hget hsession hsince =>
    refine (liveFrom_put hget ?_).move rfl
    simp only [Holding.born, SessionEntry.holding, hsession, hsince]
    rfl
  | sent sid entry msgType payload packet session hget henc =>
    obtain ⟨-, rfl⟩ := WireSession.encrypt_ok henc
    exact LiveFrom.move (liveFrom_put hget rfl) rfl
  | ended sid entry reason hget => exact (liveFrom_remove m sid).move rfl
  | evicted order =>
    rcases m.evictAtCapacity_cases order with ⟨heq, -⟩ | ⟨-, stale, _, -, -, heq⟩
    · rw [heq]
      exact hsame.move rfl
    · rw [heq]
      exact (liveFrom_remove m stale).move rfl

theorem Deed.limits (h : Deed P now m evs m') : m'.limits = m.limits := by
  cases h with
  | evicted => simp
  | _ => rfl

theorem Deed.closing (h : Deed P now m evs m') : m'.pendingCloses = m.pendingCloses := by
  cases h with
  | evicted order =>
    rcases m.evictAtCapacity_cases order with ⟨heq, -⟩ | ⟨-, stale, _, -, -, heq⟩
    · rw [heq]
    · rw [heq]
      rfl
  | _ => rfl

theorem Teardown.limits (h : Teardown P now m evs m') : m'.limits = m.limits := by
  cases h with
  | expired => simp [removeSession]
  | closedByUser => simp [queueClosed, removeSession]

theorem Deed.not_established (h : Deed P now m evs m') {peer : SocketAddr} :
    ManagerEvent.established sid peer ∉ evs := by
  cases h with
  | idle _ _ _ hevs =>
    intro hmem
    cases hevs _ hmem
  | _ => simp

section Opening

variable {pkt : WirePacket} {src : SocketAddr} {clock : Clock} {draw : ServerDraw T}
  {order : List SessionId}

theorem Opens.limits (h : Opens P m pkt src clock now draw order evs m') :
    m'.limits = m.limits := by
  obtain ⟨hs, outcome, session, -, -, -, -⟩ := h
  simp [putSession]

theorem Opens.move (h : Opens P m pkt src clock now draw order evs m') :
    ∃ sid session, evs = [.established sid src] ∧
      m'.sessions.get sid = some ⟨session, src, now, now⟩ ∧
      m'.pendingCloses = m.pendingCloses ∧
      Custody.Move P now m.custody [.created session.keys now] m'.custody := by
  obtain ⟨hs, outcome, session, -, -, -, -⟩ := h
  refine ⟨outcome.sessionId, session, rfl, Table.get_put_self .., ?_⟩
  generalize hm₁ : ({ m with hs } : ServerSessionManager T).evictAtCapacity order = m₁
  have hcloses : m₁.pendingCloses = m.pendingCloses := by
    rw [← hm₁]
    rcases ({ m with hs } : ServerSessionManager T).evictAtCapacity_cases order with
      ⟨heq, -⟩ | ⟨-, stale, _, -, -, heq⟩ <;> rw [heq] <;> rfl
  refine ⟨hcloses, .created hcloses fun x hx => ?_⟩
  obtain ⟨sid, e, hget, rfl⟩ := mem_live.mp hx
  rw [putSession, Table.get_put] at hget
  split_ifs at hget with hsid
  · obtain rfl := Option.some.inj hget
    exact Or.inl rfl
  · rw [← hm₁] at hget
    have hfound := get_of_evictAtCapacity (m := { m with hs }) hget
    exact Or.inr ⟨e.holding, mem_live.mpr ⟨sid, e, hfound, rfl⟩, rfl⟩

theorem Opens.created {a : Call T} (ha : a = .datagram pkt src clock now draw order)
    {session : WireSession} {sid : SessionId} (hevs : (call P m a).1 = [.established sid src])
    (hget : (call P m a).2.sessions.get sid = some ⟨session, src, now, now⟩) :
    created P m a = [(session.keys, now)] := by
  subst ha
  simp only [call, ServerSessionManager.created] at hevs hget ⊢
  cases hres : m.handleDatagram P pkt src clock now draw order with
  | mk r m' =>
    rw [hres] at hevs hget
    obtain rfl : r = .ok (.established sid src) := by
      cases r with
      | error e => cases hevs
      | ok ev => cases ev <;> simp_all [returned, ManagerEvent.toList]
    simp only [hget, Option.toList_some, List.map_cons, List.map_nil]

end Opening

theorem created_eq_nil {t : ℕ} {out : List ManagerEvent} {a : Call T}
    (h : Trace (Deed P t) m ((call P m a).1 ++ out) m') : created P m a = [] := by
  have hnone : ∀ ev ∈ (call P m a).1 ++ out, ∀ sid peer, ev ≠ .established sid peer := by
    refine h.extend (J := fun evs _ => ∀ ev ∈ evs, ∀ sid peer, ev ≠ .established sid peer)
      (h := []) ?_ (by simp)
    intro evs m₁ out m₂ hevs hdeed ev hev sid peer
    rcases List.mem_append.mp hev with hev | hev
    · exact hevs ev hev sid peer
    · rintro rfl
      exact hdeed.not_established hev
  cases a with
  | datagram pkt src clock now draw order =>
    simp only [created]
    split
    · rename_i sid peer m'' hres
      refine absurd rfl (hnone (.established sid peer) ?_ sid peer)
      simp [call, hres, returned, ManagerEvent.toList]
    · rfl
  | _ => rfl

theorem call_custody (m : ServerSessionManager T) {a : Call T} (hquiet : a.tickTime = none)
    (htime : ∀ t, a.time = some t → t = now) :
    (∃ out, Trace (Custody.Move P now) m.custody out (call P m a).2.custody ∧
      births out = created P m a ∧ ((call P m a).2.pendingCloses = m.pendingCloses ∨
        ∀ p ∈ (call P m a).1.flatMap (·.packets), p ∈ firstCloses out)) ∧
      (call P m a).2.limits = m.limits := by
  have htick : ∀ t order, a ≠ .tick t order := by
    rintro t order rfl
    cases hquiet
  rcases call_deeds (P := P) m htick htime with
    ⟨pkt, src, clock, draw, order, ha, hopens⟩ | ⟨sid, ha, htrace⟩ | htrace
  · obtain ⟨sid, session, hevs, hget, hcloses, hmove⟩ := hopens.move
    exact ⟨⟨_, .single hmove, (Opens.created ha hevs hget).symm, Or.inl hcloses⟩, hopens.limits⟩
  · obtain ⟨out, hmoves, hnone, hout⟩ := accounts_of_trace htrace
    refine ⟨⟨out, hmoves, ?_, Or.inr hout⟩,
      htrace.keeps (fun hm hdown => hdown.limits.trans hm) rfl⟩
    rw [hnone, ha]
    rfl
  · refine ⟨⟨[], htrace.project custody Deed.move, ?_, Or.inl ?_⟩, ?_⟩
    · rw [created_eq_nil htrace]
      rfl
    · exact htrace.keeps (fun hm hdeed => hdeed.closing.trans hm) rfl
    · exact htrace.keeps (fun hm hdeed => hdeed.limits.trans hm) rfl

/-- The loop of a tick removes every session in its list and touches no other. -/
theorem get_of_expireLoop {gone : List (SessionId × CloseReason)} {sid : SessionId}
    {e : SessionEntry} (h : (expireLoop P now gone m).2.sessions.get sid = some e) :
    m.sessions.get sid = some e ∧ sid ∉ gone.map (·.1) := by
  induction gone generalizing m with
  | nil => exact ⟨h, by simp⟩
  | cons g gone ih =>
    obtain ⟨sid', reason⟩ := g
    rw [List.map_cons, List.mem_cons, not_or]
    unfold expireLoop at h
    cases hget : m.sessions.get sid' with
    | none =>
      simp only [hget] at h
      obtain ⟨hfound, hnot⟩ := ih h
      refine ⟨hfound, ?_, hnot⟩
      rintro rfl
      rw [hget] at hfound
      cases hfound
    | some e' =>
      simp only [hget] at h
      obtain ⟨hfound, hnot⟩ := ih h
      rw [beginClose_sessions] at hfound
      obtain ⟨hne, hfound⟩ := Table.get_of_remove hfound
      exact ⟨hfound, hne, hnot⟩

theorem young_of_expired {cap : ℕ} (hcap : m.limits.lifetimeCap = some cap)
    (order : List SessionId) :
    ∀ x ∈ (expireLoop P now (m.expired now order) m).2.custody.live, now - x.createdAt < cap := by
  intro x hx
  obtain ⟨sid, e, hget, rfl⟩ := mem_live.mp hx
  obtain ⟨hfound, hnot⟩ := get_of_expireLoop hget
  by_contra hold
  have hdue : expiry m.limits now e = some .lifetimeCap := by
    have hlife : ¬ now - e.establishedAt < cap := hold
    simp [expiry, hcap, hlife]
  refine hnot (List.mem_map.mpr ⟨(sid, .lifetimeCap), ?_, rfl⟩)
  exact List.mem_filterMap.mpr ⟨(sid, e), Table.mem_iter.mpr hfound, by rw [hdue]; rfl⟩

theorem keeper_lawful (P : Primitives T) (cap : ℕ) :
    (keeper P).Lawful P cap fun m => QueueOk m ∧ m.limits.lifetimeCap = some cap where
  keeps := by
    rintro m a ⟨hq, hcap⟩
    have hlimits : (call P m a).2.limits = m.limits := by
      cases htick : a.tickTime with
      | none => exact (call_custody m htick (Keeper.eq_time _)).2
      | some now =>
        cases a with
        | tick t order =>
          exact (expired_trace (P := P) m t order).keeps
            (fun hm hdown => hdown.limits.trans hm) rfl
        | _ => cases htick
    exact ⟨hq.call a, (congrArg SessionLimits.lifetimeCap hlimits).trans hcap⟩
  timed := by
    intro a t htick
    cases a with
    | tick now order => exact htick
    | _ => cases htick
  quiet := by
    intro m a now _ hquiet htime
    exact (call_custody m hquiet htime).1
  flush := by
    rintro m a now ⟨hq, hcap⟩ htick
    cases a with
    | tick t order =>
      obtain rfl := Option.some.inj htick
      have htrace := expired_trace (P := P) m t order
      have hqueue := (trace_opens_nothing (htrace.mono Teardown.act) hq).1
      refine ⟨rfl, (expireLoop P t (m.expired t order) m).2.custody, _,
        (accounts_of_trace htrace).trans (.refl _ ?_), young_of_expired hcap order, rfl, rfl⟩
      intro ev hev
      obtain ⟨sid, reason, rfl⟩ := hqueue ev hev
      rfl
    | _ => cases htick

end ServerSessionManager

namespace ClientSessionManager
open ServerSessionManager (returned)

def custody (m : ClientSessionManager T) : Custody where
  live := m.session.toList.map fun session => ⟨session, m.peer, m.preparedAt.getD 0⟩
  closing := m.pendingCloses

def created (P : Primitives T) (m : ClientSessionManager T) (a : Call T) :
    List (SessionKeys × ℕ) :=
  match m.session with
  | none => (call P m a).2.session.toList.map fun session => (session.keys, a.time)
  | some _ => []

def Call.tickTime : Call T → Option ℕ
  | .tick now => some now
  | _ => none

def keeper (P : Primitives T) : Keeper (ClientSessionManager T) (Call T) where
  call := call P
  time a := some a.time
  tick := Call.tickTime
  custody := custody
  created := created P

variable {m m' : ClientSessionManager T} {now : ℕ} {evs : List ManagerEvent}

theorem custody_live_none (h : m.session = none) : m.custody.live = [] := by
  simp [custody, h]

variable {session : WireSession}

theorem custody_live_some (h : m.session = some session) :
    m.custody.live = [⟨session, m.peer, m.preparedAt.getD 0⟩] := by
  simp [custody, h]

theorem move_kept {session' : WireSession} (hget : m.session = some session)
    (hget' : m'.session = some session') (hkeys : session'.keys = session.keys)
    (hsince : m'.preparedAt = m.preparedAt) (hcloses : m'.pendingCloses = m.pendingCloses) :
    Custody.Move P now m.custody [] m'.custody := by
  refine .kept hcloses fun x hx => ?_
  rw [custody_live_some hget', List.mem_singleton] at hx
  rw [custody_live_some hget, hx]
  exact ⟨_, List.mem_singleton_self _, by simp [Holding.born, hkeys, hsince]⟩

theorem move_none (hnone : m'.session = none) (hcloses : m'.pendingCloses = m.pendingCloses) :
    Custody.Move P now m.custody [] m'.custody := by
  refine .kept hcloses fun x hx => ?_
  rw [custody_live_none hnone] at hx
  cases hx

theorem teardown_accounts (hget : m.session = some session) (now : ℕ) (sendClose : Bool)
    {rest : List ManagerEvent} (hevs : evs = (m.teardown P now sendClose).1.toList ∨ evs = [])
    (hrest : ∀ ev ∈ rest, ev.packets = []) :
    Custody.Accounts P now m.custody (evs ++ rest) (m.teardown P now sendClose).2.custody := by
  have hgone := (teardown_tornDown (P := P) hget now sendClose).session
  rcases teardown_closes (P := P) hget now sendClose with
    ⟨hev, hcloses⟩ | ⟨packet, closing, henc, hev, hcloses⟩
  · obtain rfl : evs = [] := by
      rw [hev] at hevs
      exact hevs.elim id id
    refine ⟨[], .single (move_none hgone hcloses), rfl, fun p hp => ?_⟩
    obtain ⟨ev, hmem, hp⟩ := List.mem_flatMap.mp hp
    rw [hrest ev hmem] at hp
    cases hp
  · have hsent : ∀ ev ∈ evs ++ rest, ev = .sendPacket packet m.peer ∨ ev.packets = [] := by
      intro ev hmem
      rcases List.mem_append.mp hmem with hmem | hmem
      · rw [hev] at hevs
        rcases hevs with rfl | rfl
        · exact Or.inl (List.mem_singleton.mp hmem)
        · cases hmem
      · exact Or.inr (hrest ev hmem)
    have hbegins : Begins P now ⟨session, m.peer, m.preparedAt.getD 0⟩
        ⟨closing, m.peer, closeRetransmitTotal - 1, now + closeRetransmitBase⟩ :=
      ⟨⟨packet, henc⟩, rfl, rfl, rfl⟩
    have hx : ⟨session, m.peer, m.preparedAt.getD 0⟩ ∈ m.custody.live := by
      rw [custody_live_some hget]
      exact List.mem_singleton_self _
    have hlive : ∀ x ∈ (m.teardown P now sendClose).2.custody.live,
        ∃ x₀ ∈ m.custody.live, x₀.born = x.born := by
      rw [custody_live_none hgone]
      simp
    exact hbegins.accounts hx hcloses hlive ⟨rfl, session, henc⟩ hsent

theorem Deed.spares (h : Deed P now m evs m') :
    Custody.Spares P now m.custody evs m'.custody := by
  have hstay : ∀ m' : ClientSessionManager T, m'.session = m.session →
      m'.preparedAt = m.preparedAt → m'.pendingCloses = m.pendingCloses →
      Custody.Spares P now m.custody evs m'.custody := by
    intro m' hsession hsince hcloses
    refine .of_move evs ?_ hcloses
    cases hget : m.session with
    | none => exact move_none (hsession.trans hget) hcloses
    | some session => exact move_kept hget (hsession.trans hget) rfl hsince hcloses
  cases h with
  | quiet _ _ _ hsame => exact hstay _ hsame.session hsame.preparedAt hsame.pendingCloses
  | began | stepped | timedOut => exact hstay _ rfl rfl rfl
  | touched session st w ready rounds peer hget =>
    exact .of_move _ (move_kept hget rfl rfl rfl rfl) rfl
  | sent _ _ _ _ _ _ _ hget henc =>
    obtain ⟨-, rfl⟩ := WireSession.encrypt_ok henc
    exact .of_move _ (move_kept hget rfl rfl rfl rfl) rfl
  | ended evs session reason sendClose hevs hget =>
    exact (teardown_accounts hget now sendClose hevs (by simp [ManagerEvent.packets])).spares
      (by simp)
  | closedByUser session hget =>
    have hrest : ∀ ev ∈ ([] : List ManagerEvent), ev.packets = [] := by simp
    have haccounts := teardown_accounts (P := P) hget now true (Or.inl rfl) hrest
    rw [List.append_nil] at haccounts
    rcases teardown_closes (P := P) hget now true with ⟨-, hcloses⟩ | ⟨packet, _, -, hev, -⟩
    · obtain ⟨out, htrace, hnone, -⟩ := haccounts
      exact ⟨out, htrace, hnone, Or.inl hcloses⟩
    · exact haccounts.spares (by simp [hev])

theorem spares_of_trace (h : Trace (Deed P now) m evs m') :
    Custody.Spares P now m.custody evs m'.custody := by
  refine h.extend (h := []) (J := fun evs m' => Custody.Spares P now m.custody evs m'.custody)
    ?_ ⟨[], .refl _, rfl, Or.inl rfl⟩
  intro _ _ _ _ hm hdeed
  exact hm.trans hdeed.spares

variable {a : Call T}

theorem length_events_le (hquiet : a.tickTime = none) : (call P m a).1.length ≤ 1 := by
  have htoList : ∀ ev : ManagerEvent, ev.toList.length ≤ 1 := by
    intro ev
    cases ev <;> simp [ManagerEvent.toList]
  have hone : ∀ r : Except (Fault ManagerError) ManagerEvent, (returned r).length ≤ 1 := by
    intro r
    cases r with
    | error e => simp [returned]
    | ok ev => exact htoList ev
  cases a with
  | tick now => cases hquiet
  | takeSlot now clock =>
    simp only [call]
    cases (m.takeSlot P now clock).1 with
    | none => simp
    | some ev => simpa using htoList ev
  | _ => exact hone _

theorem beforeFlush_accounts (m : ClientSessionManager T) (now : ℕ) :
    ∃ evs, Custody.Accounts P now m.custody evs (m.beforeFlush P now).custody ∧
      (m.tick P now).1 = evs ++ ((m.beforeFlush P now).pendingClosed ++
        (retransmitCloses P (m.beforeFlush P now).pendingCloses now).1) := by
  refine beforeFlush_rule (R := fun m evs m' => Custody.Accounts P now m.custody evs m'.custody)
    (fun m => .refl _ (by simp)) .trans (fun m hs _ => .refl _ (by simp [ManagerEvent.packets]))
    (fun m session reason hget =>
      teardown_accounts hget now true (Or.inl rfl) (by simp [ManagerEvent.packets]))
    (fun m evs hevs => ?_) m
  refine .refl _ fun ev hev => ?_
  rcases hevs with rfl | ⟨n, rfl⟩
  · cases hev
  · rw [List.mem_singleton.mp hev]
    rfl

theorem queueOk_of_trace (h : Held P m) (hq : QueueOk m) (ht : Trace (Act P now) m evs m') :
    QueueOk m' := by
  refine (ht.keeps (I := fun m => Held P m ∧ QueueOk m) ?_ ⟨h, hq⟩).2
  rintro _ _ _ ⟨hheld, hqueue⟩ hact
  exact ⟨hheld.act hact, (hact.moves hheld hqueue).1⟩

/-- A session has the time of its creation, and the cap stays. -/
structure Capped (P : Primitives T) (cap : ℕ) (m : ClientSessionManager T) : Prop where
  held : Held P m
  queue : QueueOk m
  dated : m.session.isSome → m.preparedAt.isSome
  cap : m.limits.lifetimeCap = some cap

/-- What a deed leaves alone: without a session there is none after it. -/
structure Undisturbed (m m' : ClientSessionManager T) : Prop where
  limits : m'.limits = m.limits
  session : m'.session.isSome → m.session.isSome ∧ m'.preparedAt = m.preparedAt

variable {cap : ℕ}

theorem Capped.undisturbed (h : Capped P cap m) (hheld : Held P m') (hqueue : QueueOk m')
    (hkept : Undisturbed m m') : Capped P cap m' := by
  refine ⟨hheld, hqueue, fun hsome => ?_, by rw [hkept.limits, h.cap]⟩
  obtain ⟨hsome', hsince⟩ := hkept.session hsome
  rw [hsince]
  exact h.dated hsome'

theorem Deed.undisturbed (h : Deed P now m evs m') : Undisturbed m m' := by
  cases h with
  | quiet _ _ _ hsame =>
    exact ⟨hsame.limits, fun hsome => ⟨hsame.session ▸ hsome, hsame.preparedAt⟩⟩
  | touched session _ _ _ _ _ hget | sent _ session _ _ _ _ _ hget =>
    exact ⟨rfl, fun _ => ⟨by simp [hget], rfl⟩⟩
  | ended _ session reason sendClose _ hget =>
    have hdown := teardown_tornDown (P := P) hget now sendClose
    refine ⟨hdown.limits, fun hsome => ?_⟩
    rw [hdown.session] at hsome
    cases hsome
  | closedByUser session hget =>
    have hdown := teardown_tornDown (P := P) hget now true
    refine ⟨hdown.limits, fun hsome => ?_⟩
    change (m.teardown P now true).2.session.isSome at hsome
    rw [hdown.session] at hsome
    cases hsome
  | _ => exact ⟨rfl, fun hsome => ⟨hsome, rfl⟩⟩

theorem undisturbed_of_trace (h : Trace (Deed P now) m evs m') : Undisturbed m m' := by
  refine h.keeps ?_ ⟨rfl, fun hsome => ⟨hsome, rfl⟩⟩
  intro m₁ _ m₂ hm hdeed
  have hstep := hdeed.undisturbed
  refine ⟨hstep.limits.trans hm.limits, fun hsome => ?_⟩
  obtain ⟨hsome₁, hsince⟩ := hstep.session hsome
  obtain ⟨hsome₀, hsince₀⟩ := hm.session hsome₁
  exact ⟨hsome₀, hsince.trans hsince₀⟩

theorem buildProbe_keys {session : WireSession} (hget : m.session = some session) :
    ∃ session', (m.buildProbe P).2.session = some session' ∧ session'.keys = session.keys := by
  have hkeys := session.encrypt_keys (P := P) .handshake (Control.slot Control.probe)
  unfold buildProbe
  simp only [hget]
  exact ⟨_, rfl, hkeys⟩

theorem Adopts.moves (h : Adopts P a.time m (call P m a).1 (call P m a).2) :
    ∃ session c, created P m a = [(session, a.time)] ∧ c.closing = m.custody.closing ∧
      Custody.Move P a.time m.custody [.created session a.time] c ∧
      Custody.Spares P a.time c (call P m a).1 (call P m a).2.custody := by
  obtain ⟨hs, hs', packets, outcome, session, m₁, -, hfree, -, -, -, hsession, hsince, hcloses, -,
    hprobe, hkept⟩ := h
  refine ⟨session.keys, m₁.custody, ?_, hcloses, ?_, spares_of_trace hprobe⟩
  · obtain ⟨session', hget', hkeys⟩ := buildProbe_keys (P := P) hsession
    rw [← hkept] at hget'
    simp [created, hfree, hget', hkeys]
  · refine .created hcloses fun x hx => Or.inl ?_
    rw [custody_live_some hsession, List.mem_singleton] at hx
    simp [hx, Holding.born, hsince]

theorem created_eq_nil (h : Undisturbed m (call P m a).2) : created P m a = [] := by
  unfold created
  split
  · rename_i hnone
    have hstill : (call P m a).2.session = none := by
      by_contra hsome
      have hold := (h.session (Option.isSome_iff_ne_none.mpr hsome)).1
      rw [hnone] at hold
      cases hold
    simp [hstill]
  · rfl

theorem live_of_closeIf {x : Holding} {passed : Bool} {reason : CloseReason}
    (hx : x ∈ (m.closeIf P passed reason now).2.custody.live) :
    x ∈ m.custody.live ∧ passed = false := by
  rcases m.closeIf_cases (P := P) passed reason now with ⟨heq, hnone | hpassed⟩ |
    ⟨session, hget, -, heq⟩ <;> rw [heq] at hx
  · rw [custody_live_none hnone] at hx
    cases hx
  · exact ⟨hx, hpassed⟩
  · rw [custody_live_none (teardown_tornDown hget now true).session] at hx
    cases hx

theorem young_of_beforeFlush (h : Capped P cap m) :
    ∀ x ∈ (m.beforeFlush P now).custody.live, now - x.createdAt < cap := by
  intro x hx
  have hfrom : Undisturbed m (m.expireHandshake now).2 := by
    rcases m.expireHandshake_cases now with heq | ⟨hs, -, heq⟩ <;> rw [heq] <;>
      exact ⟨rfl, fun hsome => ⟨hsome, rfl⟩⟩
  generalize hm₁ : (m.expireHandshake now).2 = m₁ at hfrom
  obtain ⟨hlive, hyoung⟩ : x ∈ m₁.custody.live ∧ m₁.lifetimePassed now = false := by
    rw [← hm₁]
    exact live_of_closeIf (live_of_closeIf (live_of_closeIf hx).1).1
  cases hget : m₁.session with
  | none =>
    rw [custody_live_none hget] at hlive
    cases hlive
  | some session =>
    rw [custody_live_some hget, List.mem_singleton] at hlive
    obtain ⟨hsome, hsince⟩ := hfrom.session (by simp [hget])
    obtain ⟨t, ht⟩ := Option.isSome_iff_exists.mp (h.dated hsome)
    have hcap : m₁.limits.lifetimeCap = some cap := by rw [hfrom.limits, h.cap]
    have ht' : m₁.preparedAt = some t := hsince.trans ht
    simpa [hlive, lifetimePassed, ht', hcap] using hyoung

theorem call_custody (h : Held P m) (hquiet : a.tickTime = none) :
    ∃ out, Trace (Custody.Move P a.time) m.custody out (call P m a).2.custody ∧
      births out = created P m a ∧ ((call P m a).2.pendingCloses = m.pendingCloses ∨
        ∀ p ∈ (call P m a).1.flatMap (·.packets), p ∈ firstCloses out) := by
  have hlen := length_events_le (P := P) (m := m) hquiet
  have htick : ∀ t, a ≠ .tick t := by
    rintro t rfl
    cases hquiet
  rcases call_deeds h htick with hadopts | htrace
  · obtain ⟨keys, c, hcreated, hclosing, hcreate, out, hmoves, hnone, hout⟩ := hadopts.moves
    refine ⟨[.created keys a.time] ++ out, (Trace.single hcreate).trans hmoves, ?_, ?_⟩
    · rw [births_append, hnone, hcreated]
      rfl
    · exact hout.imp (fun hsame => hsame.trans hclosing) fun hout => hout.2 hlen
  · obtain ⟨out, hmoves, hnone, hout⟩ := spares_of_trace htrace
    refine ⟨out, hmoves, ?_, hout.imp id fun hout => hout.2 hlen⟩
    rw [hnone, created_eq_nil (undisturbed_of_trace htrace)]

theorem capped_new {cfg : ClientConfig T} {limits : SessionLimits} (h : new cfg limits = .ok m)
    (hcap : limits.lifetimeCap = some cap) : Capped P cap m := by
  obtain ⟨-, -, hlimits, -, hsession, -, hclosed, -⟩ := new_ok h
  exact ⟨held_new h, by simp [QueueOk, hclosed], by simp [hsession], by rw [hlimits, hcap]⟩

theorem Capped.call (h : Capped P cap m) (a : Call T) : Capped P cap (call P m a).2 := by
  have hheld := h.held.call a
  have hqueue := queueOk_of_trace h.held h.queue (call_trace h.held a)
  by_cases htick : ∃ t, a = .tick t
  · obtain ⟨t, rfl⟩ := htick
    obtain ⟨evs, htrace, -⟩ := beforeFlush_trace (P := P) m t
    have hkept := undisturbed_of_trace htrace
    exact h.undisturbed hheld hqueue ⟨hkept.limits, hkept.session⟩
  · rcases call_deeds h.held (fun t ha => htick ⟨t, ha⟩) with hadopts | htrace
    · obtain ⟨_, _, _, _, _, _, _, _, _, _, _, _, hsince, _, hlimits, hprobe, _⟩ := hadopts
      have hkept := undisturbed_of_trace hprobe
      refine ⟨hheld, hqueue, fun hsome => ?_, ?_⟩
      · rw [(hkept.session hsome).2, hsince]
        rfl
      · rw [hkept.limits, hlimits, h.cap]
    · exact h.undisturbed hheld hqueue (undisturbed_of_trace htrace)

theorem keeper_lawful (P : Primitives T) (cap : ℕ) : (keeper P).Lawful P cap (Capped P cap) where
  keeps a h := h.call a
  timed := by
    intro a t htick
    cases a with
    | tick now => exact htick
    | _ => cases htick
  quiet := by
    intro m a now h hquiet htime
    obtain rfl := htime _ rfl
    exact call_custody h.held hquiet
  flush := by
    intro m a now h htick
    cases a with
    | tick t =>
      obtain rfl := Option.some.inj htick
      obtain ⟨_, htrace, -⟩ := beforeFlush_trace (P := P) m t
      obtain ⟨evs, haccounts, hevs⟩ := beforeFlush_accounts (P := P) m t
      have hqueue := queueOk_of_trace h.held h.queue (htrace.mono Deed.act)
      have hkept := undisturbed_of_trace htrace
      refine ⟨created_eq_nil ⟨hkept.limits, hkept.session⟩, (m.beforeFlush P t).custody,
        evs ++ (m.beforeFlush P t).pendingClosed, haccounts.trans (.refl _ ?_),
        young_of_beforeFlush h, rfl, hevs.trans (List.append_assoc ..).symm⟩
      intro ev hev
      obtain ⟨sid, reason, rfl⟩ := hqueue ev hev
      rfl
    | _ => cases htick

end ClientSessionManager

end PqTunnel
