import PqTunnel.Forward.Forwarder

/-! The readers of the pooled sockets. -/
namespace PqTunnel.Forwarder
open Transition

variable {f f' f'' : Forwarder} {key : ForwardKey} {socket : ℕ}

def Pooled (f : Forwarder) (socket : ℕ) : Prop :=
  ∃ key e, f.sockets.get key = some e ∧ e.socket = socket

/-- Every entry has a socket of its own, opened before. -/
structure Wired (f : Forwarder) : Prop where
  old : ∀ key e, f.sockets.get key = some e → e.socket < f.opened
  own : ∀ key key' e e', f.sockets.get key = some e → f.sockets.get key' = some e' →
    e.socket = e'.socket → key = key'

/-- Entries have left the pool, and the readers of those that stay still run. -/
structure Trimmed (f f' : Forwarder) : Prop where
  stays : ∀ key e, f'.sockets.get key = some e → f.sockets.get key = some e
  reads : ∀ key e, f'.sockets.get key = some e →
    ∀ r ∈ f.readers, r.socket = e.socket → r ∈ f'.readers
  opened : f'.opened = f.opened
  sent : f'.sent = f.sent

/-- Every entry has a running reader, and every datagram was sent while there was one. -/
structure Served (f : Forwarder) : Prop where
  wired : f.Wired
  reader : ∀ key e, f.sockets.get key = some e →
    ∃ r ∈ f.readers, r.socket = e.socket ∧ r.sid = key.1 ∧ r.dest = key.2
  answerable : ∀ x ∈ f.sent, x.answerable = true

namespace Trimmed

theorem refl (f : Forwarder) : Trimmed f f :=
  ⟨fun _ _ h => h, fun _ _ _ _ hr _ => hr, rfl, rfl⟩

theorem trans (h : Trimmed f f') (h' : Trimmed f' f'') : Trimmed f f'' := by
  refine ⟨fun key e hget => h.stays key e (h'.stays key e hget), ?_, h'.opened.trans h.opened,
    h'.sent.trans h.sent⟩
  intro key e hget r hr hsocket
  exact h'.reads key e hget r (h.reads key e (h'.stays key e hget) r hr hsocket) hsocket

theorem wired (h : Trimmed f f') (hwired : f.Wired) : f'.Wired := by
  constructor
  · intro key e hget
    rw [h.opened]
    exact hwired.old key e (h.stays key e hget)
  · intro key key' e e' hget hget'
    exact hwired.own key key' e e' (h.stays key e hget) (h.stays key' e' hget')

theorem served (h : Trimmed f f') (hserved : f.Served) : f'.Served := by
  refine ⟨h.wired hserved.wired, ?_, by rw [h.sent]; exact hserved.answerable⟩
  intro key e hget
  obtain ⟨r, hr, hsocket, hkey⟩ := hserved.reader key e (h.stays key e hget)
  exact ⟨r, h.reads key e hget r hr hsocket, hsocket, hkey⟩

theorem pooled (h : Trimmed f f') (hpooled : f'.Pooled socket) : f.Pooled socket := by
  obtain ⟨key, e, hget, hsocket⟩ := hpooled
  exact ⟨key, e, h.stays key e hget, hsocket⟩

end Trimmed

section Pruning

theorem dropEntry_trimmed (h : f.Wired) (key : ForwardKey) : Trimmed f (f.dropEntry key) := by
  unfold dropEntry
  split
  · exact .refl f
  · rename_i e hget
    refine ⟨fun key' e' hget' => (Table.get_of_remove hget').2, ?_, rfl, rfl⟩
    intro key' e' hget' r hr hsocket
    obtain ⟨hkey, hget'⟩ := Table.get_of_remove hget'
    -- the reader that is stopped belongs to another socket
    refine List.mem_filter.mpr ⟨hr, decide_eq_true ?_⟩
    rw [List.mem_singleton, hsocket]
    exact fun hsame => hkey (h.own key' key e' e hget' hget hsame)

theorem dropAll_trimmed (h : f.Wired) (keys : List ForwardKey) : Trimmed f (f.dropAll keys) := by
  induction keys generalizing f with
  | nil => exact .refl f
  | cons key keys ih =>
    have hdrop := dropEntry_trimmed h key
    exact hdrop.trans (ih (hdrop.wired h))

theorem evictSession_trimmed (h : f.Wired) (sid : SessionId) (orders : ℕ → List ForwardKey)
    (passes : ℕ) : Trimmed f (evictSession sid orders passes f) := by
  induction passes generalizing f with
  | zero => exact .refl f
  | succ passes ih =>
    unfold evictSession
    dsimp only
    split
    · exact .refl f
    split
    · rename_i key _
      have hdrop := dropEntry_trimmed h key
      exact hdrop.trans (ih (hdrop.wired h))
    · exact .refl f

theorem makeRoom_trimmed (h : f.Wired) (sid : SessionId) (env : HandleWorld) :
    Trimmed f (f.makeRoom sid env) := by
  have hprune : Trimmed f (f.pruneIdle env.evictAt) := dropAll_trimmed h _
  have hend : ∀ {g}, Trimmed f g → Trimmed f (evictSession sid env.orders g.sockets.size g) :=
    fun htrim => htrim.trans (evictSession_trimmed (htrim.wired h) ..)
  unfold makeRoom
  apply hend
  split
  · split
    · exact hprune.trans (dropEntry_trimmed (hprune.wired h) _)
    · exact hprune
  · exact hprune

end Pruning

theorem Served.insert (h : f.Served) (key : ForwardKey) (now : ℕ) : (f.insert key now).Served := by
  have hentry : ∀ key' e, (f.insert key now).sockets.get key' = some e →
      key' = key ∧ e.socket = f.opened ∨ f.sockets.get key' = some e := by
    intro key' e hget
    by_cases hkey : key' = key
    · subst hkey
      rw [Forwarder.insert, Table.get_put_self] at hget
      exact Or.inl ⟨rfl, by rw [← Option.some.inj hget]⟩
    · rw [Forwarder.insert, Table.get_put_ne _ _ hkey] at hget
      exact Or.inr hget
  refine ⟨⟨?_, ?_⟩, ?_, h.answerable⟩
  · intro key' e hget
    change e.socket < f.opened + 1
    rcases hentry key' e hget with ⟨-, hsocket⟩ | hold
    · omega
    · have := h.wired.old key' e hold
      omega
  · intro key₁ key₂ e₁ e₂ hget₁ hget₂ hsame
    rcases hentry key₁ e₁ hget₁ with ⟨rfl, hnew₁⟩ | hold₁ <;>
      rcases hentry key₂ e₂ hget₂ with ⟨rfl, hnew₂⟩ | hold₂
    · rfl
    · have := h.wired.old key₂ e₂ hold₂
      omega
    · have := h.wired.old key₁ e₁ hold₁
      omega
    · exact h.wired.own key₁ key₂ e₁ e₂ hold₁ hold₂ hsame
  · intro key' e hget
    rcases hentry key' e hget with ⟨rfl, hsocket⟩ | hold
    · exact ⟨_, List.mem_append_right _ (List.mem_singleton_self _), hsocket.symm, rfl, rfl⟩
    · obtain ⟨r, hr, hreader⟩ := h.reader key' e hold
      exact ⟨r, List.mem_append_left _ hr, hreader⟩

theorem Served.recordFailure (h : f.Served) : f.recordFailure.Served :=
  ⟨⟨h.wired.old, h.wired.own⟩, h.reader, h.answerable⟩

theorem Served.pruneAndInsert (h : f.Served) (key : ForwardKey) (env : HandleWorld) :
    (f.pruneAndInsert key env).Served := by
  have htrim := makeRoom_trimmed h.wired key.1 env
  unfold Forwarder.pruneAndInsert
  dsimp only
  split
  · exact (htrim.served h).recordFailure
  split
  · exact (htrim.served h).recordFailure
  · exact (htrim.served h).insert key _

theorem pooled_pruneAndInsert (h : f.Wired) {env : HandleWorld}
    (hpooled : (f.pruneAndInsert key env).Pooled socket) : f.Pooled socket ∨ socket = f.opened := by
  have htrim := makeRoom_trimmed h key.1 env
  unfold Forwarder.pruneAndInsert at hpooled
  dsimp only at hpooled
  split at hpooled
  · exact Or.inl (htrim.pooled hpooled)
  split at hpooled
  · exact Or.inl (htrim.pooled hpooled)
  obtain ⟨key', e, hget, hsocket⟩ := hpooled
  by_cases hkey : key' = key
  · subst hkey
    rw [Forwarder.insert, Table.get_put_self] at hget
    right
    rw [← hsocket, ← Option.some.inj hget]
    exact htrim.opened
  · rw [Forwarder.insert, Table.get_put_ne _ _ hkey] at hget
    exact Or.inl (htrim.pooled ⟨key', e, hget, hsocket⟩)

theorem Served.stopReaders (h : f.Served) {sockets : List ℕ}
    (hfree : ∀ socket ∈ sockets, ¬ f.Pooled socket) : (f.stopReaders sockets).Served := by
  refine ⟨⟨h.wired.old, h.wired.own⟩, ?_, h.answerable⟩
  intro key e hget
  obtain ⟨r, hr, hsocket, hkey⟩ := h.reader key e hget
  refine ⟨r, List.mem_filter.mpr ⟨hr, decide_eq_true fun hmem => ?_⟩, hsocket, hkey⟩
  exact hfree r.socket hmem ⟨key, e, hget, hsocket.symm⟩

section Use

variable {e : ForwardEntry} {now : ℕ}

theorem get_used (h : f.sockets.get key = some e) {key' : ForwardKey} {e' : ForwardEntry}
    (hget : (f.sockets.put key { e with lastUse := now }).get key' = some e') :
    ∃ e₀, f.sockets.get key' = some e₀ ∧ e₀.socket = e'.socket := by
  by_cases hkey : key' = key
  · subst hkey
    rw [Table.get_put_self] at hget
    exact ⟨e, h, by rw [← Option.some.inj hget]⟩
  · rw [Table.get_put_ne _ _ hkey] at hget
    exact ⟨e', hget, rfl⟩

theorem Served.used (h : f.Served) (hget : f.sockets.get key = some e) (now : ℕ) :
    Served { f with sockets := f.sockets.put key { e with lastUse := now } } := by
  refine ⟨⟨?_, ?_⟩, ?_, h.answerable⟩
  · intro key' e' hget'
    obtain ⟨e₀, hget₀, hsocket⟩ := get_used hget hget'
    exact hsocket ▸ h.wired.old key' e₀ hget₀
  · intro key₁ key₂ e₁ e₂ hget₁ hget₂ hsame
    obtain ⟨e₁', hget₁', hsocket₁⟩ := get_used hget hget₁
    obtain ⟨e₂', hget₂', hsocket₂⟩ := get_used hget hget₂
    exact h.wired.own key₁ key₂ e₁' e₂' hget₁' hget₂' (by omega)
  · intro key' e' hget'
    obtain ⟨e₀, hget₀, hsocket⟩ := get_used hget hget'
    exact hsocket ▸ h.reader key' e₀ hget₀

theorem Served.record (h : f.Served) {x : ForwardSend} (hx : x.answerable = true) :
    Served { f with sent := f.sent ++ [x] } := by
  refine ⟨⟨h.wired.old, h.wired.own⟩, h.reader, fun y hy => ?_⟩
  rcases List.mem_append.mp hy with hy | hy
  · exact h.answerable y hy
  · rw [List.mem_singleton.mp hy, hx]

end Use

theorem Served.sendThrough (h : f.Served) (key : ForwardKey) (datagram : Bytes) {env : HandleWorld}
    (hfree : ∀ socket ∈ env.stopping, ¬ f.Pooled socket) :
    (f.sendThrough key datagram env).Served := by
  unfold Forwarder.sendThrough
  split
  · exact h
  rename_i e hget
  have hstopped := (h.used hget env.useAt).stopReaders (by
    rintro socket hmem ⟨key', e', hget', hsocket⟩
    obtain ⟨e₀, hget₀, hsame⟩ := get_used hget hget'
    exact hfree socket hmem ⟨key', e₀, hget₀, hsame.trans hsocket⟩)
  obtain ⟨r, hr, hsocket, -⟩ := hstopped.reader key _ (Table.get_put_self ..)
  dsimp only
  generalize Forwarder.stopReaders _ _ = g at hstopped hr ⊢
  have hruns : (g.readers.any fun r => decide (r.socket = e.socket)) = true :=
    List.any_eq_true.mpr ⟨r, hr, decide_eq_true hsocket⟩
  split
  · exact (hstopped.record hruns).recordFailure
  · exact hstopped.record hruns

theorem Served.handle (h : f.Served) (sid : SessionId) (slot : Bytes) {env : HandleWorld}
    (hfree : ∀ socket ∈ env.stopping, ¬ f.Pooled socket ∧ socket ≠ f.opened) :
    (f.handle sid slot env).Served := by
  have hprune : Trimmed f (f.pruneIdle env.reapAt) := dropAll_trimmed h.wired _
  have hpruned := hprune.served h
  unfold Forwarder.handle
  dsimp only
  split
  · exact hpruned
  split
  · exact ⟨⟨hpruned.wired.old, hpruned.wired.own⟩, hpruned.reader, hpruned.answerable⟩
  split
  · unfold answer
    split
    · exact hpruned
    split
    · exact ⟨⟨hpruned.wired.old, hpruned.wired.own⟩, hpruned.reader, hpruned.answerable⟩
    · exact hpruned
  split
  · refine (hpruned.pruneAndInsert _ env).sendThrough _ _ fun socket hmem hpooled => ?_
    obtain ⟨hnot, hnew⟩ := hfree socket hmem
    rcases pooled_pruneAndInsert hpruned.wired hpooled with hold | hfresh
    · exact hnot (hprune.pooled hold)
    · exact hnew (hfresh.trans hprune.opened)
  · exact hpruned.sendThrough _ _ fun socket hmem hpooled =>
      (hfree socket hmem).1 (hprune.pooled hpooled)

/-- The readers of pooled sockets do not stop: no read of theirs fails, and the manager takes what
they hand over. -/
def Undisturbed (f : Forwarder) : Op → Prop
  | .handle _ _ env => ∀ socket ∈ env.stopping, ¬ f.Pooled socket ∧ socket ≠ f.opened
  | .sessionClosed _ => True
  | .shutdown => True
  | .read socket os commandsOpen => f.Pooled socket → os.isOk = true ∧ commandsOpen = true

theorem Served.replyReader (h : f.Served) {os : Except IoError Bytes} {commandsOpen : Bool}
    (hkeep : f.Pooled socket → os.isOk = true ∧ commandsOpen = true) :
    (f.replyReader socket os commandsOpen).Served := by
  have hstop : (os.isOk = true ∧ commandsOpen = true → False) → (f.stopReaders [socket]).Served := by
    intro habs
    refine h.stopReaders fun socket' hmem hpooled => ?_
    rw [List.mem_singleton.mp hmem] at hpooled
    exact habs (hkeep hpooled)
  unfold Forwarder.replyReader
  split
  · exact h
  split
  · exact hstop (by rintro ⟨⟨⟩, -⟩)
  split
  · exact h
  split
  · exact ⟨⟨h.wired.old, h.wired.own⟩, h.reader, h.answerable⟩
  · rename_i hclosed
    exact hstop fun hopen => hclosed hopen.2

theorem Served.step (h : f.Served) {op : Op} (hop : f.Undisturbed op) : (f.step op).Served := by
  cases op with
  | handle sid slot env => exact h.handle sid slot hop
  | sessionClosed sid | shutdown => exact (dropAll_trimmed h.wired _).served h
  | read socket os commandsOpen => exact h.replyReader hop

theorem served_new (echo : Bool) (policy : EgressPolicy) : (newWithPolicy echo policy).Served := by
  have hnone : ∀ key e, (newWithPolicy echo policy).sockets.get key ≠ some e := by
    intro key e hget
    cases (Table.get_empty key).symm.trans hget
  refine ⟨⟨?_, ?_⟩, ?_, by simp [newWithPolicy]⟩
  · exact fun key e hget => absurd hget (hnone key e)
  · exact fun key _ e _ hget => absurd hget (hnone key e)
  · exact fun key e hget => absurd hget (hnone key e)

theorem Served.run (h : f.Served) {ops : List Op} (hops : Along Forwarder.step Undisturbed f ops) :
    (f.run ops).Served := by
  induction ops generalizing f with
  | nil => exact h
  | cons op ops ih => exact ih (h.step hops.1) hops.2

/-- While no reader of a pooled socket stops, every datagram goes out on a socket whose reader
runs. -/
theorem sends_answerable {echo : Bool} {policy : EgressPolicy} {ops : List Op}
    (h : Along Forwarder.step Undisturbed (newWithPolicy echo policy) ops) :
    ∀ x ∈ ((newWithPolicy echo policy).run ops).sent, x.answerable = true :=
  ((served_new echo policy).run h).answerable

section Sample

def sampleSession : SessionId := ⟨[1, 2, 3, 4, 5, 6, 7, 8], rfl⟩

def sampleSlot : Bytes := [0x04, 8, 8, 8, 8, 0, 53, 0, 1, 9]

def sampleKey : ForwardKey := (sampleSession, .v4 (Ipv4Addr.new 8 8 8 8) 53)

def calmWorld (now : ℕ) : HandleWorld where
  reapAt := now
  evictAt := now
  insertAt := now
  useAt := now
  orders := fun _ => []
  bind := .ok ()
  connect := .ok ()
  send := .ok ()
  commandsOpen := true
  stopping := []

def refused : IoError := ⟨.connectionRefused, none, "connection refused"⟩

/-- Two datagrams for one destination with a reply in between. -/
theorem sends_answerable_sample :
    ((new false).run [.handle sampleSession sampleSlot (calmWorld 0), .read 0 (.ok [7]) true,
      .handle sampleSession sampleSlot (calmWorld 1)]).sent =
      [⟨sampleKey, 0, [9], true⟩, ⟨sampleKey, 0, [9], true⟩] ∧
    ∀ x ∈ ((new false).run [.handle sampleSession sampleSlot (calmWorld 0), .read 0 (.ok [7]) true,
      .handle sampleSession sampleSlot (calmWorld 1)]).sent, x.answerable = true := by
  refine ⟨by decide +kernel, sends_answerable ?_⟩
  refine ⟨?_, ?_, ?_, trivial⟩
  · simp [Undisturbed, calmWorld]
  · exact fun _ => ⟨rfl, rfl⟩
  · simp [Undisturbed, calmWorld]

/-- The reader of a socket stops on a read error. The next datagram for the destination finds the
entry in the pool and goes out on the same socket, whose replies nobody reads. -/
theorem stopped_reader_kept :
    ((new false).run [.handle sampleSession sampleSlot (calmWorld 0), .read 0 (.error refused) true,
      .handle sampleSession sampleSlot (calmWorld 1)]).sent =
      [⟨sampleKey, 0, [9], true⟩, ⟨sampleKey, 0, [9], false⟩] := by
  decide +kernel

end Sample
end PqTunnel.Forwarder
