import Mathlib.Tactic.TypeStar

/-! Programs that may fail and keep the state they fail in, with pre- and postconditions for both
ways to end. -/
namespace PqTunnel.Failing
variable {ε σ α β : Type}

/-- From a state with `p` the program ends with `q`, or fails with `f`. -/
def Triple (p : σ → Prop) (x : ExceptT ε (StateM σ) α) (q : α → σ → Prop) (f : ε → σ → Prop) :
    Prop :=
  ∀ s, p s → match (x.run s : Except ε α × σ) with
    | (.ok a, s') => q a s'
    | (.error e, s') => f e s'

variable {p p' : σ → Prop} {q q' : α → σ → Prop} {f : ε → σ → Prop}

theorem Triple.pure {a : α} (h : ∀ s, p s → q a s) :
    Triple p (pure a : ExceptT ε (StateM σ) α) q f := h

theorem Triple.throw {e : ε} (h : ∀ s, p s → f e s) :
    Triple p (throw e : ExceptT ε (StateM σ) α) q f := h

theorem Triple.get {q : σ → σ → Prop} (h : ∀ s, p s → q s s) :
    Triple p (get : ExceptT ε (StateM σ) σ) q f := h

theorem Triple.set {q : PUnit → σ → Prop} {s : σ} (h : ∀ s', p s' → q ⟨⟩ s) :
    Triple p (set s : ExceptT ε (StateM σ) PUnit) q f := h

theorem Triple.modify {q : PUnit → σ → Prop} {g : σ → σ} (h : ∀ s, p s → q ⟨⟩ (g s)) :
    Triple p (modify g : ExceptT ε (StateM σ) PUnit) q f := h

variable {x : ExceptT ε (StateM σ) α}

theorem Triple.conseq (h : Triple p x q f) (hp : ∀ s, p' s → p s)
    (hq : ∀ a s, q a s → q' a s) : Triple p' x q' f := by
  intro s hs
  have hend := h s (hp s hs)
  revert hend
  generalize (x.run s : Except ε α × σ) = r
  obtain ⟨a | a, s'⟩ := r
  · exact id
  · exact hq a s'

theorem Triple.bind {k : α → ExceptT ε (StateM σ) β} {r : β → σ → Prop} (hx : Triple p x q f)
    (hk : ∀ a, Triple (q a) (k a) r f) : Triple p (x >>= k) r f := by
  intro s hs
  have hend := hx s hs
  have hrun : ((x >>= k).run s : Except ε β × σ) =
      ExceptT.bindCont k (x.run s : Except ε α × σ).1 (x.run s : Except ε α × σ).2 := rfl
  rw [hrun]
  revert hend
  generalize (x.run s : Except ε α × σ) = t
  obtain ⟨e | a, s'⟩ := t
  · exact id
  · exact hk a s'

/-- What holds of the one way in which the program ends. -/
theorem Triple.result (h : Triple p x q f) {s s' : σ} {r : Except ε α} (hs : p s)
    (hrun : (x.run s : Except ε α × σ) = (r, s')) :
    match r with
    | .ok a => q a s'
    | .error e => f e s' := by
  have hend := h s hs
  rw [hrun] at hend
  cases r <;> exact hend

/-- What holds however the program ends. -/
theorem Triple.ends {q : σ → Prop} (h : Triple p x (fun _ => q) fun _ => q) {s : σ} (hs : p s) :
    q (x.run s : Except ε α × σ).2 := by
  have hend := h s hs
  revert hend
  generalize (x.run s : Except ε α × σ) = t
  obtain ⟨e | a, s'⟩ := t <;> exact id

/-- An invariant of one round is an invariant of the loop. -/
theorem Triple.forM {ι : Type} {body : ι → ExceptT ε (StateM σ) PUnit} {l : List ι}
    (h : ∀ i ∈ l, Triple p (body i) (fun _ => p) f) : Triple p (l.forM body) (fun _ => p) f := by
  induction l with
  | nil => exact .pure fun _ hs => hs
  | cons i l ih =>
    exact (h i List.mem_cons_self).bind fun _ => ih fun j hj => h j (List.mem_cons_of_mem i hj)

end PqTunnel.Failing
