import PqTunnel.Foundation.Transition

/-! Two runs of one machine under inputs that are related step by step. -/
namespace PqTunnel.Transition
variable {σ ι ε : Type*} {next : σ → ι → σ} {out : σ → ι → List ε}

/-- Two lists of inputs of one length, related pair by pair in the states of the first run. -/
def Paired (next : σ → ι → σ) (V : σ → ι → ι → Prop) : σ → List ι → List ι → Prop
  | _, [], [] => True
  | s, a :: as, b :: bs => V s a b ∧ Paired next V (next s a) as bs
  | _, [], _ :: _ => False
  | _, _ :: _, [] => False

variable {V : σ → ι → ι → Prop} {R : σ → σ → Prop} {s s' : σ}

/-- Runs from related states give out the same if one pair of inputs does and keeps the states
related. -/
theorem Paired.outputs_eq
    (hstep : ∀ s s' a b, R s s' → V s a b → out s a = out s' b ∧ R (next s a) (next s' b))
    {as bs : List ι} (h : Paired next V s as bs) (hR : R s s') :
    outputs next out s as = outputs next out s' bs := by
  induction as generalizing s s' bs with
  | nil =>
    cases bs with
    | nil => rfl
    | cons b bs => exact h.elim
  | cons a as ih =>
    cases bs with
    | nil => exact h.elim
    | cons b bs =>
      obtain ⟨hout, hnext⟩ := hstep s s' a b hR h.1
      rw [outputs, outputs, hout, ih h.2 hnext]

end PqTunnel.Transition
