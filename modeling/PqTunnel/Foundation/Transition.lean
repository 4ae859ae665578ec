import Mathlib.Tactic.TypeStar

/-! Labelled transition systems: reached states, invariants and projections. -/
namespace PqTunnel.Transition
variable {σ τ ι : Type*}

/-- The states reached by finitely many steps from an initial one. -/
inductive Reach (init : σ → Prop) (step : σ → ι → σ → Prop) : σ → Prop where
  | start {s : σ} : init s → Reach init step s
  | next {s s' : σ} {a : ι} : Reach init step s → step s a s' → Reach init step s'

variable {init : σ → Prop} {step : σ → ι → σ → Prop}

/-- An invariant may use that the state before the step is itself reached. -/
theorem Reach.invariant {I : σ → Prop} (h0 : ∀ s, init s → I s)
    (hstep : ∀ s a s', Reach init step s → I s → step s a s' → I s') {s : σ}
    (hs : Reach init step s) : I s := by
  induction hs with
  | start h => exact h0 _ h
  | next hr ha ih => exact hstep _ _ _ hr ih ha

/-- Finitely many steps and what they emit, in order. -/
inductive Trace {ε : Type*} (step : σ → List ε → σ → Prop) : σ → List ε → σ → Prop where
  | refl (s : σ) : Trace step s [] s
  | snoc {s s' s'' : σ} {out out' : List ε} :
      Trace step s out s' → step s' out' s'' → Trace step s (out ++ out') s''

namespace Trace
variable {ε : Type*} {emit : σ → List ε → σ → Prop} {s s' s'' : σ} {out out' : List ε}

theorem single (h : emit s out s') : Trace emit s out s' := by
  simpa using (refl s).snoc h

theorem trans (h : Trace emit s out s') (h' : Trace emit s' out' s'') :
    Trace emit s (out ++ out') s'' := by
  induction h' with
  | refl => simpa using h
  | snoc _ hstep ih =>
    rw [← List.append_assoc]
    exact ih.snoc hstep

theorem mono {emit' : σ → List ε → σ → Prop} (himp : ∀ {s out s'}, emit s out s' → emit' s out s')
    (h : Trace emit s out s') : Trace emit' s out s' := by
  induction h with
  | refl => exact refl _
  | snoc _ hstep ih => exact ih.snoc (himp hstep)

/-- A trace seen through a projection under which its steps emit nothing. -/
theorem project {ε' : Type*} {emit' : τ → List ε' → τ → Prop} (f : σ → τ)
    (himp : ∀ {s out s'}, emit s out s' → emit' (f s) [] (f s')) (h : Trace emit s out s') :
    Trace emit' (f s) [] (f s') := by
  induction h with
  | refl => exact refl _
  | snoc _ hstep ih => exact ih.snoc (himp hstep)

/-- A property of the state and of all that was emitted before carries over a trace when every
step keeps it. -/
theorem extend {J : List ε → σ → Prop}
    (hstep : ∀ h s out s', J h s → emit s out s' → J (h ++ out) s') (ht : Trace emit s out s')
    {h : List ε} (hJ : J h s) : J (h ++ out) s' := by
  induction ht with
  | refl => simpa using hJ
  | snoc _ hlast ih =>
    rw [← List.append_assoc]
    exact hstep _ _ _ _ ih hlast

/-- A property of the state that every step keeps. -/
theorem keeps {I : σ → Prop} (ht : Trace emit s out s')
    (hstep : ∀ {s out s'}, I s → emit s out s' → I s') (h : I s) : I s' :=
  ht.extend (J := fun _ => I) (fun _ _ _ _ => hstep) (h := []) h

end Trace

section Outputs
variable {ε : Type*} {next : σ → ι → σ} {out : σ → ι → List ε}

def outputs (next : σ → ι → σ) (out : σ → ι → List ε) : σ → List ι → List ε
  | _, [] => []
  | s, a :: as => out s a ++ outputs next out (next s a) as

theorem outputs_append (s : σ) (as bs : List ι) :
    outputs next out s (as ++ bs) =
      outputs next out s as ++ outputs next out (as.foldl next s) bs := by
  induction as generalizing s with
  | nil => rfl
  | cons a as ih => simp only [List.cons_append, outputs, ih, List.append_assoc, List.foldl_cons]

theorem outputs_snoc (s : σ) (as : List ι) (a : ι) :
    outputs next out s (as ++ [a]) = outputs next out s as ++ out (as.foldl next s) a := by
  rw [outputs_append, outputs, outputs, List.append_nil]

/-- Outputs of two kinds can be told apart up to their order. -/
theorem outputs_append_perm {out' : σ → ι → List ε} (s : σ) (as : List ι) :
    (outputs next (fun s a => out s a ++ out' s a) s as).Perm
      (outputs next out s as ++ outputs next out' s as) := by
  induction as generalizing s with
  | nil => exact .refl _
  | cons a as ih =>
    simp only [outputs, List.append_assoc]
    refine (List.Perm.append_left _ (List.Perm.append_left _ (ih _))).trans ?_
    rw [← List.append_assoc (out' s a), ← List.append_assoc _ (out' s a)]
    exact .append_left _ (.append_right _ List.perm_append_comm)

/-- A property of the state and of all that was given out before, kept by every input. -/
theorem outputs_invariant {J : List ε → σ → Prop}
    (hstep : ∀ h s a, J h s → J (h ++ out s a) (next s a)) {s : σ} {h : List ε} (hJ : J h s)
    (as : List ι) : J (h ++ outputs next out s as) (as.foldl next s) := by
  induction as generalizing s h with
  | nil => simpa [outputs] using hJ
  | cons a as ih =>
    rw [outputs, ← List.append_assoc]
    exact ih (hstep h s a hJ)

/-- Every input meets a condition in the state where it comes. -/
def Along (next : σ → ι → σ) (Q : σ → ι → Prop) : σ → List ι → Prop
  | _, [] => True
  | s, a :: as => Q s a ∧ Along next Q (next s a) as

variable {Q Q' : σ → ι → Prop} {s : σ} {as bs : List ι}

theorem along_append :
    Along next Q s (as ++ bs) ↔ Along next Q s as ∧ Along next Q (as.foldl next s) bs := by
  induction as generalizing s with
  | nil => simp [Along]
  | cons a as ih => simp only [List.cons_append, Along, ih, List.foldl_cons, and_assoc]

theorem Along.mono (h : Along next Q s as) (himp : ∀ s a, Q s a → Q' s a) :
    Along next Q' s as := by
  induction as generalizing s with
  | nil => trivial
  | cons a as ih => exact ⟨himp s a h.1, ih h.2⟩

theorem outputs_eq_nil (h : Along next (fun s a => out s a = []) s as) :
    outputs next out s as = [] := by
  induction as generalizing s with
  | nil => rfl
  | cons a as ih => rw [outputs, h.1, ih h.2, List.append_nil]

end Outputs

end PqTunnel.Transition
