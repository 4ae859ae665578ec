import Mathlib.Data.List.Pairwise
import Mathlib.Order.MinMax
import Mathlib.Tactic.Common
import PqTunnel.Foundation.Transition

/-! A budget of tokens with lazy refill: the first charge after the window has passed fills the
bucket again. Between two refills no more is charged than a burst. -/
namespace PqTunnel.TokenBucket
open Transition

structure Bucket where
  tokens : ℕ
  refilled : ℕ

/-- A moment at which the bucket was looked at, and whether it was charged. -/
structure Stamp where
  time : ℕ
  charged : Bool

variable {burst window : ℕ} {s s' : Option Bucket} {out : List Stamp}

/-- The moves of a bucket that may be missing. -/
inductive Move (burst window : ℕ) : Option Bucket → List Stamp → Option Bucket → Prop where
  | idle (s : Option Bucket) (now : ℕ) : Move burst window s [⟨now, false⟩] s
  | created (now : ℕ) : Move burst window none [⟨now, true⟩] (some ⟨burst - 1, now⟩)
  | refilled (b : Bucket) (now : ℕ) (hpassed : window ≤ now - b.refilled) :
      Move burst window (some b) [⟨now, true⟩] (some ⟨burst - 1, now⟩)
  | charged (b : Bucket) (now : ℕ) (hwithin : now - b.refilled < window) (htoken : 0 < b.tokens) :
      Move burst window (some b) [⟨now, true⟩] (some ⟨b.tokens - 1, b.refilled⟩)
  | expired (b : Bucket) (now : ℕ) (hpassed : window ≤ now - b.refilled) :
      Move burst window (some b) [⟨now, false⟩] none

/-- The charges before a deadline. -/
def chargesBefore (deadline : ℕ) (out : List Stamp) : List Stamp :=
  out.filter fun e => e.charged && decide (e.time < deadline)

theorem chargesBefore_append (deadline : ℕ) (out out' : List Stamp) :
    chargesBefore deadline (out ++ out') =
      chargesBefore deadline out ++ chargesBefore deadline out' := List.filter_append ..

/-- What is left of a burst pays for the charges; once the window has passed nothing more counts. -/
def Paid (burst window start : ℕ) (out : List Stamp) (s : Option Bucket) : Prop :=
  (∃ tokens, s = some ⟨tokens, start⟩ ∧
    (chargesBefore (start + window) out).length + tokens ≤ burst - 1) ∨
  ((chargesBefore (start + window) out).length ≤ burst - 1 ∧
    ∃ e ∈ out, start + window ≤ e.time)

theorem chargesBefore_late {deadline : ℕ} {e : Stamp} (h : deadline ≤ e.time) :
    chargesBefore deadline [e] = [] := by
  simp [chargesBefore, h]

theorem Paid.move {start : ℕ} {e : Stamp} (h : Paid burst window start out s)
    (hstart : start ≤ e.time) (hsorted : ∀ e' ∈ out, e'.time ≤ e.time)
    (hm : Move burst window s [e] s') : Paid burst window start (out ++ [e]) s' := by
  rw [Paid, chargesBefore_append, List.length_append]
  rcases h with ⟨tokens, rfl, hpaid⟩ | ⟨hpaid, e', hmem, hlate⟩
  · have hover : window ≤ e.time - start → chargesBefore (start + window) [e] = [] :=
      fun hpassed => chargesBefore_late (by omega)
    cases hm with
    | idle s now => exact Or.inl ⟨tokens, rfl, hpaid⟩
    | refilled b now hpassed | expired b now hpassed =>
      right
      rw [hover hpassed]
      exact ⟨(Nat.le_add_right _ _).trans hpaid, _, List.mem_append_right _ List.mem_cons_self,
        (by dsimp only at hstart hpassed ⊢; omega)⟩
    | charged b now hwithin htoken =>
      left
      refine ⟨tokens - 1, rfl, ?_⟩
      have hone := List.length_filter_le
        (fun e : Stamp => e.charged && decide (e.time < start + window))
        [⟨now, true⟩]
      rw [List.length_singleton] at hone
      dsimp only at htoken
      rw [chargesBefore, chargesBefore] at *
      omega
  · right
    rw [chargesBefore_late (hlate.trans (hsorted e' hmem)), List.length_nil]
    exact ⟨hpaid, e', List.mem_append_left _ hmem, hlate⟩

/-- From a refill on, and until the window has passed, at most one burst is charged, and never less
than the charge that refills. -/
theorem charges_le {start : ℕ} (ht : Trace (Move burst window) (some ⟨burst - 1, start⟩) out s')
    (hsorted : (⟨start, true⟩ :: out).Pairwise fun e e' => e.time ≤ e'.time) :
    (chargesBefore (start + window) (⟨start, true⟩ :: out)).length ≤ max 1 burst := by
  have hpaid : Paid burst window start out s' := by
    refine ht.extend (J := fun out s =>
      (⟨start, true⟩ :: out : List Stamp).Pairwise (fun e e' => e.time ≤ e'.time) →
        Paid burst window start out s) ?_ (h := []) ?_ hsorted
    · intro out s out' s' hJ hm hsorted
      obtain ⟨e, rfl⟩ : ∃ e, out' = [e] := by cases hm <;> exact ⟨_, rfl⟩
      rw [← List.cons_append, List.pairwise_append] at hsorted
      obtain ⟨hbefore, -, hlast⟩ := hsorted
      refine (hJ hbefore).move ?_ ?_ hm
      · exact hlast _ List.mem_cons_self e List.mem_cons_self
      · exact fun e' hmem => hlast e' (List.mem_cons_of_mem _ hmem) e List.mem_cons_self
    · exact fun _ => Or.inl ⟨_, rfl, by simp [chargesBefore]⟩
  have hrest : (chargesBefore (start + window) out).length ≤ burst - 1 := by
    rcases hpaid with ⟨tokens, -, hle⟩ | ⟨hle, -⟩
    · omega
    · exact hle
  have hfirst := List.length_filter_le
    (fun e : Stamp => e.charged && decide (e.time < start + window)) [⟨start, true⟩]
  rw [← List.singleton_append, chargesBefore_append, List.length_append]
  rw [List.length_singleton] at hfirst
  simp only [chargesBefore] at hrest ⊢
  omega

end PqTunnel.TokenBucket
