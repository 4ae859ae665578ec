import Mathlib.Data.List.Count
import Mathlib.Data.List.Nodup
import PqTunnel.Foundation.Transition

/-! Keyed things that open and close, and the reports about them. A closing is reported at once or
queued and reported later. -/
namespace PqTunnel.Lifecycle
variable {κ : Type*}

inductive Report (κ : Type*) where
  | opened (k : κ)
  | closed (k : κ)
  deriving DecidableEq

structure State (κ : Type*) where
  live : κ → Bool
  queued : List κ

variable [DecidableEq κ] {s s' : State κ} {h out : List (Report κ)}

/-- The moves, with the reports each one gives. -/
inductive Move (s : State κ) : List (Report κ) → State κ → Prop where
  | silent : Move s [] s
  | opened (k : κ) (hdead : s.live k = false) :
      Move s [.opened k] { s with live := Function.update s.live k true }
  | closed (k : κ) (hlive : s.live k = true) :
      Move s [.closed k] { s with live := Function.update s.live k false }
  | queued (k : κ) (hlive : s.live k = true) :
      Move s [] ⟨Function.update s.live k false, s.queued ++ [k]⟩
  | flushed : Move s (s.queued.map .closed) { s with queued := [] }

/-- Every opening is still live, or its closing is queued or was reported. -/
def Balanced (h : List (Report κ)) (s : State κ) : Prop :=
  ∀ k, h.count (.opened k) = h.count (.closed k) + s.queued.count k + (s.live k).toNat

theorem count_opened_map_closed (k : κ) (l : List κ) :
    (l.map Report.closed).count (.opened k) = 0 := by
  rw [List.count_eq_zero, List.mem_map]
  rintro ⟨k', -, heq⟩
  cases heq

theorem count_closed_map_closed (k : κ) (l : List κ) :
    (l.map Report.closed).count (.closed k) = l.count k :=
  List.count_map_of_injective l _ (fun _ _ heq => Report.closed.inj heq) k

/-- A move turns an opening into a live key, and a live key into a queued or reported closing. -/
theorem Move.conserves (hm : Move s out s') (k : κ) :
    out.count (.opened k) + s.queued.count k + (s.live k).toNat =
      out.count (.closed k) + s'.queued.count k + (s'.live k).toNat := by
  cases hm with
  | silent => simp
  | opened k' hdead =>
    by_cases heq : k' = k
    · subst heq
      simp [hdead]
      omega
    · simp [heq, Ne.symm heq]
  | closed k' hlive =>
    by_cases heq : k' = k
    · subst heq
      simp [hlive]
      omega
    · simp [heq, Ne.symm heq]
  | queued k' hlive =>
    by_cases heq : k' = k
    · subst heq
      simp [hlive]
    · simp [heq, Ne.symm heq]
  | flushed =>
    simp only [count_opened_map_closed, count_closed_map_closed, List.count_nil]
    omega

theorem Trace.conserves (ht : Transition.Trace Move s out s') (k : κ) :
    out.count (.opened k) + s.queued.count k + (s.live k).toNat =
      out.count (.closed k) + s'.queued.count k + (s'.live k).toNat := by
  induction ht with
  | refl => simp
  | snoc _ hmove ih =>
    have hlast := hmove.conserves k
    rw [List.count_append, List.count_append]
    omega

theorem Move.live_before (hm : Move s out s') {k : κ} (h : s'.live k = true) :
    s.live k = true ∨ .opened k ∈ out := by
  cases hm with
  | silent | flushed => exact Or.inl h
  | opened k' hdead =>
    by_cases heq : k = k'
    · exact Or.inr (heq ▸ List.mem_singleton_self _)
    · exact Or.inl ((Function.update_of_ne heq ..).symm.trans h)
  | closed k' hlive | queued k' hlive =>
    by_cases heq : k = k'
    · exact Or.inl (heq ▸ hlive)
    · exact Or.inl ((Function.update_of_ne heq ..).symm.trans h)

/-- A live key was live before, or was opened on the way. -/
theorem Trace.live_before (ht : Transition.Trace Move s out s') {k : κ} (h : s'.live k = true) :
    s.live k = true ∨ .opened k ∈ out := by
  induction ht with
  | refl => exact Or.inl h
  | snoc _ hmove ih =>
    rcases hmove.live_before h with h | h
    · exact (ih h).imp_right (List.mem_append_left _)
    · exact Or.inr (List.mem_append_right _ h)

/-- A key whose closing was not reported is not lost. -/
theorem Trace.kept (ht : Transition.Trace Move s out s') {k : κ}
    (h : s.live k = true ∨ k ∈ s.queued) (hout : .closed k ∉ out) :
    s'.live k = true ∨ k ∈ s'.queued := by
  have hk := Trace.conserves ht k
  rw [List.count_eq_zero.mpr hout] at hk
  by_contra hlost
  rw [not_or, Bool.not_eq_true] at hlost
  rw [hlost.1, List.count_eq_zero.mpr hlost.2] at hk
  rcases h with h | h
  · rw [h] at hk
    simp at hk
  · have hpos := List.count_pos_iff.mpr h
    simp only [Bool.toNat_false] at hk
    omega

theorem Balanced.move (hb : Balanced h s) (hm : Move s out s') : Balanced (h ++ out) s' := by
  intro k
  have hk := hb k
  have hmove := hm.conserves k
  rw [List.count_append, List.count_append]
  omega

/-- The automaton that follows the reports about one key: closed, then open, then closed again. -/
def track (k : κ) : Option Bool → Report κ → Option Bool
  | some isOpen, .opened k' =>
    if k' = k then (if isOpen then none else some true) else some isOpen
  | some isOpen, .closed k' =>
    if k' = k then (if isOpen then some false else none) else some isOpen
  | none, _ => none

/-- The reports about a key strictly alternate, and the first one is its opening. -/
def Alternates (k : κ) (h : List (Report κ)) : Prop := (h.foldl (track k) (some false)).isSome

instance (k : κ) (h : List (Report κ)) : Decidable (Alternates k h) :=
  inferInstanceAs (Decidable (_ = true))

/-- A key has at most one queued closing, and none while it is live again. -/
structure Orderly (h : List (Report κ)) (s : State κ) : Prop where
  once : s.queued.Nodup
  apart : ∀ k ∈ s.queued, s.live k = false
  tracked : ∀ k, h.foldl (track k) (some false) = some (s.live k || decide (k ∈ s.queued))

theorem Orderly.alternates (ho : Orderly h s) (k : κ) : Alternates k h := by
  rw [Alternates, ho.tracked k]
  rfl

theorem foldl_track_map_closed (k : κ) {l : List κ} (hl : l.Nodup) {isOpen : Bool}
    (hopen : k ∈ l → isOpen = true) :
    (l.map Report.closed).foldl (track k) (some isOpen) = some (isOpen && decide (k ∉ l)) := by
  induction l generalizing isOpen with
  | nil => simp
  | cons k' l ih =>
    obtain ⟨hnot, hl⟩ := List.nodup_cons.mp hl
    rw [List.map_cons, List.foldl_cons, track]
    by_cases heq : k' = k
    · subst heq
      rw [hopen List.mem_cons_self, if_pos rfl, if_pos rfl, ih hl fun hk => absurd hk hnot]
      simp
    · rw [if_neg heq, ih hl fun hk => hopen (List.mem_cons_of_mem _ hk)]
      simp [Ne.symm heq]

/-- Moves keep the order as long as nothing opens while its last closing is still queued. -/
theorem Orderly.move (ho : Orderly h s) (hm : Move s out s')
    (hfresh : ∀ k, .opened k ∈ out → k ∉ s.queued) : Orderly (h ++ out) s' := by
  cases hm with
  | silent => simpa using ho
  | opened k hdead =>
    have hk : k ∉ s.queued := hfresh k List.mem_cons_self
    refine ⟨ho.once, fun k' hk' => ?_, fun k' => ?_⟩
    · have hne : k' ≠ k := fun heq => hk (heq ▸ hk')
      exact (Function.update_of_ne hne ..).trans (ho.apart k' hk')
    · rw [List.foldl_append, ho.tracked k', List.foldl_cons, List.foldl_nil, track]
      by_cases heq : k = k'
      · subst heq
        simp [hdead, hk]
      · simp [heq, Ne.symm heq]
  | closed k hlive =>
    have hk : k ∉ s.queued := fun hk => by
      rw [ho.apart k hk] at hlive
      cases hlive
    refine ⟨ho.once, fun k' hk' => ?_, fun k' => ?_⟩
    · have hne : k' ≠ k := fun heq => hk (heq ▸ hk')
      exact (Function.update_of_ne hne ..).trans (ho.apart k' hk')
    · rw [List.foldl_append, ho.tracked k', List.foldl_cons, List.foldl_nil, track]
      by_cases heq : k = k'
      · subst heq
        simp [hlive, hk]
      · simp [heq, Ne.symm heq]
  | queued k hlive =>
    have hk : k ∉ s.queued := fun hk => by
      rw [ho.apart k hk] at hlive
      cases hlive
    refine ⟨?_, fun k' hk' => ?_, fun k' => ?_⟩
    · exact List.nodup_append.mpr ⟨ho.once, List.nodup_singleton k, fun a ha b hb => by
        rintro rfl
        exact hk (List.mem_singleton.mp hb ▸ ha)⟩
    · by_cases heq : k' = k
      · subst heq
        exact Function.update_self ..
      · rcases List.mem_append.mp hk' with hk' | hk'
        · exact (Function.update_of_ne heq ..).trans (ho.apart k' hk')
        · exact absurd (List.mem_singleton.mp hk') heq
    · rw [List.append_nil, ho.tracked k']
      by_cases heq : k = k'
      · subst heq
        simp [hlive]
      · simp [Ne.symm heq]
  | flushed =>
    refine ⟨List.nodup_nil, nofun, fun k => ?_⟩
    rw [List.foldl_append, ho.tracked k, foldl_track_map_closed k ho.once (by simp_all)]
    by_cases hk : k ∈ s.queued
    · simp [hk, ho.apart k hk]
    · simp [hk]

end PqTunnel.Lifecycle
