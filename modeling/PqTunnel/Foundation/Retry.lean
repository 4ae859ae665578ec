import Mathlib.Data.List.Chain
import Mathlib.Tactic.Ring

/-! Processes that retry: each has some attempts left and a time from which the next one may be
made, and it acts only when it looks at the clock. -/
namespace PqTunnel.Retry
variable {σ ε : Type*}

structure Timer where
  left : ℕ
  due : ℕ

/-- A look makes the attempt that is due, if any. An attempt that fails, or the last one, ends the
process; after any other one the next is due a gap later. -/
structure Law (look : σ → ℕ → List ε × Option σ) (timer : σ → Timer) (gap : ℕ) : Prop where
  early : ∀ {s now}, 0 < (timer s).left → now < (timer s).due → look s now = ([], some s)
  due : ∀ {s now}, 0 < (timer s).left → (timer s).due ≤ now →
    look s now = ([], none) ∨ (∃ e, (timer s).left = 1 ∧ look s now = ([e], none)) ∨
      ∃ e s', 1 < (timer s).left ∧ look s now = ([e], some s') ∧
        timer s' = ⟨(timer s).left - 1, now + gap⟩

/-- What a process does over a list of looks, and what is left of it. -/
def life (look : σ → ℕ → List ε × Option σ) : σ → List ℕ → List (ℕ × ε) × Option σ
  | s, [] => ([], some s)
  | s, t :: ts =>
    match look s t with
    | (out, none) => (out.map (t, ·), none)
    | (out, some s') => (out.map (t, ·) ++ (life look s' ts).1, (life look s' ts).2)

variable {look : σ → ℕ → List ε × Option σ} {timer : σ → Timer} {gap : ℕ} {s s' : σ}

theorem life_gone {t : ℕ} {out : List ε} (h : look s t = (out, none)) (ts : List ℕ) :
    life look s (t :: ts) = (out.map (t, ·), none) := by
  simp only [life, h]

theorem life_stays {t : ℕ} {out : List ε} (h : look s t = (out, some s')) (ts : List ℕ) :
    life look s (t :: ts) =
      (out.map (t, ·) ++ (life look s' ts).1, (life look s' ts).2) := by
  simp only [life, h]

/-- A process makes no more attempts than it has, the first one not before it is due and each
further one a gap after the one before. It is gone with the last one. -/
theorem Law.life_spec (h : Law look timer gap) (hs : 0 < (timer s).left) (ts : List ℕ) :
    (life look s ts).1.length ≤ (timer s).left ∧
      (∀ e ∈ (life look s ts).1.head?, (timer s).due ≤ e.1) ∧
      (life look s ts).1.IsChain (fun a b => a.1 + gap ≤ b.1) ∧
      ((life look s ts).1.length = (timer s).left → (life look s ts).2 = none) := by
  induction ts generalizing s with
  | nil =>
    simp only [life, List.length_nil, List.head?_nil]
    exact ⟨Nat.zero_le _, by simp, List.isChain_nil, fun hzero => absurd hzero.symm hs.ne'⟩
  | cons t ts ih =>
    rcases lt_or_ge t (timer s).due with hearly | hdue
    · rw [life_stays (h.early hs hearly)]
      simpa using ih hs
    · rcases h.due hs hdue with hgone | ⟨e, hone, hgone⟩ | ⟨e, s', hmore, hstay, htimer⟩
      · rw [life_gone hgone]
        exact ⟨Nat.zero_le _, by simp, List.isChain_nil, fun _ => rfl⟩
      · rw [life_gone hgone, hone]
        exact ⟨le_refl _, by simpa using hdue, List.isChain_singleton _, fun _ => rfl⟩
      · have hleft : (timer s').left = (timer s).left - 1 := by rw [htimer]
        obtain ⟨hlen, hfirst, hchain, hlast⟩ := ih (s := s') (by omega)
        rw [life_stays hstay]
        simp only [List.map_cons, List.map_nil, List.singleton_append, List.length_cons,
          List.head?_cons, Option.mem_some_iff]
        refine ⟨by omega, ?_, ?_, fun hlength => hlast (by omega)⟩
        · rintro _ rfl
          exact hdue
        · rw [List.isChain_cons]
          refine ⟨fun e' he' => ?_, hchain⟩
          have := hfirst e' he'
          rwa [htimer] at this

/-- What every look keeps and gives holds of a whole life. -/
theorem life_forall {I : σ → Prop} {Q : ε → Prop}
    (hlook : ∀ s now, I s → (∀ e ∈ (look s now).1, Q e) ∧ ∀ s' ∈ (look s now).2, I s')
    (hs : I s) (ts : List ℕ) : ∀ e ∈ (life look s ts).1, Q e.2 := by
  induction ts generalizing s with
  | nil =>
    intro e he
    cases he
  | cons t ts ih =>
    obtain ⟨hout, hnext⟩ := hlook s t hs
    have hmap : ∀ e ∈ ((look s t).1.map (t, ·) : List (ℕ × ε)), Q e.2 := by
      intro e he
      obtain ⟨e', he', rfl⟩ := List.mem_map.mp he
      exact hout e' he'
    cases hres : look s t with
    | mk out next =>
      rw [hres] at hmap hnext
      cases next with
      | none =>
        rw [life_gone hres]
        exact hmap
      | some s' =>
        rw [life_stays hres]
        intro e he
        rcases List.mem_append.mp he with he | he
        · exact hmap e he
        · exact ih (hnext s' rfl) e he

/-- Processes that look at the clock together live their lives side by side. -/
theorem filterMap_life (l : List σ) (t : ℕ) (ts : List ℕ) :
    (l.filterMap fun s => (look s t).2).filterMap (fun s => (life look s ts).2) =
      l.filterMap fun s => (life look s (t :: ts)).2 := by
  rw [List.filterMap_filterMap]
  congr 1
  funext s
  cases hres : look s t with
  | mk out next =>
    cases next with
    | none => rw [life_gone hres]; rfl
    | some s' => rw [life_stays hres]; rfl

section Grid

variable {period k next limit : ℕ}

/-- On looks that come one period apart, the next one at `next`, the process is gone by
`limit`. -/
def EndsBy (period k next limit : ℕ) (t : Timer) : Prop :=
  0 < t.left ∧ ∃ i, t.due ≤ next + i * period ∧ next + (i + k * (t.left - 1)) * period ≤ limit

theorem EndsBy.le {t : Timer} (h : EndsBy period k next limit t) : next ≤ limit := by
  obtain ⟨-, i, -, hlimit⟩ := h
  exact le_trans (Nat.le_add_right _ _) hlimit

/-- Each look of the grid brings a process closer to its end. -/
theorem Law.endsBy_look (h : Law look timer (k * period)) (hk : 0 < k)
    (he : EndsBy period k next limit (timer s)) {out : List ε}
    (hlook : look s next = (out, some s')) : EndsBy period k (next + period) limit (timer s') := by
  obtain ⟨hleft, i, hdue, hlimit⟩ := he
  rcases lt_or_ge next (timer s).due with hearly | hnow
  · rw [h.early hleft hearly] at hlook
    obtain ⟨-, rfl⟩ : [] = out ∧ s = s' := by simpa using hlook
    obtain ⟨j, rfl⟩ : ∃ j, i = j + 1 := by
      cases i with
      | zero => omega
      | succ j => exact ⟨j, rfl⟩
    refine ⟨hleft, j, ?_, ?_⟩
    · calc (timer s).due ≤ next + (j + 1) * period := hdue
        _ = next + period + j * period := by ring
    · calc next + period + (j + k * ((timer s).left - 1)) * period
          = next + (j + 1 + k * ((timer s).left - 1)) * period := by ring
        _ ≤ limit := hlimit
  · rcases h.due hleft hnow with hgone | ⟨e, -, hgone⟩ | ⟨e, s'', hmore, hstay, htimer⟩
    · rw [hgone] at hlook
      cases hlook
    · rw [hgone] at hlook
      cases hlook
    · rw [hstay] at hlook
      obtain ⟨-, rfl⟩ : [e] = out ∧ s'' = s' := by simpa using hlook
      obtain ⟨n, hn⟩ : ∃ n, (timer s).left = n + 2 := ⟨(timer s).left - 2, by omega⟩
      obtain ⟨j, rfl⟩ : ∃ j, k = j + 1 := ⟨k - 1, by omega⟩
      rw [htimer, hn]
      rw [hn] at hlimit
      refine ⟨by simp, j, ?_, ?_⟩
      · exact le_of_eq (by ring)
      · calc next + period + (j + (j + 1) * (n + 2 - 1 - 1)) * period
            = next + (0 + (j + 1) * (n + 2 - 1)) * period := by
              simp only [Nat.add_sub_cancel, show n + 2 - 1 = n + 1 by omega]
              ring
          _ ≤ next + (i + (j + 1) * (n + 2 - 1)) * period := by gcongr; omega
          _ ≤ limit := hlimit

end Grid

end PqTunnel.Retry
