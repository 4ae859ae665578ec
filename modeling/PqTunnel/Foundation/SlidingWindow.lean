import Mathlib.Data.Finset.Basic

/-! The promise of a sliding-window duplicate filter, stated over the whole history
of accepted numbers, and the finite bit view that is enough to keep it. -/
namespace PqTunnel.SlidingWindow

def Largest (seen : List ℕ) (m : ℕ) : Prop := m ∈ seen ∧ ∀ a ∈ seen, a ≤ m

/-- What a filter of the given width admits after it has accepted exactly `seen`. -/
def Admits (width : ℕ) (seen : List ℕ) (c : ℕ) : Prop :=
  seen = [] ∨ (∀ a ∈ seen, a < c) ∨ (c ∉ seen ∧ ∃ m, Largest seen m ∧ m - c ≤ width)

/-- Bit `i` below the largest number `h` records whether `h - (i + 1)` was accepted. -/
def Recorded (width : ℕ) (seen : List ℕ) (h : ℕ) (bit : ℕ → Bool) : Prop :=
  Largest seen h ∧ ∀ i < width, bit i = true ↔ i + 1 ≤ h ∧ h - (i + 1) ∈ seen

theorem Largest.singleton (c : ℕ) : Largest [c] c := by
  refine ⟨by simp, ?_⟩
  intro a ha
  exact (List.mem_singleton.mp ha).le

variable {seen : List ℕ} {c : ℕ}

theorem Largest.cons_of_lt {h : ℕ} (hl : Largest seen h) (hc : h < c) : Largest (c :: seen) c := by
  refine ⟨by simp, ?_⟩
  intro a ha
  rcases List.mem_cons.mp ha with rfl | ha
  · exact le_rfl
  · exact (hl.2 a ha).trans hc.le

theorem Largest.cons_of_le {h : ℕ} (hl : Largest seen h) (hc : c ≤ h) : Largest (c :: seen) h := by
  refine ⟨List.mem_cons_of_mem _ hl.1, ?_⟩
  intro a ha
  rcases List.mem_cons.mp ha with rfl | ha
  · exact hc
  · exact hl.2 a ha

theorem Largest.unique {m h : ℕ} (hm : Largest seen m) (hh : Largest seen h) :
    m = h := Nat.le_antisymm (hh.2 m hm.1) (hm.2 h hh.1)

theorem Largest.admits_above {h width : ℕ} (hl : Largest seen h) (hc : h < c) :
    Admits width seen c :=
  Or.inr (Or.inl fun a ha => (hl.2 a ha).trans_lt hc)

/-- At or below the largest number, admission is a question about one earlier number. -/
theorem Largest.admits_below {h width : ℕ} (hl : Largest seen h)
    (hc : c ≤ h) : Admits width seen c ↔ c ∉ seen ∧ h - c ≤ width := by
  constructor
  · rintro (he | hlt | ⟨hn, m, hm, hw⟩)
    · exact absurd hl.1 (by simp [he])
    · exact absurd (hlt h hl.1) (by omega)
    · exact ⟨hn, hl.unique hm ▸ hw⟩
  · rintro ⟨hn, hw⟩
    exact Or.inr (Or.inr ⟨hn, h, hl, hw⟩)

/-- Accepting a number above the largest keeps the record when the bits move up by the
gap and the old largest number takes the last vacated place. -/
theorem Recorded.advance {width : ℕ} {h : ℕ} {bit bit' : ℕ → Bool} (hr : Recorded width seen h bit)
    (hc : h < c)
    (hbit : ∀ i < width, bit' i = true ↔ i + 1 = c - h ∨ (c - h ≤ i ∧ bit (i - (c - h)) = true)) :
    Recorded width (c :: seen) c bit' := by
  refine ⟨hr.1.cons_of_lt hc, ?_⟩
  intro i hi
  rw [hbit i hi]
  constructor
  · rintro (he | ⟨hge, hb⟩)
    · have : c - (i + 1) = h := by omega
      exact ⟨by omega, this ▸ List.mem_cons_of_mem _ hr.1.1⟩
    · obtain ⟨hle, hmem⟩ := (hr.2 _ (by omega)).mp hb
      have : c - (i + 1) = h - (i - (c - h) + 1) := by omega
      exact ⟨by omega, this ▸ List.mem_cons_of_mem _ hmem⟩
  · rintro ⟨hle, hmem⟩
    rcases List.mem_cons.mp hmem with he | hmem
    · omega
    · have hbound := hr.1.2 _ hmem
      by_cases he : i + 1 = c - h
      · exact Or.inl he
      · right
        refine ⟨by omega, (hr.2 _ (by omega)).mpr ⟨by omega, ?_⟩⟩
        have : h - (i - (c - h) + 1) = c - (i + 1) := by omega
        exact this ▸ hmem

/-- Accepting a number inside the window keeps the record when its own bit is set. -/
theorem Recorded.fill {width : ℕ} {h : ℕ} {bit bit' : ℕ → Bool} (hr : Recorded width seen h bit)
    (hc : c < h) (hbit : ∀ i < width, bit' i = true ↔ i + 1 = h - c ∨ bit i = true) :
    Recorded width (c :: seen) h bit' := by
  refine ⟨hr.1.cons_of_le hc.le, ?_⟩
  intro i hi
  rw [hbit i hi, hr.2 i hi]
  constructor
  · rintro (he | ⟨hle, hmem⟩)
    · have : h - (i + 1) = c := by omega
      exact ⟨by omega, this ▸ by simp⟩
    · exact ⟨hle, List.mem_cons_of_mem _ hmem⟩
  · rintro ⟨hle, hmem⟩
    rcases List.mem_cons.mp hmem with he | hmem
    · exact Or.inl (by omega)
    · exact Or.inr ⟨hle, hmem⟩

end PqTunnel.SlidingWindow
