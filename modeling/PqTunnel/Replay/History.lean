import PqTunnel.Replay.Window

/-! The bitmap window refines the filter over the whole acceptance history. -/
namespace PqTunnel.ReplayWindow
open WordShift SlidingWindow

/-- The counters accepted so far, newest first, together with the window. -/
abbrev History := ReplayWindow × List UInt64

def feed (st : History) (c : UInt64) : History :=
  match st.1.accept c with
  | (.ok (), w) => (w, c :: st.2)
  | (.error _, w) => (w, st.2)

def feedAll (cs : List UInt64) : History := cs.foldl feed (new, [])

def values (seen : List UInt64) : List ℕ := seen.map UInt64.toNat

/-- The window state is exactly the finite view of the acceptance history. -/
def Tracks (w : ReplayWindow) (seen : List UInt64) : Prop :=
  match w.highest with
  | none => seen = [] ∧ ∀ i < windowBits, bitAt w.bitmap i = false
  | some h => Recorded windowBits (values seen) h.toNat (bitAt w.bitmap)

variable {seen : List UInt64} {c : UInt64}

theorem mem_values : c.toNat ∈ values seen ↔ c ∈ seen := by
  constructor
  · intro hc
    obtain ⟨a, ha, he⟩ := List.mem_map.mp hc
    exact UInt64.toNat_inj.mp he ▸ ha
  · exact List.mem_map_of_mem

theorem tracks_new : Tracks new [] := by
  refine ⟨rfl, ?_⟩
  intro i _
  exact bitAt_replicate_zero i

variable {w : ReplayWindow}

theorem accept_first (hh : w.highest = none) (c : UInt64) :
    w.accept c = (.ok (), { w with highest := some c }) := by
  simp [accept, hh]

theorem tracks_first (hw : Tracks w []) (hh : w.highest = none) (c : UInt64) :
    Tracks { w with highest := some c } [c] := by
  simp only [Tracks, hh] at hw
  refine ⟨Largest.singleton _, ?_⟩
  intro i hi
  simp only [hw.2 i hi, Bool.false_eq_true, values, List.map_cons, List.map_nil,
    List.mem_singleton, false_iff, not_and]
  omega

/-- The bitmap after a counter `gap` above the highest one was accepted. -/
def advanced (b : Words windowWords) (gap : ℕ) : Words windowWords :=
  if windowBits < gap then Vector.replicate windowWords 0#64
  else if gap = windowBits then setBit (Vector.replicate windowWords 0#64) (windowBits - 1)
  else setBit (shiftRight b gap) (gap - 1)

/-- All three cases around the window width are one shift that keeps the old highest
counter at its new distance. -/
theorem bitAt_advanced (b : Words windowWords) {gap : ℕ} (h0 : 0 < gap) {i : ℕ}
    (hi : i < windowBits) : bitAt (advanced b gap) i = true ↔
      i + 1 = gap ∨ (gap ≤ i ∧ bitAt b (i - gap) = true) := by
  unfold advanced
  split_ifs with hgt heq
  · simp only [bitAt_replicate_zero, Bool.false_eq_true, false_iff]
    omega
  · rw [bitAt_setBit _ (by unfold windowBits; omega)]
    simp only [bitAt_replicate_zero, Bool.or_false, decide_eq_true_eq]
    omega
  · rw [bitAt_setBit _ (by omega), bitAt_shiftRight]
    simp only [hi, decide_true, Bool.true_and, Bool.or_eq_true, Bool.and_eq_true,
      decide_eq_true_eq]
    constructor
    · rintro (he | h)
      · exact Or.inl (by omega)
      · exact Or.inr h
    · rintro (he | h)
      · exact Or.inl (by omega)
      · exact Or.inr h

theorem accept_above {h : UInt64} (hh : w.highest = some h) (hc : h < c) : w.accept c =
      (.ok (), { highest := some c, bitmap := advanced w.bitmap (c.toNat - h.toNat) }) := by
  have hgap : (c - h).toNat = c.toNat - h.toNat :=
    UInt64.toNat_sub_of_le _ _ (UInt64.le_iff_toNat_le.mpr (UInt64.lt_iff_toNat_lt.mp hc).le)
  simp only [accept, hh, if_pos hc, hgap, advanced]

theorem tracks_above {h : UInt64} (hw : Tracks w seen) (hh : w.highest = some h) (hc : h < c) :
    Tracks { highest := some c, bitmap := advanced w.bitmap (c.toNat - h.toNat) }
      (c :: seen) := by
  simp only [Tracks, hh] at hw
  have hlt := UInt64.lt_iff_toNat_lt.mp hc
  exact hw.advance hlt fun i hi => bitAt_advanced _ (by omega) hi

/-- At or below the highest counter one bit of the map decides. -/
theorem accept_below {h : UInt64} (hh : w.highest = some h) (hc : ¬ h < c) : w.accept c =
      if c = h ∨ windowBits < h.toNat - c.toNat ∨
          bitAt w.bitmap (h.toNat - c.toNat - 1) = true then (.error .decryptionFailed, w)
      else (.ok (), { w with bitmap := setBit w.bitmap (h.toNat - c.toNat - 1) }) := by
  have hle : c ≤ h := UInt64.not_lt.mp hc
  have hoff : (h - c).toNat = h.toNat - c.toNat := UInt64.toNat_sub_of_le _ _ hle
  simp only [accept, hh, if_neg hc, hoff, getBit_eq_bitAt]
  by_cases he : c = h
  · simp [he]
  · by_cases hw : windowBits < h.toNat - c.toNat
    · simp [he, hw]
    · by_cases hb : bitAt w.bitmap (h.toNat - c.toNat - 1) = true <;> simp [he, hw, hb]

theorem admits_below_iff {h : UInt64} (hw : Tracks w seen) (hh : w.highest = some h)
    (hc : ¬ h < c) :
    Admits windowBits (values seen) c.toNat ↔
      ¬ (c = h ∨ windowBits < h.toNat - c.toNat ∨
        bitAt w.bitmap (h.toNat - c.toNat - 1) = true) := by
  simp only [Tracks, hh] at hw
  have hle : c.toNat ≤ h.toNat := UInt64.le_iff_toNat_le.mp (UInt64.not_lt.mp hc)
  rw [hw.1.admits_below hle]
  by_cases he : c = h
  · simp [he, hw.1.1]
  · have hne : c.toNat ≠ h.toNat := fun h' => he (UInt64.toNat_inj.mp h')
    by_cases hwide : windowBits < h.toNat - c.toNat
    · simp [hwide]
      omega
    · have hbit := hw.2 (h.toNat - c.toNat - 1) (by omega)
      have hidx : h.toNat - (h.toNat - c.toNat - 1 + 1) = c.toNat := by omega
      rw [hidx] at hbit
      simp only [he, hwide, hbit, false_or]
      constructor
      · rintro ⟨hn, _⟩ ⟨_, hm⟩
        exact hn hm
      · intro hn
        exact ⟨fun hm => hn ⟨by omega, hm⟩, by omega⟩

theorem tracks_fill {h : UInt64} (hw : Tracks w seen) (hh : w.highest = some h) (hc : ¬ h < c)
    (hne : c ≠ h) (hwide : ¬ windowBits < h.toNat - c.toNat) :
    Tracks { w with bitmap := setBit w.bitmap (h.toNat - c.toNat - 1) } (c :: seen) := by
  simp only [Tracks, hh] at hw ⊢
  have hle : c.toNat ≤ h.toNat := UInt64.le_iff_toNat_le.mp (UInt64.not_lt.mp hc)
  have hne' : c.toNat ≠ h.toNat := fun h' => hne (UInt64.toNat_inj.mp h')
  refine hw.fill (by omega) ?_
  intro i hi
  rw [bitAt_setBit _ (by omega)]
  simp only [Bool.or_eq_true, decide_eq_true_eq]
  constructor
  · rintro (he | hb)
    · exact Or.inl (by omega)
    · exact Or.inr hb
  · rintro (he | hb)
    · exact Or.inl (by omega)
    · exact Or.inr hb

/-- One call: the verdict is the history's, an accepted counter joins the history and a
rejected one changes nothing. -/
theorem accept_spec (hw : Tracks w seen) (c : UInt64) :
    (∃ w', w.accept c = (.ok (), w') ∧ Admits windowBits (values seen) c.toNat ∧
        Tracks w' (c :: seen)) ∨
      (w.accept c = (.error .decryptionFailed, w) ∧
        ¬ Admits windowBits (values seen) c.toNat) := by
  cases hh : w.highest with
  | none =>
    have hnil : seen = [] := by
      simp only [Tracks, hh] at hw
      exact hw.1
    subst hnil
    exact Or.inl ⟨_, accept_first hh c, Or.inl rfl, tracks_first hw hh c⟩
  | some h =>
    by_cases hc : h < c
    · have hrec := hw
      simp only [Tracks, hh] at hrec
      exact Or.inl ⟨_, accept_above hh hc,
        hrec.1.admits_above (UInt64.lt_iff_toNat_lt.mp hc), tracks_above hw hh hc⟩
    · rw [accept_below hh hc, admits_below_iff hw hh hc]
      split_ifs with hbad
      · exact Or.inr ⟨rfl, not_not_intro hbad⟩
      · obtain ⟨hne, hwide, _⟩ := not_or.mp hbad |>.imp_right not_or.mp
        exact Or.inl ⟨_, rfl, hbad, tracks_fill hw hh hc hne hwide⟩

theorem accept_ok_iff (hw : Tracks w seen) (c : UInt64) :
    (w.accept c).1 = .ok () ↔ Admits windowBits (values seen) c.toNat := by
  rcases accept_spec hw c with ⟨w', ha, hadm, _⟩ | ⟨ha, hadm⟩ <;> simp [ha, hadm]

theorem accept_error_unchanged (hw : Tracks w seen) {e : CodecError}
    (he : (w.accept c).1 = .error e) : (w.accept c).2 = w := by
  rcases accept_spec hw c with ⟨w', ha, _, _⟩ | ⟨ha, _⟩
  · simp [ha] at he
  · simp [ha]

theorem feed_tracks {st : History} (hst : Tracks st.1 st.2) (c : UInt64) :
    Tracks (feed st c).1 (feed st c).2 := by
  rcases accept_spec hst c with ⟨w', ha, _, ht⟩ | ⟨ha, _⟩
  · simpa only [feed, ha] using ht
  · simpa only [feed, ha] using hst

/-- A number that the window admits was never accepted before. -/
theorem not_mem_of_admits {seen : List ℕ} {c width : ℕ} (h : Admits width seen c) :
    c ∉ seen := by
  rcases h with rfl | hlt | ⟨hn, _⟩
  · simp
  · exact fun hc => (hlt c hc).false
  · exact hn

theorem feed_nodup {st : History} (hst : Tracks st.1 st.2) (hnd : st.2.Nodup) (c : UInt64) :
    (feed st c).2.Nodup := by
  rcases accept_spec hst c with ⟨w', ha, hadm, _⟩ | ⟨ha, _⟩
  · simp only [feed, ha, List.nodup_cons]
    exact ⟨fun hc => not_mem_of_admits hadm (mem_values.mpr hc), hnd⟩
  · simpa only [feed, ha] using hnd

theorem feedAll_tracks (cs : List UInt64) :
    Tracks (feedAll cs).1 (feedAll cs).2 ∧ (feedAll cs).2.Nodup := by
  induction cs using List.reverseRecOn with
  | nil => exact ⟨tracks_new, List.nodup_nil⟩
  | append_singleton cs c ih =>
    have hlast : feedAll (cs ++ [c]) = feed (feedAll cs) c := by simp [feedAll]
    rw [hlast]
    exact ⟨feed_tracks ih.1 c, feed_nodup ih.1 ih.2 c⟩

theorem highest_largest (hw : Tracks w seen) :
    (w.highest = none ∧ seen = []) ∨
      ∃ h, w.highest = some h ∧ h ∈ seen ∧ ∀ a ∈ seen, a ≤ h := by
  cases hh : w.highest with
  | none =>
    simp only [Tracks, hh] at hw
    exact Or.inl ⟨rfl, hw.1⟩
  | some h =>
    simp only [Tracks, hh] at hw
    refine Or.inr ⟨h, rfl, mem_values.mp hw.1.1, ?_⟩
    intro a ha
    exact UInt64.le_iff_toNat_le.mpr (hw.1.2 _ (mem_values.mpr ha))

/-- Every finite sequence of counters is judged by its acceptance history alone. -/
theorem accept_after_history (cs : List UInt64) (c : UInt64) :
    (((feedAll cs).1.accept c).1 = .ok () ↔
        (feedAll cs).2 = [] ∨ (∀ a ∈ (feedAll cs).2, a < c) ∨
          (c ∉ (feedAll cs).2 ∧ ∃ m ∈ (feedAll cs).2,
            (∀ a ∈ (feedAll cs).2, a ≤ m) ∧ m.toNat - c.toNat ≤ 1024)) ∧
      (feedAll cs).2.Nodup ∧
      (((feedAll cs).1.highest = none ∧ (feedAll cs).2 = []) ∨
        ∃ h, (feedAll cs).1.highest = some h ∧ h ∈ (feedAll cs).2 ∧
          ∀ a ∈ (feedAll cs).2, a ≤ h) ∧
      (∀ e, ((feedAll cs).1.accept c).1 = .error e →
        ((feedAll cs).1.accept c).2 = (feedAll cs).1) := by
  obtain ⟨ht, hnd⟩ := feedAll_tracks cs
  refine ⟨?_, hnd, highest_largest ht, fun e he => accept_error_unchanged ht he⟩
  rw [accept_ok_iff ht]
  generalize (feedAll cs).2 = seen
  have hle (a b : UInt64) : a.toNat ≤ b.toNat ↔ a ≤ b := UInt64.le_iff_toNat_le.symm
  have hlt (a b : UInt64) : a.toNat < b.toNat ↔ a < b := UInt64.lt_iff_toNat_lt.symm
  simp only [Admits, Largest, values, List.map_eq_nil_iff, List.forall_mem_map, hlt]
  refine or_congr_right (or_congr_right (and_congr ?_ ?_))
  · exact not_congr mem_values
  · constructor
    · rintro ⟨m, ⟨hm, hmax⟩, hw⟩
      obtain ⟨m, hm', rfl⟩ := List.mem_map.mp hm
      exact ⟨m, hm', fun a ha => (hle a m).mp (hmax a ha), hw⟩
    · rintro ⟨m, hm, hmax, hw⟩
      exact ⟨m.toNat, ⟨List.mem_map_of_mem hm, fun a ha => (hle a m).mpr (hmax a ha)⟩, hw⟩

end PqTunnel.ReplayWindow
