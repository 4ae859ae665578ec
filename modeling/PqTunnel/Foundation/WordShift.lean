import Mathlib.Tactic.Ring

/-! Bit strings stored as arrays of 64-bit words, with the in-place two-stage
shift toward higher indices: a word move followed by a carry between words. -/
namespace PqTunnel.WordShift

abbrev Words (n : ℕ) := Vector (BitVec 64) n

variable {n : ℕ}

def wordAt (b : Words n) (i : ℕ) : BitVec 64 := b[i]?.getD 0#64

/-- Bit `i` of the string is bit `i % 64` of word `i / 64`. -/
def bitAt (b : Words n) (i : ℕ) : Bool := (wordAt b (i / 64)).getLsbD (i % 64)

def store (b : Words n) (i : ℕ) (x : BitVec 64) : Words n := b.setIfInBounds i x

@[simp] theorem wordAt_store (b : Words n) (i j : ℕ) (x : BitVec 64) :
    wordAt (store b i x) j = if i = j ∧ i < n then x else wordAt b j := by
  unfold wordAt store
  rw [Vector.getElem?_setIfInBounds]
  by_cases hij : i = j
  · subst hij
    by_cases hn : i < n <;> simp [hn]
  · simp [hij]

theorem wordAt_of_le (b : Words n) {i : ℕ} (h : n ≤ i) : wordAt b i = 0#64 := by
  unfold wordAt
  rw [Vector.getElem?_eq_none h]
  rfl

@[simp] theorem wordAt_replicate_zero (i : ℕ) :
    wordAt (Vector.replicate n 0#64) i = 0#64 := by
  unfold wordAt
  rw [Vector.getElem?_replicate]
  split_ifs <;> rfl

@[simp] theorem bitAt_replicate_zero (i : ℕ) : bitAt (Vector.replicate n 0#64) i = false := by
  simp [bitAt]

/-- A descending in-place loop `for i in (lo .. lo + k).rev() { b[i] = f(b, i) }`. -/
def descend (f : Words n → ℕ → BitVec 64) (lo : ℕ) : ℕ → Words n → Words n
  | 0, b => b
  | k + 1, b => descend f lo k (store b (lo + k) (f b (lo + k)))

/-- A descending loop whose body reads only its own index and lower ones sees the
original words throughout. -/
theorem wordAt_descend {f : Words n → ℕ → BitVec 64}
    (hf : ∀ b c : Words n, ∀ i, (∀ j ≤ i, wordAt b j = wordAt c j) → f b i = f c i)
    (lo k : ℕ) (b : Words n) (i : ℕ) :
    wordAt (descend f lo k b) i =
      if lo ≤ i ∧ i < lo + k ∧ i < n then f b i else wordAt b i := by
  induction k generalizing b with
  | zero => simp only [descend, Nat.add_zero]; rw [if_neg (by omega)]
  | succ k ih =>
    rw [descend, ih]
    by_cases hi : lo ≤ i ∧ i < lo + k ∧ i < n
    · -- the store at `lo + k` lies strictly above what the body reads at `i`
      rw [if_pos hi, if_pos (by omega)]
      apply hf
      intro j hj
      rw [wordAt_store, if_neg (by omega)]
    · rw [if_neg hi, wordAt_store]
      by_cases he : lo + k = i ∧ lo + k < n
      · obtain ⟨rfl, hn⟩ := he
        rw [if_pos ⟨rfl, hn⟩, if_pos (by omega)]
      · rw [if_neg he, if_neg (by omega)]

/-- Ascending stores of zero into the first `k` words. -/
def clearLow : ℕ → Words n → Words n
  | 0, b => b
  | k + 1, b => store (clearLow k b) k 0#64

theorem wordAt_clearLow (k : ℕ) (b : Words n) (i : ℕ) :
    wordAt (clearLow k b) i = if i < k then 0#64 else wordAt b i := by
  induction k with
  | zero => simp [clearLow]
  | succ k ih =>
    rw [clearLow, wordAt_store, ih]
    by_cases hk : k = i
    · subst hk
      by_cases hn : k < n
      · simp [hn]
      · simp [hn, wordAt_of_le b (Nat.le_of_not_lt hn)]
    · have hlt : i < k + 1 ↔ i < k := by omega
      simp [hk, hlt]

/-- Move whole words up by `k` places and clear the vacated low words. -/
def moveWords (k : ℕ) (b : Words n) : Words n :=
  clearLow k (descend (fun b i => wordAt b (i - k)) k (n - k) b)

theorem wordAt_moveWords (k : ℕ) (b : Words n) (i : ℕ) :
    wordAt (moveWords k b) i = if k ≤ i ∧ i < n then wordAt b (i - k) else 0#64 := by
  have hread : ∀ b c : Words n, ∀ i, (∀ j ≤ i, wordAt b j = wordAt c j) →
      wordAt b (i - k) = wordAt c (i - k) := fun _ _ i h => h (i - k) (by omega)
  rw [moveWords, wordAt_clearLow, wordAt_descend hread]
  by_cases hk : k ≤ i
  · rw [if_neg (by omega)]
    by_cases hn : i < n
    · rw [if_pos (by omega), if_pos ⟨hk, hn⟩]
    · rw [if_neg (by omega), if_neg (by omega), wordAt_of_le b (by omega)]
  · rw [if_pos (by omega), if_neg (by omega)]

/-- Shift every word left by `s` and carry in the top `s` bits of the word below. -/
def carryBits (s : ℕ) (b : Words n) : Words n :=
  let carried := descend (fun b i => (wordAt b i <<< s) ||| (wordAt b (i - 1) >>> (64 - s))) 1
    (n - 1) b
  store carried 0 (wordAt carried 0 <<< s)

theorem wordAt_carryBits (s : ℕ) (b : Words n) (i : ℕ) :
    wordAt (carryBits s b) i =
      if i < n then
        if i = 0 then wordAt b 0 <<< s
        else (wordAt b i <<< s) ||| (wordAt b (i - 1) >>> (64 - s))
      else 0#64 := by
  have hread : ∀ b c : Words n, ∀ i, (∀ j ≤ i, wordAt b j = wordAt c j) →
      ((wordAt b i <<< s) ||| (wordAt b (i - 1) >>> (64 - s))) =
        ((wordAt c i <<< s) ||| (wordAt c (i - 1) >>> (64 - s))) := by
    intro b c i h
    rw [h i le_rfl, h (i - 1) (by omega)]
  unfold carryBits
  simp only [wordAt_store, wordAt_descend hread]
  by_cases hn : i < n
  · rw [if_pos hn]
    by_cases h0 : i = 0
    · subst h0
      simp [hn]
    · rw [if_neg (by omega), if_pos (by omega), if_neg h0]
  · rw [if_neg (by omega), if_neg (by omega), if_neg hn, wordAt_of_le b (by omega)]

/-- The carry between words moves every bit up by `s` places. -/
theorem bitAt_carryBits {s : ℕ} (hs : s < 64) (h0 : 0 < s) (b : Words n) (i : ℕ) :
    bitAt (carryBits s b) i = (decide (i < 64 * n) && (decide (s ≤ i) && bitAt b (i - s))) := by
  unfold bitAt
  rw [wordAt_carryBits]
  by_cases hn : i / 64 < n
  · have hlt : i < 64 * n := by omega
    rw [if_pos hn]
    simp only [hlt, decide_true, Bool.true_and]
    by_cases hlow : i % 64 < s
    · -- the bit comes from the word below
      by_cases hz : i / 64 = 0
      · have hsi : ¬ s ≤ i := by omega
        simp [hz, hlow, hsi]
      · have hsi : s ≤ i := by omega
        have hd : (i - s) / 64 = i / 64 - 1 := by omega
        have hm : (i - s) % 64 = 64 - s + i % 64 := by omega
        simp [hz, hlow, hsi, hd, hm]
    · have hsi : s ≤ i := by omega
      have hd : (i - s) / 64 = i / 64 := by omega
      have hm : (i - s) % 64 = i % 64 - s := by omega
      have hmod : i % 64 < 64 := Nat.mod_lt _ (by omega)
      by_cases hz : i / 64 = 0
      · rw [if_pos hz, hd, hz, hm, BitVec.getLsbD_shiftLeft]
        simp only [hmod, hlow, hsi, decide_true, decide_false, Bool.not_false, Bool.true_and]
      · have hover : (wordAt b (i / 64 - 1)).getLsbD (64 - s + i % 64) = false :=
          BitVec.getLsbD_of_ge _ _ (by omega)
        rw [if_neg hz, hd, hm, BitVec.getLsbD_or, BitVec.getLsbD_shiftLeft,
          BitVec.getLsbD_ushiftRight, hover]
        simp only [hmod, hlow, hsi, decide_true, decide_false, Bool.not_false, Bool.true_and,
          Bool.or_false]
  · have hlt : ¬ i < 64 * n := by omega
    simp [hn, hlt]

/-- Moving whole words moves every bit by a multiple of the word size. -/
theorem bitAt_moveWords (k : ℕ) (b : Words n) (i : ℕ) :
    bitAt (moveWords k b) i =
      (decide (i < 64 * n) && (decide (64 * k ≤ i) && bitAt b (i - 64 * k))) := by
  unfold bitAt
  rw [wordAt_moveWords]
  by_cases hk : k ≤ i / 64 ∧ i / 64 < n
  · have h1 : i < 64 * n := by omega
    have h2 : 64 * k ≤ i := by omega
    have hd : (i - 64 * k) / 64 = i / 64 - k := by omega
    have hm : (i - 64 * k) % 64 = i % 64 := by omega
    simp [hk, h1, h2, hd, hm]
  · rw [if_neg hk]
    by_cases h1 : i < 64 * n
    · have h2 : ¬ 64 * k ≤ i := by omega
      simp [h2]
    · simp [h1]

end PqTunnel.WordShift
