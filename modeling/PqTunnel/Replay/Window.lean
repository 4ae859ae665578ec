import PqTunnel.Foundation.WordShift
import PqTunnel.Foundation.SlidingWindow
import PqTunnel.Codec.Error

/-!
The replay guard of the receive path: the highest accepted counter and a bitmap of
the 1024 counters below it. The bitmap is shifted in place, first by whole words and
then by bits, exactly as the packet path does. Sizes are those of a 64-bit target, so
the difference of two counters is a `usize` without truncation.
-/
namespace PqTunnel
open WordShift

def windowBits : ℕ := 1024

def windowWords : ℕ := windowBits / 64

structure ReplayWindow where
  highest : Option UInt64
  bitmap : Words windowWords
  deriving DecidableEq

namespace ReplayWindow

def new : ReplayWindow where
  highest := none
  bitmap := Vector.replicate windowWords 0#64

def setBit (b : Words windowWords) (bitIndex : ℕ) : Words windowWords :=
  let word := bitIndex / 64
  let bit := bitIndex % 64
  store b word (wordAt b word ||| 1#64 <<< bit)

def getBit (b : Words windowWords) (bitIndex : ℕ) : Bool :=
  let word := bitIndex / 64
  let bit := bitIndex % 64
  (wordAt b word &&& 1#64 <<< bit) != 0#64

def shiftRight (b : Words windowWords) (gap : ℕ) : Words windowWords :=
  let wordGap := gap / 64
  let bitShift := gap % 64
  let moved := if 0 < wordGap then moveWords wordGap b else b
  if 0 < bitShift then carryBits bitShift moved else moved

def accept (w : ReplayWindow) (counter : UInt64) : Except CodecError Unit × ReplayWindow :=
  match w.highest with
  | none => (.ok (), { w with highest := some counter })
  | some h =>
    if h < counter then
      let gap := (counter - h).toNat
      let bitmap :=
        if windowBits < gap then Vector.replicate windowWords 0#64
        else if gap = windowBits then
          setBit (Vector.replicate windowWords 0#64) (windowBits - 1)
        else setBit (shiftRight w.bitmap gap) (gap - 1)
      (.ok (), { highest := some counter, bitmap := bitmap })
    else if counter = h then (.error .decryptionFailed, w)
    else
      let offset := (h - counter).toNat
      if windowBits < offset then (.error .decryptionFailed, w)
      else if getBit w.bitmap (offset - 1) then (.error .decryptionFailed, w)
      else (.ok (), { w with bitmap := setBit w.bitmap (offset - 1) })

def clear (_ : ReplayWindow) : ReplayWindow := new

variable (b : Words windowWords)

theorem bitAt_setBit {k : ℕ} (hk : k < windowBits) (i : ℕ) :
    bitAt (setBit b k) i = (decide (i = k) || bitAt b i) := by
  have hw : k / 64 < windowWords := by unfold windowBits at hk; unfold windowWords windowBits; omega
  have hmod : i % 64 < 64 := Nat.mod_lt _ (by omega)
  unfold bitAt setBit
  simp only [wordAt_store]
  by_cases hd : k / 64 = i / 64
  · rw [if_pos ⟨hd, hw⟩, BitVec.getLsbD_or, BitVec.getLsbD_shiftLeft, BitVec.getLsbD_one, hd,
      Bool.or_comm]
    congr 1
    by_cases hik : i = k
    · subst hik
      simp [hmod]
    · have : ¬ (k % 64 ≤ i % 64 ∧ i % 64 - k % 64 = 0) := by omega
      simp only [hik, decide_false, hmod, decide_true, Bool.true_and, Bool.and_eq_false_iff]
      by_cases hle : i % 64 < k % 64
      · left; simp [hle]
      · right; simp; omega
  · rw [if_neg (fun h => hd h.1)]
    have : i ≠ k := fun h => hd (by rw [h])
    simp [this]

theorem getBit_eq_bitAt (k : ℕ) : getBit b k = bitAt b k := by
  have hmod : k % 64 < 64 := Nat.mod_lt _ (by omega)
  simp only [getBit, bitAt]
  generalize wordAt b (k / 64) = x
  have hmask (j : ℕ) (hj : j < 64) : (x &&& 1#64 <<< (k % 64)).getLsbD j =
      (x.getLsbD j && decide (j = k % 64)) := by
    rw [BitVec.getLsbD_and, BitVec.getLsbD_shiftLeft, BitVec.getLsbD_one]
    congr 1
    by_cases hlt : j < k % 64
    · simp [hlt, hlt.ne]
    · simp [hj, hlt]
      omega
  cases hx : x.getLsbD (k % 64) with
  | true =>
    have hne : x &&& 1#64 <<< (k % 64) ≠ 0#64 := by
      intro hz
      have hbit := hmask _ hmod
      rw [hz, hx] at hbit
      simp at hbit
    simpa using hne
  | false =>
    have hz : x &&& 1#64 <<< (k % 64) = 0#64 := by
      apply BitVec.eq_of_getLsbD_eq
      intro j hj
      rw [hmask j hj]
      by_cases hjk : j = k % 64
      · simp [hjk, hx]
      · simp [hjk]
    simp [hz]

/-- The two shift stages together move every bit up by the gap. -/
theorem bitAt_shiftRight (gap i : ℕ) :
    bitAt (shiftRight b gap) i =
      (decide (i < windowBits) && (decide (gap ≤ i) && bitAt b (i - gap))) := by
  have hsize : 64 * windowWords = windowBits := by decide
  have hout : ∀ j, windowBits ≤ j → bitAt b j = false := by
    intro j hj
    unfold bitAt
    rw [wordAt_of_le b (by unfold windowBits at hj; unfold windowWords windowBits; omega)]
    simp
  have hmoved : ∀ j, bitAt (if 0 < gap / 64 then moveWords (gap / 64) b else b) j =
      (decide (j < windowBits) && (decide (64 * (gap / 64) ≤ j) &&
        bitAt b (j - 64 * (gap / 64)))) := by
    intro j
    by_cases hw : 0 < gap / 64
    · rw [if_pos hw, bitAt_moveWords, hsize]
    · have hz : gap / 64 = 0 := by omega
      rw [if_neg hw, hz]
      by_cases hj : j < windowBits
      · simp [hj]
      · simp [hj, hout j (by omega)]
  unfold shiftRight
  simp only []
  by_cases hb : 0 < gap % 64
  · rw [if_pos hb, bitAt_carryBits (Nat.mod_lt _ (by omega)) hb, hsize, hmoved]
    by_cases hi : i < windowBits
    · by_cases hg : gap ≤ i
      · have h1 : gap % 64 ≤ i := by omega
        have h2 : i - gap % 64 < windowBits := by omega
        have h3 : 64 * (gap / 64) ≤ i - gap % 64 := by omega
        have h4 : i - gap % 64 - 64 * (gap / 64) = i - gap := by omega
        simp [hi, hg, h1, h2, h3, h4]
      · by_cases h1 : gap % 64 ≤ i
        · have h3 : ¬ 64 * (gap / 64) ≤ i - gap % 64 := by omega
          simp [hg, h3]
        · simp [hg, h1]
    · simp [hi]
  · rw [if_neg hb, hmoved]
    have h0 : 64 * (gap / 64) = gap := by omega
    rw [h0]

end ReplayWindow
end PqTunnel
