import Mathlib.Data.Vector.Basic
import Mathlib.Data.Finset.Basic

/-! Byte strings: fixed-size arrays, slices, in-place copies and big-endian words. -/
namespace PqTunnel

abbrev Bytes := List UInt8

abbrev Octets (n : ℕ) := List.Vector UInt8 n

namespace ByteString

def ascii (s : String) : Bytes := s.toList.map fun c => UInt8.ofNat c.toNat

def zeros (n : ℕ) : List UInt8 := List.replicate n 0

@[simp] theorem length_zeros (n : ℕ) : (zeros n).length = n := List.length_replicate ..

@[simp] theorem zeros_zero : zeros 0 = [] := rfl

theorem zeros_add (m n : ℕ) : zeros (m + n) = zeros m ++ zeros n := by
  exact List.replicate_add ..

def slice (l : List UInt8) (start len : ℕ) : List UInt8 := (l.drop start).take len

variable {start : ℕ} {l : List UInt8} {len : ℕ}

theorem length_slice (h : start + len ≤ l.length) : (slice l start len).length = len := by
  simp only [slice, List.length_take, List.length_drop]
  omega

/-- Reading back one part of a concatenation at its own offset. -/
theorem slice_append_mid (a b c : List UInt8) (hs : start = a.length)
    (hl : len = b.length) : slice (a ++ (b ++ c)) start len = b := by
  subst hs hl
  simp [slice]

theorem slice_append_last (a b : List UInt8) (hs : start = a.length)
    (hl : len = b.length) : slice (a ++ b) start len = b := by
  simpa using slice_append_mid a b [] hs hl

theorem slice_append_left {a b : List UInt8} (h : start + len ≤ a.length) :
    slice (a ++ b) start len = slice a start len := by
  simp only [slice, List.drop_append, List.take_append, List.length_drop]
  rw [show len - (a.length - start) = 0 by omega]
  simp

theorem slice_append_right {a b : List UInt8} (h : a.length ≤ start) :
    slice (a ++ b) start len = slice b (start - a.length) len := by
  simp [slice, List.drop_append, List.drop_eq_nil_of_le h]

variable (l)

/-- Two adjacent slices are one. -/
theorem slice_add (a m n : ℕ) : slice l a (m + n) = slice l a m ++ slice l (a + m) n := by
  simp only [slice, List.take_add, List.drop_drop]

variable {n : ℕ}

theorem slice_self (h : l.length ≤ n) : slice l 0 n = l := by
  simp [slice, List.take_of_length_le h]

/-- `buf[start .. start + src.len()].copy_from_slice(src)`. -/
def blit (buf : List UInt8) (start : ℕ) (src : List UInt8) : List UInt8 :=
  buf.take start ++ (src ++ buf.drop (start + src.length))

variable {buf : List UInt8} {src : List UInt8}

theorem length_blit (h : start + src.length ≤ buf.length) :
    (blit buf start src).length = buf.length := by
  simp only [blit, List.length_append, List.length_take, List.length_drop]
  omega

/-- Copying over the middle part of a buffer replaces exactly that part. -/
theorem blit_mid (a z c src : List UInt8) (hs : start = a.length)
    (hz : z.length = src.length) : blit (a ++ (z ++ c)) start src = a ++ (src ++ c) := by
  subst hs
  simp only [blit, List.take_left', List.append_cancel_left_eq]
  rw [← List.drop_drop, List.drop_left, ← hz, List.drop_left]

/-- Writing the next field of a buffer whose rest is still zero. -/
theorem blit_next {a src : Bytes} {k : ℕ} (m : ℕ) (hs : a.length = start)
    (hk : src.length + m = k) : blit (a ++ zeros k) start src = (a ++ src) ++ zeros m := by
  subst hk
  rw [zeros_add, blit_mid a (zeros src.length) (zeros m) src hs.symm (by simp), List.append_assoc]

theorem blit_octets {a : Bytes} {k : ℕ} (m : ℕ) (v : Octets n) (hs : a.length = start)
    (hk : n + m = k) : blit (a ++ zeros k) start v.toList = (a ++ v.toList) ++ zeros m :=
  blit_next m hs (by rw [v.toList_length, hk])

theorem slice_blit_self (hlen : len = src.length)
    (h : start + src.length ≤ buf.length) : slice (blit buf start src) start len = src := by
  unfold blit
  exact slice_append_mid _ _ _ (by simp only [List.length_take]; omega) hlen

theorem slice_blit_left {a : ℕ} (han : a + n ≤ start)
    (h : start ≤ buf.length) : slice (blit buf start src) a n = slice buf a n := by
  unfold blit
  rw [slice_append_left (by simp only [List.length_take]; omega)]
  simp only [slice, List.drop_take, List.take_take]
  rw [min_eq_left (by omega)]

theorem slice_blit_right {a : ℕ} (ha : start + src.length ≤ a)
    (h : start + src.length ≤ buf.length) : slice (blit buf start src) a n = slice buf a n := by
  unfold blit
  have hlen : (buf.take start).length = start := by simp only [List.length_take]; omega
  rw [slice_append_right (by omega), slice_append_right (by omega), hlen]
  simp only [slice, List.drop_drop]
  congr 2
  omega

/-- The `i`-th piece of a byte string cut into pieces of `c` bytes; the last one is shorter. -/
def chunk (c : ℕ) (l : Bytes) (i : ℕ) : Bytes := slice l (i * c) c

theorem length_chunk (c : ℕ) (l : Bytes) (i : ℕ) :
    (chunk c l i).length = min (l.length - i * c) c := by
  simp only [chunk, slice, List.length_take, List.length_drop]
  omega

theorem chunk_eq_slice (c : ℕ) (l : Bytes) (i : ℕ) :
    chunk c l i = slice l (i * c) (min (l.length - i * c) c) := by
  simp only [chunk, slice, List.take_eq_take_iff, List.length_drop]
  omega

/-- A byte string is determined by its pieces. -/
theorem ext_chunks {c : ℕ} {l l' : Bytes} (hl : l.length ≤ n * c) (hl' : l'.length ≤ n * c)
    (h : ∀ i < n, chunk c l i = chunk c l' i) : l = l' := by
  have hpre : ∀ k ≤ n, slice l 0 (k * c) = slice l' 0 (k * c) := by
    intro k hk
    induction k with
    | zero => simp [slice]
    | succ k ih =>
      have hpiece := h k (by omega)
      simp only [chunk] at hpiece
      rw [Nat.succ_mul, slice_add, slice_add, ih (by omega), Nat.zero_add, hpiece]
  have hfull := hpre n le_rfl
  rwa [slice_self l hl, slice_self l' hl'] at hfull

/-- A byte string is its pieces, in order. -/
theorem flatMap_chunk {c : ℕ} {l : Bytes} (h : l.length ≤ n * c) :
    (List.range n).flatMap (chunk c l) = l := by
  have hpre : ∀ k, (List.range k).flatMap (chunk c l) = slice l 0 (k * c) := by
    intro k
    induction k with
    | zero => simp [slice]
    | succ k ih =>
      rw [List.range_succ, List.flatMap_append, ih, Nat.succ_mul, slice_add, Nat.zero_add]
      simp [chunk]
  rw [hpre, slice_self l h]

theorem chunk_blit_self {c i : ℕ} {l src : Bytes} (h : src.length = min (l.length - i * c) c)
    (hi : i * c + src.length ≤ l.length) : chunk c (blit l (i * c) src) i = src := by
  rw [chunk_eq_slice, length_blit hi]
  exact slice_blit_self h.symm hi

theorem chunk_blit_other {c i j : ℕ} {l src : Bytes} (hij : j ≠ i) (hc : src.length ≤ c)
    (hi : i * c + src.length ≤ l.length) :
    chunk c (blit l (i * c) src) j = chunk c l j := by
  have hlen := length_blit hi
  rcases lt_or_gt_of_ne hij with hlt | hgt
  · have hle : (j + 1) * c ≤ i * c := Nat.mul_le_mul_right c hlt
    rw [Nat.succ_mul] at hle
    exact slice_blit_left hle (by omega)
  · have hle : (i + 1) * c ≤ j * c := Nat.mul_le_mul_right c hgt
    rw [Nat.succ_mul] at hle
    exact slice_blit_right (by omega) hi

/-- The `k` low base-256 digits of a number, most significant first. -/
def beDigits : ℕ → ℕ → List UInt8
  | 0, _ => []
  | k + 1, n => beDigits k (n / 256) ++ [UInt8.ofNat (n % 256)]

def beValue (l : List UInt8) : ℕ := l.foldl (fun acc b => acc * 256 + b.toNat) 0

@[simp] theorem length_beDigits (k n : ℕ) : (beDigits k n).length = k := by
  induction k generalizing n with
  | zero => rfl
  | succ k ih => simp [beDigits, ih]

theorem beValue_beDigits (k n : ℕ) : beValue (beDigits k n) = n % 256 ^ k := by
  induction k generalizing n with
  | zero => simp [beDigits, beValue, Nat.mod_one]
  | succ k ih =>
    have hlow : (UInt8.ofNat (n % 256)).toNat = n % 256 := by simp
    have hstep : beValue (beDigits (k + 1) n) = beValue (beDigits k (n / 256)) * 256 + n % 256 := by
      simp only [beValue, beDigits, List.foldl_append, List.foldl_cons, List.foldl_nil, hlow]
    rw [hstep, ih, Nat.pow_succ', Nat.mod_mul]
    omega

theorem beValue_snoc (b : UInt8) : beValue (l ++ [b]) = beValue l * 256 + b.toNat := by
  simp [beValue]

theorem beValue_lt : beValue l < 256 ^ l.length := by
  induction l using List.reverseRecOn with
  | nil => simp [beValue]
  | append_singleton l b ih =>
    have hb := b.toNat_lt
    rw [beValue_snoc, List.length_append, List.length_singleton, Nat.pow_succ]
    omega

theorem beDigits_beValue : beDigits l.length (beValue l) = l := by
  induction l using List.reverseRecOn with
  | nil => rfl
  | append_singleton l b ih =>
    have hb := b.toNat_lt
    rw [beValue_snoc, List.length_append, List.length_singleton, beDigits,
      show (beValue l * 256 + b.toNat) / 256 = beValue l by omega,
      show (beValue l * 256 + b.toNat) % 256 = b.toNat by omega, ih, UInt8.ofNat_toNat]

variable {l}

theorem beDigits_eq_map (k n : ℕ) :
    beDigits k n = (List.range k).map fun i => UInt8.ofNat (n / 256 ^ (k - 1 - i)) := by
  induction k generalizing n with
  | zero => rfl
  | succ k ih =>
    rw [beDigits, ih, List.range_succ, List.map_append, List.map_singleton]
    congr 1
    · apply List.map_congr_left
      intro i hi
      have hi := List.mem_range.mp hi
      have hexp : (k - 1 - i).succ = k + 1 - 1 - i := by omega
      rw [Nat.div_div_eq_div_mul, ← Nat.pow_succ', hexp]
    · have hlow : UInt8.ofNat (n % 256) = UInt8.ofNat n := by
        apply UInt8.toNat_inj.mp
        simp
      simp [hlow]

def toBeBytes (c : UInt64) : List UInt8 := beDigits 8 c.toNat

def fromBeBytes (l : List UInt8) : UInt64 := UInt64.ofNat (beValue l)

@[simp] theorem length_toBeBytes (c : UInt64) : (toBeBytes c).length = 8 := length_beDigits ..

@[simp] theorem fromBeBytes_toBeBytes (c : UInt64) : fromBeBytes (toBeBytes c) = c := by
  have hc : c.toNat % 256 ^ 8 = c.toNat := Nat.mod_eq_of_lt c.toNat_lt
  rw [fromBeBytes, toBeBytes, beValue_beDigits, hc, UInt64.ofNat_toNat]

theorem beDigits_beValue_mod {k w : ℕ} (h : l.length = k)
    (hw : 256 ^ k = 2 ^ w) : beDigits k (beValue l % 2 ^ w) = l := by
  subst h
  rw [← hw, Nat.mod_eq_of_lt (beValue_lt l), beDigits_beValue]

theorem toBeBytes_fromBeBytes (h : l.length = 8) : toBeBytes (fromBeBytes l) = l := by
  rw [toBeBytes, fromBeBytes, UInt64.toNat_ofNat', beDigits_beValue_mod h rfl]

theorem toBeBytes_injective : Function.Injective toBeBytes := by
  intro a b h
  rw [← fromBeBytes_toBeBytes a, h, fromBeBytes_toBeBytes]

def toBe16 (c : UInt16) : List UInt8 := beDigits 2 c.toNat

def fromBe16 (l : List UInt8) : UInt16 := UInt16.ofNat (beValue l)

@[simp] theorem length_toBe16 (c : UInt16) : (toBe16 c).length = 2 := length_beDigits ..

@[simp] theorem fromBe16_toBe16 (c : UInt16) : fromBe16 (toBe16 c) = c := by
  have hc : c.toNat % 256 ^ 2 = c.toNat := Nat.mod_eq_of_lt c.toNat_lt
  rw [fromBe16, toBe16, beValue_beDigits, hc, UInt16.ofNat_toNat]

theorem toBe16_fromBe16 (h : l.length = 2) : toBe16 (fromBe16 l) = l := by
  rw [toBe16, fromBe16, UInt16.toNat_ofNat', beDigits_beValue_mod h rfl]

def toBe32 (c : UInt32) : List UInt8 := beDigits 4 c.toNat

def fromBe32 (l : List UInt8) : UInt32 := UInt32.ofNat (beValue l)

@[simp] theorem length_toBe32 (c : UInt32) : (toBe32 c).length = 4 := length_beDigits ..

@[simp] theorem fromBe32_toBe32 (c : UInt32) : fromBe32 (toBe32 c) = c := by
  have hc : c.toNat % 256 ^ 4 = c.toNat := Nat.mod_eq_of_lt c.toNat_lt
  rw [fromBe32, toBe32, beValue_beDigits, hc, UInt32.ofNat_toNat]

theorem toBe32_fromBe32 (h : l.length = 4) : toBe32 (fromBe32 l) = l := by
  rw [toBe32, fromBe32, UInt32.toNat_ofNat', beDigits_beValue_mod h rfl]

/-- The order of byte arrays: by the first byte in which they differ. -/
def lexLe : Bytes → Bytes → Bool
  | [], _ => true
  | _ :: _, [] => false
  | a :: as, b :: bs => if a = b then lexLe as bs else decide (a < b)

theorem lexLe_total (as bs : Bytes) : (lexLe as bs || lexLe bs as) = true := by
  induction as generalizing bs with
  | nil => rfl
  | cons a as ih =>
    cases bs with
    | nil => rfl
    | cons b bs =>
      by_cases heq : a = b
      · subst heq
        simpa [lexLe] using ih bs
      · have hne : b ≠ a := Ne.symm heq
        simp only [lexLe, heq, hne, if_false, Bool.or_eq_true, decide_eq_true_eq,
          UInt8.lt_iff_toNat_lt]
        have hnat : a.toNat ≠ b.toNat := fun h => heq (UInt8.toNat_inj.mp h)
        omega

theorem lexLe_trans {as bs cs : Bytes} (hab : lexLe as bs = true) (hbc : lexLe bs cs = true) :
    lexLe as cs = true := by
  induction as generalizing bs cs with
  | nil => rfl
  | cons a as ih =>
    cases bs with
    | nil => cases hab
    | cons b bs =>
      cases cs with
      | nil => cases hbc
      | cons c cs =>
        simp only [lexLe] at hab hbc ⊢
        by_cases h1 : a = b
        · subst h1
          by_cases h2 : a = c
          · simp only [h2, if_true] at hab hbc ⊢
            exact ih hab hbc
          · simpa only [h2, if_false] using hbc
        · by_cases h2 : b = c
          · subst h2
            simpa only [h1, if_false] using hab
          · simp only [h1, h2, if_false, decide_eq_true_eq, UInt8.lt_iff_toNat_lt] at hab hbc
            have h3 : a ≠ c := fun h => by
              subst h
              omega
            simp only [h3, if_false, decide_eq_true_eq, UInt8.lt_iff_toNat_lt]
            omega

end ByteString
end PqTunnel
