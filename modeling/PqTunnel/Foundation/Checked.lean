import PqTunnel.Foundation.ByteString

/-! Accesses that may be out of range: each gives nothing where the code would panic. -/
namespace PqTunnel.Checked
open ByteString

def sub (a b : ℕ) : Option ℕ := if b ≤ a then some (a - b) else none

def range (l : Bytes) (lo hi : ℕ) : Option Bytes :=
  if lo ≤ hi ∧ hi ≤ l.length then some (slice l lo (hi - lo)) else none

def copy (buf : Bytes) (lo hi : ℕ) (src : Bytes) : Option Bytes :=
  if lo ≤ hi ∧ hi ≤ buf.length ∧ src.length = hi - lo then some (blit buf lo src) else none

def set {α : Type} (l : List α) (i : ℕ) (a : α) : Option (List α) :=
  if i < l.length then some (l.set i a) else none

def first {α : Type} (l : List α) (n : ℕ) : Option (List α) :=
  if n ≤ l.length then some (l.take n) else none

def array {α : Type} (n : ℕ) (l : List α) : Option (List.Vector α n) :=
  if h : l.length = n then some ⟨l, h⟩ else none

theorem sub_of_le {a b : ℕ} (h : b ≤ a) : sub a b = some (a - b) := if_pos h

theorem index_of_lt {α : Type} {l : List α} {i : ℕ} (h : i < l.length) (d : α) :
    l[i]? = some (l.getD i d) := by
  rw [List.getD_eq_getElem?_getD, List.getElem?_eq_getElem h, Option.getD_some]

theorem range_of_le {l : Bytes} {lo len : ℕ} (h : lo + len ≤ l.length) :
    range l lo (lo + len) = some (slice l lo len) := by
  rw [range, if_pos ⟨Nat.le_add_right _ _, h⟩, Nat.add_sub_cancel_left]

theorem range_zero {l : Bytes} {n : ℕ} (h : n ≤ l.length) : range l 0 n = some (l.take n) :=
  if_pos ⟨Nat.zero_le n, h⟩

theorem copy_of_le {buf src : Bytes} {lo len : ℕ} (h : lo + len ≤ buf.length)
    (hlen : src.length = len) : copy buf lo (lo + len) src = some (blit buf lo src) := by
  apply if_pos
  rw [Nat.add_sub_cancel_left]
  exact ⟨Nat.le_add_right _ _, h, hlen⟩

theorem set_of_lt {α : Type} {l : List α} {i : ℕ} (h : i < l.length) (a : α) :
    set l i a = some (l.set i a) := if_pos h

theorem first_of_le {α : Type} {l : List α} {n : ℕ} (h : n ≤ l.length) :
    first l n = some (l.take n) := if_pos h

theorem array_of_length {α : Type} {n : ℕ} {l : List α} (h : l.length = n) :
    array n l = some ⟨l, h⟩ := dif_pos h

end PqTunnel.Checked
