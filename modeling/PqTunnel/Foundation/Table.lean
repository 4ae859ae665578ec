import Mathlib.Data.List.AList

/-! Finite maps with the operations of a hash table, over association lists without
duplicate keys. -/
namespace PqTunnel

def Table (κ ν : Type) := AList (fun _ : κ => ν)

namespace Table
variable {κ ν : Type}

def empty : Table κ ν := (∅ : AList (fun _ : κ => ν))

def entries (t : Table κ ν) : List (Σ _ : κ, ν) := AList.entries t

def keys (t : Table κ ν) : List κ := AList.keys t

def size (t : Table κ ν) : ℕ := t.entries.length

def retain (p : κ → ν → Bool) (t : Table κ ν) : Table κ ν :=
  AList.mk (t.entries.filter fun e => p e.1 e.2) ((AList.nodupKeys t).sublist List.filter_sublist)

theorem size_eq_length_keys (t : Table κ ν) : t.size = t.keys.length := by
  simp [size, entries, keys, AList.keys, List.keys]

theorem nodup_keys (t : Table κ ν) : t.keys.Nodup := AList.keys_nodup t

@[simp] theorem size_empty : (empty : Table κ ν).size = 0 := rfl

@[simp] theorem keys_empty : (empty : Table κ ν).keys = [] := rfl

theorem size_retain_le (p : κ → ν → Bool) (t : Table κ ν) : (t.retain p).size ≤ t.size :=
  List.length_filter_le ..

variable {t : Table κ ν}

/-- A sweep that loses nothing changes nothing. -/
theorem retain_eq_self {p : κ → ν → Bool} (h : t.size ≤ (t.retain p).size) : t.retain p = t := by
  apply AList.ext
  exact List.Sublist.eq_of_length_le List.filter_sublist h

theorem retain_retain (p : κ → ν → Bool) (t : Table κ ν) :
    (t.retain p).retain p = t.retain p := by
  apply AList.ext
  refine List.filter_filter.trans ?_
  simp only [Bool.and_self]
  rfl

theorem eq_of_size_le_one (h : t.size ≤ 1) {k k' : κ} (hk : k ∈ t.keys)
    (hk' : k' ∈ t.keys) : k = k' := by
  rw [size_eq_length_keys] at h
  obtain ⟨i, hi, rfl⟩ := List.getElem_of_mem hk
  obtain ⟨j, hj, rfl⟩ := List.getElem_of_mem hk'
  obtain rfl : i = j := by omega
  rfl

/-- The table is within its bound, and the queue holds each of its keys once. -/
structure Queued (cap : ℕ) (order : List κ) (t : Table κ ν) : Prop where
  order : order.Perm t.keys
  size : t.size ≤ cap

theorem Queued.length {cap : ℕ} {order : List κ} (h : Queued cap order t) :
    order.length = t.size := by
  rw [h.order.length_eq, size_eq_length_keys]

variable [DecidableEq κ]

def get (t : Table κ ν) (k : κ) : Option ν := AList.lookup k t

def put (t : Table κ ν) (k : κ) (v : ν) : Table κ ν := AList.insert k v t

def remove (t : Table κ ν) (k : κ) : Table κ ν := AList.erase k t

/-- The entries in an iteration order that the caller picks; a list that is not an order of the
keys stands for the table's own. -/
def iter (t : Table κ ν) (order : List κ) : List (κ × ν) :=
  (if order.Perm t.keys then order else t.keys).filterMap fun k => (t.get k).map (k, ·)

@[simp] theorem get_empty (k : κ) : (empty : Table κ ν).get k = none := AList.lookup_empty k

variable {t : Table κ ν}

theorem mem_entries {k : κ} {v : ν} : ⟨k, v⟩ ∈ t.entries ↔ t.get k = some v := by
  rw [← Option.mem_def]
  exact AList.mem_lookup_iff.symm

theorem size_eq_zero (h : ∀ k, t.get k = none) : t.size = 0 := by
  rw [size, List.length_eq_zero_iff, List.eq_nil_iff_forall_not_mem]
  rintro ⟨k, v⟩ hmem
  rw [mem_entries, h k] at hmem
  cases hmem

theorem get_of_size_zero (h : t.size = 0) (k : κ) : t.get k = none := by
  cases hget : t.get k with
  | none => rfl
  | some v =>
    rw [← mem_entries, List.length_eq_zero_iff.mp h] at hget
    cases hget

variable {k : κ}

theorem mem_keys : k ∈ t.keys ↔ ∃ v, t.get k = some v := by
  rw [← Option.isSome_iff_exists]
  exact AList.lookup_isSome.symm

theorem not_mem_keys (h : t.get k = none) : k ∉ t.keys := by
  intro hk
  obtain ⟨v, hv⟩ := mem_keys.mp hk
  cases h.symm.trans hv

variable {v : ν}

theorem mem_iter {order : List κ} : (k, v) ∈ t.iter order ↔ t.get k = some v := by
  have hkeys : ∀ l : List κ, l.Perm t.keys →
      ((k, v) ∈ l.filterMap (fun k => (t.get k).map (k, ·)) ↔ t.get k = some v) := by
    intro l hl
    rw [List.mem_filterMap]
    constructor
    · rintro ⟨k', -, hk'⟩
      obtain ⟨v', hv', heq⟩ := Option.map_eq_some_iff.mp hk'
      obtain ⟨rfl, rfl⟩ := Prod.mk.inj heq
      exact hv'
    · intro hget
      exact ⟨k, hl.mem_iff.mpr (mem_keys.mpr ⟨v, hget⟩), by rw [hget]; rfl⟩
  unfold iter
  split_ifs with h
  · exact hkeys order h
  · exact hkeys t.keys (List.Perm.refl _)

variable (t)

theorem nodup_iter (order : List κ) : ((t.iter order).map (·.1)).Nodup := by
  have hkeys : ∀ l : List κ, l.Nodup →
      ((l.filterMap fun k => (t.get k).map (k, ·)).map (·.1)).Nodup := by
    intro l hl
    refine List.Nodup.sublist ?_ hl
    induction l with
    | nil => exact .slnil
    | cons k l ih =>
      cases hk : t.get k with
      | none => simpa [hk] using (ih hl.of_cons).cons k
      | some v => simpa [hk] using (ih hl.of_cons).cons_cons k
  unfold iter
  split_ifs with h
  · exact hkeys order (h.nodup_iff.mpr t.nodup_keys)
  · exact hkeys t.keys t.nodup_keys

theorem get_put (k k' : κ) (v : ν) : (t.put k v).get k' = if k' = k then some v else t.get k' := by
  split_ifs with h
  · subst h
    exact AList.lookup_insert t
  · exact AList.lookup_insert_ne h

@[simp] theorem get_put_self (k : κ) (v : ν) : (t.put k v).get k = some v :=
  AList.lookup_insert t

theorem get_put_ne {k' : κ} (v : ν) (h : k' ≠ k) :
    (t.put k v).get k' = t.get k' := AList.lookup_insert_ne h

theorem get_remove (k k' : κ) : (t.remove k).get k' = if k' = k then none else t.get k' := by
  split_ifs with h
  · subst h
    exact AList.lookup_erase k' t
  · exact AList.lookup_erase_ne h

@[simp] theorem get_remove_self (k : κ) : (t.remove k).get k = none :=
  AList.lookup_erase k t

theorem get_remove_ne {k' : κ} (h : k' ≠ k) :
    (t.remove k).get k' = t.get k' := AList.lookup_erase_ne h

variable {t}

theorem get_retain (p : κ → ν → Bool) (t : Table κ ν) (k : κ) :
    (t.retain p).get k = (t.get k).filter (p k) := by
  ext v
  rw [Option.filter_eq_some_iff, ← mem_entries, ← mem_entries]
  exact List.mem_filter

theorem get_of_retain {p : κ → ν → Bool}
    (h : (t.retain p).get k = some v) : t.get k = some v ∧ p k v = true := by
  rwa [get_retain, Option.filter_eq_some_iff] at h

theorem get_of_remove {k' : κ} (h : (t.remove k).get k' = some v) : k' ≠ k ∧ t.get k' = some v := by
  rw [get_remove] at h
  split_ifs at h with hk
  exact ⟨hk, h⟩

variable (t) (k)

theorem put_put_self (v w : ν) : (t.put k v).put k w = t.put k w :=
  AList.insert_insert t

theorem remove_put_self (v : ν) : (t.put k v).remove k = t.remove k := by
  have herase : ∀ l : AList (fun _ : κ => ν), (l.insert k v).erase k = l.erase k := by
    intro l
    apply AList.ext
    change List.kerase k (l.insert k v).entries = List.kerase k l.entries
    simp [AList.entries_insert, List.kerase_cons_eq]
  exact herase t

theorem keys_put (v : ν) : (t.put k v).keys = k :: t.keys.erase k :=
  AList.keys_insert t

theorem keys_remove : (t.remove k).keys = t.keys.erase k :=
  AList.keys_erase k t

theorem entries_put (v : ν) :
    (t.put k v).entries = ⟨k, v⟩ :: (t.remove k).entries := AList.entries_insert

theorem entries_remove_sublist :
    (t.remove k).entries.Sublist t.entries := List.kerase_sublist k t.entries

variable {t} {k}

/-- An entry and the rest of the table. -/
theorem entries_perm (h : t.get k = some v) : t.entries.Perm (⟨k, v⟩ :: (t.remove k).entries) := by
  have hmem : k ∈ t.entries.keys := mem_keys.mpr ⟨v, h⟩
  obtain ⟨v', l₁, l₂, -, hentries, herase⟩ := List.exists_of_kerase hmem
  have hv : t.get k = some v' := by
    rw [← mem_entries, hentries]
    simp
  obtain rfl := Option.mem_unique h hv
  have hrest : (t.remove k).entries = l₁ ++ l₂ := herase
  rw [hentries, hrest]
  exact List.perm_middle

theorem size_remove_of_some (h : t.get k = some v) : (t.remove k).size + 1 = t.size := by
  have hmem : k ∈ t.keys := mem_keys.mpr ⟨v, h⟩
  rw [size_eq_length_keys, size_eq_length_keys, keys_remove, List.length_erase_add_one hmem]

theorem size_remove_le (t : Table κ ν) (k : κ) : (t.remove k).size ≤ t.size := by
  rw [size_eq_length_keys, size_eq_length_keys, keys_remove]
  exact List.length_erase_le

theorem size_put_of_none (v : ν) (h : t.get k = none) : (t.put k v).size = t.size + 1 := by
  rw [size_eq_length_keys, size_eq_length_keys, keys_put, List.length_cons,
    List.erase_of_not_mem (not_mem_keys h)]

theorem size_put_of_some (w : ν) (h : t.get k = some v) : (t.put k w).size = t.size := by
  have hmem : k ∈ t.keys := mem_keys.mpr ⟨v, h⟩
  rw [size_eq_length_keys, size_eq_length_keys, keys_put, List.length_cons,
    List.length_erase_add_one hmem]

theorem mem_keys_put {k' : κ} : k' ∈ (t.put k v).keys ↔ k' = k ∨ k' ∈ t.keys := by
  rw [mem_keys, mem_keys, get_put]
  split_ifs with hk <;> simp [hk]

theorem mem_keys_remove {k' : κ} : k' ∈ (t.remove k).keys ↔ k' ≠ k ∧ k' ∈ t.keys := by
  rw [mem_keys, mem_keys, get_remove]
  split_ifs with hk <;> simp [hk]

theorem countP_put_le (t : Table κ ν) (k : κ) (v : ν) (p : κ → Bool) :
    (t.put k v).keys.countP p ≤ t.keys.countP p + if p k then 1 else 0 := by
  rw [keys_put, List.countP_cons]
  exact Nat.add_le_add_right (List.erase_sublist.countP_le) _

theorem countP_remove_lt (h : t.get k = some v) {p : κ → Bool}
    (hp : p k = true) : (t.remove k).keys.countP p < t.keys.countP p := by
  have hperm := List.perm_cons_erase (mem_keys.mpr ⟨v, h⟩)
  rw [keys_remove, hperm.countP_eq, List.countP_cons, if_pos hp]
  exact Nat.lt_succ_self _

theorem keys_subperm {t' : Table κ ν} (h : ∀ k v, t'.get k = some v → ∃ w, t.get k = some w) :
    t'.keys.Subperm t.keys := by
  apply List.subperm_of_subset t'.nodup_keys
  intro k hk
  obtain ⟨v, hv⟩ := mem_keys.mp hk
  exact mem_keys.mpr (h k v hv)

namespace Queued

variable {cap : ℕ} {order : List κ} {t : Table κ ν} {k : κ}

theorem touch (h : Queued cap order t) {v : ν} (hget : t.get k = some v) (w : ν) :
    Queued cap order (t.put k w) := by
  refine ⟨?_, (size_put_of_some w hget).symm ▸ h.size⟩
  rw [keys_put]
  exact h.order.trans (List.perm_cons_erase (mem_keys.mpr ⟨v, hget⟩))

theorem push (h : Queued cap order t) (hnone : t.get k = none) (hroom : t.size < cap) (v : ν) :
    Queued cap (order ++ [k]) (t.put k v) := by
  refine ⟨?_, (size_put_of_none v hnone).symm ▸ hroom⟩
  rw [keys_put, List.erase_of_not_mem (not_mem_keys hnone)]
  exact List.perm_append_comm.trans (h.order.cons k)

theorem pop (h : Queued cap (k :: order) t) :
    Queued cap order (t.remove k) ∧ (t.remove k).size + 1 = t.size := by
  obtain ⟨v, hget⟩ := mem_keys.mp (h.order.mem_iff.mp List.mem_cons_self)
  refine ⟨⟨?_, Nat.le_trans (size_remove_le t k) h.size⟩, size_remove_of_some hget⟩
  rw [keys_remove]
  exact (List.cons_perm_iff_perm_erase.mp h.order).2

theorem retain (h : Queued cap order t) (p : κ → ν → Bool) :
    Queued cap (order.filter fun k => ((t.retain p).get k).isSome) (t.retain p) := by
  have hnodup : order.Nodup := h.order.nodup_iff.mpr t.nodup_keys
  refine ⟨?_, Nat.le_trans (size_retain_le p t) h.size⟩
  refine (List.perm_ext_iff_of_nodup (hnodup.filter _) (nodup_keys _)).mpr fun k => ?_
  rw [List.mem_filter, mem_keys, h.order.mem_iff, mem_keys, Option.isSome_iff_exists]
  constructor
  · exact And.right
  · rintro ⟨v, hv⟩
    exact ⟨⟨v, (get_of_retain hv).1⟩, v, hv⟩

end Queued

end Table
end PqTunnel
