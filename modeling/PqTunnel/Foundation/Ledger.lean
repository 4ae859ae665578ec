import Mathlib.Data.Multiset.Dedup
import PqTunnel.Foundation.Transition

/-! Counters under keys. A live counter is used up step by step, copied nowhere and never set back;
then no pair of a key and a counter value is used twice. -/
namespace PqTunnel.Ledger
open Transition

variable {κ : Type*}

structure State (κ : Type*) where
  live : Multiset (κ × ℕ)
  used : List (κ × ℕ)

variable {bound : ℕ} {s s' : State κ} {issued out : List κ}

/-- The moves, with the keys each one issues. -/
inductive Move (bound : ℕ) (s : State κ) : List κ → State κ → Prop where
  | use (k : κ) (c : ℕ) (rest : Multiset (κ × ℕ)) (hlive : s.live = (k, c) ::ₘ rest)
      (hbound : c < bound) : Move bound s [] ⟨(k, c + 1) ::ₘ rest, s.used ++ [(k, c)]⟩
  | drop (live : Multiset (κ × ℕ)) (hle : live ≤ s.live) : Move bound s [] { s with live }
  | opened (k : κ) : Move bound s [k] { s with live := (k, 0) ::ₘ s.live }

/-- Every key has one live counter at most, and it is above all that was used under the key. -/
structure Ok (bound : ℕ) (issued : List κ) (s : State κ) : Prop where
  keys : (s.live.map Prod.fst).Nodup
  known : ∀ p ∈ s.live, p.1 ∈ issued
  spent : ∀ p ∈ s.used, p.1 ∈ issued
  once : s.used.Nodup
  below : ∀ p ∈ s.used, ∀ q ∈ s.live, p.1 = q.1 → p.2 < q.2
  bounded : ∀ p ∈ s.used, p.2 < bound

theorem Ok.use {k : κ} {c : ℕ} {rest : Multiset (κ × ℕ)} (ho : Ok bound issued s)
    (hlive : s.live = (k, c) ::ₘ rest) (hbound : c < bound) :
    Ok bound issued ⟨(k, c + 1) ::ₘ rest, s.used ++ [(k, c)]⟩ := by
  have hkeys := ho.keys
  rw [hlive, Multiset.map_cons, Multiset.nodup_cons] at hkeys
  have hknown : k ∈ issued := ho.known (k, c) (by simp [hlive])
  have hfresh : (k, c) ∉ s.used := by
    intro hused
    have hlt := ho.below _ hused (k, c) (by simp [hlive]) rfl
    exact lt_irrefl c hlt
  constructor
  · rw [Multiset.map_cons, Multiset.nodup_cons]
    exact hkeys
  · intro p hp
    rcases Multiset.mem_cons.mp hp with rfl | hp
    · exact hknown
    · exact ho.known p (by simp [hlive, hp])
  · intro p hp
    rcases List.mem_append.mp hp with hp | hp
    · exact ho.spent p hp
    · rw [List.mem_singleton.mp hp]
      exact hknown
  · rw [List.nodup_append]
    refine ⟨ho.once, List.nodup_singleton _, ?_⟩
    intro p hp q hq
    rw [List.mem_singleton.mp hq]
    rintro rfl
    exact hfresh hp
  · intro p hp q hq heq
    rcases List.mem_append.mp hp with hp | hp <;> rcases Multiset.mem_cons.mp hq with rfl | hq
    · exact (ho.below p hp (k, c) (by simp [hlive]) heq).trans (Nat.lt_succ_self c)
    · exact ho.below p hp q (by simp [hlive, hq]) heq
    · rw [List.mem_singleton.mp hp]
      exact Nat.lt_succ_self c
    · rw [List.mem_singleton.mp hp] at heq
      exact absurd (Multiset.mem_map.mpr ⟨q, hq, heq.symm⟩) hkeys.1
  · intro p hp
    rcases List.mem_append.mp hp with hp | hp
    · exact ho.bounded p hp
    · rw [List.mem_singleton.mp hp]
      exact hbound

theorem Ok.drop {live : Multiset (κ × ℕ)} (ho : Ok bound issued s) (hle : live ≤ s.live) :
    Ok bound issued { s with live } where
  keys := Multiset.nodup_of_le (Multiset.map_le_map hle) ho.keys
  known p hp := ho.known p (Multiset.mem_of_le hle hp)
  spent := ho.spent
  once := ho.once
  below p hp q hq := ho.below p hp q (Multiset.mem_of_le hle hq)
  bounded := ho.bounded

theorem Ok.opened (ho : Ok bound issued s) {k : κ} (hfresh : k ∉ issued) :
    Ok bound (issued ++ [k]) { s with live := (k, 0) ::ₘ s.live } := by
  constructor
  · rw [Multiset.map_cons, Multiset.nodup_cons]
    refine ⟨fun hk => ?_, ho.keys⟩
    obtain ⟨p, hp, rfl⟩ := Multiset.mem_map.mp hk
    exact hfresh (ho.known p hp)
  · intro p hp
    rcases Multiset.mem_cons.mp hp with rfl | hp
    · simp
    · exact List.mem_append_left _ (ho.known p hp)
  · exact fun p hp => List.mem_append_left _ (ho.spent p hp)
  · exact ho.once
  · intro p hp q hq heq
    rcases Multiset.mem_cons.mp hq with rfl | hq
    · have hk : p.1 = k := heq
      exact absurd (hk ▸ ho.spent p hp) hfresh
    · exact ho.below p hp q hq heq
  · exact ho.bounded

theorem Ok.move (ho : Ok bound issued s) (hm : Move bound s out s')
    (hnodup : (issued ++ out).Nodup) : Ok bound (issued ++ out) s' := by
  cases hm with
  | use k c rest hlive hbound =>
    rw [List.append_nil]
    exact ho.use hlive hbound
  | drop live hle =>
    rw [List.append_nil]
    exact ho.drop hle
  | opened k =>
    refine ho.opened fun hk => ?_
    exact (List.nodup_append.mp hnodup).2.2 k hk k List.mem_cons_self rfl

/-- Along a trace that issues no key twice, the ledger stays in order. -/
theorem Ok.trace (ho : Ok bound issued s) (ht : Trace (Move bound) s out s')
    (hnodup : (issued ++ out).Nodup) : Ok bound (issued ++ out) s' := by
  refine ht.extend (J := fun h s => h.Nodup → Ok bound h s) ?_ (fun _ => ho) hnodup
  intro h s out s' hJ hm hn
  exact (hJ (List.Nodup.of_append_left hn)).move hm hn

theorem ok_empty (bound : ℕ) : Ok bound ([] : List κ) ⟨0, []⟩ where
  keys := Multiset.nodup_zero
  known := nofun
  spent := nofun
  once := List.nodup_nil
  below := nofun
  bounded := nofun

end PqTunnel.Ledger
