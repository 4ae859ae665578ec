import PqTunnel.Crypto.Sample

/-! Domain separation in the key schedule: the info strings of its purposes. -/
namespace PqTunnel.Kdf
open ByteString

inductive Purpose where
  | clientToServerKey
  | serverToClientKey
  | noncePrefixC2s
  | noncePrefixS2c
  | finishedKey
  | masterSecretV2
  deriving DecidableEq

namespace Purpose

def label : Purpose → Bytes
  | clientToServerKey => ascii "pq-tunnel-c2s-v2"
  | serverToClientKey => ascii "pq-tunnel-s2c-v2"
  | noncePrefixC2s => ascii "pq-tunnel-nonce-c2s-v2"
  | noncePrefixS2c => ascii "pq-tunnel-nonce-s2c-v2"
  | finishedKey => ascii "pq-tunnel-finished-v1"
  | masterSecretV2 => ascii "pq-tunnel-master-v2"

/-- The info string of a purpose, which ignores what the purpose does not bind. -/
def info (version : UInt8) (sid : Octets 8) (th3 : Octets 32) : Purpose → Bytes
  | finishedKey => finishedInfo version sid.toList
  | masterSecretV2 => masterInfo version sid.toList th3.toList
  | p => sessionInfo p.label sid.toList

/-- What follows the label. -/
def bound (version : UInt8) (sid : Octets 8) (th3 : Octets 32) : Purpose → Bytes
  | finishedKey => [version] ++ sid.toList
  | masterSecretV2 => [version] ++ (sid.toList ++ th3.toList)
  | _ => sid.toList

theorem info_eq (p : Purpose) (version : UInt8) (sid : Octets 8) (th3 : Octets 32) :
    p.info version sid th3 = p.label ++ p.bound version sid th3 := by
  cases p <;> rfl

/-- No label continues another one. -/
theorem label_prefix_free : ∀ p q : Purpose, p.label <+: q.label → p = q := by
  intro p q
  cases p <;> cases q <;> decide

variable {p q : Purpose} {v w : UInt8} {s t : Octets 8} {h k : Octets 32}

/-- Equal info strings belong to one purpose and one session, and agree in all they bind. -/
theorem info_inj (heq : p.info v s h = q.info w t k) :
    p = q ∧ s = t ∧ (p = finishedKey ∨ p = masterSecretV2 → v = w) ∧
      (p = masterSecretV2 → h = k) := by
  rw [info_eq, info_eq] at heq
  have hpq : p = q := by
    have hp : p.label <+: q.label ++ q.bound w t k := heq ▸ List.prefix_append ..
    rcases List.prefix_or_prefix_of_prefix hp (List.prefix_append ..) with hle | hle
    · exact label_prefix_free p q hle
    · exact (label_prefix_free q p hle).symm
  subst hpq
  have hbound := List.append_cancel_left heq
  cases p with
  | finishedKey =>
    obtain ⟨hv, hs⟩ := List.cons.inj hbound
    exact ⟨rfl, List.Vector.toList_injective hs, fun _ => hv, nofun⟩
  | masterSecretV2 =>
    have hrest : s.toList ++ h.toList = t.toList ++ k.toList := (List.cons.inj hbound).2
    obtain ⟨hs, hh⟩ := List.append_inj hrest (by simp)
    exact ⟨rfl, List.Vector.toList_injective hs, fun _ => (List.cons.inj hbound).1,
      fun _ => List.Vector.toList_injective hh⟩
  | _ => exact ⟨rfl, List.Vector.toList_injective hbound, by simp, nofun⟩

end Purpose

theorem buildSessionNonce_inj {a b : Octets 4} {c d : UInt64}
    (h : buildSessionNonce a c = buildSessionNonce b d) : a = b ∧ c = d := by
  have hlist : a.toList ++ toBeBytes c = b.toList ++ toBeBytes d := congrArg List.Vector.toList h
  obtain ⟨hpref, hcounter⟩ := List.append_inj hlist (by simp)
  exact ⟨List.Vector.toList_injective hpref, toBeBytes_injective hcounter⟩

section Injective

variable {T : CryptoTypes} (P : Primitives T)

/-- Under the zero salt and one input secret, HKDF tells the info strings of the set apart. A set
of all session ids has no such prefixes: there are more ids than prefixes. -/
def HkdfInjOn (ikm : Bytes) (n : ℕ) (infos : Set Bytes) : Prop :=
  ∀ i ∈ infos, ∀ j ∈ infos, ∀ okm, P.hkdfExpand (zeros 32) ikm i n = .ok okm →
    P.hkdfExpand (zeros 32) ikm j n = .ok okm → i = j

variable {P} in
theorem HkdfInjOn.derive {ikm i j : Bytes} {n : ℕ} {infos : Set Bytes} {okm : Octets n}
    (h : HkdfInjOn P ikm n infos) (hi : i ∈ infos) (hj : j ∈ infos)
    (hl : kdfDeriveToBytes P n ikm (zeros 32) i = .ok okm)
    (hr : kdfDeriveToBytes P n ikm (zeros 32) j = .ok okm) : i = j := by
  have hexpand : ∀ i, kdfDeriveToBytes P n ikm (zeros 32) i = .ok okm →
      P.hkdfExpand (zeros 32) ikm i n = .ok okm := by
    intro i hok
    unfold kdfDeriveToBytes at hok
    split at hok
    · rename_i okm' hexp
      rw [hexp, Except.ok.inj hok]
    · cases hok
  exact h i hi j hj okm (hexpand i hl) (hexpand j hr)

/-- The keys that a master secret gives. -/
def keyOf (master : MasterSecret) (version : UInt8) (sid : Octets 8) :
    Purpose → Except CryptoError Secret
  | .clientToServerKey => deriveClientToServerKey P master sid.toList
  | .serverToClientKey => deriveServerToClientKey P master sid.toList
  | .finishedKey => deriveFinishedKey P master version sid.toList
  | _ => .error (.kdf "not a key of the master secret")

def noncePrefixOf (master : MasterSecret) (sid : Octets 8) :
    Purpose → Except CryptoError (Octets 4)
  | .noncePrefixC2s => deriveNoncePrefixC2s P master sid.toList
  | .noncePrefixS2c => deriveNoncePrefixS2c P master sid.toList
  | _ => .error (.kdf "not a nonce prefix")

variable {P} {master : MasterSecret} {v : UInt8} {s : Octets 8} {p : Purpose}

theorem keyOf_expands {key : Secret} (h : keyOf P master v s p = .ok key) (th3 : Octets 32) :
    kdfDeriveToBytes P 32 master.toList (zeros 32) (p.info v s th3) = .ok key := by
  cases p with
  | clientToServerKey | serverToClientKey | finishedKey => exact h
  | _ => cases h

theorem noncePrefixOf_expands {a : Octets 4} (h : noncePrefixOf P master s p = .ok a) (v : UInt8)
    (th3 : Octets 32) :
    kdfDeriveToBytes P 4 master.toList (zeros 32) (p.info v s th3) = .ok a := by
  cases p with
  | noncePrefixC2s | noncePrefixS2c => exact h
  | _ => cases h

end Injective

/-- The purposes of the key schedule are separated for all session ids, versions and transcripts:
where HKDF tells the info strings apart, no key and no nonce of a master secret is used twice. -/
theorem purposes_separated {T : CryptoTypes} {P : Primitives T} {master : MasterSecret}
    {infos : Set Bytes} (hkeys : HkdfInjOn P master.toList 32 infos)
    (hprefixes : HkdfInjOn P master.toList 4 infos) :
    (∀ (p q : Purpose) v w s t h k, p.info v s h = q.info w t k →
      p = q ∧ s = t ∧ (p = .finishedKey ∨ p = .masterSecretV2 → v = w) ∧
        (p = .masterSecretV2 → h = k)) ∧
    (∀ a b c d, buildSessionNonce a c = buildSessionNonce b d → a = b ∧ c = d) ∧
    (∀ (p q : Purpose) v w s t h k key, p.info v s h ∈ infos → q.info w t k ∈ infos →
      keyOf P master v s p = .ok key → keyOf P master w t q = .ok key →
      p = q ∧ s = t ∧ (p = .finishedKey → v = w)) ∧
    ∀ (p q : Purpose) v w s t h k a b c d, p.info v s h ∈ infos → q.info w t k ∈ infos →
      noncePrefixOf P master s p = .ok a → noncePrefixOf P master t q = .ok b →
      buildSessionNonce a c = buildSessionNonce b d → p = q ∧ s = t ∧ c = d := by
  refine ⟨fun _ _ _ _ _ _ _ _ => Purpose.info_inj, fun _ _ _ _ => buildSessionNonce_inj, ?_, ?_⟩
  · intro p q v w s t h k key hp hq hkey hkey'
    obtain ⟨hpq, hst, hvw, -⟩ := Purpose.info_inj
      (hkeys.derive hp hq (keyOf_expands hkey h) (keyOf_expands hkey' k))
    exact ⟨hpq, hst, fun hfin => hvw (Or.inl hfin)⟩
  · intro p q v w s t h k a b c d hp hq ha hb hnonce
    obtain ⟨rfl, hcd⟩ := buildSessionNonce_inj hnonce
    obtain ⟨hpq, hst, -⟩ := Purpose.info_inj
      (hprefixes.derive hp hq (noncePrefixOf_expands ha v h) (noncePrefixOf_expands hb w k))
    exact ⟨hpq, hst, hcd⟩

/-- An expansion that shows the purpose and the end of an info string. -/
def sampleExpansion : Primitives Sample.types :=
  { Sample.primitives with
    hkdfExpand := fun _ _ info n =>
      .ok (Sample.fit n (slice info 10 1 ++ slice info 16 1 ++ info.reverse)) }

def sidOf (b : UInt8) : Octets 8 := List.Vector.replicate 8 b

/-- The info strings of two sessions. -/
def sampleInfos : List Bytes :=
  [Purpose.clientToServerKey, .serverToClientKey, .noncePrefixC2s, .noncePrefixS2c,
    .finishedKey].flatMap fun p => [0, 1].map fun b =>
      p.info 2 (sidOf b) (List.Vector.replicate 32 0)

theorem sampleExpansion_injOn {n : ℕ} {m : MasterSecret}
    (h : ∀ i ∈ sampleInfos, ∀ j ∈ sampleInfos,
      sampleExpansion.hkdfExpand (zeros 32) m.toList i n =
        sampleExpansion.hkdfExpand (zeros 32) m.toList j n → i = j) :
    HkdfInjOn sampleExpansion m.toList n {i | i ∈ sampleInfos} :=
  fun i hi j hj _ hl hr => h i hi j hj (hl.trans hr.symm)

/-- Two sessions of one master secret never share a nonce. -/
theorem purposes_separated_sessions :
    ∃ a b, noncePrefixOf sampleExpansion (List.Vector.replicate 32 7) (sidOf 0)
        .noncePrefixC2s = .ok a ∧
      noncePrefixOf sampleExpansion (List.Vector.replicate 32 7) (sidOf 1)
        .noncePrefixC2s = .ok b ∧ ∀ c, buildSessionNonce a c ≠ buildSessionNonce b c := by
  let master : MasterSecret := List.Vector.replicate 32 7
  obtain ⟨-, -, -, hnonces⟩ := purposes_separated
    (sampleExpansion_injOn (m := master) (n := 32) (by decide +kernel))
    (sampleExpansion_injOn (n := 4) (by decide +kernel))
  refine ⟨_, _, rfl, rfl, fun c hnonce => ?_⟩
  obtain ⟨-, hsid, -⟩ := hnonces .noncePrefixC2s .noncePrefixC2s 2 2 (sidOf 0) (sidOf 1)
    (List.Vector.replicate 32 0) (List.Vector.replicate 32 0) _ _ c c
    (show _ ∈ sampleInfos by decide +kernel) (show _ ∈ sampleInfos by decide +kernel) rfl rfl hnonce
  exact absurd hsid (by decide)

end PqTunnel.Kdf
