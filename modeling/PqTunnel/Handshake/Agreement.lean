import PqTunnel.Handshake.Completion

/-! Injective agreement between client and server runs on the attacker's network. -/
namespace PqTunnel.Network
open ByteString Transition ClientHandshake

variable {T : CryptoTypes} {P : Primitives T} {Honest : T.SigPk → Prop}

/-- A Complete event and a client run share session id, transcript and master. -/
structure Agrees (d : Completed T) (f : M3Sent T) : Prop where
  sid : f.outcome.sessionId = d.outcome.sessionId
  m1 : m1Zero f.m1 = m1Zero d.m1
  m2 : m2Zero f.m2 = m2Zero d.m2
  m3 : m3Zero f.m3 = m3Zero d.m3
  master : f.outcome.master = d.outcome.master

/-- The machines only add to the logs. -/
structure Grows (net net' : Net T) : Prop where
  kemPks : ∀ x ∈ net.kemPks, x ∈ net'.kemPks
  coins : ∀ x ∈ net.coins, x ∈ net'.coins
  m1s : ∀ x ∈ net.m1s, x ∈ net'.m1s
  m2s : ∀ x ∈ net.m2s, x ∈ net'.m2s
  m3s : ∀ x ∈ net.m3s, x ∈ net'.m3s

structure M2Ok (P : Primitives T) (Honest : T.SigPk → Prop) (net : Net T) (a : M2Sent T) :
    Prop where
  decoded : ∃ hello, ClientHello.decode P a.m1 = .ok hello
  encoded : ∃ version xS ct2 sig,
    a.m2 = encodeM2 P version a.sid (P.kemPublic a.draw.kemSk) xS ct2 sig
  key : P.kemPublic a.draw.kemSk ∈ net.kemPks
  coin : a.draw.rand ∈ net.coins
  signed : ∀ pk, a.client = some pk → Honest pk → net.Signed P pk (P.sha256 (th1Input a.m1))

structure M3Ok (P : Primitives T) (Honest : T.SigPk → Prop) (net : Net T) (f : M3Sent T) :
    Prop where
  origin : ∃ m ∈ net.m1s, m.client = f.client ∧ m.identity = f.identity ∧
    f.m1 = m.hello.encode P
  length : f.m2.length = m2BodyLen
  signed : Honest f.outcome.peerIdentity →
    net.Signed P f.outcome.peerIdentity (P.sha256 (th2Input f.m1 f.m2))

structure CompleteOk (P : Primitives T) (Honest : T.SigPk → Prop) (net : Net T)
    (d : Completed T) : Prop where
  answer : ∃ a ∈ net.m2s, a.server = d.server ∧ a.m1 = d.m1 ∧ a.m2 = d.m2
  agreed : Honest d.outcome.peerIdentity → ∃ f ∈ net.m3s,
    P.verifyingKey f.identity = d.outcome.peerIdentity ∧ Agrees d f

structure ClientInv (P : Primitives T) (net : Net T) (id : ℕ) (c : ClientHandshake T) : Prop where
  ok : c.Ok P fun _ _ => True
  origin : ∃ m ∈ net.m1s, m.client = id ∧ m.identity = c.cfg.identity ∧ m.hello = c.m1
  silent : ∀ asm attempts, c.state = .awaitM2 asm attempts → ∀ f ∈ net.m3s, f.client ≠ id

/-- A pending entry stands for one signed M2. -/
structure Backed (P : Primitives T) (id : ℕ) (sid : SessionId) (e : PendingSession T)
    (a : M2Sent T) : Prop where
  server : a.server = id
  sid : a.sid = sid
  m1Body : e.m1Body = some a.m1
  m2Cache : e.m2Cache = some a.m2
  client : e.verifiedClient = a.client
  skS : e.skS = some a.draw.kemSk
  secrets : ∃ hello, ClientHello.decode P a.m1 = .ok hello ∧
    e.ssA = (P.kemEncapsulate hello.ephPkC a.draw.rand).1 ∧
    e.dhCs = P.xShared a.draw.xSk hello.xC

/-- Every entry that awaits its M3 stands for an M2 that no Complete has used yet. -/
structure ServerInv (P : Primitives T) (net : Net T) (id : ℕ) (s : ServerHandshake T) : Prop where
  ok : s.PendingOk
  backed : ∀ sid e, s.pending.get sid = some e → e.state = .awaitM3 →
    ∃ a ∈ net.m2s, Backed P id sid e a ∧ ∀ d ∈ net.completes, m2Zero d.m2 ≠ m2Zero a.m2

structure Inv (P : Primitives T) (Honest : T.SigPk → Prop) (net : Net T) : Prop where
  clients : ∀ id c, net.clients.get id = some c → ClientInv P net id c
  servers : ∀ id s, net.servers.get id = some s → ServerInv P net id s
  m1s : ∀ m ∈ net.m1s, m.hello.ephPkC ∈ net.kemPks
  m1Keys : ∀ m ∈ net.m1s, ∀ m' ∈ net.m1s, m.hello.ephPkC = m'.hello.ephPkC → m = m'
  m2s : ∀ a ∈ net.m2s, M2Ok P Honest net a
  m2Keys : ∀ a ∈ net.m2s, ∀ a' ∈ net.m2s,
    P.kemPublic a.draw.kemSk = P.kemPublic a'.draw.kemSk → a = a'
  m3s : ∀ f ∈ net.m3s, M3Ok P Honest net f ∧ ∃ c, net.clients.get f.client = some c
  m3Clients : ∀ f ∈ net.m3s, ∀ f' ∈ net.m3s, f.client = f'.client → f = f'
  completes : ∀ d ∈ net.completes, CompleteOk P Honest net d
  once : net.completes.Pairwise fun d d' => m2Zero d.m2 ≠ m2Zero d'.m2

section Monotone

variable {net net' : Net T} (h : Grows net net')
include h

theorem Grows.signed {pk : T.SigPk} {th : Secret} (hs : net.Signed P pk th) :
    net'.Signed P pk th := by
  rcases hs with ⟨m, hm, hs⟩ | ⟨a, ha, hs⟩
  · exact Or.inl ⟨m, h.m1s m hm, hs⟩
  · exact Or.inr ⟨a, h.m2s a ha, hs⟩

theorem M2Ok.mono {a : M2Sent T} (ha : M2Ok P Honest net a) : M2Ok P Honest net' a :=
  ⟨ha.decoded, ha.encoded, h.kemPks _ ha.key, h.coins _ ha.coin,
    fun pk hpk hh => h.signed (ha.signed pk hpk hh)⟩

theorem M3Ok.mono {f : M3Sent T} (hf : M3Ok P Honest net f) : M3Ok P Honest net' f := by
  obtain ⟨m, hm, horig⟩ := hf.origin
  exact ⟨⟨m, h.m1s m hm, horig⟩, hf.length, fun hh => h.signed (hf.signed hh)⟩

theorem CompleteOk.mono {d : Completed T} (hd : CompleteOk P Honest net d) :
    CompleteOk P Honest net' d := by
  obtain ⟨a, ha, hans⟩ := hd.answer
  refine ⟨⟨a, h.m2s a ha, hans⟩, fun hh => ?_⟩
  obtain ⟨f, hf, hagree⟩ := hd.agreed hh
  exact ⟨f, h.m3s f hf, hagree⟩

end Monotone

theorem inv_empty : Inv P Honest Net.empty where
  clients id c h := by rw [Net.empty, Table.get_empty] at h; cases h
  servers id s h := by rw [Net.empty, Table.get_empty] at h; cases h
  m1s m h := absurd h List.not_mem_nil
  m1Keys m h := absurd h List.not_mem_nil
  m2s a h := absurd h List.not_mem_nil
  m2Keys a h := absurd h List.not_mem_nil
  m3s f h := absurd h List.not_mem_nil
  m3Clients f h := absurd h List.not_mem_nil
  completes d h := absurd h List.not_mem_nil
  once := List.Pairwise.nil

theorem get_put_cases {ν : Type} {t : Table ℕ ν} {id id' : ℕ} {v w : ν}
    (h : (t.put id v).get id' = some w) : id' = id ∧ w = v ∨ id' ≠ id ∧ t.get id' = some w := by
  rw [Table.get_put] at h
  split_ifs at h with hid
  · exact Or.inl ⟨hid, (Option.some.inj h).symm⟩
  · exact Or.inr ⟨hid, h⟩

section Clients

variable {net : Net T} {id : ℕ} {c : ClientHandshake T}

theorem ClientInv.mono {net' : Net T} (h : Grows net net')
    (hm3 : ∀ f ∈ net'.m3s, f.client = id → f ∈ net.m3s) (hc : ClientInv P net id c) :
    ClientInv P net' id c := by
  obtain ⟨m, hm, horig⟩ := hc.origin
  refine ⟨hc.ok, ⟨m, h.m1s m hm, horig⟩, ?_⟩
  intro asm attempts hst f hf hid
  exact hc.silent asm attempts hst f (hm3 f hf hid) hid

variable {s : ServerHandshake T}

theorem ServerInv.mono {net' : Net T} (h : Grows net net') (hd : net'.completes = net.completes)
    (hs : ServerInv P net id s) : ServerInv P net' id s := by
  refine ⟨hs.ok, fun sid e hget hst => ?_⟩
  obtain ⟨a, ha, hback, hfree⟩ := hs.backed sid e hget hst
  rw [hd]
  exact ⟨a, h.m2s a ha, hback, hfree⟩

theorem grows_addClient (net : Net T) (id : ℕ) (c : ClientHandshake T) :
    Grows net (net.addClient id c) where
  kemPks _ h := List.mem_cons_of_mem _ h
  coins _ h := h
  m1s _ h := List.mem_cons_of_mem _ h
  m2s _ h := h
  m3s _ h := h

/-- A new client has a key of its own and no run yet. -/
theorem Inv.addClient (hinv : Inv P Honest net) {cfg : ClientConfig T} {sid : SessionId}
    {kemSk : T.KemSk} {xSk : T.XSk} (hid : net.clients.get id = none)
    (hkem : P.kemPublic kemSk ∉ net.kemPks)
    (hnew : ClientHandshake.new P cfg sid kemSk xSk = .ok c) :
    Inv P Honest (net.addClient id c) := by
  have hgrow := grows_addClient net id c
  obtain ⟨hok, -, -, hsk, -, asm₀, hstate, -⟩ := new_ok hnew fun _ _ => True
  have hfresh : c.m1.ephPkC ∉ net.kemPks := by
    rw [hok.m1]
    rw [hsk]
    exact hkem
  refine ⟨?_, ?_, ?_, ?_, ?_, hinv.m2Keys, ?_, hinv.m3Clients, ?_, hinv.once⟩
  · intro id' c' hget
    rcases get_put_cases hget with ⟨rfl, rfl⟩ | ⟨hne, hget⟩
    · refine ⟨hok, ⟨_, List.mem_cons_self, rfl, rfl, rfl⟩, ?_⟩
      intro asm attempts _ f hf hclient
      obtain ⟨-, c₀, hc₀⟩ := hinv.m3s f hf
      rw [hclient, hid] at hc₀
      cases hc₀
    · exact (hinv.clients id' c' hget).mono hgrow fun f hf _ => hf
  · intro id' s hget
    exact (hinv.servers id' s hget).mono hgrow rfl
  · intro m hm
    rcases List.mem_cons.mp hm with rfl | hm
    · exact List.mem_cons_self
    · exact List.mem_cons_of_mem _ (hinv.m1s m hm)
  · intro m hm m' hm' hkey
    rcases List.mem_cons.mp hm with rfl | hm <;> rcases List.mem_cons.mp hm' with rfl | hm'
    · rfl
    · exact absurd (hkey ▸ hinv.m1s m' hm') hfresh
    · exact absurd (hkey ▸ hinv.m1s m hm) hfresh
    · exact hinv.m1Keys m hm m' hm' hkey
  · intro a ha
    exact (hinv.m2s a ha).mono hgrow
  · intro f hf
    obtain ⟨hf3, c₀, hc₀⟩ := hinv.m3s f hf
    have hne : f.client ≠ id := by
      rintro rfl
      rw [hid] at hc₀
      cases hc₀
    exact ⟨hf3.mono hgrow, c₀, (Table.get_put_ne _ _ hne).trans hc₀⟩
  · intro d hd
    exact (hinv.completes d hd).mono hgrow

/-- A server with no entry that awaits its M3 beyond the backed ones can join or change its
roster. -/
theorem Inv.addServer (hinv : Inv P Honest net)
    (hs : ServerInv P net id s) : Inv P Honest (net.addServer id s) := by
  have hgrow : Grows net (net.addServer id s) :=
    ⟨fun _ h => h, fun _ h => h, fun _ h => h, fun _ h => h, fun _ h => h⟩
  refine ⟨?_, ?_, hinv.m1s, hinv.m1Keys, ?_, hinv.m2Keys, ?_, hinv.m3Clients, ?_, hinv.once⟩
  · intro id' c' hget
    exact (hinv.clients id' c' hget).mono hgrow fun f hf _ => hf
  · intro id' s' hget
    rcases get_put_cases hget with ⟨rfl, rfl⟩ | ⟨hne, hget⟩
    · exact hs.mono hgrow rfl
    · exact (hinv.servers id' s' hget).mono hgrow rfl
  · intro a ha
    exact (hinv.m2s a ha).mono hgrow
  · intro f hf
    exact ⟨(hinv.m3s f hf).1.mono hgrow, (hinv.m3s f hf).2⟩
  · intro d hd
    exact (hinv.completes d hd).mono hgrow

theorem serverInv_new (net : Net T) (id : ℕ) (cfg : ServerConfig T) (now : ℕ) :
    ServerInv P net id (ServerHandshake.new cfg now) := by
  refine ⟨ServerHandshake.pendingOk_new cfg now, fun sid e h => ?_⟩
  rw [ServerHandshake.new, Table.get_empty] at h
  cases h

theorem ServerInv.setRoster (hs : ServerInv P net id s)
    (roster : List T.SigPk) : ServerInv P net id (s.setRoster roster).2 := by
  have hp := s.setRoster_pending roster
  refine ⟨fun sid e h => hs.ok sid e (hp ▸ h), fun sid e h => hs.backed sid e (hp ▸ h)⟩

end Clients

section ClientSteps

variable {net : Net T} {id : ℕ} {c : ClientHandshake T} {pkt : WirePacket} {rand : T.KemRand}

theorem bodyOf_m3 {version : UInt8} (hv : version = protocolVersion) (sid : SessionId)
    {m3 : Bytes} (hlen : m3.length = m3BodyLen) :
    bodyOf (fragmentPacket hsTypeClientConfirm version m3FragCount sid m3 0) = m3 := by
  subst hv
  have hchunk : chunk hsFragBodyMax m3 0 = m3 := by
    rw [chunk, Nat.zero_mul]
    exact slice_self m3 (by rw [hlen]; decide)
  have hidx : 0 < m3FragCount.toNat := by decide
  simp only [bodyOf, fromDatagram_fragmentPacket layout_m3 sid hlen hidx, hchunk]

/-- A datagram moves a client to M3Sent, with an M2 it accepted, or leaves no record. -/
theorem m3sOf_cases (hok : c.Ok P fun _ _ => True) (id : ℕ) (pkt : WirePacket)
    (rand : T.KemRand) :
    (m3sOf P id c pkt (c.handleDatagram P pkt rand).1 = [] ∧
        ∀ asm attempts, (c.handleDatagram P pkt rand).2.state = .awaitM2 asm attempts →
          ∃ asm' attempts', c.state = .awaitM2 asm' attempts') ∨
      ∃ asm attempts m2Bytes m2 dhCs master key, c.state = .awaitM2 asm attempts ∧
        m2Bytes.length = m2BodyLen ∧
        ClientHandshake.Accepts P c m2Bytes rand m2 dhCs master key ∧
        (∀ asm attempts, (c.handleDatagram P pkt rand).2.state ≠ .awaitM2 asm attempts) ∧
        m3sOf P id c pkt (c.handleDatagram P pkt rand).1 =
          [m3Record P id c m2Bytes (m3For P c m2Bytes rand m2 key)
            (c.outcomeOf master)] := by
  have hmove := handleDatagram_move hok pkt rand
  generalize c.handleDatagram P pkt rand = r at hmove
  obtain ⟨ev, c'⟩ := r
  dsimp only at hmove ⊢
  cases hmove with
  | idle => exact Or.inl ⟨rfl, fun asm attempts h => ⟨asm, attempts, h⟩⟩
  | stored frag asm attempts hf hsid hstate | dropped frag asm fresh attempts hf hsid hstate
  | kdfFailed asm attempts e frag hf hsid hstate =>
    exact Or.inl ⟨rfl, fun _ _ _ => ⟨asm, attempts, hstate⟩⟩
  | finished frag asm attempts m2 dhCs master key hf hsid hstate hw hdone hacc =>
    right
    obtain ⟨len, hp⟩ := fromDatagram_ok hf
    have hholds := hok.awaits asm attempts hstate
    have hlen := (hholds.store hp hw trivial).len
    have hasm : assembledM2 c pkt = (asm.store frag).buffer := by
      simp only [assembledM2, hstate, hf, FragmentAssembler.addFragment_stored hholds hp hw,
        FragmentAssembler.message, hdone, if_true, Option.getD_some]
    refine ⟨asm, attempts, _, m2, dhCs, master, key, hstate, hlen, hacc, ?_, ?_⟩
    · intro asm' attempts' h
      cases h
    · simp only [m3sOf, hasm, m3FragsOf, List.head?_cons, Option.map_some,
        Option.getD_some, bodyOf_m3 hok.version c.sid (length_m3For ..)]

theorem grows_toClient (net : Net T) (id : ℕ) (c : ClientHandshake T) (pkt : WirePacket)
    (rand : T.KemRand) : Grows net (net.toClient P id c pkt rand) where
  kemPks _ h := h
  coins _ h := List.mem_cons_of_mem _ h
  m1s _ h := h
  m2s _ h := h
  m3s _ h := List.mem_append_right _ h

variable {c' : ClientHandshake T}

/-- A client replaced by a later state of itself leaves the others as they are. -/
theorem clients_put {net' : Net T} (hinv : Inv P Honest net) (hgrow : Grows net net')
    (hclients : net'.clients = net.clients.put id c')
    (hm3 : ∀ f ∈ net'.m3s, f ∈ net.m3s ∨ f.client = id) (hc' : ClientInv P net' id c') :
    ∀ id₁ c₁, net'.clients.get id₁ = some c₁ → ClientInv P net' id₁ c₁ := by
  intro id₁ c₁ hget
  rw [hclients] at hget
  rcases get_put_cases hget with ⟨rfl, rfl⟩ | ⟨hne, hget⟩
  · exact hc'
  · refine (hinv.clients id₁ c₁ hget).mono hgrow fun f hf hid => ?_
    rcases hm3 f hf with hf | hf
    · exact hf
    · exact absurd (hid.symm.trans hf) hne

theorem exists_put {t : Table ℕ (ClientHandshake T)} {id' : ℕ}
    (h : ∃ c, t.get id' = some c) : ∃ c, (t.put id c').get id' = some c := by
  rw [Table.get_put]
  split_ifs
  · exact ⟨c', rfl⟩
  · exact h

theorem ClientInv.withState {net' : Net T} (hc : ClientInv P net id c) (hgrow : Grows net net')
    (hok : c'.Ok P fun _ _ => True) (hframe : ∃ st, c' = { c with state := st })
    (hsilent : ∀ asm attempts, c'.state = .awaitM2 asm attempts → ∀ f ∈ net'.m3s,
      f.client ≠ id) : ClientInv P net' id c' := by
  obtain ⟨m, hm, horig⟩ := hc.origin
  obtain ⟨st, rfl⟩ := hframe
  exact ⟨hok, ⟨m, hgrow.m1s m hm, horig⟩, hsilent⟩

/-- A datagram to a client keeps the invariant: it records at most one M3, once. -/
theorem Inv.toClient (hinv : Inv P Honest net) (hget : net.clients.get id = some c)
    (hsig : ∀ f ∈ m3sOf P id c pkt (c.handleDatagram P pkt rand).1,
      Honest f.outcome.peerIdentity →
        net.Signed P f.outcome.peerIdentity (P.sha256 (th2Input f.m1 f.m2))) :
    Inv P Honest (net.toClient P id c pkt rand) := by
  have hgrow := grows_toClient (P := P) net id c pkt rand
  have hc := hinv.clients id c hget
  have hmove := handleDatagram_move hc.ok pkt rand
  have hok' := hmove.ok hc.ok fun _ _ _ _ => trivial
  have hservers : ∀ id₁ s, (net.toClient P id c pkt rand).servers.get id₁ = some s →
      ServerInv P (net.toClient P id c pkt rand) id₁ s :=
    fun id₁ s h => (hinv.servers id₁ s h).mono hgrow rfl
  rcases m3sOf_cases hc.ok id pkt rand with ⟨hnone, hstate⟩ |
    ⟨asm, attempts, m2Bytes, m2, dhCs, master, key, hstate, hlen, hacc, hleft, hrec⟩
  · have hm3s : (net.toClient P id c pkt rand).m3s = net.m3s := by
      simp only [Net.toClient, hnone, List.nil_append]
    refine ⟨clients_put hinv hgrow rfl (fun f hf => Or.inl (hm3s ▸ hf)) ?_, hservers, hinv.m1s,
      hinv.m1Keys, fun a ha => (hinv.m2s a ha).mono hgrow, hinv.m2Keys, ?_, ?_,
      fun d hd => (hinv.completes d hd).mono hgrow, hinv.once⟩
    · refine hc.withState hgrow hok' hmove.frame fun asm attempts hst f hf => ?_
      obtain ⟨asm', attempts', hst'⟩ := hstate asm attempts hst
      exact hc.silent asm' attempts' hst' f (hm3s ▸ hf)
    · intro f hf
      rw [hm3s] at hf
      exact ⟨(hinv.m3s f hf).1.mono hgrow, exists_put (hinv.m3s f hf).2⟩
    · rw [hm3s]
      exact hinv.m3Clients
  · rw [hrec] at hsig
    have hm3s : (net.toClient P id c pkt rand).m3s =
        m3Record P id c m2Bytes (m3For P c m2Bytes rand m2 key)
          (c.outcomeOf master) :: net.m3s := by
      simp only [Net.toClient, hrec, List.singleton_append]
    have hquiet := hc.silent asm attempts hstate
    refine ⟨clients_put hinv hgrow rfl ?_ ?_, hservers, hinv.m1s, hinv.m1Keys,
      fun a ha => (hinv.m2s a ha).mono hgrow, hinv.m2Keys, ?_, ?_,
      fun d hd => (hinv.completes d hd).mono hgrow, hinv.once⟩
    · intro f hf
      rw [hm3s] at hf
      rcases List.mem_cons.mp hf with rfl | hf
      · exact Or.inr rfl
      · exact Or.inl hf
    · exact hc.withState hgrow hok' hmove.frame fun asm attempts hst => absurd hst (hleft _ _)
    · intro f hf
      rw [hm3s] at hf
      rcases List.mem_cons.mp hf with rfl | hf
      · obtain ⟨m, hm, hclient, hident, hhello⟩ := hc.origin
        refine ⟨⟨⟨m, hm, hclient, hident, hhello ▸ rfl⟩, hlen, fun hh => ?_⟩,
          _, Table.get_put_self ..⟩
        exact hgrow.signed (hsig _ (List.mem_singleton_self _) hh)
      · exact ⟨(hinv.m3s f hf).1.mono hgrow, exists_put (hinv.m3s f hf).2⟩
    · rw [hm3s]
      intro f hf f' hf' heq
      rcases List.mem_cons.mp hf with rfl | hf <;> rcases List.mem_cons.mp hf' with rfl | hf'
      · rfl
      · exact absurd heq.symm (hquiet f' hf')
      · exact absurd heq (hquiet f hf)
      · exact hinv.m3Clients f hf f' hf' heq

theorem Inv.clientTimer (hinv : Inv P Honest net) (hget : net.clients.get id = some c) :
    Inv P Honest (net.clientTimer id c) := by
  have hgrow : Grows net (net.clientTimer id c) :=
    ⟨fun _ h => h, fun _ h => h, fun _ h => h, fun _ h => h, fun _ h => h⟩
  have hc := hinv.clients id c hget
  have hc' : ClientInv P (net.clientTimer id c) id c.onTimer.2 := by
    rcases c.onTimer_cases with h | ⟨asm, attempts, hst, h⟩ | ⟨frags, attempts, o, hst, h⟩ <;>
      rw [h]
    · exact hc.mono hgrow fun f hf _ => hf
    · refine hc.withState hgrow (hc.ok.withState fun asm' attempts' heq => ?_) ⟨_, rfl⟩ ?_
      · obtain ⟨rfl, -⟩ := ClientState.awaitM2.inj heq
        exact hc.ok.awaits asm attempts hst
      · exact fun _ _ _ => hc.silent asm attempts hst
    · refine hc.withState hgrow (hc.ok.withState fun asm' attempts' heq => ?_) ⟨_, rfl⟩ ?_
      · cases heq
      · intro asm' attempts' heq
        cases heq
  refine ⟨clients_put hinv hgrow rfl (fun f hf => Or.inl hf) hc', ?_, hinv.m1s, hinv.m1Keys, ?_,
    hinv.m2Keys, ?_, hinv.m3Clients, ?_, hinv.once⟩
  · exact fun id₁ s h => (hinv.servers id₁ s h).mono hgrow rfl
  · exact fun a ha => (hinv.m2s a ha).mono hgrow
  · exact fun f hf => ⟨(hinv.m3s f hf).1.mono hgrow, exists_put (hinv.m3s f hf).2⟩
  · exact fun d hd => (hinv.completes d hd).mono hgrow

end ClientSteps

section ServerSteps
open ServerHandshake

variable {net : Net T} {id : ℕ} {s : ServerHandshake T} {pkt : WirePacket} {src : SocketAddr}
  {clock : Clock} {draw : ServerDraw T}

theorem grows_toServer (net : Net T) (id : ℕ) (s : ServerHandshake T) (pkt : WirePacket)
    (src : SocketAddr) (clock : Clock) (draw : ServerDraw T) :
    Grows net (net.toServer P id s pkt src clock draw) where
  kemPks _ h := List.mem_cons_of_mem _ h
  coins _ h := List.mem_cons_of_mem _ h
  m1s _ h := h
  m2s _ h := List.mem_append_right _ h
  m3s _ h := h

def m2Record (P : Primitives T) (id : ℕ) (cfg : ServerConfig T) (sid : SessionId)
    (client : T.SigPk) (hello : ClientHello T) (m1 : Bytes) (draw : ServerDraw T) : M2Sent T where
  server := id
  sid := sid
  identity := cfg.identity
  client := some client
  m1 := m1
  m2 := m2For P cfg sid hello m1 draw
  draw := draw

theorem m2sOf_answered (id : ℕ) {s' : ServerHandshake T} {sid : SessionId} {entry : PendingSession T}
    {client : T.SigPk} {hello : ClientHello T} {m1 : Bytes} {dhCs : Secret} {now : ℕ}
    (hget : s.pending.get sid = some entry) (hstate : entry.state = .awaitM1)
    (hget' : s'.pending.get sid =
      some (answeredEntry P s.cfg sid entry m1 draw hello client dhCs now)) :
    m2sOf id s s' sid draw = [m2Record P id s.cfg sid client hello m1 draw] := by
  simp only [m2sOf, hget, hget', hstate, answeredEntry, and_self, if_true, Option.getD_some,
    m2Record]

variable {a : M2Sent T}

/-- Every M2 on record was signed for a verified M1. -/
theorem m2sOf_cases (hok : PendingOk s)
    (ha : a ∈ m2sOf id s (s.handleDatagram P pkt src clock draw).2 pkt.sid draw) :
    ∃ m1 client dhCs m1Bytes, Answered P s.cfg pkt.sid m1Bytes draw m1 client dhCs ∧
      a = m2Record P id s.cfg pkt.sid client m1 m1Bytes draw := by
  have ha' := ha
  unfold m2sOf at ha
  split at ha
  · rename_i e e' hget hget'
    split at ha
    swap
    · cases ha
    rename_i hst
    cases (handleDatagram_does hok pkt src clock draw).1.entryStep hget' with
    | kept _ hkept =>
      obtain rfl := Option.mem_unique hget hkept
      rw [hst.1] at hst
      cases hst.2
    | opened => cases hst.2
    | stored frag entry asm lastSeen hsid hto hstate =>
      replace hst := hst.2
      rw [show ({ entry with assembler := _, lastSeen := _ } : PendingSession T).state =
        entry.state from rfl, hstate] at hst
      cases hst
    | answered frag entry asm m1 client dhCs hsid hto hstate hasm hawait hdone hans =>
      rw [← hsid] at ha' hget' ⊢
      rw [m2sOf_answered id hto.get hstate hget'] at ha'
      exact ⟨m1, client, dhCs, _, hans, List.mem_singleton.mp ha'⟩
    | resent frag entry hsid hto hstate =>
      rw [← hsid, hto.get] at hget
      obtain rfl := Option.some.inj hget
      rw [hstate] at hst
      cases hst.1
  · cases ha

/-- Every Complete on record confirmed a pending entry. -/
theorem completesOf_cases (hok : PendingOk s) {d : Completed T}
    (hd : d ∈ completesOf id s pkt (s.handleDatagram P pkt src clock draw).1) :
    ∃ frag entry m3 skS finishedKey, d.server = id ∧ d.m3 = frag.body ∧
      d.outcome.sessionId = frag.sid ∧
      Addressed s pkt src clock hsTypeClientConfirm frag entry ∧
      Confirmed P s.cfg frag entry m3 skS d.m1 d.m2 d.outcome.master finishedKey
        d.outcome.peerIdentity ∧
      (s.handleDatagram P pkt src clock draw).2.pending.get frag.sid = none := by
  have hmove := (handleDatagram_does (P := P) hok pkt src clock draw).1
  generalize s.handleDatagram P pkt src clock draw = r at hd hmove
  obtain ⟨ev, s'⟩ := r
  dsimp only at hd hmove ⊢
  unfold completesOf at hd
  split at hd
  · rename_i o
    obtain rfl := List.mem_singleton.mp hd
    obtain ⟨frag, entry, m3, skS, m1, m2, key, hto, hconf, -, hsid, hgone⟩ := hmove.of_complete
    refine ⟨frag, entry, m3, skS, key, rfl, ?_, hsid, hto, ?_, ?_⟩
    · simp only [bodyOf, hto.parsed]
    · simpa only [hsid, hto.get, Option.bind_some, hconf.m1Body, hconf.m2Cache,
        Option.getD_some] using hconf
    · rw [hgone]
      exact Table.get_remove_self ..
  · cases hd

theorem M2Ok.length_m1 (h : M2Ok P Honest net a) : a.m1.length = m1BodyLen := by
  obtain ⟨hello, hdec⟩ := h.decoded
  exact (ClientHello.decode_ok hdec).len

theorem M2Ok.length_m2 (h : M2Ok P Honest net a) : a.m2.length = m2BodyLen := by
  obtain ⟨version, xS, ct2, sig, henc⟩ := h.encoded
  rw [henc, length_encodeM2]

/-- Two recorded M2s with the same signed bytes are one and the same. -/
theorem Inv.m2_unique (hpk : KemPkRoundTrip P) (hinv : Inv P Honest net) {a' : M2Sent T}
    (ha : a ∈ net.m2s) (ha' : a' ∈ net.m2s) (h : m2Zero a.m2 = m2Zero a'.m2) : a = a' := by
  obtain ⟨version, xS, ct2, sig, henc⟩ := (hinv.m2s a ha).encoded
  obtain ⟨version', xS', ct2', sig', henc'⟩ := (hinv.m2s a' ha').encoded
  rw [henc, henc'] at h
  exact hinv.m2Keys a ha a' ha' (m2Zero_ephPk_inj hpk h)

/-- The attacker cannot derive a master to which an honest client's key and a server's coin
contributed. -/
theorem not_derivable (hinv : Inv P Honest net) (ha : a ∈ net.m2s) {m : M1Sent T} (hm : m ∈ net.m1s)
    {hello : ClientHello T} (hkey : hello.ephPkC = m.hello.ephPkC)
    (ct3 : MlKemCiphertext) : ¬ (a.masterTerm hello ct3).Derivable P (net.attacker P) := by
  rintro ⟨hss, -, -⟩
  have hpk := hinv.m1s m hm
  have hcoin := (hinv.m2s a ha).coin
  rw [M2Sent.masterTerm, hkey] at hss
  generalize m.hello.ephPkC = pk at hss hpk
  cases hss with
  | ownCoin _ _ h => exact h hcoin
  | ownKey sk _ h => exact h hpk

/-- The core of agreement: a confirmed answer to an honest client comes from that client. -/
theorem Inv.agreement (hpk : KemPkRoundTrip P) (hinv : Inv P Honest net) {net' : Net T}
    (hnc : NoCollision P net') (hgrow : Grows net net') {d : Completed T} (hd : d ∈ net'.completes)
    (ha : a ∈ net.m2s) (hm1 : a.m1 = d.m1) (hm2 : a.m2 = d.m2)
    (hclient : a.client = some d.outcome.peerIdentity) (hhonest : Honest d.outcome.peerIdentity)
    {hello : ClientHello T} (hdec : ClientHello.decode P a.m1 = .ok hello) {ct3 : MlKemCiphertext}
    (hideal : (a.masterTerm hello ct3).Derivable P (net.attacker P) ∨ ∃ f ∈ net.m3s,
      finishedKeyOf P (f.outcome.master, f.outcome.sessionId) =
        finishedKeyOf P (d.outcome.master, d.outcome.sessionId) ∧
      P.sha256 (th3Input f.m1 f.m2 f.m3) = P.sha256 (th3Input d.m1 d.m2 d.m3)) :
    ∃ f ∈ net.m3s, P.verifyingKey f.identity = d.outcome.peerIdentity ∧ Agrees d f := by
  have haok := hinv.m2s a ha
  -- the client that signed this M1
  obtain ⟨m, hm, hident, hm1z⟩ : ∃ m ∈ net.m1s, P.verifyingKey m.identity =
      d.outcome.peerIdentity ∧ m1Zero a.m1 = m1Zero (m.hello.encode P) := by
    have hin : th1Input a.m1 ∈ net'.hashed P := Or.inr (Or.inl ⟨a, hgrow.m2s a ha, Or.inl rfl⟩)
    rcases haok.signed _ hclient hhonest with ⟨m, hm, hident, hth⟩ | ⟨a', ha', -, hth⟩
    · have hin' : th1Input (m.hello.encode P) ∈ net'.hashed P := Or.inl ⟨m, hgrow.m1s m hm, rfl⟩
      exact ⟨m, hm, hident, th1Input_inj (hnc.hash hin hin' hth)⟩
    · have hin' : th2Input a'.m1 a'.m2 ∈ net'.hashed P :=
        Or.inr (Or.inl ⟨a', hgrow.m2s a' ha', Or.inr rfl⟩)
      have hok' := hinv.m2s a' ha'
      exact absurd (hnc.hash hin hin' hth)
        (th1Input_ne_th2Input haok.length_m1 hok'.length_m1 hok'.length_m2)
  have hkey : hello.ephPkC = m.hello.ephPkC := ephPkC_of_m1Zero hpk hdec hm1z
  -- the attacker has no master, so a client computed the Finished value
  obtain ⟨f, hf, hfin, hth3⟩ := hideal.resolve_left (not_derivable hinv ha hm hkey ct3)
  obtain ⟨hfok, -⟩ := hinv.m3s f hf
  obtain ⟨mf, hmf, -, hfident, hfm1⟩ := hfok.origin
  have hf3 : th3Input f.m1 f.m2 f.m3 ∈ net'.hashed P :=
    Or.inr (Or.inr (Or.inl ⟨f, hgrow.m3s f hf, Or.inr rfl⟩))
  have hd3 : th3Input d.m1 d.m2 d.m3 ∈ net'.hashed P := Or.inr (Or.inr (Or.inr ⟨d, hd, rfl⟩))
  have hlen1 : f.m1.length = m1BodyLen := by
    rw [hfm1]
    exact length_m1 _
  obtain ⟨h1, h2, h3⟩ := th3Input_inj hlen1 (hm1 ▸ haok.length_m1) hfok.length
    (hm2 ▸ haok.length_m2) (hnc.hash hf3 hd3 hth3)
  have hmasters := hnc.kdf (Or.inl ⟨f, hgrow.m3s f hf, rfl⟩) (Or.inr ⟨d, hd, rfl⟩) hfin
  -- the run that sent the M3 is the run that signed the M1
  have hsame : mf = m := by
    apply hinv.m1Keys mf hmf m hm
    apply m1Zero_ephPk_inj hpk
    exact (hfm1 ▸ h1).trans (hm1 ▸ hm1z)
  refine ⟨f, hf, ?_, (Prod.mk.inj hmasters).2, h1, h2, h3, (Prod.mk.inj hmasters).1⟩
  rw [← hfident, hsame]
  exact hident

theorem m2sOf_unique {s' : ServerHandshake T} {sid : SessionId} {a' : M2Sent T}
    (ha : a ∈ m2sOf id s s' sid draw) (ha' : a' ∈ m2sOf id s s' sid draw) : a = a' := by
  have hshort : m2sOf id s s' sid draw = [] ∨ ∃ b, m2sOf id s s' sid draw = [b] := by
    unfold m2sOf
    split
    · split_ifs
      · exact Or.inr ⟨_, rfl⟩
      · exact Or.inl rfl
    · exact Or.inl rfl
  rcases hshort with h | ⟨b, h⟩ <;> rw [h] at ha ha'
  · cases ha
  · rw [List.mem_singleton.mp ha, List.mem_singleton.mp ha']

theorem completesOf_pairwise (r : Except (Fault HandshakeV2Error) (ServerEvent T)) :
    (completesOf id s pkt r).Pairwise fun d d' => m2Zero d.m2 ≠ m2Zero d'.m2 := by
  unfold completesOf
  split
  · exact List.pairwise_singleton ..
  · exact List.Pairwise.nil

/-- The answer behind a new Complete: it was unused, and its entry is gone now. -/
structure Consumes (net : Net T) (id : ℕ) (s' : ServerHandshake T) (d : Completed T)
    (a : M2Sent T) : Prop where
  mem : a ∈ net.m2s
  server : a.server = id
  m1 : a.m1 = d.m1
  m2 : a.m2 = d.m2
  free : ∀ d' ∈ net.completes, m2Zero d'.m2 ≠ m2Zero a.m2
  gone : s'.pending.get a.sid = none

theorem ServerInv.consumes (hs : ServerInv P net id s) {d : Completed T}
    (hd : d ∈ completesOf id s pkt (s.handleDatagram P pkt src clock draw).1) :
    ∃ a, Consumes net id (s.handleDatagram P pkt src clock draw).2 d a ∧
      d.server = id ∧ a.client = some d.outcome.peerIdentity ∧
      (FinishedIdeal P net d → ∃ hello ct3, ClientHello.decode P a.m1 = .ok hello ∧
        ((a.masterTerm hello ct3).Derivable P (net.attacker P) ∨
          ∃ f ∈ net.m3s, finishedKeyOf P (f.outcome.master, f.outcome.sessionId) =
              finishedKeyOf P (d.outcome.master, d.outcome.sessionId) ∧
            P.sha256 (th3Input f.m1 f.m2 f.m3) = P.sha256 (th3Input d.m1 d.m2 d.m3))) := by
  obtain ⟨frag, entry, m3, skS, key, hserver, hm3, hsid, hto, hconf, hgone⟩ :=
    completesOf_cases hs.ok hd
  obtain ⟨a, ha, hback, hfree⟩ := hs.backed frag.sid entry hto.get hconf.state
  have hm1 : a.m1 = d.m1 := Option.mem_unique hback.m1Body hconf.m1Body
  have hm2 : a.m2 = d.m2 := Option.mem_unique hback.m2Cache hconf.m2Cache
  refine ⟨a, ⟨ha, hback.server, hm1, hm2, hfree, hback.sid ▸ hgone⟩, hserver,
    hback.client.symm.trans hconf.verifiedClient, fun hideal => ?_⟩
  obtain ⟨hello, hdec, hssA, hdh⟩ := hback.secrets
  have hsk : skS = a.draw.kemSk := Option.mem_unique hconf.ephemeral hback.skS
  refine ⟨hello, m3.ct3, hdec, ?_⟩
  refine hideal a ha hello m3 (hback.server.trans hserver.symm) hm2 hdec (hm3 ▸ hconf.decoded) ?_
  have hder := hconf.derived
  rw [hssA, hdh, hsk, ← hm3, ← hsid] at hder
  exact hder

theorem m2Record_ok {net' : Net T} {m1 : ClientHello T} {client : T.SigPk} {dhCs : Secret}
    {m1Bytes : Bytes} (hans : Answered P s.cfg pkt.sid m1Bytes draw m1 client dhCs)
    (hkey : P.kemPublic draw.kemSk ∈ net'.kemPks) (hcoin : draw.rand ∈ net'.coins)
    (hsig : Honest client → net'.Signed P client (P.sha256 (th1Input m1Bytes))) :
    M2Ok P Honest net' (m2Record P id s.cfg pkt.sid client m1 m1Bytes draw) := by
  refine ⟨⟨m1, hans.decoded⟩, exists_m2For .., hkey, hcoin, fun pk hpk hh => ?_⟩
  obtain rfl : client = pk := Option.some.inj hpk
  exact hsig hh

/-- Every entry that awaits its M3 after the step is backed by an unused M2. -/
theorem ServerInv.step (hpk : KemPkRoundTrip P) (hinv : Inv P Honest net)
    (hs : ServerInv P net id s) (hkem : P.kemPublic draw.kemSk ∉ net.kemPks) :
    ServerInv P (net.toServer P id s pkt src clock draw) id
      (s.handleDatagram P pkt src clock draw).2 := by
  have hgrow := grows_toServer (P := P) net id s pkt src clock draw
  refine ⟨pendingOk_handleDatagram hs.ok pkt src clock draw, fun sid e hget hst => ?_⟩
  have hold : ∀ {e₀}, s.pending.get sid = some e₀ → e₀.state = .awaitM3 →
      ∃ a ∈ (net.toServer P id s pkt src clock draw).m2s, Backed P id sid e₀ a ∧
        ∀ d ∈ (net.toServer P id s pkt src clock draw).completes, m2Zero d.m2 ≠ m2Zero a.m2 := by
    intro e₀ hget₀ hst₀
    obtain ⟨a, ha, hback, hfree⟩ := hs.backed sid e₀ hget₀ hst₀
    refine ⟨a, hgrow.m2s a ha, hback, fun d hd heq => ?_⟩
    rcases List.mem_append.mp hd with hd | hd
    · obtain ⟨a', hcons, -⟩ := hs.consumes hd
      rw [← hcons.m2] at heq
      obtain rfl := hinv.m2_unique hpk hcons.mem ha heq
      have hgone := hcons.gone
      rw [hback.sid, hget] at hgone
      cases hgone
    · exact hfree d hd heq
  cases (handleDatagram_does hs.ok pkt src clock draw).1.entryStep hget with
  | kept _ hkept => exact hold hkept hst
  | opened => cases hst
  | stored frag entry asm lastSeen hsid hto hstate => exact absurd (hstate.symm.trans hst) (by decide)
  | answered frag entry asm m1 client dhCs hsid hto hstate hasm hawait hdone hans =>
    subst hsid
    have hpktsid : frag.sid = pkt.sid := by
      obtain ⟨len, hp⟩ := fromDatagram_ok hto.parsed
      exact hp.sid
    have hrec := m2sOf_answered id hto.get hstate hget
    have hmem : m2Record P id s.cfg frag.sid client m1 (asm.store frag).buffer draw ∈
        (net.toServer P id s pkt src clock draw).m2s := by
      apply List.mem_append_left
      rw [← hpktsid, hrec]
      exact List.mem_singleton_self _
    have hdh : dhCs = P.xShared draw.xSk m1.xC := by
      have hag := hans.agreed
      unfold Primitives.diffieHellman at hag
      split_ifs at hag
      exact (Option.some.inj hag).symm
    refine ⟨_, hmem, ⟨rfl, rfl, rfl, rfl, rfl, rfl, m1, hans.decoded, rfl, hdh⟩, fun d hd heq => ?_⟩
    -- a used M2 carries a key drawn earlier, this one carries a fresh key
    obtain ⟨a', ha', hm2⟩ : ∃ a' ∈ net.m2s, a'.m2 = d.m2 := by
      rcases List.mem_append.mp hd with hd | hd
      · obtain ⟨a', hcons, -⟩ := hs.consumes hd
        exact ⟨a', hcons.mem, hcons.m2⟩
      · obtain ⟨a', ha', -, -, hm2⟩ := (hinv.completes d hd).answer
        exact ⟨a', ha', hm2⟩
    obtain ⟨version, xS, ct2, sig, henc⟩ := (hinv.m2s a' ha').encoded
    obtain ⟨version', xS', ct2', sig', henc'⟩ :=
      exists_m2For (P := P) s.cfg frag.sid m1 (asm.store frag).buffer draw
    replace heq : m2Zero d.m2 = m2Zero (m2For P s.cfg frag.sid m1 (asm.store frag).buffer draw) :=
      heq
    rw [← hm2, henc, henc'] at heq
    have hkeys := m2Zero_ephPk_inj hpk heq
    exact hkem (hkeys ▸ (hinv.m2s a' ha').key)
  | resent frag entry hsid hto hstate =>
    subst hsid
    obtain ⟨a, ha, hback, hfree⟩ := hold hto.get hstate
    exact ⟨a, ha, ⟨hback.server, hback.sid, hback.m1Body, hback.m2Cache, hback.client, hback.skS,
      hback.secrets⟩, hfree⟩

/-- A datagram to a server keeps the invariant. -/
theorem Inv.toServer (hpk : KemPkRoundTrip P) (hinv : Inv P Honest net)
    (hget : net.servers.get id = some s) (hkem : P.kemPublic draw.kemSk ∉ net.kemPks)
    (hsig : ∀ a ∈ m2sOf id s (s.handleDatagram P pkt src clock draw).2 pkt.sid draw,
      ∀ pk, a.client = some pk → Honest pk → net.Signed P pk (P.sha256 (th1Input a.m1)))
    (hmac : ∀ d ∈ completesOf id s pkt (s.handleDatagram P pkt src clock draw).1,
      FinishedIdeal P net d)
    (hnc : NoCollision P (net.toServer P id s pkt src clock draw)) :
    Inv P Honest (net.toServer P id s pkt src clock draw) := by
  have hgrow := grows_toServer (P := P) net id s pkt src clock draw
  have hs := hinv.servers id s hget
  refine ⟨?_, ?_, ?_, hinv.m1Keys, ?_, ?_, ?_, hinv.m3Clients, ?_, ?_⟩
  · intro id₁ c hc
    exact (hinv.clients id₁ c hc).mono hgrow fun f hf _ => hf
  · intro id₁ s₁ hs₁
    rcases get_put_cases hs₁ with ⟨rfl, rfl⟩ | ⟨hne, hs₁⟩
    · exact ServerInv.step hpk hinv hs hkem
    · have hother := hinv.servers id₁ s₁ hs₁
      refine ⟨hother.ok, fun sid e he hst => ?_⟩
      obtain ⟨a, ha, hback, hfree⟩ := hother.backed sid e he hst
      refine ⟨a, hgrow.m2s a ha, hback, fun d hd heq => ?_⟩
      rcases List.mem_append.mp hd with hd | hd
      · obtain ⟨a', hcons, -⟩ := hs.consumes hd
        rw [← hcons.m2] at heq
        obtain rfl := hinv.m2_unique hpk hcons.mem ha heq
        exact hne (hback.server.symm.trans hcons.server)
      · exact hfree d hd heq
  · intro m hm
    exact List.mem_cons_of_mem _ (hinv.m1s m hm)
  · intro a ha
    rcases List.mem_append.mp ha with ha | ha
    · obtain ⟨m1, client, dhCs, m1Bytes, hans, rfl⟩ := m2sOf_cases hs.ok ha
      exact m2Record_ok hans List.mem_cons_self List.mem_cons_self
        fun hh => hgrow.signed (hsig _ ha client rfl hh)
    · exact (hinv.m2s a ha).mono hgrow
  · intro a ha a' ha' heq
    rcases List.mem_append.mp ha with ha | ha <;> rcases List.mem_append.mp ha' with ha' | ha'
    · exact m2sOf_unique ha ha'
    · obtain ⟨m1, client, dhCs, m1Bytes, -, rfl⟩ := m2sOf_cases hs.ok ha
      exact absurd (heq ▸ (hinv.m2s a' ha').key) hkem
    · obtain ⟨m1, client, dhCs, m1Bytes, -, rfl⟩ := m2sOf_cases hs.ok ha'
      exact absurd (heq ▸ (hinv.m2s a ha).key) hkem
    · exact hinv.m2Keys a ha a' ha' heq
  · intro f hf
    exact ⟨(hinv.m3s f hf).1.mono hgrow, (hinv.m3s f hf).2⟩
  · intro d hd
    rcases List.mem_append.mp hd with hnew | hold
    · obtain ⟨a, hcons, hserver, hclient, hideal⟩ := hs.consumes hnew
      refine ⟨⟨a, hgrow.m2s a hcons.mem, hcons.server.trans hserver.symm, hcons.m1, hcons.m2⟩,
        fun hh => ?_⟩
      obtain ⟨hello, ct3, hdec, hcase⟩ := hideal (hmac d hnew)
      exact hinv.agreement hpk hnc hgrow hd hcons.mem hcons.m1 hcons.m2 hclient hh hdec hcase
    · exact (hinv.completes d hold).mono hgrow
  · refine List.pairwise_append.mpr ⟨completesOf_pairwise _, hinv.once, fun d hd d' hd' heq => ?_⟩
    obtain ⟨a, hcons, -⟩ := hs.consumes hd
    exact hcons.free d' hd' (heq.symm.trans (congrArg m2Zero hcons.m2.symm))

end ServerSteps

theorem Step.inv (hpk : KemPkRoundTrip P) {net net' : Net T} (hinv : Inv P Honest net)
    (hstep : Step P Honest net net') (hnc : NoCollision P net') : Inv P Honest net' := by
  cases hstep with
  | newClient id cfg sid kemSk xSk c hid hkem hx hnew => exact hinv.addClient hid hkem hnew
  | newServer id cfg now hid => exact hinv.addServer (serverInv_new net id cfg now)
  | toClient id c pkt rand hget hcoin hsig => exact hinv.toClient hget hsig
  | clientTimer id c hget => exact hinv.clientTimer hget
  | toServer id s pkt src clock draw hget hkem hx hcoin hsig hmac =>
    exact hinv.toServer hpk hget hkem hsig hmac hnc
  | setRoster id s roster hget => exact hinv.addServer ((hinv.servers id s hget).setRoster roster)

theorem Reached.inv (hpk : KemPkRoundTrip P) {net : Net T} (h : Reached P Honest net) :
    Inv P Honest net ∧ NoCollision P net := by
  refine Reach.invariant (I := fun net => Inv P Honest net ∧ NoCollision P net) ?_ ?_ h
  · rintro net rfl
    refine ⟨inv_empty, ⟨?_, ?_⟩⟩
    · intro x hx
      simp [Net.hashed, Net.empty] at hx
    · intro x hx
      simp [Net.masters, Net.empty] at hx
  · rintro net a net' - ⟨hinv, -⟩ ⟨hstep, hnc⟩
    exact ⟨hstep.inv hpk hinv hnc, hnc⟩

theorem noCollision_of_silent {net : Net T} (h2 : net.m2s = []) (h3 : net.m3s = [])
    (hc : net.completes = []) {m : M1Sent T} (h1 : ∀ m' ∈ net.m1s, m' = m) :
    NoCollision P net := by
  constructor
  · rintro x hx y hy -
    simp only [Net.hashed, h2, h3, hc, List.not_mem_nil, false_and, exists_false, or_false,
      Set.mem_ofPred_eq] at hx hy
    obtain ⟨m', hm', rfl⟩ := hx
    obtain ⟨m'', hm'', rfl⟩ := hy
    rw [h1 m' hm', h1 m'' hm'']
  · rintro x hx
    simp [Net.masters, h3, hc] at hx

end PqTunnel.Network
