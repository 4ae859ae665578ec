import PqTunnel.Manager.Establish

/-! Which datagrams the server manager answers: everything else is dropped in silence. -/
namespace PqTunnel.ServerSessionManager
open ServerHandshake

variable {T : CryptoTypes} {P : Primitives T} {m : ServerSessionManager T} {pkt : WirePacket}
  {src : SocketAddr} {clock : Clock} {now : ℕ} {draw : ServerDraw T} {order : List SessionId}

def sentPackets (r : Except (Fault ManagerError) ManagerEvent) : List (WirePacket × SocketAddr) :=
  (returned r).flatMap ManagerEvent.packets

/-- The packet is authentic on a live session, new to its replay window, and a probe. -/
structure Probe (P : Primitives T) (entry : SessionEntry) (pkt : WirePacket) : Prop where
  authentic : ∃ header plaintext inner, pkt.parseHeader = .ok header ∧
    entry.session.cipher.openPacket P pkt header.packetNonce = .ok plaintext ∧
    (∃ w, entry.session.cipher.replay.accept header.packetNonce = (.ok (), w)) ∧
    InnerPlaintext.decode plaintext = .ok inner ∧ inner.msgType = .handshake ∧
    inner.payload.toList.getD 0 0 = Control.probe

/-- The three answers of a manager whose handshake machine began as `s` and took these calls. -/
inductive Answer (P : Primitives T) (s : ServerHandshake T)
    (calls : List (ServerHandshake.Call T)) (m : ServerSessionManager T) (pkt : WirePacket)
    (src : SocketAddr) (draw : ServerDraw T) : List WirePacket → Prop where
  | freshM2 (sid : SessionId) (m1 : Bytes) (client : T.SigPk) (hello : ClientHello T)
      (hcompletes : M1Completes P m.hs pkt src sid m1 client)
      (hdecoded : ClientHello.decode P m1 = .ok hello) :
      Answer P s calls m pkt src draw
        (m2Frags m.hs.cfg.version sid (m2For P m.hs.cfg sid hello m1 draw))
  | cachedM2 (frag : HandshakeFragment) (entry : PendingSession T) (m1 m2 : Bytes)
      (client : T.SigPk) (hparsed : HandshakeFragment.fromDatagram pkt = .ok frag)
      (htype : frag.hsType = hsTypeClientHello) (hidx : frag.fragIdx = 0)
      (hget : m.hs.pending.get frag.sid = some entry) (hsrc : entry.source = src)
      (hm1 : entry.m1Body = some m1) (hm2 : entry.m2Cache = some m2)
      (hverified : Origin P s calls src frag.sid m1 client) :
      Answer P s calls m pkt src draw (m2Frags m.hs.cfg.version frag.sid m2)
  | ack (entry : SessionEntry) (packet : WirePacket) (session : WireSession)
      (hget : m.sessions.get pkt.sid = some entry) (hprobe : Probe P entry pkt)
      (hack : (entry.session.decrypt P pkt).2.encrypt P .handshake (Control.slot Control.ack) =
        (.ok packet, session)) :
      Answer P s calls m pkt src draw [packet]

/-- The call sends nothing, or it sends one of the answers to the source of the datagram. -/
def Answers (P : Primitives T) (s : ServerHandshake T) (calls : List (ServerHandshake.Call T))
    (m : ServerSessionManager T) (pkt : WirePacket) (src : SocketAddr) (draw : ServerDraw T)
    (r : Except (Fault ManagerError) ManagerEvent) : Prop :=
  sentPackets r = [] ∨
    ∃ packets, sentPackets r = packets.map (·, src) ∧ Answer P s calls m pkt src draw packets

section Handshake

variable {s : ServerHandshake T} {calls : List (ServerHandshake.Call T)}

/-- The handshake machine answers a fragment 0 from the cache, or a fragment that completes a
verified M1. -/
theorem handshake_answers
    (hacc : ∀ sid e, m.hs.pending.get sid = some e → Accounted P s calls sid e)
    {packets : List WirePacket} {dest : SocketAddr} {hs : ServerHandshake T}
    (h : m.hs.handleDatagram P pkt src clock draw = (.ok (.emit packets dest), hs)) :
    dest = src ∧ Answer P s calls m pkt src draw packets := by
  have hok : PendingOk m.hs := fun sid e hget => (hacc sid e hget).ok
  have hmove := (handleDatagram_does (P := P) hok pkt src clock draw).1
  rw [h] at hmove
  generalize hs.pending = t at hmove
  cases hmove with
  | answered frag entry asm m1 client dhCs hto hstate hasm hawait hdone hans =>
    rcases hok _ _ hto.get with hentry | hentry
    · exact ⟨rfl, .freshM2 _ _ client m1
        (.of_answered hentry hto hstate hasm hawait hdone hans) hans.decoded⟩
    · rw [hentry.state] at hstate
      cases hstate
  | resent frag entry m2 hto hstate hm2 hidx =>
    rcases hacc _ _ hto.get with hentry | ⟨-, m1, client, hm1, -, horigin⟩
    · rw [hentry.state] at hstate
      cases hstate
    · rw [hto.source] at horigin
      exact ⟨rfl, .cachedM2 frag entry m1 m2 client hto.parsed hto.hsType hidx hto.get hto.source
        hm1 hm2 horigin⟩

end Handshake

section Data

variable {entry entry' : SessionEntry} {inner : InnerPlaintext}

theorem decrypt_ok_cipher {s s' : WireSession} (h : s.decrypt P pkt = (.ok inner, s')) :
    (s.cipher.decrypt P pkt).1 = .ok inner := by
  unfold WireSession.decrypt at h
  split at h
  · cases h
  · split at h
    · rename_i heq
      cases h
      rw [heq]
    · cases h
    · cases h

/-- A control message is an authentic, new packet of handshake type; it moves the peer of the
session to its source. -/
theorem receive_control
    (h : entry.receive P pkt src now = (.ok (.control inner), entry')) :
    entry'.session = (entry.session.decrypt P pkt).2 ∧ entry'.peer = src ∧
      (entry.session.cipher.decrypt P pkt).1 = .ok inner ∧ inner.msgType = .handshake := by
  unfold SessionEntry.receive at h
  split at h
  · rename_i inner' session heq
    dsimp only at h
    split at h <;> cases h
    rw [heq]
    exact ⟨rfl, rfl, decrypt_ok_cipher heq, by assumption⟩
  all_goals cases h

variable {s : ServerHandshake T} {calls : List (ServerHandshake.Call T)}

/-- On the data path only a probe is answered. -/
theorem ack_answers (hread : Reads m pkt src now entry)
    (hrecv : entry.receive P pkt src now = (.ok (.control inner), entry'))
    (hprobe : inner.payload.toList.getD 0 0 = Control.probe) :
    Answers P s calls m pkt src draw ((m.putSession pkt.sid entry').afterEncrypt pkt.sid entry'
      (entry'.session.encrypt P .handshake (Control.slot Control.ack))).1 := by
  obtain ⟨hsession, hpeer, hdec, htype⟩ := receive_control hrecv
  cases henc : entry'.session.encrypt P .handshake (Control.slot Control.ack) with
  | mk r session =>
    cases r with
    | error e => cases e <;> exact Or.inl rfl
    | ok packet =>
      obtain ⟨header, plaintext, w, hheader, hopen, hreplay, hplain⟩ := CipherSession.decrypt_ok hdec
      rw [hsession] at henc
      exact Or.inr ⟨[packet], by rw [← hpeer]; rfl, .ack entry packet session hread.get
        ⟨header, plaintext, inner, hheader, hopen, ⟨w, hreplay⟩, hplain, htype, hprobe⟩ henc⟩

end Data

/-- In every state that a manager reaches, a datagram makes it send nothing, or one of three
answers to the source of the datagram: a fresh M2 to the fragment that completes an M1 verified
under the roster, the cached M2 to a repeated fragment 0, or an ack to an authentic probe. -/
theorem answers_only_three (P : Primitives T) {cfg : ServerConfig T} {limits : SessionLimits}
    {rateNow gateNow : ℕ} (hnew : new cfg limits rateNow gateNow = .ok m)
    (calls : List (Call T)) :
    ∃ hsCalls, (run P m calls).hs =
        ServerHandshake.run P (ServerHandshake.new cfg rateNow) hsCalls ∧
      ∀ pkt src clock now draw order,
        Answers P (ServerHandshake.new cfg rateNow) hsCalls (run P m calls) pkt src draw
          ((run P m calls).handleDatagram P pkt src clock now draw order).1 := by
  obtain ⟨hsCalls, hhs⟩ := exists_run_hs (P := P) (m := m) calls
  rw [(new_ok hnew).1] at hhs
  refine ⟨hsCalls, hhs, fun pkt src clock now draw order => ?_⟩
  have hacc : ∀ sid e, (run P m calls).hs.pending.get sid = some e →
      Accounted P (ServerHandshake.new cfg rateNow) hsCalls sid e := by
    rw [hhs]
    exact accounted_run cfg rateNow hsCalls
  have h := handleDatagram_handles (P := P) (run P m calls) pkt src clock now draw order
  generalize (run P m calls).handleDatagram P pkt src clock now draw order = r at h ⊢
  cases h with
  | stepped r hs r' hfrag hstep hr =>
    rcases hr with ⟨packets, dest, rfl, rfl⟩ | ⟨e, -, rfl⟩ | rfl
    · obtain ⟨rfl, hanswer⟩ := handshake_answers hacc hstep
      exact Or.inr ⟨packets, by simp [sentPackets, returned, ManagerEvent.toList,
        ManagerEvent.packets], hanswer⟩
    · cases e <;> exact Or.inl rfl
    · exact Or.inl rfl
  | acked entry inner entry' hread hrecv hprobe => exact ack_answers hread hrecv hprobe
  | read _ _ _ _ _ _ _ _ hev => rcases hev with rfl | ⟨inner, rfl⟩ <;> exact Or.inl rfl
  | _ => exact Or.inl rfl

theorem answers_only_three_sample :
    ∃ hsCalls, ∀ pkt src clock now draw order,
      Answers Sample.primitives Exchange.sampleServer hsCalls
        (run Sample.primitives sampleManager [.tick 0 []]) pkt src draw
        ((run Sample.primitives sampleManager [.tick 0 []]).handleDatagram Sample.primitives pkt
          src clock now draw order).1 := by
  obtain ⟨hsCalls, -, h⟩ := answers_only_three Sample.primitives new_sampleManager [.tick 0 []]
  exact ⟨hsCalls, h⟩

end PqTunnel.ServerSessionManager
