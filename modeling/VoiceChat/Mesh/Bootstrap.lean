import VoiceChat.Mesh.Agreement
import VoiceChat.Session.Answers
import VoiceChat.Session.Join

/-!
# Nonces before there is a session

A JOIN and the PEER_LIST that answers it are sealed under the pre-shared key and
the zero session id, both with peer id, sequence number and counter zero. So all of
them have one nonce, and what it seals is the same only as long as all JOINs carry
one port and none is answered (`bootstrap_reuse_iff`). The first answer uses the
nonce again (`peerList_reuses_nonce`).
-/

set_option autoImplicit false

namespace VoiceChat

/-- The packet belongs to the exchange that a session id is learned by. -/
def Emission.Bootstraps (e : Emission) : Prop :=
  e.header.pktType = pktJoin ∨ e.header.pktType = pktPeerList

namespace Node

variable {D : Type} {prim : Primitives D}

/-- The node answers a JOIN: it opens, there are an id and a place for its sender,
and an address to list. -/
def AnswersJoin (prim : Primitives D) (node : Node D) (env : Env D) (data : Bytes)
    (srcAddr : SocketAddr) : Prop :=
  node.OpensJoin prim data ∧ ∃ id peerMgr peerMgr' hostAddr,
    node.peerMgr.allocatePeerId = .ok (id, peerMgr) ∧
    peerMgr.addPeer id srcAddr env.newDecoder env.now = .ok peerMgr' ∧
    listedAddr env srcAddr = .ok hostAddr

/-- A PEER_LIST is sent by a node that answers a JOIN. -/
theorem Emits.answersJoin {node : Node D} {env : Env D} {event : Event} {e : Emission}
    (emits : Emits prim node env event e) (type : e.header.pktType = pktPeerList) :
    ∃ data srcAddr, event = .recv data srcAddr ∧ node.AnswersJoin prim env data srcAddr := by
  obtain ⟨data, srcAddr, packet, rfl, parsed, join, member⟩ := emits.of_peerList type
  refine ⟨data, srcAddr, rfl, ?_⟩
  rcases handleJoin_cases prim node env srcAddr packet with
    ⟨_, refused⟩ | ⟨payload, id, peerMgr, opened, allocated, ⟨_, full⟩ | ⟨peerMgr', added, answered⟩⟩
  · rw [refused] at member
    cases member
  · rw [full] at member
    cases member
  · rw [answered] at member
    obtain ⟨_, _, _, _, hostAddr, listed, _⟩ := mem_sendPeerList_out member
    exact ⟨⟨packet, payload, parsed, join, opened⟩, id, peerMgr, peerMgr', hostAddr, allocated,
      added, listed⟩

/-- A packet is sealed whether or not the system takes it. -/
theorem mem_sendSealed_of_seals (seals : prim.aead.Seals maxPacketLen) (node : Node D) (env : Env D)
    (sessionId : SessionId) (pktType peerId : UInt8) {payload : Bytes}
    (short : payload.length ≤ maxPacketLen) (dst : SocketAddr) :
    ∃ e ∈ (sendSealed prim node env sessionId pktType peerId payload dst).out,
      e.Carries prim.aead (node.pskCtx sessionId) ⟨pktType, peerId, 0, 0⟩ payload dst := by
  obtain ⟨e, success⟩ := sealPacket_of_seals seals short .psk (node.pskCtx sessionId)
    ⟨pktType, peerId, 0, 0⟩ dst (env.sendOk 0) peerId 0 0
  obtain ⟨sealedWith, _, header, plaintext, addressed, _⟩ := sealPacket_eq_ok success
  refine ⟨e, ?_, sealedWith, header, plaintext, addressed⟩
  rw [sendSealed, success]
  dsimp only
  split_ifs
  · exact List.mem_singleton_self e
  · exact List.mem_singleton_self e

/-- A host that answers a JOIN seals a PEER_LIST, under the nonce that every JOIN has. -/
theorem exists_of_answersJoin (seals : prim.aead.Seals maxPacketLen) {node : Node D}
    {grants : List (SocketAddr × UInt8)} (admits : Admits grants node) {env : Env D} {data : Bytes}
    {srcAddr : SocketAddr} (answers : node.AnswersJoin prim env data srcAddr) :
    ∃ e ∈ (handleIncoming prim node env data srcAddr).out, e.header = ⟨pktPeerList, 0, 0, 0⟩ ∧
      e.nonce = buildNonce zeroSession 0 .send 0 0 := by
  obtain ⟨⟨packet, payload, parsed, join, opened⟩, id, peerMgr, peerMgr', hostAddr, allocated, added,
    listed⟩ := answers
  have entered := (admits.admitted allocated added).1
  generalize answered : peerMgr'.modifyPeer id (·.connect env.now) = table at entered
  have short : (table.buildPeerList hostAddr env.order).toBytes.length ≤ maxPacketLen := by
    have bytes := (table.buildPeerList hostAddr env.order).length_toBytes_le
    have entries : (table.buildPeerList hostAddr env.order).peers.length ≤ maxPeers :=
      entered.length_buildPeerList hostAddr env.order
    have : maxPeers = 5 := rfl
    have : maxPacketLen = 1200 := rfl
    omega
  obtain ⟨e, member, carries⟩ := mem_sendSealed_of_seals seals { node with peerMgr := table } env
    zeroSession pktPeerList table.localId short srcAddr
  have header : e.header = ⟨pktPeerList, 0, 0, 0⟩ := by
    rw [carries.header, ← entered.localId]
  refine ⟨e, ?_, header, ?_⟩
  · rw [handleIncoming_eq prim parsed, handlePacket_join prim join, handleJoin,
      if_neg (by rw [admits.isHost]; decide), opened]
    dsimp only
    rw [allocated]
    dsimp only
    rw [added]
    dsimp only
    rw [answered, sendPeerList, listed]
    exact member
  · rw [carries.sealedWith.nonce, header]
    rfl

end Node

namespace Call

variable {J D : Type} (call : Call J)

/-- No two packets of the bootstrap exchange have one nonce and differ. -/
def NoReuse (mesh : Mesh J D) : Prop :=
  ∀ q, ∀ e ∈ mesh.net.sent q, ∀ q', ∀ e' ∈ mesh.net.sent q', e.Bootstraps → e'.Bootstraps →
    e.nonce = e'.nonce → e.header.toBytes = e'.header.toBytes ∧ e.plaintext = e'.plaintext

/-- A JOIN carries the port of those before it, and no JOIN is answered. -/
def Unanswered (prim : Primitives D) (mesh : Mesh J D) (input : Member J × Env D × Action) : Prop :=
  match input.2.2 with
  | .join listenPort => ∀ q, ∀ e ∈ mesh.net.sent q, e.header.pktType = pktJoin →
      e.plaintext = JoinPayload.toBytes ⟨listenPort⟩
  | .event (.recv data srcAddr) =>
      ¬ (mesh.net.node input.1).AnswersJoin prim input.2.1 data srcAddr
  | .event _ => True

/-- The nonce of a JOIN and all that it carries besides a port. -/
def JoinsPlainly (mesh : Mesh J D) : Prop :=
  ∀ q, ∀ e ∈ mesh.net.sent q, e.header.pktType = pktJoin →
    e.header = ⟨pktJoin, 0, 0, 0⟩ ∧ e.nonce = buildNonce zeroSession 0 .send 0 0

/-- All that was sent so far is the same JOIN. -/
structure OneJoin (mesh : Mesh J D) : Prop where
  join : ∀ q, ∀ e ∈ mesh.net.sent q, e.Bootstraps → e.header = ⟨pktJoin, 0, 0, 0⟩
  port : ∀ q, ∀ e ∈ mesh.net.sent q, ∀ q', ∀ e' ∈ mesh.net.sent q', e.Bootstraps →
    e'.Bootstraps → e.plaintext = e'.plaintext

variable {prim : Primitives D} {call} [DecidableEq J]

theorem JoinsPlainly.step {mesh : Mesh J D} (plain : JoinsPlainly mesh)
    (input : Member J × Env D × Action) :
    JoinsPlainly ((call.machine prim).step mesh input).1 := by
  obtain ⟨p, env, action⟩ := input
  intro q e member type
  rcases sent_of_step _ _ _ member with old | ⟨_, ⟨_, _, header, nonce, _⟩ | ⟨_, _, new⟩⟩
  · exact plain q e old type
  · exact ⟨header, nonce⟩
  · exact absurd type (Node.emits_of_step new).not_join

/-- **A step that answers nothing adds no other packet.** -/
theorem OneJoin.step {mesh : Mesh J D} (one : OneJoin mesh) {input : Member J × Env D × Action}
    (unanswered : Unanswered prim mesh input) :
    OneJoin ((call.machine prim).step mesh input).1 := by
  obtain ⟨p, env, action⟩ := input
  have fresh : ∀ q e, e ∈ ((call.machine prim).step mesh (p, env, action)).1.net.sent q →
      e.Bootstraps → e ∈ mesh.net.sent q ∨ ∃ listenPort, action = .join listenPort ∧
        e.header = ⟨pktJoin, 0, 0, 0⟩ ∧ e.plaintext = JoinPayload.toBytes ⟨listenPort⟩ := by
    intro q e member bootstraps
    rcases sent_of_step _ _ _ member with
      old | ⟨rfl, ⟨listenPort, joins, header, _, plaintext⟩ | ⟨event, rfl, new⟩⟩
    · exact Or.inl old
    · exact Or.inr ⟨listenPort, joins, header, plaintext⟩
    · rcases bootstraps with join | peerList
      · exact absurd join (Node.emits_of_step new).not_join
      · obtain ⟨data, srcAddr, rfl, answers⟩ := (Node.emits_of_step new).answersJoin peerList
        exact absurd answers unanswered
  -- what was sent before carries the port of a JOIN that is sent now
  have same : ∀ listenPort, action = .join listenPort → ∀ q, ∀ e ∈ mesh.net.sent q,
      e.Bootstraps → e.plaintext = JoinPayload.toBytes ⟨listenPort⟩ := by
    rintro listenPort rfl q e member bootstraps
    exact unanswered q e member (congrArg PacketHeader.pktType (one.join q e member bootstraps))
  refine ⟨fun q e member bootstraps => ?_, fun q e member q' e' member' bootstraps bootstraps' => ?_⟩
  · rcases fresh q e member bootstraps with old | ⟨_, _, header, _⟩
    · exact one.join q e old bootstraps
    · exact header
  · rcases fresh q e member bootstraps with old | ⟨listenPort, joins, _, plaintext⟩
    · rcases fresh q' e' member' bootstraps' with old' | ⟨listenPort', joins', _, plaintext'⟩
      · exact one.port q e old q' e' old' bootstraps bootstraps'
      · exact (same listenPort' joins' q e old bootstraps).trans plaintext'.symm
    · rcases fresh q' e' member' bootstraps' with old' | ⟨listenPort', joins', _, plaintext'⟩
      · exact plaintext.trans (same listenPort joins q' e' old' bootstraps').symm
      · cases joins.symm.trans joins'
        exact plaintext.trans plaintext'.symm

omit [DecidableEq J] in
theorem OneJoin.noReuse {mesh : Mesh J D} (one : OneJoin mesh) : NoReuse mesh := by
  intro q e member q' e' member' bootstraps bootstraps' _
  rw [one.join q e member bootstraps, one.join q' e' member' bootstraps']
  exact ⟨rfl, one.port q e member q' e' member' bootstraps bootstraps'⟩

/-- In every run in which no JOIN is answered, no nonce is used twice. -/
theorem noReuse_of_unanswered {inputs : List (Member J × Env D × Action)}
    (unanswered : (call.machine prim).Along (Unanswered prim) call.start inputs) :
    NoReuse ((call.machine prim).run call.start inputs) := by
  have one : OneJoin ((call.machine prim).run call.start inputs) :=
    Machine.invariant OneJoin (fun _ _ one unanswered => one.step unanswered)
      ⟨fun _ _ member => absurd member List.not_mem_nil,
        fun _ _ member => absurd member List.not_mem_nil⟩ unanswered
  exact one.noReuse

/-- What is reused stays reused. -/
theorem noReuse_of_step {mesh : Mesh J D} {input : Member J × Env D × Action}
    (noReuse : NoReuse ((call.machine prim).step mesh input).1) : NoReuse mesh := by
  intro q e member q' e' member'
  refine noReuse q e ?_ q' e' ?_
  · exact (Network.mem_step_sent _).mpr (Or.inl member)
  · exact (Network.mem_step_sent _).mpr (Or.inl member')

/-- **A JOIN that is answered costs the nonce**, when what the members get was sent to
them. -/
theorem unanswered_of_noReuse (seals : prim.aead.Seals maxPacketLen) (correct : prim.aead.Correct)
    {inputs : List (Member J × Env D × Action)}
    (delivers : (call.machine prim).Along call.Delivers call.start inputs)
    (noReuse : NoReuse ((call.machine prim).run call.start inputs)) :
    (call.machine prim).Along (Unanswered prim) call.start inputs := by
  refine Machine.along_of_lasting (fun mesh => call.Sound prim mesh ∧ JoinsPlainly mesh) NoReuse
    (fun _ _ => noReuse_of_step) ?_ ?_ ⟨sound_start, fun _ _ member => absurd member List.not_mem_nil⟩
    delivers noReuse
  · rintro mesh input ⟨sound, plain⟩ delivers
    exact ⟨sound.step correct delivers, plain.step input⟩
  · rintro mesh ⟨p, env, action⟩ ⟨sound, plain⟩ delivers noReuse
    rcases action with listenPort | event
    · intro q e member type
      have short : (JoinPayload.toBytes ⟨listenPort⟩).length ≤ maxPacketLen :=
        Nat.le_of_ble_eq_true rfl
      obtain ⟨e', sent, carries⟩ := Node.mem_sendSealed_of_seals seals (mesh.net.node p) env
        zeroSession pktJoin 0 short (call.addr .host)
      have nonce : e.nonce = e'.nonce := by
        rw [(plain q e member type).2, carries.sealedWith.nonce, carries.header]
        rfl
      have same := (noReuse q e ((Network.mem_step_sent _).mpr (Or.inl member)) p e'
        ((Network.mem_step_sent _).mpr (Or.inr ⟨rfl, sent⟩)) (Or.inl type) (Or.inl carries.type)
        nonce).2
      exact same.trans carries.plaintext
    · cases event with
      | recv data srcAddr =>
          intro answers
          obtain ⟨q, e, member, rfl, _⟩ := delivers
          cases p with
          | host =>
              obtain ⟨packet, payload, parsed, join, _⟩ := answers.1
              rw [sound.header member parsed] at join
              obtain ⟨header, nonce⟩ := plain q e member join
              obtain ⟨e', sent, header', nonce'⟩ :=
                Node.exists_of_answersJoin seals sound.hosting answers
              have same := (noReuse q e ((Network.mem_step_sent _).mpr (Or.inl member)) .host e'
                ((Network.mem_step_sent _).mpr (Or.inr ⟨rfl, sent⟩)) (Or.inl join)
                (Or.inr (congrArg PacketHeader.pktType header')) (nonce.trans nonce'.symm)).1
              rw [header, header', PacketHeader.toBytes_inj] at same
              exact absurd (congrArg PacketHeader.pktType same) (by decide)
          | joiner j =>
              obtain ⟨_, id, peerMgr, _, _, allocated, _⟩ := answers
              exact absurd allocated sound.guest_allocates_none
      | _ => trivial

/-- **When the bootstrap exchange reuses its nonce.** In every run of a host and its
joiners no nonce is used twice if all JOINs carry one port and none is answered; and
where every datagram was sent to the member that gets it, only then. -/
theorem bootstrap_reuse_iff (call : Call J) (seals : prim.aead.Seals maxPacketLen)
    (correct : prim.aead.Correct) (inputs : List (Member J × Env D × Action)) :
    ((call.machine prim).Along (Unanswered prim) call.start inputs →
        NoReuse ((call.machine prim).run call.start inputs)) ∧
      ((call.machine prim).Along call.Delivers call.start inputs →
        (NoReuse ((call.machine prim).run call.start inputs) ↔
          (call.machine prim).Along (Unanswered prim) call.start inputs)) :=
  ⟨noReuse_of_unanswered, fun delivers =>
    ⟨unanswered_of_noReuse seals correct delivers, noReuse_of_unanswered⟩⟩

/-- Two joiners ask, and nobody answers. -/
theorem unanswered_joins_reuse_none :
    NoReuse ((Sample.call.machine Primitives.transparent).run Sample.call.start
      [(.joiner false, Sample.env 1 0, .join 5000), (.joiner true, Sample.env 2 0, .join 5000)]) := by
  refine (bootstrap_reuse_iff Sample.call (Aead.transparent_seals maxPacketLen)
    Aead.transparent_correct _).1 ?_
  refine ⟨?_, ?_, trivial⟩
  · exact fun _ _ member => absurd member List.not_mem_nil
  · intro q e member type
    rcases sent_of_step _ _ _ member with old | ⟨_, ⟨_, joins, _, _, plaintext⟩ | ⟨_, joins, _⟩⟩
    · exact absurd old List.not_mem_nil
    · cases joins
      exact plaintext
    · cases joins

/-- **The first PEER_LIST reuses the nonce of the JOIN that it answers.** -/
theorem peerList_reuses_nonce :
    ¬ ∀ inputs : List (Member Bool × Env Unit × Action),
      (Sample.call.machine Primitives.transparent).Along Sample.call.Delivers Sample.call.start
        inputs →
      NoReuse ((Sample.call.machine Primitives.transparent).run Sample.call.start inputs) := by
  intro claim
  have delivers : (Sample.call.machine Primitives.transparent).Along Sample.call.Delivers
      Sample.call.start [(.joiner false, Sample.env 1 0, .join 5000),
        (.host, Sample.env 0 1, .event (.recv Sample.join (Sample.addr 1)))] := by
    refine ⟨?_, ?_, trivial⟩
    · exact fun same => nomatch same
    · exact ⟨.joiner false, by decide +kernel⟩
  have unanswered := unanswered_of_noReuse (Aead.transparent_seals maxPacketLen)
    Aead.transparent_correct delivers (claim _ delivers)
  exact unanswered.2.1 ⟨⟨_, _, rfl, rfl, rfl⟩, _, _, _, _, rfl, rfl, rfl⟩

end Call

end VoiceChat
