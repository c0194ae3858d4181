import VoiceChat.Session.Handshake

/-!
# The identity of a node

A node's id, its session and its session context are set by peer lists and by
nothing else (`step_keeps`). A peer list is sealed for the zero session with
counter zero, so an old, duplicated or reflected one opens at any member of the
group, and a node adopts it whoever it was meant for. `stable_iff` says exactly
which runs keep the identity.
-/

set_option autoImplicit false

namespace VoiceChat

namespace Node

variable {D : Type} {prim : Primitives D}

/-- The identity that a datagram would give to a node: that of a peer list which
opens. -/
def adopts (prim : Primitives D) (node : Node D) (data : Bytes) : Option (UInt8 × SessionId) :=
  match Packet.parse data with
  | .error _ => none
  | .ok packet =>
    if packet.header.pktType = pktPeerList then
      match openPeerList prim node packet with
      | .error _ => none
      | .ok (myId, list) => some (myId, list.sessionId)
    else
      none

theorem handlePeerList_adopts {node : Node D} {env : Env D} {srcAddr : SocketAddr}
    {packet : Packet} {myId : UInt8} {list : PeerListPayload}
    (opened : openPeerList prim node packet = .ok (myId, list)) :
    (handlePeerList prim node env srcAddr packet).node.peerMgr.localId = myId ∧
      (handlePeerList prim node env srcAddr packet).node.peerMgr.sessionId = list.sessionId ∧
      (handlePeerList prim node env srcAddr packet).node.peerMgr.isHost = node.peerMgr.isHost ∧
      (handlePeerList prim node env srcAddr packet).node.key = node.key ∧
      (handlePeerList prim node env srcAddr packet).node.keyExchange = node.keyExchange ∧
      (handlePeerList prim node env srcAddr packet).node.cryptoCtx =
        CryptoContext.new node.key list.sessionId := by
  obtain ⟨localId, sessionId, isHost, _⟩ := greetPeers_identity prim node.key env
    list.sessionId myId packet.header.peerId srcAddr list.peers
    (node.peerMgr.setIdentity myId list.sessionId) []
  unfold handlePeerList
  rw [opened]
  exact ⟨localId, sessionId, isHost, rfl, rfl, rfl⟩

/-- A PEER_LIST that nothing is adopted from is refused. -/
theorem handlePeerList_of_unlisted {node : Node D} (env : Env D) {data : Bytes}
    (srcAddr : SocketAddr) {packet : Packet} (parsed : Packet.parse data = .ok packet)
    (peerList : packet.header.pktType = pktPeerList) (unlisted : node.adopts prim data = none) :
    ∃ e, handlePeerList prim node env srcAddr packet = .fail node [] e := by
  cases opened : openPeerList prim node packet with
  | error e => exact ⟨e, by rw [handlePeerList, opened]⟩
  | ok listed =>
    rw [adopts, parsed] at unlisted
    dsimp only at unlisted
    rw [if_pos peerList, opened] at unlisted
    cases unlisted

/-- **A datagram that is no peer list keeps the identity.** -/
theorem handleIncoming_keeps {node : Node D} (env : Env D) {data : Bytes} (srcAddr : SocketAddr)
    (other : node.adopts prim data = none) :
    Keeps node (handleIncoming prim node env data srcAddr).node := by
  unfold handleIncoming
  split
  · exact Keeps.refl node
  · rename_i packet parsed
    by_cases moves : MovesPeers packet
    · rcases moves with join | peerList | hello
      · rw [handlePacket_join prim join]
        exact handleJoin_keeps node env srcAddr packet
      · obtain ⟨e, refused⟩ := handlePeerList_of_unlisted env srcAddr parsed peerList other
        rw [handlePacket_peerList prim peerList, refused]
        exact Keeps.refl node
      · rw [handlePacket_hello prim hello]
        exact handleHello_keeps node env srcAddr packet
    · exact (handlePacket_place node env srcAddr moves).toKeeps

/-- A peer list that opens gives the node its identity. -/
theorem handleIncoming_adopts {node : Node D} (env : Env D) {data : Bytes} (srcAddr : SocketAddr)
    {myId : UInt8} {sessionId : SessionId}
    (adopted : node.adopts prim data = some (myId, sessionId)) :
    (handleIncoming prim node env data srcAddr).node.peerMgr.localId = myId ∧
      (handleIncoming prim node env data srcAddr).node.peerMgr.sessionId = sessionId ∧
      (handleIncoming prim node env data srcAddr).node.peerMgr.isHost = node.peerMgr.isHost ∧
      (handleIncoming prim node env data srcAddr).node.key = node.key ∧
      (handleIncoming prim node env data srcAddr).node.keyExchange = node.keyExchange ∧
      (handleIncoming prim node env data srcAddr).node.cryptoCtx =
        CryptoContext.new node.key sessionId := by
  unfold adopts at adopted
  split at adopted
  · cases adopted
  · rename_i packet parsed
    split_ifs at adopted with peerList
    split at adopted
    · cases adopted
    · rename_i myId' list opened
      cases adopted
      have handled : handleIncoming prim node env data srcAddr =
          handlePeerList prim node env srcAddr packet := by
        rw [handleIncoming_eq prim parsed, handlePacket_peerList prim peerList]
      rw [handled]
      exact handlePeerList_adopts opened

/-- **What is no datagram keeps the identity.** -/
theorem step_keeps {node : Node D} (env : Env D) {event : Event}
    (other : ∀ data srcAddr, event = .recv data srcAddr → node.adopts prim data = none) :
    Keeps node (step prim node env event).1 := by
  by_cases received : ∃ data srcAddr, event = .recv data srcAddr
  · obtain ⟨data, srcAddr, rfl⟩ := received
    exact handleIncoming_keeps env srcAddr (other data srcAddr rfl)
  · exact (step_place fun data srcAddr _ same _ => absurd ⟨data, srcAddr, same⟩ received).toKeeps

/-- What a step does to the identity of a node: it keeps it, or it takes that of a peer
list, with a session context that has drawn nothing. -/
inductive Identified (prim : Primitives D) (node : Node D) (env : Env D) (event : Event) :
    Prop where
  | kept
      (unlisted : ∀ data srcAddr, event = .recv data srcAddr → node.adopts prim data = none)
      (keeps : Keeps node (step prim node env event).1)
  | adopted {data : Bytes} {srcAddr : SocketAddr} {myId : UInt8} {sessionId : SessionId}
      (received : event = .recv data srcAddr)
      (listed : node.adopts prim data = some (myId, sessionId))
      (localId : (step prim node env event).1.peerMgr.localId = myId)
      (session : (step prim node env event).1.peerMgr.sessionId = sessionId)
      (isHost : (step prim node env event).1.peerMgr.isHost = node.peerMgr.isHost)
      (key : (step prim node env event).1.key = node.key)
      (keyExchange : (step prim node env event).1.keyExchange = node.keyExchange)
      (ctx : (step prim node env event).1.cryptoCtx = CryptoContext.new node.key sessionId)

theorem step_identified (prim : Primitives D) (node : Node D) (env : Env D) (event : Event) :
    Identified prim node env event := by
  by_cases listed : ∃ data srcAddr identity, event = .recv data srcAddr ∧
      node.adopts prim data = some identity
  · obtain ⟨data, srcAddr, ⟨myId, sessionId⟩, rfl, adopted⟩ := listed
    obtain ⟨localId, session, isHost, key, keyExchange, ctx⟩ :=
      handleIncoming_adopts env srcAddr adopted
    exact .adopted rfl adopted localId session isHost key keyExchange ctx
  · have unlisted : ∀ data srcAddr, event = .recv data srcAddr →
        node.adopts prim data = none := by
      intro data srcAddr received
      refine Option.eq_none_iff_forall_ne_some.mpr fun identity adopted => ?_
      exact listed ⟨data, srcAddr, identity, received, adopted⟩
    exact .kept unlisted (step_keeps env unlisted)

/-- **A node keeps an identity that every peer list repeats.** -/
theorem step_repeats {node : Node D} (env : Env D) {event : Event}
    (repeated : ∀ data srcAddr, event = .recv data srcAddr → ∀ myId sessionId,
      node.adopts prim data = some (myId, sessionId) →
        myId = node.peerMgr.localId ∧ sessionId = node.peerMgr.sessionId) :
    (step prim node env event).1.peerMgr.localId = node.peerMgr.localId ∧
      (step prim node env event).1.peerMgr.sessionId = node.peerMgr.sessionId ∧
      (step prim node env event).1.peerMgr.isHost = node.peerMgr.isHost ∧
      (step prim node env event).1.key = node.key ∧
      (step prim node env event).1.keyExchange = node.keyExchange := by
  cases step_identified prim node env event with
  | kept _ keeps =>
      exact ⟨keeps.localId, keeps.sessionId, keeps.isHost, keeps.key, keeps.keyExchange⟩
  | adopted received listed localId session isHost key keyExchange =>
      obtain ⟨rfl, rfl⟩ := repeated _ _ received _ _ listed
      exact ⟨localId, session, isHost, key, keyExchange⟩

/-! ## Runs that keep the identity -/

/-- A step leaves id and session alone and does not set the counter back. -/
def Stable (prim : Primitives D) (node : Node D) (input : Env D × Event) : Prop :=
  (node.step prim input.1 input.2).1.peerMgr.localId = node.peerMgr.localId ∧
    (node.step prim input.1 input.2).1.peerMgr.sessionId = node.peerMgr.sessionId ∧
    node.cryptoCtx.sendCounter ≤ (node.step prim input.1 input.2).1.cryptoCtx.sendCounter

/-- A peer list that opens gives the node the identity it has, before any counter
is drawn. -/
def ListedAlready (prim : Primitives D) (node : Node D) (input : Env D × Event) : Prop :=
  ∀ data srcAddr, input.2 = .recv data srcAddr → ∀ myId sessionId,
    node.adopts prim data = some (myId, sessionId) →
      myId = node.peerMgr.localId ∧ sessionId = node.peerMgr.sessionId ∧
        node.cryptoCtx.sendCounter = 0

theorem stable_step_iff (node : Node D) (input : Env D × Event) :
    node.Stable prim input ↔ node.ListedAlready prim input := by
  obtain ⟨env, event⟩ := input
  cases step_identified prim node env event with
  | kept unlisted keeps =>
      refine iff_of_true ⟨keeps.localId, keeps.sessionId, ?_⟩ ?_
      · exact UInt32.le_iff_toNat_le.mpr keeps.counter
      · intro data srcAddr received myId sessionId adopted
        rw [unlisted data srcAddr received] at adopted
        cases adopted
  | adopted received listed localId session _ _ _ ctx =>
      have lowest : ∀ counter : UInt32, counter ≤ 0 ↔ counter = 0 := by
        intro counter
        rw [UInt32.le_iff_toNat_le, ← UInt32.toNat_inj]
        exact Nat.le_zero
      rw [Stable]
      dsimp only
      rw [localId, session, ctx, CryptoContext.new_sendCounter, lowest]
      constructor
      · rintro ⟨sameId, sameSession, undrawn⟩ data' srcAddr' same myId' sessionId' adopted'
        cases received.symm.trans same
        rw [listed] at adopted'
        cases adopted'
        exact ⟨sameId, sameSession, undrawn⟩
      · intro harmless
        exact harmless _ _ received _ _ listed

/-- **When the identity is stable.** A run keeps id and session and never sets the
counter back exactly when every peer list that opens gives the node the identity
it has at that moment, before a counter is drawn. -/
theorem stable_iff (node : Node D) (inputs : List (Env D × Event)) :
    (nodeMachine prim).Along (Stable prim) node inputs ↔
      (nodeMachine prim).Along (ListedAlready prim) node inputs :=
  Machine.along_congr stable_step_iff node inputs

/-- **A host's identity is not stable**: its own peer list, reflected to it, gives
it the id of the peer it has let in. -/
theorem host_not_stable :
    ¬ ∀ inputs : List (Env Unit × Event), (nodeMachine Primitives.transparent).Along
      (Stable Primitives.transparent) Sample.host inputs := by
  intro claim
  have stable := (claim [(Sample.env 0 0, .recv Sample.join (Sample.addr 1)),
    (Sample.env 0 1, .recv (Sample.wires Sample.hostOfOne.out) (Sample.addr 0))]).2.1
  exact absurd stable.1 (by decide +kernel)

end Node

end VoiceChat
