import VoiceChat.Session.Emissions

/-!
# Where entries come from

An entry of the peer table is made by a JOIN that is let in, by a HELLO of an
unknown peer or by a peer list that names another one (`Enters`); the same packets
move entries, and nothing else does (`entry_of_step`).
-/

set_option autoImplicit false

namespace VoiceChat

namespace PeerManager

variable {D : Type}

/-- A peer that was added is at its address. -/
theorem addr_of_addPeer {pm pm' : PeerManager D} {id : UInt8} {addr : SocketAddr}
    {newDecoder : Option D} {now : Instant} (added : pm.addPeer id addr newDecoder now = .ok pm')
    (remote : id ≠ pm.localId) {peer : RemotePeer D} (known : pm'.getPeer id = some peer) :
    peer.addr = addr := by
  obtain ⟨_, entries, origin⟩ := getPeer_addPeer added remote
  rw [entries, if_pos rfl] at known
  cases known
  rcases origin with ⟨_, _, rfl⟩ | ⟨_, _, rfl⟩
  · rfl
  · rfl

/-- An entry after a peer was added was there before, or is this peer's. -/
theorem entry_of_addPeer {pm pm' : PeerManager D} {id k : UInt8} {addr : SocketAddr}
    {newDecoder : Option D} {now : Instant} (added : pm.addPeer id addr newDecoder now = .ok pm')
    {peer : RemotePeer D} (known : pm'.getPeer k = some peer) :
    pm.getPeer k = some peer ∨ k = id ∧ peer.addr = addr := by
  by_cases self : id = pm.localId
  · rw [addPeer_self added self] at known
    exact Or.inl known
  · by_cases here : k = id
    · subst here
      exact Or.inr ⟨rfl, addr_of_addPeer added self known⟩
    · exact Or.inl ((getPeer_addPeer_of_ne added here).symm.trans known)

/-- A change of an entry that leaves it where it is moves nobody. -/
theorem entry_of_modifyPeer {pm : PeerManager D} {id k : UInt8} {f : RemotePeer D → RemotePeer D}
    (stays : ∀ peer, (f peer).addr = peer.addr) {peer' : RemotePeer D}
    (known : (pm.modifyPeer id f).getPeer k = some peer') :
    ∃ peer, pm.getPeer k = some peer ∧ peer.addr = peer'.addr := by
  rw [getPeer_modifyPeer] at known
  split_ifs at known
  · obtain ⟨peer, known', rfl⟩ := Option.map_eq_some_iff.mp known
    exact ⟨peer, known', (stays peer).symm⟩
  · exact ⟨peer', known, rfl⟩

end PeerManager

namespace Node

variable {D : Type} {prim : Primitives D}

/-! ## Greetings -/

/-- An entry after a greeting was there before, or is listed and at the address that
it is greeted at. -/
theorem entry_of_greetPeers {key : Key} {env : Env D} {sessionId : SessionId}
    {myId sender : UInt8} {srcAddr : SocketAddr} {peers : List (UInt8 × SocketAddr)}
    {peerMgr : PeerManager D} (identity : peerMgr.localId = myId) {out : List Emission} {k : UInt8}
    {peer : RemotePeer D}
    (known : (greetPeers prim key env sessionId myId sender srcAddr peers peerMgr out).1.getPeer k =
      some peer) :
    peerMgr.getPeer k = some peer ∨ ∃ addr, (k, addr) ∈ peers ∧ k ≠ myId ∧
      peer.addr = if k = sender then srcAddr else addr := by
  revert peer
  refine (greetPeers_preserves (fun pm => pm.localId = myId ∧ ∀ {peer : RemotePeer D},
    pm.getPeer k = some peer → peerMgr.getPeer k = some peer ∨ ∃ addr, (k, addr) ∈ peers ∧
      k ≠ myId ∧ peer.addr = if k = sender then srcAddr else addr) out ?_
    ⟨identity, Or.inl⟩).2
  rintro id addr listed self pm pm' added ⟨localId, before⟩
  have localId' := (PeerManager.addPeer_eq_ok added).1.trans localId
  by_cases here : k = id
  · -- the entry of the listed peer itself has the address it is greeted at
    subst here
    have there : ∀ {peer}, pm'.getPeer k = some peer → peer.addr = _ :=
      PeerManager.addr_of_addPeer added (localId ▸ self)
    refine ⟨⟨localId', fun known => ?_⟩, localId', fun known => ?_⟩
    · exact Or.inr ⟨addr, listed, self, there known⟩
    · rw [PeerManager.getPeer_modifyPeer, if_pos rfl] at known
      obtain ⟨peer', known', rfl⟩ := Option.map_eq_some_iff.mp known
      have there' := there known'
      exact Or.inr ⟨addr, listed, self, there'⟩
  · have same := PeerManager.getPeer_addPeer_of_ne added here
    refine ⟨⟨localId', fun known => ?_⟩, localId', fun known => ?_⟩
    · exact before (same.symm.trans known)
    · rw [PeerManager.getPeer_modifyPeer, if_neg here] at known
      exact before (same.symm.trans known)

/-- A greeting goes to the address that a listed peer is greeted at. -/
theorem dst_of_greetPeers {key : Key} {env : Env D} {sessionId : SessionId}
    {myId sender : UInt8} {srcAddr : SocketAddr} {peers : List (UInt8 × SocketAddr)}
    {peerMgr : PeerManager D} {out : List Emission} {e : Emission}
    (member : e ∈ (greetPeers prim key env sessionId myId sender srcAddr peers peerMgr out).2.1) :
    e ∈ out ∨ ∃ id addr, (id, addr) ∈ peers ∧ id ≠ myId ∧
      e.dst = if id = sender then srcAddr else addr := by
  refine (mem_greetPeers member).imp_right ?_
  rintro ⟨id, addr, listed, other, sendOk, sealed⟩
  obtain ⟨_, _, _, _, addressed, _⟩ := sealPacket_eq_ok sealed
  exact ⟨id, addr, listed, other, addressed⟩

/-- What it takes to open a peer list. -/
theorem openPeerList_eq_ok {node : Node D} {packet : Packet} {myId : UInt8} {list : PeerListPayload}
    (opened : openPeerList prim node packet = .ok (myId, list)) :
    ∃ plaintext, opens prim (node.pskCtx zeroSession) packet = .ok plaintext ∧
      PeerListPayload.fromBytes plaintext = .ok list ∧ maxId list.peers = some myId := by
  unfold openPeerList at opened
  split at opened
  · cases opened
  · rename_i plaintext decrypted
    split at opened
    · cases opened
    · rename_i list' read
      split at opened
      · cases opened
      · rename_i id largest
        cases opened
        exact ⟨plaintext, decrypted, read, largest⟩

/-- A peer list that opens is adopted. -/
theorem adopts_of_opened {node : Node D} {data : Bytes} {packet : Packet}
    (parsed : Packet.parse data = .ok packet) (type : packet.header.pktType = pktPeerList)
    {myId : UInt8} {list : PeerListPayload}
    (opened : openPeerList prim node packet = .ok (myId, list)) :
    node.adopts prim data = some (myId, list.sessionId) := by
  rw [adopts, parsed]
  dsimp only
  rw [if_pos type, opened]

/-- What is adopted comes from a peer list that opens. -/
theorem opened_of_adopts {node : Node D} {data : Bytes} {identity : UInt8 × SessionId}
    (adopted : node.adopts prim data = some identity) :
    ∃ packet list, Packet.parse data = .ok packet ∧ packet.header.pktType = pktPeerList ∧
      openPeerList prim node packet = .ok (identity.1, list) := by
  unfold adopts at adopted
  split at adopted
  · cases adopted
  · rename_i packet parsed
    split_ifs at adopted with peerList
    split at adopted
    · cases adopted
    · rename_i myId list opened
      cases adopted
      exact ⟨packet, list, parsed, peerList, opened⟩

/-- **A HELLO follows a peer list**, and goes to the address that a listed peer is
greeted at. -/
theorem greeting_of_hello {node : Node D} {env : Env D} {event : Event} {e : Emission}
    (member : e ∈ (step prim node env event).2) (type : e.header.pktType = pktHello) :
    ∃ data srcAddr packet myId list id addr, event = .recv data srcAddr ∧
      Packet.parse data = .ok packet ∧ packet.header.pktType = pktPeerList ∧
      openPeerList prim node packet = .ok (myId, list) ∧ (id, addr) ∈ list.peers ∧ id ≠ myId ∧
      e.dst = if id = packet.header.peerId then srcAddr else addr := by
  obtain ⟨data, srcAddr, myId, sessionId, rfl, adopted, _⟩ := (emits_of_step member).of_hello type
  obtain ⟨packet, list, parsed, peerList, opened⟩ := opened_of_adopts adopted
  change e ∈ (handleIncoming prim node env data srcAddr).out at member
  rw [handleIncoming_eq prim parsed, handlePacket_peerList prim peerList, handlePeerList,
    opened] at member
  rcases dst_of_greetPeers member with old | ⟨id, addr, listed, other, dst⟩
  · cases old
  · exact ⟨data, srcAddr, packet, myId, list, id, addr, rfl, parsed, peerList, opened, listed,
      other, dst⟩

/-! ## Where a step sends to -/

theorem dst_of_sealCounted {node : Node D} {pktType : UInt8} {payload : Bytes} {seqNum : UInt16}
    {dst : SocketAddr} {e : Emission}
    (member : e ∈ (sealCounted prim node pktType payload seqNum dst).2) : e.dst = dst := by
  rcases sealCounted_cases prim node pktType payload seqNum dst with
    none | ⟨e', one, _, _, _, _, there, _⟩
  · rw [none] at member
    cases member
  · rw [one] at member
    exact List.mem_singleton.mp member ▸ there

theorem dst_of_sendKeyExchange {node : Node D} {id : UInt8} {dst : SocketAddr} {e : Emission}
    (member : e ∈ (sendKeyExchange prim node id dst).2) : e.dst = dst := by
  rcases sendKeyExchange_cases prim node id dst with
    ⟨_, none⟩ | ⟨e', _, one, _, _, _, _, _, _, there⟩
  · rw [none] at member
    cases member
  · rw [one] at member
    exact List.mem_singleton.mp member ▸ there

/-- What a walk through the table sends goes to the addresses of entries. -/
theorem dst_of_eachPeer {body : Node D → UInt8 × SocketAddr → Node D × List Emission}
    (addressed : ∀ node target, ∀ e ∈ (body node target).2, e.dst = target.2) {node node' : Node D}
    {order : HashOrder UInt8} {e : Emission}
    (member : e ∈ (eachPeer body).outputs node' (node.peerMgr.connectedPeers order)) :
    ∃ id peer, node.getPeer id = some peer ∧ e.dst = peer.addr := by
  obtain ⟨node'', target, _, inside, out⟩ :=
    Machine.mem_outputs (fun _ => True) (fun _ _ _ => trivial) trivial member
  obtain ⟨id, peer, known, _, rfl⟩ := PeerManager.mem_connectedPeers.mp inside
  exact ⟨id, peer, known, addressed node'' _ e out⟩

/-- What is not a peer list is answered, if at all, at the address that it came from. -/
theorem dst_of_recv {node : Node D} {env : Env D} {data : Bytes} {srcAddr : SocketAddr}
    (unlisted : node.adopts prim data = none) {e : Emission}
    (member : e ∈ (handleIncoming prim node env data srcAddr).out) : e.dst = srcAddr := by
  unfold handleIncoming at member
  split at member
  · cases member
  · rename_i packet parsed
    cases handlePacket_handled prim node env srcAddr packet with
    | audio _ same =>
        rw [same, handleAudio] at member
        split at member
        · cases member
        · split at member
          · cases member
          · cases member
    | join _ same =>
        rw [same] at member
        exact (mem_handleJoin_out member).2.2.1
    | peerList type same =>
        rw [same] at member
        rcases handlePeerList_cases prim node env srcAddr packet with
          ⟨_, refused⟩ | ⟨_, _, opened, _⟩
        · rw [refused] at member
          cases member
        · rw [adopts_of_opened parsed type opened] at unlisted
          cases unlisted
    | hello _ same =>
        rw [same] at member
        rcases handleHello_cases prim node env srcAddr packet with
          ⟨_, refused⟩ | ⟨_, _, _, _, answered⟩
        · rw [refused] at member
          cases member
        · rw [answered] at member
          exact (mem_sendSealed_out member).2.2.2.2
    | helloAck _ same =>
        rw [same, handleHelloAck] at member
        split at member
        · cases member
        · cases member
    | keepalive _ same =>
        rw [same] at member
        cases member
    | ping _ same =>
        rw [same, handlePing] at member
        split at member
        · cases member
        · split at member
          · cases member
          · exact dst_of_sealCounted member
    | pong _ same =>
        rw [same, handlePong] at member
        split at member
        · cases member
        · cases member
    | keyExchange _ same =>
        rw [same, handleKeyExchange] at member
        split at member
        · cases member
        · exact dst_of_sendKeyExchange member
    | unknown _ same =>
        rw [same] at member
        cases member

/-- **Where everything goes that a step sends**: to an entry, or back to whoever is
answered, unless a peer list is adopted. -/
theorem dst_of_step {node : Node D} {env : Env D} {event : Event}
    (unlisted : ∀ data srcAddr, event = .recv data srcAddr → node.adopts prim data = none)
    {e : Emission} (member : e ∈ (step prim node env event).2) :
    (∃ id peer, node.getPeer id = some peer ∧ e.dst = peer.addr) ∨
      ∃ data, event = .recv data e.dst := by
  cases event with
  | recv data srcAddr =>
      exact Or.inr ⟨data, by rw [dst_of_recv (unlisted data srcAddr rfl) member]⟩
  | frame opus =>
      refine Or.inl (dst_of_eachPeer (fun node' target e' out => ?_) member)
      rcases sendFrameTo_cases prim opus node' target with none | ⟨_, _, one, _, _, there, _⟩
      · rw [none] at out
        cases out
      · rw [one] at out
        exact List.mem_singleton.mp out ▸ there
  | playout => cases member
  | keepalive => exact Or.inl (dst_of_eachPeer (fun _ _ _ => dst_of_sealCounted) member)
  | ping =>
      rcases List.mem_append.mp member with early | late
      · refine Or.inl (dst_of_eachPeer (fun node' target e' out => ?_) early)
        unfold sendPingTo at out
        split at out
        · cases out
        · exact dst_of_sealCounted out
      · -- the pings before it leave the entries where they are
        have pinged : Frame place node ((eachPeer (sendPingTo prim env)).run node
            (node.peerMgr.connectedPeers env.order)) :=
          eachPeer_frame (fun node target => sendPingTo_frame env node target fun _ _ => rfl) node _
        obtain ⟨id, _, known, there⟩ := dst_of_eachPeer (fun _ _ _ => dst_of_sendKeyExchange) late
        obtain ⟨peer, before, same⟩ := pinged.getPeer_back known
        exact Or.inl ⟨id, peer, before, there.trans (congrArg Prod.snd same)⟩
  | adapt elapsedSecs => cases member

/-! ## Entries -/

/-- The entries that a received packet makes or moves, and where they then are. -/
inductive Enters (prim : Primitives D) (node : Node D) (srcAddr : SocketAddr) (packet : Packet) :
    UInt8 → SocketAddr → Prop where
  | join {payload : JoinPayload} {id : UInt8} {peerMgr : PeerManager D}
      (type : packet.header.pktType = pktJoin) (opened : openJoin prim node packet = .ok payload)
      (allocated : node.peerMgr.allocatePeerId = .ok (id, peerMgr)) :
      Enters prim node srcAddr packet id srcAddr
  | hello {plaintext : Bytes} (type : packet.header.pktType = pktHello)
      (opened : opens prim (node.pskCtx node.peerMgr.sessionId) packet = .ok plaintext)
      (unknown : node.getPeer packet.header.peerId = none) :
      Enters prim node srcAddr packet packet.header.peerId srcAddr
  | listed {myId : UInt8} {list : PeerListPayload} {id : UInt8} {addr : SocketAddr}
      (type : packet.header.pktType = pktPeerList)
      (opened : openPeerList prim node packet = .ok (myId, list)) (listed : (id, addr) ∈ list.peers)
      (other : id ≠ myId) :
      Enters prim node srcAddr packet id (if id = packet.header.peerId then srcAddr else addr)

theorem entry_of_handleJoin {node : Node D} {env : Env D} {srcAddr : SocketAddr} {packet : Packet}
    (join : packet.header.pktType = pktJoin) {k : UInt8} {peer' : RemotePeer D}
    (known : (handleJoin prim node env srcAddr packet).node.getPeer k = some peer') :
    (∃ peer, node.getPeer k = some peer ∧ peer.addr = peer'.addr) ∨
      Enters prim node srcAddr packet k peer'.addr := by
  rcases handleJoin_cases prim node env srcAddr packet with
    ⟨e, refused⟩ | ⟨payload, id, peerMgr, opened, allocated, ⟨e, full⟩ | ⟨peerMgr', added, answered⟩⟩
  · rw [refused] at known
    exact Or.inl ⟨peer', known, rfl⟩
  · obtain ⟨_, _, _, rfl⟩ := PeerManager.allocatePeerId_eq_ok allocated
    rw [full] at known
    exact Or.inl ⟨peer', known, rfl⟩
  · rw [answered, sendPeerList_node] at known
    obtain ⟨peer, entered, there⟩ :=
      PeerManager.entry_of_modifyPeer (f := (·.connect env.now)) (fun _ => rfl) known
    rw [← there]
    rcases PeerManager.entry_of_addPeer added entered with before | ⟨rfl, placed⟩
    · obtain ⟨_, _, _, rfl⟩ := PeerManager.allocatePeerId_eq_ok allocated
      exact Or.inl ⟨peer, before, rfl⟩
    · rw [placed]
      exact Or.inr (.join join opened allocated)

theorem entry_of_handlePeerList {node : Node D} {env : Env D} {srcAddr : SocketAddr}
    {packet : Packet} (peerList : packet.header.pktType = pktPeerList) {k : UInt8}
    {peer' : RemotePeer D}
    (known : (handlePeerList prim node env srcAddr packet).node.getPeer k = some peer') :
    (∃ peer, node.getPeer k = some peer ∧ peer.addr = peer'.addr) ∨
      Enters prim node srcAddr packet k peer'.addr := by
  rcases handlePeerList_cases prim node env srcAddr packet with
    ⟨e, refused⟩ | ⟨myId, list, opened, greeted⟩
  · rw [refused] at known
    exact Or.inl ⟨peer', known, rfl⟩
  · rw [greeted] at known
    have identity : (node.peerMgr.setIdentity myId list.sessionId).localId = myId := rfl
    rcases entry_of_greetPeers identity known with before | ⟨addr, listed, other, there⟩
    · exact Or.inl ⟨peer', before, rfl⟩
    · rw [there]
      exact Or.inr (.listed peerList opened listed other)

theorem entry_of_handleHello {node : Node D} {env : Env D} {srcAddr : SocketAddr} {packet : Packet}
    (hello : packet.header.pktType = pktHello) {k : UInt8} {peer' : RemotePeer D}
    (known : (handleHello prim node env srcAddr packet).node.getPeer k = some peer') :
    (∃ peer, node.getPeer k = some peer ∧ peer.addr = peer'.addr) ∨
      Enters prim node srcAddr packet k peer'.addr := by
  rcases handleHello_cases prim node env srcAddr packet with
    ⟨e, refused⟩ | ⟨plaintext, peerMgr, opened, greeting, answered⟩
  · rw [refused] at known
    exact Or.inl ⟨peer', known, rfl⟩
  · rw [answered, sendSealed_node] at known
    obtain ⟨peer, entered, there⟩ :=
      PeerManager.entry_of_modifyPeer (f := (·.connect env.now)) (fun _ => rfl) known
    rw [← there]
    rcases greeted_eq_ok greeting with ⟨_, _, rfl⟩ | ⟨unknown, added⟩
    · exact Or.inl ⟨peer, entered, rfl⟩
    · rcases PeerManager.entry_of_addPeer added entered with before | ⟨rfl, placed⟩
      · exact Or.inl ⟨peer, before, rfl⟩
      · rw [placed]
        exact Or.inr (.hello hello opened unknown)

/-- **An entry was there before a step, at its address, or the step received the
packet that enters it.** -/
theorem entry_of_step {node : Node D} {env : Env D} {event : Event} {k : UInt8}
    {peer' : RemotePeer D} (known : (step prim node env event).1.getPeer k = some peer') :
    (∃ peer, node.getPeer k = some peer ∧ peer.addr = peer'.addr) ∨
      ∃ data srcAddr packet, event = .recv data srcAddr ∧ Packet.parse data = .ok packet ∧
        Enters prim node srcAddr packet k peer'.addr := by
  by_cases moves : ∃ data srcAddr packet, event = .recv data srcAddr ∧
      Packet.parse data = .ok packet ∧ MovesPeers packet
  · obtain ⟨data, srcAddr, packet, rfl, parsed, type⟩ := moves
    change (handleIncoming prim node env data srcAddr).node.getPeer k = some peer' at known
    rw [handleIncoming_eq prim parsed] at known
    suffices entered : (∃ peer, node.getPeer k = some peer ∧ peer.addr = peer'.addr) ∨
        Enters prim node srcAddr packet k peer'.addr from
      entered.imp_right fun enters => ⟨data, srcAddr, packet, rfl, parsed, enters⟩
    rcases type with join | peerList | hello
    · rw [handlePacket_join prim join] at known
      exact entry_of_handleJoin join known
    · rw [handlePacket_peerList prim peerList] at known
      exact entry_of_handlePeerList peerList known
    · rw [handlePacket_hello prim hello] at known
      exact entry_of_handleHello hello known
  · have frame : Frame place node (step prim node env event).1 :=
      step_place fun data srcAddr packet received parsed type =>
        moves ⟨data, srcAddr, packet, received, parsed, type⟩
    obtain ⟨peer, before, same⟩ := frame.getPeer_back known
    exact Or.inl ⟨peer, before, (Prod.ext_iff.mp same).2.symm⟩

end Node

end VoiceChat
