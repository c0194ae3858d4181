import VoiceChat.Session.Identity

/-!
# Admission

The host hands out ids one after the other, each with the address that asked for
it (`Admits`). The id is not sent: it is the largest one in the peer list that
answers the JOIN (`Admits.maxId_buildPeerList`), and the joiner reads it off there
(`adopts_of_sealed`).
-/

set_option autoImplicit false

namespace VoiceChat

namespace Node

variable {D : Type} {prim : Primitives D}

/-! ## Reading a peer list -/

theorem maxId_eq_some {peers : List (UInt8 × SocketAddr)} {id : UInt8} :
    maxId peers = some id ↔ id ∈ peers.map Prod.fst ∧ ∀ k ∈ peers.map Prod.fst, k ≤ id :=
  List.max?_eq_some_iff

/-- What a peer list keeps of the addresses does not matter for the id. -/
theorem maxId_listed (peers : List (UInt8 × SocketAddr)) :
    maxId (peers.map fun entry => (entry.1, entry.2.listed)) = maxId peers := by
  rw [maxId, maxId, List.map_map]
  rfl

/-- A peer list that was sent opens, up to the addresses, at whoever has the key. -/
theorem openPeerList_of_sealed (correct : prim.aead.Correct) {e : Emission} {node node' : Node D}
    (sealedWith : e.SealedWith prim.aead (node.pskCtx zeroSession)) {list : PeerListPayload}
    (plaintext : e.plaintext = list.toBytes) (short : list.peers.length ≤ 255) {id : UInt8}
    (largest : maxId list.peers = some id) (key : node'.key = node.key) :
    ∃ packet, Packet.parse e.wire = .ok packet ∧ packet.header = e.header ∧
      openPeerList prim node' packet = .ok (id, { list with
        peers := list.peers.map fun entry => (entry.1, entry.2.listed) }) := by
  obtain ⟨packet, parsed, header, opened⟩ :=
    sealedWith.opens (node'.pskCtx zeroSession) correct key rfl
  refine ⟨packet, parsed, header, ?_⟩
  rw [openPeerList, opened]
  dsimp only
  rw [plaintext, PeerListPayload.fromBytes_toBytes list short]
  dsimp only
  rw [maxId_listed, largest]

/-- **The id is the largest one of the list.** -/
theorem adopts_of_sealed (correct : prim.aead.Correct) {e : Emission} {node node' : Node D}
    (sealedWith : e.SealedWith prim.aead (node.pskCtx zeroSession))
    (type : e.header.pktType = pktPeerList) {list : PeerListPayload}
    (plaintext : e.plaintext = list.toBytes) (short : list.peers.length ≤ 255) {id : UInt8}
    (largest : maxId list.peers = some id) (key : node'.key = node.key) :
    node'.adopts prim e.wire = some (id, list.sessionId) := by
  obtain ⟨packet, parsed, header, opened⟩ :=
    openPeerList_of_sealed correct sealedWith plaintext short largest key
  rw [adopts, parsed]
  dsimp only
  rw [header, if_pos type, opened]

/-! ## Handing out ids -/

/-- A host with what it has granted so far, oldest first: an address and the id
for it. -/
structure Admits (grants : List (SocketAddr × UInt8)) (node : Node D) : Prop where
  isHost : node.peerMgr.isHost = true
  localId : node.peerMgr.localId = 0
  ids : grants.map (fun grant => grant.2.toNat) = List.range' 1 grants.length
  next : node.peerMgr.nextPeerId.toNat = grants.length + 1
  few : grants.length < maxPeers
  table : ∀ id peer, node.getPeer id = some peer → peer.id = id ∧ ∃ addr, (addr, id) ∈ grants

/-- What a step of the host grants: the id that it uses up, to the address it
received from. -/
def newGrants (node node' : Node D) : Event → List (SocketAddr × UInt8)
  | .recv _ srcAddr =>
      if node'.peerMgr.nextPeerId = node.peerMgr.nextPeerId then []
      else [(srcAddr, node.peerMgr.nextPeerId)]
  | _ => []

theorem newGrants_of_same {node node' : Node D} (event : Event)
    (same : node'.peerMgr.nextPeerId = node.peerMgr.nextPeerId) :
    newGrants node node' event = [] := by
  cases event with
  | recv data srcAddr => exact if_pos same
  | _ => rfl

/-- Only a JOIN uses up an id. -/
theorem handleIncoming_nextPeerId {node : Node D} (env : Env D) {data : Bytes}
    (srcAddr : SocketAddr) (unlisted : node.adopts prim data = none)
    (other : ∀ packet, Packet.parse data = .ok packet → packet.header.pktType ≠ pktJoin) :
    (handleIncoming prim node env data srcAddr).node.peerMgr.nextPeerId =
      node.peerMgr.nextPeerId := by
  unfold handleIncoming
  split
  · rfl
  · rename_i packet parsed
    by_cases moves : MovesPeers packet
    · rcases moves with join | peerList | hello
      · exact absurd join (other packet parsed)
      · obtain ⟨e, refused⟩ := handlePeerList_of_unlisted env srcAddr parsed peerList unlisted
        rw [handlePacket_peerList prim peerList, refused]
        rfl
      · rw [handlePacket_hello prim hello]
        rcases handleHello_cases prim node env srcAddr packet with ⟨e, refused⟩ |
          ⟨_, peerMgr, _, greeting, answered⟩
        · rw [refused]
          rfl
        · rw [answered, sendSealed_node]
          rcases greeted_eq_ok greeting with ⟨_, _, rfl⟩ | ⟨_, added⟩
          · rfl
          · obtain ⟨_, _, _, next, _⟩ := PeerManager.addPeer_eq_ok added
            exact next
    · exact (handlePacket_place node env srcAddr moves).nextPeerId

namespace Admits

variable {grants : List (SocketAddr × UInt8)} {node : Node D}

theorem bounds (admits : Admits grants node) {addr : SocketAddr} {id : UInt8}
    (granted : (addr, id) ∈ grants) : 1 ≤ id.toNat ∧ id.toNat ≤ grants.length := by
  have member := List.mem_map_of_mem (f := fun grant : SocketAddr × UInt8 => grant.2.toNat) granted
  rw [admits.ids, List.mem_range'_1, Nat.add_comm 1] at member
  exact ⟨member.1, Nat.le_of_lt_succ member.2⟩

/-- The id of the host is granted to nobody. -/
theorem zero_notMem (admits : Admits grants node) (addr : SocketAddr) :
    (addr, (0 : UInt8)) ∉ grants :=
  fun granted => Nat.not_succ_le_zero 0 (admits.bounds granted).1

/-- No id is granted twice. -/
theorem unique (admits : Admits grants node) {addr addr' : SocketAddr} {id : UInt8}
    (granted : (addr, id) ∈ grants) (granted' : (addr', id) ∈ grants) : addr = addr' := by
  have distinct : (grants.map fun grant => grant.2.toNat).Nodup := by
    rw [admits.ids]
    exact List.nodup_range'
  exact congrArg Prod.fst (List.inj_on_of_nodup_map distinct granted granted' rfl)

/-- The table only matters by who is in it. -/
theorem of_frame (admits : Admits grants node) {node' : Node D} (frame : Frame place node node') :
    Admits grants node' where
  isHost := frame.isHost.trans admits.isHost
  localId := frame.localId.trans admits.localId
  ids := admits.ids
  next := by
    rw [frame.nextPeerId]
    exact admits.next
  few := admits.few
  table id peer' known' := by
    obtain ⟨peer, known, same⟩ := frame.getPeer_back known'
    obtain ⟨own, granted⟩ := admits.table id peer known
    exact ⟨(congrArg Prod.fst same).trans own, granted⟩

/-- An id is used up. -/
theorem allocated (admits : Admits grants node) {id : UInt8} {peerMgr : PeerManager D}
    (allocation : node.peerMgr.allocatePeerId = .ok (id, peerMgr)) (srcAddr : SocketAddr) :
    id.toNat = grants.length + 1 ∧ peerMgr.getPeer = node.peerMgr.getPeer ∧
      peerMgr.localId = 0 ∧ peerMgr.nextPeerId ≠ node.peerMgr.nextPeerId ∧
      node.peerMgr.nextPeerId = id ∧
      Admits (grants ++ [(srcAddr, id)]) { node with peerMgr := peerMgr } := by
  obtain ⟨_, rfl, left, rfl⟩ := PeerManager.allocatePeerId_eq_ok allocation
  have moved := PeerManager.nextPeerId_succ_toNat left
  refine ⟨admits.next, rfl, admits.localId, ?_, rfl, admits.isHost, admits.localId, ?_, ?_, ?_, ?_⟩
  · intro same
    have := congrArg UInt8.toNat same
    rw [moved] at this
    exact Nat.succ_ne_self _ this
  · rw [List.map_append, admits.ids, List.length_append, List.length_singleton,
      List.range'_1_concat, List.map_singleton, admits.next, Nat.add_comm 1]
  · rw [List.length_append, List.length_singleton, moved, admits.next]
  · rw [List.length_append, List.length_singleton]
    rw [admits.next] at left
    exact left
  · intro id peer known
    obtain ⟨own, addr, granted⟩ := admits.table id peer known
    exact ⟨own, addr, List.mem_append_left _ granted⟩

/-- A peer with a granted id is taken in, or changes its address. -/
theorem addPeer (admits : Admits grants node) {id : UInt8} {addr srcAddr : SocketAddr}
    (granted : (addr, id) ∈ grants) {newDecoder : Option D} {now : Instant}
    {peerMgr : PeerManager D}
    (added : node.peerMgr.addPeer id srcAddr newDecoder now = .ok peerMgr) :
    Admits grants { node with peerMgr := peerMgr } ∧ ∃ peer, peerMgr.getPeer id = some peer := by
  have remote : id ≠ node.peerMgr.localId := by
    rintro rfl
    rw [admits.localId] at granted
    exact admits.zero_notMem addr granted
  obtain ⟨localId, _, isHost, next, _⟩ := PeerManager.addPeer_eq_ok added
  obtain ⟨peer, entries, origin⟩ := PeerManager.getPeer_addPeer added remote
  refine ⟨⟨isHost.trans admits.isHost, localId.trans admits.localId, admits.ids, ?_, admits.few,
    fun k other known => ?_⟩, peer, by rw [entries, if_pos rfl]⟩
  · exact (congrArg UInt8.toNat next).trans admits.next
  · change peerMgr.getPeer k = some other at known
    rw [entries] at known
    split_ifs at known with same
    · cases known
      subst same
      refine ⟨?_, addr, granted⟩
      rcases origin with ⟨_, _, rfl⟩ | ⟨old, before, rfl⟩
      · rfl
      · exact (admits.table k old before).1
    · exact admits.table k other known

/-- **The largest id of the list is the last one granted**, as long as it has an
entry. -/
theorem maxId_buildPeerList (admits : Admits grants node) {id : UInt8} {peer : RemotePeer D}
    (known : node.getPeer id = some peer) (last : id.toNat = grants.length)
    (hostAddr : SocketAddr) (order : HashOrder UInt8) :
    maxId (node.peerMgr.buildPeerList hostAddr order).peers = some id := by
  have ids : ∀ k, k ∈ (node.peerMgr.buildPeerList hostAddr order).peers.map Prod.fst ↔
      k = 0 ∨ ∃ other, node.getPeer k = some other := by
    intro k
    rw [PeerManager.buildPeerList, List.map_cons, List.map_map, List.mem_cons, admits.localId,
      List.mem_map]
    refine or_congr_right ⟨?_, ?_⟩
    · rintro ⟨other, member, rfl⟩
      obtain ⟨k', found⟩ := HashMap.mem_values.mp member
      have own := (admits.table k' other found).1
      exact ⟨other, by rw [Function.comp_apply, own]; exact found⟩
    · rintro ⟨other, found⟩
      exact ⟨other, HashMap.mem_values.mpr ⟨k, found⟩, (admits.table k other found).1⟩
  refine maxId_eq_some.mpr ⟨(ids id).mpr (Or.inr ⟨peer, known⟩), fun k member => ?_⟩
  rw [UInt8.le_iff_toNat_le, last]
  rcases (ids k).mp member with rfl | ⟨other, found⟩
  · exact Nat.zero_le _
  · obtain ⟨_, addr, granted⟩ := admits.table k other found
    exact (admits.bounds granted).2

/-- There are no more entries than ids given out. -/
theorem size_le (admits : Admits grants node) : node.peerMgr.peers.size ≤ grants.length := by
  rw [← List.length_map (f := Prod.snd)]
  refine HashMap.size_le_of_subset fun id member => ?_
  obtain ⟨peer, known⟩ := HashMap.mem_iff_lookup.mp member
  obtain ⟨_, addr, granted⟩ := admits.table id peer known
  exact List.mem_map_of_mem granted

/-- The list is short. -/
theorem length_buildPeerList (admits : Admits grants node) (hostAddr : SocketAddr)
    (order : HashOrder UInt8) :
    (node.peerMgr.buildPeerList hostAddr order).peers.length ≤ maxPeers := by
  have size := admits.size_le
  have few := admits.few
  have values := HashMap.length_values_le node.peerMgr.peers order
  rw [PeerManager.buildPeerList, List.length_cons, List.length_map]
  omega

/-- A JOIN that is let in: an id is granted to its address, and has an entry. -/
theorem admitted (admits : Admits grants node) {id : UInt8} {srcAddr : SocketAddr} {env : Env D}
    {peerMgr peerMgr' : PeerManager D} (allocation : node.peerMgr.allocatePeerId = .ok (id, peerMgr))
    (added : peerMgr.addPeer id srcAddr env.newDecoder env.now = .ok peerMgr') :
    Admits (grants ++ [(srcAddr, id)])
        { node with peerMgr := peerMgr'.modifyPeer id (·.connect env.now) } ∧
      (∃ peer, (peerMgr'.modifyPeer id (·.connect env.now)).getPeer id = some peer) ∧
      ∀ data, newGrants node { node with peerMgr := peerMgr'.modifyPeer id (·.connect env.now) }
        (.recv data srcAddr) = [(srcAddr, id)] := by
  obtain ⟨_, _, _, moved, rfl, granted⟩ := admits.allocated allocation srcAddr
  obtain ⟨entered, peer, known⟩ := granted.addPeer
    (List.mem_append_right _ (List.mem_singleton_self _)) added
  have connected : Frame place { node with peerMgr := peerMgr' }
      { node with peerMgr := peerMgr'.modifyPeer node.peerMgr.nextPeerId (·.connect env.now) } :=
    Frame.modifyPeer { node with peerMgr := peerMgr' } _ fun _ _ => rfl
  refine ⟨entered.of_frame connected, ?_, fun data => if_neg ?_⟩
  · obtain ⟨peer', known', _⟩ := connected.getPeer known
    exact ⟨peer', known'⟩
  · intro same
    obtain ⟨_, _, _, next, _⟩ := PeerManager.addPeer_eq_ok added
    exact moved (next.symm.trans same)

/-- **Every step goes on handing out ids**, as long as no peer list opens and every
HELLO comes under a granted id. -/
theorem step (admits : Admits grants node) (env : Env D) {event : Event}
    (unlisted : ∀ data srcAddr, event = .recv data srcAddr → node.adopts prim data = none)
    (greeted : ∀ data srcAddr packet, event = .recv data srcAddr →
      Packet.parse data = .ok packet → packet.header.pktType = pktHello →
      ∃ addr, (addr, packet.header.peerId) ∈ grants) :
    Admits (grants ++ newGrants node (Node.step prim node env event).1 event)
      (Node.step prim node env event).1 := by
  have silent : ∀ {node' : Node D}, Admits grants node' →
      node'.peerMgr.nextPeerId = node.peerMgr.nextPeerId →
      Admits (grants ++ newGrants node node' event) node' := by
    intro node' admits' same
    rw [newGrants_of_same event same, List.append_nil]
    exact admits'
  by_cases moves : ∃ data srcAddr packet, event = .recv data srcAddr ∧
      Packet.parse data = .ok packet ∧ MovesPeers packet
  · obtain ⟨data, srcAddr, packet, rfl, parsed, type⟩ := moves
    change Admits (grants ++ newGrants node (handleIncoming prim node env data srcAddr).node _)
      (handleIncoming prim node env data srcAddr).node
    rw [handleIncoming_eq prim parsed]
    rcases type with join | peerList | hello
    · rw [handlePacket_join prim join]
      rcases handleJoin_cases prim node env srcAddr packet with ⟨e, refused⟩ |
        ⟨_, id, peerMgr, _, allocation, ⟨e, full⟩ | ⟨peerMgr', added, answered⟩⟩
      · rw [refused]
        exact silent admits rfl
      · obtain ⟨_, _, _, moved, rfl, granted⟩ := admits.allocated allocation srcAddr
        rw [full]
        change Admits (grants ++ if peerMgr.nextPeerId = node.peerMgr.nextPeerId then [] else _) _
        rw [if_neg moved]
        exact granted
      · obtain ⟨entered, _, grant⟩ := admits.admitted allocation added
        rw [answered, sendPeerList_node, grant]
        exact entered
    · obtain ⟨e, refused⟩ :=
        handlePeerList_of_unlisted env srcAddr parsed peerList (unlisted data srcAddr rfl)
      rw [handlePacket_peerList prim peerList, refused]
      exact silent admits rfl
    · rw [handlePacket_hello prim hello]
      obtain ⟨addr, granted⟩ := greeted data srcAddr packet rfl parsed hello
      rcases handleHello_cases prim node env srcAddr packet with ⟨e, refused⟩ |
        ⟨_, peerMgr, _, greeting, answered⟩
      · rw [refused]
        exact silent admits rfl
      · have connected : Frame place { node with peerMgr := peerMgr }
            { node with
              peerMgr := peerMgr.modifyPeer packet.header.peerId (·.connect env.now) } :=
          Frame.modifyPeer { node with peerMgr := peerMgr } _ fun _ _ => rfl
        rw [answered, sendSealed_node]
        rcases greeted_eq_ok greeting with ⟨_, _, rfl⟩ | ⟨_, added⟩
        · exact silent (admits.of_frame connected) rfl
        · obtain ⟨_, _, _, next, _⟩ := PeerManager.addPeer_eq_ok added
          exact silent ((admits.addPeer granted added).1.of_frame connected) next
  · have frame : Frame place node (Node.step prim node env event).1 :=
      step_place fun data srcAddr packet received parsed type =>
        moves ⟨data, srcAddr, packet, received, parsed, type⟩
    exact silent (admits.of_frame frame) frame.nextPeerId

/-- **The answer to a JOIN says which id was granted**, and to which address it
goes. -/
theorem answer (admits : Admits grants node) {env : Env D} (data : Bytes) {srcAddr : SocketAddr}
    {packet : Packet} {e : Emission}
    (member : e ∈ (handleJoin prim node env srcAddr packet).out) :
    e.SealedWith prim.aead (node.pskCtx zeroSession) ∧ e.header = ⟨pktPeerList, 0, 0, 0⟩ ∧
      e.dst = srcAddr ∧ ∃ (id : UInt8) (list : PeerListPayload),
        newGrants node (handleJoin prim node env srcAddr packet).node (.recv data srcAddr) =
          [(srcAddr, id)] ∧
        e.plaintext = list.toBytes ∧ list.peers.length ≤ maxPeers ∧
        maxId list.peers = some id := by
  obtain ⟨sealedWith, header, dst, id, peerMgr, peerMgr', hostAddr, allocation, added, after,
    plaintext⟩ := mem_handleJoin_out member
  obtain ⟨entered, ⟨peer, known⟩, grant⟩ := admits.admitted allocation added
  refine ⟨sealedWith, ?_, dst, id, _, ?_, plaintext, entered.length_buildPeerList _ _,
    entered.maxId_buildPeerList known ?_ _ _⟩
  · rw [header, admits.localId]
  · rw [after, grant]
  · rw [(admits.allocated allocation srcAddr).1, List.length_append, List.length_singleton]

end Admits

end Node

end VoiceChat
