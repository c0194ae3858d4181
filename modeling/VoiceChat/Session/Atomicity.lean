import VoiceChat.Session.Coherence

/-!
# Errors that leave a trace

A handler that fails returns at the step that failed and does not undo the steps
before it. A JOIN that fails after an id was allocated has used the id up; a HELLO that
can not be answered leaves its sender connected; a PEER_LIST switches to the identity
and the context it gives before the first listed peer is greeted.

`unchanged_iff` says of every call that fails when nothing is left behind. For a JOIN and
a HELLO this is a matter of how far the handler came. For a PEER_LIST it takes more: the
list must give the identity the node has, and what it does to the table up to the peer
that can not be greeted must cancel out (`Cancels`). It is followed in the whereabouts
of the peers alone, since a known peer that is greeted only changes its address and its
state.
-/

set_option autoImplicit false

namespace VoiceChat

/-! ## Whereabouts -/

/-- Where the peers are: the addresses by id, and the ids by address. -/
structure Whereabouts where
  address : UInt8 → Option SocketAddr
  id : SocketAddr → Option UInt8

namespace Whereabouts

/-- A known peer moves to an address. -/
def move (places : Whereabouts) (entry : UInt8 × SocketAddr) : Whereabouts :=
  match places.address entry.1 with
  | none => places
  | some old =>
    if old = entry.2 then places
    else
      { address := fun id => if id = entry.1 then some entry.2 else places.address id
        id := fun addr =>
          if addr = entry.2 then some entry.1 else if addr = old then none else places.id addr }

/-- Known peers move, one after the other. -/
def moves (places : Whereabouts) (entries : List (UInt8 × SocketAddr)) : Whereabouts :=
  entries.foldl move places

theorem moves_append (places : Whereabouts) (entries : List (UInt8 × SocketAddr))
    (entry : UInt8 × SocketAddr) :
    places.moves (entries ++ [entry]) = (places.moves entries).move entry :=
  List.foldl_concat ..

end Whereabouts

namespace PeerManager

variable {D : Type}

/-- The whereabouts that a table tells. -/
def whereabouts (pm : PeerManager D) : Whereabouts where
  address id := (pm.getPeer id).map RemotePeer.addr
  id := pm.peerByAddr

/-- Peers and address index are the same maps. -/
def SameTable (pm pm' : PeerManager D) : Prop :=
  (∀ id, pm'.getPeer id = pm.getPeer id) ∧ ∀ addr, pm'.peerByAddr addr = pm.peerByAddr addr

/-- A table in which known peers moved, and nothing else happened. -/
structure Carried (start pm : PeerManager D) (moved : List (UInt8 × SocketAddr)) : Prop where
  size : pm.peers.size = start.peers.size
  localId : pm.localId = start.localId
  whereabouts : pm.whereabouts = start.whereabouts.moves moved
  known : ∀ id peer, start.getPeer id = some peer →
    ∃ addr, pm.getPeer id = some { peer with addr := addr }
  unknown : ∀ id, start.getPeer id = none → pm.getPeer id = none

theorem Carried.refl (pm : PeerManager D) : pm.Carried pm [] :=
  ⟨rfl, rfl, rfl, fun _ peer known => ⟨peer.addr, known⟩, fun _ unknown => unknown⟩

/-- Where peers only moved, the table is the same when they are back. -/
theorem Carried.same_iff {start pm : PeerManager D} {moved : List (UInt8 × SocketAddr)}
    (carried : Carried start pm moved) :
    SameTable start pm ↔ start.whereabouts.moves moved = start.whereabouts := by
  rw [← carried.whereabouts]
  constructor
  · rintro ⟨peers, ids⟩
    exact congrArg₂ Whereabouts.mk (funext fun id => congrArg _ (peers id)) (funext ids)
  · intro back
    refine ⟨fun id => ?_, congrFun (congrArg Whereabouts.id back)⟩
    cases before : start.getPeer id with
    | none => exact carried.unknown id before
    | some peer =>
      obtain ⟨addr, now⟩ := carried.known id peer before
      have same : (pm.getPeer id).map RemotePeer.addr = (start.getPeer id).map RemotePeer.addr :=
        congrFun (congrArg Whereabouts.address back) id
      rw [now, before, Option.map_some, Option.map_some, Option.some_inj] at same
      rw [now, show addr = peer.addr from same]

/-- Moving a peer in the table moves it in the whereabouts. -/
theorem whereabouts_moveAddr {pm : PeerManager D} {id : UInt8} {peer : RemotePeer D}
    (known : pm.getPeer id = some peer) (addr : SocketAddr) :
    (pm.moveAddr id peer addr).whereabouts = pm.whereabouts.move (id, addr) := by
  have place : pm.whereabouts.address id = some peer.addr :=
    congrArg (Option.map RemotePeer.addr) known
  rw [Whereabouts.move, place]
  dsimp only
  by_cases here : peer.addr = addr
  · rw [moveAddr, if_pos here, if_pos here]
  · rw [if_neg here]
    refine congrArg₂ Whereabouts.mk (funext fun k => ?_) (funext fun a => ?_)
    · rw [getPeer_moveAddr known]
      split_ifs
      · rfl
      · rfl
    · rw [moveAddr, if_neg here]
      refine (HashMap.lookup_insert ..).trans ?_
      split_ifs with new back
      · rfl
      · rw [back]
        exact AList.lookup_erase _ _
      · exact AList.lookup_erase_ne back

/-- A known peer is added again when there is room: it moves. -/
theorem Carried.addPeer {start pm : PeerManager D} {moved : List (UInt8 × SocketAddr)}
    (carried : Carried start pm moved) {id : UInt8} {peer : RemotePeer D}
    (known : start.getPeer id = some peer) (remote : id ≠ start.localId)
    (room : start.peers.size < maxPeers - 1) (addr : SocketAddr) (newDecoder : Option D)
    (now : Instant) :
    ∃ pm', pm.addPeer id addr newDecoder now = .ok pm' ∧
      Carried start pm' (moved ++ [(id, addr)]) := by
  obtain ⟨old, entry⟩ := carried.known id peer known
  have table := getPeer_moveAddr entry addr
  refine ⟨pm.moveAddr id { peer with addr := old } addr, ?_, ?_, ?_, ?_, ?_, ?_⟩
  · exact addPeer_of_known entry (carried.localId ▸ remote) (carried.size ▸ room) ..
  · exact (size_moveAddr entry addr).trans carried.size
  · refine Eq.trans ?_ carried.localId
    unfold moveAddr
    split_ifs
    · rfl
    · rfl
  · rw [whereabouts_moveAddr entry, carried.whereabouts, Whereabouts.moves_append]
  · intro k peer' known'
    rw [table]
    split_ifs with same
    · rw [same, known, Option.some_inj] at known'
      exact ⟨addr, by rw [known']⟩
    · exact carried.known k peer' known'
  · intro k unknown
    rw [table, if_neg, carried.unknown k unknown]
    rintro rfl
    rw [known] at unknown
    cases unknown

/-- A peer that awaits an answer already is greeted once more. -/
theorem Carried.helloSent {start pm : PeerManager D} {moved : List (UInt8 × SocketAddr)}
    (carried : Carried start pm moved) {id : UInt8} {peer : RemotePeer D}
    (known : start.getPeer id = some peer) (awaiting : peer.state = .helloSent) :
    Carried start (pm.modifyPeer id fun peer => { peer with state := .helloSent }) moved := by
  have same : pm.modifyPeer id (fun peer => { peer with state := .helloSent }) = pm := by
    obtain ⟨addr, entry⟩ := carried.known id peer known
    refine modifyPeer_eq_self fun found lookup => ?_
    cases entry.symm.trans lookup
    rw [← awaiting]
  rwa [same]

end PeerManager

namespace Node

variable {D : Type} {prim : Primitives D}

/-- Nothing that a handshake handler may change has changed. -/
structure Unchanged (node node' : Node D) : Prop where
  table : node.peerMgr.SameTable node'.peerMgr
  nextPeerId : node'.peerMgr.nextPeerId = node.peerMgr.nextPeerId
  localId : node'.peerMgr.localId = node.peerMgr.localId
  sessionId : node'.peerMgr.sessionId = node.peerMgr.sessionId
  cryptoCtx : node'.cryptoCtx = node.cryptoCtx

theorem Unchanged.refl (node : Node D) : node.Unchanged node :=
  ⟨⟨fun _ => rfl, fun _ => rfl⟩, rfl, rfl, rfl, rfl⟩

/-! ## JOIN -/

/-- The JOIN is refused before an id is allocated: the node is no host, it does not
open, or the ids are used up. -/
def JoinClean (prim : Primitives D) (node : Node D) (packet : Packet) : Prop :=
  node.peerMgr.isHost = false ∨ (∀ payload, openJoin prim node packet ≠ .ok payload) ∨
    maxPeers ≤ node.peerMgr.nextPeerId.toNat

theorem handleJoin_nextPeerId {node : Node D} {packet : Packet} (env : Env D)
    (srcAddr : SocketAddr) (reaches : ¬ JoinClean prim node packet) :
    (handleJoin prim node env srcAddr packet).node.peerMgr.nextPeerId =
      node.peerMgr.nextPeerId + 1 := by
  unfold JoinClean at reaches
  push Not at reaches
  obtain ⟨host, ⟨payload, opened⟩, left⟩ := reaches
  have isHost : node.peerMgr.isHost = true := by simpa using host
  have allocated := PeerManager.allocatePeerId_of_left isHost left
  rw [handleJoin, if_neg (by rw [isHost]; decide), opened]
  dsimp only
  rw [allocated]
  dsimp only
  split
  · rfl
  · rename_i peerMgr added
    obtain ⟨_, _, _, nextPeerId, _⟩ := PeerManager.addPeer_eq_ok added
    rw [sendPeerList_node]
    exact nextPeerId

theorem handleJoin_unchanged_iff (node : Node D) (env : Env D) (srcAddr : SocketAddr)
    (packet : Packet) :
    node.Unchanged (handleJoin prim node env srcAddr packet).node ↔
      JoinClean prim node packet := by
  constructor
  · intro unchanged
    by_contra reaches
    have counted := unchanged.nextPeerId
    rw [handleJoin_nextPeerId env srcAddr reaches] at counted
    exact absurd (add_eq_left.mp counted) (by decide)
  · intro clean
    rcases handleJoin_cases prim node env srcAddr packet with
      ⟨e, refused⟩ | ⟨payload, id, peerMgr, opened, allocated, _⟩
    · rw [refused]
      exact Unchanged.refl node
    · obtain ⟨isHost, _, left, _⟩ := PeerManager.allocatePeerId_eq_ok allocated
      rcases clean with guest | closed | exhausted
      · rw [isHost] at guest
        cases guest
      · exact absurd opened (closed payload)
      · exact absurd left (Nat.not_lt.mpr exhausted)

/-! ## HELLO -/

/-- The HELLO does not open, or leaves the entry of its sender as it is: a known sender
was connected and seen just now, an unknown one can not be added. -/
def HelloClean (prim : Primitives D) (node : Node D) (env : Env D) (packet : Packet) : Prop :=
  (∀ plaintext, opens prim (node.pskCtx node.peerMgr.sessionId) packet ≠ .ok plaintext) ∨
    match node.getPeer packet.header.peerId with
    | some peer => peer.state = .connected ∧ peer.lastSeen = env.now
    | none => packet.header.peerId = node.peerMgr.localId ∨
        maxPeers - 1 ≤ node.peerMgr.peers.size ∨ env.newDecoder = none

/-- The entry of the sender of a HELLO that opens and can be taken in. -/
theorem handleHello_node {node : Node D} {env : Env D} {srcAddr : SocketAddr} {packet : Packet}
    {plaintext : Bytes} {peerMgr : PeerManager D}
    (opened : opens prim (node.pskCtx node.peerMgr.sessionId) packet = .ok plaintext)
    (greeting : node.greeted env srcAddr packet.header.peerId = .ok peerMgr) :
    (handleHello prim node env srcAddr packet).node =
      { node with peerMgr := peerMgr.modifyPeer packet.header.peerId (·.connect env.now) } := by
  rw [handleHello, opened]
  dsimp only
  rw [greeting]
  exact sendSealed_node ..

theorem connect_eq_self_iff {peer : RemotePeer D} {now : Instant} :
    peer.connect now = peer ↔ peer.state = .connected ∧ peer.lastSeen = now := by
  constructor
  · intro same
    exact ⟨(congrArg RemotePeer.state same).symm, (congrArg RemotePeer.lastSeen same).symm⟩
  · rintro ⟨state, seen⟩
    rw [RemotePeer.connect, ← state, ← seen]

/-- A HELLO from a known peer changes nothing exactly when the peer was connected and
seen just now. -/
theorem handleHello_unchanged_iff_of_known {node : Node D} {env : Env D} (srcAddr : SocketAddr)
    {packet : Packet} {plaintext : Bytes} {peer : RemotePeer D}
    (opened : opens prim (node.pskCtx node.peerMgr.sessionId) packet = .ok plaintext)
    (known : node.peerMgr.getPeer packet.header.peerId = some peer) :
    node.Unchanged (handleHello prim node env srcAddr packet).node ↔
      peer.state = .connected ∧ peer.lastSeen = env.now := by
  have greeting : node.greeted env srcAddr packet.header.peerId = .ok node.peerMgr := by
    rw [greeted, known]
  rw [handleHello_node opened greeting, ← connect_eq_self_iff]
  constructor
  · intro unchanged
    have same := unchanged.table.1 packet.header.peerId
    rw [PeerManager.getPeer_modifyPeer, if_pos rfl, known] at same
    exact Option.some_inj.mp same
  · intro same
    have fixed : node.peerMgr.modifyPeer packet.header.peerId (·.connect env.now) =
        node.peerMgr := by
      refine PeerManager.modifyPeer_eq_self fun found lookup => ?_
      cases known.symm.trans lookup
      exact same
    rw [fixed]
    exact Unchanged.refl node

/-- A HELLO from an unknown sender changes nothing exactly when the sender can not be
added. -/
theorem handleHello_unchanged_iff_of_unknown {node : Node D} {env : Env D}
    (srcAddr : SocketAddr) {packet : Packet} {plaintext : Bytes}
    (opened : opens prim (node.pskCtx node.peerMgr.sessionId) packet = .ok plaintext)
    (unknown : node.peerMgr.getPeer packet.header.peerId = none) :
    node.Unchanged (handleHello prim node env srcAddr packet).node ↔
      packet.header.peerId = node.peerMgr.localId ∨
        maxPeers - 1 ≤ node.peerMgr.peers.size ∨ env.newDecoder = none := by
  have greeting : node.greeted env srcAddr packet.header.peerId =
      node.peerMgr.addPeer packet.header.peerId srcAddr env.newDecoder env.now := by
    rw [greeted, unknown]
  by_cases self : packet.header.peerId = node.peerMgr.localId
  · refine iff_of_true ?_ (Or.inl self)
    have added : node.peerMgr.addPeer packet.header.peerId srcAddr env.newDecoder env.now =
        .ok node.peerMgr := if_pos self
    rw [handleHello_node opened (greeting.trans added)]
    have fixed : node.peerMgr.modifyPeer packet.header.peerId (·.connect env.now) =
        node.peerMgr :=
      PeerManager.modifyPeer_eq_self fun found lookup => by cases unknown.symm.trans lookup
    rw [fixed]
    exact Unchanged.refl node
  · rw [or_iff_right self]
    by_cases stops : maxPeers - 1 ≤ node.peerMgr.peers.size ∨ env.newDecoder = none
    · obtain ⟨e, refused⟩ := PeerManager.addPeer_refused self unknown stops srcAddr env.now
      refine iff_of_true ?_ stops
      rw [handleHello, opened]
      dsimp only
      rw [greeting, refused]
      exact Unchanged.refl node
    · refine iff_of_false (fun unchanged => ?_) stops
      push Not at stops
      obtain ⟨room, decoder⟩ := stops
      obtain ⟨decoder, provided⟩ := Option.ne_none_iff_exists'.mp decoder
      obtain ⟨peerMgr, added, _, table⟩ := node.peerMgr.addPeer_of_room self room unknown srcAddr
        decoder env.now
      rw [provided, added] at greeting
      rw [handleHello_node opened greeting] at unchanged
      have same := unchanged.table.1 packet.header.peerId
      rw [PeerManager.getPeer_modifyPeer, if_pos rfl, table, if_pos rfl, unknown] at same
      cases same

theorem handleHello_unchanged_iff (node : Node D) (env : Env D) (srcAddr : SocketAddr)
    (packet : Packet) :
    node.Unchanged (handleHello prim node env srcAddr packet).node ↔
      HelloClean prim node env packet := by
  cases opened : opens prim (node.pskCtx node.peerMgr.sessionId) packet with
  | error e =>
    refine iff_of_true ?_ (Or.inl fun plaintext opens' => by rw [opened] at opens'; cases opens')
    rw [handleHello, opened]
    exact Unchanged.refl node
  | ok plaintext =>
    refine Iff.trans ?_ (or_iff_right fun closed => closed plaintext opened).symm
    cases entry : node.getPeer packet.header.peerId with
    | some peer => exact handleHello_unchanged_iff_of_known srcAddr opened entry
    | none => exact handleHello_unchanged_iff_of_unknown srcAddr opened entry

/-! ## PEER_LIST -/

/-- The cipher seals the HELLOs that answer a peer list. -/
def sealsHello (prim : Primitives D) (key : Key) (sessionId : SessionId) (myId : UInt8) : Bool :=
  ((CryptoContext.new key sessionId).encrypt prim.aead
    (PacketHeader.toBytes ⟨pktHello, myId, 0, 0⟩) [] myId 0 0).isOk

theorem sealHello_cases (prim : Primitives D) (key : Key) (sessionId : SessionId) (myId : UInt8)
    (dst : SocketAddr) (sent : Bool) :
    (sealsHello prim key sessionId myId = false ∧
        ∃ e, sealPacket prim.aead .psk (CryptoContext.new key sessionId) ⟨pktHello, myId, 0, 0⟩ []
          dst sent myId 0 0 = .error e) ∨
      sealsHello prim key sessionId myId = true ∧
        ∃ packet, sealPacket prim.aead .psk (CryptoContext.new key sessionId)
          ⟨pktHello, myId, 0, 0⟩ [] dst sent myId 0 0 = .ok packet ∧ packet.sent = sent := by
  unfold sealsHello sealPacket
  cases (CryptoContext.new key sessionId).encrypt prim.aead
      (PacketHeader.toBytes ⟨pktHello, myId, 0, 0⟩) [] myId 0 0 with
  | error e => exact Or.inl ⟨rfl, e, rfl⟩
  | ok encrypted => exact Or.inr ⟨rfl, _, rfl, rfl⟩

/-- What a list does to a table, up to the entry that can not be greeted, cancels out:
every peer that is greeted is known and awaits an answer already, and in the end every
known peer is back where it was. `moved` are the addresses that were given before. -/
def Cancels (prim : Primitives D) (pm : PeerManager D) (key : Key) (env : Env D)
    (sessionId : SessionId) (myId sender : UInt8) (srcAddr : SocketAddr) :
    (moved entries : List (UInt8 × SocketAddr)) → Prop
  | _, [] => True
  | moved, (id, addr) :: rest =>
    if id = myId then Cancels prim pm key env sessionId myId sender srcAddr moved rest
    else
      let moved' := moved ++ [(id, if id = sender then srcAddr else addr)]
      match pm.getPeer id with
      | none => (maxPeers - 1 ≤ pm.peers.size ∨ env.newDecoder = none) ∧
          pm.whereabouts.moves moved = pm.whereabouts
      | some peer =>
        if maxPeers - 1 ≤ pm.peers.size then
          pm.whereabouts.moves moved = pm.whereabouts
        else if sealsHello prim key sessionId myId && env.sendOk moved.length then
          peer.state = .helloSent ∧
            Cancels prim pm key env sessionId myId sender srcAddr moved' rest
        else
          pm.whereabouts.moves moved' = pm.whereabouts

/-- A list of peers that await an answer already, each at the address it has, cancels out. -/
theorem cancels_of_settled {pm : PeerManager D} {key : Key} {env : Env D} {sessionId : SessionId}
    {myId sender : UInt8} {srcAddr : SocketAddr} {moved entries : List (UInt8 × SocketAddr)}
    (settled : ∀ entry ∈ entries, entry.1 ≠ myId → ∃ peer, pm.getPeer entry.1 = some peer ∧
      peer.state = .helloSent ∧ peer.addr = if entry.1 = sender then srcAddr else entry.2)
    (back : pm.whereabouts.moves moved = pm.whereabouts) :
    Cancels prim pm key env sessionId myId sender srcAddr moved entries := by
  induction entries generalizing moved with
  | nil => trivial
  | cons entry rest ih =>
    obtain ⟨id, addr⟩ := entry
    have others := fun entry member => settled entry (List.mem_cons_of_mem _ member)
    unfold Cancels
    by_cases self : id = myId
    · rw [if_pos self]
      exact ih others back
    · rw [if_neg self]
      obtain ⟨peer, known, awaiting, here⟩ := settled (id, addr) List.mem_cons_self self
      have stays : pm.whereabouts.moves (moved ++ [(id, if id = sender then srcAddr else addr)]) =
          pm.whereabouts := by
        have place : pm.whereabouts.address id = some peer.addr :=
          congrArg (Option.map RemotePeer.addr) known
        rw [Whereabouts.moves_append, back, Whereabouts.move, place]
        exact if_pos here
      rw [known]
      dsimp only
      by_cases full : maxPeers - 1 ≤ pm.peers.size
      · rwa [if_pos full]
      · rw [if_neg full]
        by_cases sent : (sealsHello prim key sessionId myId && env.sendOk moved.length) = true
        · rw [if_pos sent]
          exact ⟨awaiting, ih others stays⟩
        · rwa [if_neg sent]

/-- A peer that was greeted awaits its answer after the rest of the list, too. -/
theorem helloSent_of_greetPeers {key : Key} {env : Env D} {sessionId : SessionId}
    {myId sender : UInt8} {srcAddr : SocketAddr} {peers : List (UInt8 × SocketAddr)}
    {pm : PeerManager D} {out : List Emission} {k : UInt8} {peer : RemotePeer D}
    (known : pm.getPeer k = some peer) (awaiting : peer.state = .helloSent) :
    ∃ peer', (greetPeers prim key env sessionId myId sender srcAddr peers pm out).1.getPeer k =
      some peer' ∧ peer'.state = .helloSent := by
  refine greetPeers_preserves
    (fun pm => ∃ peer, pm.getPeer k = some peer ∧ peer.state = .helloSent) out ?_
    ⟨peer, known, awaiting⟩
  rintro id addr - - pm pm' added ⟨peer, known, awaiting⟩
  obtain ⟨peer', known', awaiting'⟩ :
      ∃ peer', pm'.getPeer k = some peer' ∧ peer'.state = .helloSent := by
    by_cases same : k = id
    · by_cases own : id = pm.localId
      · exact ⟨peer, by rwa [PeerManager.addPeer_self added own], awaiting⟩
      · obtain ⟨new, table, ⟨unknown, _⟩ | ⟨old, found, rfl⟩⟩ :=
          PeerManager.getPeer_addPeer added own
        · rw [← same, known] at unknown
          cases unknown
        · rw [← same, known, Option.some_inj] at found
          exact ⟨_, (table k).trans (if_pos same), found ▸ awaiting⟩
    · exact ⟨peer, (PeerManager.getPeer_addPeer_of_ne added same).trans known, awaiting⟩
  have greeted := PeerManager.getPeer_modifyPeer pm' id k
    fun peer => { peer with state := .helloSent }
  rw [known', Option.map_some] at greeted
  refine ⟨⟨peer', known', awaiting'⟩, ?_⟩
  by_cases same : k = id
  · exact ⟨_, greeted.trans (if_pos same), rfl⟩
  · exact ⟨peer', greeted.trans (if_neg same), awaiting'⟩

/-- Who is known stays known while a list is greeted. -/
theorem known_of_greetPeers {key : Key} {env : Env D} {sessionId : SessionId}
    {myId sender : UInt8} {srcAddr : SocketAddr} {peers : List (UInt8 × SocketAddr)}
    {pm : PeerManager D} {out : List Emission} {k : UInt8}
    (known : ∃ peer, pm.getPeer k = some peer) :
    ∃ peer, (greetPeers prim key env sessionId myId sender srcAddr peers pm out).1.getPeer k =
      some peer := by
  refine greetPeers_preserves (fun pm => ∃ peer, pm.getPeer k = some peer) out ?_ known
  rintro id addr - - pm pm' added ⟨peer, known⟩
  have entered : ∃ peer, pm'.getPeer k = some peer := by
    by_cases own : id = pm.localId
    · exact ⟨peer, by rwa [PeerManager.addPeer_self added own]⟩
    · obtain ⟨new, table, _⟩ := PeerManager.getPeer_addPeer added own
      rw [table]
      split_ifs
      · exact ⟨new, rfl⟩
      · exact ⟨peer, known⟩
  refine ⟨entered, ?_⟩
  obtain ⟨peer, known⟩ := entered
  rw [PeerManager.getPeer_modifyPeer, known]
  split_ifs
  · exact ⟨_, rfl⟩
  · exact ⟨peer, rfl⟩

/-- The peer that a list begins with is known after it, if it could be added at all. -/
theorem known_of_greetPeers_cons {key : Key} {env : Env D} {sessionId : SessionId}
    {myId sender id : UInt8} {srcAddr addr : SocketAddr} {rest : List (UInt8 × SocketAddr)}
    {pm pm' : PeerManager D} {out : List Emission} (other : id ≠ myId)
    (added : pm.addPeer id (if id = sender then srcAddr else addr) env.newDecoder env.now =
      .ok pm') (known : ∃ peer, pm'.getPeer id = some peer) :
    ∃ peer, (greetPeers prim key env sessionId myId sender srcAddr ((id, addr) :: rest) pm
      out).1.getPeer id = some peer := by
  rw [greetPeers, if_neg other]
  dsimp only
  rw [added]
  dsimp only
  split
  · exact known
  · split_ifs
    · refine known_of_greetPeers ?_
      obtain ⟨peer, known⟩ := known
      rw [PeerManager.getPeer_modifyPeer, if_pos rfl, known]
      exact ⟨_, rfl⟩
    · exact known

/-- A table in which a peer is known that was not, or awaits an answer that it did not,
is another one. -/
theorem not_sameTable_of_helloSent {start pm : PeerManager D} {id : UInt8}
    (before : ∀ peer, start.getPeer id = some peer → peer.state ≠ .helloSent)
    (after : ∃ peer, pm.getPeer id = some peer ∧ peer.state = .helloSent) :
    ¬ start.SameTable pm := by
  rintro ⟨same, _⟩
  obtain ⟨peer, known, awaiting⟩ := after
  exact before peer ((same id).symm.trans known) awaiting

/-- A list that begins with an unknown peer leaves the table as it was exactly when that
peer is refused and the addresses given before cancel out. -/
theorem greetPeers_same_iff_of_unknown {key : Key} {env : Env D} {sessionId : SessionId}
    {myId sender id : UInt8} {srcAddr addr : SocketAddr} {rest : List (UInt8 × SocketAddr)}
    {start pm : PeerManager D} {moved : List (UInt8 × SocketAddr)} {out : List Emission}
    (carried : start.Carried pm moved) (own : start.localId = myId) (other : id ≠ myId)
    (entry : start.getPeer id = none) :
    start.SameTable (greetPeers prim key env sessionId myId sender srcAddr ((id, addr) :: rest) pm
        out).1 ↔
      (maxPeers - 1 ≤ start.peers.size ∨ env.newDecoder = none) ∧
        start.whereabouts.moves moved = start.whereabouts := by
  have unknown := carried.unknown id entry
  have remote : id ≠ pm.localId := carried.localId ▸ own ▸ other
  by_cases stops : maxPeers - 1 ≤ start.peers.size ∨ env.newDecoder = none
  · obtain ⟨refusal, refused⟩ := PeerManager.addPeer_refused remote unknown
      (carried.size ▸ stops) (if id = sender then srcAddr else addr) env.now
    rw [greetPeers, if_neg other]
    dsimp only
    rw [refused]
    exact carried.same_iff.trans (and_iff_right stops).symm
  · refine iff_of_false (fun same => ?_) fun cancels => stops cancels.1
    push Not at stops
    obtain ⟨room, decoder⟩ := stops
    obtain ⟨decoder, provided⟩ := Option.ne_none_iff_exists'.mp decoder
    obtain ⟨pm', added, _, table⟩ := pm.addPeer_of_room remote (carried.size ▸ room) unknown
      (if id = sender then srcAddr else addr) decoder env.now
    -- the new entry stays, whatever becomes of the rest
    obtain ⟨peer, known⟩ : ∃ peer, (greetPeers prim key env sessionId myId sender srcAddr
        ((id, addr) :: rest) pm out).1.getPeer id = some peer :=
      known_of_greetPeers_cons other (provided ▸ added) ⟨_, (table id).trans (if_pos rfl)⟩
    rw [same.1 id, entry] at known
    cases known

/-- **A list whose greeting fails** leaves the table as it was exactly when what it did
cancels out. -/
theorem greetPeers_same_iff {key : Key} {env : Env D} {sessionId : SessionId}
    {myId sender : UInt8} {srcAddr : SocketAddr} {peers : List (UInt8 × SocketAddr)}
    {start pm : PeerManager D} {moved : List (UInt8 × SocketAddr)} {out : List Emission}
    {e : Error} (carried : start.Carried pm moved) (count : out.length = moved.length)
    (own : start.localId = myId)
    (failed : (greetPeers prim key env sessionId myId sender srcAddr peers pm out).2.2 =
      .error e) :
    start.SameTable (greetPeers prim key env sessionId myId sender srcAddr peers pm out).1 ↔
      Cancels prim start key env sessionId myId sender srcAddr moved peers := by
  induction peers generalizing pm moved out with
  | nil => cases failed
  | cons entry rest ih =>
    obtain ⟨id, addr⟩ := entry
    unfold Cancels
    by_cases self : id = myId
    · rw [greetPeers, if_pos self] at failed ⊢
      rw [if_pos self]
      exact ih carried count failed
    rw [if_neg self]
    cases entry : start.getPeer id with
    | none => exact greetPeers_same_iff_of_unknown carried own self entry
    | some peer =>
      have remote : id ≠ start.localId := own ▸ self
      have remote' : id ≠ pm.localId := carried.localId ▸ remote
      rw [greetPeers, if_neg self] at failed ⊢
      dsimp only at failed ⊢
      generalize (if id = sender then srcAddr else addr) = peerAddr at failed ⊢
      by_cases full : maxPeers - 1 ≤ start.peers.size
      · rw [PeerManager.addPeer_full remote' (carried.size ▸ full), if_pos full]
        exact carried.same_iff
      rw [if_neg full]
      obtain ⟨pm', added, carried'⟩ := carried.addPeer entry remote (Nat.lt_of_not_le full)
        peerAddr env.newDecoder env.now
      rw [added] at failed ⊢
      dsimp only at failed ⊢
      rcases sealHello_cases prim key sessionId myId peerAddr
          (env.sendOk out.length) with ⟨refuses, refusal, refused⟩ | ⟨seals, packet, sealed, sent⟩
      · rw [refused, refuses]
        exact carried'.same_iff
      · rw [sealed] at failed ⊢
        dsimp only at failed ⊢
        rw [seals, Bool.true_and, ← count, ← sent]
        by_cases taken : packet.sent = true
        · rw [if_pos taken] at failed ⊢
          rw [if_pos taken]
          by_cases awaiting : peer.state = .helloSent
          · rw [and_iff_right awaiting]
            refine ih (carried'.helloSent entry awaiting) ?_ failed
            rw [List.length_append, List.length_append, count]
            rfl
          · have before : ∀ peer', start.getPeer id = some peer' → peer'.state ≠ .helloSent := by
              intro peer' known
              rw [entry, Option.some_inj] at known
              exact known ▸ awaiting
            obtain ⟨addr', known⟩ := carried'.known id peer entry
            have greeted := PeerManager.getPeer_modifyPeer pm' id id
              fun peer => { peer with state := .helloSent }
            rw [if_pos rfl, known, Option.map_some] at greeted
            exact iff_of_false (not_sameTable_of_helloSent before
              (helloSent_of_greetPeers greeted rfl)) fun both => awaiting both.1
        · rw [if_neg taken, if_neg taken]
          exact carried'.same_iff

/-- The PEER_LIST does not open, or it gives the node the identity and the unused context
it has, and what its greetings do cancels out. -/
def PeerListClean (prim : Primitives D) (node : Node D) (env : Env D) (srcAddr : SocketAddr)
    (packet : Packet) : Prop :=
  ∀ myId list, openPeerList prim node packet = .ok (myId, list) →
    node.peerMgr.localId = myId ∧ node.peerMgr.sessionId = list.sessionId ∧
      node.cryptoCtx = CryptoContext.new node.key list.sessionId ∧
      Cancels prim node.peerMgr node.key env list.sessionId myId packet.header.peerId srcAddr []
        list.peers

theorem handlePeerList_unchanged_iff {node : Node D} {env : Env D} {srcAddr : SocketAddr}
    {packet : Packet} {e : Error}
    (failed : (handlePeerList prim node env srcAddr packet).result = .error e) :
    node.Unchanged (handlePeerList prim node env srcAddr packet).node ↔
      PeerListClean prim node env srcAddr packet := by
  cases opened : openPeerList prim node packet with
  | error e' =>
    refine iff_of_true ?_ fun myId list opens => ?_
    · rw [handlePeerList, opened]
      exact Unchanged.refl node
    · rw [opened] at opens
      cases opens
  | ok read =>
    obtain ⟨myId, list⟩ := read
    have clean : PeerListClean prim node env srcAddr packet ↔
        node.peerMgr.localId = myId ∧ node.peerMgr.sessionId = list.sessionId ∧
          node.cryptoCtx = CryptoContext.new node.key list.sessionId ∧
          Cancels prim node.peerMgr node.key env list.sessionId myId packet.header.peerId srcAddr
            [] list.peers := by
      refine ⟨fun clean => clean myId list opened, fun holds myId' list' opens => ?_⟩
      rw [opened] at opens
      cases opens
      exact holds
    rw [clean]
    unfold handlePeerList at failed ⊢
    rw [opened] at failed ⊢
    dsimp only at failed ⊢
    obtain ⟨localId, sessionId, _, nextPeerId⟩ := greetPeers_identity prim node.key env
      list.sessionId myId packet.header.peerId srcAddr list.peers
      (node.peerMgr.setIdentity myId list.sessionId) []
    by_cases own : node.peerMgr.localId = myId ∧ node.peerMgr.sessionId = list.sessionId
    · obtain ⟨own, session⟩ := own
      have keeps : node.peerMgr.setIdentity myId list.sessionId = node.peerMgr := by
        rw [PeerManager.setIdentity, ← own, ← session]
      rw [keeps] at failed localId sessionId nextPeerId ⊢
      have same := greetPeers_same_iff (PeerManager.Carried.refl node.peerMgr) rfl own failed
      rw [and_iff_right own, and_iff_right session, ← same]
      constructor
      · intro unchanged
        exact ⟨unchanged.cryptoCtx.symm, unchanged.table⟩
      · rintro ⟨unused, table⟩
        exact ⟨table, nextPeerId, localId, sessionId, unused.symm⟩
    · refine iff_of_false (fun unchanged => own ?_) fun holds => own ⟨holds.1, holds.2.1⟩
      exact ⟨unchanged.localId.symm.trans localId, unchanged.sessionId.symm.trans sessionId⟩

/-! ## All three -/

/-- A JOIN, a HELLO or a PEER_LIST that leaves nothing behind when it fails. -/
def Clean (prim : Primitives D) (node : Node D) (env : Env D) (srcAddr : SocketAddr)
    (packet : Packet) : Prop :=
  (packet.header.pktType = pktJoin → JoinClean prim node packet) ∧
    (packet.header.pktType = pktHello → HelloClean prim node env packet) ∧
    (packet.header.pktType = pktPeerList → PeerListClean prim node env srcAddr packet)

/-- **When an error leaves no trace.** A JOIN, PEER_LIST or HELLO that is answered with an
error leaves the peers, the address index, the ids, the session and its context as they
were if and only if it is clean. -/
theorem unchanged_iff (node : Node D) (env : Env D) (data : Bytes) (srcAddr : SocketAddr)
    {packet : Packet} (parsed : Packet.parse data = .ok packet) (handshake : MovesPeers packet)
    {e : Error} (failed : (handleIncoming prim node env data srcAddr).result = .error e) :
    node.Unchanged (handleIncoming prim node env data srcAddr).node ↔
      Clean prim node env srcAddr packet := by
  rw [handleIncoming_eq prim parsed] at failed ⊢
  unfold Clean
  rcases handshake with join | peerList | hello
  · rw [handlePacket_join prim join, handleJoin_unchanged_iff, join]
    exact ⟨fun clean => ⟨fun _ => clean, fun other => absurd other (by decide),
      fun other => absurd other (by decide)⟩, fun clean => clean.1 rfl⟩
  · rw [handlePacket_peerList prim peerList] at failed ⊢
    rw [handlePeerList_unchanged_iff failed, peerList]
    exact ⟨fun clean => ⟨fun other => absurd other (by decide),
      fun other => absurd other (by decide), fun _ => clean⟩, fun clean => clean.2.2 rfl⟩
  · rw [handlePacket_hello prim hello, handleHello_unchanged_iff, hello]
    exact ⟨fun clean => ⟨fun other => absurd other (by decide), fun _ => clean,
      fun other => absurd other (by decide)⟩, fun clean => clean.2.1 rfl⟩

end Node

namespace Sample

/-- An environment in which nothing can be sent. -/
def mute (n : UInt8) (now : Instant) : Env Unit := { env n now with sendOk := fun _ => false }

end Sample

namespace Node

/-- Nothing is left behind by a JOIN to a host whose ids are used up, the HELLO of a stranger
to a full table, and a peer list that comes again when nothing can be sent. -/
theorem unchanged_of_late_failure :
    (Sample.hostOf [1, 2, 3, 4]).Unchanged (handleIncoming Primitives.transparent
        (Sample.hostOf [1, 2, 3, 4]) (Sample.env 0 1) Sample.join (Sample.addr 5)).node ∧
      (Sample.hostOf [1, 2, 3, 4]).Unchanged (handleIncoming Primitives.transparent
        (Sample.hostOf [1, 2, 3, 4]) (Sample.env 0 1) (Sample.hello 9) (Sample.addr 9)).node ∧
      Sample.greeting.node.Unchanged (handleIncoming Primitives.transparent Sample.greeting.node
        (Sample.mute 1 1) (Sample.wires Sample.hostOfOne.out) (Sample.addr 0)).node := by
  have read : ∀ {data : Bytes} {header : PacketHeader},
      (Packet.parse data).toOption.map Packet.header = some header →
      ∃ packet, Packet.parse data = .ok packet ∧ packet.header = header := by
    intro data header parsed
    cases result : Packet.parse data with
    | error e =>
        rw [result] at parsed
        cases parsed
    | ok packet =>
        rw [result] at parsed
        exact ⟨packet, rfl, Option.some.inj parsed⟩
  refine ⟨?_, ?_, ?_⟩
  · obtain ⟨packet, parsed, header⟩ := read
      (show (Packet.parse Sample.join).toOption.map Packet.header = some ⟨pktJoin, 0, 0, 0⟩ by
        decide +kernel)
    have failed : (handleIncoming Primitives.transparent (Sample.hostOf [1, 2, 3, 4])
        (Sample.env 0 1) Sample.join (Sample.addr 5)).result = .error .noMorePeerIds := by
      decide +kernel
    refine (unchanged_iff _ _ _ _ parsed (Or.inl (by rw [header])) failed).mpr ?_
    unfold Clean
    rw [header]
    exact ⟨fun _ => Or.inr (Or.inr (by decide +kernel)), fun other => absurd other (by decide),
      fun other => absurd other (by decide)⟩
  · obtain ⟨packet, parsed, header⟩ := read
      (show (Packet.parse (Sample.hello 9)).toOption.map Packet.header =
        some ⟨pktHello, 9, 0, 0⟩ by decide +kernel)
    have failed : (handleIncoming Primitives.transparent (Sample.hostOf [1, 2, 3, 4])
        (Sample.env 0 1) (Sample.hello 9) (Sample.addr 9)).result = .error .maxPeersReached := by
      decide +kernel
    refine (unchanged_iff _ _ _ _ parsed (Or.inr (Or.inr (by rw [header]))) failed).mpr ?_
    unfold Clean HelloClean
    rw [header]
    refine ⟨fun other => absurd other (by decide), fun _ => Or.inr ?_,
      fun other => absurd other (by decide)⟩
    have unknown : (Sample.hostOf [1, 2, 3, 4]).getPeer 9 = none := by decide +kernel
    rw [unknown]
    exact Or.inr (Or.inl (by decide +kernel))
  · obtain ⟨packet, parsed, header⟩ := read
      (show (Packet.parse (Sample.wires Sample.hostOfOne.out)).toOption.map Packet.header =
        some ⟨pktPeerList, 0, 0, 0⟩ by decide +kernel)
    have failed : (handleIncoming Primitives.transparent Sample.greeting.node (Sample.mute 1 1)
        (Sample.wires Sample.hostOfOne.out) (Sample.addr 0)).result = .error .sendFailed := by
      decide +kernel
    refine (unchanged_iff _ _ _ _ parsed (Or.inr (Or.inl (by rw [header]))) failed).mpr ?_
    unfold Clean
    rw [header]
    refine ⟨fun other => absurd other (by decide), fun other => absurd other (by decide),
      fun _ myId list opened => ?_⟩
    have value : (Packet.parse (Sample.wires Sample.hostOfOne.out)).toOption.bind (fun packet =>
        (openPeerList Primitives.transparent Sample.greeting.node packet).toOption) =
        some (1, ⟨Sample.session, [(0, Sample.addr 0), (1, Sample.addr 1)]⟩) := by decide +kernel
    rw [parsed] at value
    change (openPeerList Primitives.transparent Sample.greeting.node packet).toOption = _ at value
    rw [opened] at value
    cases value
    -- the host is listed where it is, and its answer is awaited already
    refine ⟨by decide +kernel, by decide +kernel, by decide +kernel, cancels_of_settled ?_ rfl⟩
    intro entry member other
    rcases List.mem_cons.mp member with rfl | self
    · have host : (Sample.greeting.node.getPeer 0).map (fun peer => (peer.state, peer.addr)) =
          some (.helloSent, Sample.addr 0) := by decide +kernel
      obtain ⟨peer, known, place⟩ := Option.map_eq_some_iff.mp host
      obtain ⟨awaiting, here⟩ := Prod.mk.inj place
      exact ⟨peer, known, awaiting, by rw [here, ite_self]⟩
    · rw [List.mem_singleton.mp self] at other
      exact absurd rfl other

/-- **A JOIN that fails uses up an id**: a host that is bound to no particular address and
has no route to the joining node. -/
theorem join_error_leaks_id :
    ¬ ∀ (inputs : List (Env Unit × Event)) (env : Env Unit) (data : Bytes) (srcAddr : SocketAddr)
      (packet : Packet) (e : Error), Packet.parse data = .ok packet → MovesPeers packet →
      let node := (nodeMachine Primitives.transparent).run Sample.host inputs
      (handleIncoming Primitives.transparent node env data srcAddr).result = .error e →
        node.Unchanged (handleIncoming Primitives.transparent node env data srcAddr).node := by
  intro claim
  have parsed : ∃ packet, Packet.parse Sample.join = .ok packet ∧
      packet.header.pktType = pktJoin := ⟨_, rfl, rfl⟩
  obtain ⟨packet, parsed, join⟩ := parsed
  have unchanged := claim [] (Env.ideal () (.v4 (fourBytes 0 0 0 0) 5000) 0) Sample.join
    (Sample.addr 1) packet .noLocalIp parsed (Or.inl join) (by decide +kernel)
  exact absurd unchanged.nextPeerId (by decide +kernel)

end Node

end VoiceChat
