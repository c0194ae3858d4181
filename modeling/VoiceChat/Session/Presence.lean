import VoiceChat.Session.Connections

/-!
# When a peer was last seen

The table keeps for each peer its state and the time it was last seen. For an entry
that is in the table already, a received packet refreshes the time of at most one
entry (`refreshed`), and makes at most one entry connected (`greeter`). Which peer a
packet is from is another matter (`speaker`): a KEEPALIVE and a PING refresh the
entry that their source address is known under, not the one that they name.
-/

set_option autoImplicit false

namespace VoiceChat

namespace PeerManager

variable {D : Type}

/-- Adding a peer does not change when a known one was seen. -/
theorem presence_of_addPeer {pm pm' : PeerManager D} {id k : UInt8} {addr : SocketAddr}
    {newDecoder : Option D} {now : Instant} (added : pm.addPeer id addr newDecoder now = .ok pm')
    {peer : RemotePeer D} (known : pm.getPeer k = some peer) :
    ∃ peer', pm'.getPeer k = some peer' ∧ peer'.state = peer.state ∧
      peer'.lastSeen = peer.lastSeen := by
  by_cases self : id = pm.localId
  · rw [addPeer_self added self]
    exact ⟨peer, known, rfl, rfl⟩
  · obtain ⟨entered, table, origin⟩ := getPeer_addPeer added self
    by_cases here : k = id
    · subst here
      refine ⟨entered, (table k).trans (if_pos rfl), ?_⟩
      rcases origin with ⟨unknown, _⟩ | ⟨old, before, rfl⟩
      · cases unknown.symm.trans known
      · cases before.symm.trans known
        exact ⟨rfl, rfl⟩
    · exact ⟨peer, ((table k).trans (if_neg here)).trans known, rfl, rfl⟩

end PeerManager

namespace Node

variable {D : Type} {prim : Primitives D}

/-! ## Whom a packet is from, and what it does -/

/-- The id under which a JOIN is let in. -/
def joined (prim : Primitives D) (node : Node D) (env : Env D) (srcAddr : SocketAddr)
    (packet : Packet) : Option UInt8 :=
  if node.peerMgr.isHost && (openJoin prim node packet).isOk then
    match node.peerMgr.allocatePeerId with
    | .error _ => none
    | .ok (id, peerMgr) =>
      if (peerMgr.addPeer id srcAddr env.newDecoder env.now).isOk then some id else none
  else
    none

/-- The peer that an authentic packet is from. A peer list and a key exchange do not
count as signs of life. -/
def speaker (prim : Primitives D) (node : Node D) (env : Env D) (srcAddr : SocketAddr)
    (packet : Packet) : Option UInt8 :=
  if packet.header.pktType = pktJoin then
    joined prim node env srcAddr packet
  else if packet.header.pktType = pktPeerList ∨ packet.header.pktType = pktKeyExchange then
    none
  else if packet.header.pktType = pktKeepalive then
    if (opens prim node.cryptoCtx packet).isOk then some packet.header.peerId else none
  else if accepts prim node packet then
    some packet.header.peerId
  else
    none

/-- The entry whose time a received packet refreshes. -/
def refreshed (prim : Primitives D) (node : Node D) (env : Env D) (srcAddr : SocketAddr)
    (packet : Packet) : Option UInt8 :=
  if packet.header.pktType = pktKeepalive then
    node.peerMgr.peerByAddr srcAddr
  else if packet.header.pktType = pktPing then
    if (openPing prim node packet).isOk && node.cryptoCtx.nextCounter.isOk then
      node.peerMgr.peerByAddr srcAddr
    else
      none
  else
    speaker prim node env srcAddr packet

/-- Only three types of packets connect their sender. -/
def Greets (packet : Packet) : Prop :=
  packet.header.pktType = pktJoin ∨ packet.header.pktType = pktHello ∨
    packet.header.pktType = pktHelloAck

instance (packet : Packet) : Decidable (Greets packet) :=
  inferInstanceAs (Decidable (_ ∨ _ ∨ _))

/-- The entry that a received packet connects. -/
def greeter (prim : Primitives D) (node : Node D) (env : Env D) (srcAddr : SocketAddr)
    (packet : Packet) : Option UInt8 :=
  if Greets packet then speaker prim node env srcAddr packet else none

/-- The ids that a peer list makes the node greet. -/
def relisted (prim : Primitives D) (node : Node D) (packet : Packet) : List UInt8 :=
  if packet.header.pktType = pktPeerList then
    match openPeerList prim node packet with
    | .error _ => []
    | .ok (myId, list) => (list.peers.map Prod.fst).filter (· ≠ myId)
  else
    []

/-- What a step does to an entry: it may refresh it, and it may connect it. -/
def Tracks (node node' : Node D) (now : Instant) (refresh connect : Option UInt8) (k : UInt8) :
    Prop :=
  ∀ peer, node.getPeer k = some peer → ∃ peer', node'.getPeer k = some peer' ∧
    peer'.state = (if connect = some k then .connected else peer.state) ∧
    peer'.lastSeen = if refresh = some k then now else peer.lastSeen

/-- When a peer was seen, and in which state it is. -/
def presence (peer : RemotePeer D) : PeerState × Instant := (peer.state, peer.lastSeen)

namespace Tracks

variable {node node' node'' : Node D} {now : Instant} {refresh connect : Option UInt8} {k : UInt8}

theorem of_frame (frame : Frame presence node node') (now : Instant) (k : UInt8) :
    Tracks node node' now none none k := by
  intro peer known
  obtain ⟨peer', known', same⟩ := frame.getPeer known
  obtain ⟨state, lastSeen⟩ := Prod.ext_iff.mp same
  exact ⟨peer', known', state, lastSeen⟩

/-- A change elsewhere in the node does not matter. -/
theorem after (frame : Frame presence node node')
    (tracks : Tracks node' node'' now refresh connect k) :
    Tracks node node'' now refresh connect k := by
  intro peer known
  obtain ⟨peer', known', same⟩ := frame.getPeer known
  obtain ⟨state, lastSeen⟩ := Prod.ext_iff.mp same
  obtain ⟨peer'', known'', state'', lastSeen''⟩ := tracks peer' known'
  refine ⟨peer'', known'', state''.trans ?_, lastSeen''.trans ?_⟩
  · rw [show peer'.state = peer.state from state]
  · rw [show peer'.lastSeen = peer.lastSeen from lastSeen]

/-- An entry that is seen. -/
theorem of_touch {id : UInt8} {f : RemotePeer D → RemotePeer D}
    (seen : ∀ peer, node.getPeer id = some peer → presence (f peer) = (peer.state, now)) :
    Tracks node (node.modifyPeer id f) now (some id) none k := by
  intro peer known
  rw [getPeer_modifyPeer]
  by_cases here : k = id
  · subst here
    rw [if_pos rfl, if_pos rfl, known]
    obtain ⟨state, lastSeen⟩ := Prod.ext_iff.mp (seen peer known)
    exact ⟨f peer, rfl, state, lastSeen⟩
  · rw [if_neg here, if_neg fun same => here (Option.some.inj same).symm]
    exact ⟨peer, known, rfl, rfl⟩

/-- An entry that is connected. -/
theorem of_connect {pm : PeerManager D} {id : UInt8}
    (kept : ∀ peer, node.getPeer k = some peer → ∃ peer', pm.getPeer k = some peer' ∧
      peer'.state = peer.state ∧ peer'.lastSeen = peer.lastSeen) :
    Tracks node { node with peerMgr := pm.modifyPeer id (·.connect now) } now (some id) (some id)
      k := by
  intro peer known
  obtain ⟨peer', known', state, lastSeen⟩ := kept peer known
  change ∃ peer'', (pm.modifyPeer id _).getPeer k = some peer'' ∧ _
  rw [PeerManager.getPeer_modifyPeer]
  by_cases here : k = id
  · subst here
    rw [if_pos rfl, if_pos rfl, if_pos rfl, known']
    exact ⟨peer'.connect now, rfl, rfl, rfl⟩
  · have other : ¬ some id = some k := fun same => here (Option.some.inj same).symm
    rw [if_neg here, if_neg other, if_neg other]
    exact ⟨peer', known', state, lastSeen⟩

end Tracks

/-! ## The handlers -/

variable {node : Node D} {env : Env D} {srcAddr : SocketAddr} {packet : Packet} {k : UInt8}

theorem greeter_of_not_greets (quiet : ¬ Greets packet) :
    greeter prim node env srcAddr packet = none := if_neg quiet

theorem Tracks.unseen (node : Node D) (now : Instant) (k : UInt8) :
    Tracks node node now none none k :=
  .of_frame (Frame.refl presence node) now k

theorem handleAudio_tracks (type : packet.header.pktType = pktAudio) :
    Tracks node (handleAudio prim node env packet).node env.now
      (refreshed prim node env srcAddr packet) none k := by
  have refresh : refreshed prim node env srcAddr packet =
      if (openAudio prim node packet).isOk then some packet.header.peerId else none := by
    rw [refreshed, speaker, accepts, type]
    rfl
  rw [refresh]
  unfold handleAudio
  cases opened : openAudio prim node packet with
  | error e => exact .unseen node env.now k
  | ok heard =>
    obtain ⟨plaintext, usedPeerCtx⟩ := heard
    change Tracks node _ env.now (some packet.header.peerId) none k
    cases known : node.getPeer packet.header.peerId with
    | none =>
      intro peer entry
      have other : ¬ some packet.header.peerId = some k := by
        intro same
        cases same
        cases known.symm.trans entry
      rw [if_neg other]
      exact ⟨peer, entry, rfl, rfl⟩
    | some peer =>
      refine .of_touch fun peer' known' => ?_
      cases known.symm.trans known'
      obtain ⟨_, _, _, _, fields⟩ :=
        acceptAudio_fields prim peer env.now packet.header plaintext usedPeerCtx
      rw [fields]
      rfl

theorem touchAddr_tracks (node : Node D) (srcAddr : SocketAddr) (now : Instant) (k : UInt8) :
    Tracks node (node.touchAddr srcAddr now) now (node.peerMgr.peerByAddr srcAddr) none k := by
  unfold touchAddr
  cases node.peerMgr.peerByAddr srcAddr with
  | none => exact .unseen node now k
  | some id => exact .of_touch fun _ _ => rfl

theorem handleKeepalive_tracks (type : packet.header.pktType = pktKeepalive) :
    Tracks node (handleKeepalive node env srcAddr).node env.now
      (refreshed prim node env srcAddr packet) none k := by
  rw [refreshed, if_pos type]
  exact touchAddr_tracks node srcAddr env.now k

theorem handlePing_tracks (type : packet.header.pktType = pktPing) :
    Tracks node (handlePing prim node env srcAddr packet).node env.now
      (refreshed prim node env srcAddr packet) none k := by
  rw [refreshed, type, if_neg (by decide), if_pos rfl]
  unfold handlePing
  cases openPing prim node packet with
  | error e => exact .unseen node env.now k
  | ok ping =>
    cases node.cryptoCtx.nextCounter with
    | error e => exact .unseen node env.now k
    | ok drawn =>
      have sealing : Frame presence node
          (sealCounted prim node pktPong ping.toBytes 0 srcAddr).1 :=
        sealCounted_frame presence node pktPong ping.toBytes 0 srcAddr
      have table : (sealCounted prim node pktPong ping.toBytes 0 srcAddr).1.peerMgr.peerByAddr
          srcAddr = node.peerMgr.peerByAddr srcAddr := congrArg _ sealing.addrToId
      have touched := (touchAddr_tracks _ srcAddr env.now k).after sealing
      rwa [table] at touched

theorem handlePong_tracks (type : packet.header.pktType = pktPong) :
    Tracks node (handlePong prim node env packet).node env.now
      (refreshed prim node env srcAddr packet) none k := by
  have refresh : refreshed prim node env srcAddr packet =
      if (openPing prim node packet).isOk then some packet.header.peerId else none := by
    rw [refreshed, speaker, accepts, type]
    rfl
  rw [refresh]
  unfold handlePong
  cases openPing prim node packet with
  | error e => exact .unseen node env.now k
  | ok pong => exact .of_touch fun _ _ => rfl

theorem handleJoin_tracks :
    Tracks node (handleJoin prim node env srcAddr packet).node env.now
      (joined prim node env srcAddr packet) (joined prim node env srcAddr packet) k := by
  unfold joined handleJoin
  cases host : node.peerMgr.isHost with
  | false => exact .unseen node env.now k
  | true =>
    cases openJoin prim node packet with
    | error e => exact .unseen node env.now k
    | ok payload =>
      cases allocated : node.peerMgr.allocatePeerId with
      | error e => exact .unseen node env.now k
      | ok drawn =>
        obtain ⟨id, peerMgr⟩ := drawn
        obtain ⟨_, _, _, rfl⟩ := PeerManager.allocatePeerId_eq_ok allocated
        dsimp only
        cases added : PeerManager.addPeer _ id srcAddr env.newDecoder env.now with
        | error e => exact fun peer known => ⟨peer, known, rfl, rfl⟩
        | ok peerMgr' =>
          change Tracks node (sendPeerList prim
            { node with peerMgr := peerMgr'.modifyPeer id (·.connect env.now) } env srcAddr).node
            env.now (some id) (some id) k
          rw [sendPeerList_node]
          exact .of_connect fun peer known => PeerManager.presence_of_addPeer added known

/-- A HELLO or HELLO_ACK that opens connects its sender. -/
theorem greeter_of_hello
    (type : packet.header.pktType = pktHello ∨ packet.header.pktType = pktHelloAck) :
    greeter prim node env srcAddr packet =
      if (opens prim (node.pskCtx node.peerMgr.sessionId) packet).isOk then
        some packet.header.peerId
      else
        none := by
  have greets : Greets packet := Or.inr type
  rw [greeter, if_pos greets, speaker, accepts_hello type]
  rcases type with hello | helloAck
  · rw [hello]
    rfl
  · rw [helloAck]
    rfl

/-- It refreshes whom it connects. -/
theorem refreshed_of_hello
    (type : packet.header.pktType = pktHello ∨ packet.header.pktType = pktHelloAck) :
    refreshed prim node env srcAddr packet = greeter prim node env srcAddr packet := by
  have greets : Greets packet := Or.inr type
  rw [greeter, if_pos greets, refreshed]
  rcases type with hello | helloAck
  · rw [hello]
    rfl
  · rw [helloAck]
    rfl

theorem handleHello_tracks (type : packet.header.pktType = pktHello) :
    Tracks node (handleHello prim node env srcAddr packet).node env.now
      (refreshed prim node env srcAddr packet) (greeter prim node env srcAddr packet) k := by
  rw [refreshed_of_hello (Or.inl type), greeter_of_hello (Or.inl type)]
  unfold handleHello
  cases opens prim (node.pskCtx node.peerMgr.sessionId) packet with
  | error e => exact .unseen node env.now k
  | ok plaintext =>
    change Tracks node _ env.now (some packet.header.peerId) (some packet.header.peerId) k
    cases greeting : node.greeted env srcAddr packet.header.peerId with
    | error e =>
      -- Only an unknown sender is turned away.
      intro peer known
      have other : ¬ some packet.header.peerId = some k := by
        intro same
        cases same
        change node.peerMgr.getPeer packet.header.peerId = some peer at known
        rw [greeted, known] at greeting
        cases greeting
      rw [if_neg other, if_neg other]
      exact ⟨peer, known, rfl, rfl⟩
    | ok peerMgr =>
      dsimp only
      rw [sendSealed_node]
      refine .of_connect fun peer known => ?_
      rcases greeted_eq_ok greeting with ⟨_, _, rfl⟩ | ⟨_, added⟩
      · exact ⟨peer, known, rfl, rfl⟩
      · exact PeerManager.presence_of_addPeer added known

theorem handleHelloAck_tracks (type : packet.header.pktType = pktHelloAck) :
    Tracks node (handleHelloAck prim node env packet).node env.now
      (refreshed prim node env srcAddr packet) (greeter prim node env srcAddr packet) k := by
  rw [refreshed_of_hello (Or.inr type), greeter_of_hello (Or.inr type)]
  unfold handleHelloAck
  cases opens prim (node.pskCtx node.peerMgr.sessionId) packet with
  | error e => exact .unseen node env.now k
  | ok plaintext => exact .of_connect fun peer known => ⟨peer, known, rfl, rfl⟩

/-- A greeting leaves who is not listed alone. -/
theorem getPeer_greetPeers_of_unlisted {key : Key} {env : Env D} {sessionId : SessionId}
    {myId sender : UInt8} {srcAddr : SocketAddr} {peers : List (UInt8 × SocketAddr)} {k : UInt8}
    (unlisted : k ∉ (peers.map Prod.fst).filter (· ≠ myId)) (peerMgr : PeerManager D)
    (out : List Emission) :
    (greetPeers prim key env sessionId myId sender srcAddr peers peerMgr out).1.getPeer k =
      peerMgr.getPeer k := by
  refine greetPeers_preserves (fun pm => pm.getPeer k = peerMgr.getPeer k) out ?_ rfl
  intro id addr listed self pm pm' added before
  have other : k ≠ id := by
    rintro rfl
    exact unlisted (List.mem_filter.mpr
      ⟨List.mem_map_of_mem (f := Prod.fst) listed, decide_eq_true self⟩)
  have same := (PeerManager.getPeer_addPeer_of_ne added other).trans before
  refine ⟨same, ?_⟩
  rw [PeerManager.getPeer_modifyPeer, if_neg other]
  exact same

theorem handlePeerList_tracks (type : packet.header.pktType = pktPeerList)
    (unlisted : k ∉ relisted prim node packet) :
    Tracks node (handlePeerList prim node env srcAddr packet).node env.now none none k := by
  rw [relisted, if_pos type] at unlisted
  unfold handlePeerList
  cases opened : openPeerList prim node packet with
  | error e => exact .unseen node env.now k
  | ok read =>
    obtain ⟨myId, list⟩ := read
    rw [opened] at unlisted
    intro peer known
    refine ⟨peer, ?_, rfl, rfl⟩
    exact (getPeer_greetPeers_of_unlisted unlisted
      (node.peerMgr.setIdentity myId list.sessionId) []).trans known

/-- **What a received packet does to an entry** that it does not list: it refreshes the
one at `refreshed` and connects the one at `greeter`. -/
theorem handlePacket_tracks (unlisted : k ∉ relisted prim node packet) :
    Tracks node (handlePacket prim node env srcAddr packet).node env.now
      (refreshed prim node env srcAddr packet) (greeter prim node env srcAddr packet) k := by
  cases handlePacket_handled prim node env srcAddr packet with
  | audio type same =>
      rw [greeter_of_not_greets (by rw [Greets, type]; decide), same]
      exact handleAudio_tracks type
  | join type same =>
      have greets : Greets packet := Or.inl type
      rw [greeter, if_pos greets, refreshed, speaker, type, same]
      exact handleJoin_tracks
  | peerList type same =>
      rw [greeter_of_not_greets (by rw [Greets, type]; decide), refreshed, speaker, type, same]
      exact handlePeerList_tracks type unlisted
  | hello type same => exact same ▸ handleHello_tracks type
  | helloAck type same => exact same ▸ handleHelloAck_tracks type
  | keepalive type same =>
      rw [greeter_of_not_greets (by rw [Greets, type]; decide), same]
      exact handleKeepalive_tracks type
  | ping type same =>
      rw [greeter_of_not_greets (by rw [Greets, type]; decide), same]
      exact handlePing_tracks type
  | pong type same =>
      rw [greeter_of_not_greets (by rw [Greets, type]; decide), same]
      exact handlePong_tracks type
  | keyExchange type same =>
      rw [greeter_of_not_greets (by rw [Greets, type]; decide), refreshed, speaker, type, same]
      exact .of_frame (handleKeyExchange_frame node srcAddr packet fun _ _ _ _ => rfl) env.now k
  | unknown other same =>
      simp only [List.mem_cons, List.not_mem_nil, or_false, not_or] at other
      obtain ⟨audio, join, peerList, hello, helloAck, keepalive, ping, pong, keyExchange⟩ := other
      have quiet : speaker prim node env srcAddr packet = none := by
        rw [speaker, if_neg join, if_neg (by simp [*]), if_neg keepalive, accepts]
        simp [*]
      rw [greeter, quiet, refreshed, if_neg keepalive, if_neg ping, quiet, ite_self, same]
      exact .unseen node env.now k

end Node

end VoiceChat
