import VoiceChat.Session.Answers
import VoiceChat.Session.Arrivals

/-!
# What connects a peer

An entry becomes connected by a JOIN that is let in, by a HELLO or by a HELLO_ACK
(`Connects`), and by nothing else (`connected_of_step`). All of these were taken in
(`accepts`): their handlers could open them.
-/

set_option autoImplicit false

namespace VoiceChat

namespace PeerManager

variable {D : Type}

/-- Adding a peer connects nobody. -/
theorem connected_of_addPeer {pm pm' : PeerManager D} {id k : UInt8} {addr : SocketAddr}
    {newDecoder : Option D} {now : Instant} (added : pm.addPeer id addr newDecoder now = .ok pm')
    {peer' : RemotePeer D} (known : pm'.getPeer k = some peer')
    (connected : peer'.state = .connected) :
    ∃ peer, pm.getPeer k = some peer ∧ peer.state = .connected := by
  by_cases self : id = pm.localId
  · rw [addPeer_self added self] at known
    exact ⟨peer', known, connected⟩
  · obtain ⟨peer, entries, origin⟩ := getPeer_addPeer added self
    rw [entries] at known
    split_ifs at known with same
    · cases known
      rcases origin with ⟨_, _, rfl⟩ | ⟨old, before, rfl⟩
      · cases connected
      · exact ⟨old, same ▸ before, connected⟩
    · exact ⟨peer', known, connected⟩

/-- Connecting an entry connects no other one. -/
theorem connected_of_modifyPeer {pm : PeerManager D} {id k : UInt8} {now : Instant}
    {peer' : RemotePeer D} (known : (pm.modifyPeer id (·.connect now)).getPeer k = some peer')
    (connected : peer'.state = .connected) :
    (∃ peer, pm.getPeer k = some peer ∧ peer.state = .connected) ∨
      k = id ∧ ∃ peer, pm.getPeer k = some peer := by
  rw [getPeer_modifyPeer] at known
  split_ifs at known with here
  · obtain ⟨peer, known', _⟩ := Option.map_eq_some_iff.mp known
    exact Or.inr ⟨here, peer, known'⟩
  · exact Or.inl ⟨peer', known, connected⟩

end PeerManager

namespace Node

variable {D : Type} {prim : Primitives D}

/-- The entry that a received packet connects. -/
inductive Connects (prim : Primitives D) (node : Node D) (env : Env D) (srcAddr : SocketAddr)
    (packet : Packet) : UInt8 → Prop where
  | join {payload : JoinPayload} {id : UInt8} {peerMgr peerMgr' : PeerManager D}
      {peer : RemotePeer D} (type : packet.header.pktType = pktJoin)
      (opened : openJoin prim node packet = .ok payload)
      (allocated : node.peerMgr.allocatePeerId = .ok (id, peerMgr))
      (added : peerMgr.addPeer id srcAddr env.newDecoder env.now = .ok peerMgr')
      (known : peerMgr'.getPeer id = some peer) : Connects prim node env srcAddr packet id
  | hello {plaintext : Bytes} {peerMgr : PeerManager D} {peer : RemotePeer D}
      (type : packet.header.pktType = pktHello)
      (opened : opens prim (node.pskCtx node.peerMgr.sessionId) packet = .ok plaintext)
      (greeting : node.greeted env srcAddr packet.header.peerId = .ok peerMgr)
      (known : peerMgr.getPeer packet.header.peerId = some peer) :
      Connects prim node env srcAddr packet packet.header.peerId
  | helloAck {plaintext : Bytes} {peer : RemotePeer D} (type : packet.header.pktType = pktHelloAck)
      (opened : opens prim (node.pskCtx node.peerMgr.sessionId) packet = .ok plaintext)
      (known : node.getPeer packet.header.peerId = some peer) :
      Connects prim node env srcAddr packet packet.header.peerId

/-- A greeting connects nobody. -/
theorem connected_of_greetPeers {key : Key} {env : Env D} {sessionId : SessionId}
    {myId sender : UInt8} {srcAddr : SocketAddr} {peers : List (UInt8 × SocketAddr)}
    {peerMgr : PeerManager D} {out : List Emission} {k : UInt8} {peer : RemotePeer D}
    (known : (greetPeers prim key env sessionId myId sender srcAddr peers peerMgr out).1.getPeer k =
      some peer) (connected : peer.state = .connected) :
    ∃ peer, peerMgr.getPeer k = some peer ∧ peer.state = .connected := by
  revert peer
  refine greetPeers_preserves (fun pm => ∀ {peer : RemotePeer D}, pm.getPeer k = some peer →
    peer.state = .connected →
      ∃ peer, peerMgr.getPeer k = some peer ∧ peer.state = .connected) out ?_
    fun known connected => ⟨_, known, connected⟩
  intro id addr _ _ pm pm' added before
  have entered : ∀ {peer : RemotePeer D}, pm'.getPeer k = some peer → peer.state = .connected →
      ∃ peer, peerMgr.getPeer k = some peer ∧ peer.state = .connected := by
    intro peer known connected
    obtain ⟨peer', known', connected'⟩ := PeerManager.connected_of_addPeer added known connected
    exact before known' connected'
  refine ⟨entered, fun {peer} known connected => ?_⟩
  rw [PeerManager.getPeer_modifyPeer] at known
  split_ifs at known
  · -- the one that is marked awaits its answer
    obtain ⟨_, _, rfl⟩ := Option.map_eq_some_iff.mp known
    cases connected
  · exact entered known connected

theorem connected_of_handleJoin {node : Node D} {env : Env D} {srcAddr : SocketAddr}
    {packet : Packet} (join : packet.header.pktType = pktJoin) {k : UInt8}
    (connected : (handleJoin prim node env srcAddr packet).node.Connected k) :
    node.Connected k ∨ Connects prim node env srcAddr packet k := by
  rcases handleJoin_cases prim node env srcAddr packet with
    ⟨e, refused⟩ | ⟨payload, id, peerMgr, opened, allocated, ⟨e, full⟩ | ⟨peerMgr', added, answered⟩⟩
  · rw [refused] at connected
    exact Or.inl connected
  · obtain ⟨_, _, _, rfl⟩ := PeerManager.allocatePeerId_eq_ok allocated
    rw [full] at connected
    exact Or.inl connected
  · rw [answered, sendPeerList_node] at connected
    obtain ⟨_, entered, state'⟩ := connected
    rcases PeerManager.connected_of_modifyPeer entered state' with
      ⟨peer, known, state⟩ | ⟨rfl, peer, known⟩
    · have before := PeerManager.connected_of_addPeer added known state
      obtain ⟨_, _, _, rfl⟩ := PeerManager.allocatePeerId_eq_ok allocated
      exact Or.inl before
    · exact Or.inr (.join join opened allocated added known)

/-- A JOIN that connects nobody is not answered, and leaves the entries as they are. -/
theorem handleJoin_of_not_connects {node : Node D} {env : Env D} {srcAddr : SocketAddr}
    {packet : Packet} (join : packet.header.pktType = pktJoin)
    (apart : ∀ id peerMgr, node.peerMgr.allocatePeerId = .ok (id, peerMgr) →
      id ≠ node.peerMgr.localId)
    (none : ∀ k, ¬ Connects prim node env srcAddr packet k) :
    (handleJoin prim node env srcAddr packet).out = [] ∧
      ∀ k, (handleJoin prim node env srcAddr packet).node.getPeer k = node.getPeer k := by
  rcases handleJoin_cases prim node env srcAddr packet with
    ⟨e, refused⟩ | ⟨payload, id, peerMgr, opened, allocated, ⟨e, full⟩ | ⟨peerMgr', added, _⟩⟩
  · rw [refused]
    exact ⟨rfl, fun _ => rfl⟩
  · obtain ⟨_, _, _, rfl⟩ := PeerManager.allocatePeerId_eq_ok allocated
    rw [full]
    exact ⟨rfl, fun _ => rfl⟩
  · have remote : id ≠ peerMgr.localId := by
      obtain ⟨_, _, _, rfl⟩ := PeerManager.allocatePeerId_eq_ok allocated
      exact apart _ _ allocated
    obtain ⟨peer, entries, _⟩ := PeerManager.getPeer_addPeer added remote
    exact absurd (.join join opened allocated added ((entries id).trans (if_pos rfl))) (none id)

theorem connected_of_handlePeerList {node : Node D} {env : Env D} {srcAddr : SocketAddr}
    {packet : Packet} {k : UInt8}
    (connected : (handlePeerList prim node env srcAddr packet).node.Connected k) :
    node.Connected k := by
  rcases handlePeerList_cases prim node env srcAddr packet with
    ⟨e, refused⟩ | ⟨myId, list, _, greeted⟩
  · rw [refused] at connected
    exact connected
  · rw [greeted] at connected
    obtain ⟨peer, known, state⟩ := connected
    have before : ∃ peer, (node.peerMgr.setIdentity myId list.sessionId).getPeer k = some peer ∧
        peer.state = .connected := connected_of_greetPeers known state
    exact before

theorem connected_of_handleHello {node : Node D} {env : Env D} {srcAddr : SocketAddr}
    {packet : Packet} (hello : packet.header.pktType = pktHello) {k : UInt8}
    (connected : (handleHello prim node env srcAddr packet).node.Connected k) :
    node.Connected k ∨ Connects prim node env srcAddr packet k := by
  rcases handleHello_cases prim node env srcAddr packet with
    ⟨e, refused⟩ | ⟨plaintext, peerMgr, opened, greeting, answered⟩
  · rw [refused] at connected
    exact Or.inl connected
  · rw [answered, sendSealed_node] at connected
    obtain ⟨_, entered, state'⟩ := connected
    rcases PeerManager.connected_of_modifyPeer entered state' with
      ⟨peer, known, state⟩ | ⟨rfl, peer, known⟩
    · rcases greeted_eq_ok greeting with ⟨_, _, rfl⟩ | ⟨_, added⟩
      · exact Or.inl ⟨peer, known, state⟩
      · exact Or.inl (PeerManager.connected_of_addPeer added known state)
    · exact Or.inr (.hello hello opened greeting known)

theorem connected_of_handleHelloAck {node : Node D} {env : Env D} {srcAddr : SocketAddr}
    {packet : Packet} (helloAck : packet.header.pktType = pktHelloAck) {k : UInt8}
    (connected : (handleHelloAck prim node env packet).node.Connected k) :
    node.Connected k ∨ Connects prim node env srcAddr packet k := by
  unfold handleHelloAck at connected
  split at connected
  · exact Or.inl connected
  · rename_i opened
    obtain ⟨_, entered, state⟩ := connected
    rcases PeerManager.connected_of_modifyPeer entered state with before | ⟨rfl, peer, known⟩
    · exact Or.inl before
    · exact Or.inr (.helloAck helloAck opened known)

/-- Steps that do not see the states connect nobody. -/
theorem Connected.of_frame {node node' : Node D} {k : UInt8} (connected : node'.Connected k)
    (frame : Frame RemotePeer.state node node') : node.Connected k := by
  obtain ⟨peer', known', state⟩ := connected
  obtain ⟨peer, known, same⟩ := frame.getPeer_back known'
  exact ⟨peer, known, same.symm.trans state⟩

theorem connected_of_keepalive {node : Node D} {env : Env D} {k : UInt8}
    (connected : (keepalive prim node env).1.Connected k) : node.Connected k := by
  obtain ⟨peer', known', state⟩ := connected
  change (HashMap.mapValues _ _).lookup k = some peer' at known'
  rw [HashMap.lookup_mapValues] at known'
  obtain ⟨peer, known, timed⟩ := Option.map_eq_some_iff.mp known'
  have before : peer.state = .connected := by
    split_ifs at timed with out
    · exact out.1
    · exact timed ▸ state
  exact Connected.of_frame ⟨peer, known, before⟩
    (eachPeer_frame (fun node target => sealCounted_frame _ node pktKeepalive [] 0 target.2) node _)

/-- **An entry that is connected after a step was so before, or the step received the
packet that connects it.** -/
theorem connected_of_step {node : Node D} {env : Env D} {event : Event} {k : UInt8}
    (connected : (step prim node env event).1.Connected k) :
    node.Connected k ∨ ∃ data srcAddr packet, event = .recv data srcAddr ∧
      Packet.parse data = .ok packet ∧ Connects prim node env srcAddr packet k := by
  cases event with
  | recv data srcAddr =>
      change (handleIncoming prim node env data srcAddr).node.Connected k at connected
      unfold handleIncoming at connected
      split at connected
      · exact Or.inl connected
      · rename_i packet parsed
        suffices either : node.Connected k ∨ Connects prim node env srcAddr packet k from
          either.imp_right fun connects => ⟨data, srcAddr, packet, rfl, parsed, connects⟩
        cases handlePacket_handled prim node env srcAddr packet with
        | audio _ same =>
            rw [same] at connected
            exact Or.inl (connected.of_frame
              (handleAudio_frame node env packet fun _ _ _ _ _ => rfl))
        | join type same =>
            rw [same] at connected
            exact connected_of_handleJoin type connected
        | peerList _ same =>
            rw [same] at connected
            exact Or.inl (connected_of_handlePeerList connected)
        | hello type same =>
            rw [same] at connected
            exact connected_of_handleHello type connected
        | helloAck type same =>
            rw [same] at connected
            exact connected_of_handleHelloAck type connected
        | keepalive _ same =>
            rw [same] at connected
            exact Or.inl (connected.of_frame (touchAddr_frame node srcAddr env.now fun _ => rfl))
        | ping _ same =>
            rw [same] at connected
            exact Or.inl (connected.of_frame
              (handlePing_frame node env srcAddr packet fun _ => rfl))
        | pong _ same =>
            rw [same] at connected
            exact Or.inl (connected.of_frame (handlePong_frame node env packet fun _ _ => rfl))
        | keyExchange _ same =>
            rw [same] at connected
            exact Or.inl (connected.of_frame
              (handleKeyExchange_frame node srcAddr packet fun _ _ _ _ => rfl))
        | unknown _ same =>
            rw [same] at connected
            exact Or.inl connected
  | frame opus =>
      exact Or.inl (connected.of_frame
        (sendFrame_frame node env opus (fun _ _ => rfl) fun _ _ _ _ => rfl))
  | playout => exact Or.inl (connected.of_frame (playout_frame node fun _ _ _ => rfl))
  | keepalive => exact Or.inl (connected_of_keepalive connected)
  | ping => exact Or.inl (connected.of_frame (ping_frame node env fun _ _ _ => rfl))
  | adapt elapsedSecs =>
      exact Or.inl (connected.of_frame (adapt_frame node elapsedSecs fun _ _ => rfl))

/-- A packet that connects an entry leaves it connected, and just seen. -/
theorem Connects.entry {node : Node D} {env : Env D} {data : Bytes} {srcAddr : SocketAddr}
    {packet : Packet} (parsed : Packet.parse data = .ok packet) {k : UInt8}
    (connects : Connects prim node env srcAddr packet k) :
    ∃ peer, (step prim node env (.recv data srcAddr)).1.getPeer k = some peer ∧
      peer.state = .connected ∧ peer.lastSeen = env.now := by
  have met : ∀ {pm : PeerManager D} {peer : RemotePeer D} {id : UInt8}, pm.getPeer id = some peer →
      ∃ peer', (pm.modifyPeer id (·.connect env.now)).getPeer id = some peer' ∧
        peer'.state = .connected ∧ peer'.lastSeen = env.now := by
    intro pm peer id known
    refine ⟨peer.connect env.now, ?_, rfl, rfl⟩
    rw [PeerManager.getPeer_modifyPeer, if_pos rfl, known]
    rfl
  change ∃ peer, (handleIncoming prim node env data srcAddr).node.getPeer k = some peer ∧ _
  rw [handleIncoming_eq prim parsed]
  cases connects with
  | join type opened allocated added known =>
      have isHost := (PeerManager.allocatePeerId_eq_ok allocated).1
      rw [handlePacket_join prim type, handleJoin, if_neg (by rw [isHost]; decide), opened]
      dsimp only
      rw [allocated]
      dsimp only
      rw [added]
      dsimp only
      rw [sendPeerList_node]
      exact met known
  | hello type opened greeting known =>
      rw [handlePacket_hello prim type, handleHello, opened]
      dsimp only
      rw [greeting]
      dsimp only
      rw [sendSealed_node]
      exact met known
  | helloAck type opened known =>
      rw [handlePacket_helloAck prim type, handleHelloAck, opened]
      exact met known

/-- A packet that connects an entry leaves it connected. -/
theorem Connects.connected {node : Node D} {env : Env D} {data : Bytes} {srcAddr : SocketAddr}
    {packet : Packet} (parsed : Packet.parse data = .ok packet) {k : UInt8}
    (connects : Connects prim node env srcAddr packet k) :
    (step prim node env (.recv data srcAddr)).1.Connected k := by
  obtain ⟨peer, known, state, _⟩ := connects.entry parsed
  exact ⟨peer, known, state⟩

/-! ## Packets that are taken in -/

/-- The node takes a packet in: its handler can open it. A keepalive is not opened. -/
def accepts (prim : Primitives D) (node : Node D) (packet : Packet) : Bool :=
  if packet.header.pktType = pktAudio then
    (openAudio prim node packet).isOk
  else if packet.header.pktType = pktJoin then
    node.peerMgr.isHost && (openJoin prim node packet).isOk
  else if packet.header.pktType = pktPeerList then
    (openPeerList prim node packet).isOk
  else if packet.header.pktType = pktHello then
    (opens prim (node.pskCtx node.peerMgr.sessionId) packet).isOk
  else if packet.header.pktType = pktHelloAck then
    (opens prim (node.pskCtx node.peerMgr.sessionId) packet).isOk
  else if packet.header.pktType = pktKeepalive then
    true
  else if packet.header.pktType = pktPing then
    (openPing prim node packet).isOk
  else if packet.header.pktType = pktPong then
    (openPing prim node packet).isOk
  else if packet.header.pktType = pktKeyExchange then
    (openKeyExchange prim node packet).isOk
  else
    false

theorem accepts_peerList {packet : Packet} (type : packet.header.pktType = pktPeerList)
    (node : Node D) : accepts prim node packet = (openPeerList prim node packet).isOk := by
  simp [accepts, type, pktAudio, pktJoin, pktPeerList]

/-- A HELLO and a HELLO_ACK are opened alike. -/
theorem accepts_hello {packet : Packet}
    (type : packet.header.pktType = pktHello ∨ packet.header.pktType = pktHelloAck)
    (node : Node D) : accepts prim node packet =
      (opens prim (node.pskCtx node.peerMgr.sessionId) packet).isOk := by
  rcases type with hello | helloAck
  · simp [accepts, hello, pktAudio, pktJoin, pktPeerList, pktHello]
  · simp [accepts, helloAck, pktAudio, pktJoin, pktPeerList, pktHello, pktHelloAck]

/-- **What is not taken in is refused**, and changes nothing. -/
theorem handlePacket_of_not_accepts {node : Node D} (env : Env D) (srcAddr : SocketAddr)
    {packet : Packet} (refused : accepts prim node packet = false) :
    ∃ e, handlePacket prim node env srcAddr packet = .fail node [] e := by
  have failed : ∀ {α : Type} {r : Except Error α}, r.isOk = false → ∃ e, r = .error e := by
    rintro α (e | _) failed
    · exact ⟨e, rfl⟩
    · cases failed
  unfold accepts at refused
  cases handlePacket_handled prim node env srcAddr packet with
  | audio type same =>
      rw [type] at refused
      obtain ⟨e, error⟩ := failed refused
      exact ⟨e, by rw [same, handleAudio, error]⟩
  | join type same =>
      rw [type] at refused
      rw [same, handleJoin]
      split_ifs with guest
      · exact ⟨_, rfl⟩
      · rw [Bool.not_eq_true, Bool.not_eq_false'] at guest
        have unopened : (node.peerMgr.isHost && (openJoin prim node packet).isOk) = false := refused
        rw [guest, Bool.true_and] at unopened
        obtain ⟨e, error⟩ := failed unopened
        exact ⟨e, by rw [error]⟩
  | peerList type same =>
      rw [type] at refused
      obtain ⟨e, error⟩ := failed refused
      exact ⟨e, by rw [same, handlePeerList, error]⟩
  | hello type same =>
      rw [type] at refused
      obtain ⟨e, error⟩ := failed refused
      exact ⟨e, by rw [same, handleHello, error]⟩
  | helloAck type same =>
      rw [type] at refused
      obtain ⟨e, error⟩ := failed refused
      exact ⟨e, by rw [same, handleHelloAck, error]⟩
  | keepalive type same =>
      rw [type] at refused
      cases refused
  | ping type same =>
      rw [type] at refused
      obtain ⟨e, error⟩ := failed refused
      exact ⟨e, by rw [same, handlePing, error]⟩
  | pong type same =>
      rw [type] at refused
      obtain ⟨e, error⟩ := failed refused
      exact ⟨e, by rw [same, handlePong, error]⟩
  | keyExchange type same =>
      rw [type] at refused
      obtain ⟨e, error⟩ := failed refused
      exact ⟨e, by rw [same, handleKeyExchange, error]⟩
  | unknown _ same => exact ⟨_, same⟩

/-- What connects an entry is taken in. -/
theorem Connects.accepts {node : Node D} {env : Env D} {srcAddr : SocketAddr} {packet : Packet}
    {k : UInt8} (connects : Connects prim node env srcAddr packet k) :
    accepts prim node packet = true := by
  cases connects with
  | join type opened allocated added known =>
      have isHost := (PeerManager.allocatePeerId_eq_ok allocated).1
      rw [Node.accepts, type, if_neg (by decide), if_pos rfl, isHost, opened]
      rfl
  | hello type opened greeting known =>
      rw [accepts_hello (Or.inl type), opened]
      rfl
  | helloAck type opened known =>
      rw [accepts_hello (Or.inr type), opened]
      rfl

end Node

end VoiceChat
