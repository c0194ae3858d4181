import VoiceChat.Session.Emissions

/-!
# What holds in every state of a session

Whatever a node receives, its session context has its pre-shared key and the
session id that its peer table has, and the table has room for the other members
of a call only. A node is `Coherent` when this holds; it starts so, and every step
keeps it so (`Reached.coherent`).
-/

set_option autoImplicit false

namespace VoiceChat

namespace Node

variable {D β : Type} {prim : Primitives D}

/-- The session context goes with key and session of the node, and the table is not
over full. -/
structure Coherent (node : Node D) : Prop where
  ctxKey : node.cryptoCtx.key = node.key
  ctxSessionId : node.cryptoCtx.sessionId = node.peerMgr.sessionId
  room : node.peerMgr.peers.size ≤ maxPeers - 1

/-! ## The size of the table -/

/-- A framed step has as many peers as before. -/
theorem Frame.size {view : RemotePeer D → β} {node node' : Node D}
    (frame : Frame view node node') : node'.peerMgr.peers.size = node.peerMgr.peers.size := by
  apply Nat.le_antisymm
  · refine HashMap.size_le_of_subset fun id member => AList.mem_keys.mp ?_
    obtain ⟨peer', known'⟩ := HashMap.mem_iff_lookup.mp member
    obtain ⟨peer, known, _⟩ := frame.getPeer_back known'
    exact HashMap.mem_iff_lookup.mpr ⟨peer, known⟩
  · refine HashMap.size_le_of_subset fun id member => AList.mem_keys.mp ?_
    obtain ⟨peer, known⟩ := HashMap.mem_iff_lookup.mp member
    obtain ⟨peer', known', _⟩ := frame.getPeer known
    exact HashMap.mem_iff_lookup.mpr ⟨peer', known'⟩

theorem size_modifyPeer (pm : PeerManager D) (id : UInt8) (f : RemotePeer D → RemotePeer D) :
    (pm.modifyPeer id f).peers.size = pm.peers.size := HashMap.size_modify pm.peers id f

theorem size_greetPeers_le (prim : Primitives D) (key : Key) (env : Env D)
    (sessionId : SessionId) (myId sender : UInt8) (srcAddr : SocketAddr)
    (peers : List (UInt8 × SocketAddr)) (peerMgr : PeerManager D) (out : List Emission)
    (bounded : peerMgr.peers.size ≤ maxPeers - 1) :
    (greetPeers prim key env sessionId myId sender srcAddr peers peerMgr out).1.peers.size ≤
      maxPeers - 1 := by
  refine greetPeers_preserves (fun pm => pm.peers.size ≤ maxPeers - 1) out ?_ bounded
  intro id addr _ _ pm pm' added bounded
  have entered := PeerManager.size_addPeer_le added bounded
  refine ⟨entered, ?_⟩
  rwa [size_modifyPeer]

theorem size_handleJoin_le (prim : Primitives D) (node : Node D) (env : Env D)
    (srcAddr : SocketAddr) (packet : Packet)
    (bounded : node.peerMgr.peers.size ≤ maxPeers - 1) :
    (handleJoin prim node env srcAddr packet).node.peerMgr.peers.size ≤ maxPeers - 1 := by
  rcases handleJoin_cases prim node env srcAddr packet with
    ⟨e, refused⟩ | ⟨_, id, peerMgr, _, allocated, ⟨e, full⟩ | ⟨peerMgr', added, answered⟩⟩
  · rw [refused]
    exact bounded
  · obtain ⟨_, _, _, rfl⟩ := PeerManager.allocatePeerId_eq_ok allocated
    rw [full]
    exact bounded
  · obtain ⟨_, _, _, rfl⟩ := PeerManager.allocatePeerId_eq_ok allocated
    rw [answered, sendPeerList_node, size_modifyPeer]
    exact PeerManager.size_addPeer_le added bounded

theorem size_handleHello_le (prim : Primitives D) (node : Node D) (env : Env D)
    (srcAddr : SocketAddr) (packet : Packet)
    (bounded : node.peerMgr.peers.size ≤ maxPeers - 1) :
    (handleHello prim node env srcAddr packet).node.peerMgr.peers.size ≤ maxPeers - 1 := by
  rcases handleHello_cases prim node env srcAddr packet with
    ⟨e, refused⟩ | ⟨_, peerMgr, _, greeting, answered⟩
  · rw [refused]
    exact bounded
  · rw [answered, sendSealed_node, size_modifyPeer]
    rcases greeted_eq_ok greeting with ⟨_, _, rfl⟩ | ⟨_, added⟩
    · exact bounded
    · exact PeerManager.size_addPeer_le added bounded

/-- **The table is never over full.** -/
theorem size_step_le (prim : Primitives D) {node : Node D} (env : Env D) (event : Event)
    (bounded : node.peerMgr.peers.size ≤ maxPeers - 1) :
    (step prim node env event).1.peerMgr.peers.size ≤ maxPeers - 1 := by
  by_cases moves : ∃ data srcAddr packet, event = .recv data srcAddr ∧
      Packet.parse data = .ok packet ∧ MovesPeers packet
  · obtain ⟨data, srcAddr, packet, rfl, parsed, type⟩ := moves
    change (handleIncoming prim node env data srcAddr).node.peerMgr.peers.size ≤ _
    rw [handleIncoming_eq prim parsed]
    rcases type with join | peerList | hello
    · rw [handlePacket_join prim join]
      exact size_handleJoin_le prim node env srcAddr packet bounded
    · rw [handlePacket_peerList prim peerList]
      rcases handlePeerList_cases prim node env srcAddr packet with
        ⟨e, refused⟩ | ⟨myId, list, _, greeted⟩
      · rw [refused]
        exact bounded
      · rw [greeted]
        exact size_greetPeers_le prim node.key env _ _ _ srcAddr _ _ [] bounded
    · rw [handlePacket_hello prim hello]
      exact size_handleHello_le prim node env srcAddr packet bounded
  · have frame : Frame place node (step prim node env event).1 :=
      step_place fun data srcAddr packet received parsed type =>
        moves ⟨data, srcAddr, packet, received, parsed, type⟩
    rw [frame.size]
    exact bounded

/-! ## The session context -/

/-- A packet of another type gives no identity. -/
theorem adopts_of_type {node : Node D} {data : Bytes} {packet : Packet}
    (parsed : Packet.parse data = .ok packet) (other : packet.header.pktType ≠ pktPeerList) :
    node.adopts prim data = none := by
  rw [adopts, parsed]
  exact if_neg other

/-- The pre-shared key stays. -/
theorem step_key (prim : Primitives D) (node : Node D) (env : Env D) (event : Event) :
    (step prim node env event).1.key = node.key := by
  cases step_identified prim node env event with
  | kept _ keeps => exact keeps.key
  | adopted _ _ _ _ _ key => exact key

/-- Whatever identity a step gives the node, the session context goes with it. -/
theorem step_coherent (prim : Primitives D) {node : Node D} (coherent : node.Coherent)
    (env : Env D) (event : Event) : (step prim node env event).1.Coherent := by
  have room := size_step_le prim env event coherent.room
  cases step_identified prim node env event with
  | kept _ keeps =>
      refine ⟨?_, ?_, room⟩
      · rw [keeps.ctxKey, keeps.key]
        exact coherent.ctxKey
      · rw [keeps.ctxSessionId, keeps.sessionId]
        exact coherent.ctxSessionId
  | adopted _ _ _ session _ key _ ctx =>
      refine ⟨?_, ?_, room⟩
      · rw [ctx, key]
        rfl
      · rw [ctx, session]
        rfl

/-! ## Reachable states -/

/-- A node as a session starts with it. -/
inductive Starts : Node D → Prop where
  | host (key : Key) (sessionId : SessionId) (keyExchange : KeyExchange) :
      Starts (host key sessionId keyExchange)
  | joiner (key : Key) (keyExchange : KeyExchange) : Starts (joiner key keyExchange)

/-- A node that some session has come to. -/
def Reached (prim : Primitives D) (node : Node D) : Prop :=
  ∃ start inputs, Starts start ∧ (nodeMachine prim).run start inputs = node

theorem Starts.coherent {node : Node D} (starts : node.Starts) : node.Coherent := by
  cases starts with
  | host key sessionId keyExchange => exact ⟨rfl, rfl, Nat.zero_le _⟩
  | joiner key keyExchange => exact ⟨rfl, rfl, Nat.zero_le _⟩

/-- **Every state of a session is coherent.** -/
theorem Reached.coherent {node : Node D} (reached : node.Reached prim) : node.Coherent := by
  obtain ⟨start, inputs, starts, rfl⟩ := reached
  exact Machine.invariant (M := nodeMachine prim) Coherent
    (fun _ input coherent _ => step_coherent prim coherent input.1 input.2) starts.coherent
    (Machine.along_true (nodeMachine prim) start inputs)

/-- What a session has received, it has come to. -/
theorem Reached.recv {node : Node D} (reached : node.Reached prim) (env : Env D) (data : Bytes)
    (srcAddr : SocketAddr) : (handleIncoming prim node env data srcAddr).node.Reached prim := by
  obtain ⟨start, inputs, starts, rfl⟩ := reached
  exact ⟨start, inputs ++ [(env, .recv data srcAddr)], starts, Machine.run_append ..⟩

end Node

theorem Sample.hostOfOne_reached : Sample.hostOfOne.node.Reached Primitives.transparent :=
  ⟨Sample.host, [(Sample.env 0 0, .recv Sample.join (Sample.addr 1))], .host .., rfl⟩

end VoiceChat
