import VoiceChat.Session

/-!
# What a step leaves alone

A node is made of an identity (its id, its session, its role, its keys and its
session context) and a table of peers. `Keeps` says that a step left the identity
alone, apart from drawing counters; `Frame` says in addition that the table has
the same peers, and that a given view of each of them is unchanged.

The views are what later modules need: an invariant about some fields of the
peers is preserved by every handler that does not touch these fields, and each
handler is framed once, for all views.
-/

set_option autoImplicit false

namespace VoiceChat

namespace Node

variable {D β : Type}

/-- The identity is left alone, and the session context only moves on. -/
structure Keeps (node node' : Node D) : Prop where
  localId : node'.peerMgr.localId = node.peerMgr.localId
  sessionId : node'.peerMgr.sessionId = node.peerMgr.sessionId
  isHost : node'.peerMgr.isHost = node.peerMgr.isHost
  key : node'.key = node.key
  keyExchange : node'.keyExchange = node.keyExchange
  ctxKey : node'.cryptoCtx.key = node.cryptoCtx.key
  ctxSessionId : node'.cryptoCtx.sessionId = node.cryptoCtx.sessionId
  counter : node.cryptoCtx.sendCounter.toNat ≤ node'.cryptoCtx.sendCounter.toNat

namespace Keeps

theorem refl (node : Node D) : Keeps node node :=
  ⟨rfl, rfl, rfl, rfl, rfl, rfl, rfl, Nat.le_refl _⟩

theorem trans {first second third : Node D} (one : Keeps first second)
    (two : Keeps second third) : Keeps first third where
  localId := two.localId.trans one.localId
  sessionId := two.sessionId.trans one.sessionId
  isHost := two.isHost.trans one.isHost
  key := two.key.trans one.key
  keyExchange := two.keyExchange.trans one.keyExchange
  ctxKey := two.ctxKey.trans one.ctxKey
  ctxSessionId := two.ctxSessionId.trans one.ctxSessionId
  counter := one.counter.trans two.counter

end Keeps

/-- The identity is left alone, and so are the peers as far as a view of them
goes. -/
structure Frame (view : RemotePeer D → β) (node node' : Node D) : Prop
    extends Keeps node node' where
  nextPeerId : node'.peerMgr.nextPeerId = node.peerMgr.nextPeerId
  addrToId : node'.peerMgr.addrToId = node.peerMgr.addrToId
  peers : ∀ id, (node'.getPeer id).map view = (node.getPeer id).map view

variable {view : RemotePeer D → β}

theorem getPeer_modifyPeer (node : Node D) (id k : UInt8) (f : RemotePeer D → RemotePeer D) :
    (node.modifyPeer id f).getPeer k = if k = id then (node.getPeer k).map f else node.getPeer k :=
  node.peerMgr.getPeer_modifyPeer id k f

theorem keeps_modifyPeer (node : Node D) (id : UInt8) (f : RemotePeer D → RemotePeer D) :
    Keeps node (node.modifyPeer id f) :=
  ⟨rfl, rfl, rfl, rfl, rfl, rfl, rfl, Nat.le_refl _⟩

namespace Frame

theorem refl (view : RemotePeer D → β) (node : Node D) : Frame view node node :=
  ⟨Keeps.refl node, rfl, rfl, fun _ => rfl⟩

theorem trans {first second third : Node D} (one : Frame view first second)
    (two : Frame view second third) : Frame view first third where
  toKeeps := one.toKeeps.trans two.toKeeps
  nextPeerId := two.nextPeerId.trans one.nextPeerId
  addrToId := two.addrToId.trans one.addrToId
  peers id := (two.peers id).trans (one.peers id)

/-- A peer that was there is still there, and looks the same. -/
theorem getPeer {node node' : Node D} (frame : Frame view node node') {id : UInt8}
    {peer : RemotePeer D} (known : node.getPeer id = some peer) :
    ∃ peer', node'.getPeer id = some peer' ∧ view peer' = view peer := by
  have same := frame.peers id
  rw [known, Option.map_some, Option.map_eq_some_iff] at same
  exact same

/-- A peer that is there was there, and looked the same. -/
theorem getPeer_back {node node' : Node D} (frame : Frame view node node') {id : UInt8}
    {peer' : RemotePeer D} (known : node'.getPeer id = some peer') :
    ∃ peer, node.getPeer id = some peer ∧ view peer' = view peer := by
  have same := frame.peers id
  rw [known, Option.map_some, eq_comm, Option.map_eq_some_iff] at same
  obtain ⟨peer, found, looks⟩ := same
  exact ⟨peer, found, looks.symm⟩

/-- Changing one peer where the view does not see it. -/
theorem modifyPeer (node : Node D) (id : UInt8) {f : RemotePeer D → RemotePeer D}
    (unseen : ∀ peer, node.getPeer id = some peer → view (f peer) = view peer) :
    Frame view node (node.modifyPeer id f) where
  toKeeps := keeps_modifyPeer node id f
  nextPeerId := rfl
  addrToId := rfl
  peers k := by
    rw [getPeer_modifyPeer]
    split_ifs with same
    · subst same
      cases found : node.getPeer k with
      | none => rfl
      | some peer => exact congrArg some (unseen peer found)
    · rfl

/-- Changing all peers where the view does not see it. -/
theorem mapValues (node : Node D) {f : RemotePeer D → RemotePeer D}
    (unseen : ∀ peer, view (f peer) = view peer) :
    Frame view node
      { node with peerMgr := { node.peerMgr with peers := node.peerMgr.peers.mapValues f } } where
  toKeeps := ⟨rfl, rfl, rfl, rfl, rfl, rfl, rfl, Nat.le_refl _⟩
  nextPeerId := rfl
  addrToId := rfl
  peers id := by
    change ((node.peerMgr.peers.mapValues f).lookup id).map view = _
    rw [HashMap.lookup_mapValues, Option.map_map]
    exact Option.map_congr fun peer _ => unseen peer

/-- Drawing a counter. -/
theorem drawn {node : Node D} {counter : UInt32} {ctx : CryptoContext}
    (draw : node.cryptoCtx.nextCounter = .ok (counter, ctx)) :
    Frame view node { node with cryptoCtx := ctx } := by
  obtain ⟨_, key, sessionId, moved⟩ := CryptoContext.nextCounter_eq_ok draw
  refine ⟨⟨rfl, rfl, rfl, rfl, rfl, key, sessionId, ?_⟩, rfl, rfl, fun _ => rfl⟩
  exact moved ▸ Nat.le_succ _

end Frame

variable {prim : Primitives D}

/-! ## The handlers -/

theorem touchAddr_frame (node : Node D) (addr : SocketAddr) (now : Instant)
    (unseen : ∀ peer : RemotePeer D, view (peer.touch now) = view peer) :
    Frame view node (node.touchAddr addr now) := by
  unfold touchAddr
  split
  · exact Frame.modifyPeer node _ fun peer _ => unseen peer
  · exact Frame.refl view node

theorem sealCounted_frame (view : RemotePeer D → β) (node : Node D) (pktType : UInt8)
    (payload : Bytes) (seqNum : UInt16) (dst : SocketAddr) :
    Frame view node (sealCounted prim node pktType payload seqNum dst).1 := by
  unfold sealCounted
  split
  · exact Frame.refl view node
  · rename_i counter ctx draw
    dsimp only
    split
    · exact Frame.drawn draw
    · exact Frame.drawn draw

theorem checkReplay_fields (peer : RemotePeer D) (usedPeerCtx : Bool) (counter : UInt32) :
    ∃ replayFilter peerReplayFilter, (peer.checkReplay usedPeerCtx counter).2 =
      { peer with replayFilter := replayFilter, peerReplayFilter := peerReplayFilter } := by
  cases usedPeerCtx with
  | false => exact ⟨_, _, rfl⟩
  | true => exact ⟨_, _, rfl⟩

theorem bufferFrame_fields (prim : Primitives D) (peer : RemotePeer D) (seqNum : UInt16)
    (plaintext : Bytes) :
    ∃ decoder jitterBuffer, (bufferFrame prim peer seqNum plaintext).1 =
      { peer with decoder := decoder, jitterBuffer := jitterBuffer } := by
  unfold bufferFrame
  dsimp only
  split
  · exact ⟨_, _, rfl⟩
  · exact ⟨_, _, rfl⟩

/-- The fields of a peer that received audio changes. -/
theorem acceptAudio_fields (prim : Primitives D) (peer : RemotePeer D) (now : Instant)
    (header : PacketHeader) (plaintext : Bytes) (usedPeerCtx : Bool) :
    ∃ replayFilter peerReplayFilter decoder jitterBuffer,
      (acceptAudio prim peer now header plaintext usedPeerCtx).1 =
        { peer with
          lastSeen := now
          replayFilter := replayFilter
          peerReplayFilter := peerReplayFilter
          decoder := decoder
          jitterBuffer := jitterBuffer } := by
  obtain ⟨replayFilter, peerReplayFilter, checked⟩ :=
    checkReplay_fields (peer.touch now) usedPeerCtx header.counter
  obtain ⟨decoder, jitterBuffer, buffered⟩ := bufferFrame_fields prim
    ((peer.touch now).checkReplay usedPeerCtx header.counter).2 header.seqNum plaintext
  unfold acceptAudio
  dsimp only
  rw [checked] at buffered ⊢
  split_ifs
  · exact ⟨replayFilter, peerReplayFilter, decoder, jitterBuffer, buffered⟩
  · exact ⟨replayFilter, peerReplayFilter, peer.decoder, peer.jitterBuffer, rfl⟩

theorem handleAudio_frame (node : Node D) (env : Env D) (packet : Packet)
    (unseen : ∀ (peer : RemotePeer D) replayFilter peerReplayFilter decoder jitterBuffer,
      view { peer with
        lastSeen := env.now
        replayFilter := replayFilter
        peerReplayFilter := peerReplayFilter
        decoder := decoder
        jitterBuffer := jitterBuffer } = view peer) :
    Frame view node (handleAudio prim node env packet).node := by
  unfold handleAudio
  split
  · exact Frame.refl view node
  · split
    · exact Frame.refl view node
    · rename_i usedPeerCtx _ _ peer known
      refine Frame.modifyPeer node _ fun peer' found => ?_
      rw [known] at found
      cases found
      obtain ⟨_, _, _, _, fields⟩ :=
        acceptAudio_fields prim peer env.now packet.header _ usedPeerCtx
      rw [fields]
      exact unseen peer _ _ _ _

theorem handleHelloAck_frame (node : Node D) (env : Env D) (packet : Packet)
    (unseen : ∀ peer : RemotePeer D, view (peer.connect env.now) = view peer) :
    Frame view node (handleHelloAck prim node env packet).node := by
  unfold handleHelloAck
  split
  · exact Frame.refl view node
  · exact Frame.modifyPeer node _ fun peer _ => unseen peer

theorem handlePing_frame (node : Node D) (env : Env D) (srcAddr : SocketAddr) (packet : Packet)
    (unseen : ∀ peer : RemotePeer D, view (peer.touch env.now) = view peer) :
    Frame view node (handlePing prim node env srcAddr packet).node := by
  unfold handlePing
  split
  · exact Frame.refl view node
  · split
    · exact Frame.refl view node
    · exact (sealCounted_frame view node _ _ _ _).trans (touchAddr_frame _ _ _ unseen)

theorem handlePong_frame (node : Node D) (env : Env D) (packet : Packet)
    (unseen : ∀ (peer : RemotePeer D) latencyTracker,
      view { peer with lastSeen := env.now, latencyTracker := latencyTracker } = view peer) :
    Frame view node (handlePong prim node env packet).node := by
  unfold handlePong
  split
  · exact Frame.refl view node
  · exact Frame.modifyPeer node _ fun peer _ => unseen peer _

theorem sendKeyExchange_frame (node : Node D) (id : UInt8) (dst : SocketAddr)
    (unseen : ∀ peer : RemotePeer D, view { peer with kxSent := true } = view peer) :
    Frame view node (sendKeyExchange prim node id dst).1 := by
  unfold sendKeyExchange
  split
  · exact Frame.refl view node
  · split_ifs
    · exact Frame.refl view node
    · dsimp only
      split
      · exact Frame.refl view node
      · exact Frame.modifyPeer node id fun peer _ => unseen peer

theorem handleKeyExchange_frame (node : Node D) (srcAddr : SocketAddr) (packet : Packet)
    (unseen : ∀ (peer : RemotePeer D) peerCrypto kxReceived kxSent,
      view { peer with peerCrypto := peerCrypto, kxReceived := kxReceived, kxSent := kxSent } =
        view peer) :
    Frame view node (handleKeyExchange prim node srcAddr packet).node := by
  unfold handleKeyExchange
  split
  · exact Frame.refl view node
  · dsimp only
    refine (Frame.modifyPeer node _ fun peer _ => ?_).trans
      (sendKeyExchange_frame _ _ _ fun peer => ?_)
    · exact unseen peer _ true peer.kxSent
    · exact unseen peer peer.peerCrypto peer.kxReceived true

/-! ## The timers -/

/-- What each body frames, the walk over the peers frames. -/
theorem eachPeer_frame {body : Node D → UInt8 × SocketAddr → Node D × List Emission}
    (framed : ∀ node target, Frame view node (body node target).1) (node : Node D)
    (targets : List (UInt8 × SocketAddr)) : Frame view node ((eachPeer body).run node targets) :=
  Machine.invariant (Frame view node)
    (fun node' target frame _ => frame.trans (framed node' target)) (Frame.refl view node)
    (Machine.along_true _ _ targets)

theorem sendContext_eq_some {peer : RemotePeer D} {ctx : CryptoContext}
    (complete : peer.sendContext = some ctx) :
    peer.kxSent = true ∧ peer.kxReceived = true ∧ peer.peerCrypto = some ctx := by
  unfold RemotePeer.sendContext at complete
  split_ifs at complete with flags
  simp only [Bool.and_eq_true] at flags
  exact ⟨flags.1, flags.2, complete⟩

theorem sendFrameTo_frame (opus : Bytes) (node : Node D) (target : UInt8 × SocketAddr)
    (numbered : ∀ (peer : RemotePeer D) sendSeq, view { peer with sendSeq := sendSeq } = view peer)
    (moved : ∀ (peer : RemotePeer D) (ctx : CryptoContext) counter,
      peer.peerCrypto = some ctx →
        view { peer with peerCrypto := some { ctx with sendCounter := counter } } = view peer) :
    Frame view node (sendFrameTo prim opus node target).1 := by
  unfold sendFrameTo
  split
  · exact Frame.refl view node
  · rename_i peer known
    have sequenced : Frame view node (node.modifyPeer target.1 fun _ => peer.nextSeq.2) := by
      refine Frame.modifyPeer node _ fun peer' found => ?_
      rw [known] at found
      cases found
      exact numbered peer _
    dsimp only
    split
    · rename_i peerCtx complete
      split
      · exact sequenced
      · rename_i counter ctx draw
        have advanced : Frame view (node.modifyPeer target.1 fun _ => peer.nextSeq.2)
            ((node.modifyPeer target.1 fun _ => peer.nextSeq.2).modifyPeer target.1
              fun peer => { peer with peerCrypto := some ctx }) := by
          refine Frame.modifyPeer _ _ fun peer' found => ?_
          rw [getPeer_modifyPeer, if_pos rfl, known] at found
          cases found
          obtain ⟨_, key, sessionId, _⟩ := CryptoContext.nextCounter_eq_ok draw
          have same : ctx = { peerCtx with sendCounter := ctx.sendCounter } := by
            cases ctx
            simp_all
          rw [same]
          exact moved _ peerCtx _ (sendContext_eq_some complete).2.2
        split
        · exact sequenced.trans advanced
        · exact sequenced.trans advanced
    · exact sequenced.trans (sealCounted_frame view _ _ _ _ _)

theorem sendFrame_frame (node : Node D) (env : Env D) (opus : Bytes)
    (numbered : ∀ (peer : RemotePeer D) sendSeq, view { peer with sendSeq := sendSeq } = view peer)
    (moved : ∀ (peer : RemotePeer D) (ctx : CryptoContext) counter,
      peer.peerCrypto = some ctx →
        view { peer with peerCrypto := some { ctx with sendCounter := counter } } = view peer) :
    Frame view node (sendFrame prim node env opus).1 :=
  eachPeer_frame (fun node target => sendFrameTo_frame opus node target numbered moved) node _

theorem playPeer_fields (prim : Primitives D) (peer : RemotePeer D) :
    ∃ decoder jitterBuffer, (playPeer prim peer).1 =
      { peer with decoder := decoder, jitterBuffer := jitterBuffer } := by
  unfold playPeer
  split_ifs
  · exact ⟨peer.decoder, peer.jitterBuffer, rfl⟩
  · dsimp only
    split
    · exact ⟨_, _, rfl⟩
    · exact ⟨_, _, rfl⟩

theorem playout_frame (node : Node D)
    (unseen : ∀ (peer : RemotePeer D) decoder jitterBuffer,
      view { peer with decoder := decoder, jitterBuffer := jitterBuffer } = view peer) :
    Frame view node (playout prim node) := by
  refine Frame.mapValues node fun peer => ?_
  obtain ⟨_, _, fields⟩ := playPeer_fields prim peer
  rw [fields]
  exact unseen peer _ _

theorem adapt_frame (node : Node D) (elapsedSecs : ℚ)
    (unseen : ∀ (peer : RemotePeer D) jitterBuffer,
      view { peer with jitterBuffer := jitterBuffer } = view peer) :
    Frame view node (adapt node elapsedSecs) :=
  Frame.mapValues node fun peer => unseen peer _

theorem keepalive_frame (node : Node D) (env : Env D)
    (unseen : ∀ (peer : RemotePeer D) state, view { peer with state := state } = view peer) :
    Frame view node (keepalive prim node env).1 := by
  refine (eachPeer_frame (fun node target => sealCounted_frame view node pktKeepalive [] 0 target.2)
    node _).trans (Frame.mapValues _ fun peer => ?_)
  split_ifs
  · exact unseen peer _
  · rfl

theorem sendPingTo_frame (env : Env D) (node : Node D) (target : UInt8 × SocketAddr)
    (unseen : ∀ (peer : RemotePeer D) latencyTracker,
      view { peer with latencyTracker := latencyTracker } = view peer) :
    Frame view node (sendPingTo prim env node target).1 := by
  unfold sendPingTo
  split
  · exact Frame.refl view node
  · exact (Frame.modifyPeer node _ fun peer _ => unseen peer _).trans
      (sealCounted_frame view _ _ _ _ _)

theorem ping_frame (node : Node D) (env : Env D)
    (unseen : ∀ (peer : RemotePeer D) latencyTracker kxSent,
      view { peer with latencyTracker := latencyTracker, kxSent := kxSent } = view peer) :
    Frame view node (ping prim node env).1 :=
  (eachPeer_frame (fun node target => sendPingTo_frame env node target
      fun peer latencyTracker => unseen peer latencyTracker peer.kxSent) node _).trans
    (eachPeer_frame (fun node target => sendKeyExchange_frame node target.1 target.2
      fun peer => unseen peer peer.latencyTracker true) _ _)

/-! ## Who is where -/

/-- Who a peer is and where. -/
def place (peer : RemotePeer D) : UInt8 × SocketAddr := (peer.id, peer.addr)

/-- Only three types of packets add or move peers. -/
def MovesPeers (packet : Packet) : Prop :=
  packet.header.pktType = pktJoin ∨ packet.header.pktType = pktPeerList ∨
    packet.header.pktType = pktHello

theorem handlePacket_place (node : Node D) (env : Env D) (srcAddr : SocketAddr) {packet : Packet}
    (ordinary : ¬ MovesPeers packet) :
    Frame place node (handlePacket prim node env srcAddr packet).node := by
  cases handlePacket_handled prim node env srcAddr packet with
  | audio _ same => exact same ▸ handleAudio_frame node env packet fun _ _ _ _ _ => rfl
  | join type => exact absurd (Or.inl type) ordinary
  | peerList type => exact absurd (Or.inr (Or.inl type)) ordinary
  | hello type => exact absurd (Or.inr (Or.inr type)) ordinary
  | helloAck _ same => exact same ▸ handleHelloAck_frame node env packet fun _ => rfl
  | keepalive _ same => exact same ▸ touchAddr_frame node srcAddr env.now fun _ => rfl
  | ping _ same => exact same ▸ handlePing_frame node env srcAddr packet fun _ => rfl
  | pong _ same => exact same ▸ handlePong_frame node env packet fun _ _ => rfl
  | keyExchange _ same =>
      exact same ▸ handleKeyExchange_frame node srcAddr packet fun _ _ _ _ => rfl
  | unknown _ same => exact same ▸ Frame.refl place node

/-- **Nobody moves** in a step that handles none of these packets. -/
theorem step_place {node : Node D} {env : Env D} {event : Event}
    (ordinary : ∀ data srcAddr packet, event = .recv data srcAddr →
      Packet.parse data = .ok packet → ¬ MovesPeers packet) :
    Frame place node (step prim node env event).1 := by
  cases event with
  | recv data srcAddr =>
      change Frame place node (handleIncoming prim node env data srcAddr).node
      unfold handleIncoming
      split
      · exact Frame.refl place node
      · rename_i packet parsed
        exact handlePacket_place node env srcAddr (ordinary data srcAddr packet rfl parsed)
  | frame opus => exact sendFrame_frame node env opus (fun _ _ => rfl) fun _ _ _ _ => rfl
  | playout => exact playout_frame node fun _ _ _ => rfl
  | keepalive => exact keepalive_frame node env fun _ _ => rfl
  | ping => exact ping_frame node env fun _ _ _ => rfl
  | adapt elapsedSecs => exact adapt_frame node elapsedSecs fun _ _ => rfl

/-- Touching a peer changes the node exactly when it was not seen just now. -/
theorem modifyPeer_touch_eq_self_iff (node : Node D) (id : UInt8) (now : Instant) :
    node.modifyPeer id (·.touch now) = node ↔
      ∀ peer, node.getPeer id = some peer → peer.lastSeen = now := by
  constructor
  · intro same peer known
    have touched : (node.modifyPeer id (·.touch now)).getPeer id = node.getPeer id :=
      congrArg (·.getPeer id) same
    rw [getPeer_modifyPeer, if_pos rfl, known, Option.map_some, Option.some_inj] at touched
    exact (congrArg RemotePeer.lastSeen touched).symm
  · intro recent
    have fixed : node.peerMgr.modifyPeer id (·.touch now) = node.peerMgr := by
      refine PeerManager.modifyPeer_eq_self fun peer known => ?_
      rw [RemotePeer.touch, ← recent peer known]
    rw [modifyPeer, fixed]

end Node

end VoiceChat
