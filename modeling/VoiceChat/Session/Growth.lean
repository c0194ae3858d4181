import VoiceChat.Session.Emissions

/-!
# What a step does to a known peer

The handshake adds peers and moves them, but it never takes one out and never
touches what two peers have agreed on. `Grows` says that for a view of the peers:
the known ones look the same, and a new one looks fresh. A view that also ignores
what audio, key exchanges and outgoing frames change grows in every step
(`step_grows`); `handleKeyExchange_getPeer` and `handleAudio_getPeer` say what the
first two do change.
-/

set_option autoImplicit false

namespace VoiceChat

namespace Node

variable {D β : Type} {prim : Primitives D}

/-- In a view of the peers, every known peer looks the same and every new one
looks fresh. -/
def Grows (view : RemotePeer D → β) (fresh : β) (node node' : Node D) : Prop :=
  ∀ id, (node'.getPeer id).map view = (node.getPeer id).map view ∨
    node.getPeer id = none ∧ (node'.getPeer id).map view = some fresh

variable {view : RemotePeer D → β} {fresh : β}

namespace Grows

theorem of_frame {node node' : Node D} (frame : Frame view node node') :
    Grows view fresh node node' := fun id => Or.inl (frame.peers id)

theorem refl (node : Node D) : Grows view fresh node node := fun _ => Or.inl rfl

theorem trans {first second third : Node D} (one : Grows view fresh first second)
    (two : Grows view fresh second third) : Grows view fresh first third := by
  intro id
  rcases one id with same | ⟨unknown, new⟩
  · rcases two id with same' | ⟨unknown', new'⟩
    · exact Or.inl (same'.trans same)
    · rw [unknown', Option.map_none, eq_comm, Option.map_eq_none_iff] at same
      exact Or.inr ⟨same, new'⟩
  · rcases two id with same' | ⟨unknown', _⟩
    · exact Or.inr ⟨unknown, same'.trans new⟩
    · rw [unknown', Option.map_none] at new
      cases new

/-- A known peer stays known, and looks the same. -/
theorem getPeer {node node' : Node D} (grows : Grows view fresh node node') {id : UInt8}
    {peer : RemotePeer D} (known : node.getPeer id = some peer) :
    ∃ peer', node'.getPeer id = some peer' ∧ view peer' = view peer := by
  rcases grows id with same | ⟨unknown, _⟩
  · rw [known, Option.map_some, Option.map_eq_some_iff] at same
    exact same
  · rw [known] at unknown
    cases unknown

end Grows

/-! ## The handshake -/

/-- The view sees neither where a peer is nor how it is connected; and new peers look
fresh. -/
structure Placeless (view : RemotePeer D → β) (fresh : β) : Prop where
  new : ∀ id addr decoder now, view (RemotePeer.new id addr decoder now) = fresh
  addr : ∀ (peer : RemotePeer D) addr, view { peer with addr := addr } = view peer
  state : ∀ (peer : RemotePeer D) state lastSeen,
    view { peer with state := state, lastSeen := lastSeen } = view peer

/-- The view also sees nothing of what the session measures all the time. -/
structure Steady (view : RemotePeer D → β) (fresh : β) : Prop extends Placeless view fresh where
  buffers : ∀ (peer : RemotePeer D) decoder jitterBuffer,
    view { peer with decoder := decoder, jitterBuffer := jitterBuffer } = view peer
  latency : ∀ (peer : RemotePeer D) lastSeen latencyTracker,
    view { peer with lastSeen := lastSeen, latencyTracker := latencyTracker } = view peer

/-- The view also sees nothing of what the session counts. -/
structure Settled (view : RemotePeer D → β) (fresh : β) : Prop extends Steady view fresh where
  sendSeq : ∀ (peer : RemotePeer D) sendSeq, view { peer with sendSeq := sendSeq } = view peer
  kxSent : ∀ (peer : RemotePeer D) kxSent, view { peer with kxSent := kxSent } = view peer

/-- The view does not see the replay filters. -/
def IgnoresFilters (view : RemotePeer D → β) : Prop :=
  ∀ (peer : RemotePeer D) replayFilter peerReplayFilter,
    view { peer with replayFilter := replayFilter, peerReplayFilter := peerReplayFilter } =
      view peer

/-- The view does not see the per-peer context. -/
def IgnoresKeys (view : RemotePeer D → β) : Prop :=
  ∀ (peer : RemotePeer D) peerCrypto kxReceived,
    view { peer with peerCrypto := peerCrypto, kxReceived := kxReceived } = view peer

/-- The view does not see the counter of the per-peer context. -/
def IgnoresCounter (view : RemotePeer D → β) : Prop :=
  ∀ (peer : RemotePeer D) (ctx : CryptoContext) counter, peer.peerCrypto = some ctx →
    view { peer with peerCrypto := some { ctx with sendCounter := counter } } = view peer

theorem Placeless.grows_addPeer (placeless : Placeless view fresh) (node : Node D)
    {peerMgr peerMgr' : PeerManager D} {id : UInt8} {addr : SocketAddr} {newDecoder : Option D}
    {now : Instant} (added : peerMgr.addPeer id addr newDecoder now = .ok peerMgr')
    (table : peerMgr.getPeer = node.peerMgr.getPeer) :
    Grows view fresh node { node with peerMgr := peerMgr' } := by
  intro k
  change (peerMgr'.getPeer k).map view = (node.peerMgr.getPeer k).map view ∨
    node.peerMgr.getPeer k = none ∧ (peerMgr'.getPeer k).map view = some fresh
  by_cases self : id = peerMgr.localId
  · rw [PeerManager.addPeer_self added self, table]
    exact Or.inl rfl
  · obtain ⟨peer, entries, origin⟩ := PeerManager.getPeer_addPeer added self
    rw [entries, ← table]
    split_ifs with same
    · subst same
      rcases origin with ⟨unknown, decoder, rfl⟩ | ⟨old, known, rfl⟩
      · exact Or.inr ⟨unknown, congrArg some (placeless.new k addr decoder now)⟩
      · rw [known]
        exact Or.inl (congrArg some (placeless.addr old addr))
    · exact Or.inl rfl

theorem Placeless.grows_handleJoin (placeless : Placeless view fresh) (prim : Primitives D)
    (node : Node D) (env : Env D) (srcAddr : SocketAddr) (packet : Packet) :
    Grows view fresh node (handleJoin prim node env srcAddr packet).node := by
  rcases handleJoin_cases prim node env srcAddr packet with
    ⟨e, refused⟩ | ⟨_, id, peerMgr, _, allocated, ⟨e, full⟩ | ⟨peerMgr', added, answered⟩⟩
  · rw [refused]
    exact Grows.refl node
  · obtain ⟨_, _, _, rfl⟩ := PeerManager.allocatePeerId_eq_ok allocated
    rw [full]
    exact fun _ => Or.inl rfl
  · obtain ⟨_, _, _, rfl⟩ := PeerManager.allocatePeerId_eq_ok allocated
    rw [answered, sendPeerList_node]
    have connected : Frame view { node with peerMgr := peerMgr' }
        { node with peerMgr := peerMgr'.modifyPeer id (·.connect env.now) } :=
      Frame.modifyPeer { node with peerMgr := peerMgr' } id fun peer _ => placeless.state peer _ _
    exact (placeless.grows_addPeer node added rfl).trans (Grows.of_frame connected)

theorem Placeless.grows_handleHello (placeless : Placeless view fresh) (prim : Primitives D)
    (node : Node D) (env : Env D) (srcAddr : SocketAddr) (packet : Packet) :
    Grows view fresh node (handleHello prim node env srcAddr packet).node := by
  rcases handleHello_cases prim node env srcAddr packet with
    ⟨e, refused⟩ | ⟨_, peerMgr, _, greeting, answered⟩
  · rw [refused]
    exact Grows.refl node
  · rw [answered, sendSealed_node]
    have connected : Frame view { node with peerMgr := peerMgr }
        { node with
          peerMgr := peerMgr.modifyPeer packet.header.peerId (·.connect env.now) } :=
      Frame.modifyPeer { node with peerMgr := peerMgr } _ fun peer _ => placeless.state peer _ _
    refine Grows.trans ?_ (Grows.of_frame connected)
    rcases greeted_eq_ok greeting with ⟨_, _, rfl⟩ | ⟨_, added⟩
    · exact Grows.refl node
    · exact placeless.grows_addPeer node added rfl

theorem Placeless.grows_greetPeers (placeless : Placeless view fresh) (prim : Primitives D)
    (node : Node D) (env : Env D) (sessionId : SessionId) (myId sender : UInt8)
    (srcAddr : SocketAddr) (peers : List (UInt8 × SocketAddr)) (peerMgr : PeerManager D)
    (out : List Emission)
    (grown : Grows view fresh node { node with peerMgr := peerMgr }) :
    Grows view fresh node { node with
      peerMgr := (greetPeers prim node.key env sessionId myId sender srcAddr peers peerMgr
        out).1 } := by
  refine greetPeers_preserves (fun pm => Grows view fresh node { node with peerMgr := pm }) out
    ?_ grown
  intro id addr _ _ pm pm' added grown
  have entered := grown.trans (placeless.grows_addPeer { node with peerMgr := pm } added rfl)
  have marked : Frame view { node with peerMgr := pm' }
      { node with peerMgr := pm'.modifyPeer id fun peer => { peer with state := .helloSent } } :=
    Frame.modifyPeer { node with peerMgr := pm' } id
      fun peer _ => placeless.state peer _ peer.lastSeen
  exact ⟨entered, entered.trans (Grows.of_frame marked)⟩

theorem Placeless.grows_handlePeerList (placeless : Placeless view fresh) (prim : Primitives D)
    (node : Node D) (env : Env D) (srcAddr : SocketAddr) (packet : Packet) :
    Grows view fresh node (handlePeerList prim node env srcAddr packet).node := by
  rcases handlePeerList_cases prim node env srcAddr packet with
    ⟨e, refused⟩ | ⟨myId, list, _, greeted⟩
  · rw [refused]
    exact Grows.refl node
  · rw [greeted]
    exact placeless.grows_greetPeers prim node env list.sessionId myId packet.header.peerId srcAddr
      list.peers (node.peerMgr.setIdentity myId list.sessionId) [] (Grows.refl node)

/-! ## All steps -/

/-- The step receives a packet of a type. -/
def Receives (pktType : UInt8) (event : Event) : Prop :=
  ∃ data srcAddr packet, event = .recv data srcAddr ∧ Packet.parse data = .ok packet ∧
    packet.header.pktType = pktType

/-- The step sends a frame. -/
def SendsFrame (event : Event) : Prop := ∃ opus, event = .frame opus

/-- **Every step lets the table grow**, in a view that ignores what the step is
there to change. -/
theorem step_grows (settled : Settled view fresh) (prim : Primitives D) (node : Node D)
    (env : Env D) (event : Event) (audio : Receives pktAudio event → IgnoresFilters view)
    (keyExchange : Receives pktKeyExchange event → IgnoresKeys view)
    (frame : SendsFrame event → IgnoresCounter view) :
    Grows view fresh node (step prim node env event).1 := by
  have touched : ∀ (peer : RemotePeer D) now, view (peer.touch now) = view peer :=
    fun peer now => settled.state peer peer.state now
  cases event with
  | recv data srcAddr =>
      change Grows view fresh node (handleIncoming prim node env data srcAddr).node
      unfold handleIncoming
      split
      · exact Grows.refl node
      · rename_i packet parsed
        cases handlePacket_handled prim node env srcAddr packet with
        | audio type same =>
            rw [same]
            refine Grows.of_frame (handleAudio_frame node env packet ?_)
            intro peer replayFilter peerReplayFilter decoder jitterBuffer
            have ignores := audio ⟨data, srcAddr, packet, rfl, parsed, type⟩
            refine (settled.buffers { peer with
              lastSeen := env.now
              replayFilter := replayFilter
              peerReplayFilter := peerReplayFilter } decoder jitterBuffer).trans ?_
            exact (ignores { peer with lastSeen := env.now } _ _).trans (touched peer env.now)
        | join _ same => exact same ▸ settled.grows_handleJoin prim node env srcAddr packet
        | peerList _ same => exact same ▸ settled.grows_handlePeerList prim node env srcAddr packet
        | hello _ same => exact same ▸ settled.grows_handleHello prim node env srcAddr packet
        | helloAck _ same =>
            rw [same]
            exact Grows.of_frame
              (handleHelloAck_frame node env packet fun peer => settled.state peer _ _)
        | keepalive _ same =>
            rw [same]
            exact Grows.of_frame (touchAddr_frame node srcAddr env.now fun peer => touched peer _)
        | ping _ same =>
            rw [same]
            exact Grows.of_frame
              (handlePing_frame node env srcAddr packet fun peer => touched peer _)
        | pong _ same =>
            rw [same]
            exact Grows.of_frame
              (handlePong_frame node env packet fun peer => settled.latency peer _)
        | keyExchange type same =>
            rw [same]
            refine Grows.of_frame (handleKeyExchange_frame node srcAddr packet ?_)
            intro peer peerCrypto kxReceived kxSent
            have ignores := keyExchange ⟨data, srcAddr, packet, rfl, parsed, type⟩
            exact (settled.kxSent { peer with peerCrypto := peerCrypto, kxReceived := kxReceived }
              kxSent).trans (ignores peer peerCrypto kxReceived)
        | unknown _ same => exact same ▸ Grows.refl node
  | frame opus =>
      exact Grows.of_frame (sendFrame_frame node env opus settled.sendSeq (frame ⟨opus, rfl⟩))
  | playout => exact Grows.of_frame (playout_frame node settled.buffers)
  | keepalive =>
      exact Grows.of_frame (keepalive_frame node env fun peer state =>
        settled.state peer state peer.lastSeen)
  | ping =>
      exact Grows.of_frame (ping_frame node env fun peer latencyTracker kxSent =>
        (settled.kxSent { peer with latencyTracker := latencyTracker } kxSent).trans
          (settled.latency peer peer.lastSeen latencyTracker))
  | adapt elapsedSecs =>
      exact Grows.of_frame (adapt_frame node elapsedSecs fun peer jitterBuffer =>
        settled.buffers peer peer.decoder jitterBuffer)

/-- **What a key exchange changes.** A KEY_EXCHANGE that opens gives the peer it
claims to come from a new context with the derived key, and no other peer one. -/
theorem handleKeyExchange_getPeer {node : Node D} {packet : Packet} {derivedKey : Key}
    (opened : openKeyExchange prim node packet = .ok derivedKey) (srcAddr : SocketAddr)
    (id : UInt8) :
    ((handleKeyExchange prim node srcAddr packet).node.getPeer id).map
        (fun peer => (peer.kxReceived, peer.peerCrypto)) =
      (node.getPeer id).map fun peer =>
        if id = packet.header.peerId then
          (true, some (CryptoContext.new derivedKey node.peerMgr.sessionId))
        else (peer.kxReceived, peer.peerCrypto) := by
  unfold handleKeyExchange
  rw [opened]
  have sent : Frame (fun peer : RemotePeer D => (peer.kxReceived, peer.peerCrypto))
      (node.modifyPeer packet.header.peerId fun peer =>
        { peer with
          peerCrypto := some (CryptoContext.new derivedKey node.peerMgr.sessionId)
          kxReceived := true })
      (sendKeyExchange prim (node.modifyPeer packet.header.peerId fun peer =>
        { peer with
          peerCrypto := some (CryptoContext.new derivedKey node.peerMgr.sessionId)
          kxReceived := true }) packet.header.peerId srcAddr).1 :=
    sendKeyExchange_frame _ _ _ fun _ => rfl
  refine (sent.peers id).trans ?_
  rw [getPeer_modifyPeer]
  split_ifs
  · rw [Option.map_map]
    rfl
  · rfl

/-- A peer that is sent our KEY_EXCHANGE, or was, is marked so. -/
theorem sendKeyExchange_kxSent (seals : prim.aead.Seals 32) (node : Node D) (id : UInt8)
    (dst : SocketAddr) :
    ((sendKeyExchange prim node id dst).1.getPeer id).map RemotePeer.kxSent =
      (node.getPeer id).map fun _ => true := by
  unfold sendKeyExchange
  cases known : node.getPeer id with
  | none => exact congrArg (Option.map RemotePeer.kxSent) known
  | some peer =>
      dsimp only
      split_ifs with sent
      · rw [known, Option.map_some, Option.map_some, sent]
      · have short : (KeyExchangePayload.toBytes
            ⟨node.keyExchange.publicKeyBytes prim⟩).length ≤ 32 := (Vector.length_toList ..).le
        obtain ⟨e, sealed⟩ := sealPacket_of_seals seals short .psk
          (node.pskCtx node.peerMgr.sessionId) ⟨pktKeyExchange, node.peerMgr.localId, 0, 0⟩ dst
          true node.peerMgr.localId 0 0
        rw [sealed]
        dsimp only
        rw [getPeer_modifyPeer, if_pos rfl, known]
        rfl

/-- **A KEY_EXCHANGE from a known peer completes the exchange**, on this side. -/
theorem handleKeyExchange_sendContext (seals : prim.aead.Seals 32) {node : Node D}
    {packet : Packet} {derivedKey : Key}
    (opened : openKeyExchange prim node packet = .ok derivedKey) (srcAddr : SocketAddr)
    {peer : RemotePeer D} (known : node.getPeer packet.header.peerId = some peer) :
    ∃ peer', (handleKeyExchange prim node srcAddr packet).node.getPeer packet.header.peerId =
        some peer' ∧
      peer'.sendContext = some (CryptoContext.new derivedKey node.peerMgr.sessionId) := by
  have keyed := handleKeyExchange_getPeer opened srcAddr packet.header.peerId
  rw [known, Option.map_some, if_pos rfl, Option.map_eq_some_iff] at keyed
  obtain ⟨peer', known', looks⟩ := keyed
  obtain ⟨received, crypto⟩ := Prod.mk.injEq .. ▸ looks
  refine ⟨peer', known', ?_⟩
  have sent : peer'.kxSent = true := by
    unfold handleKeyExchange at known'
    rw [opened] at known'
    have marked := sendKeyExchange_kxSent seals (node.modifyPeer packet.header.peerId fun peer =>
      { peer with
        peerCrypto := some (CryptoContext.new derivedKey node.peerMgr.sessionId)
        kxReceived := true }) packet.header.peerId srcAddr
    rw [getPeer_modifyPeer, if_pos rfl, known, Option.map_some] at marked
    obtain ⟨peer'', there, sent⟩ := Option.map_eq_some_iff.mp marked
    cases there.symm.trans known'
    exact sent
  rw [RemotePeer.sendContext, sent, received, crypto]
  rfl

/-- Whether a peer's key was received, and the key and the session of its
context. -/
def secret (peer : RemotePeer D) : Bool × Option (Key × SessionId) :=
  (peer.kxReceived, peer.peerCrypto.map fun ctx => (ctx.key, ctx.sessionId))

theorem settled_secret : Settled (secret : RemotePeer D → _) (false, none) where
  new _ _ _ _ := rfl
  addr _ _ := rfl
  state _ _ _ := rfl
  buffers _ _ _ := rfl
  latency _ _ _ := rfl
  sendSeq _ _ := rfl
  kxSent _ _ := rfl

/-- Peers with the same secret have contexts with the same key. -/
theorem key_of_secret {peer peer' : RemotePeer D} (same : secret peer' = secret peer)
    {ctx : CryptoContext} (keyed : peer'.peerCrypto = some ctx) :
    ∃ before, peer.peerCrypto = some before ∧ before.key = ctx.key := by
  have crypto := (Prod.mk.inj same).2
  rw [keyed, Option.map_some, eq_comm, Option.map_eq_some_iff] at crypto
  obtain ⟨before, stored, looks⟩ := crypto
  exact ⟨before, stored, (Prod.mk.inj looks).1⟩

/-- **Only a key exchange in its name gives a known peer a key.** -/
theorem step_secret (prim : Primitives D) (node : Node D) (env : Env D) (event : Event)
    {id : UInt8} {peer : RemotePeer D} (known : node.getPeer id = some peer) :
    ∃ peer', (step prim node env event).1.getPeer id = some peer' ∧
      (secret peer' = secret peer ∨ ∃ data srcAddr packet derivedKey,
        event = .recv data srcAddr ∧ Packet.parse data = .ok packet ∧
          packet.header.pktType = pktKeyExchange ∧ packet.header.peerId = id ∧
          openKeyExchange prim node packet = .ok derivedKey ∧
          secret peer' = (true, some (derivedKey, node.peerMgr.sessionId))) := by
  by_cases received : Receives pktKeyExchange event
  · obtain ⟨data, srcAddr, packet, rfl, parsed, type⟩ := received
    change ∃ peer', (handleIncoming prim node env data srcAddr).node.getPeer id = some peer' ∧ _
    rw [handleIncoming_eq prim parsed, handlePacket_keyExchange prim type]
    cases opened : openKeyExchange prim node packet with
    | error e =>
        refine ⟨peer, ?_, Or.inl rfl⟩
        rw [handleKeyExchange, opened]
        exact known
    | ok derivedKey =>
        have changed := handleKeyExchange_getPeer opened srcAddr id
        rw [known, Option.map_some, Option.map_eq_some_iff] at changed
        obtain ⟨peer', known', looks⟩ := changed
        refine ⟨peer', known', ?_⟩
        split_ifs at looks with named
        · obtain ⟨flag, ctx⟩ := Prod.mk.injEq .. ▸ looks
          refine Or.inr
            ⟨data, srcAddr, packet, derivedKey, rfl, parsed, type, named.symm, opened, ?_⟩
          rw [secret, flag, ctx]
          rfl
        · obtain ⟨flag, ctx⟩ := Prod.mk.injEq .. ▸ looks
          refine Or.inl ?_
          rw [secret, secret, flag, ctx]
  · have grows := step_grows settled_secret prim node env event (fun _ _ _ _ => rfl)
      (fun keyExchange => absurd keyExchange received)
      (fun _ peer ctx counter keyed => by
        rw [secret, secret, keyed]
        rfl)
    obtain ⟨peer', known', same⟩ := grows.getPeer known
    exact ⟨peer', known', Or.inl same⟩

/-- A peer that is new has no key. -/
theorem step_secret_of_unknown (prim : Primitives D) (node : Node D) (env : Env D) (event : Event)
    {id : UInt8} (unknown : node.getPeer id = none) {peer' : RemotePeer D}
    (known' : (step prim node env event).1.getPeer id = some peer') :
    secret peer' = (false, none) := by
  by_cases received : Receives pktKeyExchange event
  · obtain ⟨data, srcAddr, packet, rfl, parsed, type⟩ := received
    change (handleIncoming prim node env data srcAddr).node.getPeer id = _ at known'
    rw [handleIncoming_eq prim parsed, handlePacket_keyExchange prim type] at known'
    cases opened : openKeyExchange prim node packet with
    | error e =>
        rw [handleKeyExchange, opened] at known'
        cases unknown.symm.trans known'
    | ok derivedKey =>
        have changed := handleKeyExchange_getPeer opened srcAddr id
        rw [known', unknown] at changed
        cases changed
  · have grows := step_grows settled_secret prim node env event (fun _ _ _ _ => rfl)
      (fun keyExchange => absurd keyExchange received)
      (fun _ peer ctx counter keyed => by
        rw [secret, secret, keyed]
        rfl) id
    rw [known', unknown] at grows
    rcases grows with same | ⟨_, new⟩
    · cases same
    · exact Option.some.inj new

end Node

end VoiceChat
