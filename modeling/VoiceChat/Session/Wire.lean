import VoiceChat.Session.Answers
import VoiceChat.Session.Coherence

/-!
# Opening from the wire

The nonce is not transmitted: the receiver rebuilds it from the header and from
the session of the context that its handler uses. What a node seals under the
pre-shared key, a node with the same key in the same session opens, from the
datagram alone, and the datagram is never too long for the receive buffer
(`sent_opens`).

It comes down to the context that each handler uses (`handlerCtx`): the zero
session for the packets that make a node a member, a fresh context of the session
for the rest of the handshake, and the session context for what it numbers.
-/

set_option autoImplicit false

namespace VoiceChat

/-- The size of the buffer that the codec encodes a frame into. -/
def maxEncodedSize : Nat := 256

/-- A datagram is its header, the payload and the tag. -/
theorem Emission.SealedWith.length_wire {aead : Aead} {ctx : CryptoContext} {e : Emission}
    (sealed : e.SealedWith aead ctx) (expands : aead.Expands authTagLen) :
    e.wire.length = headerLen + (e.plaintext.length + authTagLen) := by
  obtain ⟨ciphertext, encrypted, wire⟩ := sealed.wire
  unfold CryptoContext.encrypt at encrypted
  split at encrypted
  · rename_i success
    cases encrypted
    rw [wire, buildWirePacket, List.length_append, Vector.length_toList,
      expands _ _ _ _ _ success]
  · cases encrypted

namespace Node

variable {D : Type} {prim : Primitives D}

/-- The context that the handler of a type opens with. A keepalive is not opened at
all; the one here is the one it is sealed with. -/
def handlerCtx (node : Node D) (pktType : UInt8) : CryptoContext :=
  if pktType = pktJoin ∨ pktType = pktPeerList then
    node.pskCtx zeroSession
  else if pktType = pktHello ∨ pktType = pktHelloAck ∨ pktType = pktKeyExchange then
    node.pskCtx node.peerMgr.sessionId
  else
    node.cryptoCtx

/-- Of the packets with a header, the node takes in only what a context opens. -/
def DecryptsWith (prim : Primitives D) (node : Node D) (header : PacketHeader)
    (ctx : CryptoContext) : Prop :=
  ∀ env srcAddr packet, packet.header = header → (∃ e, opens prim ctx packet = .error e) →
    ∃ e, handlePacket prim node env srcAddr packet = .fail node [] e

/-- **The context is the one that is used**: what does not open with it is refused, but for
keepalives and for the audio of a peer whose key was received. -/
theorem decryptsWith_handlerCtx {node : Node D} {header : PacketHeader}
    (decrypted : header.pktType ≠ pktKeepalive)
    (shared : header.pktType = pktAudio →
      (node.getPeer header.peerId).bind RemotePeer.recvContext = none) :
    node.DecryptsWith prim header (node.handlerCtx header.pktType) := by
  rintro env srcAddr packet rfl ⟨error, unopened⟩
  unfold handlerCtx at unopened
  cases handlePacket_handled prim node env srcAddr packet with
  | audio type same =>
      rw [type] at unopened
      have own : opens prim node.cryptoCtx packet = .error error := unopened
      rw [same, handleAudio, openAudio, shared type]
      dsimp only
      rw [own]
      exact ⟨error, rfl⟩
  | join type same =>
      rw [if_pos (Or.inl type)] at unopened
      rw [same, handleJoin]
      split_ifs
      · exact ⟨_, rfl⟩
      · exact ⟨error, by rw [openJoin, unopened]⟩
  | peerList type same =>
      rw [if_pos (Or.inr type)] at unopened
      exact ⟨error, by rw [same, handlePeerList, openPeerList, unopened]⟩
  | hello type same =>
      rw [type] at unopened
      have session : opens prim (node.pskCtx node.peerMgr.sessionId) packet = .error error :=
        unopened
      exact ⟨error, by rw [same, handleHello, session]⟩
  | helloAck type same =>
      rw [type] at unopened
      have session : opens prim (node.pskCtx node.peerMgr.sessionId) packet = .error error :=
        unopened
      exact ⟨error, by rw [same, handleHelloAck, session]⟩
  | keepalive type => exact absurd type decrypted
  | ping type same =>
      rw [type] at unopened
      have own : opens prim node.cryptoCtx packet = .error error := unopened
      exact ⟨error, by rw [same, handlePing, openPing, own]⟩
  | pong type same =>
      rw [type] at unopened
      have own : opens prim node.cryptoCtx packet = .error error := unopened
      exact ⟨error, by rw [same, handlePong, openPing, own]⟩
  | keyExchange type same =>
      rw [type] at unopened
      have session : opens prim (node.pskCtx node.peerMgr.sessionId) packet = .error error :=
        unopened
      exact ⟨error, by rw [same, handleKeyExchange, openKeyExchange, session]⟩
  | unknown _ same => exact ⟨_, same⟩

/-- The session that packets of a type are sealed for, in a session. -/
def sealedFor (sessionId : SessionId) (pktType : UInt8) : SessionId :=
  if pktType = pktJoin ∨ pktType = pktPeerList then zeroSession else sessionId

theorem Coherent.handlerCtx_key {node : Node D} (coherent : node.Coherent) (pktType : UInt8) :
    (node.handlerCtx pktType).key = node.key := by
  unfold handlerCtx
  split_ifs
  · rfl
  · rfl
  · exact coherent.ctxKey

theorem Coherent.handlerCtx_sessionId {node : Node D} (coherent : node.Coherent)
    (pktType : UInt8) :
    (node.handlerCtx pktType).sessionId = sealedFor node.peerMgr.sessionId pktType := by
  unfold handlerCtx sealedFor
  split_ifs
  · rfl
  · rfl
  · exact coherent.ctxSessionId

/-! ## The payloads are short -/

theorem plaintext_of_sealCounted {node : Node D} {pktType : UInt8} {payload : Bytes}
    {seqNum : UInt16} {dst : SocketAddr} {e : Emission}
    (member : e ∈ (sealCounted prim node pktType payload seqNum dst).2) :
    e.plaintext = payload := by
  rcases sealCounted_cases prim node pktType payload seqNum dst with
    none | ⟨e', one, _, _, _, plaintext, _⟩
  · rw [none] at member
    cases member
  · rw [one] at member
    rw [List.mem_singleton.mp member, plaintext]

theorem length_ping (ping : PingPayload) : ping.toBytes.length = 4 := Vector.length_toList ..

theorem length_keyExchange (payload : KeyExchangePayload) : payload.toBytes.length = 32 :=
  Vector.length_toList ..

theorem length_buildPeerList_le (pm : PeerManager D) (hostAddr : SocketAddr)
    (order : HashOrder UInt8) :
    (pm.buildPeerList hostAddr order).peers.length ≤ pm.peers.size + 1 := by
  rw [PeerManager.buildPeerList, List.length_cons, List.length_map]
  exact Nat.succ_le_succ (HashMap.length_values_le pm.peers order)

/-- The peer list of a host fits. -/
theorem length_peerList_le {node : Node D} {env : Env D} {srcAddr : SocketAddr} {packet : Packet}
    {e : Emission} (room : node.peerMgr.peers.size ≤ maxPeers - 1)
    (member : e ∈ (handleJoin prim node env srcAddr packet).out) :
    e.plaintext.length ≤ maxEncodedSize := by
  obtain ⟨_, _, _, id, peerMgr, peerMgr', hostAddr, _, _, after, plaintext⟩ :=
    mem_handleJoin_out member
  have size := size_handleJoin_le prim node env srcAddr packet room
  rw [after] at size
  have listed := length_buildPeerList_le (peerMgr'.modifyPeer id (·.connect env.now)) hostAddr
    env.order
  have bytes := PeerListPayload.length_toBytes_le
    ((peerMgr'.modifyPeer id (·.connect env.now)).buildPeerList hostAddr env.order)
  rw [plaintext]
  have : maxPeers = 5 := rfl
  have : maxEncodedSize = 256 := rfl
  dsimp only at size
  omega

/-- **Every payload fits**, if every encoded frame does. -/
theorem length_plaintext_le {node : Node D} (coherent : node.Coherent) {env : Env D}
    {event : Event} (encoded : ∀ opus, event = .frame opus → opus.length ≤ maxEncodedSize)
    {e : Emission} (member : e ∈ (step prim node env event).2) :
    e.plaintext.length ≤ maxEncodedSize := by
  have empty : ([] : Bytes).length ≤ maxEncodedSize := Nat.zero_le _
  have pinged : ∀ ping : PingPayload, ping.toBytes.length ≤ maxEncodedSize := fun ping => by
    rw [length_ping]
    decide
  have exchanged : ∀ payload : KeyExchangePayload, payload.toBytes.length ≤ maxEncodedSize :=
    fun payload => by
      rw [length_keyExchange]
      decide
  cases event with
  | recv data srcAddr =>
    cases emits_of_recv member with
    | peerList parsed join answer => exact length_peerList_le coherent.room answer
    | hello adopted sealedWith scope header plaintext => rwa [plaintext]
    | helloAck parsed hello opened greeting sealedWith scope header plaintext dst =>
      rwa [plaintext]
    | keyExchange owed sealedWith scope header plaintext =>
      rw [plaintext]
      exact exchanged _
    | counted draws sealedWith scope type peerId =>
      obtain ⟨packet, request, parsed, ping, opened⟩ := draws
      change e ∈ (handleIncoming prim node env data srcAddr).out at member
      rw [handleIncoming_eq prim parsed, handlePacket_ping prim ping] at member
      unfold handlePing at member
      split at member
      · cases member
      · split at member
        · cases member
        · rw [plaintext_of_sealCounted member]
          exact pinged _
  | frame opus =>
    obtain ⟨node', target, _, _, out⟩ := Machine.mem_outputs (fun _ => True)
      (fun _ _ _ => trivial) trivial member
    rcases sendFrameTo_cases prim opus node' target with none | ⟨e', peer, one, _, plaintext, _⟩
    · exact absurd out (by rw [show (eachPeer (sendFrameTo prim opus)).step node' target =
        sendFrameTo prim opus node' target from rfl, none]; exact List.not_mem_nil)
    · change e ∈ (sendFrameTo prim opus node' target).2 at out
      rw [one] at out
      rw [List.mem_singleton.mp out, plaintext]
      exact encoded opus rfl
  | playout => cases member
  | keepalive =>
    obtain ⟨node', target, _, _, out⟩ := Machine.mem_outputs (fun _ => True)
      (fun _ _ _ => trivial) trivial member
    rwa [plaintext_of_sealCounted out]
  | ping =>
    rcases List.mem_append.mp member with early | late
    · obtain ⟨node', target, _, _, out⟩ := Machine.mem_outputs (fun _ => True)
        (fun _ _ _ => trivial) trivial early
      change e ∈ (sendPingTo prim env node' target).2 at out
      unfold sendPingTo at out
      split at out
      · cases out
      · rw [plaintext_of_sealCounted out]
        exact pinged _
    · obtain ⟨node', target, _, _, out⟩ := Machine.mem_outputs (fun _ => True)
        (fun _ _ _ => trivial) trivial late
      change e ∈ (sendKeyExchange prim node' target.1 target.2).2 at out
      rcases sendKeyExchange_cases prim node' target.1 target.2 with
        ⟨_, none⟩ | ⟨e', _, one, _, _, _, _, _, plaintext, _⟩
      · rw [none] at out
        cases out
      · rw [one] at out
        rw [List.mem_singleton.mp out, plaintext]
        exact exchanged _
  | adapt elapsedSecs => cases member

/-! ## What is sent opens -/

/-- A packet that a node sends, and the node after that: the JOIN before the main
loop, or what a step puts out. -/
inductive Sends (prim : Primitives D) (node : Node D) : Emission → Node D → Prop where
  | join {env : Env D} {listenPort : UInt16} {hostAddr : SocketAddr} {e : Emission}
      (member : e ∈ (node.sendJoin prim env listenPort hostAddr).out) :
      Sends prim node e (node.sendJoin prim env listenPort hostAddr).node
  | step {env : Env D} {event : Event} {e : Emission}
      (encoded : ∀ opus, event = .frame opus → opus.length ≤ maxEncodedSize)
      (member : e ∈ (step prim node env event).2) :
      Sends prim node e (step prim node env event).1

/-- A step that owes a key exchange or draws a counter adopts no identity. -/
theorem adopts_of_owes {node : Node D} {event : Event} (owed : node.OwesKeyExchange prim event)
    (data : Bytes) (srcAddr : SocketAddr) (received : event = .recv data srcAddr) :
    node.adopts prim data = none := by
  subst received
  obtain ⟨packet, _, _, parsed, keyExchange, _⟩ := owed
  refine adopts_of_type parsed ?_
  rw [keyExchange]
  decide

theorem adopts_of_draws {node : Node D} {env : Env D} {event : Event}
    (draws : node.Draws prim env event) (data : Bytes) (srcAddr : SocketAddr)
    (received : event = .recv data srcAddr) : node.adopts prim data = none := by
  subst received
  obtain ⟨packet, _, parsed, ping, _⟩ := draws
  refine adopts_of_type parsed ?_
  rw [ping]
  decide

theorem sealedFor_of_ne {pktType : UInt8} (sessionId : SessionId) (join : pktType ≠ pktJoin)
    (peerList : pktType ≠ pktPeerList) : sealedFor sessionId pktType = sessionId :=
  if_neg (not_or.mpr ⟨join, peerList⟩)

/-- JOIN and PEER_LIST are sealed for the zero session in every session. -/
theorem sealedFor_congr {sessionId sessionId' : SessionId} {pktType : UInt8}
    (same : pktType ≠ pktJoin → pktType ≠ pktPeerList → sessionId = sessionId') :
    sealedFor sessionId pktType = sealedFor sessionId' pktType := by
  unfold sealedFor
  split_ifs with zero
  · rfl
  · exact same (not_or.mp zero).1 (not_or.mp zero).2

/-- **What is sent under the pre-shared key** is sealed for the session that the
sender is in then. -/
theorem Sends.sealedWith {node after : Node D} {e : Emission} (sends : node.Sends prim e after)
    (coherent : node.Coherent) (shared : e.scope = .psk) :
    e.SealedWith prim.aead
      (node.pskCtx (sealedFor after.peerMgr.sessionId e.header.pktType)) := by
  cases sends with
  | join member =>
    obtain ⟨sealedWith, _, header, _⟩ := mem_sendSealed_out member
    rw [header]
    exact sealedWith
  | @step env event e encoded member =>
    cases emits_of_step member with
    | peerList parsed join answer =>
      obtain ⟨sealedWith, header, _⟩ := mem_handleJoin_out answer
      rw [header]
      exact sealedWith
    | @hello data srcAddr myId sessionId e adopted sealedWith scope header plaintext =>
      obtain ⟨_, session, _⟩ := handleIncoming_adopts env srcAddr adopted
      rw [header, sealedFor_of_ne _ (by decide : pktHello ≠ pktJoin)
        (by decide : pktHello ≠ pktPeerList)]
      exact sealedWith.congr rfl session
    | @helloAck data srcAddr packet _ _ _ parsed hello opened greeting sealedWith scope header =>
      have other : packet.header.pktType ≠ pktPeerList := by
        rw [hello]
        decide
      have keeps : Keeps node (handleIncoming prim node env data srcAddr).node :=
        handleIncoming_keeps env srcAddr (adopts_of_type parsed other)
      rw [header, sealedFor_of_ne _ (by decide : pktHelloAck ≠ pktJoin)
        (by decide : pktHelloAck ≠ pktPeerList)]
      exact sealedWith.congr rfl keeps.sessionId
    | keyExchange owed sealedWith scope header plaintext =>
      have keeps := step_keeps env (adopts_of_owes owed)
      rw [header, sealedFor_of_ne _ (by decide : pktKeyExchange ≠ pktJoin)
        (by decide : pktKeyExchange ≠ pktPeerList)]
      exact sealedWith.congr rfl keeps.sessionId
    | counted draws sealedWith scope type peerId =>
      have keeps := step_keeps env (adopts_of_draws draws)
      have numbered : ∀ other, other ∉ countedTypes → e.header.pktType ≠ other :=
        fun other absent same => absent (same ▸ type)
      rw [sealedFor_of_ne _ (numbered _ (by decide)) (numbered _ (by decide))]
      exact sealedWith.congr coherent.ctxKey.symm
        (keeps.sessionId.trans coherent.ctxSessionId.symm)
    | peerAudio known complete sealedWith scope =>
      rw [scope] at shared
      cases shared

/-- Every packet that is sent is short enough. -/
theorem Sends.length_wire_le {node after : Node D} {e : Emission}
    (sends : node.Sends prim e after) (coherent : node.Coherent)
    (expands : prim.aead.Expands authTagLen) : e.wire.length ≤ maxPacketLen := by
  have fits : e.plaintext.length ≤ maxEncodedSize ∧ ∃ ctx, e.SealedWith prim.aead ctx := by
    cases sends with
    | join member =>
      obtain ⟨sealedWith, _, _, plaintext, _⟩ := mem_sendSealed_out member
      rw [plaintext]
      exact ⟨(Vector.length_toList ..).le.trans (by decide), _, sealedWith⟩
    | step encoded member =>
      exact ⟨length_plaintext_le coherent encoded member, (emits_of_step member).sealedWith⟩
  obtain ⟨short, ctx, sealedWith⟩ := fits
  rw [sealedWith.length_wire expands]
  have : maxEncodedSize = 256 := rfl
  have : authTagLen = 16 := rfl
  have : maxPacketLen = 1200 := rfl
  have : headerLen = 8 := rfl
  omega

/-- **What a node sends, its peer opens**: every packet that is sealed under the
pre-shared key fits into the receive buffer, and whoever has the same key, and the
same session unless the packet is a JOIN or a PEER_LIST, reads from the datagram exactly
the payload that went in, with the one context that it takes in such packets with. -/
theorem sent_opens {sender receiver after : Node D} (sender_reached : sender.Reached prim)
    (receiver_reached : receiver.Reached prim) (sameKey : receiver.key = sender.key)
    (correct : prim.aead.Correct) (expands : prim.aead.Expands authTagLen) {e : Emission}
    (sends : sender.Sends prim e after) (shared : e.scope = .psk)
    (sameSession : e.header.pktType ≠ pktJoin → e.header.pktType ≠ pktPeerList →
      receiver.peerMgr.sessionId = after.peerMgr.sessionId) :
    e.wire.length ≤ maxPacketLen ∧ ∃ packet, Packet.parse e.wire = .ok packet ∧
      packet.header = e.header ∧
      opens prim (receiver.handlerCtx packet.header.pktType) packet = .ok e.plaintext ∧
      (packet.header.pktType ≠ pktKeepalive →
        (packet.header.pktType = pktAudio →
          (receiver.getPeer packet.header.peerId).bind RemotePeer.recvContext = none) →
        receiver.DecryptsWith prim packet.header (receiver.handlerCtx packet.header.pktType)) := by
  have coherent := sender_reached.coherent
  have coherent' := receiver_reached.coherent
  refine ⟨sends.length_wire_le coherent expands, ?_⟩
  have sealedWith := sends.sealedWith coherent shared
  have key := (coherent'.handlerCtx_key e.header.pktType).trans sameKey
  have sessionId := (coherent'.handlerCtx_sessionId e.header.pktType).trans
    (sealedFor_congr sameSession)
  obtain ⟨packet, parsed, header, opened⟩ := sealedWith.opens _ correct key sessionId
  refine ⟨packet, parsed, header, ?_, decryptsWith_handlerCtx⟩
  rw [header]
  exact opened

end Node

namespace Sample

/-- Primitives with a tag of the real size. -/
def tagged : Primitives Unit := { Primitives.transparent with aead := Aead.tagged }

/-- The JOIN of a joining node. -/
def taggedJoin : Bytes := wires ((joiner 4).sendJoin tagged (env 1 0) 5000 (addr 0)).out

/-- The host that has let it in. -/
def taggedHost : Outcome Unit := host.handleIncoming tagged (env 0 0) taggedJoin (addr 1)

/-- The joining node with the peer list. -/
def taggedJoiner : Node Unit :=
  ((joiner 4).handleIncoming tagged (env 1 1) (wires taggedHost.out) (addr 0)).node

end Sample

namespace Node

/-- The PING and the KEY_EXCHANGE of a ping tick open at the node that was let in. -/
theorem ping_opens :
    (step Sample.tagged Sample.taggedHost.node (Sample.env 0 2) .ping).2.map
        (fun e => e.header.pktType) = [pktPing, pktKeyExchange] ∧
      ∀ e ∈ (step Sample.tagged Sample.taggedHost.node (Sample.env 0 2) .ping).2,
        e.wire.length ≤ maxPacketLen ∧ ∃ packet, Packet.parse e.wire = .ok packet ∧
          packet.header = e.header ∧
          opens Sample.tagged (Sample.taggedJoiner.handlerCtx packet.header.pktType) packet =
            .ok e.plaintext ∧
          Sample.taggedJoiner.DecryptsWith Sample.tagged packet.header
            (Sample.taggedJoiner.handlerCtx packet.header.pktType) := by
  have types : (step Sample.tagged Sample.taggedHost.node (Sample.env 0 2) .ping).2.map
      (fun e => e.header.pktType) = [pktPing, pktKeyExchange] := by decide +kernel
  refine ⟨types, fun e member => ?_⟩
  have shared : ∀ e ∈ (step Sample.tagged Sample.taggedHost.node (Sample.env 0 2) .ping).2,
      e.scope = .psk := by decide +kernel
  have host : Reached Sample.tagged Sample.taggedHost.node :=
    ⟨Sample.host, [(Sample.env 0 0, .recv Sample.taggedJoin (Sample.addr 1))], .host .., rfl⟩
  have joiner : Reached Sample.tagged Sample.taggedJoiner :=
    ⟨Sample.joiner 4, [(Sample.env 1 1, .recv (Sample.wires Sample.taggedHost.out) (Sample.addr 0))],
      .joiner .., rfl⟩
  have sends : Sends Sample.tagged Sample.taggedHost.node e
      (step Sample.tagged Sample.taggedHost.node (Sample.env 0 2) .ping).1 :=
    .step (fun opus same => by cases same) member
  obtain ⟨short, packet, parsed, header, opened, used⟩ := sent_opens host joiner
    (by decide +kernel) Aead.tagged_correct Aead.tagged_expands sends (shared e member)
    fun _ _ => by decide +kernel
  have type : e.header.pktType ∈ [pktPing, pktKeyExchange] := types ▸ List.mem_map_of_mem member
  have other : ∀ pktType, pktType ∉ [pktPing, pktKeyExchange] → packet.header.pktType ≠ pktType :=
    fun pktType absent same => absent (by rwa [← same, header])
  exact ⟨short, packet, parsed, header, opened, used (other _ (by decide))
    fun audio => absurd audio (other _ (by decide))⟩

end Node

end VoiceChat
