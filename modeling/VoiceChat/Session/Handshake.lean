import VoiceChat.Session.Frame

/-!
# The packets of the handshake

What JOIN, PEER_LIST and HELLO do to a node, each as one case distinction, and
what a sealed packet is: its datagram opens, under the context that sealed it, to
the payload and the header that went in (`Emission.SealedWith.opens`).
-/

set_option autoImplicit false

namespace VoiceChat

/-! ## Sealed packets -/

/-- The packet was sealed with a context, under the nonce that its header
spells. -/
structure Emission.SealedWith (aead : Aead) (ctx : CryptoContext) (e : Emission) : Prop where
  key : e.key = ctx.key
  nonce : e.nonce =
    buildNonce ctx.sessionId e.header.peerId .send e.header.seqNum e.header.counter
  wire : ∃ ciphertext, ctx.encrypt aead e.header.toBytes e.plaintext e.header.peerId
    e.header.seqNum e.header.counter = .ok ciphertext ∧
      e.wire = buildWirePacket e.header.toBytes ciphertext

/-- The context matters by its key and session only. -/
theorem Emission.SealedWith.congr {aead : Aead} {ctx ctx' : CryptoContext} {e : Emission}
    (sealed : e.SealedWith aead ctx) (key : ctx'.key = ctx.key)
    (sessionId : ctx'.sessionId = ctx.sessionId) : e.SealedWith aead ctx' := by
  refine ⟨sealed.key.trans key.symm, by rw [sealed.nonce, sessionId], ?_⟩
  obtain ⟨ciphertext, encrypted, wire⟩ := sealed.wire
  refine ⟨ciphertext, ?_, wire⟩
  rwa [CryptoContext.encrypt, key, sessionId]

theorem sealPacket_eq_ok {aead : Aead} {scope : KeyScope} {ctx : CryptoContext}
    {header : PacketHeader} {payload : Bytes} {dst : SocketAddr} {sent : Bool} {e : Emission}
    (sealed : sealPacket aead scope ctx header payload dst sent header.peerId header.seqNum
      header.counter = .ok e) :
    e.SealedWith aead ctx ∧ e.scope = scope ∧ e.header = header ∧ e.plaintext = payload ∧
      e.dst = dst ∧ e.sent = sent := by
  unfold sealPacket at sealed
  split at sealed
  · cases sealed
  · rename_i encrypted success
    cases sealed
    exact ⟨⟨rfl, rfl, encrypted, success, rfl⟩, rfl, rfl, rfl, rfl, rfl⟩

/-- A short payload is sealed. -/
theorem sealPacket_of_seals {aead : Aead} {bound : ℕ} (seals : aead.Seals bound) {payload : Bytes}
    (short : payload.length ≤ bound) (scope : KeyScope) (ctx : CryptoContext)
    (header : PacketHeader) (dst : SocketAddr) (sent : Bool) (peerId : UInt8) (seqNum : UInt16)
    (counter : UInt32) : ∃ e, sealPacket aead scope ctx header payload dst sent peerId seqNum
      counter = .ok e := by
  obtain ⟨ciphertext, encrypted⟩ := Option.isSome_iff_exists.mp
    (seals ctx.key (buildNonce ctx.sessionId peerId .send seqNum counter) header.toBytes.toList
      payload short)
  rw [sealPacket, CryptoContext.encrypt, encrypted]
  exact ⟨_, rfl⟩

/-- The datagram carries the header of the packet. -/
theorem Emission.SealedWith.header_of_parse {aead : Aead} {ctx : CryptoContext} {e : Emission}
    (sealed : e.SealedWith aead ctx) {packet : Packet} (parsed : Packet.parse e.wire = .ok packet) :
    packet.header = e.header := by
  obtain ⟨ciphertext, _, wire⟩ := sealed.wire
  rw [wire, Packet.parse_buildWirePacket] at parsed
  cases parsed
  rfl

/-- What was sent opens, at whoever has the key and the session. -/
theorem Emission.SealedWith.opens {D : Type} {prim : Primitives D} {ctx : CryptoContext}
    {e : Emission} (sealed : e.SealedWith prim.aead ctx) (ctx' : CryptoContext)
    (correct : prim.aead.Correct) (key : ctx'.key = ctx.key)
    (sessionId : ctx'.sessionId = ctx.sessionId) :
    ∃ packet, Packet.parse e.wire = .ok packet ∧ packet.header = e.header ∧
      Node.opens prim ctx' packet = .ok e.plaintext := by
  obtain ⟨ciphertext, encrypted, wire⟩ := sealed.wire
  refine ⟨⟨e.header, e.header.toBytes, ciphertext⟩, ?_, rfl, ?_⟩
  · rw [wire, Packet.parse_buildWirePacket]
  · exact CryptoContext.decrypt_of_encrypt correct key sessionId encrypted

/-- A packet is of the type in its header, and of no other. -/
theorem Emission.type_ne {e : Emission} {pktType peerId : UInt8} {seqNum : UInt16}
    {counter : UInt32} (header : e.header = ⟨pktType, peerId, seqNum, counter⟩) {other : UInt8}
    (different : pktType ≠ other) : e.header.pktType ≠ other := by
  rw [header]
  exact different

/-- What was sent does not open under another key. -/
theorem Emission.SealedWith.not_opens {D : Type} {prim : Primitives D} {ctx ctx' : CryptoContext}
    {e : Emission} (sealed : e.SealedWith prim.aead ctx) (committing : prim.aead.KeyCommitting)
    (different : ctx'.key ≠ ctx.key) {packet : Packet} (parsed : Packet.parse e.wire = .ok packet) :
    Node.opens prim ctx' packet = .error .decryptFailed := by
  obtain ⟨ciphertext, encrypted, wire⟩ := sealed.wire
  rw [wire, Packet.parse_buildWirePacket] at parsed
  cases parsed
  exact CryptoContext.decrypt_of_encrypt_of_ne committing different encrypted

namespace Node

variable {D : Type} {prim : Primitives D}

/-- Which context opened an audio packet. -/
theorem openAudio_eq_ok {node : Node D} {packet : Packet} {plaintext : Bytes} {usedPeerCtx : Bool}
    (opened : openAudio prim node packet = .ok (plaintext, usedPeerCtx)) :
    ∃ ctx, opens prim ctx packet = .ok plaintext ∧
      (usedPeerCtx = true ∧ (∃ peer, node.getPeer packet.header.peerId = some peer ∧
          peer.peerCrypto = some ctx) ∨
        usedPeerCtx = false ∧ ctx = node.cryptoCtx) := by
  have shared : ∀ {heard : Except Error Bytes}, heard = opens prim node.cryptoCtx packet →
      heard.map (·, false) = .ok (plaintext, usedPeerCtx) →
      opens prim node.cryptoCtx packet = .ok plaintext ∧ usedPeerCtx = false := by
    rintro heard same mapped
    cases heard with
    | error e => cases mapped
    | ok plaintext' =>
      cases mapped
      exact ⟨same.symm, rfl⟩
  unfold openAudio at opened
  split at opened
  · rename_i peerCtx usable
    split at opened
    · rename_i plaintext' success
      cases opened
      obtain ⟨peer, known, keyed⟩ := Option.bind_eq_some_iff.mp usable
      unfold RemotePeer.recvContext at keyed
      split_ifs at keyed
      exact ⟨peerCtx, success, Or.inl ⟨rfl, peer, known, keyed⟩⟩
    · obtain ⟨success, flag⟩ := shared rfl opened
      exact ⟨node.cryptoCtx, success, Or.inr ⟨flag, rfl⟩⟩
  · obtain ⟨success, flag⟩ := shared rfl opened
    exact ⟨node.cryptoCtx, success, Or.inr ⟨flag, rfl⟩⟩

theorem sendSealed_node (node : Node D) (env : Env D) (sessionId : SessionId)
    (pktType peerId : UInt8) (payload : Bytes) (dst : SocketAddr) :
    (sendSealed prim node env sessionId pktType peerId payload dst).node = node := by
  unfold sendSealed
  split
  · rfl
  · split_ifs
    · rfl
    · rfl

theorem mem_sendSealed_out {node : Node D} {env : Env D} {sessionId : SessionId}
    {pktType peerId : UInt8} {payload : Bytes} {dst : SocketAddr} {e : Emission}
    (member : e ∈ (sendSealed prim node env sessionId pktType peerId payload dst).out) :
    e.SealedWith prim.aead (node.pskCtx sessionId) ∧ e.scope = .psk ∧
      e.header = ⟨pktType, peerId, 0, 0⟩ ∧ e.plaintext = payload ∧ e.dst = dst := by
  unfold sendSealed at member
  split at member
  · cases member
  · rename_i packet sealed
    obtain ⟨sealedWith, scope, header, plaintext, addressed, _⟩ := sealPacket_eq_ok sealed
    have only : e = packet := by
      split_ifs at member
      · exact List.mem_singleton.mp member
      · exact List.mem_singleton.mp member
    subst only
    exact ⟨sealedWith, scope, header, plaintext, addressed⟩

/-! ## JOIN -/

theorem sendPeerList_node (node : Node D) (env : Env D) (srcAddr : SocketAddr) :
    (sendPeerList prim node env srcAddr).node = node := by
  unfold sendPeerList
  split
  · rfl
  · exact sendSealed_node node env zeroSession _ _ _ _

/-- The answer to a JOIN is the list of the peers, to whoever asked. -/
theorem mem_sendPeerList_out {node : Node D} {env : Env D} {srcAddr : SocketAddr} {e : Emission}
    (member : e ∈ (sendPeerList prim node env srcAddr).out) :
    e.SealedWith prim.aead (node.pskCtx zeroSession) ∧ e.scope = .psk ∧
      e.header = ⟨pktPeerList, node.peerMgr.localId, 0, 0⟩ ∧ e.dst = srcAddr ∧
      ∃ hostAddr, listedAddr env srcAddr = .ok hostAddr ∧
        e.plaintext = (node.peerMgr.buildPeerList hostAddr env.order).toBytes := by
  unfold sendPeerList at member
  split at member
  · cases member
  · rename_i hostAddr listed
    obtain ⟨sealedWith, scope, header, plaintext, dst⟩ := mem_sendSealed_out member
    exact ⟨sealedWith, scope, header, dst, hostAddr, listed, plaintext⟩

/-- **What a JOIN does.** It is refused, or it uses up an id; then the new peer is
not taken in, or it is and the host answers. -/
theorem handleJoin_cases (prim : Primitives D) (node : Node D) (env : Env D)
    (srcAddr : SocketAddr) (packet : Packet) :
    (∃ e, handleJoin prim node env srcAddr packet = .fail node [] e) ∨
      ∃ payload id peerMgr, openJoin prim node packet = .ok payload ∧
        node.peerMgr.allocatePeerId = .ok (id, peerMgr) ∧
        ((∃ e, handleJoin prim node env srcAddr packet =
            .fail { node with peerMgr := peerMgr } [] e) ∨
          ∃ peerMgr', peerMgr.addPeer id srcAddr env.newDecoder env.now = .ok peerMgr' ∧
            handleJoin prim node env srcAddr packet =
              sendPeerList prim
                { node with peerMgr := peerMgr'.modifyPeer id (·.connect env.now) } env
                srcAddr) := by
  unfold handleJoin
  split_ifs
  · exact Or.inl ⟨_, rfl⟩
  · split
    · exact Or.inl ⟨_, rfl⟩
    · rename_i payload opened
      split
      · exact Or.inl ⟨_, rfl⟩
      · rename_i id peerMgr allocated
        refine Or.inr ⟨payload, id, peerMgr, opened, allocated, ?_⟩
        split
        · exact Or.inl ⟨_, rfl⟩
        · rename_i peerMgr' added
          exact Or.inr ⟨peerMgr', added, rfl⟩

/-- A change of the peer table that keeps the identity. -/
theorem keeps_of_peerMgr (node : Node D) {peerMgr : PeerManager D}
    (localId : peerMgr.localId = node.peerMgr.localId)
    (sessionId : peerMgr.sessionId = node.peerMgr.sessionId)
    (isHost : peerMgr.isHost = node.peerMgr.isHost) :
    Keeps node { node with peerMgr := peerMgr } :=
  ⟨localId, sessionId, isHost, rfl, rfl, rfl, rfl, Nat.le_refl _⟩

theorem handleJoin_keeps (node : Node D) (env : Env D) (srcAddr : SocketAddr) (packet : Packet) :
    Keeps node (handleJoin prim node env srcAddr packet).node := by
  rcases handleJoin_cases prim node env srcAddr packet with
    ⟨e, refused⟩ | ⟨_, id, peerMgr, _, allocated, ⟨e, full⟩ | ⟨peerMgr', added, answered⟩⟩
  · rw [refused]
    exact Keeps.refl node
  · obtain ⟨_, _, _, rfl⟩ := PeerManager.allocatePeerId_eq_ok allocated
    rw [full]
    exact keeps_of_peerMgr node rfl rfl rfl
  · obtain ⟨_, _, _, rfl⟩ := PeerManager.allocatePeerId_eq_ok allocated
    obtain ⟨localId, sessionId, isHost, _⟩ := PeerManager.addPeer_eq_ok added
    rw [answered, sendPeerList_node]
    exact keeps_of_peerMgr node localId sessionId isHost

/-- **What a JOIN is answered with**: the list of the peers with the new one in it, to
whoever asked. -/
theorem mem_handleJoin_out {node : Node D} {env : Env D} {srcAddr : SocketAddr} {packet : Packet}
    {e : Emission} (member : e ∈ (handleJoin prim node env srcAddr packet).out) :
    e.SealedWith prim.aead (node.pskCtx zeroSession) ∧
      e.header = ⟨pktPeerList, node.peerMgr.localId, 0, 0⟩ ∧ e.dst = srcAddr ∧
      ∃ id peerMgr peerMgr' hostAddr, node.peerMgr.allocatePeerId = .ok (id, peerMgr) ∧
        peerMgr.addPeer id srcAddr env.newDecoder env.now = .ok peerMgr' ∧
        (handleJoin prim node env srcAddr packet).node =
          { node with peerMgr := peerMgr'.modifyPeer id (·.connect env.now) } ∧
        e.plaintext = ((peerMgr'.modifyPeer id (·.connect env.now)).buildPeerList
          hostAddr env.order).toBytes := by
  rcases handleJoin_cases prim node env srcAddr packet with
    ⟨_, refused⟩ | ⟨_, id, peerMgr, _, allocated, ⟨_, full⟩ | ⟨peerMgr', added, answered⟩⟩
  · rw [refused] at member
    cases member
  · rw [full] at member
    cases member
  · rw [answered] at member
    rw [answered, sendPeerList_node]
    obtain ⟨_, _, _, rfl⟩ := PeerManager.allocatePeerId_eq_ok allocated
    obtain ⟨localId, _⟩ := PeerManager.addPeer_eq_ok added
    obtain ⟨sealedWith, _, header, dst, hostAddr, _, plaintext⟩ := mem_sendPeerList_out member
    refine ⟨sealedWith, ?_, dst, id, _, peerMgr', hostAddr, allocated, added, rfl, plaintext⟩
    rw [header]
    exact congrArg (PacketHeader.mk pktPeerList · 0 0) localId

/-! ## HELLO -/

/-- **What a HELLO does.** It is refused, or its sender is in the table and
connected, and is answered at its source address. -/
theorem handleHello_cases (prim : Primitives D) (node : Node D) (env : Env D)
    (srcAddr : SocketAddr) (packet : Packet) :
    (∃ e, handleHello prim node env srcAddr packet = .fail node [] e) ∨
      ∃ plaintext peerMgr,
        opens prim (node.pskCtx node.peerMgr.sessionId) packet = .ok plaintext ∧
        node.greeted env srcAddr packet.header.peerId = .ok peerMgr ∧
        handleHello prim node env srcAddr packet =
          sendSealed prim
            { node with peerMgr := peerMgr.modifyPeer packet.header.peerId (·.connect env.now) }
            env peerMgr.sessionId pktHelloAck peerMgr.localId [] srcAddr := by
  unfold handleHello
  split
  · exact Or.inl ⟨_, rfl⟩
  · rename_i plaintext opened
    split
    · exact Or.inl ⟨_, rfl⟩
    · rename_i peerMgr added
      exact Or.inr ⟨plaintext, peerMgr, opened, added, rfl⟩

/-- The table with the sender of a HELLO in it is the old one, or the old one with
the sender added. -/
theorem greeted_eq_ok {node : Node D} {env : Env D} {srcAddr : SocketAddr} {peerId : UInt8}
    {peerMgr : PeerManager D} (greeting : node.greeted env srcAddr peerId = .ok peerMgr) :
    (∃ peer, node.getPeer peerId = some peer ∧ peerMgr = node.peerMgr) ∨
      node.getPeer peerId = none ∧
        node.peerMgr.addPeer peerId srcAddr env.newDecoder env.now = .ok peerMgr := by
  unfold greeted at greeting
  split at greeting
  · rename_i unknown
    exact Or.inr ⟨unknown, greeting⟩
  · rename_i peer known
    cases greeting
    exact Or.inl ⟨peer, known, rfl⟩

theorem handleHello_keeps (node : Node D) (env : Env D) (srcAddr : SocketAddr)
    (packet : Packet) : Keeps node (handleHello prim node env srcAddr packet).node := by
  rcases handleHello_cases prim node env srcAddr packet with
    ⟨e, refused⟩ | ⟨_, peerMgr, _, greeting, answered⟩
  · rw [refused]
    exact Keeps.refl node
  · rw [answered, sendSealed_node]
    rcases greeted_eq_ok greeting with ⟨_, _, rfl⟩ | ⟨_, added⟩
    · exact keeps_of_peerMgr node rfl rfl rfl
    · obtain ⟨localId, sessionId, isHost, _⟩ := PeerManager.addPeer_eq_ok added
      exact keeps_of_peerMgr node localId sessionId isHost

/-! ## PEER_LIST -/

/-- **What a peer list does.** It is refused, or the identity and the context are those
it gives, and the listed peers are greeted. -/
theorem handlePeerList_cases (prim : Primitives D) (node : Node D) (env : Env D)
    (srcAddr : SocketAddr) (packet : Packet) :
    (∃ e, handlePeerList prim node env srcAddr packet = .fail node [] e) ∨
      ∃ myId list, openPeerList prim node packet = .ok (myId, list) ∧
        handlePeerList prim node env srcAddr packet =
          let greeting := greetPeers prim node.key env list.sessionId myId packet.header.peerId
            srcAddr list.peers (node.peerMgr.setIdentity myId list.sessionId) []
          ⟨{ node with
              peerMgr := greeting.1
              cryptoCtx := CryptoContext.new node.key list.sessionId }, greeting.2.1,
            greeting.2.2⟩ := by
  unfold handlePeerList
  split
  · exact Or.inl ⟨_, rfl⟩
  · rename_i myId list opened
    exact Or.inr ⟨myId, list, opened, rfl⟩

/-- **What entering and marking one listed peer keeps, the whole list keeps**: the run
lemma for the table. -/
theorem greetPeers_preserves (holds : PeerManager D → Prop) {key : Key} {env : Env D}
    {sessionId : SessionId} {myId sender : UInt8} {srcAddr : SocketAddr}
    {peers : List (UInt8 × SocketAddr)} {peerMgr : PeerManager D} (out : List Emission)
    (greets : ∀ id addr, (id, addr) ∈ peers → id ≠ myId → ∀ pm pm' : PeerManager D,
      pm.addPeer id (if id = sender then srcAddr else addr) env.newDecoder env.now = .ok pm' →
        holds pm →
          holds pm' ∧ holds (pm'.modifyPeer id fun peer => { peer with state := .helloSent }))
    (initial : holds peerMgr) :
    holds (greetPeers prim key env sessionId myId sender srcAddr peers peerMgr out).1 := by
  induction peers generalizing peerMgr out with
  | nil => exact initial
  | cons entry rest ih =>
      obtain ⟨id, addr⟩ := entry
      unfold greetPeers
      by_cases self : id = myId
      · rw [if_pos self]
        exact ih out (fun id' addr' listed =>
          greets id' addr' (List.mem_cons_of_mem _ listed)) initial
      · rw [if_neg self]
        dsimp only
        split
        · exact initial
        · rename_i peerMgr' added
          obtain ⟨entered, marked⟩ := greets id addr List.mem_cons_self self _ _ added initial
          split
          · exact entered
          · split_ifs
            · exact ih _ (fun id' addr' listed =>
                greets id' addr' (List.mem_cons_of_mem _ listed)) marked
            · exact entered

/-- **Every packet of a greeting seals an empty HELLO to a listed peer** under the
pre-shared key and the new session: the run lemma for the packets. -/
theorem mem_greetPeers {key : Key} {env : Env D} {sessionId : SessionId} {myId sender : UInt8}
    {srcAddr : SocketAddr} {peers : List (UInt8 × SocketAddr)} {peerMgr : PeerManager D}
    {out : List Emission} {e : Emission}
    (member : e ∈ (greetPeers prim key env sessionId myId sender srcAddr peers peerMgr out).2.1) :
    e ∈ out ∨ ∃ id addr, (id, addr) ∈ peers ∧ id ≠ myId ∧ ∃ sendOk,
      sealPacket prim.aead .psk (CryptoContext.new key sessionId) ⟨pktHello, myId, 0, 0⟩ []
        (if id = sender then srcAddr else addr) sendOk myId 0 0 = .ok e := by
  induction peers generalizing peerMgr out with
  | nil => exact Or.inl member
  | cons entry rest ih =>
      obtain ⟨id, addr⟩ := entry
      unfold greetPeers at member
      by_cases self : id = myId
      · rw [if_pos self] at member
        refine (ih member).imp_right ?_
        rintro ⟨id', addr', listed, sealed⟩
        exact ⟨id', addr', List.mem_cons_of_mem _ listed, sealed⟩
      · rw [if_neg self] at member
        dsimp only at member
        split at member
        · exact Or.inl member
        · split at member
          · exact Or.inl member
          · rename_i packet sealed
            have one : e ∈ out ++ [packet] → e ∈ out ∨ e = packet := fun inside =>
              (List.mem_append.mp inside).imp_right List.mem_singleton.mp
            split_ifs at member
            · rcases ih member with inside | ⟨id', addr', listed, sealed'⟩
              · refine (one inside).imp_right ?_
                rintro rfl
                exact ⟨id, addr, List.mem_cons_self, self, _, sealed⟩
              · exact Or.inr ⟨id', addr', List.mem_cons_of_mem _ listed, sealed'⟩
            · refine (one member).imp_right ?_
              rintro rfl
              exact ⟨id, addr, List.mem_cons_self, self, _, sealed⟩

/-- Greeting peers keeps the identity of the table. -/
theorem greetPeers_identity (prim : Primitives D) (key : Key) (env : Env D) (sessionId : SessionId)
    (myId sender : UInt8) (srcAddr : SocketAddr) (peers : List (UInt8 × SocketAddr))
    (peerMgr : PeerManager D) (out : List Emission) :
    (greetPeers prim key env sessionId myId sender srcAddr peers peerMgr out).1.localId =
        peerMgr.localId ∧
      (greetPeers prim key env sessionId myId sender srcAddr peers peerMgr out).1.sessionId =
        peerMgr.sessionId ∧
      (greetPeers prim key env sessionId myId sender srcAddr peers peerMgr out).1.isHost =
        peerMgr.isHost ∧
      (greetPeers prim key env sessionId myId sender srcAddr peers peerMgr out).1.nextPeerId =
        peerMgr.nextPeerId := by
  refine greetPeers_preserves (fun pm => pm.localId = peerMgr.localId ∧
    pm.sessionId = peerMgr.sessionId ∧ pm.isHost = peerMgr.isHost ∧
      pm.nextPeerId = peerMgr.nextPeerId) out ?_ ⟨rfl, rfl, rfl, rfl⟩
  rintro id addr - - pm pm' added ⟨localId, session, isHost, nextPeerId⟩
  obtain ⟨localId', session', isHost', nextPeerId', _⟩ := PeerManager.addPeer_eq_ok added
  refine ⟨⟨localId'.trans localId, ?_⟩, ⟨localId'.trans localId, ?_⟩⟩
  all_goals exact ⟨session'.trans session, isHost'.trans isHost, nextPeerId'.trans nextPeerId⟩

end Node

end VoiceChat
