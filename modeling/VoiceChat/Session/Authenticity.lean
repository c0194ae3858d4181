import VoiceChat.Session.Frame

/-!
# Datagrams that no key opens

A datagram whose payload fails to authenticate under every context the node could
use for it is refused before anything changes, with one exception: a keepalive is
not decrypted, and its source address alone decides whose `lastSeen` it renews
(`handleIncoming_unauthentic`).
-/

set_option autoImplicit false

namespace VoiceChat

namespace Node

variable {D : Type} {prim : Primitives D}

/-- The contexts a node could use for a datagram: the pre-shared key with the zero
session or with its session, its session context, and those of its peers. -/
inductive Usable (node : Node D) : CryptoContext → Prop where
  | join : node.Usable (node.pskCtx zeroSession)
  | session : node.Usable (node.pskCtx node.peerMgr.sessionId)
  | own : node.Usable node.cryptoCtx
  | peer {id : UInt8} {peer : RemotePeer D} {ctx : CryptoContext}
      (known : node.getPeer id = some peer) (keyed : peer.peerCrypto = some ctx) : node.Usable ctx

/-- No context that the node could use opens the datagram. -/
def Unauthentic (prim : Primitives D) (node : Node D) (data : Bytes) : Prop :=
  ∀ packet, Packet.parse data = .ok packet → ∀ ctx, node.Usable ctx → ∀ plaintext,
    opens prim ctx packet ≠ .ok plaintext

/-- The datagram passes for a keepalive of a peer that was not seen just now. -/
def RenewedBy (node : Node D) (env : Env D) (data : Bytes) (srcAddr : SocketAddr) : Prop :=
  ∃ packet id peer, Packet.parse data = .ok packet ∧ packet.header.pktType = pktKeepalive ∧
    node.peerMgr.peerByAddr srcAddr = some id ∧ node.getPeer id = some peer ∧
    peer.lastSeen ≠ env.now

/-- A handler refused a packet: nothing changed and nothing was sent. -/
def Refused (node : Node D) (outcome : Outcome D) : Prop :=
  outcome.node = node ∧ outcome.out = []

theorem refused_fail (node : Node D) (error : Error) : node.Refused (.fail node [] error) :=
  ⟨rfl, rfl⟩

/-- What no context opens is refused by every handler but that of keepalives. -/
theorem handlePacket_refused {node : Node D} {env : Env D} {srcAddr : SocketAddr}
    {packet : Packet}
    (unopened : ∀ ctx, node.Usable ctx → ∃ e, opens prim ctx packet = .error e)
    (decrypted : packet.header.pktType ≠ pktKeepalive) :
    node.Refused (handlePacket prim node env srcAddr packet) := by
  obtain ⟨joinError, join⟩ := unopened _ .join
  obtain ⟨sessionError, session⟩ := unopened _ .session
  obtain ⟨ownError, own⟩ := unopened _ .own
  cases handlePacket_handled prim node env srcAddr packet with
  | audio _ same =>
      have audio : openAudio prim node packet = .error ownError := by
        unfold openAudio
        split
        · rename_i peerCtx usable
          obtain ⟨peer, known, keyed⟩ := Option.bind_eq_some_iff.mp usable
          have stored : peer.peerCrypto = some peerCtx := by
            unfold RemotePeer.recvContext at keyed
            split_ifs at keyed
            exact keyed
          obtain ⟨_, refused⟩ := unopened _ (.peer known stored)
          rw [refused, own]
          rfl
        · rw [own]
          rfl
      rw [same, handleAudio, audio]
      exact refused_fail node _
  | join _ same =>
      rw [same, handleJoin]
      split_ifs
      · exact refused_fail node _
      · rw [openJoin, join]
        exact refused_fail node _
  | peerList _ same =>
      rw [same, handlePeerList, openPeerList, join]
      exact refused_fail node _
  | hello _ same =>
      rw [same, handleHello, session]
      exact refused_fail node _
  | helloAck _ same =>
      rw [same, handleHelloAck, session]
      exact refused_fail node _
  | keepalive type => exact absurd type decrypted
  | ping _ same =>
      rw [same, handlePing, openPing, own]
      exact refused_fail node _
  | pong _ same =>
      rw [same, handlePong, openPing, own]
      exact refused_fail node _
  | keyExchange _ same =>
      rw [same, handleKeyExchange, openKeyExchange, session]
      exact refused_fail node _
  | unknown _ same =>
      rw [same]
      exact refused_fail node _

/-- Touching a peer changes the node exactly when the peer was not seen just
now. -/
theorem touchAddr_eq_self_iff (node : Node D) (addr : SocketAddr) (now : Instant) :
    node.touchAddr addr now = node ↔
      ¬ ∃ id peer, node.peerMgr.peerByAddr addr = some id ∧ node.getPeer id = some peer ∧
        peer.lastSeen ≠ now := by
  unfold touchAddr
  cases found : node.peerMgr.peerByAddr addr with
  | none =>
      refine iff_of_true rfl ?_
      rintro ⟨_, _, found', _⟩
      cases found'
  | some id =>
      refine (modifyPeer_touch_eq_self_iff node id now).trans ?_
      constructor
      · rintro recent ⟨_, peer, ⟨⟩, known, older⟩
        exact older (recent peer known)
      · intro recent peer known
        by_contra older
        exact recent ⟨id, peer, rfl, known, older⟩

/-- **Unauthenticated traffic has no effect, except for keepalives.** Of the
datagrams that no context of the node opens, exactly those that pass for the
keepalive of a known peer change anything. -/
theorem handleIncoming_unauthentic (node : Node D) (env : Env D) (data : Bytes)
    (srcAddr : SocketAddr) (unauthentic : node.Unauthentic prim data) :
    node.Refused (handleIncoming prim node env data srcAddr) ↔
      ¬ node.RenewedBy env data srcAddr := by
  unfold handleIncoming
  cases parsed : Packet.parse data with
  | error e =>
      refine iff_of_true (refused_fail node e) ?_
      rintro ⟨packet, _, _, parsed', _⟩
      rw [parsed] at parsed'
      cases parsed'
  | ok packet =>
      have unopened : ∀ ctx, node.Usable ctx → ∃ e, opens prim ctx packet = .error e := by
        intro ctx usable
        cases opened : opens prim ctx packet with
        | error e => exact ⟨e, rfl⟩
        | ok plaintext => exact absurd opened (unauthentic packet parsed ctx usable plaintext)
      by_cases keepalive : packet.header.pktType = pktKeepalive
      · have handled := handlePacket_keepalive prim keepalive node env srcAddr
        have touched := touchAddr_eq_self_iff node srcAddr env.now
        dsimp only
        rw [handled, Refused, handleKeepalive]
        constructor
        · rintro ⟨same, _⟩ ⟨_, id, peer, _, _, renewed⟩
          exact touched.mp same ⟨id, peer, renewed⟩
        · intro other
          refine ⟨touched.mpr ?_, rfl⟩
          rintro ⟨id, peer, renewed⟩
          exact other ⟨packet, id, peer, parsed, keepalive, renewed⟩
      · refine iff_of_true (handlePacket_refused unopened keepalive) ?_
        rintro ⟨packet', _, _, parsed', keepalive', _⟩
        rw [parsed] at parsed'
        cases parsed'
        exact keepalive keepalive'

/-- The transparent cipher opens no empty ciphertext, so a datagram that is only a
header is unauthentic. -/
theorem unauthentic_of_empty (node : Node Unit) {data : Bytes} (header : PacketHeader)
    (headerBytes : Vector UInt8 8) (empty : Packet.parse data = .ok ⟨header, headerBytes, []⟩) :
    node.Unauthentic Primitives.transparent data := by
  intro packet parsed ctx _ plaintext opened
  rw [empty] at parsed
  cases parsed
  have refused := Aead.transparent_decrypt_nil ctx.key
    (buildNonce ctx.sessionId header.peerId .send header.seqNum header.counter) headerBytes.toList
  unfold opens CryptoContext.decrypt at opened
  rw [show Primitives.transparent.aead = Aead.transparent from rfl, refused] at opened
  cases opened

/-- What was sealed with a key that the node does not have is unauthentic. -/
theorem unauthentic_of_foreign {node : Node Unit} {data : Bytes} {packet : Packet}
    (parsed : Packet.parse data = .ok packet) {key : Key} {nonce : Vector UInt8 24}
    {aad msg : Bytes} (sealed : Aead.transparent.encrypt key nonce aad msg = some packet.ciphertext)
    (foreign : ∀ ctx, node.Usable ctx → ctx.key ≠ key) :
    node.Unauthentic Primitives.transparent data := by
  intro packet' parsed' ctx usable plaintext opened
  cases parsed.symm.trans parsed'
  have refused := Aead.transparent_keyCommitting _ _ _ _ _ sealed ctx.key
    (buildNonce ctx.sessionId packet.header.peerId .send packet.header.seqNum packet.header.counter)
    packet.headerBytes.toList (foreign ctx usable)
  unfold opens CryptoContext.decrypt at opened
  rw [show Primitives.transparent.aead = Aead.transparent from rfl, refused] at opened
  cases opened

end Node

namespace Sample

/-- The pre-shared key of another group. -/
def foreignPsk : Key := Vector.replicate 32 8

/-- A HELLO of that group, with the session and the id of a member of this one. -/
def foreignHello : Bytes :=
  wires ((Node.joiner foreignPsk ⟨Vector.replicate 32 4⟩ : Node Unit).sendSealed
    Primitives.transparent (env 1 0) session pktHello 1 [] (addr 0)).out

/-- All contexts of the host of one peer have the pre-shared key. -/
theorem hostOfOne_keys (ctx : CryptoContext) (usable : hostOfOne.node.Usable ctx) :
    ctx.key = psk := by
  cases usable with
  | join => decide +kernel
  | session => decide +kernel
  | own => decide +kernel
  | @peer id peer _ known keyed =>
      have unkeyed : ∀ crypto ∈ (hostOfOne.node.peerMgr.peers.values (HashOrder.stored UInt8)).map
          RemotePeer.peerCrypto, crypto = none := by decide +kernel
      have none := unkeyed _ (List.mem_map_of_mem (HashMap.mem_values.mpr ⟨id, known⟩))
      rw [none] at keyed
      cases keyed

end Sample

namespace Node

/-- A host with a peer refuses a HELLO under another key that comes from the address of the
peer, and the header of a keepalive that comes from elsewhere. -/
theorem handleIncoming_unauthentic_hostOfOne :
    Sample.hostOfOne.node.Refused (handleIncoming Primitives.transparent Sample.hostOfOne.node
        (Sample.env 0 1) Sample.foreignHello (Sample.addr 1)) ∧
      Sample.hostOfOne.node.Refused (handleIncoming Primitives.transparent Sample.hostOfOne.node
        (Sample.env 0 1) [5, 1, 0, 0, 0, 0, 0, 0] (Sample.addr 9)) := by
  constructor
  · have read : (Packet.parse Sample.foreignHello).toOption.map
        (fun packet => (packet.header.pktType, some packet.ciphertext)) =
        some (pktHello, Aead.transparent.encrypt Sample.foreignPsk
          (buildNonce Sample.session 1 .send 0 0)
          (PacketHeader.toBytes ⟨pktHello, 1, 0, 0⟩).toList []) := by decide +kernel
    cases parsed : Packet.parse Sample.foreignHello with
    | error e =>
        rw [parsed] at read
        cases read
    | ok packet =>
        rw [parsed] at read
        obtain ⟨hello, sealed⟩ := Prod.mk.inj (Option.some.inj read)
        refine (handleIncoming_unauthentic _ _ _ _ (unauthentic_of_foreign parsed sealed.symm
          fun ctx usable => ?_)).mpr ?_
        · rw [Sample.hostOfOne_keys ctx usable]
          decide
        · rintro ⟨packet', _, _, parsed', keepalive, _⟩
          cases parsed.symm.trans parsed'
          rw [hello] at keepalive
          cases keepalive
  · refine (handleIncoming_unauthentic _ _ _ _
      (unauthentic_of_empty _ ⟨5, 1, 0, 0⟩ #v[5, 1, 0, 0, 0, 0, 0, 0] rfl)).mpr ?_
    rintro ⟨_, _, _, _, _, found, _⟩
    have unknown : Sample.hostOfOne.node.peerMgr.peerByAddr (Sample.addr 9) = none := by
      decide +kernel
    rw [unknown] at found
    cases found

/-- **A forged keepalive is not refused**: a bare header, from the address of a
peer, renews its `lastSeen`. -/
theorem forged_keepalive_not_refused :
    ¬ ∀ (node : Node Unit) (env : Env Unit) (data : Bytes) (srcAddr : SocketAddr),
      node.Unauthentic Primitives.transparent data →
      node.Refused (handleIncoming Primitives.transparent node env data srcAddr) := by
  intro claim
  have refused := claim Sample.hostOfOne.node (Sample.env 0 1) [5, 1, 0, 0, 0, 0, 0, 0]
    (Sample.addr 1) (unauthentic_of_empty _ ⟨5, 1, 0, 0⟩
      #v[5, 1, 0, 0, 0, 0, 0, 0] rfl)
  have seen := congrArg (fun node => (node.getPeer 1).map RemotePeer.lastSeen) refused.1
  exact absurd seen (by decide +kernel)

end Node

end VoiceChat
