import VoiceChat.KeyExchange
import VoiceChat.Library.Machine
import VoiceChat.Peer

/-!
# The session

A node is what one session holds: its peers, its session context, its pre-shared
key and its key pair. It takes events: a received datagram, a captured and
encoded audio frame, and the timers of the main loop. Everything else that
decides a step is in `Env`: the clock, the iteration order of the hash maps, the
local addresses the system reports and whether it takes a datagram.

A step returns the next node, the packets it encrypted (`Emission`, with all that
went into the nonce and the ciphertext) and, for a received datagram, the result.
An error does not undo what the handler had already changed.
-/

set_option autoImplicit false

namespace VoiceChat

/-- What a step takes from its environment. -/
structure Env (D : Type) where
  now : Instant
  /-- The order in which the peer map is walked through. -/
  order : HashOrder UInt8
  /-- The order in which a table of pending pings is walked through. -/
  pingOrder : HashOrder UInt32
  /-- A new Opus decoder, when the codec provides one. -/
  newDecoder : Option D
  /-- The address the socket is bound to. -/
  localAddr : Option SocketAddr
  /-- Our routable address for reaching a remote one. -/
  resolveLocalIp : SocketAddr → Option IpAddr
  /-- Whether the system takes the datagram sent after so many others. -/
  sendOk : Nat → Bool

/-- An environment in which nothing fails. -/
def Env.ideal {D : Type} (decoder : D) (localAddr : SocketAddr) (now : Instant) : Env D where
  now := now
  order := HashOrder.stored UInt8
  pingOrder := HashOrder.stored UInt32
  newDecoder := some decoder
  localAddr := some localAddr
  resolveLocalIp _ := none
  sendOk _ := true

/-- The state of one running session. -/
structure Node (D : Type) where
  peerMgr : PeerManager D
  cryptoCtx : CryptoContext
  /-- The pre-shared key. -/
  key : Key
  keyExchange : KeyExchange

/-- Which keys a packet may be sealed under. -/
inductive KeyScope where
  /-- The pre-shared key. -/
  | psk
  /-- The key of one pair of peers. -/
  | peer
  deriving DecidableEq

/-- A packet that was encrypted for a destination. -/
structure Emission where
  scope : KeyScope
  key : Key
  nonce : Nonce
  header : PacketHeader
  plaintext : Bytes
  /-- The datagram. -/
  wire : Bytes
  dst : SocketAddr
  /-- The system took the datagram. Where the program does not look at the result,
  a refused datagram is one that the network loses. -/
  sent : Bool
  deriving DecidableEq

/-- What a handler did. -/
structure Outcome (D : Type) where
  node : Node D
  out : List Emission
  result : Except Error Unit

namespace Outcome

variable {D : Type}

def done (node : Node D) (out : List Emission) : Outcome D := ⟨node, out, .ok ()⟩

def fail (node : Node D) (out : List Emission) (error : Error) : Outcome D :=
  ⟨node, out, .error error⟩

end Outcome

/-- Encrypt a packet and frame it for a destination. The nonce is built from the
last three arguments, the associated data is the header. -/
def sealPacket (aead : Aead) (scope : KeyScope) (ctx : CryptoContext) (header : PacketHeader)
    (payload : Bytes) (dst : SocketAddr) (sent : Bool) (peerId : UInt8) (seqNum : UInt16)
    (counter : UInt32) : Except Error Emission :=
  match ctx.encrypt aead header.toBytes payload peerId seqNum counter with
  | .error e => .error e
  | .ok encrypted =>
      .ok {
        scope := scope
        key := ctx.key
        nonce := buildNonce ctx.sessionId peerId .send seqNum counter
        header := header
        plaintext := payload
        wire := buildWirePacket header.toBytes encrypted
        dst := dst
        sent := sent }

/-- The session id before there is one. -/
def zeroSession : SessionId := Vector.replicate 8 0

namespace Node

variable {D : Type} (prim : Primitives D)

/-- A node as `Session::run` sets it up when it hosts. -/
def host (key : Key) (sessionId : SessionId) (keyExchange : KeyExchange) : Node D where
  peerMgr := PeerManager.newHost sessionId
  cryptoCtx := CryptoContext.new key sessionId
  key := key
  keyExchange := keyExchange

/-- A node as `Session::run` sets it up when it joins. -/
def joiner (key : Key) (keyExchange : KeyExchange) : Node D where
  peerMgr := PeerManager.newJoiner
  cryptoCtx := CryptoContext.new key zeroSession
  key := key
  keyExchange := keyExchange

def getPeer (node : Node D) (id : UInt8) : Option (RemotePeer D) := node.peerMgr.getPeer id

def modifyPeer (node : Node D) (id : UInt8) (f : RemotePeer D → RemotePeer D) : Node D :=
  { node with peerMgr := node.peerMgr.modifyPeer id f }

/-- Touch the peer known under an address, if there is one. -/
def touchAddr (node : Node D) (addr : SocketAddr) (now : Instant) : Node D :=
  match node.peerMgr.peerByAddr addr with
  | some id => node.modifyPeer id (·.touch now)
  | none => node

/-- Open a packet with a context, from the wire alone. -/
def opens (ctx : CryptoContext) (packet : Packet) : Except Error Bytes :=
  ctx.decrypt prim.aead packet.headerBytes packet.ciphertext packet.header.peerId
    packet.header.seqNum packet.header.counter

/-- A fresh context with the pre-shared key. -/
def pskCtx (node : Node D) (sessionId : SessionId) : CryptoContext :=
  CryptoContext.new node.key sessionId

/-! ## Joining -/

/-- Seal a packet under the pre-shared key, with sequence number and counter zero,
and send it. A failure is passed on. -/
def sendSealed (node : Node D) (env : Env D) (sessionId : SessionId) (pktType peerId : UInt8)
    (payload : Bytes) (dst : SocketAddr) : Outcome D :=
  match sealPacket prim.aead .psk (node.pskCtx sessionId) ⟨pktType, peerId, 0, 0⟩ payload dst
      (env.sendOk 0) peerId 0 0 with
  | .error e => .fail node [] e
  | .ok packet => if packet.sent then .done node [packet] else .fail node [packet] .sendFailed

/-- The JOIN that a joining node sends to its host before the main loop. -/
def sendJoin (node : Node D) (env : Env D) (listenPort : UInt16) (hostAddr : SocketAddr) :
    Outcome D :=
  sendSealed prim node env zeroSession pktJoin 0 (JoinPayload.toBytes ⟨listenPort⟩) hostAddr

/-! ## Received packets -/

/-- Decrypt audio: under the per-peer key first if the key exchange is complete,
then under the session context. Says which one opened it. -/
def openAudio (node : Node D) (packet : Packet) : Except Error (Bytes × Bool) :=
  match (node.getPeer packet.header.peerId).bind RemotePeer.recvContext with
  | some peerCtx =>
    match opens prim peerCtx packet with
    | .ok plaintext => .ok (plaintext, true)
    | .error _ => (opens prim node.cryptoCtx packet).map (·, false)
  | none => (opens prim node.cryptoCtx packet).map (·, false)

/-- Decode a frame into the peer's jitter buffer. -/
def bufferFrame (peer : RemotePeer D) (seqNum : UInt16) (plaintext : Bytes) :
    RemotePeer D × Except Error Unit :=
  let (decoder, decoded) := prim.decode peer.decoder plaintext
  let peer := { peer with decoder := decoder }
  match decoded with
  | none => (peer, .error .opusDecode)
  | some pcm => ({ peer with jitterBuffer := peer.jitterBuffer.push seqNum pcm }, .ok ())

/-- Take an opened audio packet in, unless it is a replay. -/
def acceptAudio (peer : RemotePeer D) (now : Instant) (header : PacketHeader) (plaintext : Bytes)
    (usedPeerCtx : Bool) : RemotePeer D × Except Error Unit :=
  let (fresh, peer) := (peer.touch now).checkReplay usedPeerCtx header.counter
  if fresh then bufferFrame prim peer header.seqNum plaintext
  else (peer, .error (.replayDetected header.peerId))

def handleAudio (node : Node D) (env : Env D) (packet : Packet) : Outcome D :=
  match openAudio prim node packet with
  | .error e => .fail node [] e
  | .ok (plaintext, usedPeerCtx) =>
    match node.getPeer packet.header.peerId with
    | none => .done node []
    | some peer =>
        let (peer', result) := acceptAudio prim peer env.now packet.header plaintext usedPeerCtx
        ⟨node.modifyPeer packet.header.peerId fun _ => peer', [], result⟩

/-- The address a host lists for itself: the bound one, or our routable one when
bound to an unspecified address. -/
def listedAddr (env : Env D) (srcAddr : SocketAddr) : Except Error SocketAddr :=
  match env.localAddr with
  | none => .error .noLocalAddr
  | some localAddr =>
    if localAddr.ip.isUnspecified then
      match env.resolveLocalIp srcAddr with
      | none => .error .noLocalIp
      | some ip => .ok (SocketAddr.new ip localAddr.port)
    else
      .ok localAddr

/-- The PEER_LIST answer to a JOIN. -/
def sendPeerList (node : Node D) (env : Env D) (srcAddr : SocketAddr) : Outcome D :=
  match listedAddr env srcAddr with
  | .error e => .fail node [] e
  | .ok hostAddr =>
      sendSealed prim node env zeroSession pktPeerList node.peerMgr.localId
        (node.peerMgr.buildPeerList hostAddr env.order).toBytes srcAddr

/-- Open a JOIN. -/
def openJoin (node : Node D) (packet : Packet) : Except Error JoinPayload :=
  match opens prim (node.pskCtx zeroSession) packet with
  | .error e => .error e
  | .ok plaintext => JoinPayload.fromBytes plaintext

def handleJoin (node : Node D) (env : Env D) (srcAddr : SocketAddr) (packet : Packet) :
    Outcome D :=
  if !node.peerMgr.isHost then
    .fail node [] .nonHostReceivedJoin
  else
    match openJoin prim node packet with
    | .error e => .fail node [] e
    | .ok _ =>
      match node.peerMgr.allocatePeerId with
      | .error e => .fail node [] e
      | .ok (newId, peerMgr) =>
        match peerMgr.addPeer newId srcAddr env.newDecoder env.now with
        | .error e => .fail { node with peerMgr := peerMgr } [] e
        | .ok peerMgr =>
            let node := { node with peerMgr := peerMgr.modifyPeer newId (·.connect env.now) }
            sendPeerList prim node env srcAddr

/-- Greet the listed peers, except the one we are: add each and send it a HELLO.
The sender of the list is greeted at its source address. -/
def greetPeers (key : Key) (env : Env D) (sessionId : SessionId) (myId sender : UInt8)
    (srcAddr : SocketAddr) :
    List (UInt8 × SocketAddr) → PeerManager D → List Emission →
      PeerManager D × List Emission × Except Error Unit
  | [], peerMgr, out => (peerMgr, out, .ok ())
  | (id, addr) :: rest, peerMgr, out =>
    if id = myId then
      greetPeers key env sessionId myId sender srcAddr rest peerMgr out
    else
      let peerAddr := if id = sender then srcAddr else addr
      match peerMgr.addPeer id peerAddr env.newDecoder env.now with
      | .error e => (peerMgr, out, .error e)
      | .ok peerMgr =>
        match sealPacket prim.aead .psk (CryptoContext.new key sessionId) ⟨pktHello, myId, 0, 0⟩ []
            peerAddr (env.sendOk out.length) myId 0 0 with
        | .error e => (peerMgr, out, .error e)
        | .ok packet =>
          if packet.sent then
            greetPeers key env sessionId myId sender srcAddr rest
              (peerMgr.modifyPeer id fun peer => { peer with state := .helloSent })
              (out ++ [packet])
          else
            (peerMgr, out ++ [packet], .error .sendFailed)

/-- The largest listed id is the one the host gave to us. -/
def maxId (peers : List (UInt8 × SocketAddr)) : Option UInt8 := (peers.map Prod.fst).max?

/-- Open a PEER_LIST: the id it gives us and the list. -/
def openPeerList (node : Node D) (packet : Packet) : Except Error (UInt8 × PeerListPayload) :=
  match opens prim (node.pskCtx zeroSession) packet with
  | .error e => .error e
  | .ok plaintext =>
    match PeerListPayload.fromBytes plaintext with
    | .error e => .error e
    | .ok list =>
      match maxId list.peers with
      | none => .error .emptyPeerList
      | some myId => .ok (myId, list)

def handlePeerList (node : Node D) (env : Env D) (srcAddr : SocketAddr) (packet : Packet) :
    Outcome D :=
  match openPeerList prim node packet with
  | .error e => .fail node [] e
  | .ok (myId, list) =>
      let (peerMgr, out, result) :=
        greetPeers prim node.key env list.sessionId myId packet.header.peerId srcAddr list.peers
          (node.peerMgr.setIdentity myId list.sessionId) []
      ⟨{ node with
          peerMgr := peerMgr
          cryptoCtx := CryptoContext.new node.key list.sessionId }, out, result⟩

/-- The peer table with the sender of a HELLO in it. -/
def greeted (node : Node D) (env : Env D) (srcAddr : SocketAddr) (peerId : UInt8) :
    Except Error (PeerManager D) :=
  match node.peerMgr.getPeer peerId with
  | none => node.peerMgr.addPeer peerId srcAddr env.newDecoder env.now
  | some _ => .ok node.peerMgr

def handleHello (node : Node D) (env : Env D) (srcAddr : SocketAddr) (packet : Packet) :
    Outcome D :=
  match opens prim (node.pskCtx node.peerMgr.sessionId) packet with
  | .error e => .fail node [] e
  | .ok _ =>
    match node.greeted env srcAddr packet.header.peerId with
    | .error e => .fail node [] e
    | .ok peerMgr =>
        let node := { node with peerMgr := peerMgr.modifyPeer packet.header.peerId (·.connect env.now) }
        sendSealed prim node env node.peerMgr.sessionId pktHelloAck node.peerMgr.localId [] srcAddr

def handleHelloAck (node : Node D) (env : Env D) (packet : Packet) : Outcome D :=
  match opens prim (node.pskCtx node.peerMgr.sessionId) packet with
  | .error e => .fail node [] e
  | .ok _ => .done (node.modifyPeer packet.header.peerId (·.connect env.now)) []

/-- A keepalive is not decrypted. -/
def handleKeepalive (node : Node D) (env : Env D) (srcAddr : SocketAddr) : Outcome D :=
  .done (node.touchAddr srcAddr env.now) []

/-- Draw a counter from the session context and seal a packet with it. A counter
is used up even if the cipher refuses the packet. -/
def sealCounted (node : Node D) (pktType : UInt8) (payload : Bytes) (seqNum : UInt16)
    (dst : SocketAddr) : Node D × List Emission :=
  let localId := node.peerMgr.localId
  match node.cryptoCtx.nextCounter with
  | .error _ => (node, [])
  | .ok (counter, ctx) =>
    let node := { node with cryptoCtx := ctx }
    match sealPacket prim.aead .psk ctx ⟨pktType, localId, seqNum, counter⟩ payload dst true
        localId seqNum counter with
    | .error _ => (node, [])
    | .ok packet => (node, [packet])

/-- Open a PING or a PONG. -/
def openPing (node : Node D) (packet : Packet) : Except Error PingPayload :=
  match opens prim node.cryptoCtx packet with
  | .error e => .error e
  | .ok plaintext => PingPayload.fromBytes plaintext

def handlePing (node : Node D) (env : Env D) (srcAddr : SocketAddr) (packet : Packet) :
    Outcome D :=
  match openPing prim node packet with
  | .error e => .fail node [] e
  | .ok ping =>
    match node.cryptoCtx.nextCounter with
    | .error _ => .done node []
    | .ok _ =>
        let (node, out) := sealCounted prim node pktPong ping.toBytes 0 srcAddr
        .done (node.touchAddr srcAddr env.now) out

def handlePong (node : Node D) (env : Env D) (packet : Packet) : Outcome D :=
  match openPing prim node packet with
  | .error e => .fail node [] e
  | .ok pong =>
      .done (node.modifyPeer packet.header.peerId fun peer =>
        { peer.touch env.now with
          latencyTracker := (peer.latencyTracker.pongReceived pong.pingId env.now).2 }) []

/-- Send our KEY_EXCHANGE to a peer that has not been sent it. The flag is set
whatever becomes of the datagram. -/
def sendKeyExchange (node : Node D) (id : UInt8) (dst : SocketAddr) : Node D × List Emission :=
  match node.getPeer id with
  | none => (node, [])
  | some peer =>
    if peer.kxSent then
      (node, [])
    else
      let localId := node.peerMgr.localId
      let payload := KeyExchangePayload.toBytes ⟨node.keyExchange.publicKeyBytes prim⟩
      match sealPacket prim.aead .psk (node.pskCtx node.peerMgr.sessionId)
          ⟨pktKeyExchange, localId, 0, 0⟩ payload dst true localId 0 0 with
      | .error _ => (node, [])
      | .ok packet => (node.modifyPeer id fun peer => { peer with kxSent := true }, [packet])

/-- Open a KEY_EXCHANGE and derive the key of its sender. -/
def openKeyExchange (node : Node D) (packet : Packet) : Except Error Key :=
  match opens prim (node.pskCtx node.peerMgr.sessionId) packet with
  | .error e => .error e
  | .ok plaintext =>
    match KeyExchangePayload.fromBytes plaintext with
    | .error e => .error e
    | .ok kx =>
        node.keyExchange.derivePeerKey prim kx.publicKey node.peerMgr.sessionId
          node.peerMgr.localId packet.header.peerId

def handleKeyExchange (node : Node D) (srcAddr : SocketAddr) (packet : Packet) : Outcome D :=
  match openKeyExchange prim node packet with
  | .error e => .fail node [] e
  | .ok derivedKey =>
      let sessionId := node.peerMgr.sessionId
      let node := node.modifyPeer packet.header.peerId fun peer =>
        { peer with
          peerCrypto := some (CryptoContext.new derivedKey sessionId)
          kxReceived := true }
      let (node, out) := sendKeyExchange prim node packet.header.peerId srcAddr
      .done node out

/-- Dispatch a received packet by its type. -/
def handlePacket (node : Node D) (env : Env D) (srcAddr : SocketAddr) (packet : Packet) :
    Outcome D :=
  if packet.header.pktType = pktAudio then
    handleAudio prim node env packet
  else if packet.header.pktType = pktJoin then
    handleJoin prim node env srcAddr packet
  else if packet.header.pktType = pktPeerList then
    handlePeerList prim node env srcAddr packet
  else if packet.header.pktType = pktHello then
    handleHello prim node env srcAddr packet
  else if packet.header.pktType = pktHelloAck then
    handleHelloAck prim node env packet
  else if packet.header.pktType = pktKeepalive then
    handleKeepalive node env srcAddr
  else if packet.header.pktType = pktPing then
    handlePing prim node env srcAddr packet
  else if packet.header.pktType = pktPong then
    handlePong prim node env packet
  else if packet.header.pktType = pktKeyExchange then
    handleKeyExchange prim node srcAddr packet
  else
    .fail node [] (.unknownPacketType packet.header.pktType)

/-- Handle one received datagram. -/
def handleIncoming (node : Node D) (env : Env D) (data : Bytes) (srcAddr : SocketAddr) :
    Outcome D :=
  match Packet.parse data with
  | .error e => .fail node [] e
  | .ok packet => handlePacket prim node env srcAddr packet

theorem handleIncoming_eq {data : Bytes} {packet : Packet}
    (parsed : Packet.parse data = .ok packet) (node : Node D) (env : Env D)
    (srcAddr : SocketAddr) : handleIncoming prim node env data srcAddr =
      handlePacket prim node env srcAddr packet := by
  rw [handleIncoming, parsed]

theorem handlePacket_audio {packet : Packet} (type : packet.header.pktType = pktAudio)
    (node : Node D) (env : Env D) (srcAddr : SocketAddr) :
    handlePacket prim node env srcAddr packet = handleAudio prim node env packet := by
  rw [handlePacket, type, if_pos rfl]

theorem handlePacket_join {packet : Packet} (type : packet.header.pktType = pktJoin)
    (node : Node D) (env : Env D) (srcAddr : SocketAddr) :
    handlePacket prim node env srcAddr packet = handleJoin prim node env srcAddr packet := by
  rw [handlePacket, type, if_neg (by decide), if_pos rfl]

theorem handlePacket_peerList {packet : Packet} (type : packet.header.pktType = pktPeerList)
    (node : Node D) (env : Env D) (srcAddr : SocketAddr) :
    handlePacket prim node env srcAddr packet =
      handlePeerList prim node env srcAddr packet := by
  simp [handlePacket, type, pktAudio, pktJoin, pktPeerList]

theorem handlePacket_hello {packet : Packet} (type : packet.header.pktType = pktHello)
    (node : Node D) (env : Env D) (srcAddr : SocketAddr) :
    handlePacket prim node env srcAddr packet = handleHello prim node env srcAddr packet := by
  simp [handlePacket, type, pktAudio, pktJoin, pktPeerList, pktHello]

theorem handlePacket_helloAck {packet : Packet} (type : packet.header.pktType = pktHelloAck)
    (node : Node D) (env : Env D) (srcAddr : SocketAddr) :
    handlePacket prim node env srcAddr packet = handleHelloAck prim node env packet := by
  simp [handlePacket, type, pktAudio, pktJoin, pktPeerList, pktHello, pktHelloAck]

theorem handlePacket_keepalive {packet : Packet} (type : packet.header.pktType = pktKeepalive)
    (node : Node D) (env : Env D) (srcAddr : SocketAddr) :
    handlePacket prim node env srcAddr packet = handleKeepalive node env srcAddr := by
  simp [handlePacket, type, pktAudio, pktJoin, pktPeerList, pktHello, pktHelloAck, pktKeepalive]

theorem handlePacket_ping {packet : Packet} (type : packet.header.pktType = pktPing)
    (node : Node D) (env : Env D) (srcAddr : SocketAddr) :
    handlePacket prim node env srcAddr packet = handlePing prim node env srcAddr packet := by
  simp [handlePacket, type, pktAudio, pktJoin, pktPeerList, pktHello, pktHelloAck, pktKeepalive,
    pktPing]

theorem handlePacket_pong {packet : Packet} (type : packet.header.pktType = pktPong)
    (node : Node D) (env : Env D) (srcAddr : SocketAddr) :
    handlePacket prim node env srcAddr packet = handlePong prim node env packet := by
  simp [handlePacket, type, pktAudio, pktJoin, pktPeerList, pktHello, pktHelloAck, pktKeepalive,
    pktPing, pktPong]

theorem handlePacket_keyExchange {packet : Packet}
    (type : packet.header.pktType = pktKeyExchange) (node : Node D) (env : Env D)
    (srcAddr : SocketAddr) :
    handlePacket prim node env srcAddr packet = handleKeyExchange prim node srcAddr packet := by
  simp [handlePacket, type, pktAudio, pktJoin, pktPeerList, pktHello, pktHelloAck, pktKeepalive,
    pktPing, pktPong, pktKeyExchange]

/-- What the dispatch makes of a packet: the outcome of the handler of its type, or the
refusal of a type that has none. -/
inductive Handled (node : Node D) (env : Env D) (srcAddr : SocketAddr) (packet : Packet)
    (outcome : Outcome D) : Prop where
  | audio (type : packet.header.pktType = pktAudio)
      (same : outcome = handleAudio prim node env packet)
  | join (type : packet.header.pktType = pktJoin)
      (same : outcome = handleJoin prim node env srcAddr packet)
  | peerList (type : packet.header.pktType = pktPeerList)
      (same : outcome = handlePeerList prim node env srcAddr packet)
  | hello (type : packet.header.pktType = pktHello)
      (same : outcome = handleHello prim node env srcAddr packet)
  | helloAck (type : packet.header.pktType = pktHelloAck)
      (same : outcome = handleHelloAck prim node env packet)
  | keepalive (type : packet.header.pktType = pktKeepalive)
      (same : outcome = handleKeepalive node env srcAddr)
  | ping (type : packet.header.pktType = pktPing)
      (same : outcome = handlePing prim node env srcAddr packet)
  | pong (type : packet.header.pktType = pktPong)
      (same : outcome = handlePong prim node env packet)
  | keyExchange (type : packet.header.pktType = pktKeyExchange)
      (same : outcome = handleKeyExchange prim node srcAddr packet)
  | unknown (other : packet.header.pktType ∉ [pktAudio, pktJoin, pktPeerList, pktHello,
        pktHelloAck, pktKeepalive, pktPing, pktPong, pktKeyExchange])
      (same : outcome = .fail node [] (.unknownPacketType packet.header.pktType))

theorem handlePacket_handled (node : Node D) (env : Env D) (srcAddr : SocketAddr)
    (packet : Packet) :
    Handled prim node env srcAddr packet (handlePacket prim node env srcAddr packet) := by
  by_cases audio : packet.header.pktType = pktAudio
  · exact .audio audio (handlePacket_audio prim audio ..)
  by_cases join : packet.header.pktType = pktJoin
  · exact .join join (handlePacket_join prim join ..)
  by_cases peerList : packet.header.pktType = pktPeerList
  · exact .peerList peerList (handlePacket_peerList prim peerList ..)
  by_cases hello : packet.header.pktType = pktHello
  · exact .hello hello (handlePacket_hello prim hello ..)
  by_cases helloAck : packet.header.pktType = pktHelloAck
  · exact .helloAck helloAck (handlePacket_helloAck prim helloAck ..)
  by_cases keepalive : packet.header.pktType = pktKeepalive
  · exact .keepalive keepalive (handlePacket_keepalive prim keepalive ..)
  by_cases ping : packet.header.pktType = pktPing
  · exact .ping ping (handlePacket_ping prim ping ..)
  by_cases pong : packet.header.pktType = pktPong
  · exact .pong pong (handlePacket_pong prim pong ..)
  by_cases keyExchange : packet.header.pktType = pktKeyExchange
  · exact .keyExchange keyExchange (handlePacket_keyExchange prim keyExchange ..)
  refine .unknown ?_ ?_
  · simp only [List.mem_cons, List.not_mem_nil, or_false, not_or]
    exact ⟨audio, join, peerList, hello, helloAck, keepalive, ping, pong, keyExchange⟩
  · rw [handlePacket, if_neg audio, if_neg join, if_neg peerList, if_neg hello, if_neg helloAck,
      if_neg keepalive, if_neg ping, if_neg pong, if_neg keyExchange]

/-! ## The main loop -/

/-- One body for each listed peer, in turn. -/
def eachPeer (body : Node D → UInt8 × SocketAddr → Node D × List Emission) :
    Machine (Node D) (UInt8 × SocketAddr) Emission := ⟨body⟩

/-- Send one encoded frame to a peer, under the per-peer key if the key exchange
is complete and under the session context if not. -/
def sendFrameTo (opus : Bytes) (node : Node D) (target : UInt8 × SocketAddr) :
    Node D × List Emission :=
  match node.getPeer target.1 with
  | none => (node, [])
  | some peer =>
    let localId := node.peerMgr.localId
    let (seq, peer) := peer.nextSeq
    let node := node.modifyPeer target.1 fun _ => peer
    match peer.sendContext with
    | some peerCtx =>
      match peerCtx.nextCounter with
      | .error _ => (node, [])
      | .ok (counter, ctx) =>
        let node := node.modifyPeer target.1 fun peer => { peer with peerCrypto := some ctx }
        match sealPacket prim.aead .peer ctx ⟨pktAudio, localId, seq, counter⟩ opus target.2 true
            localId seq counter with
        | .error _ => (node, [])
        | .ok packet => (node, [packet])
    | none => sealCounted prim node pktAudio opus seq target.2

/-- Ping one peer. -/
def sendPingTo (env : Env D) (node : Node D) (target : UInt8 × SocketAddr) :
    Node D × List Emission :=
  match node.getPeer target.1 with
  | none => (node, [])
  | some peer =>
    let (pingId, tracker) := peer.latencyTracker.pingSent env.pingOrder env.now
    let node := node.modifyPeer target.1 fun peer => { peer with latencyTracker := tracker }
    sealCounted prim node pktPing (PingPayload.toBytes ⟨pingId⟩) 0 target.2

/-- What wakes a session up. -/
inductive Event where
  /-- A datagram was received from an address. -/
  | recv (data : Bytes) (srcAddr : SocketAddr)
  /-- A frame was captured, passed the gate and was encoded. -/
  | frame (opus : Bytes)
  | playout
  | keepalive
  | ping
  | adapt (elapsedSecs : ℚ)
  deriving DecidableEq

/-- Send one encoded frame to every connected peer. -/
def sendFrame (node : Node D) (env : Env D) (opus : Bytes) : Node D × List Emission :=
  let targets := node.peerMgr.connectedPeers env.order
  ((eachPeer (sendFrameTo prim opus)).run node targets,
    (eachPeer (sendFrameTo prim opus)).outputs node targets)

/-- What one connected peer contributes to a playout tick: the frame whose turn it
is, or concealment. -/
def playPeer (peer : RemotePeer D) : RemotePeer D × Option Pcm :=
  if peer.state ≠ .connected then
    (peer, none)
  else
    let (popped, jitterBuffer) := peer.jitterBuffer.pop
    let peer := { peer with jitterBuffer := jitterBuffer }
    match popped with
    | some pcm => (peer, some pcm)
    | none =>
        let (decoder, plc) := prim.decodePlc peer.decoder
        ({ peer with decoder := decoder }, plc)

/-- The playout tick. -/
def playout (node : Node D) : Node D :=
  { node with
    peerMgr := { node.peerMgr with
      peers := node.peerMgr.peers.mapValues fun peer => (playPeer prim peer).1 } }

/-- The frames that a playout tick mixes. -/
def playedFrames (node : Node D) (env : Env D) : List Pcm :=
  (node.peerMgr.peers.values env.order).filterMap fun peer => (playPeer prim peer).2

/-- The keepalive tick, with the check for timed-out peers. -/
def keepalive (node : Node D) (env : Env D) : Node D × List Emission :=
  let targets := node.peerMgr.connectedPeers env.order
  let body := eachPeer fun node target => sealCounted prim node pktKeepalive [] 0 target.2
  let sent := body.run node targets
  ({ sent with peerMgr := sent.peerMgr.checkTimeouts env.now }, body.outputs node targets)

/-- The ping tick, which also sends pending key exchanges. -/
def ping (node : Node D) (env : Env D) : Node D × List Emission :=
  let targets := node.peerMgr.connectedPeers env.order
  let pings := eachPeer (sendPingTo prim env)
  let pinged := pings.run node targets
  let exchanges := eachPeer fun node target => sendKeyExchange prim node target.1 target.2
  let targets' := pinged.peerMgr.connectedPeers env.order
  (exchanges.run pinged targets', pings.outputs node targets ++ exchanges.outputs pinged targets')

/-- The adaptation tick. -/
def adapt (node : Node D) (elapsedSecs : ℚ) : Node D :=
  { node with
    peerMgr := { node.peerMgr with
      peers := node.peerMgr.peers.mapValues fun peer =>
        { peer with jitterBuffer := peer.jitterBuffer.adapt elapsedSecs } } }

/-- One event. -/
def step (node : Node D) (env : Env D) : Event → Node D × List Emission
  | .recv data srcAddr =>
      let outcome := handleIncoming prim node env data srcAddr
      (outcome.node, outcome.out)
  | .frame opus => sendFrame prim node env opus
  | .playout => (playout prim node, [])
  | .keepalive => keepalive prim node env
  | .ping => ping prim node env
  | .adapt elapsedSecs => (adapt node elapsedSecs, [])

end Node

/-- A running session as a machine. -/
def nodeMachine {D : Type} (prim : Primitives D) :
    Machine (Node D) (Env D × Node.Event) Emission where
  step node input := node.step prim input.1 input.2

/-! ## A session to compute with -/

namespace Sample

def psk : Key := Vector.replicate 32 7

def session : SessionId := Vector.replicate 8 1

def addr (n : UInt8) : SocketAddr := .v4 #v[10, 0, 0, n] 5000

/-- The environment of the node at `addr n`. -/
def env (n : UInt8) (now : Instant) : Env Unit := Env.ideal () (addr n) now

def host : Node Unit := Node.host psk session ⟨Vector.replicate 32 3⟩

/-- A joining node, told apart by its key pair. -/
def joiner (n : UInt8) : Node Unit := Node.joiner psk ⟨Vector.replicate 32 n⟩

/-- The datagrams of some packets, one after the other. -/
def wires (out : List Emission) : Bytes := out.flatMap Emission.wire

/-- The JOIN of a joining node. -/
def join : Bytes :=
  wires ((joiner 4).sendJoin Primitives.transparent (env 1 0) 5000 (addr 0)).out

/-- The host after it has let the node at `addr 1` in. -/
def hostOfOne : Outcome Unit :=
  host.handleIncoming Primitives.transparent (env 0 0) join (addr 1)

/-- A joiner that has handled the answer to its JOIN. -/
def greeting : Outcome Unit :=
  (joiner 5).handleIncoming Primitives.transparent (env 1 0) (wires hostOfOne.out) (addr 0)

/-- The JOINs of nodes at some addresses, one after the other. -/
def joins (members : List UInt8) : List (Env Unit × Node.Event) :=
  members.map fun n => (env 0 0, .recv join (addr n))

/-- The host after it has let them in. -/
def hostOf (members : List UInt8) : Node Unit :=
  (nodeMachine Primitives.transparent).run host (joins members)

/-- The HELLO of the member with an id. -/
def hello (id : UInt8) : Bytes :=
  wires ((joiner 4).sendSealed Primitives.transparent (env 1 0) session pktHello id [] (addr 0)).out

end Sample

end VoiceChat
