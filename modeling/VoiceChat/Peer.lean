import VoiceChat.Crypto
import VoiceChat.Jitter
import VoiceChat.Latency
import VoiceChat.Primitives

/-!
# Peers

What a node keeps about each remote peer, and the table of all of them: the
peers by their id, the ids by their address, and the host's counter of ids to
give out.

`addPeer` and `allocatePeerId` either fail and leave the table as it was, or
return the new table; the lemmas say what is in it.
-/

set_option autoImplicit false

namespace VoiceChat

def maxPeers : Nat := 5
/-- Ten seconds. -/
def peerTimeout : Instant := 10 * 1000000000

inductive PeerState where
  /-- Known, but no HELLO exchanged yet. -/
  | discovered
  /-- HELLO sent, awaiting HELLO_ACK. -/
  | helloSent
  /-- Bidirectional connectivity confirmed. -/
  | connected
  /-- No packets for the peer timeout. -/
  | disconnected
  deriving DecidableEq

/-- State for a single remote peer. -/
structure RemotePeer (D : Type) where
  id : UInt8
  addr : SocketAddr
  state : PeerState
  jitterBuffer : JitterBuffer Pcm
  decoder : D
  /-- Replay filter for audio received under the shared key. -/
  replayFilter : ReplayFilter
  /-- Replay filter for audio received under the per-peer key. -/
  peerReplayFilter : ReplayFilter
  lastSeen : Instant
  /-- Sequence number for outbound audio packets to this peer. -/
  sendSeq : UInt16
  latencyTracker : LatencyTracker
  /-- Per-peer context derived from the key exchange. -/
  peerCrypto : Option CryptoContext
  /-- Whether our KEY_EXCHANGE has been sent to this peer. -/
  kxSent : Bool
  /-- Whether this peer's KEY_EXCHANGE has been received. -/
  kxReceived : Bool

namespace RemotePeer

variable {D : Type}

def new (id : UInt8) (addr : SocketAddr) (decoder : D) (now : Instant) : RemotePeer D where
  id := id
  addr := addr
  state := .discovered
  jitterBuffer := JitterBuffer.new
  decoder := decoder
  replayFilter := ReplayFilter.new
  peerReplayFilter := ReplayFilter.new
  lastSeen := now
  sendSeq := 0
  latencyTracker := LatencyTracker.new
  peerCrypto := none
  kxSent := false
  kxReceived := false

def isConnected (peer : RemotePeer D) : Bool := peer.state = .connected

def isTimedOut (peer : RemotePeer D) (now : Instant) : Bool := now - peer.lastSeen > peerTimeout

def touch (peer : RemotePeer D) (now : Instant) : RemotePeer D := { peer with lastSeen := now }

/-- Mark the peer connected and seen. -/
def connect (peer : RemotePeer D) (now : Instant) : RemotePeer D :=
  { peer with state := .connected, lastSeen := now }

def nextSeq (peer : RemotePeer D) : UInt16 × RemotePeer D :=
  (peer.sendSeq, { peer with sendSeq := peer.sendSeq + 1 })

/-- The per-peer context when the key exchange is complete in both directions. -/
def sendContext (peer : RemotePeer D) : Option CryptoContext :=
  if peer.kxSent && peer.kxReceived then peer.peerCrypto else none

/-- The per-peer context to try first on a received packet. -/
def recvContext (peer : RemotePeer D) : Option CryptoContext :=
  if peer.kxReceived then peer.peerCrypto else none

/-- The filter that a counter is checked against, by the context that opened it. -/
def filterFor (peer : RemotePeer D) (usedPeerCtx : Bool) : ReplayFilter :=
  if usedPeerCtx then peer.peerReplayFilter else peer.replayFilter

/-- Check a counter against its filter, which takes it in when it is fresh. -/
def checkReplay (peer : RemotePeer D) (usedPeerCtx : Bool) (counter : UInt32) :
    Bool × RemotePeer D :=
  let (fresh, filter) := (peer.filterFor usedPeerCtx).checkAndAccept counter
  (fresh, if usedPeerCtx then { peer with peerReplayFilter := filter }
    else { peer with replayFilter := filter })

end RemotePeer

/-- Manages all peer connections of a node. -/
structure PeerManager (D : Type) where
  /-- Our assigned peer id. -/
  localId : UInt8
  sessionId : SessionId
  peers : HashMap UInt8 (RemotePeer D)
  addrToId : HashMap SocketAddr UInt8
  isHost : Bool
  /-- Next peer id to assign (host only). -/
  nextPeerId : UInt8

namespace PeerManager

variable {D : Type}

def newHost (sessionId : SessionId) : PeerManager D where
  localId := 0
  sessionId := sessionId
  peers := ∅
  addrToId := ∅
  isHost := true
  nextPeerId := 1

/-- A joining node; its id is assigned later. -/
def newJoiner : PeerManager D where
  localId := 0
  sessionId := Vector.replicate 8 0
  peers := ∅
  addrToId := ∅
  isHost := false
  nextPeerId := 0

def setIdentity (pm : PeerManager D) (localId : UInt8) (sessionId : SessionId) : PeerManager D :=
  { pm with localId := localId, sessionId := sessionId }

/-- Move a known peer to an address. -/
def moveAddr (pm : PeerManager D) (id : UInt8) (peer : RemotePeer D) (addr : SocketAddr) :
    PeerManager D :=
  if peer.addr = addr then pm
  else
    { pm with
      addrToId := (pm.addrToId.erase peer.addr).insert addr id
      peers := pm.peers.insert id { peer with addr := addr } }

/-- Add or update a remote peer. -/
def addPeer (pm : PeerManager D) (id : UInt8) (addr : SocketAddr) (newDecoder : Option D)
    (now : Instant) : Except Error (PeerManager D) :=
  if id = pm.localId then
    .ok pm
  else if pm.peers.size ≥ maxPeers - 1 then
    .error .maxPeersReached
  else
    match pm.peers.lookup id with
    | none =>
      match newDecoder with
      | none => .error .decoderInit
      | some decoder =>
          .ok { pm with
            peers := pm.peers.insert id (RemotePeer.new id addr decoder now)
            addrToId := pm.addrToId.insert addr id }
    | some peer => .ok (pm.moveAddr id peer addr)

/-- Allocate a new peer id (host only). -/
def allocatePeerId (pm : PeerManager D) : Except Error (UInt8 × PeerManager D) :=
  if !pm.isHost then
    .error .onlyHostAllocates
  else if pm.nextPeerId.toNat ≥ maxPeers then
    .error .noMorePeerIds
  else
    .ok (pm.nextPeerId, { pm with nextPeerId := pm.nextPeerId + 1 })

def peerByAddr (pm : PeerManager D) (addr : SocketAddr) : Option UInt8 := pm.addrToId.lookup addr

def getPeer (pm : PeerManager D) (id : UInt8) : Option (RemotePeer D) := pm.peers.lookup id

/-- Change the entry of a peer, if there is one. -/
def modifyPeer (pm : PeerManager D) (id : UInt8) (f : RemotePeer D → RemotePeer D) :
    PeerManager D :=
  { pm with peers := pm.peers.modify id f }

/-- Ids and addresses of the connected peers. -/
def connectedPeers (pm : PeerManager D) (order : HashOrder UInt8) : List (UInt8 × SocketAddr) :=
  ((pm.peers.values order).filter RemotePeer.isConnected).map fun p => (p.id, p.addr)

/-- The PEER_LIST payload with ourselves and all known peers. -/
def buildPeerList (pm : PeerManager D) (localAddr : SocketAddr) (order : HashOrder UInt8) :
    PeerListPayload where
  sessionId := pm.sessionId
  peers := (pm.localId, localAddr) :: (pm.peers.values order).map fun p => (p.id, p.addr)

/-- Mark timed-out peers disconnected. -/
def checkTimeouts (pm : PeerManager D) (now : Instant) : PeerManager D :=
  { pm with
    peers := pm.peers.mapValues fun peer =>
      if peer.state = .connected ∧ peer.isTimedOut now then { peer with state := .disconnected }
      else peer }

/-! ## What the operations leave in the table -/

@[simp] theorem modifyPeer_localId (pm : PeerManager D) (id : UInt8)
    (f : RemotePeer D → RemotePeer D) : (pm.modifyPeer id f).localId = pm.localId := rfl

@[simp] theorem modifyPeer_sessionId (pm : PeerManager D) (id : UInt8)
    (f : RemotePeer D → RemotePeer D) : (pm.modifyPeer id f).sessionId = pm.sessionId := rfl

@[simp] theorem modifyPeer_isHost (pm : PeerManager D) (id : UInt8)
    (f : RemotePeer D → RemotePeer D) : (pm.modifyPeer id f).isHost = pm.isHost := rfl

@[simp] theorem modifyPeer_nextPeerId (pm : PeerManager D) (id : UInt8)
    (f : RemotePeer D → RemotePeer D) : (pm.modifyPeer id f).nextPeerId = pm.nextPeerId := rfl

theorem getPeer_modifyPeer (pm : PeerManager D) (id k : UInt8) (f : RemotePeer D → RemotePeer D) :
    (pm.modifyPeer id f).getPeer k = if k = id then (pm.getPeer k).map f else pm.getPeer k :=
  HashMap.lookup_modify pm.peers id k f

/-- A change that leaves the entry of a peer as it is changes nothing. -/
theorem modifyPeer_eq_self {pm : PeerManager D} {id : UInt8} {f : RemotePeer D → RemotePeer D}
    (fixed : ∀ peer, pm.getPeer id = some peer → f peer = peer) : pm.modifyPeer id f = pm := by
  rw [modifyPeer, HashMap.modify_eq_self fixed]

/-- A peer that moves keeps its entry, at the new address. -/
theorem getPeer_moveAddr {pm : PeerManager D} {id : UInt8} {peer : RemotePeer D}
    (known : pm.getPeer id = some peer) (addr : SocketAddr) (k : UInt8) :
    (pm.moveAddr id peer addr).getPeer k =
      if k = id then some { peer with addr := addr } else pm.getPeer k := by
  unfold moveAddr
  split_ifs with here same same
  · rw [same, known, ← here]
  · rfl
  · exact (HashMap.lookup_insert ..).trans (if_pos same)
  · exact (HashMap.lookup_insert ..).trans (if_neg same)

theorem size_moveAddr {pm : PeerManager D} {id : UInt8} {peer : RemotePeer D}
    (known : pm.getPeer id = some peer) (addr : SocketAddr) :
    (pm.moveAddr id peer addr).peers.size = pm.peers.size := by
  unfold moveAddr
  split_ifs
  · rfl
  · exact HashMap.size_insert_of_mem (HashMap.mem_iff_lookup.mpr ⟨peer, known⟩) _

theorem mem_connectedPeers {pm : PeerManager D} {order : HashOrder UInt8}
    {target : UInt8 × SocketAddr} : target ∈ pm.connectedPeers order ↔
      ∃ k peer, pm.getPeer k = some peer ∧ peer.state = .connected ∧
        target = (peer.id, peer.addr) := by
  simp only [connectedPeers, List.mem_map, List.mem_filter, HashMap.mem_values,
    RemotePeer.isConnected, decide_eq_true_eq]
  constructor
  · rintro ⟨peer, ⟨⟨k, known⟩, connected⟩, rfl⟩
    exact ⟨k, peer, known, connected, rfl⟩
  · rintro ⟨k, peer, known, connected, rfl⟩
    exact ⟨peer, ⟨⟨k, known⟩, connected⟩, rfl⟩

/-- A change of an entry that leaves it where it is, and as connected as it is, changes
nothing about who is connected. -/
theorem connectedPeers_modifyPeer (pm : PeerManager D) (id : UInt8)
    {f : RemotePeer D → RemotePeer D}
    (stays : ∀ peer, (f peer).id = peer.id ∧ (f peer).addr = peer.addr ∧
      (f peer).state = peer.state) (order : HashOrder UInt8) :
    (pm.modifyPeer id f).connectedPeers order = pm.connectedPeers order := by
  have keys : (pm.peers.modify id f).keys = pm.peers.keys := HashMap.keys_mapWithKey ..
  unfold connectedPeers HashMap.values
  change List.map _ (List.filter _ (List.filterMap (pm.peers.modify id f).lookup
    (order.1 (pm.peers.modify id f).keys))) = _
  rw [keys, List.filter_filterMap, List.filter_filterMap, List.map_filterMap, List.map_filterMap]
  refine List.filterMap_congr fun k _ => ?_
  rw [HashMap.lookup_modify]
  split_ifs
  · cases pm.peers.lookup k with
    | none => rfl
    | some peer =>
      obtain ⟨same, addr, state⟩ := stays peer
      have connected : (f peer).isConnected = peer.isConnected := by
        rw [RemotePeer.isConnected, RemotePeer.isConnected, state]
      rw [Option.map_some, Option.filter_some, Option.filter_some, connected]
      cases peer.isConnected with
      | false => rfl
      | true => exact congrArg some (Prod.ext same addr)
  · rfl

/-- **What `addPeer` does when it succeeds.** The node itself is never added; a
new peer joins the table with its address; a known one only changes its
address. -/
theorem addPeer_eq_ok {pm pm' : PeerManager D} {id : UInt8} {addr : SocketAddr}
    {newDecoder : Option D} {now : Instant} (added : pm.addPeer id addr newDecoder now = .ok pm') :
    pm'.localId = pm.localId ∧ pm'.sessionId = pm.sessionId ∧ pm'.isHost = pm.isHost ∧
      pm'.nextPeerId = pm.nextPeerId ∧
      (id = pm.localId ∧ pm' = pm ∨
        id ≠ pm.localId ∧ pm.peers.size < maxPeers - 1 ∧
          ((pm.getPeer id = none ∧ ∃ decoder, newDecoder = some decoder ∧
              pm'.peers = pm.peers.insert id (RemotePeer.new id addr decoder now)) ∨
            ∃ peer, pm.getPeer id = some peer ∧
              (peer.addr = addr ∧ pm' = pm ∨
                peer.addr ≠ addr ∧
                  pm'.peers = pm.peers.insert id { peer with addr := addr }))) := by
  unfold addPeer at added
  split_ifs at added with self full
  · cases added
    exact ⟨rfl, rfl, rfl, rfl, Or.inl ⟨self, rfl⟩⟩
  · have room : pm.peers.size < maxPeers - 1 := Nat.lt_of_not_le full
    split at added
    · rename_i absent
      cases newDecoder with
      | none => cases added
      | some decoder =>
          cases added
          exact ⟨rfl, rfl, rfl, rfl, Or.inr ⟨self, room, Or.inl ⟨absent, decoder, rfl, rfl⟩⟩⟩
    · rename_i peer known
      cases added
      unfold moveAddr
      split_ifs with same
      · exact ⟨rfl, rfl, rfl, rfl, Or.inr ⟨self, room, Or.inr ⟨peer, known, Or.inl ⟨same, rfl⟩⟩⟩⟩
      · exact ⟨rfl, rfl, rfl, rfl, Or.inr ⟨self, room, Or.inr ⟨peer, known, Or.inr ⟨same, rfl⟩⟩⟩⟩

/-- The table after a peer was added: under its id an entry with the address, which
keeps what it was before, and all else as it was. -/
theorem getPeer_addPeer {pm pm' : PeerManager D} {id : UInt8} {addr : SocketAddr}
    {newDecoder : Option D} {now : Instant} (added : pm.addPeer id addr newDecoder now = .ok pm')
    (remote : id ≠ pm.localId) :
    ∃ peer, (∀ k, pm'.getPeer k = if k = id then some peer else pm.getPeer k) ∧
      (pm.getPeer id = none ∧ (∃ decoder, peer = RemotePeer.new id addr decoder now) ∨
        ∃ old, pm.getPeer id = some old ∧ peer = { old with addr := addr }) := by
  obtain ⟨_, _, _, _, ⟨self, _⟩ | ⟨_, _, ⟨unknown, decoder, _, table⟩ |
    ⟨old, known, ⟨here, rfl⟩ | ⟨_, table⟩⟩⟩⟩ := addPeer_eq_ok added
  · exact absurd self remote
  · refine ⟨RemotePeer.new id addr decoder now, fun k => ?_, Or.inl ⟨unknown, decoder, rfl⟩⟩
    rw [getPeer, table, HashMap.lookup_insert]
    rfl
  · refine ⟨old, fun k => ?_, Or.inr ⟨old, known, by rw [← here]⟩⟩
    split_ifs with same
    · rw [same, known]
    · rfl
  · refine ⟨{ old with addr := addr }, fun k => ?_, Or.inr ⟨old, known, rfl⟩⟩
    rw [getPeer, table, HashMap.lookup_insert]
    rfl

/-- The node itself is never added. -/
theorem addPeer_self {pm pm' : PeerManager D} {id : UInt8} {addr : SocketAddr}
    {newDecoder : Option D} {now : Instant} (added : pm.addPeer id addr newDecoder now = .ok pm')
    (self : id = pm.localId) : pm' = pm := by
  unfold addPeer at added
  rw [if_pos self] at added
  cases added
  rfl

/-- Adding a peer leaves the other entries alone. -/
theorem getPeer_addPeer_of_ne {pm pm' : PeerManager D} {id k : UInt8} {addr : SocketAddr}
    {newDecoder : Option D} {now : Instant} (added : pm.addPeer id addr newDecoder now = .ok pm')
    (different : k ≠ id) : pm'.getPeer k = pm.getPeer k := by
  by_cases self : id = pm.localId
  · rw [addPeer_self added self]
  · obtain ⟨_, table, _⟩ := getPeer_addPeer added self
    rw [table, if_neg different]

/-- An unknown peer is added when there is room and a decoder. -/
theorem addPeer_of_room (pm : PeerManager D) {id : UInt8} (remote : id ≠ pm.localId)
    (room : pm.peers.size < maxPeers - 1) (unknown : pm.getPeer id = none) (addr : SocketAddr)
    (decoder : D) (now : Instant) :
    ∃ pm', pm.addPeer id addr (some decoder) now = .ok pm' ∧
      pm'.peers.size = pm.peers.size + 1 ∧
      ∀ k, pm'.getPeer k =
        if k = id then some (RemotePeer.new id addr decoder now) else pm.getPeer k := by
  have absent : id ∉ pm.peers := fun member => by
    obtain ⟨old, known⟩ := HashMap.mem_iff_lookup.mp member
    cases unknown.symm.trans known
  refine ⟨{ pm with
    peers := pm.peers.insert id (RemotePeer.new id addr decoder now)
    addrToId := pm.addrToId.insert addr id }, ?_, HashMap.size_insert_of_notMem absent _,
    fun k => HashMap.lookup_insert ..⟩
  unfold getPeer at unknown
  rw [addPeer, if_neg remote, if_neg (Nat.not_le.mpr room), unknown]

/-- A known peer is added again when there is room: it moves. -/
theorem addPeer_of_known {pm : PeerManager D} {id : UInt8} {peer : RemotePeer D}
    (known : pm.getPeer id = some peer) (remote : id ≠ pm.localId)
    (room : pm.peers.size < maxPeers - 1) (addr : SocketAddr) (newDecoder : Option D)
    (now : Instant) : pm.addPeer id addr newDecoder now = .ok (pm.moveAddr id peer addr) := by
  unfold getPeer at known
  unfold addPeer
  rw [if_neg remote, if_neg (Nat.not_le.mpr room), known]

theorem addPeer_full {pm : PeerManager D} {id : UInt8} (remote : id ≠ pm.localId)
    (full : maxPeers - 1 ≤ pm.peers.size) (addr : SocketAddr) (newDecoder : Option D)
    (now : Instant) : pm.addPeer id addr newDecoder now = .error .maxPeersReached := by
  unfold addPeer
  rw [if_neg remote, if_pos full]

/-- An unknown peer is not added when there is no room or no decoder. -/
theorem addPeer_refused {pm : PeerManager D} {id : UInt8} (remote : id ≠ pm.localId)
    (unknown : pm.getPeer id = none) {newDecoder : Option D}
    (stops : maxPeers - 1 ≤ pm.peers.size ∨ newDecoder = none) (addr : SocketAddr)
    (now : Instant) : ∃ e, pm.addPeer id addr newDecoder now = .error e := by
  by_cases full : maxPeers - 1 ≤ pm.peers.size
  · exact ⟨_, addPeer_full remote full ..⟩
  · unfold getPeer at unknown
    unfold addPeer
    rw [if_neg remote, if_neg full, unknown, stops.resolve_left full]
    exact ⟨_, rfl⟩

/-- Adding a peer does not go beyond the room there is. -/
theorem size_addPeer_le {pm pm' : PeerManager D} {id : UInt8} {addr : SocketAddr}
    {newDecoder : Option D} {now : Instant} (added : pm.addPeer id addr newDecoder now = .ok pm')
    (bounded : pm.peers.size ≤ maxPeers - 1) : pm'.peers.size ≤ maxPeers - 1 := by
  obtain ⟨_, _, _, _, ⟨_, rfl⟩ | ⟨_, room, ⟨unknown, decoder, _, table⟩ |
    ⟨old, known, ⟨_, rfl⟩ | ⟨_, table⟩⟩⟩⟩ := addPeer_eq_ok added
  · exact bounded
  · have absent : id ∉ pm.peers := fun member => by
      obtain ⟨old, known⟩ := HashMap.mem_iff_lookup.mp member
      cases unknown.symm.trans known
    rw [table, HashMap.size_insert_of_notMem absent]
    exact room
  · exact bounded
  · have member : id ∈ pm.peers := HashMap.mem_iff_lookup.mpr ⟨old, known⟩
    rw [table, HashMap.size_insert_of_mem member]
    exact bounded

/-- What `allocatePeerId` does when it succeeds. -/
theorem allocatePeerId_eq_ok {pm pm' : PeerManager D} {id : UInt8}
    (allocated : pm.allocatePeerId = .ok (id, pm')) :
    pm.isHost = true ∧ id = pm.nextPeerId ∧ pm.nextPeerId.toNat < maxPeers ∧
      pm' = { pm with nextPeerId := pm.nextPeerId + 1 } := by
  unfold allocatePeerId at allocated
  split_ifs at allocated with guest exhausted
  cases allocated
  exact ⟨by simpa using guest, rfl, Nat.lt_of_not_le exhausted, rfl⟩

theorem nextPeerId_succ_toNat {id : UInt8} (left : id.toNat < maxPeers) :
    (id + 1).toNat = id.toNat + 1 := by
  have : maxPeers = 5 := rfl
  rw [UInt8.toNat_add]
  simp only [UInt8.reduceToNat]
  omega

/-- A host with ids left gives out the next one. -/
theorem allocatePeerId_of_left {pm : PeerManager D} (isHost : pm.isHost = true)
    (left : pm.nextPeerId.toNat < maxPeers) :
    pm.allocatePeerId = .ok (pm.nextPeerId, { pm with nextPeerId := pm.nextPeerId + 1 }) := by
  unfold allocatePeerId
  rw [if_neg (by rw [isHost]; decide), if_neg (Nat.not_le.mpr left)]

end PeerManager

end VoiceChat
