import VoiceChat.Session.Admission

/-!
# Answers

What a node does with a packet of the handshake when nothing stands in the way:
the packet opens, the table has room, the codec provides a decoder and the system
takes what is sent. Then a JOIN is answered with the peer list, a peer list with
one HELLO for each of the others, and a HELLO with a HELLO_ACK.
-/

set_option autoImplicit false

namespace VoiceChat

/-- Nothing fails outside the program. -/
structure Env.Works {D : Type} (env : Env D) : Prop where
  decoder : ∃ decoder, env.newDecoder = some decoder
  sends : ∀ n, env.sendOk n = true

/-- The packet is sealed, with this header and payload, for this destination. -/
structure Emission.Carries (aead : Aead) (ctx : CryptoContext) (header : PacketHeader)
    (plaintext : Bytes) (dst : SocketAddr) (e : Emission) : Prop where
  sealedWith : e.SealedWith aead ctx
  header : e.header = header
  plaintext : e.plaintext = plaintext
  dst : e.dst = dst

/-- It opens at whoever has the key and the session. -/
theorem Emission.Carries.opens {D : Type} {prim : Primitives D} {ctx : CryptoContext}
    {header : PacketHeader} {plaintext : Bytes} {dst : SocketAddr} {e : Emission}
    (carries : e.Carries prim.aead ctx header plaintext dst) (ctx' : CryptoContext)
    (correct : prim.aead.Correct) (key : ctx'.key = ctx.key)
    (sessionId : ctx'.sessionId = ctx.sessionId) :
    ∃ packet, Packet.parse e.wire = .ok packet ∧ packet.header = header ∧
      Node.opens prim ctx' packet = .ok plaintext := by
  obtain ⟨packet, parsed, same, opened⟩ := carries.sealedWith.opens ctx' correct key sessionId
  exact ⟨packet, parsed, same.trans carries.header, carries.plaintext ▸ opened⟩

/-- The context matters by its key and session only. -/
theorem Emission.Carries.congr {aead : Aead} {ctx ctx' : CryptoContext} {header : PacketHeader}
    {plaintext : Bytes} {dst : SocketAddr} {e : Emission}
    (carries : e.Carries aead ctx header plaintext dst) (key : ctx'.key = ctx.key)
    (sessionId : ctx'.sessionId = ctx.sessionId) : e.Carries aead ctx' header plaintext dst :=
  ⟨carries.sealedWith.congr key sessionId, carries.header, carries.plaintext, carries.dst⟩

theorem Emission.Carries.type {aead : Aead} {ctx : CryptoContext} {header : PacketHeader}
    {plaintext : Bytes} {dst : SocketAddr} {e : Emission}
    (carries : e.Carries aead ctx header plaintext dst) : e.header.pktType = header.pktType :=
  congrArg PacketHeader.pktType carries.header

/-- The HELLO for an entry of a peer list: to the source of the list for its sender,
and to the listed address for the others. -/
def Emission.Greets (aead : Aead) (ctx : CryptoContext) (myId sender : UInt8)
    (srcAddr : SocketAddr) (entry : UInt8 × SocketAddr) (e : Emission) : Prop :=
  e.Carries aead ctx ⟨pktHello, myId, 0, 0⟩ [] (if entry.1 = sender then srcAddr else entry.2)

/-- Of two lists that go together, each entry of the first has a counterpart. -/
theorem exists_of_forall₂ {α β : Type*} {R : α → β → Prop} {first : List α} {second : List β}
    (together : List.Forall₂ R first second) {a : α} (member : a ∈ first) :
    ∃ b ∈ second, R a b := by
  induction together with
  | nil => cases member
  | cons related _ ih =>
      rcases List.mem_cons.mp member with rfl | later
      · exact ⟨_, List.mem_cons_self, related⟩
      · obtain ⟨b, inside, related'⟩ := ih later
        exact ⟨b, List.mem_cons_of_mem _ inside, related'⟩

/-- A peer list takes at most twenty bytes for each entry. -/
theorem PeerListPayload.length_toBytes_le (payload : PeerListPayload) :
    payload.toBytes.length ≤ 9 + 20 * payload.peers.length := by
  have entries : ∀ peers : List (UInt8 × SocketAddr),
      (peers.flatMap entryBytes).length ≤ 20 * peers.length := by
    intro peers
    induction peers with
    | nil => exact Nat.le_refl 0
    | cons entry rest ih =>
        have entry : (entryBytes entry).length ≤ 20 := by
          obtain ⟨id, _ | _⟩ := entry
          · simp [entryBytes]
          · simp [entryBytes]
        rw [List.flatMap_cons, List.length_append, List.length_cons]
        omega
  have := entries payload.peers
  rw [toBytes, List.length_append, List.length_cons, Vector.length_toList]
  omega

namespace Node

variable {D : Type} {prim : Primitives D}

/-- A peer is in the table. -/
def Knows (node : Node D) (id : UInt8) : Prop := ∃ peer, node.getPeer id = some peer

/-- A peer is in the table and connected. -/
def Connected (node : Node D) (id : UInt8) : Prop :=
  ∃ peer, node.getPeer id = some peer ∧ peer.state = .connected

theorem Connected.knows {node : Node D} {id : UInt8} (connected : node.Connected id) :
    node.Knows id := by
  obtain ⟨peer, known, _⟩ := connected
  exact ⟨peer, known⟩

theorem connected_iff {node : Node D} {id : UInt8} : node.Connected id ↔
    (node.getPeer id).map RemotePeer.state = some .connected := by
  rw [Connected, Option.map_eq_some_iff]

instance (node : Node D) (id : UInt8) : Decidable (node.Connected id) :=
  decidable_of_iff' _ connected_iff

/-- What is known stays known, and what is connected stays connected. -/
structure Gains (node node' : Node D) : Prop where
  knows : ∀ id, node.Knows id → node'.Knows id
  connected : ∀ id, node.Connected id → node'.Connected id

theorem Gains.refl (node : Node D) : Gains node node := ⟨fun _ => id, fun _ => id⟩

/-- Entering a connected peer takes nothing away. -/
theorem Gains.of_connect {node node' : Node D} {id : UInt8} {peer : RemotePeer D}
    (table : ∀ k, node'.getPeer k = if k = id then some peer else node.getPeer k)
    (connected : peer.state = .connected) : Gains node node' := by
  constructor
  · rintro k ⟨other, known⟩
    by_cases same : k = id
    · exact ⟨peer, (table k).trans (if_pos same)⟩
    · exact ⟨other, ((table k).trans (if_neg same)).trans known⟩
  · rintro k ⟨other, known, before⟩
    by_cases same : k = id
    · exact ⟨peer, (table k).trans (if_pos same), connected⟩
    · exact ⟨other, ((table k).trans (if_neg same)).trans known, before⟩

theorem sendSealed_answers (seals : prim.aead.Seals maxPacketLen) {env : Env D} (works : env.Works)
    (node : Node D) (sessionId : SessionId) (pktType peerId : UInt8) {payload : Bytes}
    (short : payload.length ≤ maxPacketLen) (dst : SocketAddr) :
    ∃ e, sendSealed prim node env sessionId pktType peerId payload dst = .done node [e] ∧
      e.Carries prim.aead (node.pskCtx sessionId) ⟨pktType, peerId, 0, 0⟩ payload dst := by
  obtain ⟨e, success⟩ := sealPacket_of_seals seals short .psk (node.pskCtx sessionId)
    ⟨pktType, peerId, 0, 0⟩ dst (env.sendOk 0) peerId 0 0
  obtain ⟨sealedWith, _, header, plaintext, addressed, sent⟩ := sealPacket_eq_ok success
  refine ⟨e, ?_, sealedWith, header, plaintext, addressed⟩
  rw [sendSealed, success]
  exact if_pos (sent.trans (works.sends 0))

/-! ## JOIN -/

/-- **A JOIN is answered with the peer list**, in which the new peer stands, and the
new peer is connected. -/
theorem handleJoin_answers (seals : prim.aead.Seals maxPacketLen) {node : Node D} {env : Env D}
    (works : env.Works) {srcAddr hostAddr : SocketAddr}
    (listed : listedAddr env srcAddr = .ok hostAddr) {packet : Packet} {payload : JoinPayload}
    (isHost : node.peerMgr.isHost = true) (opened : openJoin prim node packet = .ok payload)
    (left : node.peerMgr.nextPeerId.toNat < maxPeers)
    (remote : node.peerMgr.nextPeerId ≠ node.peerMgr.localId)
    (room : node.peerMgr.peers.size < maxPeers - 1)
    (unknown : node.getPeer node.peerMgr.nextPeerId = none) :
    ∃ peerMgr e peer,
      handleJoin prim node env srcAddr packet = .done { node with peerMgr := peerMgr } [e] ∧
      e.Carries prim.aead (node.pskCtx zeroSession) ⟨pktPeerList, node.peerMgr.localId, 0, 0⟩
        (peerMgr.buildPeerList hostAddr env.order).toBytes srcAddr ∧
      peerMgr.localId = node.peerMgr.localId ∧ peerMgr.sessionId = node.peerMgr.sessionId ∧
      peerMgr.isHost = true ∧ peerMgr.nextPeerId = node.peerMgr.nextPeerId + 1 ∧
      (∀ k, peerMgr.getPeer k =
        if k = node.peerMgr.nextPeerId then some peer else node.getPeer k) ∧
      peer.id = node.peerMgr.nextPeerId ∧ peer.addr = srcAddr ∧ peer.state = .connected := by
  obtain ⟨decoder, codec⟩ := works.decoder
  have allocated := PeerManager.allocatePeerId_of_left isHost left
  obtain ⟨entered, added, size, entries⟩ := PeerManager.addPeer_of_room
    { node.peerMgr with nextPeerId := node.peerMgr.nextPeerId + 1 } remote room unknown srcAddr
    decoder env.now
  obtain ⟨localId, sessionId, isHost', next, _⟩ := PeerManager.addPeer_eq_ok added
  have short : ((entered.modifyPeer node.peerMgr.nextPeerId (·.connect env.now)).buildPeerList
      hostAddr env.order).toBytes.length ≤ maxPacketLen := by
    have bytes := ((entered.modifyPeer node.peerMgr.nextPeerId
      (·.connect env.now)).buildPeerList hostAddr env.order).length_toBytes_le
    have values := HashMap.length_values_le
      (entered.modifyPeer node.peerMgr.nextPeerId (·.connect env.now)).peers env.order
    have modified := HashMap.size_modify entered.peers node.peerMgr.nextPeerId (·.connect env.now)
    have entries : ((entered.modifyPeer node.peerMgr.nextPeerId
        (·.connect env.now)).buildPeerList hostAddr env.order).peers.length ≤ maxPeers := by
      rw [PeerManager.buildPeerList, List.length_cons, List.length_map]
      exact Nat.succ_le_of_lt (Nat.lt_of_le_of_lt (values.trans (modified.trans size).le)
        (Nat.succ_lt_succ_iff.mpr room))
    have : maxPeers = 5 := rfl
    have : maxPacketLen = 1200 := rfl
    omega
  obtain ⟨e, answered, carries⟩ := sendSealed_answers seals works
    { node with peerMgr := entered.modifyPeer node.peerMgr.nextPeerId (·.connect env.now) }
    zeroSession pktPeerList entered.localId short srcAddr
  rw [localId] at carries
  refine ⟨_, e, (RemotePeer.new node.peerMgr.nextPeerId srcAddr decoder env.now).connect env.now,
    ?_, carries, localId, sessionId, isHost'.trans isHost, next, fun k => ?_, rfl, rfl, rfl⟩
  · rw [handleJoin, if_neg (by rw [isHost]; decide), opened]
    dsimp only
    rw [allocated]
    dsimp only
    rw [codec, added]
    dsimp only
    rw [sendPeerList, listed]
    exact answered
  · rw [PeerManager.getPeer_modifyPeer, entries]
    split_ifs
    · rfl
    · rfl

/-! ## PEER_LIST -/

/-- **Every other listed peer is entered and greeted**, when all of them are new and
there is room for them. -/
theorem greetPeers_all (seals : prim.aead.Seals maxPacketLen) {env : Env D} (works : env.Works)
    (key : Key) (sessionId : SessionId) (myId sender : UInt8) (srcAddr : SocketAddr)
    (peers : List (UInt8 × SocketAddr)) (peerMgr : PeerManager D) (out : List Emission)
    (localId : peerMgr.localId = myId)
    (distinct : ((peers.filter (·.1 ≠ myId)).map Prod.fst).Nodup)
    (unknown : ∀ entry ∈ peers.filter (·.1 ≠ myId), peerMgr.getPeer entry.1 = none)
    (room : peerMgr.peers.size + (peers.filter (·.1 ≠ myId)).length ≤ maxPeers - 1) :
    ∃ peerMgr' hellos,
      greetPeers prim key env sessionId myId sender srcAddr peers peerMgr out =
        (peerMgr', out ++ hellos, .ok ()) ∧
      List.Forall₂ (Emission.Greets prim.aead (CryptoContext.new key sessionId) myId sender srcAddr)
        (peers.filter (·.1 ≠ myId)) hellos ∧
      ∀ id, (∃ peer, peerMgr'.getPeer id = some peer) ↔
        (∃ peer, peerMgr.getPeer id = some peer) ∨
          id ∈ (peers.filter (·.1 ≠ myId)).map Prod.fst := by
  induction peers generalizing peerMgr out with
  | nil =>
      refine ⟨peerMgr, [], ?_, .nil, fun id => ?_⟩
      · rw [greetPeers, List.append_nil]
      · rw [List.filter_nil, List.map_nil]
        exact (or_iff_left List.not_mem_nil).symm
  | cons entry rest ih =>
      obtain ⟨id, addr⟩ := entry
      by_cases self : id = myId
      · have skipped : ((id, addr) :: rest).filter (·.1 ≠ myId) = rest.filter (·.1 ≠ myId) :=
          List.filter_cons_of_neg (by simpa using self)
        rw [skipped] at distinct unknown room ⊢
        rw [greetPeers, if_pos self]
        exact ih peerMgr out localId distinct unknown room
      · have kept : ((id, addr) :: rest).filter (·.1 ≠ myId) =
            (id, addr) :: rest.filter (·.1 ≠ myId) :=
          List.filter_cons_of_pos (by simpa using self)
        rw [kept] at distinct unknown room ⊢
        rw [List.map_cons, List.nodup_cons] at distinct
        rw [List.length_cons] at room
        obtain ⟨decoder, codec⟩ := works.decoder
        set peerAddr := if id = sender then srcAddr else addr with peerAddr_eq
        have new := unknown (id, addr) List.mem_cons_self
        obtain ⟨entered, added, size, entries⟩ := PeerManager.addPeer_of_room peerMgr
          (by rwa [localId]) (by omega) new peerAddr decoder env.now
        obtain ⟨localId', _⟩ := PeerManager.addPeer_eq_ok added
        set next := entered.modifyPeer id fun peer => { peer with state := .helloSent } with next_eq
        have known : ∀ k, (∃ peer, next.getPeer k = some peer) ↔
            k = id ∨ ∃ peer, peerMgr.getPeer k = some peer := by
          intro k
          rw [next_eq, PeerManager.getPeer_modifyPeer, entries]
          split_ifs with same
          · exact iff_of_true ⟨_, rfl⟩ (Or.inl same)
          · exact (or_iff_right same).symm
        have size' : next.peers.size = peerMgr.peers.size + 1 :=
          (HashMap.size_modify ..).trans size
        have short : ([] : Bytes).length ≤ maxPacketLen := Nat.zero_le _
        obtain ⟨e, success⟩ := sealPacket_of_seals seals short .psk
          (CryptoContext.new key sessionId) ⟨pktHello, myId, 0, 0⟩ peerAddr
          (env.sendOk out.length) myId 0 0
        obtain ⟨sealedWith, _, header, plaintext, addressed, sent⟩ := sealPacket_eq_ok success
        have fresh : ∀ entry ∈ rest.filter (·.1 ≠ myId), next.getPeer entry.1 = none := by
          intro entry member
          refine Option.eq_none_iff_forall_ne_some.mpr fun peer found => ?_
          rcases (known entry.1).mp ⟨peer, found⟩ with same | ⟨old, before⟩
          · have listed : entry.1 ∈ (rest.filter (·.1 ≠ myId)).map Prod.fst :=
              List.mem_map_of_mem member
            exact distinct.1 (same ▸ listed)
          · cases (unknown entry (List.mem_cons_of_mem _ member)).symm.trans before
        obtain ⟨peerMgr', hellos, greeted, greetings, table⟩ := ih next (out ++ [e])
          (localId'.trans localId) distinct.2 fresh (by omega)
        refine ⟨peerMgr', e :: hellos, ?_, .cons ⟨sealedWith, header, plaintext, addressed⟩
          greetings, fun k => ?_⟩
        · rw [greetPeers, if_neg self]
          dsimp only
          rw [codec, added]
          dsimp only
          rw [success]
          dsimp only
          rw [if_pos (sent.trans (works.sends _)), greeted, List.append_assoc]
          rfl
        · rw [table, known, List.map_cons, List.mem_cons]
          exact (or_congr_left or_comm).trans or_assoc

/-- **A peer list is answered with a HELLO for each of the others**, when the table
was empty before. -/
theorem handlePeerList_answers (seals : prim.aead.Seals maxPacketLen) {node : Node D} {env : Env D}
    (works : env.Works) (srcAddr : SocketAddr) {packet : Packet} {myId : UInt8}
    {list : PeerListPayload} (opened : openPeerList prim node packet = .ok (myId, list))
    (empty : node.peerMgr.peers = ∅)
    (distinct : ((list.peers.filter (·.1 ≠ myId)).map Prod.fst).Nodup)
    (room : (list.peers.filter (·.1 ≠ myId)).length ≤ maxPeers - 1) :
    ∃ node' hellos, handlePeerList prim node env srcAddr packet = .done node' hellos ∧
      node'.peerMgr.localId = myId ∧ node'.peerMgr.sessionId = list.sessionId ∧
      node'.key = node.key ∧
      List.Forall₂ (Emission.Greets prim.aead (node.pskCtx list.sessionId) myId
        packet.header.peerId srcAddr) (list.peers.filter (·.1 ≠ myId)) hellos ∧
      ∀ id, node'.Knows id ↔ id ∈ (list.peers.filter (·.1 ≠ myId)).map Prod.fst := by
  have nobody : ∀ id, (node.peerMgr.setIdentity myId list.sessionId).getPeer id = none := by
    intro id
    change node.peerMgr.peers.lookup id = none
    rw [empty]
    rfl
  have size : (node.peerMgr.setIdentity myId list.sessionId).peers.size = 0 := by
    change node.peerMgr.peers.size = 0
    rw [empty]
    rfl
  obtain ⟨peerMgr', hellos, greeted, greetings, table⟩ := greetPeers_all seals works node.key
    list.sessionId myId packet.header.peerId srcAddr list.peers
    (node.peerMgr.setIdentity myId list.sessionId) [] rfl distinct (fun entry _ => nobody entry.1)
    (by omega)
  obtain ⟨localId, sessionId, _⟩ := greetPeers_identity prim node.key env list.sessionId myId
    packet.header.peerId srcAddr list.peers (node.peerMgr.setIdentity myId list.sessionId) []
  rw [greeted] at localId sessionId
  refine ⟨{ node with
    peerMgr := peerMgr'
    cryptoCtx := CryptoContext.new node.key list.sessionId }, hellos, ?_, localId, sessionId, rfl,
    greetings, fun id => ?_⟩
  · rw [handlePeerList, opened]
    dsimp only
    rw [greeted]
    rfl
  · refine (table id).trans (or_iff_right ?_)
    rintro ⟨peer, known⟩
    cases (nobody id).symm.trans known

/-! ## HELLO -/

/-- **A HELLO is answered with a HELLO_ACK**, and its sender is connected. A sender
that is known keeps its entry. -/
theorem handleHello_answers (seals : prim.aead.Seals maxPacketLen) {node : Node D} {env : Env D}
    (works : env.Works) (srcAddr : SocketAddr) {packet : Packet} {plaintext : Bytes}
    (opened : opens prim (node.pskCtx node.peerMgr.sessionId) packet = .ok plaintext)
    (remote : packet.header.peerId ≠ node.peerMgr.localId)
    (room : node.Knows packet.header.peerId ∨ node.peerMgr.peers.size < maxPeers - 1) :
    ∃ peerMgr e peer,
      handleHello prim node env srcAddr packet = .done { node with peerMgr := peerMgr } [e] ∧
      e.Carries prim.aead (node.pskCtx node.peerMgr.sessionId)
        ⟨pktHelloAck, node.peerMgr.localId, 0, 0⟩ [] srcAddr ∧
      peerMgr.localId = node.peerMgr.localId ∧ peerMgr.sessionId = node.peerMgr.sessionId ∧
      peerMgr.isHost = node.peerMgr.isHost ∧ peerMgr.nextPeerId = node.peerMgr.nextPeerId ∧
      (∀ k, peerMgr.getPeer k =
        if k = packet.header.peerId then some (peer.connect env.now) else node.getPeer k) ∧
      ∀ old, node.getPeer packet.header.peerId = some old → peer = old := by
  have greeted : ∃ peerMgr peer, node.greeted env srcAddr packet.header.peerId = .ok peerMgr ∧
      peerMgr.localId = node.peerMgr.localId ∧ peerMgr.sessionId = node.peerMgr.sessionId ∧
      peerMgr.isHost = node.peerMgr.isHost ∧ peerMgr.nextPeerId = node.peerMgr.nextPeerId ∧
      (∀ k, peerMgr.getPeer k =
        if k = packet.header.peerId then some peer else node.getPeer k) ∧
      ∀ old, node.getPeer packet.header.peerId = some old → peer = old := by
    cases before : node.getPeer packet.header.peerId with
    | some old =>
        refine ⟨node.peerMgr, old, ?_, rfl, rfl, rfl, rfl, fun k => ?_,
          fun _ known => Option.some.inj known⟩
        · unfold getPeer at before
          rw [Node.greeted, before]
        · split_ifs with same
          · rw [same]
            exact before
          · rfl
    | none =>
        obtain ⟨decoder, codec⟩ := works.decoder
        have free : node.peerMgr.peers.size < maxPeers - 1 := by
          refine room.resolve_left ?_
          rintro ⟨old, known⟩
          cases before.symm.trans known
        obtain ⟨entered, added, _, entries⟩ := PeerManager.addPeer_of_room node.peerMgr remote free
          before srcAddr decoder env.now
        obtain ⟨localId, sessionId, isHost, next, _⟩ := PeerManager.addPeer_eq_ok added
        refine ⟨entered, _, ?_, localId, sessionId, isHost, next, entries,
          fun _ known => nomatch known⟩
        unfold getPeer at before
        rw [Node.greeted, before, codec, added]
  obtain ⟨peerMgr, peer, greeting, localId, sessionId, isHost, next, table, kept⟩ := greeted
  have short : ([] : Bytes).length ≤ maxPacketLen := Nat.zero_le _
  obtain ⟨e, answered, carries⟩ := sendSealed_answers seals works
    { node with peerMgr := peerMgr.modifyPeer packet.header.peerId (·.connect env.now) }
    peerMgr.sessionId pktHelloAck peerMgr.localId short srcAddr
  refine ⟨peerMgr.modifyPeer packet.header.peerId (·.connect env.now), e, peer, ?_, ?_, localId,
    sessionId, isHost, next, fun k => ?_, kept⟩
  · rw [handleHello, opened]
    dsimp only
    rw [greeting]
    exact answered
  · rwa [localId, sessionId] at carries
  · rw [PeerManager.getPeer_modifyPeer, table]
    split_ifs
    · rfl
    · rfl

/-! ## HELLO_ACK -/

/-- A HELLO_ACK from a known peer connects it. -/
theorem handleHelloAck_answers {node : Node D} (env : Env D) {packet : Packet} {plaintext : Bytes}
    (opened : opens prim (node.pskCtx node.peerMgr.sessionId) packet = .ok plaintext)
    {peer : RemotePeer D} (known : node.getPeer packet.header.peerId = some peer) :
    ∃ peerMgr, handleHelloAck prim node env packet = .done { node with peerMgr := peerMgr } [] ∧
      peerMgr.localId = node.peerMgr.localId ∧ peerMgr.sessionId = node.peerMgr.sessionId ∧
      ∀ k, peerMgr.getPeer k =
        if k = packet.header.peerId then some (peer.connect env.now) else node.getPeer k := by
  refine ⟨node.peerMgr.modifyPeer packet.header.peerId (·.connect env.now), ?_, rfl, rfl,
    fun k => ?_⟩
  · rw [handleHelloAck, opened]
    rfl
  · rw [PeerManager.getPeer_modifyPeer]
    split_ifs with same
    · rw [same]
      exact congrArg _ known
    · rfl

end Node

end VoiceChat
