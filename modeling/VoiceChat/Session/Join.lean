import VoiceChat.Session.Identity

/-!
# Copies of a JOIN

A host answers every JOIN that opens with a new id, whether or not the address
already has one. So a JOIN which arrives twice lets one joiner in twice, until
the ids are used up. `joinedOnce_iff` says when a datagram that is received again
and again still leaves one entry for its address and uses one id: exactly when
every copy after the first finds no id left.
-/

set_option autoImplicit false

namespace VoiceChat

namespace Node

variable {D : Type} {prim : Primitives D}

/-- The datagram is a JOIN that opens. -/
def OpensJoin (prim : Primitives D) (node : Node D) (data : Bytes) : Prop :=
  ∃ packet payload, Packet.parse data = .ok packet ∧ packet.header.pktType = pktJoin ∧
    openJoin prim node packet = .ok payload

/-- The datagram is a HELLO that opens, from a peer that is not known. -/
def OpensFirstHello (prim : Primitives D) (node : Node D) (data : Bytes) : Prop :=
  ∃ packet plaintext, Packet.parse data = .ok packet ∧ packet.header.pktType = pktHello ∧
    opens prim (node.pskCtx node.peerMgr.sessionId) packet = .ok plaintext ∧
    node.getPeer packet.header.peerId = none

/-- The host lets the sender of a JOIN in, under the next id. -/
def LetsIn (prim : Primitives D) (node : Node D) (env : Env D) (data : Bytes)
    (srcAddr : SocketAddr) : Prop :=
  node.OpensJoin prim data ∧ node.peerMgr.isHost = true ∧
    node.peerMgr.nextPeerId.toNat < maxPeers ∧
    ∃ peer, (handleIncoming prim node env data srcAddr).node.getPeer node.peerMgr.nextPeerId =
      some peer ∧ peer.addr = srcAddr

/-- The step receives the given datagram. -/
def IsCopy (data : Bytes) (srcAddr : SocketAddr) (input : Env D × Event) : Prop :=
  input.2 = .recv data srcAddr

instance (data : Bytes) (srcAddr : SocketAddr) (input : Env D × Event) :
    Decidable (IsCopy data srcAddr input) :=
  inferInstanceAs (Decidable (input.2 = .recv data srcAddr))

/-- The step receives a copy and uses up an id for it. -/
def UsesId (prim : Primitives D) (data : Bytes) (srcAddr : SocketAddr) (node : Node D)
    (input : Env D × Event) : Prop :=
  IsCopy data srcAddr input ∧
    (node.step prim input.1 input.2).1.peerMgr.nextPeerId ≠ node.peerMgr.nextPeerId

instance (data : Bytes) (srcAddr : SocketAddr) (node : Node D) (input : Env D × Event) :
    Decidable (node.UsesId prim data srcAddr input) :=
  inferInstanceAs (Decidable (_ ∧ _))

/-- In a run that starts with a datagram, its copies use one id and its address
ends up with one entry. -/
def JoinedOnce (prim : Primitives D) (node : Node D) (env : Env D) (data : Bytes)
    (srcAddr : SocketAddr) (rest : List (Env D × Event)) : Prop :=
  (nodeMachine prim).count (UsesId prim data srcAddr) node ((env, .recv data srcAddr) :: rest) =
      1 ∧
    ∃! id, ∃ peer,
      ((nodeMachine prim).run node ((env, .recv data srcAddr) :: rest)).getPeer id = some peer ∧
        peer.addr = srcAddr

/-- No id is left for a copy. -/
def FindsNoId (data : Bytes) (srcAddr : SocketAddr) (node : Node D) (input : Env D × Event) :
    Prop :=
  IsCopy data srcAddr input → maxPeers ≤ node.peerMgr.nextPeerId.toNat

/-- Another step gives the address no entry: no peer list opens, and from this
address no JOIN that finds an id and no first HELLO of a peer does. -/
def Quiet (prim : Primitives D) (data : Bytes) (srcAddr : SocketAddr) (node : Node D)
    (input : Env D × Event) : Prop :=
  ¬ IsCopy data srcAddr input → ∀ data' srcAddr', input.2 = .recv data' srcAddr' →
    node.adopts prim data' = none ∧
      (srcAddr' = srcAddr →
        (node.OpensJoin prim data' → maxPeers ≤ node.peerMgr.nextPeerId.toNat) ∧
          ¬ node.OpensFirstHello prim data')

/-! ## What a JOIN does to a host -/

theorem openJoin_congr {node node' : Node D} (key : node'.key = node.key) (packet : Packet) :
    openJoin prim node' packet = openJoin prim node packet := by
  rw [openJoin, openJoin, pskCtx, pskCtx, key]

theorem OpensJoin.congr {node node' : Node D} {data : Bytes} (opening : node.OpensJoin prim data)
    (key : node'.key = node.key) : node'.OpensJoin prim data := by
  obtain ⟨packet, payload, parsed, type, opened⟩ := opening
  exact ⟨packet, payload, parsed, type, (openJoin_congr key packet).trans opened⟩

theorem OpensJoin.adopts {node : Node D} {data : Bytes} (opening : node.OpensJoin prim data) :
    node.adopts prim data = none := by
  obtain ⟨packet, payload, parsed, type, _⟩ := opening
  rw [Node.adopts, parsed]
  dsimp only
  rw [if_neg (by rw [type]; decide)]

/-- With an id left, a JOIN that opens uses it. -/
theorem handleIncoming_join_uses {node : Node D} {env : Env D} {data : Bytes}
    {srcAddr : SocketAddr} (opening : node.OpensJoin prim data)
    (isHost : node.peerMgr.isHost = true) (left : node.peerMgr.nextPeerId.toNat < maxPeers) :
    (handleIncoming prim node env data srcAddr).node.peerMgr.nextPeerId =
      node.peerMgr.nextPeerId + 1 := by
  obtain ⟨packet, payload, parsed, type, opened⟩ := opening
  rw [handleIncoming_eq prim parsed, handlePacket_join prim type]
  unfold handleJoin
  rw [isHost, if_neg (by decide), opened]
  dsimp only
  rw [PeerManager.allocatePeerId_of_left isHost left]
  dsimp only
  split
  · rfl
  · rename_i peerMgr' added
    obtain ⟨_, _, _, nextPeerId, _⟩ := PeerManager.addPeer_eq_ok added
    rw [sendPeerList_node]
    exact nextPeerId

/-- With no id left, a JOIN changes nothing. -/
theorem handleIncoming_join_exhausted {node : Node D} {env : Env D} {data : Bytes}
    {srcAddr : SocketAddr} (opening : node.OpensJoin prim data)
    (none : maxPeers ≤ node.peerMgr.nextPeerId.toNat) :
    (handleIncoming prim node env data srcAddr).node = node := by
  obtain ⟨packet, payload, parsed, type, opened⟩ := opening
  rw [handleIncoming_eq prim parsed, handlePacket_join prim type]
  rcases handleJoin_cases prim node env srcAddr packet with
    ⟨e, refused⟩ | ⟨_, id, peerMgr, _, allocated, _⟩
  · rw [refused]
    rfl
  · obtain ⟨_, _, left, _⟩ := PeerManager.allocatePeerId_eq_ok allocated
    exact absurd none (Nat.not_le.mpr left)

/-- A JOIN leaves the entries under other ids than the next one alone. -/
theorem handleIncoming_join_getPeer {node : Node D} {env : Env D} {data : Bytes}
    {srcAddr : SocketAddr} (opening : node.OpensJoin prim data) {k : UInt8}
    (other : k ≠ node.peerMgr.nextPeerId) :
    (handleIncoming prim node env data srcAddr).node.getPeer k = node.getPeer k := by
  obtain ⟨packet, payload, parsed, type, opened⟩ := opening
  rw [handleIncoming_eq prim parsed, handlePacket_join prim type]
  rcases handleJoin_cases prim node env srcAddr packet with
    ⟨e, refused⟩ | ⟨_, id, peerMgr, _, allocated, ⟨e, full⟩ | ⟨peerMgr', added, answered⟩⟩
  · rw [refused]
    rfl
  · obtain ⟨_, rfl, _, rfl⟩ := PeerManager.allocatePeerId_eq_ok allocated
    rw [full]
    rfl
  · obtain ⟨_, rfl, _, rfl⟩ := PeerManager.allocatePeerId_eq_ok allocated
    rw [answered, sendPeerList_node, getPeer, PeerManager.getPeer_modifyPeer, if_neg other,
      PeerManager.getPeer_addPeer_of_ne added other]
    rfl

/-! ## One entry for an address -/

/-- The address has its one entry, under an id that was given out. -/
structure EnteredOnce (node : Node D) (key : Key) (given : UInt8) (srcAddr : SocketAddr) :
    Prop where
  isHost : node.peerMgr.isHost = true
  key_eq : node.key = key
  older : given.toNat < node.peerMgr.nextPeerId.toNat
  entry : ∃ peer, node.getPeer given = some peer ∧ peer.addr = srcAddr
  only : ∀ id peer, node.getPeer id = some peer → peer.addr = srcAddr → id = given

namespace EnteredOnce

variable {node : Node D} {key : Key} {given : UInt8} {srcAddr : SocketAddr}

theorem existsUnique (once : EnteredOnce node key given srcAddr) :
    ∃! id, ∃ peer, node.getPeer id = some peer ∧ peer.addr = srcAddr :=
  ⟨given, once.entry, fun id ⟨peer, known, here⟩ => once.only id peer known here⟩

/-- Steps that move nobody keep the one entry. -/
theorem of_frame (once : EnteredOnce node key given srcAddr) {node' : Node D}
    (frame : Frame place node node') : EnteredOnce node' key given srcAddr where
  isHost := frame.isHost.trans once.isHost
  key_eq := frame.key.trans once.key_eq
  older := frame.nextPeerId ▸ once.older
  entry := by
    obtain ⟨peer, known, here⟩ := once.entry
    obtain ⟨peer', known', same⟩ := frame.getPeer known
    exact ⟨peer', known', (Prod.ext_iff.mp same).2.trans here⟩
  only id peer' known' here := by
    obtain ⟨peer, known, same⟩ := frame.getPeer_back known'
    exact once.only id peer known ((Prod.ext_iff.mp same).2.symm.trans here)

/-- Letting in somebody else keeps the one entry. -/
theorem of_addPeer (once : EnteredOnce node key given srcAddr) {id : UInt8} {addr : SocketAddr}
    {newDecoder : Option D} {now : Instant} (peerMgr : PeerManager D) {peerMgr' : PeerManager D}
    (isHost : peerMgr.isHost = node.peerMgr.isHost)
    (table : peerMgr.getPeer = node.peerMgr.getPeer)
    (older : given.toNat < peerMgr.nextPeerId.toNat)
    (added : peerMgr.addPeer id addr newDecoder now = .ok peerMgr') (elsewhere : addr ≠ srcAddr)
    (other : id ≠ given) :
    EnteredOnce { node with peerMgr := peerMgr' } key given srcAddr := by
  obtain ⟨_, _, isHost', nextPeerId, _⟩ := PeerManager.addPeer_eq_ok added
  have placed : ∀ k, k ≠ id → peerMgr'.getPeer k = node.peerMgr.getPeer k := by
    intro k different
    rw [PeerManager.getPeer_addPeer_of_ne added different, table]
  have there : ∀ peer, peerMgr'.getPeer id = some peer → peer.addr = srcAddr →
      node.peerMgr.getPeer id = some peer := by
    intro peer known here
    by_cases self : id = peerMgr.localId
    · rwa [PeerManager.addPeer_self added self, table] at known
    · obtain ⟨peer', found, origin⟩ := PeerManager.getPeer_addPeer added self
      rw [found, if_pos rfl] at known
      cases known
      rcases origin with ⟨_, _, rfl⟩ | ⟨_, _, rfl⟩
      · exact absurd here elsewhere
      · exact absurd here elsewhere
  refine ⟨(isHost'.trans isHost).trans once.isHost, once.key_eq, nextPeerId ▸ older, ?_, ?_⟩
  · obtain ⟨peer, known, here⟩ := once.entry
    exact ⟨peer, (placed given other.symm).trans known, here⟩
  · intro k peer known here
    by_cases same : k = id
    · subst same
      exact once.only k peer (there peer known here) here
    · exact once.only k peer ((placed k same).symm.trans known) here

/-- **A quiet step that finds no id for a copy keeps the one entry.** -/
theorem step (once : EnteredOnce node key given srcAddr) {data : Bytes}
    (opening : node.OpensJoin prim data) {input : Env D × Event}
    (quiet : node.Quiet prim data srcAddr input) (exhausted : FindsNoId data srcAddr node input) :
    EnteredOnce (node.step prim input.1 input.2).1 key given srcAddr := by
  obtain ⟨env, event⟩ := input
  by_cases copy : IsCopy data srcAddr (env, event)
  · change event = _ at copy
    subst copy
    rw [Node.step]
    dsimp only
    rw [handleIncoming_join_exhausted opening (exhausted rfl)]
    exact once
  · by_cases moves : ∃ data' srcAddr' packet, event = .recv data' srcAddr' ∧
        Packet.parse data' = .ok packet ∧ MovesPeers packet
    · obtain ⟨data', srcAddr', packet, rfl, parsed, type⟩ := moves
      obtain ⟨unlisted, noEntry⟩ := quiet copy data' srcAddr' rfl
      change EnteredOnce (handleIncoming prim node env data' srcAddr').node key given srcAddr
      rw [handleIncoming_eq prim parsed]
      rcases type with join | peerList | hello
      · rw [handlePacket_join prim join]
        rcases handleJoin_cases prim node env srcAddr' packet with
          ⟨e, refused⟩ | ⟨payload, id, peerMgr, opened, allocated, granted⟩
        · rw [refused]
          exact once
        · obtain ⟨_, rfl, left, rfl⟩ := PeerManager.allocatePeerId_eq_ok allocated
          have older : given.toNat < (node.peerMgr.nextPeerId + 1).toNat := by
            rw [PeerManager.nextPeerId_succ_toNat left]
            exact Nat.lt_succ_of_lt once.older
          have elsewhere : srcAddr' ≠ srcAddr := fun same =>
            absurd ((noEntry same).1 ⟨packet, payload, parsed, join, opened⟩) (Nat.not_le.mpr left)
          rcases granted with ⟨e, full⟩ | ⟨peerMgr', added, answered⟩
          · rw [full]
            exact ⟨once.isHost, once.key_eq, older, once.entry, once.only⟩
          · rw [answered, sendPeerList_node]
            have other : node.peerMgr.nextPeerId ≠ given := fun same =>
              Nat.lt_irrefl _ (same ▸ once.older)
            have entered := once.of_addPeer
              { node.peerMgr with nextPeerId := node.peerMgr.nextPeerId + 1 } rfl rfl older added
              elsewhere other
            exact entered.of_frame (Frame.modifyPeer { node with peerMgr := peerMgr' } _
              fun peer _ => rfl)
      · obtain ⟨e, refused⟩ := handlePeerList_of_unlisted env srcAddr' parsed peerList unlisted
        rw [handlePacket_peerList prim peerList, refused]
        exact once
      · rw [handlePacket_hello prim hello]
        rcases handleHello_cases prim node env srcAddr' packet with
          ⟨e, refused⟩ | ⟨plaintext, peerMgr, opened, greeting, answered⟩
        · rw [refused]
          exact once
        · rw [answered, sendSealed_node]
          have entered : EnteredOnce { node with peerMgr := peerMgr } key given srcAddr := by
            rcases greeted_eq_ok greeting with ⟨_, _, rfl⟩ | ⟨unknown, added⟩
            · exact once
            · have elsewhere : srcAddr' ≠ srcAddr := fun same =>
                (noEntry same).2 ⟨packet, plaintext, parsed, hello, opened, unknown⟩
              have other : packet.header.peerId ≠ given := by
                intro same
                obtain ⟨peer, known, _⟩ := once.entry
                rw [same, known] at unknown
                cases unknown
              exact once.of_addPeer node.peerMgr rfl rfl once.older added elsewhere other
          exact entered.of_frame (Frame.modifyPeer { node with peerMgr := peerMgr } _
            fun peer _ => rfl)
    · refine once.of_frame (step_place fun data' srcAddr' packet received parsed type => ?_)
      exact moves ⟨data', srcAddr', packet, received, parsed, type⟩

end EnteredOnce

/-! ## When a JOIN counts once -/

/-- A step that adopts no identity keeps what makes the copies open. -/
theorem Quiet.keeps {node : Node D} {data : Bytes} {srcAddr : SocketAddr} {input : Env D × Event}
    (quiet : node.Quiet prim data srcAddr input) (opening : node.OpensJoin prim data) :
    Keeps node (node.step prim input.1 input.2).1 := by
  refine step_keeps input.1 fun data' srcAddr' received => ?_
  by_cases copy : IsCopy data srcAddr input
  · rw [IsCopy, received] at copy
    cases copy
    exact opening.adopts
  · exact (quiet copy data' srcAddr' received).1

/-- The first copy uses an id and makes the one entry. -/
theorem LetsIn.enteredOnce {node : Node D} {env : Env D} {data : Bytes} {srcAddr : SocketAddr}
    (letsIn : node.LetsIn prim env data srcAddr)
    (fresh : ∀ id peer, node.getPeer id = some peer → peer.addr = srcAddr →
      id = node.peerMgr.nextPeerId) :
    EnteredOnce (handleIncoming prim node env data srcAddr).node node.key node.peerMgr.nextPeerId
      srcAddr := by
  obtain ⟨opening, isHost, left, entry⟩ := letsIn
  have kept := handleIncoming_keeps env srcAddr opening.adopts
  refine ⟨kept.isHost.trans isHost, kept.key, ?_, entry, fun id peer known here => ?_⟩
  · rw [handleIncoming_join_uses opening isHost left, PeerManager.nextPeerId_succ_toNat left]
    exact Nat.lt_succ_self _
  · by_contra other
    rw [handleIncoming_join_getPeer opening other] at known
    exact other (fresh id peer known here)

theorem usesId_of_left {node : Node D} {data : Bytes} {srcAddr : SocketAddr}
    {input : Env D × Event} (opening : node.OpensJoin prim data)
    (isHost : node.peerMgr.isHost = true) (left : node.peerMgr.nextPeerId.toNat < maxPeers)
    (copy : IsCopy data srcAddr input) : node.UsesId prim data srcAddr input := by
  obtain ⟨env, event⟩ := input
  change event = _ at copy
  subst copy
  refine ⟨rfl, fun same => ?_⟩
  change (handleIncoming prim node env data srcAddr).node.peerMgr.nextPeerId = _ at same
  rw [handleIncoming_join_uses opening isHost left] at same
  have moved := PeerManager.nextPeerId_succ_toNat left
  rw [same] at moved
  omega

theorem not_usesId_of_exhausted {node : Node D} {data : Bytes} {srcAddr : SocketAddr}
    {input : Env D × Event} (opening : node.OpensJoin prim data)
    (exhausted : FindsNoId data srcAddr node input) : ¬ node.UsesId prim data srcAddr input := by
  rintro ⟨copy, moved⟩
  have none := exhausted copy
  obtain ⟨env, event⟩ := input
  change event = _ at copy
  subst copy
  refine moved ?_
  change (handleIncoming prim node env data srcAddr).node.peerMgr.nextPeerId = _
  rw [handleIncoming_join_exhausted opening none]

/-- **When a JOIN counts once.** Let a host let the sender of a JOIN in, whose
address has no entry, and let the steps after it be quiet for this address. Then
the copies of the JOIN use one id and leave one entry exactly when every copy
after the first finds no id left. -/
theorem joinedOnce_iff (node : Node D) (env : Env D) (data : Bytes) (srcAddr : SocketAddr)
    (rest : List (Env D × Event)) (letsIn : node.LetsIn prim env data srcAddr)
    (fresh : ∀ id peer, node.getPeer id = some peer → peer.addr = srcAddr →
      id = node.peerMgr.nextPeerId)
    (quiet : (nodeMachine prim).Along (Quiet prim data srcAddr)
      (handleIncoming prim node env data srcAddr).node rest) :
    JoinedOnce prim node env data srcAddr rest ↔
      (nodeMachine prim).Along (FindsNoId data srcAddr)
        (handleIncoming prim node env data srcAddr).node rest := by
  have once := letsIn.enteredOnce fresh
  obtain ⟨opening, isHost, left, _⟩ := letsIn
  have kept := handleIncoming_keeps env srcAddr opening.adopts
  have opening' := opening.congr kept.key
  have counted : (nodeMachine prim).count (UsesId prim data srcAddr) node
      ((env, .recv data srcAddr) :: rest) = 1 ↔
      (nodeMachine prim).Along (fun node input => ¬ node.UsesId prim data srcAddr input)
        (handleIncoming prim node env data srcAddr).node rest := by
    have copy : IsCopy data srcAddr (env, Event.recv data srcAddr) := rfl
    rw [Machine.count, if_pos (usesId_of_left opening isHost left copy), Nat.add_eq_left,
      Machine.count_eq_zero]
    rfl
  rw [JoinedOnce, counted]
  constructor
  · rintro ⟨useless, _⟩
    refine Machine.along_of_invariant
      (fun node => node.OpensJoin prim data ∧ node.peerMgr.isHost = true) ?_ ?_
      ⟨opening', kept.isHost.trans isHost⟩ (Machine.along_and quiet useless)
    · rintro node input ⟨opening, isHost⟩ ⟨quiet, _⟩
      have kept := quiet.keeps opening
      exact ⟨opening.congr kept.key, kept.isHost.trans isHost⟩
    · rintro node input ⟨opening, isHost⟩ ⟨_, useless⟩ copy
      by_contra left
      exact useless (usesId_of_left opening isHost (Nat.not_le.mp left) copy)
  · intro exhausted
    have admitted := Machine.along_and quiet exhausted
    -- the copies go on to open, and the entry stays the only one
    have preserved : ∀ (node' : Node D) (input : Env D × Event),
        node'.OpensJoin prim data ∧
          EnteredOnce node' node.key node.peerMgr.nextPeerId srcAddr →
        node'.Quiet prim data srcAddr input ∧ FindsNoId data srcAddr node' input →
        ((nodeMachine prim).step node' input).1.OpensJoin prim data ∧
          EnteredOnce ((nodeMachine prim).step node' input).1 node.key node.peerMgr.nextPeerId
            srcAddr := by
      rintro node' input ⟨opening, once⟩ ⟨quiet, exhausted⟩
      exact ⟨opening.congr (quiet.keeps opening).key, once.step opening quiet exhausted⟩
    refine ⟨?_, ?_⟩
    · refine Machine.along_of_invariant (fun node' => node'.OpensJoin prim data ∧
        EnteredOnce node' node.key node.peerMgr.nextPeerId srcAddr) preserved ?_
        ⟨opening', once⟩ admitted
      rintro node' input ⟨opening, _⟩ ⟨_, exhausted⟩
      exact not_usesId_of_exhausted opening exhausted
    · exact (Machine.invariant (fun node' => node'.OpensJoin prim data ∧
        EnteredOnce node' node.key node.peerMgr.nextPeerId srcAddr) preserved
        ⟨opening', once⟩ admitted).2.existsUnique

end Node

namespace Sample

/-- Two copies of a JOIN, and between them a JOIN and a HELLO from elsewhere, the HELLO of its
sender and a keepalive tick. -/
def copies : List (Env Unit × Node.Event) :=
  [(env 0 2, .recv join (addr 2)), (env 0 3, .recv (hello 2) (addr 3)),
    (env 0 4, .recv join (addr 1)), (env 0 5, .recv (hello 4) (addr 1)), (env 0 6, .keepalive),
    (env 0 7, .recv join (addr 1))]

end Sample

namespace Node

/-- The JOIN that gets the last id counts once, however often it comes. -/
theorem joinedOnce_last_id : JoinedOnce Primitives.transparent (Sample.hostOf [2, 3, 4])
    (Sample.env 0 1) Sample.join (Sample.addr 1) Sample.copies := by
  have opening : (Sample.hostOf [2, 3, 4]).OpensJoin Primitives.transparent Sample.join :=
    OpensJoin.congr (show Sample.host.OpensJoin Primitives.transparent Sample.join from
      ⟨_, _, rfl, rfl, rfl⟩) (by decide +kernel)
  have copied : ∀ (node : Node Unit) (now : Env Unit), Quiet Primitives.transparent Sample.join
      (Sample.addr 1) node (now, .recv Sample.join (Sample.addr 1)) := fun _ _ other =>
    absurd rfl other
  have elsewhere : ∀ {node : Node Unit} {now : Env Unit} {data : Bytes} {n : UInt8},
      node.adopts Primitives.transparent data = none → Sample.addr n ≠ Sample.addr 1 →
      Quiet Primitives.transparent Sample.join (Sample.addr 1) node
        (now, .recv data (Sample.addr n)) := by
    rintro node now data n unlisted apart _ _ _ ⟨⟩
    exact ⟨unlisted, fun same => absurd same apart⟩
  have greeted : ∀ {node : Node Unit} {now : Env Unit},
      node.adopts Primitives.transparent (Sample.hello 4) = none →
      maxPeers ≤ node.peerMgr.nextPeerId.toNat → (node.getPeer 4).isSome →
      Quiet Primitives.transparent Sample.join (Sample.addr 1) node
        (now, .recv (Sample.hello 4) (Sample.addr 1)) := by
    rintro node now unlisted exhausted known _ _ _ ⟨⟩
    refine ⟨unlisted, fun _ => ⟨fun _ => exhausted, ?_⟩⟩
    rintro ⟨packet, _, parsed, _, _, unknown⟩
    have sender : (Packet.parse (Sample.hello 4)).toOption.map (fun packet => packet.header.peerId) =
        some 4 := by decide +kernel
    rw [parsed] at sender
    have sender : packet.header.peerId = 4 := Option.some.inj sender
    rw [← sender, unknown] at known
    cases known
  have timed : ∀ (node : Node Unit) (now : Env Unit), Quiet Primitives.transparent Sample.join
      (Sample.addr 1) node (now, .keepalive) := fun _ _ _ _ _ received => by cases received
  refine (joinedOnce_iff (Sample.hostOf [2, 3, 4]) (Sample.env 0 1) Sample.join (Sample.addr 1)
    Sample.copies ⟨opening, by decide +kernel, by decide +kernel, ?_⟩ ?_
    ⟨elsewhere (by decide +kernel) (by decide), elsewhere (by decide +kernel) (by decide),
      copied _ _, greeted (by decide +kernel) (by decide +kernel) (by decide +kernel),
      timed _ _, copied _ _, trivial⟩).mpr ?_
  · have entered : ((handleIncoming Primitives.transparent (Sample.hostOf [2, 3, 4])
        (Sample.env 0 1) Sample.join (Sample.addr 1)).node.getPeer
          (Sample.hostOf [2, 3, 4]).peerMgr.nextPeerId).map RemotePeer.addr =
        some (Sample.addr 1) := by decide +kernel
    exact Option.map_eq_some_iff.mp entered
  · intro id peer known here
    have others : ∀ addr ∈ ((Sample.hostOf [2, 3, 4]).peerMgr.peers.values
        (HashOrder.stored UInt8)).map RemotePeer.addr, addr ≠ Sample.addr 1 := by decide +kernel
    exact absurd here (others _ (List.mem_map_of_mem (HashMap.mem_values.mpr ⟨id, known⟩)))
  · exact ⟨fun _ => by decide +kernel, fun _ => by decide +kernel, fun _ => by decide +kernel,
      fun _ => by decide +kernel, fun _ => by decide +kernel, fun _ => by decide +kernel, trivial⟩

/-- **A JOIN received twice counts twice.** -/
theorem join_not_idempotent :
    ¬ ∀ (node : Node Unit) (env : Env Unit) (data : Bytes) (srcAddr : SocketAddr)
      (rest : List (Env Unit × Event)), node.LetsIn Primitives.transparent env data srcAddr →
      (∀ id peer, node.getPeer id = some peer → peer.addr = srcAddr →
        id = node.peerMgr.nextPeerId) →
      (∀ input ∈ rest, IsCopy data srcAddr input) →
      JoinedOnce Primitives.transparent node env data srcAddr rest := by
  intro claim
  have joined := claim Sample.host (Sample.env 0 0) Sample.join (Sample.addr 1)
    [(Sample.env 0 1, .recv Sample.join (Sample.addr 1))]
    ⟨⟨_, _, rfl, rfl, rfl⟩, rfl, by decide, _, rfl, rfl⟩ (fun _ _ known => nomatch known)
    (by simp [IsCopy])
  exact absurd joined.1 (by decide +kernel)

end Node

end VoiceChat
