import VoiceChat.Session.Answers
import VoiceChat.Session.Join

/-!
# Room for newcomers

A host gives out its four ids in order and takes none of them back: a member that
times out keeps its entry and its id. So whether a JOIN is let in does not depend
on how many members are connected. In every state that a host comes to while its
group is honest, it lets a JOIN in exactly when it has an id left that it has never
given out (`welcomes_iff`); after four members have come and gone it lets nobody in
(`vacancies_not_filled`).
-/

set_option autoImplicit false

namespace VoiceChat

namespace Node

variable {D : Type} {prim : Primitives D}

/-- The JOIN is let in: its sender is entered, connected, at its address, under an
id that no connected peer has, and the peer list is sent to it. -/
def Welcomes (prim : Primitives D) (node : Node D) (env : Env D) (data : Bytes)
    (srcAddr : SocketAddr) : Prop :=
  ∃ id peer e, ¬ node.Connected id ∧
    (handleIncoming prim node env data srcAddr).node.getPeer id = some peer ∧
    peer.addr = srcAddr ∧ peer.state = .connected ∧
    (handleIncoming prim node env data srcAddr).out = [e] ∧
    e.header.pktType = pktPeerList ∧ e.dst = srcAddr

/-- What an honest group sends its host: no peer list opens there, and a HELLO that
opens comes under an id that the host has given out. -/
structure Hosts (prim : Primitives D) (node : Node D) (input : Env D × Event) : Prop where
  unlisted : ∀ data srcAddr, input.2 = .recv data srcAddr → node.adopts prim data = none
  greeted : ∀ data srcAddr packet plaintext, input.2 = .recv data srcAddr →
    Packet.parse data = .ok packet → packet.header.pktType = pktHello →
    opens prim (node.pskCtx node.peerMgr.sessionId) packet = .ok plaintext →
    1 ≤ packet.header.peerId.toNat ∧ packet.header.peerId.toNat < node.peerMgr.nextPeerId.toNat

namespace Admits

variable {grants : List (SocketAddr × UInt8)} {node : Node D}

/-- Every id up to the next one was granted. -/
theorem granted_of_lt (admits : Admits grants node) {id : UInt8} (first : 1 ≤ id.toNat)
    (given : id.toNat < node.peerMgr.nextPeerId.toNat) : ∃ addr, (addr, id) ∈ grants := by
  have member : id.toNat ∈ grants.map fun grant => grant.2.toNat := by
    rw [admits.ids, List.mem_range'_1]
    rw [admits.next] at given
    omega
  obtain ⟨⟨addr, id'⟩, inside, same⟩ := List.mem_map.mp member
  obtain rfl := UInt8.toNat_inj.mp same
  exact ⟨addr, inside⟩

/-- The next id is free, and so is a place in the table. -/
theorem vacant (admits : Admits grants node) (left : node.peerMgr.nextPeerId.toNat < maxPeers) :
    node.getPeer node.peerMgr.nextPeerId = none ∧ node.peerMgr.peers.size < maxPeers - 1 ∧
      node.peerMgr.nextPeerId ≠ node.peerMgr.localId := by
  have next := admits.next
  refine ⟨Option.eq_none_iff_forall_ne_some.mpr fun peer known => ?_, ?_, fun same => ?_⟩
  · obtain ⟨_, addr, granted⟩ := admits.table _ peer known
    have bound := (admits.bounds granted).2
    omega
  · have size := admits.size_le
    omega
  · rw [same, admits.localId] at next
    cases next

/-- **A host goes on handing out ids** in every step of an honest group. -/
theorem hosts_step (admits : Admits grants node) {input : Env D × Event}
    (hosts : Hosts prim node input) :
    ∃ grants', Admits grants' (Node.step prim node input.1 input.2).1 := by
  obtain ⟨env, event⟩ := input
  by_cases unopened : ∃ data srcAddr packet e, event = .recv data srcAddr ∧
      Packet.parse data = .ok packet ∧ packet.header.pktType = pktHello ∧
      opens prim (node.pskCtx node.peerMgr.sessionId) packet = .error e
  · obtain ⟨data, srcAddr, packet, e, rfl, parsed, hello, refused⟩ := unopened
    refine ⟨grants, ?_⟩
    change Admits grants (handleIncoming prim node env data srcAddr).node
    rw [handleIncoming_eq prim parsed, handlePacket_hello prim hello, handleHello, refused]
    exact admits
  · refine ⟨_, admits.step env hosts.unlisted fun data srcAddr packet received parsed hello => ?_⟩
    cases opened : opens prim (node.pskCtx node.peerMgr.sessionId) packet with
    | error e => exact absurd ⟨data, srcAddr, packet, e, received, parsed, hello, opened⟩ unopened
    | ok plaintext =>
      obtain ⟨first, given⟩ := hosts.greeted data srcAddr packet plaintext received parsed hello
        opened
      exact admits.granted_of_lt first given

theorem of_host (key : Key) (sessionId : SessionId) (keyExchange : KeyExchange) :
    Admits [] (host key sessionId keyExchange : Node D) where
  isHost := rfl
  localId := rfl
  ids := rfl
  next := rfl
  few := by decide
  table _ _ known := by cases known

end Admits

/-- Without an id, nobody is let in. -/
theorem not_welcomes_of_exhausted {node : Node D} {env : Env D} {data : Bytes}
    {srcAddr : SocketAddr} (opening : node.OpensJoin prim data)
    (exhausted : maxPeers ≤ node.peerMgr.nextPeerId.toNat) :
    ¬ Welcomes prim node env data srcAddr := by
  rintro ⟨_, _, e, _, _, _, _, sent, _⟩
  obtain ⟨packet, payload, parsed, join, opened⟩ := opening
  rw [handleIncoming_eq prim parsed, handlePacket_join prim join] at sent
  have member : e ∈ (handleJoin prim node env srcAddr packet).out :=
    sent ▸ List.mem_singleton_self e
  obtain ⟨_, _, _, id, peerMgr, _, _, allocated, _⟩ := mem_handleJoin_out member
  obtain ⟨_, _, left, _⟩ := PeerManager.allocatePeerId_eq_ok allocated
  exact absurd left (Nat.not_lt.mpr exhausted)

/-- **When a host lets a newcomer in.** In every state that a host comes to in an
honest group, a JOIN that opens is let in exactly when fewer than four ids were
ever given out, no matter who is connected. -/
theorem welcomes_iff (seals : prim.aead.Seals maxPacketLen) (key : Key) (sessionId : SessionId)
    (keyExchange : KeyExchange) (inputs : List (Env D × Event))
    (hosts : (nodeMachine prim).Along (Hosts prim) (host key sessionId keyExchange) inputs)
    {env : Env D} (works : env.Works) {srcAddr hostAddr : SocketAddr}
    (listed : listedAddr env srcAddr = .ok hostAddr) {data : Bytes}
    (opening : ((nodeMachine prim).run (host key sessionId keyExchange) inputs).OpensJoin prim
      data) :
    Welcomes prim ((nodeMachine prim).run (host key sessionId keyExchange) inputs) env data srcAddr ↔
      ((nodeMachine prim).run (host key sessionId keyExchange) inputs).peerMgr.nextPeerId.toNat <
        maxPeers := by
  have admitted : ∃ grants, Admits grants
      ((nodeMachine prim).run (host key sessionId keyExchange) inputs) :=
    Machine.invariant (M := nodeMachine prim) (fun node => ∃ grants, Admits grants node)
      (fun _ _ ⟨_, admits⟩ honest => admits.hosts_step honest) ⟨[], .of_host ..⟩ hosts
  generalize (nodeMachine prim).run (host key sessionId keyExchange) inputs = node at *
  obtain ⟨grants, admits⟩ := admitted
  constructor
  · intro welcomes
    refine Nat.lt_of_not_le fun exhausted => ?_
    exact not_welcomes_of_exhausted opening exhausted welcomes
  · intro left
    obtain ⟨unknown, room, remote⟩ := admits.vacant left
    obtain ⟨packet, payload, parsed, join, opened⟩ := opening
    obtain ⟨peerMgr, e, peer, answered, carries, _, _, _, _, table, _, addr, state⟩ :=
      handleJoin_answers seals works listed admits.isHost opened left remote room unknown
    refine ⟨node.peerMgr.nextPeerId, peer, e, ?_, ?_, addr, state, ?_, carries.type, carries.dst⟩
    · rintro ⟨peer', known, _⟩
      cases unknown.symm.trans known
    · rw [handleIncoming_eq prim parsed, handlePacket_join prim join, answered]
      exact (table _).trans (if_pos rfl)
    · rw [handleIncoming_eq prim parsed, handlePacket_join prim join, answered]
      rfl

/-! ## A host to compute with -/

/-- A timer is no business of the group. -/
theorem hosts_of_timer {node : Node D} {env : Env D} {event : Event}
    (timer : ∀ data srcAddr, event ≠ .recv data srcAddr) : Hosts prim node (env, event) :=
  ⟨fun data srcAddr received => absurd received (timer data srcAddr),
    fun data srcAddr _ _ received => absurd received (timer data srcAddr)⟩

/-- So is a JOIN. -/
theorem hosts_of_join {node : Node D} {env : Env D} {data : Bytes} {srcAddr : SocketAddr}
    {packet : Packet} (parsed : Packet.parse data = .ok packet)
    (join : packet.header.pktType = pktJoin) : Hosts prim node (env, .recv data srcAddr) where
  unlisted data' srcAddr' received := by
    cases received
    rw [adopts, parsed]
    exact if_neg (by rw [join]; decide)
  greeted data' srcAddr' packet' plaintext received parsed' hello := by
    cases received
    cases parsed.symm.trans parsed'
    rw [join] at hello
    exact absurd hello (by decide)

/-- Members join, and time out together. -/
def comeAndGone (members : List UInt8) : List (Env Unit × Event) :=
  Sample.joins members ++ [(Sample.env 0 (peerTimeout + 1), .keepalive)]

theorem comeAndGone_hosts (members : List UInt8) : (nodeMachine Primitives.transparent).Along
    (Hosts Primitives.transparent) Sample.host (comeAndGone members) := by
  obtain ⟨packet, parsed, join⟩ : ∃ packet, Packet.parse Sample.join = .ok packet ∧
      packet.header.pktType = pktJoin := ⟨_, rfl, by decide⟩
  refine Machine.along_of_forall fun node input member => ?_
  rcases List.mem_append.mp member with joins | timer
  · obtain ⟨n, _, rfl⟩ := List.mem_map.mp joins
    exact hosts_of_join parsed join
  · rw [List.mem_singleton.mp timer]
    exact hosts_of_timer fun _ _ received => by cases received

theorem comeAndGone_opens (members : List UInt8) (key : ((nodeMachine Primitives.transparent).run
    Sample.host (comeAndGone members)).key = Sample.psk) :
    ((nodeMachine Primitives.transparent).run Sample.host (comeAndGone members)).OpensJoin
      Primitives.transparent Sample.join :=
  OpensJoin.congr (show Sample.host.OpensJoin Primitives.transparent Sample.join from
    ⟨_, _, rfl, rfl, rfl⟩) key

/-- When three members have come and gone, the next newcomer is let in. -/
theorem newcomer_welcomed : Welcomes Primitives.transparent
    ((nodeMachine Primitives.transparent).run Sample.host (comeAndGone [1, 2, 3]))
    (Sample.env 0 (peerTimeout + 2)) Sample.join (Sample.addr 5) :=
  (welcomes_iff (Aead.transparent_seals maxPacketLen) Sample.psk Sample.session
    ⟨Vector.replicate 32 3⟩ (comeAndGone [1, 2, 3]) (comeAndGone_hosts [1, 2, 3])
    ⟨⟨(), rfl⟩, fun _ => rfl⟩
    (rfl : listedAddr (Sample.env 0 (peerTimeout + 2)) (Sample.addr 5) = .ok (Sample.addr 0))
    (comeAndGone_opens [1, 2, 3] (by decide +kernel))).mpr (by decide +kernel)

/-- **Vacancies are not filled**: when four members have come and gone, nobody is
connected, and still a fifth is refused. -/
theorem vacancies_not_filled :
    ¬ ∀ (inputs : List (Env Unit × Event)) (env : Env Unit) (data : Bytes)
      (srcAddr hostAddr : SocketAddr),
      (nodeMachine Primitives.transparent).Along (Hosts Primitives.transparent) Sample.host
        inputs →
      env.Works → listedAddr env srcAddr = .ok hostAddr →
      (((nodeMachine Primitives.transparent).run Sample.host inputs).peerMgr.connectedPeers
        env.order).length < maxPeers - 1 →
      ((nodeMachine Primitives.transparent).run Sample.host inputs).OpensJoin
        Primitives.transparent data →
      (∀ id peer, ((nodeMachine Primitives.transparent).run Sample.host inputs).getPeer id =
        some peer → peer.addr ≠ srcAddr) →
      Welcomes Primitives.transparent ((nodeMachine Primitives.transparent).run Sample.host inputs)
        env data srcAddr := by
  intro claim
  have opening := comeAndGone_opens [1, 2, 3, 4] (by decide +kernel)
  refine not_welcomes_of_exhausted opening ?_ (claim (comeAndGone [1, 2, 3, 4])
    (Sample.env 0 (peerTimeout + 2)) Sample.join (Sample.addr 5) (Sample.addr 0)
    (comeAndGone_hosts [1, 2, 3, 4])
    ⟨⟨(), rfl⟩, fun _ => rfl⟩ ?_ ?_ opening ?_)
  · decide +kernel
  · decide +kernel
  · decide +kernel
  · intro id peer known
    have elsewhere : ∀ addr ∈ (((nodeMachine Primitives.transparent).run Sample.host
        (comeAndGone [1, 2, 3, 4])).peerMgr.peers.values (HashOrder.stored UInt8)).map RemotePeer.addr,
        addr ≠ Sample.addr 5 := by
      decide +kernel
    exact elsewhere _ (List.mem_map_of_mem (HashMap.mem_values.mpr ⟨id, known⟩))

end Node

end VoiceChat
