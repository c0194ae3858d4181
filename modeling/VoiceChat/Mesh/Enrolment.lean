import VoiceChat.Mesh.Agreement
import VoiceChat.Session.Arrivals
import VoiceChat.Session.Join

/-!
# Who is on the roll

An id belongs to the host or to whoever has the address that it was granted to
(`Owns`). In every state of a call the host knows its peers at the addresses of the
grants and lists them there, every entry anywhere is under an id that belongs to
somebody, and a joiner knows the host only once it has handled a peer list
(`Enrolled.step`).
-/

set_option autoImplicit false

namespace VoiceChat

/-- With an id left, a JOIN that opens is granted one. -/
theorem Node.newGrants_of_join {D : Type} {prim : Primitives D} {node : Node D} (env : Env D)
    {data : Bytes} (srcAddr : SocketAddr) (opening : node.OpensJoin prim data)
    (isHost : node.peerMgr.isHost = true) (left : node.peerMgr.nextPeerId.toNat < maxPeers) :
    newGrants node (step prim node env (.recv data srcAddr)).1 (.recv data srcAddr) =
      [(srcAddr, node.peerMgr.nextPeerId)] := by
  have uses : (step prim node env (.recv data srcAddr)).1.peerMgr.nextPeerId =
      node.peerMgr.nextPeerId + 1 := handleIncoming_join_uses opening isHost left
  refine if_neg fun same => ?_
  have moved := PeerManager.nextPeerId_succ_toNat left
  rw [← uses, same] at moved
  exact Nat.succ_ne_self _ moved.symm

namespace Call

variable {J D : Type} (call : Call J)

/-- The id is the one of the host, or was granted to the address of the member. -/
def Owns (grants : List (SocketAddr × UInt8)) (q : Member J) (k : UInt8) : Prop :=
  q = .host ∧ k = 0 ∨ (call.addr q, k) ∈ grants

/-- What the host knows and lists, and whose ids the entries are under. -/
structure Enrolled (mesh : Mesh J D) : Prop where
  hosted : ∀ k peer, (mesh.net.node .host).getPeer k = some peer → (peer.addr, k) ∈ mesh.grants
  /-- A peer list is sent by the host, with everybody at the address of the grant. -/
  peerLists : ∀ q, ∀ e ∈ mesh.net.sent q, e.header.pktType = pktPeerList →
    q = .host ∧ e.header.peerId = 0 ∧ ∃ list : PeerListPayload, e.plaintext = list.toBytes ∧
      list.peers.length ≤ 255 ∧
        ∀ entry ∈ list.peers, entry.1 = 0 ∨ (entry.2, entry.1) ∈ mesh.grants
  owned : ∀ j k peer, (mesh.net.node (.joiner j)).getPeer k = some peer →
    ∃ q, call.Owns mesh.grants q k
  unlisted : ∀ j, .joiner j ∉ mesh.listed → (mesh.net.node (.joiner j)).getPeer 0 = none

variable {call} {prim : Primitives D}

theorem Owns.mono {grants grants' : List (SocketAddr × UInt8)} {q : Member J} {k : UInt8}
    (owns : call.Owns grants q k) (more : ∀ grant ∈ grants, grant ∈ grants') :
    call.Owns grants' q k := owns.imp_right (more _)

/-- An id belongs to one member only. -/
theorem Sound.owner_unique {mesh : Mesh J D} (sound : call.Sound prim mesh) {q q' : Member J}
    {k : UInt8} (owns : call.Owns mesh.grants q k) (owns' : call.Owns mesh.grants q' k) :
    q = q' := by
  rcases owns with ⟨rfl, rfl⟩ | granted
  · rcases owns' with ⟨rfl, _⟩ | granted'
    · rfl
    · exact absurd granted' (sound.hosting.zero_notMem _)
  · rcases owns' with ⟨rfl, rfl⟩ | granted'
    · exact absurd granted (sound.hosting.zero_notMem _)
    · exact call.distinct (sound.hosting.unique granted granted')

/-- An id that belongs to somebody is small. -/
theorem Sound.owned_lt {mesh : Mesh J D} (sound : call.Sound prim mesh) {q : Member J} {k : UInt8}
    (owns : call.Owns mesh.grants q k) : k.toNat < maxPeers := by
  rcases owns with ⟨_, rfl⟩ | granted
  · decide
  · exact Nat.lt_of_le_of_lt (sound.hosting.bounds granted).2 sound.hosting.few

/-- A HELLO comes under an id of its sender. -/
theorem Sound.hello {mesh : Mesh J D} (sound : call.Sound prim mesh) {q : Member J} {e : Emission}
    (sent : e ∈ mesh.net.sent q) {packet : Packet} (parsed : Packet.parse e.wire = .ok packet)
    (type : packet.header.pktType = pktHello) :
    (call.addr q, packet.header.peerId) ∈ mesh.grants := by
  rw [sound.header sent parsed] at type ⊢
  exact (sound.record q).hellos e sent type

/-- **A peer list comes from the host**, and names the host and those with a grant, at
the addresses that peer lists give for them. -/
theorem Enrolled.listing {mesh : Mesh J D} (enrolled : call.Enrolled mesh)
    (sound : call.Sound prim mesh) (correct : prim.aead.Correct) {q : Member J} {e : Emission}
    (sent : e ∈ mesh.net.sent q) {j : J} {packet : Packet}
    (parsed : Packet.parse e.wire = .ok packet)
    (type : packet.header.pktType = pktPeerList) {myId : UInt8} {list : PeerListPayload}
    (opened : (mesh.net.node (.joiner j)).openPeerList prim packet = .ok (myId, list)) :
    q = .host ∧ packet.header.peerId = 0 ∧ ∀ k addr, (k, addr) ∈ list.peers → k ≤ myId ∧
      (k = 0 ∨ ∃ i, (call.addr (.joiner i), k) ∈ mesh.grants ∧
        addr = (call.addr (.joiner i)).listed) := by
  rw [sound.header sent parsed] at type ⊢
  obtain ⟨rfl, sender, list', plaintext, short, entries⟩ := enrolled.peerLists q e sent type
  obtain ⟨sealedWith, _⟩ := (sound.record .host).peerLists e sent type
  obtain ⟨packet', parsed', _, decrypted'⟩ := sealedWith.opens
    ((mesh.net.node (.joiner j)).pskCtx zeroSession) correct (sound.joined j).key rfl
  cases parsed.symm.trans parsed'
  obtain ⟨_, decrypted, read, largest⟩ := Node.openPeerList_eq_ok opened
  cases decrypted.symm.trans decrypted'
  rw [plaintext, PeerListPayload.fromBytes_toBytes list' short] at read
  cases read
  refine ⟨rfl, sender, fun k addr listed => ⟨?_, ?_⟩⟩
  · exact (Node.maxId_eq_some.mp largest).2 k (List.mem_map_of_mem listed)
  · obtain ⟨⟨k', granted⟩, inside, same⟩ := List.mem_map.mp listed
    cases same
    refine (entries _ inside).imp_right fun known => ?_
    obtain ⟨i, rfl⟩ := sound.addrs _ known
    exact ⟨i, known, rfl⟩

/-- What makes an entry for a joiner belongs to somebody; and under zero it is a peer
list. -/
theorem Enrolled.of_enters {mesh : Mesh J D} (enrolled : call.Enrolled mesh)
    (sound : call.Sound prim mesh) (correct : prim.aead.Correct) {j : J} {q : Member J}
    {e : Emission} (sent : e ∈ mesh.net.sent q) {packet : Packet}
    (parsed : Packet.parse e.wire = .ok packet) {k : UInt8} {addr srcAddr : SocketAddr}
    (enters : Node.Enters prim (mesh.net.node (.joiner j)) srcAddr packet k addr) :
    (∃ r, call.Owns mesh.grants r k) ∧
      (k = 0 → ∃ identity, (mesh.net.node (.joiner j)).adopts prim e.wire = some identity) := by
  cases enters with
  | join type opened allocated => exact absurd allocated sound.guest_allocates_none
  | hello type opened unknown =>
      have granted := sound.hello sent parsed type
      refine ⟨⟨q, Or.inr granted⟩, fun zero => ?_⟩
      rw [zero] at granted
      exact absurd granted (sound.hosting.zero_notMem _)
  | listed type opened inside other =>
      refine ⟨?_, fun _ => ?_⟩
      · obtain ⟨_, _, names⟩ := enrolled.listing sound correct sent parsed type opened
        rcases (names _ _ inside).2 with rfl | ⟨i, known, _⟩
        · exact ⟨.host, Or.inl ⟨rfl, rfl⟩⟩
        · exact ⟨.joiner i, Or.inr known⟩
      · exact ⟨_, Node.adopts_of_opened parsed type opened⟩

/-! ## Steps -/

section Steps

variable [DecidableEq J]

/-- What a step grants is larger than what was granted before. -/
theorem Sound.later {mesh : Mesh J D} (sound : call.Sound prim mesh) (p : Member J) (env : Env D)
    (action : Action) {addr : SocketAddr} {k : UInt8}
    (granted : (addr, k) ∈ ((call.machine prim).step mesh (p, env, action)).1.grants) :
    (addr, k) ∈ mesh.grants ∨ p = .host ∧ mesh.grants.length < k.toNat := by
  rcases grants_of_step mesh p env granted with old | ⟨rfl, event, _, new⟩
  · exact Or.inl old
  · unfold Node.newGrants at new
    split at new
    · split_ifs at new
      · cases new
      · cases List.mem_singleton.mp new
        refine Or.inr ⟨rfl, ?_⟩
        rw [sound.hosting.next]
        exact Nat.lt_succ_self _
    · cases new

/-- The host knows its peers at the addresses of the grants. -/
theorem Enrolled.hosted_step {mesh : Mesh J D} (enrolled : call.Enrolled mesh)
    (sound : call.Sound prim mesh) (correct : prim.aead.Correct) {env : Env D}
    {event : Node.Event} (hears : call.Hears mesh .host event) {k : UInt8} {peer : RemotePeer D}
    (known : ((mesh.net.node .host).step prim env event).1.getPeer k = some peer) :
    (peer.addr, k) ∈ ((call.machine prim).step mesh (.host, env, .event event)).1.grants := by
  rcases Node.entry_of_step known with
    ⟨old, before, there⟩ | ⟨data, srcAddr, packet, rfl, parsed, enters⟩
  · exact there ▸ mem_step_grants mesh _ env (enrolled.hosted k old before) _
  · obtain ⟨q, e, sent, rfl, dst, rfl⟩ := hears data srcAddr rfl
    generalize peer.addr = addr at enters
    cases enters with
    | join type opened allocated =>
        obtain ⟨isHost, rfl, left, _⟩ := PeerManager.allocatePeerId_eq_ok allocated
        have grant := Node.newGrants_of_join env (call.addr q) ⟨_, _, parsed, type, opened⟩ isHost
          left
        rw [step_grants, step_node_self]
        refine List.mem_append_right _ ?_
        rw [grantsOf, grant]
        exact List.mem_singleton_self _
    | hello type opened unknown =>
        exact mem_step_grants mesh _ env (sound.hello sent parsed type) _
    | listed type opened inside other =>
        have adopted := Node.adopts_of_opened parsed type opened
        rw [sound.host_adopts correct sent dst] at adopted
        cases adopted

/-- The host lists its peers at the addresses of the grants. -/
theorem Enrolled.peerList_sent {mesh : Mesh J D} (enrolled : call.Enrolled mesh)
    (sound : call.Sound prim mesh) (correct : prim.aead.Correct) {env : Env D}
    {event : Node.Event} (delivers : call.Delivers mesh (.host, env, .event event)) {e : Emission}
    (sent : e ∈ ((mesh.net.node .host).step prim env event).2)
    (type : e.header.pktType = pktPeerList) :
    e.header.peerId = 0 ∧ ∃ list : PeerListPayload, e.plaintext = list.toBytes ∧
      list.peers.length ≤ 255 ∧ ∀ entry ∈ list.peers, entry.1 = 0 ∨ (entry.2, entry.1) ∈
        ((call.machine prim).step mesh (.host, env, .event event)).1.grants := by
  have admits := (sound.step correct delivers).hosting
  rw [step_node_self] at admits
  obtain ⟨data, srcAddr, packet, rfl, parsed, join, answer⟩ :=
    (Node.emits_of_step sent).of_peerList type
  obtain ⟨_, header, _, id, _, entered, hostAddr, _, _, after, plaintext⟩ :=
    Node.mem_handleJoin_out answer
  generalize entered.modifyPeer id (·.connect env.now) = table at after plaintext
  have now : ((mesh.net.node .host).step prim env (.recv data srcAddr)).1 =
      { mesh.net.node .host with peerMgr := table } := by
    change (Node.handleIncoming prim _ env data srcAddr).node = _
    rw [Node.handleIncoming_eq prim parsed, Node.handlePacket_join prim join, after]
  rw [now] at admits
  refine ⟨by rw [header, sound.hosting.localId], _, plaintext,
    (admits.length_buildPeerList hostAddr env.order).trans (by decide), fun entry inside => ?_⟩
  rcases List.mem_cons.mp inside with rfl | inside
  · exact Or.inl admits.localId
  · obtain ⟨peer, member, rfl⟩ := List.mem_map.mp inside
    obtain ⟨k, known⟩ := HashMap.mem_values.mp member
    have hears : call.Hears mesh .host (.recv data srcAddr) := by
      rintro _ _ ⟨⟩
      exact delivers
    refine Or.inr ?_
    rw [(admits.table k peer known).1]
    refine enrolled.hosted_step sound correct hears ?_
    rw [now]
    exact known

/-- **Every step keeps the roll.** -/
theorem Enrolled.step {mesh : Mesh J D} (enrolled : call.Enrolled mesh)
    (sound : call.Sound prim mesh) (correct : prim.aead.Correct)
    {input : Member J × Env D × Action} (delivers : call.Delivers mesh input) :
    call.Enrolled ((call.machine prim).step mesh input).1 := by
  obtain ⟨p, env, action⟩ := input
  have hears : ∀ event, action = .event event → call.Hears mesh p event := by
    rintro _ rfl data srcAddr rfl
    exact delivers
  have more : ∀ grant ∈ mesh.grants,
      grant ∈ ((call.machine prim).step mesh (p, env, action)).1.grants :=
    fun grant granted => mem_step_grants mesh p env granted action
  refine ⟨fun k peer known => ?_, fun q e member type => ?_, fun j k peer known => ?_,
    fun j absent => ?_⟩
  · by_cases steps : p = .host ∧ ∃ event, action = .event event
    · obtain ⟨rfl, event, rfl⟩ := steps
      rw [step_node_self] at known
      exact enrolled.hosted_step sound correct (hears event rfl) known
    · rw [step_node_of_idle mesh p env steps] at known
      exact more _ (enrolled.hosted k peer known)
  · rcases sent_of_step mesh p env member with
      old | ⟨rfl, ⟨listenPort, _, header, _⟩ | ⟨event, rfl, new⟩⟩
    · obtain ⟨host, sender, list, plaintext, short, entries⟩ := enrolled.peerLists q e old type
      exact ⟨host, sender, list, plaintext, short, fun entry inside =>
        (entries entry inside).imp_right (more _)⟩
    · exact absurd type (Emission.type_ne header (by decide))
    · cases q with
      | host => exact ⟨rfl, enrolled.peerList_sent sound correct delivers new type⟩
      | joiner j =>
          obtain ⟨_, _, _, _, _, _, answer⟩ := (Node.emits_of_step new).of_peerList type
          obtain ⟨_, _, _, _, _, _, _, allocated, _⟩ := Node.mem_handleJoin_out answer
          exact absurd allocated sound.guest_allocates_none
  · by_cases steps : p = .joiner j ∧ ∃ event, action = .event event
    · obtain ⟨rfl, event, rfl⟩ := steps
      rw [step_node_self] at known
      rw [step_grants_joiner]
      rcases Node.entry_of_step known with
        ⟨old, before, _⟩ | ⟨data, srcAddr, packet, rfl, parsed, enters⟩
      · exact enrolled.owned j k old before
      · obtain ⟨q, e, sent, rfl, _, rfl⟩ := hears _ rfl data srcAddr rfl
        exact (enrolled.of_enters sound correct sent parsed enters).1
    · rw [step_node_of_idle mesh p env steps] at known
      obtain ⟨q, owns⟩ := enrolled.owned j k peer known
      exact ⟨q, owns.mono more⟩
  · have before : .joiner j ∉ mesh.listed := fun member =>
      absent ((mem_step_listed mesh p env).mpr (Or.inl member))
    by_cases steps : p = .joiner j ∧ ∃ event, action = .event event
    · obtain ⟨rfl, event, rfl⟩ := steps
      rw [step_node_self]
      refine Option.eq_none_iff_forall_ne_some.mpr fun peer known => ?_
      rcases Node.entry_of_step known with
        ⟨old, known', _⟩ | ⟨data, srcAddr, packet, rfl, parsed, enters⟩
      · rw [enrolled.unlisted j before] at known'
        cases known'
      · obtain ⟨q, e, sent, rfl, _, rfl⟩ := hears _ rfl data srcAddr rfl
        refine absent ((mem_step_listed mesh _ env).mpr (Or.inr ⟨rfl, ?_⟩))
        rw [lists, Option.isSome_iff_exists]
        exact (enrolled.of_enters sound correct sent parsed enters).2 rfl
    · rw [step_node_of_idle mesh p env steps]
      exact enrolled.unlisted j before

end Steps

theorem enrolled_start : call.Enrolled (call.start : Mesh J D) where
  hosted _ _ known := nomatch known
  peerLists _ _ member := absurd member List.not_mem_nil
  owned _ _ _ known := nomatch known
  unlisted _ _ := rfl

end Call

end VoiceChat
