import VoiceChat.Mesh

/-!
# Agreement on ids

A joiner is never told its id: it takes the largest one of the peer list that
answers its JOIN. `ids_agree` shows that this is an id the host has granted to its
address, whatever the network loses, duplicates, delays and reorders, and that no
two members ever have the same one.
-/

set_option autoImplicit false

namespace VoiceChat

namespace Call

variable {J D : Type} (prim : Primitives D) (call : Call J)

/-- What holds of everything a member has sent. -/
structure Record (grants : List (SocketAddr × UInt8)) (q : Member J) (sent : List Emission) :
    Prop where
  sealedWith : ∀ e ∈ sent, ∃ ctx, e.SealedWith prim.aead ctx
  joins : ∀ e ∈ sent, e.header.pktType = pktJoin → q ≠ .host
  /-- A peer list goes to the address to which its largest id was granted. -/
  peerLists : ∀ e ∈ sent, e.header.pktType = pktPeerList →
    e.SealedWith prim.aead (CryptoContext.new call.key zeroSession) ∧
      ∃ (id : UInt8) (list : PeerListPayload), (e.dst, id) ∈ grants ∧
        e.plaintext = list.toBytes ∧ list.peers.length ≤ 255 ∧ Node.maxId list.peers = some id
  hellos : ∀ e ∈ sent, e.header.pktType = pktHello → (call.addr q, e.header.peerId) ∈ grants

/-- What holds of a joiner: it has no id, or one that was granted to its address. -/
structure Joined (mesh : Mesh J D) (j : J) : Prop where
  guest : (mesh.net.node (.joiner j)).peerMgr.isHost = false
  key : (mesh.net.node (.joiner j)).key = call.key
  unlisted : .joiner j ∉ mesh.listed → (mesh.net.node (.joiner j)).peerMgr.localId = 0
  listed : .joiner j ∈ mesh.listed →
    (call.addr (.joiner j), (mesh.net.node (.joiner j)).peerMgr.localId) ∈ mesh.grants

/-- What holds of the whole call. -/
structure Sound (mesh : Mesh J D) : Prop where
  hosting : (mesh.net.node .host).Admits mesh.grants
  key : (mesh.net.node .host).key = call.key
  addrs : ∀ grant ∈ mesh.grants, ∃ j, grant.1 = call.addr (.joiner j)
  joined : ∀ j, call.Joined mesh j
  record : ∀ q, call.Record prim mesh.grants q (mesh.net.sent q)

variable {prim call}

theorem Record.mono {grants grants' : List (SocketAddr × UInt8)} {q : Member J}
    {sent : List Emission} (record : call.Record prim grants q sent)
    (more : ∀ grant ∈ grants, grant ∈ grants') : call.Record prim grants' q sent where
  sealedWith := record.sealedWith
  joins := record.joins
  peerLists e member type := by
    obtain ⟨sealedWith, id, list, granted, rest⟩ := record.peerLists e member type
    exact ⟨sealedWith, id, list, more _ granted, rest⟩
  hellos e member type := more _ (record.hellos e member type)

theorem Record.append {grants : List (SocketAddr × UInt8)} {q : Member J}
    {sent sent' : List Emission} (record : call.Record prim grants q sent)
    (record' : call.Record prim grants q sent') : call.Record prim grants q (sent ++ sent') where
  sealedWith e member :=
    (List.mem_append.mp member).elim (record.sealedWith e) (record'.sealedWith e)
  joins e member := (List.mem_append.mp member).elim (record.joins e) (record'.joins e)
  peerLists e member := (List.mem_append.mp member).elim (record.peerLists e) (record'.peerLists e)
  hellos e member := (List.mem_append.mp member).elim (record.hellos e) (record'.hellos e)

/-! ## What a received datagram can be -/

section Received

variable {mesh : Mesh J D} {q : Member J} {e : Emission} {packet : Packet}

/-- The packet has the header with which the datagram was sent. -/
theorem Sound.header (sound : call.Sound prim mesh) (member : e ∈ mesh.net.sent q)
    (parsed : Packet.parse e.wire = .ok packet) : packet.header = e.header := by
  obtain ⟨_, sealedWith⟩ := (sound.record q).sealedWith e member
  exact sealedWith.header_of_parse parsed

/-- **A peer list gives the id that was granted to the address it was sent to.** -/
theorem Sound.adopts (sound : call.Sound prim mesh) (correct : prim.aead.Correct)
    (member : e ∈ mesh.net.sent q) {node : Node D} (key : node.key = call.key) {id : UInt8}
    {sessionId : SessionId} (adopted : node.adopts prim e.wire = some (id, sessionId)) :
    (e.dst, id) ∈ mesh.grants := by
  have type : e.header.pktType = pktPeerList := by
    have adopted' := adopted
    unfold Node.adopts at adopted'
    split at adopted'
    · cases adopted'
    · rename_i packet parsed
      rw [← sound.header member parsed]
      by_contra other
      rw [if_neg other] at adopted'
      cases adopted'
  obtain ⟨sealedWith, id', list, granted, plaintext, short, largest⟩ :=
    (sound.record q).peerLists e member type
  have resealed : e.SealedWith prim.aead (node.pskCtx zeroSession) := sealedWith.congr key rfl
  have read : node.adopts prim e.wire = some (id', list.sessionId) :=
    Node.adopts_of_sealed correct resealed type plaintext short largest rfl
  cases adopted.symm.trans read
  exact granted

/-- The host never gets a peer list. -/
theorem Sound.host_adopts (sound : call.Sound prim mesh) (correct : prim.aead.Correct)
    (member : e ∈ mesh.net.sent q) (dst : e.dst = call.addr .host) :
    (mesh.net.node .host).adopts prim e.wire = none := by
  refine Option.eq_none_iff_forall_ne_some.mpr fun ⟨id, sessionId⟩ adopted => ?_
  obtain ⟨j, same⟩ := sound.addrs _ (sound.adopts correct member sound.key adopted)
  rw [dst] at same
  cases call.distinct same

/-- A joiner lets nobody in. -/
theorem Sound.guest_allocates_none (sound : call.Sound prim mesh) {j : J} {id : UInt8}
    {peerMgr : PeerManager D} :
    (mesh.net.node (.joiner j)).peerMgr.allocatePeerId ≠ .ok (id, peerMgr) := by
  intro allocated
  have isHost := (PeerManager.allocatePeerId_eq_ok allocated).1
  rw [(sound.joined j).guest] at isHost
  cases isHost

/-- What is received was sent to the member. -/
def Hears (mesh : Mesh J D) (p : Member J) (event : Node.Event) : Prop :=
  ∀ data srcAddr, event = .recv data srcAddr → ∃ q, ∃ e ∈ mesh.net.sent q, data = e.wire ∧
    e.dst = call.addr p ∧ srcAddr = call.addr q

/-- The host hears no peer list. -/
theorem Sound.host_unlisted (sound : call.Sound prim mesh)
    (correct : prim.aead.Correct) {event : Node.Event} (hears : call.Hears mesh .host event) :
    ∀ data srcAddr, event = .recv data srcAddr →
      (mesh.net.node .host).adopts prim data = none := by
  intro data srcAddr received
  obtain ⟨q, e, member, rfl, dst, _⟩ := hears data srcAddr received
  exact sound.host_adopts correct member dst

/-- Whoever the host lets in is a joiner. -/
theorem Sound.newGrants (sound : call.Sound prim mesh)
    (correct : prim.aead.Correct) (env : Env D) {event : Node.Event}
    (hears : call.Hears mesh .host event) {grant : SocketAddr × UInt8}
    (new : grant ∈ (mesh.net.node .host).newGrants
      ((mesh.net.node .host).step prim env event).1 event) :
    ∃ j, grant.1 = call.addr (.joiner j) := by
  cases event with
  | recv data srcAddr =>
      unfold Node.newGrants at new
      split_ifs at new with same
      · cases new
      · obtain rfl := List.mem_singleton.mp new
        obtain ⟨q, e, sent, rfl, dst, rfl⟩ := hears data srcAddr rfl
        cases q with
        | joiner j => exact ⟨j, rfl⟩
        | host =>
            refine absurd (Node.handleIncoming_nextPeerId env (call.addr .host)
              (sound.host_adopts correct sent dst) fun packet parsed type => ?_) same
            rw [sound.header sent parsed] at type
            exact (sound.record .host).joins e sent type rfl
  | _ => cases new

end Received

/-! ## Steps -/

variable [DecidableEq J]

/-- The member that moves adds to its own record. -/
theorem Sound.record_step {mesh : Mesh J D} (sound : call.Sound prim mesh) {p : Member J}
    {env : Env D} {action : Action}
    (new : call.Record prim ((call.machine prim).step mesh (p, env, action)).1.grants p
      ((memberMachine prim (call.addr .host)).step (mesh.net.node p) (env, action)).2)
    (q : Member J) : call.Record prim ((call.machine prim).step mesh (p, env, action)).1.grants q
      (((call.machine prim).step mesh (p, env, action)).1.net.sent q) := by
  have before : call.Record prim ((call.machine prim).step mesh (p, env, action)).1.grants q
      (mesh.net.sent q) :=
    (sound.record q).mono fun grant granted => mem_step_grants mesh p env granted action
  by_cases same : q = p
  · subst same
    have sent := Network.step_sent_self (memberMachine prim (call.addr .host)) mesh.net q
      (env, action)
    exact sent ▸ before.append new
  · have sent := Network.step_sent_of_ne (memberMachine prim (call.addr .host)) mesh.net same
      (env, action)
    exact sent ▸ before

/-- A joiner that takes no step is what it was. -/
theorem Joined.of_idle {mesh : Mesh J D} {j : J} (joined : call.Joined mesh j) {p : Member J}
    {env : Env D} {action : Action} (idle : ¬ (p = .joiner j ∧ ∃ event, action = .event event)) :
    call.Joined ((call.machine prim).step mesh (p, env, action)).1 j := by
  have node : ((call.machine prim).step mesh (p, env, action)).1.net.node (.joiner j) =
      mesh.net.node (.joiner j) := step_node_of_idle mesh p env idle
  refine ⟨node ▸ joined.guest, node ▸ joined.key, ?_, ?_⟩
  · rw [node, mem_step_listed_of_idle mesh p env idle]
    exact joined.unlisted
  · rw [node, mem_step_listed_of_idle mesh p env idle]
    exact fun member => mem_step_grants mesh p env (joined.listed member) action

/-- A joiner that takes a step adopts no id but one of its own. -/
theorem Joined.step {mesh : Mesh J D} {j : J} (joined : call.Joined mesh j) (env : Env D)
    {event : Node.Event}
    (adopted : ∀ data srcAddr, event = .recv data srcAddr → ∀ id sessionId,
      (mesh.net.node (.joiner j)).adopts prim data = some (id, sessionId) →
      (call.addr (.joiner j), id) ∈ mesh.grants) :
    call.Joined ((call.machine prim).step mesh (.joiner j, env, .event event)).1 j := by
  have node : ((call.machine prim).step mesh (.joiner j, env, .event event)).1.net.node
      (.joiner j) = ((mesh.net.node (.joiner j)).step prim env event).1 :=
    step_node_self mesh (.joiner j) env event
  have listed : .joiner j ∈
      ((call.machine prim).step mesh (.joiner j, env, .event event)).1.listed ↔
      .joiner j ∈ mesh.listed ∨ lists prim (mesh.net.node (.joiner j)) (.event event) = true :=
    (mem_step_listed mesh (.joiner j) env).trans (or_congr_right (and_iff_right rfl))
  cases Node.step_identified prim (mesh.net.node (.joiner j)) env event with
  | adopted received opened localId _ isHost key =>
      have lists : lists prim (mesh.net.node (.joiner j)) (.event event) = true := by
        rw [received, Call.lists, opened]
        rfl
      refine ⟨?_, ?_, fun unlisted => absurd (listed.mpr (Or.inr lists)) unlisted, fun _ => ?_⟩
      · rw [node]
        exact isHost.trans joined.guest
      · rw [node]
        exact key.trans joined.key
      · rw [node, step_grants_joiner, localId]
        exact adopted _ _ received _ _ opened
  | kept unlisted keeps =>
      have unlists : ¬ lists prim (mesh.net.node (.joiner j)) (.event event) = true := by
        cases event with
        | recv data srcAddr =>
            rw [Call.lists, unlisted data srcAddr rfl]
            decide
        | _ => exact Bool.false_ne_true
      rw [or_iff_left unlists] at listed
      refine ⟨?_, ?_, ?_, ?_⟩
      · rw [node]
        exact keeps.isHost.trans joined.guest
      · rw [node]
        exact keeps.key.trans joined.key
      · rw [node, listed, keeps.localId]
        exact joined.unlisted
      · rw [node, listed, step_grants_joiner, keeps.localId]
        exact joined.listed

/-- A JOIN is sent. -/
theorem Sound.join_step {mesh : Mesh J D} (sound : call.Sound prim mesh) {p : Member J}
    (guest : p ≠ .host) (env : Env D) (listenPort : UInt16) :
    call.Sound prim ((call.machine prim).step mesh (p, env, .join listenPort)).1 := by
  have node : ∀ q, ((call.machine prim).step mesh (p, env, .join listenPort)).1.net.node q =
      mesh.net.node q := step_node_join mesh p env listenPort
  have grants : ((call.machine prim).step mesh (p, env, .join listenPort)).1.grants =
      mesh.grants := by
    cases p with
    | host => exact absurd rfl guest
    | joiner j => exact step_grants_joiner mesh env j _
  refine ⟨?_, ?_, ?_, fun j => (sound.joined j).of_idle (fun ⟨_, _, same⟩ => nomatch same),
    sound.record_step ⟨?_, ?_, ?_, ?_⟩⟩
  · rw [node, grants]
    exact sound.hosting
  · rw [node]
    exact sound.key
  · rw [grants]
    exact sound.addrs
  · intro e member
    obtain ⟨sealedWith, _⟩ := Node.mem_sendSealed_out member
    exact ⟨_, sealedWith⟩
  · exact fun _ _ _ => guest
  · intro e member type
    obtain ⟨_, _, header, _⟩ := Node.mem_sendSealed_out member
    exact absurd type (Emission.type_ne header (by decide))
  · intro e member type
    obtain ⟨_, _, header, _⟩ := Node.mem_sendSealed_out member
    exact absurd type (Emission.type_ne header (by decide))

/-- The host takes a step. -/
theorem Sound.host_step {mesh : Mesh J D} (sound : call.Sound prim mesh)
    (correct : prim.aead.Correct) (env : Env D) {event : Node.Event}
    (hears : call.Hears mesh .host event) :
    call.Sound prim ((call.machine prim).step mesh (.host, env, .event event)).1 := by
  have unlisted := sound.host_unlisted correct hears
  have greeted : ∀ data srcAddr packet, event = .recv data srcAddr →
      Packet.parse data = .ok packet → packet.header.pktType = pktHello →
      ∃ addr, (addr, packet.header.peerId) ∈ mesh.grants := by
    intro data srcAddr packet received parsed type
    obtain ⟨q, e, member, rfl, _, _⟩ := hears data srcAddr received
    have header := sound.header member parsed
    rw [header] at type ⊢
    exact ⟨_, (sound.record q).hellos e member type⟩
  have host : ((call.machine prim).step mesh (.host, env, .event event)).1.net.node .host =
      ((mesh.net.node .host).step prim env event).1 := step_node_self mesh .host env event
  have grants : ((call.machine prim).step mesh (.host, env, .event event)).1.grants =
      mesh.grants ++ (mesh.net.node .host).newGrants
        ((mesh.net.node .host).step prim env event).1 event :=
    congrArg (fun node' => mesh.grants ++ (mesh.net.node .host).newGrants node' event) host
  refine ⟨?_, ?_, ?_, fun j => (sound.joined j).of_idle (fun ⟨same, _⟩ => nomatch same),
    sound.record_step ⟨?_, ?_, ?_, ?_⟩⟩
  · rw [host, grants]
    exact sound.hosting.step env unlisted greeted
  · rw [host]
    exact (Node.step_keeps env unlisted).key.trans sound.key
  · intro grant member
    rw [grants] at member
    rcases List.mem_append.mp member with old | new
    · exact sound.addrs grant old
    · exact sound.newGrants correct env hears new
  · exact fun e member => (Node.emits_of_step member).sealedWith
  · exact fun e member type => absurd type (Node.emits_of_step member).not_join
  · intro e member type
    obtain ⟨data, srcAddr, packet, rfl, parsed, join, answer⟩ :=
      (Node.emits_of_step member).of_peerList type
    obtain ⟨sealedWith, _, dst, id, list, grant, plaintext, short, largest⟩ :=
      sound.hosting.answer data answer
    refine ⟨sealedWith.congr sound.key.symm rfl, id, list, ?_, plaintext,
      short.trans (by decide), largest⟩
    rw [grants]
    refine List.mem_append_right _ ?_
    change (e.dst, id) ∈ (mesh.net.node .host).newGrants
      ((mesh.net.node .host).handleIncoming prim env data srcAddr).node (.recv data srcAddr)
    rw [Node.handleIncoming_eq prim parsed, Node.handlePacket_join prim join, grant, dst]
    exact List.mem_singleton_self _
  · intro e member type
    obtain ⟨data, srcAddr, _, _, received, adopted, _⟩ :=
      (Node.emits_of_step member).of_hello type
    rw [unlisted data srcAddr received] at adopted
    cases adopted

/-- A joiner takes a step. -/
theorem Sound.joiner_step {mesh : Mesh J D} (sound : call.Sound prim mesh)
    (correct : prim.aead.Correct) (j : J) (env : Env D) {event : Node.Event}
    (hears : call.Hears mesh (.joiner j) event) :
    call.Sound prim ((call.machine prim).step mesh (.joiner j, env, .event event)).1 := by
  have adopted : ∀ data srcAddr, event = .recv data srcAddr → ∀ id sessionId,
      (mesh.net.node (.joiner j)).adopts prim data = some (id, sessionId) →
      (call.addr (.joiner j), id) ∈ mesh.grants := by
    intro data srcAddr received id sessionId adopted
    obtain ⟨q, e, member, rfl, dst, _⟩ := hears data srcAddr received
    rw [← dst]
    exact sound.adopts correct member (sound.joined j).key adopted
  have host : ((call.machine prim).step mesh (.joiner j, env, .event event)).1.net.node .host =
      mesh.net.node .host := step_node_of_ne mesh (.joiner j) env (q := .host) nofun _
  have grants : ((call.machine prim).step mesh (.joiner j, env, .event event)).1.grants =
      mesh.grants := step_grants_joiner mesh env j _
  refine ⟨?_, ?_, ?_, fun k => ?_, sound.record_step ⟨?_, ?_, ?_, ?_⟩⟩
  · rw [host, grants]
    exact sound.hosting
  · rw [host]
    exact sound.key
  · rw [grants]
    exact sound.addrs
  · by_cases same : k = j
    · subst same
      exact (sound.joined k).step env adopted
    · exact (sound.joined k).of_idle fun ⟨alike, _⟩ => same (Member.joiner.inj alike).symm
  · exact fun e member => (Node.emits_of_step member).sealedWith
  · exact fun e member type => absurd type (Node.emits_of_step member).not_join
  · intro e member type
    obtain ⟨data, srcAddr, packet, _, _, _, answer⟩ :=
      (Node.emits_of_step member).of_peerList type
    obtain ⟨_, _, _, id, _, _, _, allocation, _⟩ := Node.mem_handleJoin_out answer
    exact absurd allocation sound.guest_allocates_none
  · intro e member type
    obtain ⟨data, srcAddr, id, sessionId, received, opened, named⟩ :=
      (Node.emits_of_step member).of_hello type
    rw [named, grants]
    exact adopted data srcAddr received id sessionId opened

/-- **What every step preserves.** -/
theorem Sound.step {mesh : Mesh J D} (sound : call.Sound prim mesh) (correct : prim.aead.Correct)
    {input : Member J × Env D × Action} (delivers : call.Delivers mesh input) :
    call.Sound prim ((call.machine prim).step mesh input).1 := by
  obtain ⟨p, env, action⟩ := input
  cases action with
  | join listenPort => exact sound.join_step delivers env listenPort
  | event event =>
      have hears : call.Hears mesh p event := by
        rintro data srcAddr rfl
        exact delivers
      cases p with
      | host => exact sound.host_step correct env hears
      | joiner j => exact sound.joiner_step correct j env hears

omit [DecidableEq J] in
theorem sound_start : call.Sound prim (call.start : Mesh J D) where
  hosting := ⟨rfl, rfl, rfl, rfl, (by decide : 0 < maxPeers), fun _ _ known => nomatch known⟩
  key := rfl
  addrs _ member := absurd member List.not_mem_nil
  joined j := ⟨rfl, rfl, fun _ => rfl, fun member => absurd member List.not_mem_nil⟩
  record q := ⟨fun _ member => absurd member List.not_mem_nil,
    fun _ member => absurd member List.not_mem_nil, fun _ member => absurd member List.not_mem_nil,
    fun _ member => absurd member List.not_mem_nil⟩

/-- **The members agree on their ids.** In every run, the id of a joiner that has
handled a peer list was granted to its address by the host, lies between one and
four, and is neither that of the host nor that of any other joiner. -/
theorem ids_agree (call : Call J) (correct : prim.aead.Correct)
    (inputs : List (Member J × Env D × Action))
    (delivers : (call.machine prim).Along call.Delivers call.start inputs) {mesh : Mesh J D}
    (reached : (call.machine prim).run call.start inputs = mesh) {j : J}
    (listed : .joiner j ∈ mesh.listed) {id : UInt8}
    (own : (mesh.net.node (.joiner j)).peerMgr.localId = id) :
    (call.addr (.joiner j), id) ∈ mesh.grants ∧ 1 ≤ id.toNat ∧ id.toNat ≤ maxPeers - 1 ∧
      (mesh.net.node .host).peerMgr.localId ≠ id ∧
      ∀ k, k ≠ j → (mesh.net.node (.joiner k)).peerMgr.localId ≠ id := by
  have sound : call.Sound prim mesh := reached ▸ Machine.invariant (call.Sound prim)
    (fun _ _ sound delivers => sound.step correct delivers) sound_start delivers
  have granted := (sound.joined j).listed listed
  rw [own] at granted
  obtain ⟨low, high⟩ := sound.hosting.bounds granted
  have positive : id ≠ 0 := by
    rintro rfl
    exact Nat.not_succ_le_zero 0 low
  refine ⟨granted, low, high.trans (Nat.le_sub_one_of_lt sound.hosting.few), ?_, ?_⟩
  · rw [sound.hosting.localId]
    exact positive.symm
  · rintro k different rfl
    by_cases member : .joiner k ∈ mesh.listed
    · have same := sound.hosting.unique granted ((sound.joined k).listed member)
      exact different (Member.joiner.inj (call.distinct same)).symm
    · exact positive ((sound.joined k).unlisted member)

end Call

namespace Sample

/-- The first joiner joins and gets its peer list. -/
def firstJoins : List (Member Bool × Env Unit × Action) :=
  [(.joiner false, env 1 0, .join 5000), (.host, env 0 1, .event (.recv join (addr 1))),
    (.joiner false, env 1 2, .event (.recv (wires hostOfOne.out) (addr 0)))]

end Sample

/-- The first joiner gets the id that was granted to it. -/
theorem Call.first_joiner_agrees :
    (Sample.addr 1, 1) ∈ ((Sample.call.machine Primitives.transparent).run Sample.call.start
        Sample.firstJoins).grants ∧
      (((Sample.call.machine Primitives.transparent).run Sample.call.start
        Sample.firstJoins).net.node (.joiner true)).peerMgr.localId ≠ 1 := by
  have listed : .joiner false ∈ ((Sample.call.machine Primitives.transparent).run
      Sample.call.start Sample.firstJoins).listed := by decide +kernel
  have own : (((Sample.call.machine Primitives.transparent).run Sample.call.start
      Sample.firstJoins).net.node (.joiner false)).peerMgr.localId = 1 := by decide +kernel
  have delivers : (Sample.call.machine Primitives.transparent).Along Sample.call.Delivers
      Sample.call.start Sample.firstJoins := by
    refine ⟨?_, ?_, ?_, trivial⟩
    · exact fun same => nomatch same
    · exact ⟨.joiner false, by decide +kernel⟩
    · exact ⟨.host, by decide +kernel⟩
  obtain ⟨granted, _, _, _, others⟩ := ids_agree Sample.call
    (show Primitives.transparent.aead.Correct from Aead.transparent_correct) Sample.firstJoins
    delivers rfl listed own
  exact ⟨granted, others true (by decide)⟩

end VoiceChat
