import VoiceChat.Mesh.Gathering

/-!
# Completing the mesh

When no HELLO overtakes the peer list of its addressee, the call is complete as
soon as nothing is in flight: every member is connected to every other one, under
the id that the other one has (`mesh_completes`).

A HELLO that does overtake it is lost, and no one ever sends it again
(`overtaken_hello_lost`).
-/

set_option autoImplicit false

namespace VoiceChat

namespace Call

variable {J D : Type} [DecidableEq J] {prim : Primitives D} {call : Call J}

/-! ## One delivery -/

/-- A datagram was handed to a member, which has answered. -/
structure Delivered (post post' : Post (Member J) (Node D) Emission) (r : Member J)
    (m : Member J × Emission) (node' : Node D) (out : List Emission) : Prop where
  flying : m ∈ post.inFlight
  node : post'.node r = node'
  others : ∀ q, q ≠ r → post'.node q = post.node q
  inFlight : post'.inFlight = post.inFlight.erase m ++ out.map (Prod.mk r)

/-- What the handling of a datagram does to the call. -/
theorem delivered {post : Post (Member J) (Node D) Emission} {r : Member J}
    {m : Member J × Emission} (flying : m ∈ post.inFlight) {env : Env D} {node' : Node D}
    {out : List Emission} {packet : Packet} (parsed : Packet.parse m.2.wire = .ok packet)
    (answered : Node.handlePacket prim (post.node r) env (call.addr m.1) packet =
      .done node' out) :
    Delivered post ((call.postal prim).step post (r, m, env)).1 r m node' out := by
  have step : (nodeMachine prim).step (post.node r) (env, .recv m.2.wire (call.addr m.1)) =
      (node', out) := by
    change ((Node.handleIncoming prim (post.node r) env m.2.wire (call.addr m.1)).node,
      (Node.handleIncoming prim (post.node r) env m.2.wire (call.addr m.1)).out) = (node', out)
    rw [Node.handleIncoming_eq prim parsed, answered]
    rfl
  refine ⟨flying, ?_, fun q other => ?_, ?_⟩
  · refine (Post.step_node_self ..).trans ?_
    rw [step]
  · exact Post.step_node_of_ne _ _ _ _ _ other
  · refine (Post.step_inFlight ..).trans ?_
    rw [step]

namespace Delivered

variable {post post' : Post (Member J) (Node D) Emission} {r : Member J}
  {m : Member J × Emission} {node' : Node D} {out : List Emission}
  (delivered : Delivered post post' r m node' out)

include delivered

theorem stays {m' : Member J × Emission} (flying : m' ∈ post.inFlight) (other : m' ≠ m) :
    m' ∈ post'.inFlight := by
  rw [delivered.inFlight]
  exact List.mem_append_left _ ((List.mem_erase_of_ne other).mpr flying)

theorem flies {e : Emission} (member : e ∈ out) : (r, e) ∈ post'.inFlight := by
  rw [delivered.inFlight]
  exact List.mem_append_right _ (List.mem_map_of_mem member)

theorem mem {m' : Member J × Emission} (member : m' ∈ post'.inFlight) :
    m' ∈ post.inFlight.erase m ∨ ∃ e ∈ out, m' = (r, e) := by
  rw [delivered.inFlight] at member
  rcases List.mem_append.mp member with old | new
  · exact Or.inl old
  · obtain ⟨e, sent, rfl⟩ := List.mem_map.mp new
    exact Or.inr ⟨e, sent, rfl⟩

theorem gains (gained : Node.Gains (post.node r) node') (q : Member J) :
    Node.Gains (post.node q) (post'.node q) := by
  by_cases same : q = r
  · rw [same, delivered.node]
    exact gained
  · rw [delivered.others q same]
    exact Node.Gains.refl _

/-- What is sent does not open anything. -/
theorem once {j : J} (once : post.inFlight.countP (call.Opening j) ≤ 1)
    (quiet : ∀ e ∈ out, ¬ call.Opening j (r, e)) :
    post'.inFlight.countP (call.Opening j) ≤ 1 := by
  have silent : (out.map (Prod.mk r)).countP (call.Opening j) = 0 := by
    refine List.countP_eq_zero.mpr fun m' member => ?_
    obtain ⟨e, sent, rfl⟩ := List.mem_map.mp member
    exact fun opening => quiet e sent (of_decide_eq_true opening)
  rw [delivered.inFlight, List.countP_append, silent, Nat.add_zero]
  exact (List.erase_sublist.countP_le).trans once

end Delivered

/-- When the one opening datagram of a joiner is taken out, none is left. -/
theorem countP_erase_opening {pool : List (Member J × Emission)} {j : J}
    (once : pool.countP (call.Opening j) ≤ 1) {m : Member J × Emission} (flying : m ∈ pool)
    (opening : call.Opening j m) : (pool.erase m).countP (call.Opening j) = 0 := by
  rw [List.countP_erase, if_pos ⟨flying, decide_eq_true opening⟩]
  omega

omit [DecidableEq J] in
/-- Only a JOIN or a peer list opens. -/
theorem not_opening_of_type {m : Member J × Emission}
    (type : m.2.header.pktType ≠ pktJoin ∧ m.2.header.pktType ≠ pktPeerList) (j : J) :
    ¬ call.Opening j m := by
  rintro (⟨join, _⟩ | ⟨list, _⟩)
  · exact type.1 join
  · exact type.2 list

theorem not_opening_of_mem_erase {pool : List (Member J × Emission)} {j : J}
    (once : pool.countP (call.Opening j) ≤ 1) {m m' : Member J × Emission} (flying : m ∈ pool)
    (opening : call.Opening j m) (member : m' ∈ pool.erase m) : ¬ call.Opening j m' :=
  fun opening' => List.countP_eq_zero.mp (countP_erase_opening once flying opening) m' member
    (decide_eq_true opening')

/-! ## What a delivery keeps -/

/-- The roster has grown, nobody has forgotten anybody, and whoever had an id is in
the session as before. -/
structure Advances (call : Call J) (roster roster' : Roster J)
    (post post' : Post (Member J) (Node D) Emission) : Prop where
  more : roster.Extends roster'
  gains : ∀ q, Node.Gains (post.node q) (post'.node q)
  seated : ∀ q ∈ roster.members, call.Seated roster q (post.node q) →
    call.Seated roster' q (post'.node q)

section Advances

variable {roster roster' : Roster J} {post post' : Post (Member J) (Node D) Emission}
  (advances : call.Advances roster roster' post post')

include advances

theorem Advances.knows {p q : Member J} (on : p ∈ roster.members)
    (knows : (post.node q).Knows (roster.id p)) : (post'.node q).Knows (roster'.id p) := by
  rw [advances.more.id on]
  exact (advances.gains q).knows _ knows

theorem Advances.connected {p q : Member J} (on : p ∈ roster.members)
    (connected : (post.node q).Connected (roster.id p)) :
    (post'.node q).Connected (roster'.id p) := by
  rw [advances.more.id on]
  exact (advances.gains q).connected _ connected

/-- What is in flight stays what it is. -/
theorem Flies.advance {m : Member J × Emission} (flies : call.Flies prim roster post m)
    (out : ∀ j, m.2.header.pktType = pktJoin → m.1 = .joiner j → .joiner j ∉ roster.members →
      .joiner j ∉ roster'.members)
    (fresh : ∀ j, m.2.header.pktType = pktPeerList → m.2.dst = call.addr (.joiner j) →
      .joiner j ∈ roster.members → call.Fresh post j → call.Fresh post' j) :
    call.Flies prim roster' post' m := by
  cases flies with
  | join listenPort stranger carries =>
      exact .join listenPort (out _ carries.type rfl stranger) carries
  | peerList list on fresh' listing carries =>
      exact .peerList list (advances.more.mem on) (fresh _ carries.type carries.dst on fresh')
        (listing.mono on advances.more) carries
  | hello older younger order seated knows carries names =>
      refine .hello (advances.more.mem older) (advances.more.mem younger) ?_
        (advances.seated _ younger seated) (advances.knows older knows) ?_ names
      · rwa [advances.more.place older, advances.more.place younger]
      · rwa [advances.more.id younger]
  | helloAck older younger order seated knows connected carries =>
      refine .helloAck (advances.more.mem older) (advances.more.mem younger) ?_
        (advances.seated _ younger seated) (advances.knows older knows)
        (advances.connected younger connected) ?_
      · rwa [advances.more.place older, advances.more.place younger]
      · rwa [advances.more.id older]

/-- A joiner that the delivery is not about stays where it is. -/
theorem Stage.advance {j : J} (stage : call.Stage roster post j)
    (out : .joiner j ∉ roster.members → .joiner j ∉ roster'.members)
    (node : post'.node (.joiner j) = post.node (.joiner j))
    (stays : ∀ m ∈ post.inFlight, call.Opening j m → m ∈ post'.inFlight) :
    call.Stage roster' post' j := by
  cases stage with
  | joining e stranger fresh flying type =>
      exact .joining e (out stranger) (node.trans fresh) (stays _ flying (Or.inl ⟨type, rfl⟩)) type
  | listed m on fresh flying type dst =>
      exact .listed m (advances.more.mem on) (node.trans fresh)
        (stays m flying (Or.inr ⟨type, dst⟩)) type dst
  | seated on seated => exact .seated (advances.more.mem on) (advances.seated _ on seated)

/-- A pair that the delivery is not about stays where it is. -/
theorem Paired.advance {p q : Member J} (older : p ∈ roster.members) (younger : q ∈ roster.members)
    (paired : call.Paired roster post p q)
    (hello : ∀ e, (q, e) ∈ post.inFlight → e.header.pktType = pktHello → call.Names p e.dst →
      (q, e) ∈ post'.inFlight)
    (helloAck : ∀ e, (p, e) ∈ post.inFlight → e.header.pktType = pktHelloAck →
      e.dst = call.addr q → (p, e) ∈ post'.inFlight) :
    call.Paired roster' post' p q := by
  cases paired with
  | greeted e flying type names knows =>
      exact .greeted e (hello e flying type names) type names (advances.knows older knows)
  | answered e flying type dst knows connected =>
      exact .answered e (helloAck e flying type dst) type dst (advances.knows older knows)
        (advances.connected younger connected)
  | connected first second =>
      exact .connected (advances.connected younger first) (advances.connected older second)

end Advances

/-- A member that has its id connects another one. -/
theorem Delivered.connects {roster : Roster J} {post post' : Post (Member J) (Node D) Emission}
    {r k : Member J} {m : Member J × Emission} {peerMgr : PeerManager D} {out : List Emission}
    (delivered : Delivered post post' r m { post.node r with peerMgr := peerMgr } out)
    (seated : call.Seated roster r (post.node r)) (on : k ∈ roster.members) (other : k ≠ r)
    (localId : peerMgr.localId = (post.node r).peerMgr.localId)
    (sessionId : peerMgr.sessionId = (post.node r).peerMgr.sessionId) {peer : RemotePeer D}
    {now : Instant} (table : ∀ id, peerMgr.getPeer id =
      if id = roster.id k then some (peer.connect now) else (post.node r).getPeer id) :
    (post'.node r).Connected (roster.id k) ∧ call.Advances roster roster post post' := by
  refine ⟨?_, Roster.Extends.refl roster, delivered.gains (Node.Gains.of_connect table rfl),
    fun p _ before => ?_⟩
  · rw [delivered.node]
    exact ⟨peer.connect now, (table _).trans (if_pos rfl), rfl⟩
  · by_cases same : p = r
    · subst same
      rw [delivered.node]
      refine ⟨localId.trans seated.localId, sessionId.trans seated.sessionId, seated.key, ?_⟩
      rintro id ⟨entry, found⟩
      by_cases new : id = roster.id k
      · exact ⟨k, on, other, new⟩
      · exact seated.inside id ⟨entry, ((table id).trans (if_neg new)).symm.trans found⟩
    · rwa [delivered.others p same]

/-! ## The steps -/

section Steps

variable {roster : Roster J} {post : Post (Member J) (Node D) Emission}

theorem Gathered.fresh_of_not_mem (gathered : call.Gathered prim roster post) {j : J}
    (out : .joiner j ∉ roster.members) : call.Fresh post j := by
  cases gathered.stages j with
  | joining _ _ fresh => exact fresh
  | listed _ on => exact absurd on out
  | seated on => exact absurd on out

/-- A member with an id of its own is in the session. -/
theorem Gathered.seated (gathered : call.Gathered prim roster post) {p : Member J}
    (named : p ≠ .host → (post.node p).peerMgr.localId ≠ 0) :
    call.Seated roster p (post.node p) := by
  cases p with
  | host => exact gathered.hosting.seated
  | joiner j =>
      have own := named (fun same => by cases same)
      cases gathered.stages j with
      | joining _ _ fresh => exact absurd (fresh ▸ rfl) own
      | listed _ _ fresh => exact absurd (fresh ▸ rfl) own
      | seated _ seated => exact seated

/-- **A member that has its id answers.** The roster is as before; what holds of the
answers and of every pair has to be shown. -/
theorem Gathered.answer (gathered : call.Gathered prim roster post)
    {post' : Post (Member J) (Node D) Emission} {r : Member J} {m : Member J × Emission}
    {node' : Node D} {out : List Emission} (delivered : Delivered post post' r m node' out)
    (type : m.2.header.pktType ≠ pktJoin ∧ m.2.header.pktType ≠ pktPeerList)
    (on : r ∈ roster.members) (seated : call.Seated roster r (post.node r))
    (advances : call.Advances roster roster post post')
    (hosting : call.Hosting roster (post'.node .host))
    (quiet : ∀ e ∈ out, e.header.pktType = pktHelloAck)
    (flies : ∀ e ∈ out, call.Flies prim roster post' (r, e))
    (pairs : ∀ p ∈ roster.members, ∀ q ∈ roster.members, call.Paired roster post p q →
      call.Paired roster post' p q) :
    call.Gathered prim roster post' := by
  have unopened : ∀ j, ¬ call.Opening j m := not_opening_of_type type
  refine ⟨hosting, fun j => ?_, fun p older q younger order own => ?_, fun m' member => ?_,
    fun j => delivered.once (gathered.once j) fun e sent => ?_⟩
  · by_cases same : .joiner j = r
    · subst same
      exact .seated on (advances.seated _ on seated)
    · exact (gathered.stages j).advance advances id (delivered.others _ same)
        fun m' flying opening =>
          delivered.stays flying fun alike => unopened j (alike ▸ opening)
  · refine pairs p older q younger (gathered.pairs p older q younger order ?_)
    by_cases same : q = r
    · subst same
      exact seated.localId
    · rwa [delivered.others q same] at own
  · rcases delivered.mem member with old | ⟨e, sent, rfl⟩
    · refine (gathered.flies m' (List.mem_of_mem_erase old)).advance advances
        (fun _ _ _ stranger => stranger) fun j _ _ invited fresh => ?_
      refine (delivered.others _ fun same => ?_).trans fresh
      subst same
      exact fresh.localId_ne invited seated.localId
    · exact flies e sent
  · refine not_opening_of_type ?_ j
    rw [quiet e sent]
    decide

/-- **A HELLO arrives.** Its addressee connects the sender and answers. -/
theorem Gathered.hello_step (gathered : call.Gathered prim roster post) (apart : call.Apart)
    (correct : prim.aead.Correct) (seals : prim.aead.Seals maxPacketLen) {env : Env D}
    (works : env.Works) {p q : Member J} {e : Emission} {dst : SocketAddr}
    (flying : (q, e) ∈ post.inFlight) (older : p ∈ roster.members) (younger : q ∈ roster.members)
    (order : roster.place p < roster.place q)
    (seatedSender : call.Seated roster q (post.node q))
    (knows : (post.node q).Knows (roster.id p))
    (carries : e.Carries prim.aead (CryptoContext.new call.key call.sessionId)
      ⟨pktHello, roster.id q, 0, 0⟩ [] dst) (names : call.Names p dst)
    (seated : call.Seated roster p (post.node p)) (addressed : dst = call.addr p) :
    call.Gathered prim roster ((call.postal prim).step post (p, (q, e), env)).1 := by
  have different : q ≠ p := by
    rintro rfl
    exact lt_irrefl _ order
  obtain ⟨packet, parsed, header, opened⟩ := carries.opens
    ((post.node p).pskCtx (post.node p).peerMgr.sessionId) correct seated.key seated.sessionId
  have sender : packet.header.peerId = roster.id q := congrArg PacketHeader.peerId header
  have remote : packet.header.peerId ≠ (post.node p).peerMgr.localId := by
    rw [sender, seated.localId]
    exact fun same => different ((Roster.id_inj younger older).mp same)
  have room : (post.node p).Knows packet.header.peerId ∨
      (post.node p).peerMgr.peers.size < maxPeers - 1 := by
    refine or_iff_not_imp_left.mpr fun stranger => ?_
    rw [sender] at stranger
    exact seated.room older younger different stranger
  obtain ⟨peerMgr, ack, peer, answered, carries', localId, sessionId, isHost, next, table, kept⟩ :=
    Node.handleHello_answers seals works (call.addr q) opened remote room
  rw [sender] at table kept
  have type : packet.header.pktType = pktHello := congrArg PacketHeader.pktType header
  have done := delivered (r := p) flying parsed
    ((Node.handlePacket_hello prim type _ env (call.addr q)).trans answered)
  set post' := ((call.postal prim).step post (p, (q, e), env)).1 with post'_eq
  obtain ⟨connected, advances⟩ := done.connects seated younger different localId sessionId table
  have others : ∀ k, k ≠ p → post'.node k = post.node k := done.others
  have hello : e.header.pktType = pktHello := carries.type
  have ack_type : ack.header.pktType = pktHelloAck := carries'.type
  refine gathered.answer done ?_ older seated advances ?_ ?_ ?_ ?_
  · rw [hello]
    decide
  · by_cases host : p = .host
    · subst host
      have hosting := gathered.hosting
      obtain ⟨old, known, _⟩ := hosting.connected q younger different
      obtain rfl := kept old known
      rw [done.node]
      exact hosting.connect known localId sessionId isHost next table
    · rw [others _ (Ne.symm host)]
      exact gathered.hosting
  · intro ack' member
    rw [List.mem_singleton.mp member]
    exact ack_type
  · intro ack' member
    rw [List.mem_singleton.mp member]
    refine .helloAck older younger order ?_ ?_ connected ?_
    · rwa [others q different]
    · rwa [others q different]
    · rw [seated.localId] at carries'
      exact carries'.congr seated.key.symm seated.sessionId.symm
  · intro k older' l younger' paired
    by_cases theirs : k = p ∧ l = q
    · obtain ⟨rfl, rfl⟩ := theirs
      refine .answered ack (done.flies (List.mem_singleton_self _)) ack_type carries'.dst ?_
        connected
      rwa [others l different]
    · refine paired.advance advances older' younger' ?_ ?_
      · intro e' flying' _ names'
        refine done.stays flying' fun same => theirs ?_
        cases same
        rw [carries.dst, addressed] at names'
        exact ⟨(apart.eq_of_names names').symm, rfl⟩
      · intro e' flying' type' _
        refine done.stays flying' fun same => ?_
        cases same
        rw [hello] at type'
        exact absurd type' (by decide)

/-- **A HELLO_ACK arrives.** The pair is complete. -/
theorem Gathered.helloAck_step (gathered : call.Gathered prim roster post)
    (correct : prim.aead.Correct) (env : Env D) {p q : Member J} {e : Emission}
    (flying : (p, e) ∈ post.inFlight) (older : p ∈ roster.members) (younger : q ∈ roster.members)
    (order : roster.place p < roster.place q) (seated : call.Seated roster q (post.node q))
    (knows : (post.node q).Knows (roster.id p))
    (connected : (post.node p).Connected (roster.id q))
    (carries : e.Carries prim.aead (CryptoContext.new call.key call.sessionId)
      ⟨pktHelloAck, roster.id p, 0, 0⟩ [] (call.addr q)) :
    call.Gathered prim roster ((call.postal prim).step post (q, (p, e), env)).1 := by
  have different : p ≠ q := by
    rintro rfl
    exact lt_irrefl _ order
  have guest : .host ≠ q := by
    rintro rfl
    rw [Roster.place_host] at order
    exact Nat.not_lt_zero _ order
  obtain ⟨packet, parsed, header, opened⟩ := carries.opens
    ((post.node q).pskCtx (post.node q).peerMgr.sessionId) correct seated.key seated.sessionId
  have sender : packet.header.peerId = roster.id p := congrArg PacketHeader.peerId header
  obtain ⟨peer, known⟩ := knows
  obtain ⟨peerMgr, answered, localId, sessionId, table⟩ :=
    Node.handleHelloAck_answers env opened (sender ▸ known)
  rw [sender] at table
  have type : packet.header.pktType = pktHelloAck := congrArg PacketHeader.pktType header
  have done := delivered (r := q) flying parsed
    ((Node.handlePacket_helloAck prim type _ env (call.addr p)).trans answered)
  set post' := ((call.postal prim).step post (q, (p, e), env)).1 with post'_eq
  obtain ⟨met, advances⟩ := done.connects seated older different localId sessionId table
  have others : ∀ k, k ≠ q → post'.node k = post.node k := done.others
  have ack : e.header.pktType = pktHelloAck := carries.type
  refine gathered.answer done ?_ younger seated advances ?_ ?_ ?_ ?_
  · rw [ack]
    decide
  · rw [others _ guest]
    exact gathered.hosting
  · exact fun e' member => absurd member List.not_mem_nil
  · exact fun e' member => absurd member List.not_mem_nil
  · intro k older' l younger' paired
    by_cases theirs : k = p ∧ l = q
    · obtain ⟨rfl, rfl⟩ := theirs
      refine .connected ?_ met
      rwa [others k different]
    · refine paired.advance advances older' younger' ?_ ?_
      · intro e' flying' type' _
        refine done.stays flying' fun same => ?_
        cases same
        rw [ack] at type'
        exact absurd type' (by decide)
      · intro e' flying' _ dst'
        refine done.stays flying' fun same => theirs ?_
        cases same
        rw [carries.dst] at dst'
        exact ⟨rfl, (call.distinct dst').symm⟩

/-- **A JOIN arrives.** The host lets the joiner in and sends it the list. -/
theorem Gathered.join_step (gathered : call.Gathered prim roster post)
    (correct : prim.aead.Correct) (seals : prim.aead.Seals maxPacketLen) {env : Env D}
    (works : env.Works) {j : J} {e : Emission} {listenPort : UInt16} {hostAddr : SocketAddr}
    (listed : Node.listedAddr env (call.addr (.joiner j)) = .ok hostAddr)
    (room : roster.members.length < maxPeers) (flying : (.joiner j, e) ∈ post.inFlight)
    (out : .joiner j ∉ roster.members)
    (carries : e.Carries prim.aead (CryptoContext.new call.key zeroSession) ⟨pktJoin, 0, 0, 0⟩
      (JoinPayload.toBytes ⟨listenPort⟩) (call.addr .host)) :
    call.Gathered prim (roster.letIn (.joiner j) out room)
      ((call.postal prim).step post (.host, (.joiner j, e), env)).1 := by
  have hosting := gathered.hosting
  have seated := hosting.seated
  obtain ⟨packet, parsed, header, opened⟩ := carries.opens
    ((post.node .host).pskCtx zeroSession) correct hosting.key rfl
  have join : Node.openJoin prim (post.node .host) packet = .ok ⟨listenPort⟩ := by
    rw [Node.openJoin, opened]
    exact JoinPayload.fromBytes_toBytes _
  have left : (post.node .host).peerMgr.nextPeerId.toNat < maxPeers := hosting.next ▸ room
  have remote : (post.node .host).peerMgr.nextPeerId ≠ (post.node .host).peerMgr.localId := by
    rw [seated.localId]
    exact (hosting.id_ne roster.host_mem).symm
  have unknown : (post.node .host).getPeer (post.node .host).peerMgr.nextPeerId = none := by
    refine Option.eq_none_iff_forall_ne_some.mpr fun peer known => ?_
    obtain ⟨_, q, on, _, same, _⟩ := hosting.table _ peer known
    exact hosting.id_ne on same.symm
  obtain ⟨peerMgr, list, peer, answered, carries', localId, sessionId, isHost, next, table, own,
    addr, state⟩ := Node.handleJoin_answers seals works listed hosting.isHost join left remote
      (seated.room_of_lt roster.host_mem room) unknown
  have type : packet.header.pktType = pktJoin := congrArg PacketHeader.pktType header
  have done := delivered (r := .host) flying parsed
    ((Node.handlePacket_join prim type _ env (call.addr (.joiner j))).trans answered)
  set roster' := roster.letIn (.joiner j) out room with roster'_eq
  set post' := ((call.postal prim).step post (.host, (.joiner j, e), env)).1 with post'_eq
  have more : roster.Extends roster' := Roster.extends_letIn
  have joined : .joiner j ∈ roster'.members := Roster.mem_letIn.mpr (Or.inr rfl)
  have opening : call.Opening j (.joiner j, e) := Or.inl ⟨carries.type, rfl⟩
  have others : ∀ k, post'.node (.joiner k) = post.node (.joiner k) :=
    fun k => done.others _ (fun same => by cases same)
  have fresh : call.Fresh post' j := (others j).trans (gathered.fresh_of_not_mem out)
  have hosting' : call.Hosting roster' (post'.node .host) := by
    rw [done.node]
    exact hosting.letIn (fun same => by cases same) out room localId sessionId isHost next table
      own addr state
  have advances : call.Advances roster roster' post post' := by
    refine ⟨more, done.gains (Node.Gains.of_connect table state), fun q on before => ?_⟩
    cases q with
    | host => exact hosting'.seated
    | joiner k =>
        rw [others k]
        exact before.mono on more
  have stays : ∀ m', m' ∈ post.inFlight → m'.2.header.pktType ≠ pktJoin →
      m' ∈ post'.inFlight := by
    intro m' flying' other
    exact done.stays flying' fun same => other (same ▸ carries.type)
  refine ⟨hosting', fun k => ?_, fun p older q younger order named => ?_, fun m' member => ?_,
    fun k => ?_⟩
  · by_cases same : k = j
    · subst same
      exact .listed (.host, list) joined fresh (done.flies (List.mem_singleton_self _))
        carries'.type carries'.dst
    · refine (gathered.stages k).advance advances (fun stranger member => ?_) (others k)
        fun m' flying' opening' => done.stays flying' fun alike => same ?_
      · rcases Roster.mem_letIn.mp member with before | alike
        · exact stranger before
        · exact same (Member.joiner.inj alike)
      · subst alike
        rcases opening' with ⟨_, sender⟩ | ⟨list, _⟩
        · exact (Member.joiner.inj sender).symm
        · exact absurd (carries.type.symm.trans list) (by decide : pktJoin ≠ pktPeerList)
  · have guest : q ≠ .host := by
      rintro rfl
      rw [Roster.place_host] at order
      exact Nat.not_lt_zero _ order
    have known : q ∈ roster.members := by
      rcases Roster.mem_letIn.mp younger with before | rfl
      · exact before
      · exact absurd named (fresh.localId_ne joined)
    have known' : p ∈ roster.members := more.mem_of_place_le known order.le
    rw [more.place known', more.place known] at order
    rw [done.others q guest, more.id known] at named
    refine (gathered.pairs p known' q known order named).advance advances known' known ?_ ?_
    · exact fun e' flying' hello _ => stays _ flying' (hello ▸ by decide)
    · exact fun e' flying' ack _ => stays _ flying' (ack ▸ by decide)
  · rcases done.mem member with old | ⟨e', sent, rfl⟩
    · refine (gathered.flies m' (List.mem_of_mem_erase old)).advance advances ?_
        fun k _ _ _ fresh' => (others k).trans fresh'
      intro k type' sender stranger member'
      rcases Roster.mem_letIn.mp member' with before | alike
      · exact stranger before
      · refine not_opening_of_mem_erase (gathered.once j) flying opening old (Or.inl ⟨type', ?_⟩)
        rw [sender, alike]
    · rw [List.mem_singleton.mp sent]
      have listing := hosting'.listing (fun q on => Roster.place_le_letIn on) hostAddr env.order
      rw [done.node] at listing
      rw [hosting.localId] at carries'
      exact .peerList _ joined fresh listing (carries'.congr hosting.key.symm rfl)
  · by_cases same : k = j
    · subst same
      rw [done.inFlight, List.countP_append,
        countP_erase_opening (gathered.once k) flying opening, Nat.zero_add]
      exact List.countP_le_length
    · refine done.once (gathered.once k) fun e' sent => ?_
      rw [List.mem_singleton.mp sent]
      rintro (⟨_, sender⟩ | ⟨_, dst⟩)
      · cases sender
      · rw [carries'.dst] at dst
        exact same (Member.joiner.inj (call.distinct dst)).symm

/-- **A peer list arrives.** The joiner has its id, and greets everybody that was let
in before it. -/
theorem Gathered.peerList_step (gathered : call.Gathered prim roster post)
    (correct : prim.aead.Correct) (seals : prim.aead.Seals maxPacketLen) {env : Env D}
    (works : env.Works) {j : J} {e : Emission} {list : PeerListPayload}
    (flying : (.host, e) ∈ post.inFlight) (on : .joiner j ∈ roster.members)
    (fresh : call.Fresh post j) (listing : call.Listing roster j list)
    (carries : e.Carries prim.aead (CryptoContext.new call.key zeroSession)
      ⟨pktPeerList, 0, 0, 0⟩ list.toBytes (call.addr (.joiner j))) :
    call.Gathered prim roster ((call.postal prim).step post (.joiner j, (.host, e), env)).1 := by
  have key : (post.node (.joiner j)).key = call.key := by rw [fresh]; rfl
  obtain ⟨packet, parsed, header, opened⟩ := Node.openPeerList_of_sealed correct
    (carries.sealedWith.congr key rfl) carries.plaintext
    (listing.length_le.trans (by decide)) (listing.maxId on) rfl
  rw [carries.header] at header
  have sender : packet.header.peerId = 0 := congrArg PacketHeader.peerId header
  have type : packet.header.pktType = pktPeerList := congrArg PacketHeader.pktType header
  obtain ⟨node', hellos, answered, localId, sessionId, key', greets, table⟩ :=
    Node.handlePeerList_answers seals works (call.addr .host) opened (by rw [fresh]; rfl)
      listing.nodup_others (listing.length_others_le on)
  rw [sender] at greets
  have done := delivered (r := .joiner j) flying parsed
    ((Node.handlePacket_peerList prim type _ env (call.addr .host)).trans answered)
  set post' := ((call.postal prim).step post (.joiner j, (.host, e), env)).1 with post'_eq
  have opening : call.Opening j (.host, e) := Or.inr ⟨carries.type, carries.dst⟩
  have host : post'.node .host = post.node .host := done.others _ (fun same => by cases same)
  have seated : call.Seated roster (.joiner j) (post'.node (.joiner j)) := by
    rw [done.node]
    refine ⟨localId, sessionId.trans listing.sessionId, key'.trans key, fun id known => ?_⟩
    obtain ⟨entry, member, rfl⟩ := List.mem_map.mp ((table id).mp known)
    obtain ⟨q, inside, before, same, _⟩ := listing.others member
    refine ⟨q, inside, ?_, same⟩
    rintro rfl
    exact lt_irrefl _ before
  have gained : Node.Gains (post.node (.joiner j)) node' := by
    rw [fresh]
    exact ⟨fun _ ⟨_, known⟩ => (nomatch known), fun _ ⟨_, known, _⟩ => (nomatch known)⟩
  have advances : call.Advances roster roster post post' := by
    refine ⟨Roster.Extends.refl roster, done.gains gained, fun q _ before => ?_⟩
    by_cases same : q = .joiner j
    · rw [same]
      exact seated
    · rwa [done.others q same]
  have knows : ∀ q ∈ roster.members, roster.place q < roster.place (.joiner j) →
      (post'.node (.joiner j)).Knows (roster.id q) := by
    intro q inside before
    obtain ⟨entry, member, same⟩ := listing.exists_other inside on before
    rw [done.node]
    exact (table _).mpr (same ▸ List.mem_map_of_mem member)
  have stays : ∀ m', m' ∈ post.inFlight → m'.2.header.pktType ≠ pktPeerList →
      m' ∈ post'.inFlight := by
    intro m' flying' other
    exact done.stays flying' fun same => other (same ▸ carries.type)
  refine ⟨host ▸ gathered.hosting, fun k => ?_, fun p older q younger order named => ?_,
    fun m' member => ?_, fun k => done.once (gathered.once k) fun e' sent => ?_⟩
  · by_cases same : k = j
    · subst same
      exact .seated on seated
    · have different : (.joiner k : Member J) ≠ .joiner j := fun alike =>
        same (Member.joiner.inj alike)
      refine (gathered.stages k).advance advances id (done.others _ different)
        fun m' flying' opening' => done.stays flying' fun alike => same ?_
      subst alike
      rcases opening' with ⟨_, sender⟩ | ⟨_, dst⟩
      · cases sender
      · exact (Member.joiner.inj (call.distinct (carries.dst.symm.trans dst))).symm
  · by_cases same : q = .joiner j
    · subst same
      obtain ⟨entry, other, same⟩ := listing.exists_other older younger order
      obtain ⟨e', sent, greeting⟩ := exists_of_forall₂ greets other
      obtain ⟨q, inside, _, same', names⟩ := listing.others other
      obtain rfl := (Roster.id_inj inside older).mp (same'.symm.trans same)
      exact .greeted e' (done.flies sent) greeting.type (greeting.dst ▸ names)
        (knows q older order)
    · rw [done.others q same] at named
      refine (gathered.pairs p older q younger order named).advance advances older younger ?_ ?_
      · exact fun e' flying' hello _ => stays _ flying' (hello ▸ by decide)
      · exact fun e' flying' ack _ => stays _ flying' (ack ▸ by decide)
  · rcases done.mem member with old | ⟨e', sent, rfl⟩
    · refine (gathered.flies m' (List.mem_of_mem_erase old)).advance advances
        (fun _ _ _ stranger => stranger) fun k type' dst' _ fresh' => ?_
      refine (done.others _ fun alike => ?_).trans fresh'
      refine not_opening_of_mem_erase (gathered.once j) flying opening old (Or.inr ⟨type', ?_⟩)
      rw [dst', alike]
    · obtain ⟨entry, other, greeting⟩ := exists_of_forall₂ greets.flip sent
      obtain ⟨q, inside, before, _, names⟩ := listing.others other
      exact .hello inside on before seated (knows q inside before)
        (Emission.Carries.congr greeting key.symm listing.sessionId.symm) names
  · obtain ⟨entry, _, greeting⟩ := exists_of_forall₂ greets.flip sent
    have hello : e'.header.pktType = pktHello := greeting.type
    refine not_opening_of_type ?_ k
    rw [hello]
    decide

/-- **What every delivery in turn preserves.** -/
theorem Gathered.step (gathered : call.Gathered prim roster post) (apart : call.Apart)
    (correct : prim.aead.Correct) (seals : prim.aead.Seals maxPacketLen) {joiners : List J}
    (everybody : ∀ j, j ∈ joiners) (few : joiners.length ≤ maxPeers - 1)
    {input : Member J × (Member J × Emission) × Env D} (hands : call.HandsOver post input)
    (inTurn : InTurn post input) :
    ∃ roster', call.Gathered prim roster' ((call.postal prim).step post input).1 := by
  obtain ⟨r, m, env⟩ := input
  obtain ⟨flying, addressed, works, listed⟩ := hands
  dsimp only at flying addressed works listed
  cases gathered.flies m flying with
  | join listenPort out carries =>
      obtain rfl := call.distinct (carries.dst.symm.trans addressed)
      obtain ⟨hostAddr, listed⟩ := listed rfl
      exact ⟨_, gathered.join_step correct seals works listed
        (Roster.length_lt everybody few out) flying out carries⟩
  | peerList list on fresh listing carries =>
      obtain rfl := call.distinct (carries.dst.symm.trans addressed)
      exact ⟨roster, gathered.peerList_step correct seals works flying on fresh listing carries⟩
  | hello older younger order seated knows carries names =>
      have addressee := carries.dst.symm.trans addressed
      obtain rfl := apart.eq_of_names (addressee ▸ names)
      exact ⟨roster, gathered.hello_step apart correct seals works flying older younger order seated
        knows carries names (gathered.seated (inTurn carries.type)) addressee⟩
  | helloAck older younger order seated knows connected carries =>
      obtain rfl := call.distinct (carries.dst.symm.trans addressed)
      exact ⟨roster, gathered.helloAck_step correct env flying older younger order seated knows
        connected carries⟩

end Steps

/-- Before anything is delivered. -/
theorem gathered_joining (seals : prim.aead.Seals maxPacketLen) {joiners : List J}
    (distinct : joiners.Nodup) (everybody : ∀ j, j ∈ joiners) {envs : J → Env D}
    (works : ∀ j, (envs j).Works) (ports : J → UInt16) :
    call.Gathered prim Roster.start (call.joining prim joiners envs ports) := by
  have joins : ∀ j, ∃ e, ((call.node (.joiner j)).sendJoin prim (envs j) (ports j)
      (call.addr .host)).out = [e] ∧
      e.Carries prim.aead (CryptoContext.new call.key zeroSession) ⟨pktJoin, 0, 0, 0⟩
        (JoinPayload.toBytes ⟨ports j⟩) (call.addr .host) := by
    intro j
    have short : (JoinPayload.toBytes ⟨ports j⟩).length ≤ maxPacketLen := by
      rw [JoinPayload.toBytes, Vector.length_toList]
      decide
    obtain ⟨e, sent, carries⟩ := Node.sendSealed_answers seals (works j) (call.node (.joiner j))
      zeroSession pktJoin 0 short (call.addr .host)
    exact ⟨e, congrArg Outcome.out sent, carries⟩
  choose join sent carries using joins
  have flying : (call.joining prim joiners envs ports : Post (Member J) (Node D) Emission).inFlight =
      joiners.map fun j => (.joiner j, join j) := by
    rw [joining, List.map_eq_flatMap]
    simp only [sent, List.map_cons, List.map_nil]
  have alone : ∀ j, .joiner j ∉ (Roster.start : Roster J).members :=
    fun j member => by cases List.mem_singleton.mp member
  refine ⟨⟨rfl, rfl, rfl, rfl, rfl, ?_, fun _ _ known => nomatch known⟩, fun j => ?_, ?_, ?_,
    fun j => ?_⟩
  · exact fun q on guest => absurd (List.mem_singleton.mp on) guest
  · refine .joining (join j) (alone j) rfl ?_ (carries j).type
    rw [flying]
    exact List.mem_map_of_mem (everybody j)
  · intro p older q younger order
    rw [List.mem_singleton.mp older, List.mem_singleton.mp younger] at order
    exact absurd order (lt_irrefl _)
  · intro m member
    rw [flying] at member
    obtain ⟨j, _, rfl⟩ := List.mem_map.mp member
    exact .join (ports j) (alone j) (carries j)
  · rw [flying, List.countP_map]
    have own : ∀ k ∈ joiners, decide (call.Opening j (.joiner k, join k)) = true →
        (k == j) = true := by
      intro k _ opening
      rcases of_decide_eq_true opening with ⟨_, sender⟩ | ⟨list, _⟩
      · exact beq_iff_eq.mpr (Member.joiner.inj sender)
      · exact absurd ((carries k).type.symm.trans list) (by decide : pktJoin ≠ pktPeerList)
    exact (List.countP_mono_left own).trans (List.nodup_iff_count_le_one.mp distinct j)

/-- **The handshake completes the mesh.** A host and at most four joiners, each of
which has sent one JOIN: in every run in which no HELLO reaches a joiner before its
own peer list, as soon as nothing is in flight all members have different ids, and
each has every other one in its table, connected, under the id of the other one. -/
theorem mesh_completes (call : Call J) (apart : call.Apart) (correct : prim.aead.Correct)
    (seals : prim.aead.Seals maxPacketLen) {joiners : List J} (distinct : joiners.Nodup)
    (everybody : ∀ j, j ∈ joiners) (few : joiners.length ≤ maxPeers - 1) {envs : J → Env D}
    (works : ∀ j, (envs j).Works) (ports : J → UInt16)
    (inputs : List (Member J × (Member J × Emission) × Env D))
    (handed : (call.postal prim).Along call.HandsOver (call.joining prim joiners envs ports) inputs)
    (inTurn : (call.postal prim).Along InTurn (call.joining prim joiners envs ports) inputs)
    {post : Post (Member J) (Node D) Emission}
    (reached : (call.postal prim).run (call.joining prim joiners envs ports) inputs = post)
    (quiet : post.inFlight = []) {p q : Member J} (other : p ≠ q) :
    (post.node p).peerMgr.localId ≠ (post.node q).peerMgr.localId ∧
      (post.node p).Connected (post.node q).peerMgr.localId := by
  obtain ⟨roster, gathered⟩ : ∃ roster, call.Gathered prim roster post :=
    reached ▸ Machine.invariant (fun post => ∃ roster, call.Gathered prim roster post)
      (fun _ _ ⟨_, gathered⟩ ⟨hands, inTurn⟩ =>
        gathered.step apart correct seals everybody few hands inTurn)
      ⟨_, gathered_joining seals distinct everybody works ports⟩ (Machine.along_and handed inTurn)
  have nothing : ∀ m, m ∉ post.inFlight := fun m => quiet ▸ List.not_mem_nil
  have seated : ∀ p, p ∈ roster.members ∧ call.Seated roster p (post.node p) := by
    intro p
    cases p with
    | host => exact ⟨roster.host_mem, gathered.hosting.seated⟩
    | joiner j =>
        cases gathered.stages j with
        | joining _ _ _ flying => exact absurd flying (nothing _)
        | listed _ _ _ flying => exact absurd flying (nothing _)
        | seated on seated => exact ⟨on, seated⟩
  have paired : ∀ p q, roster.place p < roster.place q →
      (post.node p).Connected (roster.id q) ∧ (post.node q).Connected (roster.id p) := by
    intro p q order
    cases gathered.pairs p (seated p).1 q (seated q).1 order (seated q).2.localId with
    | greeted _ flying => exact absurd flying (nothing _)
    | answered _ flying => exact absurd flying (nothing _)
    | connected older younger => exact ⟨older, younger⟩
  rw [(seated p).2.localId, (seated q).2.localId]
  refine ⟨fun same => other ((Roster.id_inj (seated p).1 (seated q).1).mp same), ?_⟩
  rcases lt_trichotomy (roster.place p) (roster.place q) with before | level | after
  · exact (paired p q before).1
  · exact absurd ((Roster.place_inj (seated p).1).mp level) other
  · exact (paired q p after).2

end Call

/-! ## A host and two joiners -/

namespace Sample

/-- Hand over, one after the other, what stands at some places in flight, each to a
member, as long as it was sent to that member. -/
def handing (post : Post (Member Bool) (Node Unit) Emission) :
    List (ℕ × Member Bool) → List (Member Bool × (Member Bool × Emission) × Env Unit)
  | [] => []
  | (place, r) :: rest =>
      match post.inFlight[place]? with
      | none => []
      | some m =>
        if m.2.dst = call.addr r then
          (r, m, env 0 0) ::
            handing ((call.postal Primitives.transparent).step post (r, m, env 0 0)).1 rest
        else []

theorem handing_handsOver (post : Post (Member Bool) (Node Unit) Emission)
    (script : List (ℕ × Member Bool)) :
    (call.postal Primitives.transparent).Along call.HandsOver post (handing post script) := by
  induction script generalizing post with
  | nil => trivial
  | cons entry rest ih =>
      obtain ⟨place, r⟩ := entry
      unfold handing
      split
      · trivial
      · rename_i m found
        split_ifs with addressed
        · exact ⟨⟨List.mem_of_getElem? found, addressed, ⟨⟨(), rfl⟩, fun _ => rfl⟩,
            fun _ => ⟨addr 0, rfl⟩⟩, ih _⟩
        · trivial

/-- Both joiners have sent their JOIN. -/
def joining : Post (Member Bool) (Node Unit) Emission :=
  call.joining Primitives.transparent [false, true] (fun _ => env 0 0) fun _ => 5000

/-- Both joiners join, and every datagram arrives in the order in which it was sent. -/
def inOrder : List (Member Bool × (Member Bool × Emission) × Env Unit) :=
  handing joining [(0, .host), (0, .host), (0, .joiner false), (0, .joiner true), (0, .host),
    (0, .host), (0, .joiner false), (0, .joiner false), (0, .joiner true), (0, .joiner true)]

/-- The HELLO of the second joiner reaches the first one before its peer list. -/
def overtaking : List (Member Bool × (Member Bool × Emission) × Env Unit) :=
  handing joining [(0, .host), (0, .host), (1, .joiner true), (2, .joiner false),
    (0, .joiner false), (0, .host), (0, .host), (0, .joiner true), (0, .joiner false)]

end Sample

/-- In order, the joiners find each other. -/
theorem Call.joiners_meet :
    (((Sample.call.postal Primitives.transparent).run Sample.joining
        Sample.inOrder).node (.joiner false)).Connected
      (((Sample.call.postal Primitives.transparent).run Sample.joining
        Sample.inOrder).node (.joiner true)).peerMgr.localId := by
  have handed : (Sample.call.postal Primitives.transparent).Along Sample.call.HandsOver
      Sample.joining Sample.inOrder := Sample.handing_handsOver Sample.joining _
  have inTurn : (Sample.call.postal Primitives.transparent).Along Call.InTurn Sample.joining
      Sample.inOrder := by decide +kernel
  have quiet : ((Sample.call.postal Primitives.transparent).run Sample.joining
      Sample.inOrder).inFlight = [] := by decide +kernel
  generalize reached : (Sample.call.postal Primitives.transparent).run Sample.joining
    Sample.inOrder = post at quiet ⊢
  exact (Call.mesh_completes Sample.call Sample.call_apart
    (show Primitives.transparent.aead.Correct from Aead.transparent_correct)
    (Aead.transparent_seals maxPacketLen) (by decide : [false, true].Nodup) (by decide) (by decide)
    (fun _ => ⟨⟨(), rfl⟩, fun _ => rfl⟩) (fun _ => 5000) Sample.inOrder handed inTurn reached quiet
    (by decide : (.joiner false : Member Bool) ≠ .joiner true)).2

/-- **An overtaken peer list.** Everything is delivered once, to its addressee, and
nothing is in flight any more; yet the two joiners are not connected. -/
theorem Call.overtaken_hello_lost :
    (Sample.call.postal Primitives.transparent).Along Sample.call.HandsOver Sample.joining
        Sample.overtaking ∧
      ((Sample.call.postal Primitives.transparent).run Sample.joining
        Sample.overtaking).inFlight = [] ∧
      ¬ (((Sample.call.postal Primitives.transparent).run Sample.joining
          Sample.overtaking).node (.joiner false)).Connected
        (((Sample.call.postal Primitives.transparent).run Sample.joining
          Sample.overtaking).node (.joiner true)).peerMgr.localId ∧
      ¬ (((Sample.call.postal Primitives.transparent).run Sample.joining
          Sample.overtaking).node (.joiner true)).Connected
        (((Sample.call.postal Primitives.transparent).run Sample.joining
          Sample.overtaking).node (.joiner false)).peerMgr.localId :=
  ⟨Sample.handing_handsOver _ _, by decide +kernel, by decide +kernel, by decide +kernel⟩

end VoiceChat
