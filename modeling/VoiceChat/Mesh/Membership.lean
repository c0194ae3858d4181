import VoiceChat.Mesh.Enrolment
import VoiceChat.Mesh.Gathering
import VoiceChat.Session.Coherence

/-!
# Nobody is its own peer

The host answers every copy of a JOIN with another id, so that an address can have
several, and the peer lists that give the later ones name the earlier ones as other
peers. As long as a joiner takes the first id that was granted to its address, it
knows other members only, under ids that are theirs and at addresses that are
theirs (`never_own_peer`). A joiner that takes a later one enters itself
(`second_id_enters_self`).
-/

set_option autoImplicit false

namespace VoiceChat

namespace Call

variable {J D : Type} (call : Call J)

/-- The node does not know itself, and knows no more than the others. -/
structure KnowsOthers (p : Member J) (node : Node D) : Prop where
  localId : node.getPeer node.peerMgr.localId = none
  addr : ∀ k peer, node.getPeer k = some peer → peer.addr ≠ call.addr p
  size : node.peerMgr.peers.size ≤ maxPeers - 1
  ids : ∀ k peer, node.getPeer k = some peer → k.toNat < maxPeers

/-- A peer list that is handled gives the first id that was granted to the member. -/
def TakesFirst (prim : Primitives D) (mesh : Mesh J D) (input : Member J × Env D × Action) : Prop :=
  ∀ data srcAddr, input.2.2 = .event (.recv data srcAddr) → ∀ id sessionId,
    (mesh.net.node input.1).adopts prim data = some (id, sessionId) →
      ∀ k, (call.addr input.1, k) ∈ mesh.grants → id.toNat ≤ k.toNat

/-- Whom a joiner knows: other members, under their ids and at their addresses. -/
structure Meets (mesh : Mesh J D) (j : J) : Prop where
  others : ∀ k peer, (mesh.net.node (.joiner j)).getPeer k = some peer →
    ∃ q, q ≠ .joiner j ∧ call.Owns mesh.grants q k ∧ call.Names q peer.addr
  first : .joiner j ∈ mesh.listed → ∀ k, (call.addr (.joiner j), k) ∈ mesh.grants →
    (mesh.net.node (.joiner j)).peerMgr.localId.toNat ≤ k.toNat

/-- Who knows whom in the call, and that nobody greets itself. -/
structure Placed (mesh : Mesh J D) : Prop where
  enrolled : call.Enrolled mesh
  meets : ∀ j, call.Meets mesh j
  hellos : ∀ q, ∀ e ∈ mesh.net.sent q, e.header.pktType = pktHello → e.dst ≠ call.addr q
  room : ∀ q, (mesh.net.node q).peerMgr.peers.size ≤ maxPeers - 1

variable {call} {prim : Primitives D}

/-- **What this says of a member**: it is not its own peer. -/
theorem Placed.knowsOthers {mesh : Mesh J D} (placed : call.Placed mesh)
    (sound : call.Sound prim mesh) (apart : call.Apart) (p : Member J) :
    call.KnowsOthers p (mesh.net.node p) := by
  cases p with
  | host =>
      refine ⟨?_, fun k peer known here => ?_, placed.room .host, fun k peer known => ?_⟩
      · refine Option.eq_none_iff_forall_ne_some.mpr fun peer known => ?_
        rw [sound.hosting.localId] at known
        exact sound.hosting.zero_notMem _ (placed.enrolled.hosted 0 peer known)
      · obtain ⟨j, there⟩ := sound.addrs _ (placed.enrolled.hosted k peer known)
        cases call.distinct (here.symm.trans there)
      · exact Nat.lt_of_le_of_lt (sound.hosting.bounds (placed.enrolled.hosted k peer known)).2
          sound.hosting.few
  | joiner j =>
      have meets := placed.meets j
      refine ⟨?_, fun k peer known here => ?_, placed.room _, fun k peer known => ?_⟩
      · refine Option.eq_none_iff_forall_ne_some.mpr fun peer known => ?_
        by_cases listed : .joiner j ∈ mesh.listed
        · obtain ⟨q, other, owns, _⟩ := meets.others _ peer known
          exact other (sound.owner_unique owns (Or.inr ((sound.joined j).listed listed)))
        · rw [(sound.joined j).unlisted listed, placed.enrolled.unlisted j listed] at known
          cases known
      · obtain ⟨q, other, _, names⟩ := meets.others k peer known
        rw [here] at names
        exact other (apart.eq_of_names names).symm
      · obtain ⟨q, _, owns, _⟩ := meets.others k peer known
        exact sound.owned_lt owns

/-! ## What a joiner is told -/

/-- **A peer list names the others**: under ids that are theirs, at addresses that are
theirs. -/
theorem Placed.listing {mesh : Mesh J D} (placed : call.Placed mesh)
    (sound : call.Sound prim mesh) (correct : prim.aead.Correct) {q : Member J} {e : Emission}
    (sent : e ∈ mesh.net.sent q) {j : J} {packet : Packet}
    (parsed : Packet.parse e.wire = .ok packet)
    (type : packet.header.pktType = pktPeerList) {myId : UInt8} {list : PeerListPayload}
    (opened : (mesh.net.node (.joiner j)).openPeerList prim packet = .ok (myId, list))
    (first : ∀ k, (call.addr (.joiner j), k) ∈ mesh.grants → myId.toNat ≤ k.toNat) {k : UInt8}
    {addr : SocketAddr} (listed : (k, addr) ∈ list.peers) (other : k ≠ myId) :
    ∃ r, r ≠ .joiner j ∧ call.Owns mesh.grants r k ∧
      call.Names r (if k = packet.header.peerId then call.addr q else addr) := by
  obtain ⟨rfl, sender, names⟩ := placed.enrolled.listing sound correct sent parsed type opened
  rw [sender]
  obtain ⟨high, rfl | ⟨i, known, rfl⟩⟩ := names k addr listed
  · exact ⟨.host, nofun, Or.inl ⟨rfl, rfl⟩, Or.inl (if_pos rfl)⟩
  · have positive : k ≠ 0 := by
      rintro rfl
      exact sound.hosting.zero_notMem _ known
    refine ⟨.joiner i, fun same => ?_, Or.inr known, Or.inr ⟨i, rfl, if_neg positive⟩⟩
    rw [Member.joiner.inj same] at known
    have low := first k known
    rw [UInt8.le_iff_toNat_le] at high
    exact other (UInt8.toNat_inj.mp (Nat.le_antisymm high low))

/-- A HELLO comes from another member, under its id. -/
theorem Placed.hello {mesh : Mesh J D} (placed : call.Placed mesh) (sound : call.Sound prim mesh)
    {p q : Member J} {e : Emission} (sent : e ∈ mesh.net.sent q) (dst : e.dst = call.addr p)
    {packet : Packet} (parsed : Packet.parse e.wire = .ok packet)
    (type : packet.header.pktType = pktHello) :
    q ≠ p ∧ (call.addr q, packet.header.peerId) ∈ mesh.grants := by
  refine ⟨?_, sound.hello sent parsed type⟩
  rintro rfl
  rw [sound.header sent parsed] at type
  exact placed.hellos q e sent type dst

/-! ## Steps -/

/-- What a joiner takes in with a step are other members. -/
theorem Placed.others_step {mesh : Mesh J D} (placed : call.Placed mesh)
    (sound : call.Sound prim mesh) (correct : prim.aead.Correct) {j : J} {env : Env D}
    {event : Node.Event} (hears : call.Hears mesh (.joiner j) event)
    (first : call.TakesFirst prim mesh (.joiner j, env, .event event)) {k : UInt8}
    {peer : RemotePeer D}
    (known : ((mesh.net.node (.joiner j)).step prim env event).1.getPeer k = some peer) :
    ∃ q, q ≠ .joiner j ∧ call.Owns mesh.grants q k ∧ call.Names q peer.addr := by
  rcases Node.entry_of_step known with
    ⟨old, before, there⟩ | ⟨data, srcAddr, packet, rfl, parsed, enters⟩
  · exact there ▸ (placed.meets j).others k old before
  · obtain ⟨q, e, sent, rfl, dst, rfl⟩ := hears data srcAddr rfl
    generalize peer.addr = addr at enters
    cases enters with
    | join type opened allocated => exact absurd allocated sound.guest_allocates_none
    | hello type opened unknown =>
        obtain ⟨other, granted⟩ := placed.hello sound sent dst parsed type
        exact ⟨q, other, Or.inr granted, Or.inl rfl⟩
    | @listed myId list id addr type opened inside other =>
        refine placed.listing sound correct sent parsed type opened ?_ inside other
        exact first _ _ rfl myId list.sessionId (Node.adopts_of_opened parsed type opened)

theorem Meets.of_same {mesh mesh' : Mesh J D} {j : J} (meets : call.Meets mesh j)
    (node : mesh'.net.node (.joiner j) = mesh.net.node (.joiner j))
    (listed : .joiner j ∈ mesh'.listed ↔ .joiner j ∈ mesh.listed)
    (more : ∀ grant ∈ mesh.grants, grant ∈ mesh'.grants)
    (later : ∀ k, (call.addr (.joiner j), k) ∈ mesh'.grants →
      (call.addr (.joiner j), k) ∈ mesh.grants ∨ mesh.grants.length < k.toNat)
    (bounded : .joiner j ∈ mesh.listed →
      (mesh.net.node (.joiner j)).peerMgr.localId.toNat ≤ mesh.grants.length) :
    call.Meets mesh' j where
  others k peer known := by
    rw [node] at known
    obtain ⟨q, other, owns, names⟩ := meets.others k peer known
    exact ⟨q, other, owns.mono more, names⟩
  first member k granted := by
    rw [node]
    rcases later k granted with old | new
    · exact meets.first (listed.mp member) k old
    · exact Nat.le_trans (bounded (listed.mp member)) new.le

section Steps

variable [DecidableEq J]

/-- A joiner goes on knowing others. -/
theorem Placed.meets_step {mesh : Mesh J D} (placed : call.Placed mesh)
    (sound : call.Sound prim mesh) (correct : prim.aead.Correct) {p : Member J} {env : Env D}
    {action : Action} (hears : ∀ event, action = .event event → call.Hears mesh p event)
    (first : call.TakesFirst prim mesh (p, env, action)) (j : J) :
    call.Meets ((call.machine prim).step mesh (p, env, action)).1 j := by
  have meets := placed.meets j
  by_cases steps : p = .joiner j ∧ ∃ event, action = .event event
  · obtain ⟨rfl, event, rfl⟩ := steps
    refine ⟨fun k peer known => ?_, fun member k granted => ?_⟩
    · rw [step_node_self] at known
      rw [step_grants_joiner]
      exact placed.others_step sound correct (hears event rfl) first known
    · rw [step_node_self]
      rw [step_grants_joiner] at granted
      by_cases listing : lists prim (mesh.net.node (.joiner j)) (.event event) = true
      · cases event with
        | recv data srcAddr =>
            obtain ⟨⟨id, sessionId⟩, adopted⟩ := Option.isSome_iff_exists.mp listing
            have localId := (Node.handleIncoming_adopts env srcAddr adopted).1
            change (Node.handleIncoming prim _ env data srcAddr).node.peerMgr.localId.toNat ≤ _
            rw [localId]
            exact first data srcAddr rfl id sessionId adopted k granted
        | _ => cases listing
      · have old : .joiner j ∈ mesh.listed := by
          rcases (mem_step_listed mesh _ env).mp member with old | ⟨_, new⟩
          · exact old
          · exact absurd new listing
        have kept : Node.Keeps (mesh.net.node (.joiner j))
            ((mesh.net.node (.joiner j)).step prim env event).1 :=
          Node.step_keeps env fun data srcAddr received => by
            subst received
            exact Option.not_isSome_iff_eq_none.mp listing
        rw [kept.localId]
        exact meets.first old k granted
  · have same : ((call.machine prim).step mesh (p, env, action)).1.net.node (.joiner j) =
        mesh.net.node (.joiner j) := step_node_of_idle mesh p env steps
    refine meets.of_same same ?_ (fun grant granted => mem_step_grants mesh p env granted action)
      (fun k granted => (sound.later p env action granted).imp_right And.right) fun listed =>
        (sound.hosting.bounds ((sound.joined j).listed listed)).2
    exact mem_step_listed_of_idle mesh p env steps

/-- Nobody greets itself. -/
theorem Placed.hellos_step {mesh : Mesh J D} (placed : call.Placed mesh)
    (sound : call.Sound prim mesh) (correct : prim.aead.Correct) (apart : call.Apart)
    {p : Member J} {env : Env D} {action : Action}
    (delivers : call.Delivers mesh (p, env, action))
    (first : call.TakesFirst prim mesh (p, env, action)) {q : Member J} {e : Emission}
    (member : e ∈ ((call.machine prim).step mesh (p, env, action)).1.net.sent q)
    (type : e.header.pktType = pktHello) : e.dst ≠ call.addr q := by
  rcases sent_of_step _ _ _ member with
    old | ⟨rfl, ⟨listenPort, _, header, _⟩ | ⟨event, rfl, new⟩⟩
  · exact placed.hellos q e old type
  · exact absurd type (Emission.type_ne header (by decide))
  · obtain ⟨data, srcAddr, packet, myId, list, id, addr, rfl, parsed, peerList, opened, listed,
      other, there⟩ := Node.greeting_of_hello new type
    obtain ⟨r, e', sent, rfl, dst, rfl⟩ := delivers
    have adopted := Node.adopts_of_opened parsed peerList opened
    intro self
    cases q with
    | host =>
        rw [sound.host_adopts correct sent dst] at adopted
        cases adopted
    | joiner j =>
        obtain ⟨owner, different, _, names⟩ := placed.listing sound correct sent parsed peerList
          opened (first _ _ rfl myId list.sessionId adopted) listed other
        rw [← there, self] at names
        exact different (apart.eq_of_names names).symm

/-- **Everybody goes on knowing others only.** -/
theorem Placed.step {mesh : Mesh J D} (placed : call.Placed mesh) (sound : call.Sound prim mesh)
    (correct : prim.aead.Correct) (apart : call.Apart) {input : Member J × Env D × Action}
    (delivers : call.Delivers mesh input) (first : call.TakesFirst prim mesh input) :
    call.Placed ((call.machine prim).step mesh input).1 := by
  obtain ⟨p, env, action⟩ := input
  have hears : ∀ event, action = .event event → call.Hears mesh p event := by
    rintro _ rfl data srcAddr rfl
    exact delivers
  refine ⟨placed.enrolled.step sound correct delivers, placed.meets_step sound correct hears first,
    fun q e member => placed.hellos_step sound correct apart delivers first member, fun q => ?_⟩
  by_cases steps : p = q ∧ ∃ event, action = .event event
  · obtain ⟨rfl, event, rfl⟩ := steps
    rw [step_node_self]
    exact Node.size_step_le prim env event (placed.room p)
  · rw [step_node_of_idle mesh p env steps]
    exact placed.room q

end Steps

theorem placed_start : call.Placed (call.start : Mesh J D) where
  enrolled := enrolled_start
  meets _ := ⟨fun _ _ known => (nomatch known), fun member => absurd member List.not_mem_nil⟩
  hellos _ _ member := absurd member List.not_mem_nil
  room
    | .host => Nat.zero_le _
    | .joiner _ => Nat.zero_le _

/-- **Nobody is its own peer.** In every run of a call in which the joiners take the
first ids that were granted to them, no member has an entry under its own id or at
its own address, and each has entries for four others at most, under ids below
five. -/
theorem never_own_peer [DecidableEq J] (call : Call J) (apart : call.Apart)
    (correct : prim.aead.Correct) (inputs : List (Member J × Env D × Action))
    (delivers : (call.machine prim).Along call.Delivers call.start inputs)
    (first : (call.machine prim).Along (call.TakesFirst prim) call.start inputs) (p : Member J) :
    call.KnowsOthers p (((call.machine prim).run call.start inputs).net.node p) := by
  have both : call.Sound prim ((call.machine prim).run call.start inputs) ∧
      call.Placed ((call.machine prim).run call.start inputs) :=
    Machine.invariant (fun mesh => call.Sound prim mesh ∧ call.Placed mesh)
      (fun _ _ ⟨sound, placed⟩ ⟨delivers, first⟩ =>
        ⟨sound.step correct delivers, placed.step sound correct apart delivers first⟩)
      ⟨sound_start, placed_start⟩ (Machine.along_and delivers first)
  exact both.2.knowsOthers both.1 apart p

end Call

/-! ## Joiners let in once and twice -/

namespace Sample

/-- A second joiner joins and gets its peer list. -/
def secondJoins : List (Member Bool × Env Unit × Action) :=
  firstJoins ++ [(.joiner true, env 2 3, .join 5000),
    (.host, env 0 4, .event (.recv join (addr 2))),
    (.joiner true, env 2 5, .event (.recv (wires (hostOfOne.node.handleIncoming
      Primitives.transparent (env 0 4) join (addr 2)).out) (addr 0)))]

/-- The host after it has let the first joiner in twice. -/
def hostOfOneTwice : Outcome Unit :=
  hostOfOne.node.handleIncoming Primitives.transparent (env 0 1) join (addr 1)

/-- The JOIN arrives twice, and the second of the two answers before the first. -/
def joinsTwice : List (Member Bool × Env Unit × Action) :=
  [(.joiner false, env 1 0, .join 5000), (.host, env 0 0, .event (.recv join (addr 1))),
    (.host, env 0 1, .event (.recv join (addr 1))),
    (.joiner false, env 1 2, .event (.recv (wires hostOfOneTwice.out) (addr 0))),
    (.joiner false, env 1 3, .event (.recv (wires hostOfOne.out) (addr 0)))]

end Sample

/-- Two joiners that are let in once know others only: the second one the host and the
first. -/
theorem Call.joiners_know_others :
    Sample.call.KnowsOthers (.joiner true) (((Sample.call.machine Primitives.transparent).run
        Sample.call.start Sample.secondJoins).net.node (.joiner true)) ∧
      ((((Sample.call.machine Primitives.transparent).run Sample.call.start
        Sample.secondJoins).net.node (.joiner true)).getPeer 1).isSome = true := by
  refine ⟨never_own_peer Sample.call Sample.call_apart
    (show Primitives.transparent.aead.Correct from Aead.transparent_correct) Sample.secondJoins ?_
      ?_ (.joiner true), by decide +kernel⟩
  · refine ⟨?_, ?_, ?_, ?_, ?_, ?_, trivial⟩
    · exact fun same => by cases same
    · exact ⟨.joiner false, by decide +kernel⟩
    · exact ⟨.host, by decide +kernel⟩
    · exact fun same => by cases same
    · exact ⟨.joiner true, by decide +kernel⟩
    · exact ⟨.host, by decide +kernel⟩
  · refine ⟨?_, ?_, ?_, ?_, ?_, ?_, trivial⟩
    · exact fun _ _ received => by cases received
    · rintro _ _ ⟨⟩ id sessionId adopted
      exact absurd ((by decide +kernel : false = _).trans (congrArg Option.isSome adopted))
        Bool.false_ne_true
    · rintro _ _ ⟨⟩ id sessionId adopted k granted
      cases (by decide +kernel : some ((1 : UInt8), Sample.session) = _).trans adopted
      exact (by decide +kernel : ∀ grant ∈ _, (1 : UInt8).toNat ≤ grant.2.toNat) _ granted
    · exact fun _ _ received => by cases received
    · rintro _ _ ⟨⟩ id sessionId adopted
      exact absurd ((by decide +kernel : false = _).trans (congrArg Option.isSome adopted))
        Bool.false_ne_true
    · rintro _ _ ⟨⟩ id sessionId adopted k granted
      cases (by decide +kernel : some ((2 : UInt8), Sample.session) = _).trans adopted
      exact (by decide +kernel : ∀ grant ∈ _, grant.1 = Sample.addr 2 →
        (2 : UInt8).toNat ≤ grant.2.toNat) _ granted rfl

/-- **A joiner that is let in twice enters itself**: under its own id and at its own
address. -/
theorem Call.second_id_enters_self :
    ¬ ∀ (inputs : List (Member Bool × Env Unit × Action)) (p : Member Bool),
      (Sample.call.machine Primitives.transparent).Along Sample.call.Delivers Sample.call.start
        inputs →
      Sample.call.KnowsOthers p (((Sample.call.machine Primitives.transparent).run
        Sample.call.start inputs).net.node p) := by
  intro claim
  have delivers : (Sample.call.machine Primitives.transparent).Along Sample.call.Delivers
      Sample.call.start Sample.joinsTwice := by
    refine ⟨?_, ?_, ?_, ?_, ?_, trivial⟩
    · exact fun same => nomatch same
    · exact ⟨.joiner false, by decide +kernel⟩
    · exact ⟨.joiner false, by decide +kernel⟩
    · exact ⟨.host, by decide +kernel⟩
    · exact ⟨.host, by decide +kernel⟩
  have own := (claim Sample.joinsTwice (.joiner false) delivers).localId
  have entered : ((((Sample.call.machine Primitives.transparent).run Sample.call.start
      Sample.joinsTwice).net.node (.joiner false)).getPeer 1).isSome = true := by decide +kernel
  have localId : (((Sample.call.machine Primitives.transparent).run Sample.call.start
      Sample.joinsTwice).net.node (.joiner false)).peerMgr.localId = 1 := by decide +kernel
  rw [localId] at own
  rw [own] at entered
  cases entered

end VoiceChat
