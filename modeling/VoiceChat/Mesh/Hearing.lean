import VoiceChat.Mesh.Enrolment
import VoiceChat.Session.Connections

/-!
# Who has heard whom

A connected peer is said to be one to which the way is open in both directions. A
HELLO_ACK says so: its sender has taken in a HELLO from its receiver. A JOIN or a
HELLO does not, and yet it connects its sender. In the runs of a call, that one
member is connected at another means that both have heard each other exactly as
long as every JOIN and HELLO that connects the one comes when it has already heard
the other (`bidirectional_iff`).

Of the host at a joiner this always holds (`heardBack_guest`), since only a HELLO_ACK
connects it there. Of a joiner at the host it holds only as long as no JOIN of it is
let in (`heardBack_host_iff`): the host sends nothing to an address before it has
let it in (`joiner_connected_unheard`).
-/

set_option autoImplicit false

namespace VoiceChat

/-- A call, and which member has taken in a datagram from which address. -/
structure Talk (J D : Type) where
  mesh : Mesh J D
  handled : List (Member J × SocketAddr)

namespace Call

variable {J D : Type} (call : Call J)

/-- What a step takes in. -/
def takes (prim : Primitives D) (node : Node D) (p : Member J) :
    Action → List (Member J × SocketAddr)
  | .event (.recv data srcAddr) =>
    match Packet.parse data with
    | .error _ => []
    | .ok packet => if node.accepts prim packet then [(p, srcAddr)] else []
  | _ => []

/-- The group as a machine that keeps record of what is taken in. -/
def talking [DecidableEq J] (prim : Primitives D) :
    Machine (Talk J D) (Member J × Env D × Action) (Member J × Emission) where
  step talk input :=
    let (mesh, out) := (call.machine prim).step talk.mesh input
    ({ mesh := mesh
       handled := talk.handled ++ takes prim (talk.mesh.net.node input.1) input.1 input.2.2 }, out)

/-- Nobody has heard anything. -/
def silence : Talk J D := ⟨call.start, []⟩

/-- The first member has taken in a datagram from the second one. -/
def Heard (talk : Talk J D) (p q : Member J) : Prop := (p, call.addr q) ∈ talk.handled

/-- If the second member is connected at the first one, they have heard each other. -/
def Bidirectional (p q : Member J) (talk : Talk J D) : Prop :=
  ∀ k, call.Owns talk.mesh.grants q k → (talk.mesh.net.node p).Connected k →
    call.Heard talk p q ∧ call.Heard talk q p

/-- A JOIN or a HELLO that connects the second member at the first one comes when the
second one has heard the first. -/
def HeardBack (prim : Primitives D) (p q : Member J) (talk : Talk J D)
    (input : Member J × Env D × Action) : Prop :=
  ∀ data packet k, input.1 = p → input.2.2 = .event (.recv data (call.addr q)) →
    Packet.parse data = .ok packet →
    packet.header.pktType = pktJoin ∨ packet.header.pktType = pktHello →
    Node.Connects prim (talk.mesh.net.node p) input.2.1 (call.addr q) packet k →
      q = p ∨ call.Heard talk q p

/-- What grants, peer lists and HELLO_ACKs say about who has heard whom. -/
structure Acquainted (prim : Primitives D) (talk : Talk J D) : Prop where
  sound : call.Sound prim talk.mesh
  enrolled : call.Enrolled talk.mesh
  granted : ∀ j k, (call.addr (.joiner j), k) ∈ talk.mesh.grants → call.Heard talk .host (.joiner j)
  listed : ∀ j, .joiner j ∈ talk.mesh.listed → call.Heard talk (.joiner j) .host
  acks : ∀ q, ∀ e ∈ talk.mesh.net.sent q, e.header.pktType = pktHelloAck →
    (e.header.peerId = 0 ∨ (call.addr q, e.header.peerId) ∈ talk.mesh.grants) ∧
      ∀ p, e.dst = call.addr p → call.Heard talk q p

variable {call} {prim : Primitives D}

theorem takes_of_accepts {node : Node D} (p : Member J) {data : Bytes} (srcAddr : SocketAddr)
    {packet : Packet} (parsed : Packet.parse data = .ok packet)
    (accepted : node.accepts prim packet = true) :
    (p, srcAddr) ∈ takes prim node p (.event (.recv data srcAddr)) := by
  rw [takes, parsed]
  dsimp only
  rw [if_pos accepted]
  exact List.mem_singleton_self _

/-- A step takes something in for its member, if at all. -/
theorem eq_of_mem_takes {node : Node D} {p : Member J} {action : Action}
    {entry : Member J × SocketAddr} (member : entry ∈ takes prim node p action) : entry.1 = p := by
  unfold takes at member
  split at member
  · split at member
    · cases member
    · split_ifs at member
      · rw [List.mem_singleton.mp member]
      · cases member
  · cases member

/-- What is granted is granted to whom the datagram is from that is taken in. -/
theorem takes_of_grant {node : Node D} {env : Env D} {data : Bytes} {srcAddr : SocketAddr}
    {grant : SocketAddr × UInt8}
    (granted : grant ∈ node.newGrants (node.step prim env (.recv data srcAddr)).1
      (.recv data srcAddr)) :
    grant.1 = srcAddr ∧
      (.host, srcAddr) ∈ takes prim node (.host : Member J) (.event (.recv data srcAddr)) := by
  unfold Node.newGrants at granted
  split_ifs at granted with same
  · cases granted
  · refine ⟨by rw [List.mem_singleton.mp granted], ?_⟩
    cases parsed : Packet.parse data with
    | error e =>
        refine absurd ?_ same
        change (node.handleIncoming prim env data srcAddr).node.peerMgr.nextPeerId = _
        rw [Node.handleIncoming, parsed]
        rfl
    | ok packet =>
        cases accepted : node.accepts prim packet with
        | true => exact takes_of_accepts _ srcAddr parsed accepted
        | false =>
            obtain ⟨e, refused⟩ := Node.handlePacket_of_not_accepts env srcAddr accepted
            refine absurd ?_ same
            change (node.handleIncoming prim env data srcAddr).node.peerMgr.nextPeerId = _
            rw [Node.handleIncoming_eq prim parsed, refused]
            rfl

/-- A peer list that is adopted is taken in. -/
theorem takes_of_adopts {node : Node D} (p : Member J) {data : Bytes} (srcAddr : SocketAddr)
    {identity : UInt8 × SessionId} (adopted : node.adopts prim data = some identity) :
    (p, srcAddr) ∈ takes prim node p (.event (.recv data srcAddr)) := by
  obtain ⟨packet, list, parsed, peerList, opened⟩ := Node.opened_of_adopts adopted
  refine takes_of_accepts p srcAddr parsed ?_
  rw [Node.accepts_peerList peerList, opened]
  rfl

/-- A member that has an entry for the host has heard it, and the host the member. -/
theorem Acquainted.heard_host {talk : Talk J D} (acquainted : call.Acquainted prim talk)
    {p : Member J} {peer : RemotePeer D} (known : (talk.mesh.net.node p).getPeer 0 = some peer) :
    call.Heard talk p .host ∧ call.Heard talk .host p := by
  cases p with
  | host =>
      obtain ⟨_, addr, granted⟩ := acquainted.sound.hosting.table 0 peer known
      exact absurd granted (acquainted.sound.hosting.zero_notMem addr)
  | joiner j =>
      by_cases listed : .joiner j ∈ talk.mesh.listed
      · exact ⟨acquainted.listed j listed,
          acquainted.granted j _ ((acquainted.sound.joined j).listed listed)⟩
      · rw [acquainted.enrolled.unlisted j listed] at known
        cases known

/-- An entry is under an id that belongs to somebody. -/
theorem Acquainted.owned {talk : Talk J D} (acquainted : call.Acquainted prim talk)
    {p : Member J} {k : UInt8} {peer : RemotePeer D}
    (known : (talk.mesh.net.node p).getPeer k = some peer) :
    ∃ q, call.Owns talk.mesh.grants q k := by
  cases p with
  | host =>
      have granted := acquainted.enrolled.hosted k peer known
      obtain ⟨j, there⟩ := acquainted.sound.addrs _ granted
      exact ⟨.joiner j, Or.inr (there ▸ granted)⟩
  | joiner j => exact acquainted.enrolled.owned j k peer known

/-! ## Steps -/

section Steps

variable [DecidableEq J]

/-- What was heard stays heard. -/
theorem Heard.step {talk : Talk J D} {p q : Member J} (heard : call.Heard talk p q)
    (input : Member J × Env D × Action) :
    call.Heard ((call.talking prim).step talk input).1 p q := List.mem_append_left _ heard

/-- What a step takes in is heard. -/
theorem heard_of_takes {talk : Talk J D} {p q : Member J} {env : Env D} {action : Action}
    (taken : (p, call.addr q) ∈ takes prim (talk.mesh.net.node p) p action) :
    call.Heard ((call.talking prim).step talk (p, env, action)).1 p q :=
  List.mem_append_right _ taken

/-- A member has heard before a step what it has heard after it, if the step is not its
own. -/
theorem Heard.of_step {talk : Talk J D} {p q r : Member J} {env : Env D} {action : Action}
    (heard : call.Heard ((call.talking prim).step talk (r, env, action)).1 p q) :
    p = r ∨ call.Heard talk p q := by
  rcases List.mem_append.mp heard with old | new
  · exact Or.inr old
  · exact Or.inl (eq_of_mem_takes new)

/-- What a HELLO_ACK says is so when it is sent. -/
theorem Acquainted.ack_sent {talk : Talk J D} (acquainted : call.Acquainted prim talk)
    {q : Member J} {env : Env D} {event : Node.Event} {e : Emission}
    (sent : e ∈ ((talk.mesh.net.node q).step prim env event).2)
    (type : e.header.pktType = pktHelloAck) :
    (e.header.peerId = 0 ∨ (call.addr q, e.header.peerId) ∈ talk.mesh.grants) ∧
      ∀ p, e.dst = call.addr p →
        call.Heard ((call.talking prim).step talk (q, env, .event event)).1 q p := by
  obtain ⟨data, srcAddr, packet, plaintext, rfl, parsed, hello, opened, named, dst⟩ :=
    (Node.emits_of_step sent).of_helloAck type
  refine ⟨?_, fun p here => heard_of_takes ?_⟩
  · rw [named]
    cases q with
    | host => exact Or.inl acquainted.sound.hosting.localId
    | joiner j =>
        by_cases listed : .joiner j ∈ talk.mesh.listed
        · exact Or.inr ((acquainted.sound.joined j).listed listed)
        · exact Or.inl ((acquainted.sound.joined j).unlisted listed)
  · rw [← here, dst]
    refine takes_of_accepts q srcAddr parsed ?_
    rw [Node.accepts_hello (Or.inl hello), opened]
    rfl

/-- **What is said of who has heard whom goes on being so.** -/
theorem Acquainted.step {talk : Talk J D} (acquainted : call.Acquainted prim talk)
    (correct : prim.aead.Correct) {input : Member J × Env D × Action}
    (delivers : call.Delivers talk.mesh input) :
    call.Acquainted prim ((call.talking prim).step talk input).1 := by
  obtain ⟨p, env, action⟩ := input
  have sound := acquainted.sound
  have enrolled := acquainted.enrolled
  refine ⟨sound.step correct delivers, enrolled.step sound correct delivers, fun j k granted => ?_,
    fun j listed => ?_, fun q e member type => ?_⟩
  · rcases grants_of_step talk.mesh p env granted with old | ⟨rfl, event, rfl, new⟩
    · exact (acquainted.granted j k old).step _
    · cases event with
      | recv data srcAddr =>
          obtain ⟨rfl, taken⟩ := takes_of_grant new
          exact heard_of_takes taken
      | _ => cases new
  · rcases (mem_step_listed talk.mesh p env).mp listed with old | ⟨rfl, new⟩
    · exact (acquainted.listed j old).step _
    · unfold lists at new
      split at new
      · rename_i data srcAddr
        obtain ⟨identity, adopted⟩ := Option.isSome_iff_exists.mp new
        obtain ⟨q, e, sent, rfl, _, rfl⟩ := delivers
        have host : q = .host := by
          obtain ⟨packet, _, parsed, type, _⟩ := Node.opened_of_adopts adopted
          rw [sound.header sent parsed] at type
          exact (enrolled.peerLists q e sent type).1
        subst host
        exact heard_of_takes (takes_of_adopts _ _ adopted)
      · cases new
  · rcases sent_of_step talk.mesh p env member with
      old | ⟨rfl, ⟨listenPort, _, header, _⟩ | ⟨event, rfl, new⟩⟩
    · obtain ⟨named, heard⟩ := acquainted.acks q e old type
      exact ⟨named.imp_right fun granted => mem_step_grants talk.mesh p env granted action,
        fun r here => (heard r here).step _⟩
    · exact absurd type (Emission.type_ne header (by decide))
    · obtain ⟨named, heard⟩ := acquainted.ack_sent new type
      exact ⟨named.imp_right fun granted => mem_step_grants talk.mesh q env granted _, heard⟩

/-- Whom a JOIN or a HELLO connects is whom it comes from. -/
theorem Acquainted.owns_of_connects {talk : Talk J D} (acquainted : call.Acquainted prim talk)
    {p q : Member J} {env : Env D} {e : Emission} (sent : e ∈ talk.mesh.net.sent q)
    {packet : Packet} (parsed : Packet.parse e.wire = .ok packet)
    (type : packet.header.pktType = pktJoin ∨ packet.header.pktType = pktHello) {k : UInt8}
    (connects : Node.Connects prim (talk.mesh.net.node p) env (call.addr q) packet k) :
    call.Owns ((call.machine prim).step talk.mesh
      (p, env, .event (.recv e.wire (call.addr q)))).1.grants q k := by
  cases connects with
  | join join opened allocated added known =>
      refine Or.inr ?_
      cases p with
      | joiner j => exact absurd allocated acquainted.sound.guest_allocates_none
      | host =>
          obtain ⟨isHost, rfl, left, _⟩ := PeerManager.allocatePeerId_eq_ok allocated
          have grant := Node.newGrants_of_join env (call.addr q) ⟨_, _, parsed, join, opened⟩ isHost
            left
          rw [step_grants, step_node_self]
          refine List.mem_append_right _ ?_
          rw [grantsOf, grant]
          exact List.mem_singleton_self _
  | hello hello opened greeting known =>
      exact Or.inr (mem_step_grants talk.mesh p env (acquainted.sound.hello sent parsed hello) _)
  | helloAck helloAck opened known =>
      rw [helloAck] at type
      exact absurd type (by decide)

/-- Where connected means heard after a step, whoever the step connects has heard. -/
theorem Acquainted.heardBack {talk : Talk J D} (acquainted : call.Acquainted prim talk)
    {p q : Member J} {input : Member J × Env D × Action} (delivers : call.Delivers talk.mesh input)
    (after : call.Bidirectional p q ((call.talking prim).step talk input).1) :
    call.HeardBack prim p q talk input := by
  obtain ⟨r, env, action⟩ := input
  rintro data packet k rfl rfl parsed type connects
  obtain ⟨q', e, sent, rfl, _, from'⟩ := delivers
  obtain rfl := call.distinct from'
  have connected : (((call.talking prim).step talk
      (r, env, .event (.recv e.wire (call.addr q)))).1.mesh.net.node r).Connected k := by
    rw [show ((call.talking prim).step talk (r, env, .event (.recv e.wire (call.addr q)))).1.mesh =
      ((call.machine prim).step talk.mesh (r, env, .event (.recv e.wire (call.addr q)))).1 from rfl,
      step_node_self]
    exact connects.connected parsed
  exact (after k (acquainted.owns_of_connects sent parsed type connects) connected).2.of_step

/-- Where whoever a step connects has heard, connected means heard after it. -/
theorem Acquainted.bidirectional {talk : Talk J D} (acquainted : call.Acquainted prim talk)
    (correct : prim.aead.Correct) {p q : Member J} (both : call.Bidirectional p q talk)
    {input : Member J × Env D × Action} (delivers : call.Delivers talk.mesh input)
    (back : call.HeardBack prim p q talk input) :
    call.Bidirectional p q ((call.talking prim).step talk input).1 := by
  have sound' := (acquainted.step correct delivers).sound
  obtain ⟨r, env, action⟩ := input
  have before : ∀ k, call.Owns ((call.talking prim).step talk (r, env, action)).1.mesh.grants q k →
      (talk.mesh.net.node p).Connected k →
      call.Heard ((call.talking prim).step talk (r, env, action)).1 p q ∧
        call.Heard ((call.talking prim).step talk (r, env, action)).1 q p := by
    rintro k owns ⟨peer, known, state⟩
    obtain ⟨q', owns'⟩ := acquainted.owned known
    have same : q' = q := sound'.owner_unique
      (owns'.mono fun grant granted => mem_step_grants talk.mesh r env granted action) owns
    subst same
    obtain ⟨heard, heard'⟩ := both k owns' ⟨peer, known, state⟩
    exact ⟨heard.step _, heard'.step _⟩
  intro k owns connected
  by_cases steps : r = p ∧ ∃ event, action = .event event
  · obtain ⟨rfl, event, rfl⟩ := steps
    change (((call.machine prim).step talk.mesh (r, env, .event event)).1.net.node r).Connected k
      at connected
    rw [step_node_self] at connected
    rcases Node.connected_of_step connected with old | ⟨data, srcAddr, packet, rfl, parsed, connects⟩
    · exact before k owns old
    · obtain ⟨q', e, sent, rfl, dst, rfl⟩ := delivers
      have heard : call.Heard ((call.talking prim).step talk
          (r, env, .event (.recv e.wire (call.addr q')))).1 r q' :=
        heard_of_takes (takes_of_accepts r (call.addr q') parsed connects.accepts)
      -- a JOIN or a HELLO comes from whom it connects
      have greets : packet.header.pktType = pktJoin ∨ packet.header.pktType = pktHello →
          call.Heard ((call.talking prim).step talk
            (r, env, .event (.recv e.wire (call.addr q')))).1 r q ∧
          call.Heard ((call.talking prim).step talk
            (r, env, .event (.recv e.wire (call.addr q')))).1 q r := by
        intro type
        obtain rfl := sound'.owner_unique
          (acquainted.owns_of_connects sent parsed type connects) owns
        refine ⟨heard, ?_⟩
        rcases back _ packet k rfl rfl parsed type connects with rfl | heard'
        · exact heard
        · exact heard'.step _
      cases connects with
      | join type => exact greets (Or.inl type)
      | hello type => exact greets (Or.inr type)
      | helloAck type opened known =>
          rw [acquainted.sound.header sent parsed] at type known owns
          obtain ⟨zero | granted, heard'⟩ := acquainted.acks q' e sent type
          · rw [zero] at known owns
            obtain rfl := sound'.owner_unique (Or.inl ⟨rfl, rfl⟩) owns
            obtain ⟨heard, heard'⟩ := acquainted.heard_host known
            exact ⟨heard.step _, heard'.step _⟩
          · obtain rfl := sound'.owner_unique
              (Or.inr (mem_step_grants talk.mesh r env granted _)) owns
            exact ⟨heard, (heard' r dst).step _⟩
  · change (((call.machine prim).step talk.mesh (r, env, action)).1.net.node p).Connected k
      at connected
    rw [step_node_of_idle talk.mesh r env steps] at connected
    exact before k owns connected

end Steps

theorem acquainted_silence : call.Acquainted prim (silence call : Talk J D) where
  sound := sound_start
  enrolled := enrolled_start
  granted _ _ granted := absurd granted List.not_mem_nil
  listed _ listed := absurd listed List.not_mem_nil
  acks _ _ member := absurd member List.not_mem_nil

theorem bidirectional_silence (p q : Member J) :
    call.Bidirectional p q (silence call : Talk J D) := by
  rintro k _ ⟨_, known, _⟩
  cases p with
  | host => cases known
  | joiner j => cases known

/-- **When connected means heard in both directions.** In a run of a call, in every
state a member has heard, and has been heard by, another one that is connected at it,
if and only if every JOIN and HELLO that connects the other one at it comes when the
other one has heard it. -/
theorem bidirectional_iff [DecidableEq J] (call : Call J) (correct : prim.aead.Correct)
    (inputs : List (Member J × Env D × Action))
    (delivers : (call.talking prim).Along (fun talk => call.Delivers talk.mesh) call.silence
      inputs) (p q : Member J) :
    (∀ done, done <+: inputs →
        call.Bidirectional p q ((call.talking prim).run call.silence done)) ↔
      (call.talking prim).Along (call.HeardBack prim p q) call.silence inputs :=
  Machine.along_iff_of_invariant (call.Acquainted prim) (call.Bidirectional p q)
    (fun _ _ acquainted delivers => acquainted.step correct delivers)
    (fun _ _ acquainted both delivers =>
      ⟨acquainted.heardBack delivers, acquainted.bidirectional correct both delivers⟩)
    acquainted_silence (bidirectional_silence p q) delivers

/-! ## Hosts and joiners -/

section Hosts

variable [DecidableEq J]

/-- **The host is connected at a joiner by HELLO_ACKs only**: no JOIN or HELLO of it is
ever handled. -/
theorem heardBack_guest (call : Call J) (correct : prim.aead.Correct)
    {inputs : List (Member J × Env D × Action)}
    (delivers : (call.talking prim).Along (fun talk => call.Delivers talk.mesh) call.silence
      inputs) (p : Member J) :
    (call.talking prim).Along (call.HeardBack prim p .host) call.silence inputs := by
  refine Machine.along_of_invariant (call.Acquainted prim)
    (fun _ _ acquainted delivers => acquainted.step correct delivers) ?_ acquainted_silence delivers
  rintro talk ⟨_, env, _⟩ acquainted delivers data packet k rfl rfl parsed type connects
  obtain ⟨q, e, sent, rfl, _, from'⟩ := delivers
  obtain rfl := call.distinct from'
  rw [acquainted.sound.header sent parsed] at type
  have record := acquainted.sound.record .host
  rcases type with join | hello
  · exact absurd rfl (record.joins e sent join)
  · obtain ⟨j, same⟩ := acquainted.sound.addrs _ (record.hellos e sent hello)
    cases call.distinct same

/-- The host lets a JOIN of the joiner in. -/
def LetsIn (call : Call J) (prim : Primitives D) (j : J) (talk : Talk J D)
    (input : Member J × Env D × Action) : Prop :=
  input.1 = .host ∧ ∃ data packet k,
    input.2.2 = .event (.recv data (call.addr (.joiner j))) ∧ Packet.parse data = .ok packet ∧
      packet.header.pktType = pktJoin ∧
      Node.Connects prim (talk.mesh.net.node .host) input.2.1 (call.addr (.joiner j)) packet k

/-- The host and a joiner know nothing of each other but JOINs. -/
structure Stranger (call : Call J) (j : J) (talk : Talk J D) : Prop where
  unheard : ¬ call.Heard talk (.joiner j) .host
  unsent : ∀ e ∈ talk.mesh.net.sent .host, e.dst ≠ call.addr (.joiner j)
  unmet : ∀ k peer, (talk.mesh.net.node .host).getPeer k = some peer →
    peer.addr ≠ call.addr (.joiner j)
  joins : ∀ e ∈ talk.mesh.net.sent (.joiner j), e.dst = call.addr .host →
    e.header.pktType = pktJoin
  apart : ∀ k peer, (talk.mesh.net.node (.joiner j)).getPeer k = some peer →
    peer.addr ≠ call.addr .host

variable {talk : Talk J D} {j : J}

omit [DecidableEq J] in
/-- What a stranger receives is from somebody else than the host. -/
theorem Stranger.other (stranger : call.Stranger j talk) {env : Env D} {data : Bytes}
    {srcAddr : SocketAddr}
    (delivers : call.Delivers talk.mesh (.joiner j, env, .event (.recv data srcAddr))) :
    srcAddr ≠ call.addr .host := by
  obtain ⟨q, e, sent, _, dst, rfl⟩ := delivers
  intro same
  obtain rfl := call.distinct same
  exact stranger.unsent e sent dst

omit [DecidableEq J] in
/-- A stranger has not handled a peer list. -/
theorem Stranger.unlisted (stranger : call.Stranger j talk) (acquainted : call.Acquainted prim talk)
    {env : Env D} {event : Node.Event}
    (delivers : call.Delivers talk.mesh (.joiner j, env, .event event)) :
    ∀ data srcAddr, event = .recv data srcAddr →
      (talk.mesh.net.node (.joiner j)).adopts prim data = none := by
  rintro data srcAddr rfl
  refine Option.eq_none_iff_forall_ne_some.mpr fun identity adopted => ?_
  obtain ⟨packet, list, parsed, type, _⟩ := Node.opened_of_adopts adopted
  have other := stranger.other delivers
  obtain ⟨q, e, sent, rfl, _, rfl⟩ := delivers
  rw [acquainted.sound.header sent parsed] at type
  obtain ⟨rfl, _⟩ := acquainted.enrolled.peerLists q e sent type
  exact other rfl

omit [DecidableEq J] in
/-- A JOIN of a stranger that is not let in is not answered, and enters nobody. -/
theorem Stranger.refused (stranger : call.Stranger j talk) (acquainted : call.Acquainted prim talk)
    {env : Env D} {data : Bytes}
    (delivers : call.Delivers talk.mesh
      (.host, env, .event (.recv data (call.addr (.joiner j)))))
    (refused : ¬ call.LetsIn prim j talk
      (.host, env, .event (.recv data (call.addr (.joiner j))))) :
    ((talk.mesh.net.node .host).step prim env (.recv data (call.addr (.joiner j)))).2 = [] ∧
      ∀ k, ((talk.mesh.net.node .host).step prim env
        (.recv data (call.addr (.joiner j)))).1.getPeer k =
          (talk.mesh.net.node .host).getPeer k := by
  obtain ⟨q, e, sent, rfl, dst, from'⟩ := delivers
  obtain rfl := call.distinct from'
  change (Node.handleIncoming prim _ env e.wire (call.addr (.joiner j))).out = [] ∧
    ∀ k, (Node.handleIncoming prim _ env e.wire (call.addr (.joiner j))).node.getPeer k = _
  cases parsed : Packet.parse e.wire with
  | error _ =>
      rw [Node.handleIncoming, parsed]
      exact ⟨rfl, fun _ => rfl⟩
  | ok packet =>
      have join : packet.header.pktType = pktJoin := by
        rw [acquainted.sound.header sent parsed]
        exact stranger.joins e sent dst
      rw [Node.handleIncoming_eq prim parsed, Node.handlePacket_join prim join]
      refine Node.handleJoin_of_not_connects join (fun id peerMgr allocated same => ?_)
        fun k connects => refused ⟨rfl, _, packet, k, rfl, parsed, join, connects⟩
      obtain ⟨_, rfl, _, _⟩ := PeerManager.allocatePeerId_eq_ok allocated
      have next := acquainted.sound.hosting.next
      rw [same, acquainted.sound.hosting.localId] at next
      cases next

/-- A stranger does not hear the host. -/
theorem Stranger.unheard_step (stranger : call.Stranger j talk) {p : Member J} {env : Env D}
    {action : Action} (delivers : call.Delivers talk.mesh (p, env, action)) :
    ¬ call.Heard ((call.talking prim).step talk (p, env, action)).1 (.joiner j) .host := by
  intro heard
  rcases List.mem_append.mp heard with old | new
  · exact stranger.unheard old
  · obtain rfl : .joiner j = p := eq_of_mem_takes new
    change _ ∈ takes prim _ _ action at new
    unfold takes at new
    split at new
    · split at new
      · cases new
      · split_ifs at new
        · exact stranger.other delivers (congrArg Prod.snd (List.mem_singleton.mp new)).symm
        · cases new
    · cases new

/-- The host sends nothing to a stranger that is not let in. -/
theorem Stranger.unsent_step (stranger : call.Stranger j talk)
    (acquainted : call.Acquainted prim talk) (correct : prim.aead.Correct) {p : Member J}
    {env : Env D} {action : Action} (delivers : call.Delivers talk.mesh (p, env, action))
    (refused : ¬ call.LetsIn prim j talk (p, env, action)) {e : Emission}
    (member : e ∈ ((call.machine prim).step talk.mesh (p, env, action)).1.net.sent .host) :
    e.dst ≠ call.addr (.joiner j) := by
  intro dst
  rcases sent_of_step talk.mesh p env member with
    old | ⟨rfl, ⟨listenPort, rfl, _⟩ | ⟨event, rfl, new⟩⟩
  · exact stranger.unsent e old dst
  · exact delivers rfl
  · have hears : call.Hears talk.mesh .host event := by
      rintro data srcAddr rfl
      exact delivers
    rcases Node.dst_of_step (acquainted.sound.host_unlisted correct hears) new with
      ⟨k, peer, known, there⟩ | ⟨data, rfl⟩
    · exact stranger.unmet k peer known (there.symm.trans dst)
    · rw [dst] at delivers refused new
      rw [(stranger.refused acquainted delivers refused).1] at new
      cases new

/-- The host has no entry at the address of a stranger that is not let in. -/
theorem Stranger.unmet_step (stranger : call.Stranger j talk)
    (acquainted : call.Acquainted prim talk) (correct : prim.aead.Correct) {p : Member J}
    {env : Env D} {action : Action} (delivers : call.Delivers talk.mesh (p, env, action))
    (refused : ¬ call.LetsIn prim j talk (p, env, action)) {k : UInt8} {peer : RemotePeer D}
    (known : (((call.machine prim).step talk.mesh (p, env, action)).1.net.node .host).getPeer k =
      some peer) : peer.addr ≠ call.addr (.joiner j) := by
  intro there
  by_cases steps : p = .host ∧ ∃ event, action = .event event
  · obtain ⟨rfl, event, rfl⟩ := steps
    rw [step_node_self] at known
    rcases Node.entry_of_step known with
      ⟨old, before, same⟩ | ⟨data, srcAddr, packet, rfl, parsed, enters⟩
    · exact stranger.unmet k old before (same.trans there)
    · by_cases own : srcAddr = call.addr (.joiner j)
      · subst own
        rw [(stranger.refused acquainted delivers refused).2] at known
        exact stranger.unmet k peer known there
      · generalize peer.addr = addr at enters there
        cases enters with
        | join type opened allocated => exact own there
        | hello type opened unknown => exact own there
        | listed type opened inside other =>
            have hears : call.Hears talk.mesh .host (.recv data srcAddr) := by
              rintro _ _ ⟨⟩
              exact delivers
            have adopted := Node.adopts_of_opened parsed type opened
            rw [acquainted.sound.host_unlisted correct hears _ _ rfl] at adopted
            cases adopted
  · rw [step_node_of_idle talk.mesh p env steps] at known
    exact stranger.unmet k peer known there

/-- A stranger sends the host nothing but JOINs. -/
theorem Stranger.joins_step (stranger : call.Stranger j talk)
    (acquainted : call.Acquainted prim talk) {p : Member J} {env : Env D} {action : Action}
    (delivers : call.Delivers talk.mesh (p, env, action)) {e : Emission}
    (member : e ∈ ((call.machine prim).step talk.mesh (p, env, action)).1.net.sent (.joiner j))
    (dst : e.dst = call.addr .host) : e.header.pktType = pktJoin := by
  rcases sent_of_step talk.mesh p env member with
    old | ⟨rfl, ⟨listenPort, rfl, header, _⟩ | ⟨event, rfl, new⟩⟩
  · exact stranger.joins e old dst
  · rw [header]
  · rcases Node.dst_of_step (stranger.unlisted acquainted delivers) new with
      ⟨k, peer, known, there⟩ | ⟨data, rfl⟩
    · exact absurd (there.symm.trans dst) (stranger.apart k peer known)
    · exact absurd dst (stranger.other delivers)

/-- A stranger has no entry at the address of the host. -/
theorem Stranger.apart_step (stranger : call.Stranger j talk)
    (acquainted : call.Acquainted prim talk) {p : Member J} {env : Env D} {action : Action}
    (delivers : call.Delivers talk.mesh (p, env, action)) {k : UInt8} {peer : RemotePeer D}
    (known : (((call.machine prim).step talk.mesh (p, env, action)).1.net.node
      (.joiner j)).getPeer k = some peer) : peer.addr ≠ call.addr .host := by
  intro there
  by_cases steps : p = .joiner j ∧ ∃ event, action = .event event
  · obtain ⟨rfl, event, rfl⟩ := steps
    rw [step_node_self] at known
    rcases Node.entry_of_step known with
      ⟨old, before, same⟩ | ⟨data, srcAddr, packet, rfl, parsed, enters⟩
    · exact stranger.apart k old before (same.trans there)
    · generalize peer.addr = addr at enters there
      cases enters with
      | join type opened allocated => exact acquainted.sound.guest_allocates_none allocated
      | hello type opened unknown => exact stranger.other delivers there
      | listed type opened inside other =>
          have adopted := Node.adopts_of_opened parsed type opened
          rw [stranger.unlisted acquainted delivers _ _ rfl] at adopted
          cases adopted
  · rw [step_node_of_idle talk.mesh p env steps] at known
    exact stranger.apart k peer known there

/-- **A stranger remains one until it is let in.** -/
theorem Stranger.step (stranger : call.Stranger j talk) (acquainted : call.Acquainted prim talk)
    (correct : prim.aead.Correct) {input : Member J × Env D × Action}
    (delivers : call.Delivers talk.mesh input) (refused : ¬ call.LetsIn prim j talk input) :
    call.Stranger j ((call.talking prim).step talk input).1 where
  unheard := stranger.unheard_step delivers
  unsent _ := stranger.unsent_step acquainted correct delivers refused
  unmet _ _ := stranger.unmet_step acquainted correct delivers refused
  joins _ := stranger.joins_step acquainted delivers
  apart _ _ := stranger.apart_step acquainted delivers

omit [DecidableEq J] in
theorem stranger_silence (call : Call J) (j : J) : call.Stranger j (silence call : Talk J D) where
  unheard heard := absurd heard List.not_mem_nil
  unsent _ member := absurd member List.not_mem_nil
  unmet _ _ known := by cases known
  joins _ member := absurd member List.not_mem_nil
  apart _ _ known := by cases known

/-- **A joiner is connected at the host too early whenever it is let in at all**: the
JOINs and HELLOs of a joiner that connect it at the host come when it has heard the
host, in a run of a call, if and only if no JOIN of it is let in. -/
theorem heardBack_host_iff (call : Call J) (correct : prim.aead.Correct)
    {inputs : List (Member J × Env D × Action)}
    (delivers : (call.talking prim).Along (fun talk => call.Delivers talk.mesh) call.silence
      inputs) (j : J) :
    (call.talking prim).Along (call.HeardBack prim .host (.joiner j)) call.silence inputs ↔
      (call.talking prim).Along (fun talk input => ¬ call.LetsIn prim j talk input) call.silence
        inputs := by
  have stays : ∀ (talk : Talk J D) input, call.Acquainted prim talk ∧ call.Stranger j talk →
      call.Delivers talk.mesh input → ¬ call.LetsIn prim j talk input →
        call.Acquainted prim ((call.talking prim).step talk input).1 ∧
          call.Stranger j ((call.talking prim).step talk input).1 :=
    fun _ _ ⟨acquainted, stranger⟩ delivers refused =>
      ⟨acquainted.step correct delivers, stranger.step acquainted correct delivers refused⟩
  have start : call.Acquainted prim (silence call : Talk J D) ∧
      call.Stranger j (silence call : Talk J D) := ⟨acquainted_silence, stranger_silence call j⟩
  have early : ∀ (talk : Talk J D) input, call.Stranger j talk →
      call.HeardBack prim .host (.joiner j) talk input → ¬ call.LetsIn prim j talk input := by
    rintro talk input stranger back ⟨here, data, packet, k, received, parsed, join, connects⟩
    rcases back data packet k here received parsed (Or.inl join) connects with same | heard
    · cases same
    · exact stranger.unheard heard
  constructor
  · intro back
    exact Machine.along_of_invariant _
      (fun talk input held admits => stays talk input held admits.1
        (early talk input held.2 admits.2))
      (fun talk input held admits => early talk input held.2 admits.2) start
      (Machine.along_and delivers back)
  · intro refused
    refine Machine.along_of_invariant _
      (fun talk input held admits => stays talk input held admits.1 admits.2) ?_ start
      (Machine.along_and delivers refused)
    rintro talk ⟨_, env, _⟩ ⟨acquainted, stranger⟩ ⟨delivers, refused⟩ data packet k rfl rfl parsed
      _ connects
    obtain ⟨q, e, sent, rfl, dst, from'⟩ := delivers
    obtain rfl := call.distinct from'
    have join : packet.header.pktType = pktJoin := by
      rw [acquainted.sound.header sent parsed]
      exact stranger.joins e sent dst
    exact absurd ⟨rfl, _, packet, k, rfl, parsed, join, connects⟩ refused

end Hosts

end Call

/-! ## The first JOIN -/

namespace Sample

/-- A joiner sends its JOIN, and the host handles it. -/
def letIn : List (Member Bool × Env Unit × Action) :=
  [(.joiner false, env 1 0, .join 5000), (.host, env 0 1, .event (.recv join (addr 1)))]

/-- The joiner handles the answer, the host its HELLO, and the joiner the HELLO_ACK. -/
def shakesHands : List (Member Bool × Env Unit × Action) :=
  letIn ++ [(.joiner false, env 1 2, .event (.recv (wires hostOfOne.out) (addr 0))),
    (.host, env 0 3, .event (.recv (hello 1) (addr 1))),
    (.joiner false, env 1 4, .event (.recv (wires (hostOfOne.node.handleIncoming
      Primitives.transparent (env 0 3) (hello 1) (addr 1)).out) (addr 0)))]

theorem letIn_delivers : (call.talking Primitives.transparent).Along
    (fun talk => call.Delivers talk.mesh) call.silence letIn := by
  refine ⟨?_, ?_, trivial⟩
  · exact fun same => by cases same
  · exact ⟨.joiner false, by decide +kernel⟩

theorem shakesHands_delivers : (call.talking Primitives.transparent).Along
    (fun talk => call.Delivers talk.mesh) call.silence shakesHands := by
  refine ⟨?_, ?_, ?_, ?_, ?_, trivial⟩
  · exact fun same => by cases same
  · exact ⟨.joiner false, by decide +kernel⟩
  · exact ⟨.host, by decide +kernel⟩
  · exact ⟨.joiner false, by decide +kernel⟩
  · exact ⟨.host, by decide +kernel⟩

/-- The joiner is connected at the host, and has heard nothing. -/
theorem letIn_not_bidirectional : ¬ call.Bidirectional .host (.joiner false)
    ((call.talking Primitives.transparent).run call.silence letIn) := by
  intro both
  have granted : (addr 1, (1 : UInt8)) ∈
      ((call.talking Primitives.transparent).run call.silence letIn).mesh.grants := by
    decide +kernel
  have connected : (((call.talking Primitives.transparent).run call.silence letIn).mesh.net.node
      .host).Connected 1 := by
    decide +kernel
  have unheard : (.joiner false, addr 0) ∉
      ((call.talking Primitives.transparent).run call.silence letIn).handled := by
    decide +kernel
  exact unheard (both 1 (Or.inr granted) connected).2

end Sample

/-- The joiner is connected at the host too early, and the host at the joiner when they
have heard each other. -/
theorem Call.shaken_hands_heard :
    (¬ (Sample.call.talking Primitives.transparent).Along
      (Sample.call.HeardBack Primitives.transparent .host (.joiner false)) Sample.call.silence
        Sample.shakesHands) ∧
    (((Sample.call.talking Primitives.transparent).run Sample.call.silence
      Sample.shakesHands).mesh.net.node (.joiner false)).Connected 0 ∧
    ∀ done, done <+: Sample.shakesHands → Sample.call.Bidirectional (.joiner false) .host
      ((Sample.call.talking Primitives.transparent).run Sample.call.silence done) := by
  have correct : Primitives.transparent.aead.Correct := Aead.transparent_correct
  have both := bidirectional_iff Sample.call correct Sample.shakesHands
    Sample.shakesHands_delivers
  refine ⟨fun back => ?_, by decide +kernel, ?_⟩
  · exact Sample.letIn_not_bidirectional
      ((both .host (.joiner false)).mpr back _ (List.prefix_append ..))
  · exact (both (.joiner false) .host).mpr
      (heardBack_guest Sample.call correct Sample.shakesHands_delivers _)

/-- **A joiner is connected before it has heard anything.** -/
theorem Call.joiner_connected_unheard :
    ¬ ∀ inputs : List (Member Bool × Env Unit × Action),
      (Sample.call.talking Primitives.transparent).Along
        (fun talk => Sample.call.Delivers talk.mesh) Sample.call.silence inputs →
      ∀ p q, Sample.call.Bidirectional p q
        ((Sample.call.talking Primitives.transparent).run Sample.call.silence inputs) :=
  fun claim => Sample.letIn_not_bidirectional (claim Sample.letIn Sample.letIn_delivers _ _)

end VoiceChat
