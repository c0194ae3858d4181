import VoiceChat.Session.Answers
import VoiceChat.Session.ArrivalOrder
import VoiceChat.Session.Coherence
import VoiceChat.Session.Stream

/-!
# Everyone gets every frame

What the main loop sends to its peers it sends in a walk through the table. Every entry
of the table carries the id it is kept under, in every state that a session reaches, so
the walk comes to each connected peer once, and finds its entry as it was before the
walk. A frame therefore goes to each connected peer once, and to nobody else
(`frame_fans_out`).

Over a run, the packets for a peer number its frames: each carries in its sequence
number how many frames came before it while the peer was connected, whether or not all
of them could be sealed (`allSpoken_counted`). A gap in the numbers is a frame that was
lost, never one that was not spoken.
-/

set_option autoImplicit false

namespace VoiceChat

namespace PeerManager

variable {D : Type}

/-- Every entry carries the id that it is kept under. -/
def Keyed (pm : PeerManager D) : Prop := ∀ id peer, pm.getPeer id = some peer → peer.id = id

namespace Keyed

variable {pm pm' : PeerManager D}

theorem modifyPeer (keyed : pm.Keyed) (id : UInt8) {f : RemotePeer D → RemotePeer D}
    (named : ∀ peer, (f peer).id = peer.id) : (pm.modifyPeer id f).Keyed := by
  intro k peer' known'
  rw [getPeer_modifyPeer] at known'
  split_ifs at known'
  · obtain ⟨peer, known, rfl⟩ := Option.map_eq_some_iff.mp known'
    exact (named peer).trans (keyed k peer known)
  · exact keyed k peer' known'

theorem addPeer (keyed : pm.Keyed) {id : UInt8} {addr : SocketAddr} {newDecoder : Option D}
    {now : Instant} (added : pm.addPeer id addr newDecoder now = .ok pm') : pm'.Keyed := by
  by_cases self : id = pm.localId
  · rwa [addPeer_self added self]
  · obtain ⟨entered, table, origin⟩ := getPeer_addPeer added self
    intro k peer' known'
    rw [table] at known'
    split_ifs at known' with here
    · obtain rfl := Option.some.inj known'
      rcases origin with ⟨_, decoder, rfl⟩ | ⟨old, known, rfl⟩
      · exact here.symm
      · exact (keyed id old known).trans here.symm
    · exact keyed k peer' known'

/-- Who is connected, and where. -/
theorem mem_connectedPeers (keyed : pm.Keyed) {order : HashOrder UInt8} {id : UInt8}
    {addr : SocketAddr} : (id, addr) ∈ pm.connectedPeers order ↔
      ∃ peer, pm.getPeer id = some peer ∧ peer.state = .connected ∧ peer.addr = addr := by
  rw [PeerManager.mem_connectedPeers]
  constructor
  · rintro ⟨k, peer, known, connected, same⟩
    obtain ⟨rfl, rfl⟩ := Prod.mk.inj same
    exact ⟨peer, keyed k peer known ▸ known, connected, rfl⟩
  · rintro ⟨peer, known, connected, rfl⟩
    exact ⟨id, peer, known, connected, by rw [keyed id peer known]⟩

/-- Nobody is listed twice. -/
theorem nodup_connectedPeers (keyed : pm.Keyed) (order : HashOrder UInt8) :
    ((pm.connectedPeers order).map Prod.fst).Nodup := by
  have ids : (pm.connectedPeers order).map Prod.fst =
      ((pm.peers.values order).filter RemotePeer.isConnected).map RemotePeer.id := List.map_map
  have all : (pm.peers.values order).map RemotePeer.id = order.1 pm.peers.keys :=
    HashMap.map_values keyed order
  rw [ids]
  refine List.Nodup.sublist (List.filter_sublist.map _) ?_
  rw [all, (order.2 _).nodup_iff]
  exact pm.peers.keys_nodup

end Keyed

end PeerManager

namespace Node

variable {D : Type} {prim : Primitives D}

/-- Every entry of the table carries the id that it is kept under. -/
def Keyed (node : Node D) : Prop := node.peerMgr.Keyed

namespace Keyed

theorem of_frame {node node' : Node D} (keyed : node.Keyed) (frame : Frame place node node') :
    node'.Keyed := by
  intro id peer' known'
  obtain ⟨peer, known, same⟩ := frame.getPeer_back known'
  exact (congrArg Prod.fst same).trans (keyed id peer known)

theorem handleJoin {node : Node D} (keyed : node.Keyed) (env : Env D) (srcAddr : SocketAddr)
    (packet : Packet) : (Node.handleJoin prim node env srcAddr packet).node.Keyed := by
  rcases handleJoin_cases prim node env srcAddr packet with
    ⟨e, refused⟩ | ⟨_, id, peerMgr, _, allocated, ⟨e, full⟩ | ⟨peerMgr', added, answered⟩⟩
  · rwa [refused]
  · obtain ⟨_, _, _, rfl⟩ := PeerManager.allocatePeerId_eq_ok allocated
    rwa [full]
  · obtain ⟨_, _, _, rfl⟩ := PeerManager.allocatePeerId_eq_ok allocated
    rw [answered, sendPeerList_node]
    have keyed' : PeerManager.Keyed { node.peerMgr with
      nextPeerId := node.peerMgr.nextPeerId + 1 } := keyed
    exact (keyed'.addPeer added).modifyPeer id fun _ => rfl

theorem handlePeerList {node : Node D} (keyed : node.Keyed) (env : Env D) (srcAddr : SocketAddr)
    (packet : Packet) : (Node.handlePeerList prim node env srcAddr packet).node.Keyed := by
  rcases handlePeerList_cases prim node env srcAddr packet with
    ⟨e, refused⟩ | ⟨myId, list, _, greeted⟩
  · rwa [refused]
  · rw [greeted]
    refine greetPeers_preserves PeerManager.Keyed [] ?_ keyed
    intro id addr _ _ pm pm' added keyed
    have entered := keyed.addPeer added
    exact ⟨entered, entered.modifyPeer id fun _ => rfl⟩

theorem handleHello {node : Node D} (keyed : node.Keyed) (env : Env D) (srcAddr : SocketAddr)
    (packet : Packet) : (Node.handleHello prim node env srcAddr packet).node.Keyed := by
  rcases handleHello_cases prim node env srcAddr packet with
    ⟨e, refused⟩ | ⟨_, peerMgr, _, greeting, answered⟩
  · rwa [refused]
  · rw [answered, sendSealed_node]
    have entered : peerMgr.Keyed := by
      rcases greeted_eq_ok greeting with ⟨_, _, rfl⟩ | ⟨_, added⟩
      · exact keyed
      · exact PeerManager.Keyed.addPeer keyed added
    exact entered.modifyPeer _ fun _ => rfl

/-- Every step keeps the entries under their ids. -/
theorem step {node : Node D} (keyed : node.Keyed) (env : Env D) (event : Event) :
    (Node.step prim node env event).1.Keyed := by
  by_cases moves : ∃ data srcAddr packet, event = .recv data srcAddr ∧
      Packet.parse data = .ok packet ∧ MovesPeers packet
  · obtain ⟨data, srcAddr, packet, rfl, parsed, type⟩ := moves
    change (handleIncoming prim node env data srcAddr).node.Keyed
    rw [handleIncoming_eq prim parsed]
    rcases type with join | peerList | hello
    · rw [handlePacket_join prim join]
      exact keyed.handleJoin env srcAddr packet
    · rw [handlePacket_peerList prim peerList]
      exact keyed.handlePeerList env srcAddr packet
    · rw [handlePacket_hello prim hello]
      exact keyed.handleHello env srcAddr packet
  · exact keyed.of_frame (step_place fun data srcAddr packet received parsed type =>
      moves ⟨data, srcAddr, packet, received, parsed, type⟩)

end Keyed

/-- A session starts without peers. -/
theorem Starts.unknown {node : Node D} (starts : node.Starts) (id : UInt8) :
    node.getPeer id = none := by
  cases starts with
  | host key sessionId keyExchange => rfl
  | joiner key keyExchange => rfl

theorem Starts.keyed {node : Node D} (starts : node.Starts) : node.Keyed := by
  intro id peer known
  cases (starts.unknown id).symm.trans known

/-- **In every state of a session** the entries are kept under their ids. -/
theorem Reached.keyed {node : Node D} (reached : node.Reached prim) : node.Keyed := by
  obtain ⟨start, inputs, starts, rfl⟩ := reached
  exact Machine.invariant (M := nodeMachine prim) Keyed
    (fun _ input keyed _ => keyed.step input.1 input.2) starts.keyed
    (Machine.along_true (nodeMachine prim) start inputs)

/-! ## A walk through the peers -/

section Walk

variable {body : Node D → UInt8 × SocketAddr → Node D × List Emission} {id : UInt8}

/-- What a walk sends to one peer. -/
def walkFor (body : Node D → UInt8 × SocketAddr → Node D × List Emission) (id : UInt8)
    (node : Node D) (targets : List (UInt8 × SocketAddr)) : List Emission :=
  ((eachPeer body).observe fun node target =>
    if target.1 = id then (body node target).2 else []).outputs node targets

theorem walkFor_cons_self (node : Node D) {target : UInt8 × SocketAddr} (same : target.1 = id)
    (rest : List (UInt8 × SocketAddr)) : walkFor body id node (target :: rest) =
      (body node target).2 ++ walkFor body id (body node target).1 rest :=
  congrArg (· ++ _) (if_pos same)

theorem walkFor_cons_of_ne (node : Node D) {target : UInt8 × SocketAddr} (other : target.1 ≠ id)
    (rest : List (UInt8 × SocketAddr)) : walkFor body id node (target :: rest) =
      walkFor body id (body node target).1 rest :=
  (congrArg (· ++ _) (if_neg other)).trans (List.nil_append _)

/-- A walk that does not come to a peer sends nothing to it. -/
theorem walkFor_of_notMem (node : Node D) {targets : List (UInt8 × SocketAddr)}
    (absent : id ∉ targets.map Prod.fst) : walkFor body id node targets = [] := by
  induction targets generalizing node with
  | nil => rfl
  | cons target rest ih =>
    rw [List.map_cons, List.mem_cons, not_or] at absent
    rw [walkFor_cons_of_ne node (Ne.symm absent.1), ih _ absent.2]

/-- **A walk sends to each of its peers in turn.** -/
theorem outputs_eq_walkFor (node : Node D) {targets : List (UInt8 × SocketAddr)}
    (once : (targets.map Prod.fst).Nodup) : (eachPeer body).outputs node targets =
      targets.flatMap fun target => walkFor body target.1 node targets := by
  induction targets generalizing node with
  | nil => rfl
  | cons target rest ih =>
    obtain ⟨absent, once⟩ := List.nodup_cons.mp once
    have others : (rest.flatMap fun target' => walkFor body target'.1 node (target :: rest)) =
        rest.flatMap fun target' => walkFor body target'.1 (body node target).1 rest := by
      refine List.flatMap_congr fun target' member => walkFor_cons_of_ne node ?_ rest
      exact fun same => absent (same ▸ List.mem_map_of_mem member)
    rw [List.flatMap_cons, walkFor_cons_self node rfl, walkFor_of_notMem _ absent, List.append_nil,
      others, ← ih _ once]
    rfl

/-- A walk whose body leaves the entries of other peers alone leaves the entry of a peer
that it does not come to. -/
theorem walk_of_notMem (apart : ∀ node target, id ≠ target.1 →
      (body node target).1.getPeer id = node.getPeer id) (node : Node D)
    {targets : List (UInt8 × SocketAddr)} (absent : id ∉ targets.map Prod.fst) :
    ((eachPeer body).run node targets).getPeer id = node.getPeer id :=
  Machine.invariant (M := eachPeer body) (P := fun _ target => id ≠ target.1)
    (fun node' => node'.getPeer id = node.getPeer id)
    (fun node' target same other => (apart node' target other).trans same) rfl
    (Machine.along_of_forall fun _ _ member same => absent (same ▸ List.mem_map_of_mem member))

/-- Of a peer that it comes to, it finds the entry as it was, and leaves it as the body
does. -/
theorem walk_at (apart : ∀ node target, id ≠ target.1 →
      (body node target).1.getPeer id = node.getPeer id)
    (kept : ∀ node target, Keeps node (body node target).1) (node : Node D)
    {targets : List (UInt8 × SocketAddr)} (once : (targets.map Prod.fst).Nodup)
    {addr : SocketAddr} (member : (id, addr) ∈ targets) :
    ∃ node', Keeps node node' ∧ node'.getPeer id = node.getPeer id ∧
      walkFor body id node targets = (body node' (id, addr)).2 ∧
      ((eachPeer body).run node targets).getPeer id = (body node' (id, addr)).1.getPeer id := by
  induction targets generalizing node with
  | nil => cases member
  | cons target rest ih =>
    obtain ⟨absent, once⟩ := List.nodup_cons.mp once
    rcases List.mem_cons.mp member with rfl | member
    · refine ⟨node, Keeps.refl node, rfl, ?_, walk_of_notMem apart _ absent⟩
      rw [walkFor_cons_self node (rfl : (id, addr).1 = id), walkFor_of_notMem _ absent,
        List.append_nil]
    · have other : target.1 ≠ id := fun same => absent (same ▸ List.mem_map_of_mem member)
      obtain ⟨node', keeps, entry, sent, after⟩ := ih (body node target).1 once member
      refine ⟨node', (kept node target).trans keeps, entry.trans (apart node target other.symm), ?_,
        after⟩
      rw [walkFor_cons_of_ne node other, sent]

end Walk

/-! ## One frame -/

theorem audioFor_eq_walkFor (prim : Primitives D) (node : Node D) (env : Env D) (opus : Bytes)
    (id : UInt8) : audioFor prim node env opus id =
      walkFor (sendFrameTo prim opus) id node (node.peerMgr.connectedPeers env.order) := rfl

theorem sendFrameTo_keeps (opus : Bytes) (node : Node D) (target : UInt8 × SocketAddr) :
    Keeps node (sendFrameTo prim opus node target).1 := by
  have framed : Frame place node (sendFrameTo prim opus node target).1 :=
    sendFrameTo_frame opus node target (fun _ _ => rfl) fun _ _ _ _ => rfl
  exact framed.toKeeps

/-- A peer that is not connected is no target. -/
theorem notMem_targets {node : Node D} (keyed : node.Keyed) (env : Env D) {id : UInt8}
    (apart : ¬ node.Connected id) :
    id ∉ (node.peerMgr.connectedPeers env.order).map Prod.fst := by
  intro member
  obtain ⟨⟨id', addr⟩, listed, rfl⟩ := List.mem_map.mp member
  obtain ⟨peer, known, connected, _⟩ :=
    (PeerManager.Keyed.mem_connectedPeers keyed).mp listed
  exact apart ⟨peer, known, connected⟩

/-- A frame says nothing to a peer that is not connected, and leaves its entry alone. -/
theorem audioFor_of_apart (prim : Primitives D) {node : Node D} (keyed : node.Keyed) (env : Env D)
    (opus : Bytes) {id : UInt8} (apart : ¬ node.Connected id) :
    audioFor prim node env opus id = [] ∧
      (sendFrame prim node env opus).1.getPeer id = node.getPeer id := by
  have absent := notMem_targets keyed env apart
  exact ⟨walkFor_of_notMem node absent, walk_of_notMem
    (fun node target other => sendFrameTo_getPeer_of_ne prim opus node other) node absent⟩

/-- What is said to a connected peer in one frame: one packet with the frame and the next
sequence number, if it could be sealed; and the number is used up in any case. -/
theorem audioFor_of_connected (prim : Primitives D) {node : Node D} (keyed : node.Keyed)
    (env : Env D) (opus : Bytes) {id : UInt8} {peer : RemotePeer D}
    (known : node.getPeer id = some peer) (connected : peer.state = .connected) :
    (audioFor prim node env opus id = [] ∨ ∃ e, audioFor prim node env opus id = [e] ∧
        e.plaintext = opus ∧ e.dst = peer.addr ∧ e.header.pktType = pktAudio ∧
        e.header.seqNum = peer.sendSeq ∧ (e.scope = .psk ↔ peer.sendContext = none)) ∧
      ∃ peer', (sendFrame prim node env opus).1.getPeer id = some peer' ∧
        peer'.sendSeq = peer.sendSeq + 1 := by
  have listed : (id, peer.addr) ∈ node.peerMgr.connectedPeers env.order :=
    (PeerManager.Keyed.mem_connectedPeers keyed).mpr ⟨peer, known, connected, rfl⟩
  obtain ⟨node', _, entry, sent, after⟩ := walk_at
    (fun node target other => sendFrameTo_getPeer_of_ne prim opus node other)
    (sendFrameTo_keeps opus) node (PeerManager.Keyed.nodup_connectedPeers keyed env.order) listed
  have known' : node'.getPeer (id, peer.addr).1 = some peer := entry.trans known
  rw [audioFor_eq_walkFor, sent]
  refine ⟨?_, ?_⟩
  · rcases sendFrameTo_cases prim opus node' (id, peer.addr) with
      none | ⟨e, peer', one, found, plaintext, dst, context⟩
    · exact Or.inl none
    · cases known'.symm.trans found
      refine Or.inr ⟨e, one, plaintext, dst, ?_⟩
      rcases context with ⟨ctx, complete, scope, _, header⟩ | ⟨incomplete, scope, _, header, _⟩
      · rw [header, scope, complete]
        exact ⟨rfl, rfl, nofun, nofun⟩
      · rw [header, scope, incomplete]
        exact ⟨rfl, rfl, fun _ => rfl, fun _ => rfl⟩
  · obtain ⟨peer', entered, sendSeq, _⟩ :=
      sendFrameTo_numbering prim opus node' known'
    exact ⟨peer', after.trans entered, sendSeq⟩

/-- **Every frame goes to everyone, once**: in every state of a session, what a frame tick
sends is for each connected peer at most one packet, with the frame, to the address of
the peer, and nothing else. -/
theorem frame_fans_out {node : Node D} (reached : node.Reached prim) (env : Env D)
    (opus : Bytes) :
    (sendFrame prim node env opus).2 = ((node.peerMgr.connectedPeers env.order).flatMap
        fun target => audioFor prim node env opus target.1) ∧
      ((node.peerMgr.connectedPeers env.order).map Prod.fst).Nodup ∧
      ∀ id addr, (id, addr) ∈ node.peerMgr.connectedPeers env.order →
        (audioFor prim node env opus id).length ≤ 1 ∧
        ∀ e ∈ audioFor prim node env opus id, e.plaintext = opus ∧ e.dst = addr := by
  have keyed := reached.keyed
  have once := PeerManager.Keyed.nodup_connectedPeers keyed env.order
  refine ⟨outputs_eq_walkFor node once, once, fun id addr listed => ?_⟩
  obtain ⟨peer, known, connected, rfl⟩ :=
    (PeerManager.Keyed.mem_connectedPeers keyed).mp listed
  rcases (audioFor_of_connected prim keyed env opus known connected).1 with
    none | ⟨e, one, plaintext, dst, _⟩
  · rw [none]
    exact ⟨Nat.zero_le _, fun e member => absurd member List.not_mem_nil⟩
  · rw [one]
    exact ⟨Nat.le_refl _, fun e' member => List.mem_singleton.mp member ▸ ⟨plaintext, dst⟩⟩

/-- With three peers, a frame goes to each of them. -/
theorem frame_fans_out_to_three :
    let host := Sample.hostOf [1, 2, 3]
    let env := Sample.env 0 1
    ((host.peerMgr.connectedPeers env.order).map Prod.snd).length = 3 ∧
      (sendFrame Primitives.transparent host env [1, 2]).2 =
        (host.peerMgr.connectedPeers env.order).flatMap
          (fun target => audioFor Primitives.transparent host env [1, 2] target.1) ∧
      ∀ id addr, (id, addr) ∈ host.peerMgr.connectedPeers env.order →
        ∀ e ∈ audioFor Primitives.transparent host env [1, 2] id,
          e.plaintext = [1, 2] ∧ e.dst = addr := by
  intro host env
  have reached : host.Reached Primitives.transparent :=
    ⟨Sample.host, Sample.joins [1, 2, 3], .host .., rfl⟩
  obtain ⟨all, _, each⟩ := frame_fans_out reached env [1, 2]
  exact ⟨by decide +kernel, all, fun id addr listed => (each id addr listed).2⟩

/-! ## Runs -/

/-- The frame that an event says to a peer, with its packets. -/
def spoken (prim : Primitives D) (id : UInt8) (node : Node D) (env : Env D) :
    Event → List (Bytes × List Emission)
  | .frame opus => if node.Connected id then [(opus, audioFor prim node env opus id)] else []
  | _ => []

/-- The frames that a run says to a peer, each with its packets. -/
def allSpoken (prim : Primitives D) (id : UInt8) (node : Node D) (inputs : List (Env D × Event)) :
    List (Bytes × List Emission) :=
  ((nodeMachine prim).observe fun node input => spoken prim id node input.1 input.2).outputs node
    inputs

theorem allSpoken_cons (id : UInt8) (node : Node D) (input : Env D × Event)
    (rest : List (Env D × Event)) : allSpoken prim id node (input :: rest) =
      spoken prim id node input.1 input.2 ++
        allSpoken prim id (step prim node input.1 input.2).1 rest := rfl

/-- An event that says nothing to a peer leaves its sequence number. -/
theorem sendSeq_of_silent {node : Node D} (keyed : node.Keyed) {id : UInt8} {peer : RemotePeer D}
    (known : node.getPeer id = some peer) {env : Env D} {event : Event}
    (silent : spoken prim id node env event = []) :
    ∃ peer', (step prim node env event).1.getPeer id = some peer' ∧ peer'.sendSeq = peer.sendSeq := by
  by_cases sends : SendsFrame event
  · obtain ⟨opus, rfl⟩ := sends
    have apart : ¬ node.Connected id := by
      intro connected
      rw [spoken, if_pos connected] at silent
      cases silent
    exact ⟨peer, (audioFor_of_apart prim keyed env opus apart).2.trans known, rfl⟩
  · obtain ⟨peer', known', renumbered⟩ := step_renumbers prim node env sends id peer known
    exact ⟨peer', known', renumbered.sendSeq⟩

/-- An event that says something to a peer is a frame for a connected one. -/
theorem of_spoken {node : Node D} {id : UInt8} {peer : RemotePeer D}
    (known : node.getPeer id = some peer) {env : Env D} {event : Event}
    (spoke : spoken prim id node env event ≠ []) :
    ∃ opus, event = .frame opus ∧ peer.state = .connected ∧
      spoken prim id node env event = [(opus, audioFor prim node env opus id)] := by
  cases event with
  | frame opus =>
    rw [spoken] at spoke ⊢
    split_ifs at spoke ⊢ with connected
    · obtain ⟨peer', known', connected⟩ := connected
      cases known.symm.trans known'
      exact ⟨opus, rfl, connected, rfl⟩
    · exact absurd rfl spoke
  | recv _ _ | playout | keepalive | ping | adapt _ => exact absurd rfl spoke

/-- The frame that a packet carries, with its sequence number. -/
def frameOf (e : Emission) : UInt16 × Bytes := (e.header.seqNum, e.plaintext)

/-- Consecutive numbers count on from the first. -/
theorem numbered_cons (first : UInt16) (opus : Bytes) (rest : List Bytes) :
    numbered first (opus :: rest) = (first, opus) :: numbered (first + 1) rest := by
  rw [numbered, List.zipIdx_cons', List.map_cons, List.map_map, numbered]
  refine congrArg₂ List.cons (congrArg (·, opus) (add_zero first)) ?_
  refine List.map_congr_left fun entry _ => ?_
  exact congrArg (·, entry.1) (SerialNumber.add_one_add_ofNat first entry.2).symm

/-- Frames in a row, each with the packet that carries it under its number, or with none. -/
inductive Counted : UInt16 → List (Bytes × List Emission) → Prop
  | nil {first : UInt16} : Counted first []
  | cons {first : UInt16} {opus : Bytes} {packets : List Emission}
      {rest : List (Bytes × List Emission)}
      (carried : packets = [] ∨ ∃ e, packets = [e] ∧ frameOf e = (first, opus))
      (later : Counted (first + 1) rest) : Counted first ((opus, packets) :: rest)

namespace Counted

variable {first : UInt16} {said : List (Bytes × List Emission)}

/-- The packets are some of the frames, under their numbers. -/
theorem numbered (counted : Counted first said) :
    ((said.flatMap Prod.snd).map frameOf).Sublist (numbered first (said.map Prod.fst)) := by
  induction counted with
  | nil => exact List.Sublist.refl _
  | cons carried _ ih =>
    rw [List.flatMap_cons, List.map_append, List.map_cons, numbered_cons]
    rcases carried with none | ⟨e, one, frame⟩
    · rw [none]
      exact ih.cons _
    · rw [one, List.map_singleton, List.singleton_append, frame]
      exact ih.cons_cons _

/-- A packet carries its frame, under the number of the place of the frame. -/
theorem frameOf_eq (counted : Counted first said) {place : ℕ} {opus : Bytes}
    {packets : List Emission} (there : said[place]? = some (opus, packets)) {e : Emission}
    (member : e ∈ packets) : frameOf e = (first + UInt16.ofNat place, opus) := by
  induction counted generalizing place with
  | nil => cases there
  | @cons first _ _ _ carried _ ih =>
    cases place with
    | zero =>
      obtain ⟨rfl, rfl⟩ := Prod.mk.inj (Option.some.inj there)
      rcases carried with rfl | ⟨e', rfl, frame⟩
      · cases member
      · rw [List.mem_singleton.mp member, frame]
        exact congrArg (·, _) (add_zero first).symm
    | succ place =>
      rw [ih there, SerialNumber.add_one_add_ofNat]

end Counted

/-- **The sequence numbers count the frames** that are said to a peer, whether they could be
sealed or not. -/
theorem allSpoken_counted (inputs : List (Env D × Event)) {node : Node D} (keyed : node.Keyed)
    {id : UInt8} {peer : RemotePeer D} (known : node.getPeer id = some peer) :
    Counted peer.sendSeq (allSpoken prim id node inputs) := by
  induction inputs generalizing node peer with
  | nil => exact .nil
  | cons input rest ih =>
    rw [allSpoken_cons]
    by_cases silent : spoken prim id node input.1 input.2 = []
    · obtain ⟨peer', known', same⟩ := sendSeq_of_silent keyed known silent
      rw [silent, List.nil_append, ← same]
      exact ih (keyed.step input.1 input.2) known'
    · obtain ⟨opus, event, connected, spoke⟩ := of_spoken known silent
      obtain ⟨said, peer', known', next⟩ :=
        audioFor_of_connected prim keyed input.1 opus known connected
      have known'' : (step prim node input.1 input.2).1.getPeer id = some peer' := by
        rw [event]
        exact known'
      have later := ih (keyed.step input.1 input.2) known''
      rw [next] at later
      rw [spoke]
      refine .cons (said.imp_right ?_) later
      rintro ⟨e, one, plaintext, _, _, seqNum, _⟩
      exact ⟨e, one, congrArg₂ Prod.mk seqNum plaintext⟩

end Node

end VoiceChat
