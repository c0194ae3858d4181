import Mathlib.Tactic.Linarith
import VoiceChat.Jitter.Holdoff
import VoiceChat.Jitter.Playout
import VoiceChat.Library.Potential
import VoiceChat.Session.Entries
import VoiceChat.Session.Once
import VoiceChat.Session.Timers

/-!
# The jitter buffers of a session

Each peer has a jitter buffer, and the session reaches it in three ways only: audio of
the peer that is neither a replay nor undecodable is pushed, a playout tick pops while
the peer is connected, and every adaptation is passed on. Whatever else happens to the
entry of the peer does not touch it. So the buffer of a peer is at every time a new
jitter buffer after a run of these operations, and what the playout takes from it is
what that run pops (`buffers_run`): what is known of all runs of a jitter buffer holds
in a session.

The time that the adaptations are told is that of the clock. A lowered target depth
uses up five seconds of it, so in a session no depth is lowered more often than the
clock allows (`depth_lowered_seldom`).
-/

set_option autoImplicit false

namespace VoiceChat

namespace Node

variable {D : Type} {prim : Primitives D}

/-- What an event does to the jitter buffer of a peer. -/
def bufferOps (prim : Primitives D) (node : Node D) (id : UInt8) : Event → List (JitterOp Pcm)
  | .recv data _ =>
    match Packet.parse data with
    | .error _ => []
    | .ok packet =>
      if packet.header.pktType = pktAudio ∧ packet.header.peerId = id then
        ((pushed prim node packet).map (JitterOp.push packet.header.seqNum)).toList
      else []
  | .playout =>
    match node.getPeer id with
    | none => []
    | some peer => if peer.state = .connected then [.pop] else []
  | .adapt elapsedSecs =>
    match node.getPeer id with
    | none => []
    | some _ => [.adapt elapsedSecs]
  | _ => []

/-- What a playout tick takes from the jitter buffer of a peer: the frame whose turn it
is, or nothing, which is concealed. -/
def taken (node : Node D) (id : UInt8) : Event → List (Option Pcm)
  | .playout =>
    match node.getPeer id with
    | none => []
    | some peer => if peer.state = .connected then [peer.jitterBuffer.pop.1] else []
  | _ => []

/-! ## One step -/

/-- No packet but audio touches a jitter buffer. -/
theorem handlePacket_jitterBuffer (node : Node D) (env : Env D) (srcAddr : SocketAddr)
    {packet : Packet} (other : packet.header.pktType ≠ pktAudio) :
    Grows RemotePeer.jitterBuffer JitterBuffer.new node
      (handlePacket prim node env srcAddr packet).node := by
  have placeless : Placeless (RemotePeer.jitterBuffer : RemotePeer D → _) JitterBuffer.new :=
    ⟨fun _ _ _ _ => rfl, fun _ _ => rfl, fun _ _ _ => rfl⟩
  exact placeless.grows_handlePacket node env srcAddr packet (fun type => absurd type other)
    (fun _ _ _ => rfl) fun _ _ _ _ _ => rfl

/-- A tick pops from the buffer of a connected peer. -/
theorem playPeer_jitterBuffer (peer : RemotePeer D) :
    (playPeer prim peer).1.jitterBuffer =
      peer.jitterBuffer.run (if peer.state = .connected then [.pop] else []) := by
  by_cases connected : peer.state = .connected
  · rw [playPeer, if_neg fun apart => apart connected, if_pos connected]
    dsimp only
    split <;> rfl
  · rw [playPeer, if_pos connected, if_neg connected]
    rfl

/-- **One step** does to a jitter buffer what its event says. -/
theorem step_operated (prim : Primitives D) (node : Node D) (env : Env D) (event : Event)
    (id : UInt8) : Feeds RemotePeer.jitterBuffer (jitterMachine Pcm) JitterBuffer.new id
      (bufferOps prim node id event) node (step prim node env event).1 := by
  cases event with
  | recv data srcAddr =>
      change Feeds _ _ _ id _ node (handleIncoming prim node env data srcAddr).node
      cases parsed : Packet.parse data with
      | error e =>
        rw [bufferOps, handleIncoming, parsed]
        exact Or.inl rfl
      | ok packet =>
        rw [bufferOps, parsed, handleIncoming_eq prim parsed]
        dsimp only
        by_cases type : packet.header.pktType = pktAudio
        · refine Or.inl ?_
          rw [handlePacket_audio prim type, handleAudio_jitterBuffer]
          refine Option.map_congr fun peer _ => ?_
          by_cases named : packet.header.peerId = id
          · rw [if_pos ⟨type, named⟩]
            cases pushed prim node packet with
            | none => rfl
            | some pcm => exact if_pos named.symm
          · rw [if_neg fun both => named both.2]
            cases pushed prim node packet with
            | none => rfl
            | some pcm => exact if_neg (Ne.symm named)
        · rw [if_neg fun both => type both.1]
          exact .of_grows (handlePacket_jitterBuffer node env srcAddr type)
  | frame opus =>
      exact .of_grows (Grows.of_frame (sendFrame_frame node env opus (fun _ _ => rfl)
        fun _ _ _ _ => rfl))
  | playout =>
      refine Or.inl ?_
      change ((node.peerMgr.peers.mapValues fun peer => (playPeer prim peer).1).lookup id).map _ = _
      rw [HashMap.lookup_mapValues, Option.map_map]
      refine Option.map_congr fun peer known => (playPeer_jitterBuffer peer).trans ?_
      have known' : node.getPeer id = some peer := known
      rw [bufferOps, known']
  | keepalive => exact .of_grows (Grows.of_frame (keepalive_frame node env fun _ _ => rfl))
  | ping => exact .of_grows (Grows.of_frame (ping_frame node env fun _ _ _ => rfl))
  | adapt elapsedSecs =>
      refine Or.inl ?_
      change ((node.peerMgr.peers.mapValues fun peer => { peer with
        jitterBuffer := peer.jitterBuffer.adapt elapsedSecs }).lookup id).map _ = _
      rw [HashMap.lookup_mapValues, Option.map_map]
      refine Option.map_congr fun peer known => ?_
      have known' : node.getPeer id = some peer := known
      rw [bufferOps, known']
      rfl

/-- What is pushed was opened, and decoded by the decoder of its sender. -/
theorem pushed_eq_some {node : Node D} {packet : Packet} {pcm : Pcm}
    (pushes : pushed prim node packet = some pcm) :
    ∃ opus peerKeyed peer, openAudio prim node packet = .ok (opus, peerKeyed) ∧
      node.getPeer packet.header.peerId = some peer ∧
      (prim.decode peer.decoder opus).2 = some pcm := by
  unfold pushed at pushes
  split at pushes
  · cases pushes
  · rename_i opus peerKeyed opened
    split at pushes
    · cases pushes
    · rename_i peer sender
      split_ifs at pushes
      exact ⟨opus, peerKeyed, peer, opened, sender, pushes⟩

/-- No event resets a buffer, and what one pushes was received as audio in the name of the
peer. -/
theorem of_mem_bufferOps {node : Node D} {id : UInt8} {event : Event} {op : JitterOp Pcm}
    (member : op ∈ bufferOps prim node id event) :
    op.isReset = false ∧ ∀ seqNum pcm, op = .push seqNum pcm → ∃ data srcAddr packet,
      event = .recv data srcAddr ∧ Packet.parse data = .ok packet ∧
      packet.header.pktType = pktAudio ∧ packet.header.peerId = id ∧
      packet.header.seqNum = seqNum ∧ pushed prim node packet = some pcm := by
  unfold bufferOps at member
  cases event with
  | recv data srcAddr =>
      dsimp only at member
      split at member
      · cases member
      · rename_i packet parsed
        split_ifs at member with named
        · rw [Option.mem_toList, Option.map_eq_some_iff] at member
          obtain ⟨pcm, pushes, rfl⟩ := member
          refine ⟨rfl, ?_⟩
          rintro _ _ ⟨⟩
          exact ⟨data, srcAddr, packet, rfl, parsed, named.1, named.2, rfl, pushes⟩
        · cases member
  | playout =>
      dsimp only at member
      split at member
      · cases member
      · split_ifs at member
        · rw [List.mem_singleton.mp member]
          exact ⟨rfl, fun seqNum pcm push => by cases push⟩
        · cases member
  | adapt elapsedSecs =>
      dsimp only at member
      split at member
      · cases member
      · rw [List.mem_singleton.mp member]
        exact ⟨rfl, fun seqNum pcm push => by cases push⟩
  | frame _ | keepalive | ping => cases member

/-- Nothing happens to the buffer of an unknown peer. -/
theorem bufferOps_of_unknown {node : Node D} {id : UInt8} (unknown : node.getPeer id = none)
    (event : Event) : bufferOps prim node id event = [] := by
  cases event with
  | recv data srcAddr =>
      unfold bufferOps
      dsimp only
      split
      · rfl
      · rename_i packet _
        split_ifs with named
        · have silent : pushed prim node packet = none := by
            unfold pushed
            split
            · rfl
            · rw [named.2, unknown]
          rw [silent]
          rfl
        · rfl
  | frame opus => rfl
  | playout => rw [bufferOps, unknown]
  | keepalive => rfl
  | ping => rfl
  | adapt elapsedSecs => rw [bufferOps, unknown]

/-- What a tick takes is what the operations of the step pop. -/
theorem taken_eq (node : Node D) (id : UInt8) (event : Event) {peer : RemotePeer D}
    (known : node.getPeer id = some peer) :
    taken node id event = peer.jitterBuffer.popped (bufferOps prim node id event) := by
  cases event with
  | recv data srcAddr =>
      unfold bufferOps taken
      dsimp only
      split
      · rfl
      · rename_i packet _
        split_ifs
        · cases pushed prim node packet <;> rfl
        · rfl
  | frame opus => rfl
  | playout =>
      rw [taken, bufferOps, known]
      dsimp only
      split_ifs <;> rfl
  | keepalive => rfl
  | ping => rfl
  | adapt elapsedSecs =>
      rw [bufferOps, known]
      rfl

theorem taken_of_unknown {node : Node D} {id : UInt8} (unknown : node.getPeer id = none)
    (event : Event) : taken node id event = [] := by
  cases event with
  | playout => rw [taken, unknown]
  | recv _ _ | frame _ | keepalive | ping | adapt _ => rfl

/-! ## Runs -/

/-- The operations of a run on the jitter buffer of a peer. -/
def allBufferOps (prim : Primitives D) (id : UInt8) (node : Node D)
    (inputs : List (Env D × Event)) : List (JitterOp Pcm) :=
  ((nodeMachine prim).observe fun node input => bufferOps prim node id input.2).outputs node inputs

/-- What the playout ticks of a run take from the jitter buffer of a peer. -/
def allTaken (prim : Primitives D) (id : UInt8) (node : Node D)
    (inputs : List (Env D × Event)) : List (Option Pcm) :=
  ((nodeMachine prim).observe fun node input => taken node id input.2).outputs node inputs

theorem allBufferOps_cons (id : UInt8) (node : Node D) (input : Env D × Event)
    (rest : List (Env D × Event)) : allBufferOps prim id node (input :: rest) =
      bufferOps prim node id input.2 ++
        allBufferOps prim id (step prim node input.1 input.2).1 rest := rfl

/-- The session feeds the jitter buffers. -/
theorem fed_jitterBuffer (prim : Primitives D) (id : UInt8) :
    Fed prim (fun _ => True) RemotePeer.jitterBuffer (jitterMachine Pcm) JitterBuffer.new id
      (fun node input => bufferOps prim node id input.2)
      fun node input => taken node id input.2 where
  kept _ _ := trivial
  step _ input := step_operated prim _ input.1 input.2 id
  known known input := taken_eq _ id input.2 known
  unknown unknown input := ⟨bufferOps_of_unknown unknown input.2, taken_of_unknown unknown input.2⟩

/-- **The jitter buffers of a session run.** In every run of a node, from a state in
which a peer is not known yet, its jitter buffer is a new one after the operations of the
run, and the playout takes from it what they pop. -/
theorem buffers_run (id : UInt8) (inputs : List (Env D × Event)) {node : Node D}
    (unknown : node.getPeer id = none) :
    (∀ peer, ((nodeMachine prim).run node inputs).getPeer id = some peer →
        peer.jitterBuffer = JitterBuffer.new.run (allBufferOps prim id node inputs)) ∧
      allTaken prim id node inputs =
        JitterBuffer.new.popped (allBufferOps prim id node inputs) :=
  (fed_jitterBuffer prim id).run trivial unknown inputs

/-- The jitter buffer of a peer. That of an unknown peer is new. -/
def bufferOf (node : Node D) (id : UInt8) : JitterBuffer Pcm :=
  ((node.getPeer id).map RemotePeer.jitterBuffer).getD .new

/-- From any state, the playout takes what the operations of the run pop from the buffer. -/
theorem allTaken_eq (id : UInt8) (node : Node D) (inputs : List (Env D × Event)) :
    allTaken prim id node inputs =
      (node.bufferOf id).popped (allBufferOps prim id node inputs) := by
  unfold bufferOf
  cases known : node.getPeer id with
  | none => exact ((fed_jitterBuffer prim id).run trivial known inputs).2
  | some peer => exact ((fed_jitterBuffer prim id).run_of_known trivial known inputs).2

/-- Of a peer that is heard three times, a host takes what its jitter buffer pops. -/
theorem buffers_run_of_replayed :
    allTaken Primitives.transparent 1 Sample.host (Sample.replayed ++ [(Sample.env 0 4, .playout)]) =
      JitterBuffer.new.popped (allBufferOps Primitives.transparent 1 Sample.host
        (Sample.replayed ++ [(Sample.env 0 4, .playout)])) :=
  (buffers_run 1 (Sample.replayed ++ [(Sample.env 0 4, .playout)]) rfl).2

/-! ## How often a depth is lowered -/

/-- The target depth of the jitter buffer of a peer. -/
def depthOf (node : Node D) (id : UInt8) : ℕ :=
  ((node.getPeer id).map fun peer => peer.jitterBuffer.targetDepth).getD 0

/-- How long the depth of a peer was not lowered. -/
def timerOf (node : Node D) (id : UInt8) : ℚ :=
  ((node.getPeer id).map fun peer => peer.jitterBuffer.timeSinceDecrease).getD 0

/-- The step lowers the target depth of a peer. -/
def LowersDepth (prim : Primitives D) (id : UInt8) (node : Node D) (input : Env D × Event) : Prop :=
  (step prim node input.1 input.2).1.depthOf id < node.depthOf id

instance (id : UInt8) (node : Node D) (input : Env D × Event) :
    Decidable (LowersDepth prim id node input) := inferInstanceAs (Decidable (_ < _))

/-- The timer runs with the adapt time, and a lowered depth restarts it after the
hold-off. -/
theorem timeSinceDecrease_step (jb : JitterBuffer Pcm) {op : JitterOp Pcm}
    (lasting : op.isReset = false) :
    (((jitterMachine Pcm).step jb op).1.targetDepth < jb.targetDepth ∧
        decreaseHoldoffSecs ≤ jb.timeSinceDecrease + op.elapsed ∧
        ((jitterMachine Pcm).step jb op).1.timeSinceDecrease = 0) ∨
      (¬ ((jitterMachine Pcm).step jb op).1.targetDepth < jb.targetDepth ∧
        ((jitterMachine Pcm).step jb op).1.timeSinceDecrease =
          jb.timeSinceDecrease + op.elapsed) := by
  cases op with
  | push seqNum pcm =>
      have timer : (jb.push seqNum pcm).timeSinceDecrease = jb.timeSinceDecrease := by
        rw [JitterBuffer.push_eq]
      refine Or.inr ⟨(jb.push_cases seqNum pcm).2.1.ge.not_gt, timer.trans (add_zero _).symm⟩
  | pop =>
      refine Or.inr ?_
      rcases jb.pop_cases with ⟨_, same⟩ | ⟨_, _, _, _, _, _, _, _, popped⟩ | ⟨_, _, _, missed⟩
      · simp [jitterMachine, same, JitterOp.elapsed]
      · simp [jitterMachine, popped, JitterOp.elapsed]
      · simp [jitterMachine, missed, JitterOp.elapsed]
  | adapt elapsedSecs =>
      rcases jb.adapt_cases elapsedSecs with
        ⟨_, depth, timer⟩ | ⟨lowers, depth, timer⟩ | ⟨_, depth, timer⟩
      · exact Or.inr ⟨depth ▸ Nat.not_lt.mpr (Nat.le_succ _), timer⟩
      · exact Or.inl ⟨JitterBuffer.adapt_lowers_iff.mpr lowers, lowers.2.2, timer⟩
      · exact Or.inr ⟨depth ▸ Nat.lt_irrefl _, timer⟩
  | reset => cases lasting

/-- An event is at most one operation on a buffer, which accounts for its time and is no
reset. -/
theorem bufferOps_cases (prim : Primitives D) {node : Node D} {id : UInt8} {peer : RemotePeer D}
    (known : node.getPeer id = some peer) (event : Event) :
    bufferOps prim node id event = [] ∧ event.elapsed = 0 ∨
      ∃ op, bufferOps prim node id event = [op] ∧ op.isReset = false ∧
        op.elapsed = event.elapsed := by
  cases event with
  | recv data srcAddr =>
      unfold bufferOps
      dsimp only
      split
      · exact Or.inl ⟨rfl, rfl⟩
      · rename_i packet _
        split_ifs
        · cases pushed prim node packet with
          | none => exact Or.inl ⟨rfl, rfl⟩
          | some pcm => exact Or.inr ⟨_, rfl, rfl, rfl⟩
        · exact Or.inl ⟨rfl, rfl⟩
  | playout =>
      rw [bufferOps, known]
      dsimp only
      split_ifs
      · exact Or.inr ⟨_, rfl, rfl, rfl⟩
      · exact Or.inl ⟨rfl, rfl⟩
  | adapt elapsedSecs =>
      rw [bufferOps, known]
      exact Or.inr ⟨_, rfl, rfl, rfl⟩
  | frame _ | keepalive | ping => exact Or.inl ⟨rfl, rfl⟩

/-- **One step** lowers a depth only when the timer has reached the hold-off, and restarts
it. -/
theorem step_timer (prim : Primitives D) (id : UInt8) (node : Node D) (input : Env D × Event)
    (forward : 0 ≤ input.2.elapsed) :
    (LowersDepth prim id node input ∧
        decreaseHoldoffSecs ≤ node.timerOf id + input.2.elapsed ∧
        (step prim node input.1 input.2).1.timerOf id = 0) ∨
      (¬ LowersDepth prim id node input ∧
        (step prim node input.1 input.2).1.timerOf id ≤ node.timerOf id + input.2.elapsed ∧
        (0 ≤ node.timerOf id → 0 ≤ (step prim node input.1 input.2).1.timerOf id)) := by
  unfold LowersDepth depthOf timerOf
  rcases step_operated prim node input.1 input.2 id with operated | ⟨unknown, new⟩
  · cases known : node.getPeer id with
    | none =>
      rw [known, Option.map_none, Option.map_eq_none_iff] at operated
      rw [operated]
      exact Or.inr ⟨Nat.lt_irrefl _, (zero_add input.2.elapsed).symm ▸ forward, fun low => low⟩
    | some peer =>
      rw [known, Option.map_some, Option.map_eq_some_iff] at operated
      obtain ⟨peer', known', buffer⟩ := operated
      rw [known']
      simp only [Option.map_some, Option.getD_some, buffer]
      rcases bufferOps_cases prim known input.2 with ⟨none, still⟩ | ⟨op, one, lasting, time⟩
      · rw [none, still, add_zero]
        exact Or.inr ⟨Nat.lt_irrefl _, le_rfl, fun low => low⟩
      · rw [one, ← time]
        rcases timeSinceDecrease_step peer.jitterBuffer lasting with
          ⟨lowers, held, restarted⟩ | ⟨keeps, runs⟩
        · exact Or.inl ⟨lowers, held, restarted⟩
        · refine Or.inr ⟨keeps, runs.le, fun low => ?_⟩
          exact (add_nonneg low (time ▸ forward)).trans_eq runs.symm
  · rw [Option.map_eq_some_iff] at new
    obtain ⟨peer', known', fresh⟩ := new
    rw [unknown, known']
    simp only [Option.map_some, Option.map_none, Option.getD_some, Option.getD_none, fresh]
    exact Or.inr ⟨Nat.not_lt_zero _, (zero_add input.2.elapsed).symm ▸ forward, fun _ => le_rfl⟩

/-- A run lowers a depth as often as its adapt time allows. -/
theorem lowersDepth_run (prim : Primitives D) (id : UInt8) {node : Node D}
    (unknown : node.getPeer id = none) {inputs : List (Env D × Event)}
    (forward : ∀ input ∈ inputs, 0 ≤ input.2.elapsed) :
    (nodeMachine prim).count (LowersDepth prim id) node inputs * decreaseHoldoffSecs ≤
      (inputs.map fun input => input.2.elapsed).sum := by
  have start : node.timerOf id = 0 := by rw [timerOf, unknown]; rfl
  have paid := (nodeMachine prim).amortized (P := LowersDepth prim id)
    (A := fun input => 0 ≤ input.2.elapsed) (fun node => node.timerOf id)
    (fun input => input.2.elapsed) decreaseHoldoffSecs
    (by
      intro node input forward
      rcases step_timer prim id node input forward with ⟨lowers, held, restarted⟩ | ⟨keeps, runs, _⟩
      · rw [if_pos lowers]
        exact (congrArg (decreaseHoldoffSecs + ·) restarted).trans_le
          ((add_zero _).trans_le held)
      · rw [if_neg keeps, zero_add]
        exact runs)
    node forward
  have left : 0 ≤ ((nodeMachine prim).run node inputs).timerOf id :=
    Machine.invariant (M := nodeMachine prim) (fun node => 0 ≤ node.timerOf id)
      (P := fun _ input => 0 ≤ input.2.elapsed)
      (by
        intro node input low forward
        rcases step_timer prim id node input forward with ⟨_, _, restarted⟩ | ⟨_, _, stays⟩
        · exact restarted.ge
        · exact stays low)
      start.ge (Machine.along_of_forall fun _ => forward)
  rw [start, zero_add, nsmul_eq_mul] at paid
  linarith

end Node

namespace RunState

variable {σ E D : Type} (prim : Primitives D) (audio : AudioLibrary σ E)

/-- **A depth is lowered seldom**: for every time that a running session lowers the target
depth of a peer, the clock has moved on by five seconds. -/
theorem depth_lowered_seldom {node : Node D} (starts : node.Starts) (noiseSuppression : Bool)
    (vadConfig : VadConfig) (mode : InputMode) (encoder : E) (start : Instant) (id : UInt8)
    (turns : List (Turn D)) :
    let s := RunState.start audio node noiseSuppression vadConfig mode encoder start
    (nodeMachine prim).count (Node.LowersDepth prim id) node (s.events audio turns) *
        decreaseHoldoffSecs ≤
      ((((machine prim audio).run s turns).timers.lastAdapt : ℚ) - start) / 10 ^ 9 := by
  intro s
  have unknown : node.getPeer id = none := by cases starts <;> rfl
  rw [(node_eq prim audio s turns).1]
  refine (Node.lowersDepth_run prim id unknown ?_).trans_eq (elapsed_eq s.timers _)
  exact elapsed_nonneg s.timers _

example :
    let s := RunState.start AudioLibrary.transparent Sample.host true VadConfig.default .alwaysOn
      () 0
    let turns := [Sample.joinTurn 500000000, Sample.turn 1000000000]
    (nodeMachine Primitives.transparent).count (Node.LowersDepth Primitives.transparent 1)
        Sample.host (s.events AudioLibrary.transparent turns) * decreaseHoldoffSecs ≤
      ((((machine Primitives.transparent AudioLibrary.transparent).run s
        turns).timers.lastAdapt : ℚ) - (0 : Instant)) / 10 ^ 9 :=
  depth_lowered_seldom Primitives.transparent AudioLibrary.transparent (.host ..) true
    VadConfig.default .alwaysOn () 0 1 [Sample.joinTurn 500000000, Sample.turn 1000000000]

end RunState

end VoiceChat
