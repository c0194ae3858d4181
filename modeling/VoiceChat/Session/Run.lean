import VoiceChat.Mixer
import VoiceChat.Session.Heard
import VoiceChat.Session.MainLoop

/-!
# A running session

An iteration of the main loop in the order of the source: the controls are read, a
datagram is taken in, the captured samples go through suppression, detection, gate and
encoder, and each encoded frame is sent to the peers at once; then come the playout and
the other timers, and last what the user interface shows.

The loop works on everything at once. Its parts do not disturb each other: a run is the
capture of what was read, the timers of the loop fed with the encoded frames, and the
node fed with the events of both, each run on its own (`session_is_its_parts`). So what is known of each
part holds of the running session.
-/

set_option autoImplicit false

namespace VoiceChat

/-- Peer information for display. -/
structure PeerDisplayInfo where
  id : UInt8
  addr : SocketAddr
  state : PeerState
  latency : LatencyStats
  keyExchangeDone : Bool

def RemotePeer.displayInfo {D : Type} (peer : RemotePeer D) : PeerDisplayInfo where
  id := peer.id
  addr := peer.addr
  state := peer.state
  latency := peer.latencyTracker.stats
  keyExchangeDone := peer.kxSent && peer.kxReceived

/-- What a running session has, and what it shares with the user interface. -/
structure RunState (σ E D : Type) where
  node : Node D
  capture : Capture σ E
  timers : Timers
  lastUiUpdate : Instant
  /-- Shared: whether the last frame was transmitted. -/
  isTransmitting : Bool
  /-- Shared: the peers as they were shown last. -/
  peerInfo : List PeerDisplayInfo

/-- What an iteration finds around it. -/
structure Circumstances (D : Type) where
  env : Env D
  controls : Controls
  /-- The datagram that was waiting, if any. -/
  received : Option (Bytes × SocketAddr)
  /-- The lock of the shared peer information is not poisoned. -/
  peerInfoFree : Bool

/-- What an iteration finds, and the samples that it reads from the capture buffer. -/
structure Turn (D : Type) extends Circumstances D where
  read : List Sample

/-- What the capture reads in a turn. -/
def Turn.heard {D : Type} (turn : Turn D) : Controls × List Sample := (turn.controls, turn.read)

/-- What an iteration does to the world. -/
inductive Effect where
  | send (packet : Emission)
  /-- Samples go to the playout buffer. -/
  | play (mixed : List Sample)

def Effect.packet? : Effect → Option Emission
  | .send packet => some packet
  | .play _ => none

def Effect.mixed? : Effect → Option (List Sample)
  | .send _ => none
  | .play mixed => some mixed

namespace RunState

variable {σ E D : Type} (prim : Primitives D) (audio : AudioLibrary σ E)

/-- A session as it enters its loop. -/
def start (node : Node D) (noiseSuppression : Bool) (vadConfig : VadConfig) (mode : InputMode)
    (encoder : E) (now : Instant) : RunState σ E D where
  node := node
  capture := Capture.start audio noiseSuppression vadConfig mode encoder
  timers := Timers.start now
  lastUiUpdate := now
  isTransmitting := false
  peerInfo := []

/-- Receive a waiting datagram. -/
def receive (node : Node D) (env : Env D) (received : Option (Bytes × SocketAddr)) :
    Node D × List Emission :=
  match received with
  | none => (node, [])
  | some (data, srcAddr) =>
      let outcome := Node.handleIncoming prim node env data srcAddr
      (outcome.node, outcome.out)

/-- Send each encoded frame to the peers. -/
def sendFrames (env : Env D) : Machine (Node D) Bytes Emission :=
  ⟨fun node opusData => node.sendFrame prim env opusData⟩

/-- From captured samples to packets: each loop runs what is inside it on everything it
puts out before it goes on. -/
def captureLoop (env : Env D) : Machine
    (List Sample × NoiseSuppressor σ Sample Sample × Voice E × Node D) (List Sample) Emission :=
  (cutter frameSamples).andThen
    ((Capture.suppressorMachine audio).andThen
      ((Capture.voiceMachine audio).andThen (sendFrames prim env)))

/-- What a playout tick pushes: the mixed frames of the peers, when there are any. -/
def mixPlayed (node : Node D) (env : Env D) : Option (List Sample) :=
  let peerBufs := (Node.playedFrames prim node env).map (i16ToF32 audio.fl)
  if peerBufs.isEmpty then none
  else some (mixPeers audio.fl peerBufs (List.replicate frameSamples 0))

/-- What a timer does when its interval has passed: the node, when it was due last, and
what it sends. -/
def onTimer (interval : Nat) (last now : Instant) (tick : Node D → Node D × List Effect)
    (node : Node D) : Node D × Instant × List Effect :=
  if now - last ≥ interval then
    let (node, out) := tick node
    (node, now, out)
  else
    (node, last, [])

/-- What is due at a time, in the order of the loop. -/
def tick (timers : Timers) (env : Env D) (node : Node D) : Node D × Timers × List Effect :=
  let now := env.now
  let (node, lastPlayout, mixed) := onTimer frameDuration timers.lastPlayout now
    (fun node => (Node.playout prim node,
      ((mixPlayed prim audio node env).map .play).toList)) node
  let (node, lastKeepalive, keepalives) := onTimer (10 ^ 9) timers.lastKeepalive now
    (fun node => ((Node.keepalive prim node env).1,
      (Node.keepalive prim node env).2.map .send)) node
  let (node, lastPing, pings) := onTimer (pingIntervalSecs * 10 ^ 9) timers.lastPing now
    (fun node => ((Node.ping prim node env).1, (Node.ping prim node env).2.map .send)) node
  let (node, lastAdapt, _) := onTimer (10 ^ 9 / 2) timers.lastAdapt now
    (fun node => (Node.adapt node (((now - timers.lastAdapt : Nat) : ℚ) / 10 ^ 9), [])) node
  (node, ⟨lastPlayout, lastKeepalive, lastPing, lastAdapt⟩, mixed ++ keepalives ++ pings)

/-- Update what is shown of the peers, four times a second. -/
def showPeers (peerInfo : List PeerDisplayInfo) (lastUiUpdate : Instant) (turn : Turn D)
    (node : Node D) : List PeerDisplayInfo × Instant :=
  if turn.env.now - lastUiUpdate ≥ 10 ^ 9 / 4 then
    if turn.peerInfoFree then
      ((node.peerMgr.peers.values turn.env.order).map RemotePeer.displayInfo, turn.env.now)
    else
      (peerInfo, turn.env.now)
  else
    (peerInfo, lastUiUpdate)

/-- One iteration of the main loop. -/
def iterate (s : RunState σ E D) (turn : Turn D) : RunState σ E D × List Effect :=
  let (captureAccum, ns, voice) := s.capture.sync turn.controls
  let (node, answers) := receive prim s.node turn.env turn.received
  let ((captureAccum, ns, voice, node), packets) :=
    (captureLoop prim audio turn.env).step (captureAccum, ns, voice, node) turn.read
  let isTransmitting := voice.microphone.inputGate.isTransmitting
  let (node, timers, effects) := tick prim audio s.timers turn.env node
  let (peerInfo, lastUiUpdate) := showPeers s.peerInfo s.lastUiUpdate turn node
  (⟨node, (captureAccum, ns, voice), timers, lastUiUpdate, isTransmitting, peerInfo⟩,
    answers.map .send ++ packets.map .send ++ effects)

/-- A running session. -/
def machine : Machine (RunState σ E D) (Turn D) Effect where
  step s turn := s.iterate prim audio turn

/-! ## The parts of the loop -/

/-- What the timers and the node see of a turn: the frames that were encoded in it. -/
def encoded : Machine (Capture σ E) (Turn D) (Iteration D) where
  step capture turn :=
    let (capture, frames) := (Capture.machine audio).step capture (turn.controls, turn.read)
    (capture, [⟨turn.env, turn.received, frames⟩])

/-- The parts of the loop, each fed with what the one before puts out. -/
def parts : Machine (Capture σ E × Timers × Node D) (Turn D) Emission :=
  (encoded audio).andThen ((mainLoop D).andThen (nodeMachine prim))

theorem receive_eq (node : Node D) (env : Env D) (received : Option (Bytes × SocketAddr)) :
    (nodeMachine prim).run node
        (((received.map fun datagram => Node.Event.recv datagram.1 datagram.2).toList).map
          fun event => (env, event)) = (receive prim node env received).1 ∧
      (nodeMachine prim).outputs node
        (((received.map fun datagram => Node.Event.recv datagram.1 datagram.2).toList).map
          fun event => (env, event)) = (receive prim node env received).2 := by
  cases received with
  | none => exact ⟨rfl, rfl⟩
  | some datagram => exact ⟨rfl, List.append_nil _⟩

theorem sendFrames_eq (node : Node D) (env : Env D) (frames : List Bytes) :
    (sendFrames prim env).run node frames =
        (nodeMachine prim).run node (frames.map fun opus => (env, .frame opus)) ∧
      (sendFrames prim env).outputs node frames =
        (nodeMachine prim).outputs node (frames.map fun opus => (env, .frame opus)) :=
  Machine.simulation (M := sendFrames prim env) (N := nodeMachine prim) Eq
    (fun opus => (env, .frame opus)) (A := fun _ => True)
    (by rintro node _ opus rfl -; exact ⟨rfl, rfl⟩) rfl fun _ _ => trivial

/-- The capture loop is the three loops of the capture, and the frames are sent. -/
theorem captureLoop_eq (capture : Capture σ E) (node : Node D) (env : Env D)
    (read : List Sample) :
    (captureLoop prim audio env).step (capture.1, capture.2.1, capture.2.2, node) read =
      ((((Capture.loops audio).step capture read).1.1,
          ((Capture.loops audio).step capture read).1.2.1,
          ((Capture.loops audio).step capture read).1.2.2,
          (sendFrames prim env).run node ((Capture.loops audio).step capture read).2),
        (sendFrames prim env).outputs node ((Capture.loops audio).step capture read).2) := by
  obtain ⟨accum, ns, voice⟩ := capture
  let frames := (cut frameSamples (accum ++ read)).1
  let chunks := (Capture.suppressorMachine audio).outputs ns frames
  obtain ⟨inner, outputs⟩ := (Capture.suppressorMachine audio).andThen_eq
    ((Capture.voiceMachine audio).andThen (sendFrames prim env)) ns (voice, node) frames
  obtain ⟨inner', outputs'⟩ :=
    (Capture.voiceMachine audio).andThen_eq (sendFrames prim env) voice node chunks
  obtain ⟨inner'', outputs''⟩ :=
    (Capture.suppressorMachine audio).andThen_eq (Capture.voiceMachine audio) ns voice frames
  have step : (captureLoop prim audio env).step (accum, ns, voice, node) read =
      (((cut frameSamples (accum ++ read)).2,
        ((Capture.suppressorMachine audio).andThen
          ((Capture.voiceMachine audio).andThen (sendFrames prim env))).run (ns, voice, node)
            frames),
        ((Capture.suppressorMachine audio).andThen
          ((Capture.voiceMachine audio).andThen (sendFrames prim env))).outputs (ns, voice, node)
            frames) := rfl
  have step' : (Capture.loops audio).step (accum, ns, voice) read =
      (((cut frameSamples (accum ++ read)).2,
        ((Capture.suppressorMachine audio).andThen (Capture.voiceMachine audio)).run (ns, voice)
          frames),
        ((Capture.suppressorMachine audio).andThen (Capture.voiceMachine audio)).outputs
          (ns, voice) frames) := rfl
  rw [step, step', inner, outputs, inner', outputs', inner'', outputs'']

/-- A timer of the loop is a poll, and the event on the node when it is due. -/
theorem onTimer_eq (interval : Nat) (last : Instant) (env : Env D)
    (tick : Node D → Node D × List Effect) (event : Node.Event) (node : Node D)
    (same : (tick node).1 = (node.step prim env event).1 ∧
      (tick node).2.filterMap Effect.packet? = (node.step prim env event).2) :
    (onTimer interval last env.now tick node).1 = (nodeMachine prim).run node
        ((Timers.poll interval last env.now event).1.map fun event => (env, event)) ∧
      (onTimer interval last env.now tick node).2.1 =
        (Timers.poll interval last env.now event).2 ∧
      (onTimer interval last env.now tick node).2.2.filterMap Effect.packet? =
        (nodeMachine prim).outputs node
          ((Timers.poll interval last env.now event).1.map fun event => (env, event)) := by
  unfold onTimer Timers.poll
  split_ifs with due
  · exact ⟨same.1, rfl, same.2.trans (List.append_nil _).symm⟩
  · exact ⟨rfl, rfl, rfl⟩

theorem filterMap_packet?_send (packets : List Emission) :
    (packets.map Effect.send).filterMap Effect.packet? = packets := by
  rw [List.filterMap_map]
  exact List.filterMap_some

/-- The timers of the loop call for the events that are due. -/
theorem tick_eq (timers : Timers) (env : Env D) (node : Node D) :
    (tick prim audio timers env node).1 =
        (nodeMachine prim).run node ((timers.due env.now).1.map fun event => (env, event)) ∧
      (tick prim audio timers env node).2.1 = (timers.due env.now).2 ∧
      (tick prim audio timers env node).2.2.filterMap Effect.packet? =
        (nodeMachine prim).outputs node
          ((timers.due env.now).1.map fun event => (env, event)) := by
  let playout := onTimer frameDuration timers.lastPlayout env.now
    (fun node => (Node.playout prim node,
      ((mixPlayed prim audio node env).map Effect.play).toList)) node
  let keepalive := onTimer (10 ^ 9) timers.lastKeepalive env.now
    (fun node => ((Node.keepalive prim node env).1,
      (Node.keepalive prim node env).2.map Effect.send)) playout.1
  let ping := onTimer (pingIntervalSecs * 10 ^ 9) timers.lastPing env.now
    (fun node => ((Node.ping prim node env).1, (Node.ping prim node env).2.map Effect.send))
    keepalive.1
  let elapsed := ((env.now - timers.lastAdapt : Nat) : ℚ) / 10 ^ 9
  let adapt := onTimer (10 ^ 9 / 2) timers.lastAdapt env.now
    (fun node => (Node.adapt node elapsed, [])) ping.1
  obtain ⟨node₁, last₁, out₁⟩ := onTimer_eq prim frameDuration timers.lastPlayout env
    (fun node => (Node.playout prim node, ((mixPlayed prim audio node env).map .play).toList))
    .playout node ⟨rfl, by cases mixPlayed prim audio node env <;> rfl⟩
  obtain ⟨node₂, last₂, out₂⟩ := onTimer_eq prim (10 ^ 9) timers.lastKeepalive env
    (fun node => ((Node.keepalive prim node env).1, (Node.keepalive prim node env).2.map .send))
    .keepalive playout.1 ⟨rfl, filterMap_packet?_send _⟩
  obtain ⟨node₃, last₃, out₃⟩ := onTimer_eq prim (pingIntervalSecs * 10 ^ 9) timers.lastPing env
    (fun node => ((Node.ping prim node env).1, (Node.ping prim node env).2.map .send))
    .ping keepalive.1 ⟨rfl, filterMap_packet?_send _⟩
  obtain ⟨node₄, last₄, out₄⟩ := onTimer_eq prim (10 ^ 9 / 2) timers.lastAdapt env
    (fun node => (Node.adapt node elapsed, [])) (.adapt elapsed) ping.1 ⟨rfl, rfl⟩
  have quiet : adapt.2.2 = [] := by
    change (onTimer _ _ _ _ _).2.2 = []
    unfold onTimer
    split_ifs <;> rfl
  have due : timers.due env.now =
      ((Timers.poll frameDuration timers.lastPlayout env.now .playout).1 ++
          (Timers.poll (10 ^ 9) timers.lastKeepalive env.now .keepalive).1 ++
          (Timers.poll (pingIntervalSecs * 10 ^ 9) timers.lastPing env.now .ping).1 ++
          (Timers.poll (10 ^ 9 / 2) timers.lastAdapt env.now (.adapt elapsed)).1,
        ⟨(Timers.poll frameDuration timers.lastPlayout env.now .playout).2,
          (Timers.poll (10 ^ 9) timers.lastKeepalive env.now .keepalive).2,
          (Timers.poll (pingIntervalSecs * 10 ^ 9) timers.lastPing env.now .ping).2,
          (Timers.poll (10 ^ 9 / 2) timers.lastAdapt env.now (.adapt elapsed)).2⟩) := rfl
  have form : tick prim audio timers env node =
      (adapt.1, ⟨playout.2.1, keepalive.2.1, ping.2.1, adapt.2.1⟩,
        playout.2.2 ++ keepalive.2.2 ++ ping.2.2) := rfl
  rw [form, due]
  simp only [List.map_append, Machine.run_append, Machine.outputs_append, List.filterMap_append]
  rw [← node₁, ← node₂, ← node₃, ← node₄, ← last₁, ← last₂, ← last₃, ← last₄, ← out₁, ← out₂,
    ← out₃, ← out₄]
  exact ⟨rfl, rfl, by rw [quiet]; exact (List.append_nil _).symm⟩

/-- **One iteration** does what its parts do. -/
theorem iterate_eq (s : RunState σ E D) (turn : Turn D) :
    ((s.iterate prim audio turn).1.capture, (s.iterate prim audio turn).1.timers,
        (s.iterate prim audio turn).1.node) =
        ((parts prim audio).step (s.capture, s.timers, s.node) turn).1 ∧
      (s.iterate prim audio turn).2.filterMap Effect.packet? =
        ((parts prim audio).step (s.capture, s.timers, s.node) turn).2 := by
  let capture := s.capture.sync turn.controls
  let received := receive prim s.node turn.env turn.received
  let looped := (captureLoop prim audio turn.env).step
    (capture.1, capture.2.1, capture.2.2, received.1) turn.read
  let ticked := tick prim audio s.timers turn.env looped.1.2.2.2
  let loops := (Capture.loops audio).step capture turn.read
  have form : ((s.iterate prim audio turn).1.capture, (s.iterate prim audio turn).1.timers,
        (s.iterate prim audio turn).1.node) =
        ((looped.1.1, looped.1.2.1, looped.1.2.2.1), ticked.2.1, ticked.1) ∧
      (s.iterate prim audio turn).2 =
        received.2.map .send ++ looped.2.map .send ++ ticked.2.2 := ⟨rfl, rfl⟩
  have loop : looped = ((loops.1.1, loops.1.2.1, loops.1.2.2,
      (sendFrames prim turn.env).run received.1 loops.2),
        (sendFrames prim turn.env).outputs received.1 loops.2) :=
    captureLoop_eq prim audio capture received.1 turn.env turn.read
  obtain ⟨node₁, out₁⟩ := receive_eq prim s.node turn.env turn.received
  obtain ⟨node₂, out₂⟩ := sendFrames_eq prim received.1 turn.env loops.2
  obtain ⟨node₃, timers, out₃⟩ := tick_eq prim audio s.timers turn.env looped.1.2.2.2
  have events : ((mainLoop D).step s.timers ⟨turn.env, turn.received, loops.2⟩).2 =
      ((turn.received.map fun datagram => Node.Event.recv datagram.1 datagram.2).toList.map
          fun event => (turn.env, event)) ++
        (loops.2.map fun opus => (turn.env, .frame opus)) ++
          ((s.timers.due turn.env.now).1.map fun event => (turn.env, event)) := by
    simp only [mainLoop, Iteration.arrived, List.map_append, List.map_map]
    rfl
  have step : (parts prim audio).step (s.capture, s.timers, s.node) turn =
      ((loops.1, (s.timers.due turn.env.now).2, (nodeMachine prim).run s.node
          ((mainLoop D).step s.timers ⟨turn.env, turn.received, loops.2⟩).2),
        (nodeMachine prim).outputs s.node
          ((mainLoop D).step s.timers ⟨turn.env, turn.received, loops.2⟩).2 ++ []) := rfl
  rw [form.1, form.2, step, events]
  simp only [Machine.run_append, Machine.outputs_append, List.filterMap_append,
    filterMap_packet?_send, List.append_nil]
  rw [node₁, out₁, ← node₂, ← out₂]
  refine ⟨?_, ?_⟩
  · rw [node₃, timers, loop]
  · rw [out₃, loop]

/-- A run of the session is a run of its parts. -/
theorem run_parts (s : RunState σ E D) (turns : List (Turn D)) :
    (((machine prim audio).run s turns).capture, ((machine prim audio).run s turns).timers,
        ((machine prim audio).run s turns).node) =
        (parts prim audio).run (s.capture, s.timers, s.node) turns ∧
      ((machine prim audio).outputs s turns).filterMap Effect.packet? =
        (parts prim audio).outputs (s.capture, s.timers, s.node) turns :=
  Machine.refines (M := machine prim audio) (N := parts prim audio)
    (fun s => (s.capture, s.timers, s.node)) Effect.packet? (iterate_eq prim audio) s turns

/-- The iterations of a run, each with the frames that were encoded in it. -/
def iterations (s : RunState σ E D) (turns : List (Turn D)) : List (Iteration D) :=
  (encoded audio).outputs s.capture turns

/-- The events of a run. -/
def events (s : RunState σ E D) (turns : List (Turn D)) : List (Env D × Node.Event) :=
  (mainLoop D).outputs s.timers (s.iterations audio turns)

/-- The capture does not look at the rest of a turn, and its frames are those that the
iterations meet. -/
theorem encoded_eq (capture : Capture σ E) (turns : List (Turn D)) :
    (encoded audio).run capture turns = (Capture.machine audio).run capture (turns.map Turn.heard) ∧
      ((encoded audio).outputs capture turns).flatMap Iteration.frames =
        (Capture.machine audio).outputs capture (turns.map Turn.heard) := by
  induction turns generalizing capture with
  | nil => exact ⟨rfl, rfl⟩
  | cons turn rest ih =>
    obtain ⟨run, outputs⟩ := ih ((encoded audio).step capture turn).1
    refine ⟨run, ?_⟩
    rw [Machine.outputs_cons, List.flatMap_append, outputs]
    exact congrArg (· ++ _) (List.append_nil _)

/-! ## What is mixed -/

theorem filterMap_mixed?_send (packets : List Emission) :
    (packets.map Effect.send).filterMap Effect.mixed? = [] := by
  rw [List.filterMap_map]
  exact List.filterMap_eq_nil_iff.mpr fun _ _ => rfl

theorem mem_onTimer {interval : Nat} {last now : Instant} {tick : Node D → Node D × List Effect}
    {node : Node D} {effect : Effect}
    (member : effect ∈ (onTimer interval last now tick node).2.2) : effect ∈ (tick node).2 := by
  unfold onTimer at member
  split_ifs at member
  · exact member
  · cases member

variable {prim audio} in
/-- The frame that the timers mix is what the playout tick makes of the frames of the
peers. -/
theorem exists_mixPlayed_of_tick {timers : Timers} {env : Env D} {node : Node D}
    {frame : List Sample} (member : .play frame ∈ (tick prim audio timers env node).2.2) :
    mixPlayed prim audio node env = some frame := by
  let playout := onTimer frameDuration timers.lastPlayout env.now
    (fun node => (Node.playout prim node,
      ((mixPlayed prim audio node env).map Effect.play).toList)) node
  let keepalive := onTimer (10 ^ 9) timers.lastKeepalive env.now
    (fun node => ((Node.keepalive prim node env).1,
      (Node.keepalive prim node env).2.map Effect.send)) playout.1
  let ping := onTimer (pingIntervalSecs * 10 ^ 9) timers.lastPing env.now
    (fun node => ((Node.ping prim node env).1, (Node.ping prim node env).2.map Effect.send))
    keepalive.1
  have form : (tick prim audio timers env node).2.2 =
      playout.2.2 ++ keepalive.2.2 ++ ping.2.2 := rfl
  have sent : ∀ {packets : List Emission}, Effect.play frame ∉ packets.map Effect.send := by
    intro packets member
    obtain ⟨packet, -, same⟩ := List.mem_map.mp member
    cases same
  rw [form] at member
  rcases List.mem_append.mp member with others | pings
  · rcases List.mem_append.mp others with played | keepalives
    · have inside := mem_onTimer played
      obtain ⟨frame', here, same⟩ := Option.map_eq_some_iff.mp (Option.mem_toList.mp inside)
      cases same
      exact here
    · exact absurd (mem_onTimer keepalives) sent
  · exact absurd (mem_onTimer pings) sent

variable {prim audio} in
/-- The frame that an iteration mixes is what its playout tick makes of the frames of the
peers. -/
theorem exists_mixPlayed {s : RunState σ E D} {turn : Turn D} {frame : List Sample}
    (mixed : frame ∈ (s.iterate prim audio turn).2.filterMap Effect.mixed?) :
    ∃ node, mixPlayed prim audio node turn.env = some frame := by
  let received := receive prim s.node turn.env turn.received
  let looped := (captureLoop prim audio turn.env).step
    ((s.capture.sync turn.controls).1, (s.capture.sync turn.controls).2.1,
      (s.capture.sync turn.controls).2.2, received.1) turn.read
  have form : (s.iterate prim audio turn).2 = received.2.map .send ++ looped.2.map .send ++
      (tick prim audio s.timers turn.env looped.1.2.2.2).2.2 := rfl
  rw [form, List.filterMap_append, List.filterMap_append, filterMap_mixed?_send,
    filterMap_mixed?_send, List.nil_append, List.nil_append] at mixed
  obtain ⟨effect, member, same⟩ := List.mem_filterMap.mp mixed
  cases effect with
  | send packet => cases same
  | play frame' =>
    obtain rfl := Option.some.inj same
    exact ⟨_, exists_mixPlayed_of_tick member⟩

/-- Every frame that is mixed has the size of a frame, and no sample above full scale. -/
theorem mixed_frame {node : Node D} {env : Env D} {frame : List Sample}
    (mixed : mixPlayed prim audio node env = some frame) :
    frame.length = frameSamples ∧ ∀ sample ∈ frame, |sample| ≤ 1 := by
  unfold mixPlayed at mixed
  dsimp only at mixed
  split_ifs at mixed
  obtain rfl := Option.some.inj mixed
  refine ⟨?_, fun sample member => abs_le_of_mem_mixPeers audio.fl member⟩
  rw [length_mixPeers, List.length_replicate]

/-! ## Runs -/

/-- What becomes of the timers and the node, and what is sent, is theirs on the events of
the run. -/
theorem node_eq (s : RunState σ E D) (turns : List (Turn D)) :
    ((machine prim audio).run s turns).timers =
        (mainLoop D).run s.timers (s.iterations audio turns) ∧
      ((machine prim audio).run s turns).node =
        (nodeMachine prim).run s.node (s.events audio turns) ∧
      ((machine prim audio).outputs s turns).filterMap Effect.packet? =
        (nodeMachine prim).outputs s.node (s.events audio turns) := by
  obtain ⟨state, outputs⟩ := run_parts prim audio s turns
  obtain ⟨run', outputs'⟩ := (encoded audio).andThen_eq
    ((mainLoop D).andThen (nodeMachine prim)) s.capture (s.timers, s.node) turns
  obtain ⟨run'', outputs''⟩ := (mainLoop D).andThen_eq (nodeMachine prim) s.timers s.node
    ((encoded audio).outputs s.capture turns)
  have run := state.trans (run'.trans (congrArg (Prod.mk _) run''))
  exact ⟨congrArg (fun part => part.2.1) run, congrArg (fun part => part.2.2) run,
    outputs.trans (outputs'.trans outputs'')⟩

/-- The capture of a session is its capture alone. -/
theorem capture_eq (s : RunState σ E D) (turns : List (Turn D)) :
    ((machine prim audio).run s turns).capture =
      (Capture.machine audio).run s.capture (turns.map Turn.heard) := by
  obtain ⟨state, _⟩ := run_parts prim audio s turns
  obtain ⟨run, _⟩ := (encoded audio).andThen_eq
    ((mainLoop D).andThen (nodeMachine prim)) s.capture (s.timers, s.node) turns
  exact (congrArg Prod.fst (state.trans run)).trans (encoded_eq audio s.capture turns).1

/-- **A running session is its parts**, over any run: the capture on what was read, the
timers on the encoded frames, and the node on the events of both. -/
theorem session_is_its_parts (s : RunState σ E D) (turns : List (Turn D)) :
    ((machine prim audio).run s turns).capture =
        (Capture.machine audio).run s.capture (turns.map Turn.heard) ∧
      (s.iterations audio turns).flatMap Iteration.frames =
        (Capture.machine audio).outputs s.capture (turns.map Turn.heard) ∧
      ((machine prim audio).run s turns).timers =
        (mainLoop D).run s.timers (s.iterations audio turns) ∧
      ((machine prim audio).run s turns).node =
        (nodeMachine prim).run s.node (s.events audio turns) ∧
      ((machine prim audio).outputs s turns).filterMap Effect.packet? =
        (nodeMachine prim).outputs s.node (s.events audio turns) :=
  ⟨capture_eq prim audio s turns, (encoded_eq audio s.capture turns).2,
    node_eq prim audio s turns⟩

end RunState

namespace Sample

/-- A turn in which nothing is read and nothing was received. -/
def turn (now : Instant) : Turn Unit := ⟨⟨env 0 now, ⟨true, false, none⟩, none, true⟩, []⟩

/-- A turn in which a JOIN is received. -/
def joinTurn (now : Instant) : Turn Unit := { turn now with received := some (join, addr 1) }

end Sample

end VoiceChat
