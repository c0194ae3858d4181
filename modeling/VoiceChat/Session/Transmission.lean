import VoiceChat.Session.Emissions
import VoiceChat.Session.Run

/-!
# What is transmitted

Between the capture buffer and the encoder, samples wait at two places: those that fill
no frame yet, and those that fill no block for RNNoise yet. Whatever the controls do in
the meantime, nothing is lost there and nothing is heard twice, and less than five frames
wait (`samples_accounted`).

While the key of push-to-talk is not held, a session sends no audio, whatever is said
(`silent_of_muted`).
-/

set_option autoImplicit false

namespace VoiceChat

namespace Capture

variable {σ E : Type} (audio : AudioLibrary σ E)

/-! ## No sample is lost -/

/-- What an iteration hears. -/
def hears (capture : Capture σ E) (input : Controls × List Sample) : List Chunk :=
  (suppressorMachine audio).outputs (capture.2.1.setEnabled input.1.noiseSuppression)
    (cut frameSamples (capture.1 ++ input.2)).1

/-- A denoised block is heard in quarters. -/
theorem denoiser_outputs (state : σ × Sample) {blocks : List (List Sample)}
    (whole : ∀ block ∈ blocks, block.length = denoiseFrameSize) :
    (∀ chunk ∈ (denoiserMachine audio).outputs state blocks, chunk.1.length = frameSamples) ∧
      frameSamples * ((denoiserMachine audio).outputs state blocks).length =
        denoiseFrameSize * blocks.length := by
  induction blocks generalizing state with
  | nil => exact ⟨fun chunk member => absurd member List.not_mem_nil, rfl⟩
  | cons block rest ih =>
    obtain ⟨chunks, count⟩ := ih ((denoiserMachine audio).step state block).1
      fun block member => whole block (List.mem_cons_of_mem _ member)
    let denoised := (audio.denoiser.processFrame state.1
      (block.map audio.denoiser.scaleUp)).1.map audio.denoiser.scaleDown
    have length : denoised.length = denoiseFrameSize := by
      rw [List.length_map]
      exact audio.denoised _ _ (by rw [List.length_map, whole block List.mem_cons_self])
    have positive : 0 < frameSamples := by decide
    have multiple : frameSamples ∣ denoised.length := length ▸ ⟨4, rfl⟩
    obtain ⟨_, quarters, _⟩ := cut_spec positive denoised
    have parts := length_cut positive denoised
    have step : ((denoiserMachine audio).step state block).2 =
        (cut frameSamples denoised).1.map fun chunk =>
          (chunk, some (audio.denoiser.processFrame state.1
            (block.map audio.denoiser.scaleUp)).2.1) := rfl
    rw [Machine.outputs_cons, step]
    refine ⟨fun chunk member => ?_, ?_⟩
    · rcases List.mem_append.mp member with now | later
      · obtain ⟨quarter, inside, rfl⟩ := List.mem_map.mp now
        exact quarters quarter inside
      · exact chunks chunk later
    · rw [List.length_append, List.length_map, Nat.mul_add, count, List.length_cons]
      rw [cut_of_dvd positive multiple, List.length_nil, length] at parts
      rw [Nat.mul_add, Nat.mul_one]
      omega

/-- A settled suppressor that is switched on is one that suppresses. -/
theorem eq_suppressing {ns : NoiseSuppressor σ Sample Sample} (settled : ns.Settled)
    (on : ns.enabled = true) : ns = suppressing ns.accum (ns.state, ns.lastVadProb) := by
  obtain ⟨state, accum, outputBuf, lastVadProb, enabled⟩ := ns
  obtain rfl : outputBuf = [] := settled.outputBuf
  obtain rfl : enabled = true := on
  rfl

/-- **One frame** more is heard or held back. -/
theorem suppress_account {ns : NoiseSuppressor σ Sample Sample} (settled : ns.Settled)
    {frame : List Sample} (length : frame.length = frameSamples) :
    (suppress audio ns frame).1.Settled ∧
      (∀ chunk ∈ (suppress audio ns frame).2, chunk.1.length = frameSamples) ∧
      frameSamples * (suppress audio ns frame).2.length +
          (suppress audio ns frame).1.accum.length =
        ns.accum.length + frameSamples := by
  cases on : ns.enabled with
  | false =>
    rw [suppress_of_off audio on length]
    refine ⟨settled, fun chunk member => ?_, ?_⟩
    · rw [List.mem_singleton.mp member]
      exact length
    · rw [List.length_singleton, Nat.mul_one, Nat.add_comm]
  | true =>
    have positive : 0 < denoiseFrameSize := by decide
    have multiple : frameSamples ∣ (ns.accum ++ frame).length := by
      rw [List.length_append, length]
      exact Nat.dvd_add settled.frames (Nat.dvd_refl _)
    obtain ⟨_, whole, less⟩ := cut_spec positive (ns.accum ++ frame)
    obtain ⟨chunks, count⟩ := denoiser_outputs audio (ns.state, ns.lastVadProb) whole
    have parts := length_cut positive (ns.accum ++ frame)
    rw [List.length_append, length] at parts
    have step : suppress audio ns frame = _ :=
      (congrArg (suppress audio · frame) (eq_suppressing settled on)).trans
        (suppress_suppressing audio (ns.state, ns.lastVadProb) settled.frames settled.block length)
    rw [step]
    refine ⟨⟨rfl, dvd_length_cut positive (by decide) multiple, less⟩, chunks, ?_⟩
    rw [count]
    exact parts.symm

/-- The frames of an iteration, one after the other. -/
theorem suppressor_account {ns : NoiseSuppressor σ Sample Sample} (settled : ns.Settled)
    {frames : List (List Sample)} (whole : ∀ frame ∈ frames, frame.length = frameSamples) :
    ((suppressorMachine audio).run ns frames).Settled ∧
      (∀ chunk ∈ (suppressorMachine audio).outputs ns frames, chunk.1.length = frameSamples) ∧
      frameSamples * ((suppressorMachine audio).outputs ns frames).length +
          ((suppressorMachine audio).run ns frames).accum.length =
        ns.accum.length + frameSamples * frames.length := by
  induction frames generalizing ns with
  | nil => exact ⟨settled, fun chunk member => absurd member List.not_mem_nil, by
      rw [Machine.outputs_nil, List.length_nil, Nat.mul_zero, Nat.zero_add]; rfl⟩
  | cons frame rest ih =>
    obtain ⟨settled', chunks, count⟩ := suppress_account audio settled
      (whole frame List.mem_cons_self)
    obtain ⟨settled'', chunks', count'⟩ := ih settled'
      fun frame member => whole frame (List.mem_cons_of_mem _ member)
    refine ⟨settled'', fun chunk member => ?_, ?_⟩
    · exact (List.mem_append.mp member).elim (chunks chunk) (chunks' chunk)
    · rw [Machine.outputs_cons, Machine.run_cons, List.length_append, List.length_cons,
        Nat.mul_add, Nat.add_assoc, Nat.mul_add, Nat.mul_one]
      change frameSamples * (suppress audio ns frame).2.length +
        (frameSamples * ((suppressorMachine audio).outputs (suppress audio ns frame).1 rest).length +
          ((suppressorMachine audio).run (suppress audio ns frame).1 rest).accum.length) = _
      omega

/-- What an iteration does to the samples that wait. -/
theorem step_waiting (capture : Capture σ E) (input : Controls × List Sample) :
    ((machine audio).step capture input).1.1 = (cut frameSamples (capture.1 ++ input.2)).2 ∧
      ((machine audio).step capture input).1.2.1 =
        (suppressorMachine audio).run (capture.2.1.setEnabled input.1.noiseSuppression)
          (cut frameSamples (capture.1 ++ input.2)).1 := by
  obtain ⟨run, _⟩ := (suppressorMachine audio).andThen_eq (voiceMachine audio)
    (capture.2.1.setEnabled input.1.noiseSuppression) (capture.sync input.1).2.2
    (cut frameSamples (capture.1 ++ input.2)).1
  exact ⟨rfl, congrArg Prod.fst run⟩

/-- One iteration hears what it takes off what waits. -/
theorem step_account {capture : Capture σ E} (settled : capture.2.1.Settled)
    (input : Controls × List Sample) :
    ((machine audio).step capture input).1.2.1.Settled ∧
      ((machine audio).step capture input).1.1.length < frameSamples ∧
      (∀ chunk ∈ hears audio capture input, chunk.1.length = frameSamples) ∧
      frameSamples * (hears audio capture input).length +
            ((machine audio).step capture input).1.2.1.accum.length +
          ((machine audio).step capture input).1.1.length =
        capture.2.1.accum.length + capture.1.length + input.2.length := by
  have positive : 0 < frameSamples := by decide
  obtain ⟨rest, suppressor⟩ := step_waiting audio capture input
  obtain ⟨_, whole, less⟩ := cut_spec positive (capture.1 ++ input.2)
  obtain ⟨settled', chunks, count⟩ := suppressor_account audio
    (settled.setEnabled input.1.noiseSuppression) whole
  have parts := length_cut positive (capture.1 ++ input.2)
  rw [List.length_append] at parts
  change _ = capture.2.1.accum.length + _ at count
  rw [rest, suppressor]
  refine ⟨settled', less, chunks, ?_⟩
  unfold hears
  omega

theorem run_waiting {capture : Capture σ E} (settled : capture.2.1.Settled)
    (short : capture.1.length < frameSamples) (inputs : List (Controls × List Sample)) :
    ((machine audio).run capture inputs).2.1.Settled ∧
      ((machine audio).run capture inputs).1.length < frameSamples ∧
      (∀ chunk ∈ ((machine audio).observe (hears audio)).outputs capture inputs,
        chunk.1.length = frameSamples) ∧
      frameSamples * (((machine audio).observe (hears audio)).outputs capture inputs).length +
            ((machine audio).run capture inputs).2.1.accum.length +
          ((machine audio).run capture inputs).1.length =
        capture.2.1.accum.length + capture.1.length +
          (inputs.map fun input => input.2.length).sum := by
  induction inputs generalizing capture with
  | nil =>
    refine ⟨settled, short, fun chunk member => absurd member List.not_mem_nil, ?_⟩
    rw [Machine.outputs_nil, List.length_nil, Nat.mul_zero, Nat.zero_add]
    rfl
  | cons input rest ih =>
    obtain ⟨settled', short', chunks, count⟩ := step_account audio settled input
    obtain ⟨settled'', short'', chunks', count'⟩ := ih settled' short'
    refine ⟨settled'', short'', fun chunk member => ?_, ?_⟩
    · exact (List.mem_append.mp member).elim (chunks chunk) (chunks' chunk)
    · rw [Machine.outputs_cons, List.length_append, Nat.mul_add, List.map_cons, List.sum_cons,
        Machine.run_cons]
      change frameSamples * (hears audio capture input).length + frameSamples *
        (((machine audio).observe (hears audio)).outputs ((machine audio).step capture input).1
          rest).length + _ + _ = _
      omega

/-- **Every sample is heard or waits**, whatever the controls do: the chunks that are
heard have a frame's size, so the encoder refuses none; and what was read and not heard
is less than a frame before the suppressor and less than a block in it. -/
theorem samples_accounted (noiseSuppression : Bool) (vadConfig : VadConfig) (mode : InputMode)
    (encoder : E) (inputs : List (Controls × List Sample)) :
    let start := start audio noiseSuppression vadConfig mode encoder
    let capture := (machine audio).run start inputs
    let heard := ((machine audio).observe (hears audio)).outputs start inputs
    (∀ chunk ∈ heard, chunk.1.length = frameSamples) ∧
      frameSamples * heard.length + capture.2.1.accum.length + capture.1.length =
        (inputs.map fun input => input.2.length).sum ∧
      capture.1.length < frameSamples ∧
      capture.2.1.accum.length + frameSamples ≤ denoiseFrameSize := by
  intro start capture heard
  have settled : start.2.1.Settled :=
    (NoiseSuppressor.settled_new audio.denoiser).setEnabled noiseSuppression
  obtain ⟨settled', short, chunks, count⟩ := run_waiting audio settled
    (by decide : 0 < frameSamples) inputs
  refine ⟨chunks, count.trans (Nat.zero_add _), short, ?_⟩
  have room : (cut denoiseFrameSize capture.2.1.accum).2.length + frameSamples ≤
      denoiseFrameSize := length_cut_add_le (by decide) ⟨4, rfl⟩ settled'.frames
  rwa [cut_of_lt settled'.block] at room

/-! ## Nothing is said while muted -/

/-- What an iteration hears goes through the detector, the gate and the encoder. -/
theorem step_voice (capture : Capture σ E) (input : Controls × List Sample) :
    ((machine audio).step capture input).2 =
      (voiceMachine audio).outputs (capture.sync input.1).2.2 (hears audio capture input) :=
  ((suppressorMachine audio).andThen_eq (voiceMachine audio)
    (capture.2.1.setEnabled input.1.noiseSuppression) (capture.sync input.1).2.2
    (cut frameSamples (capture.1 ++ input.2)).1).2

/-- A closed gate: push-to-talk, and the key is not held. -/
structure Closed (voice : Voice E) : Prop where
  mode : voice.microphone.inputGate.mode = .pushToTalk
  pttActive : voice.microphone.inputGate.pttActive = false

theorem Closed.sendChunk {voice : Voice E} (closed : Closed voice) (chunk : Chunk) :
    Closed (sendChunk audio voice chunk).1 ∧ (Capture.sendChunk audio voice chunk).2 = [] := by
  obtain ⟨pttActive, mode⟩ := sendChunk_controls audio voice chunk
  refine ⟨⟨mode.trans closed.mode, pttActive.trans closed.pttActive⟩, ?_⟩
  have shut : (voice.microphone.hear audio.fl audio.math chunk.1 chunk.2).1 = false := by
    rw [Microphone.hear_fst, closed.mode]
    exact closed.pttActive
  unfold Capture.sendChunk
  simp only [shut, Bool.not_false, if_true]

variable {audio} in
/-- Behind a closed gate nothing is encoded. -/
theorem Closed.outputs {voice : Voice E} (closed : Closed voice) (chunks : List Chunk) :
    (voiceMachine audio).outputs voice chunks = [] := by
  induction chunks generalizing voice with
  | nil => rfl
  | cons chunk rest ih =>
    obtain ⟨closed', nothing⟩ := Closed.sendChunk audio closed chunk
    exact List.append_eq_nil_iff.mpr ⟨nothing, ih closed'⟩

end Capture

/-- The controls mute the session. -/
structure Controls.Muted (controls : Controls) : Prop where
  inputMode : controls.inputMode = some .pushToTalk
  pttActive : controls.pttActive = false

theorem Capture.step_of_muted {σ E : Type} (audio : AudioLibrary σ E) (capture : Capture σ E)
    {controls : Controls} (muted : controls.Muted) (read : List Sample) :
    ((Capture.machine audio).step capture (controls, read)).2 = [] := by
  have synced := syncedTo_sync capture controls
  rw [step_voice]
  exact Closed.outputs ⟨synced.inputMode _ muted.inputMode,
    synced.pttActive.trans muted.pttActive⟩ _

namespace Node

variable {D : Type} {prim : Primitives D}

theorem pktType_of_sealCounted {node : Node D} {pktType : UInt8} {payload : Bytes}
    {seqNum : UInt16} {dst : SocketAddr} {e : Emission}
    (member : e ∈ (sealCounted prim node pktType payload seqNum dst).2) :
    e.header.pktType = pktType := by
  rcases sealCounted_cases prim node pktType payload seqNum dst with
    none | ⟨e', one, _, _, header, _⟩
  · rw [none] at member
    cases member
  · rw [one] at member
    rw [List.mem_singleton.mp member, header]

theorem pktType_of_sendKeyExchange {node : Node D} {id : UInt8} {dst : SocketAddr} {e : Emission}
    (member : e ∈ (sendKeyExchange prim node id dst).2) :
    e.header.pktType = pktKeyExchange := by
  rcases sendKeyExchange_cases prim node id dst with
    ⟨_, none⟩ | ⟨e', peer, one, _, _, _, _, header, _⟩
  · rw [none] at member
    cases member
  · rw [one] at member
    rw [List.mem_singleton.mp member, header]

/-- Whatever is received, the answer is not audio. -/
theorem not_audio_of_recv {node : Node D} {env : Env D} {data : Bytes} {srcAddr : SocketAddr}
    {e : Emission} (member : e ∈ (handleIncoming prim node env data srcAddr).out) :
    e.header.pktType ≠ pktAudio := by
  cases emits_of_recv member with
  | peerList parsed join answer =>
    obtain ⟨_, header, _⟩ := mem_handleJoin_out answer
    exact ne_of_eq_of_ne (congrArg PacketHeader.pktType header) (by decide : pktPeerList ≠ pktAudio)
  | hello adopted sealedWith scope header plaintext =>
    exact ne_of_eq_of_ne (congrArg PacketHeader.pktType header) (by decide : pktHello ≠ pktAudio)
  | helloAck parsed hello opened greeting sealedWith scope header plaintext dst =>
    exact ne_of_eq_of_ne (congrArg PacketHeader.pktType header) (by decide : pktHelloAck ≠ pktAudio)
  | keyExchange owed sealedWith scope header plaintext =>
    exact ne_of_eq_of_ne (congrArg PacketHeader.pktType header) (by decide : pktKeyExchange ≠ pktAudio)
  | counted draws sealedWith scope type peerId =>
    -- the one counted packet that answers another one is a PONG
    obtain ⟨packet, request, parsed, ping, opened⟩ := draws
    rw [handleIncoming, parsed] at member
    dsimp only at member
    rw [handlePacket_ping prim ping, handlePing, opened] at member
    dsimp only at member
    split at member
    · cases member
    · rw [pktType_of_sealCounted member]
      decide

/-- **Audio comes from frames** and from nothing else, and carries them. -/
theorem frame_of_audio {node : Node D} {env : Env D} {event : Event} {e : Emission}
    (member : e ∈ (step prim node env event).2) (audio : e.header.pktType = pktAudio) :
    event = .frame e.plaintext := by
  cases event with
  | recv data srcAddr => exact absurd audio (not_audio_of_recv member)
  | frame opus =>
    obtain ⟨node', target, -, -, out⟩ := Machine.mem_outputs
      (M := eachPeer (sendFrameTo prim opus)) (fun _ => True) (fun _ _ _ => trivial) trivial member
    rcases sendFrameTo_cases prim opus node' target with none | ⟨e', _, one, _, plaintext, _⟩
    · change e ∈ (sendFrameTo prim opus node' target).2 at out
      rw [none] at out
      cases out
    · change e ∈ (sendFrameTo prim opus node' target).2 at out
      rw [one] at out
      rw [List.mem_singleton.mp out, plaintext]
  | playout => cases member
  | keepalive =>
    obtain ⟨node', target, -, -, out⟩ := Machine.mem_outputs
      (fun _ => True) (fun _ _ _ => trivial) trivial member
    rw [pktType_of_sealCounted out] at audio
    exact absurd audio (by decide)
  | ping =>
    rcases List.mem_append.mp member with pings | exchanges
    · obtain ⟨node', target, -, -, out⟩ := Machine.mem_outputs
        (fun _ => True) (fun _ _ _ => trivial) trivial pings
      change e ∈ (sendPingTo prim env node' target).2 at out
      unfold sendPingTo at out
      split at out
      · cases out
      · rw [pktType_of_sealCounted out] at audio
        exact absurd audio (by decide)
    · obtain ⟨node', target, -, -, out⟩ := Machine.mem_outputs
        (fun _ => True) (fun _ _ _ => trivial) trivial exchanges
      rw [pktType_of_sendKeyExchange out] at audio
      exact absurd audio (by decide)
  | adapt elapsedSecs => cases member

end Node

/-- No timer of the loop calls for a frame. -/
theorem Timers.frame_not_mem_due (timers : Timers) (now : Instant) (opus : Bytes) :
    Node.Event.frame opus ∉ (timers.due now).1 := by
  intro member
  rcases List.mem_append.mp member with others | adapt
  · rcases List.mem_append.mp others with earlier | ping
    · rcases List.mem_append.mp earlier with playout | keepalive
      · cases eq_of_mem_poll playout
      · cases eq_of_mem_poll keepalive
    · cases eq_of_mem_poll ping
  · cases eq_of_mem_poll adapt

namespace RunState

variable {σ E D : Type} (prim : Primitives D) (audio : AudioLibrary σ E)

/-- What an iteration sends is what the node sends on its events. -/
theorem packets_of_iterate (s : RunState σ E D) (turn : Turn D) :
    (s.iterate prim audio turn).2.filterMap Effect.packet? =
      (nodeMachine prim).outputs s.node ((mainLoop D).step s.timers
        ⟨turn.env, turn.received, ((Capture.machine audio).step s.capture turn.heard).2⟩).2 :=
  (iterate_eq prim audio s turn).2.trans (List.append_nil _)

/-- The audio that an iteration sends carries the frames that it encodes. -/
theorem encoded_of_audio {s : RunState σ E D} {turn : Turn D} {packet : Emission}
    (sent : .send packet ∈ (s.iterate prim audio turn).2)
    (type : packet.header.pktType = pktAudio) :
    packet.plaintext ∈ ((Capture.machine audio).step s.capture turn.heard).2 := by
  have shown : packet ∈ (s.iterate prim audio turn).2.filterMap Effect.packet? :=
    List.mem_filterMap.mpr ⟨_, sent, rfl⟩
  rw [packets_of_iterate] at shown
  obtain ⟨node, input, -, inside, out⟩ := Machine.mem_outputs (M := nodeMachine prim)
    (fun _ => True) (fun _ _ _ => trivial) trivial shown
  obtain ⟨event, member, rfl⟩ := List.mem_map.mp inside
  have frame : event = .frame packet.plaintext := Node.frame_of_audio out type
  subst frame
  rcases List.mem_append.mp member with arrived | due
  · rcases List.mem_append.mp arrived with received | frames
    · obtain ⟨datagram, -, same⟩ := Option.map_eq_some_iff.mp (Option.mem_toList.mp received)
      cases same
    · obtain ⟨opus, here, same⟩ := List.mem_map.mp frames
      cases same
      exact here
  · exact (Timers.frame_not_mem_due _ _ _ due).elim

/-- **A muted session sends no audio**: in no state of a run, and whatever was captured or
received, an iteration that finds push-to-talk without its key sends an audio packet. -/
theorem silent_of_muted (s : RunState σ E D) (before : List (Turn D)) {turn : Turn D}
    (muted : turn.controls.Muted) :
    ((((machine prim audio).step ((machine prim audio).run s before) turn).2.filterMap
      Effect.packet?).filter fun packet => packet.header.pktType = pktAudio) = [] := by
  refine List.filter_eq_nil_iff.mpr fun packet shown type => ?_
  obtain ⟨effect, sent, same⟩ := List.mem_filterMap.mp shown
  obtain rfl : effect = .send packet := by
    cases effect with
    | send packet' => rw [Option.some.inj same]
    | play mixed => cases same
  have encoded := encoded_of_audio prim audio sent (of_decide_eq_true type)
  rw [Turn.heard, Capture.step_of_muted audio _ muted] at encoded
  cases encoded

/-- A host that has spoken to a peer is muted, and sends no audio of what it captures. -/
theorem silent_host_of_muted :
    let s := start AudioLibrary.transparent Sample.hostOfOne.node true VadConfig.default .alwaysOn
      () 0
    let heard := List.replicate frameSamples (1 / 2 : ℚ)
    let spoken : Turn Unit := ⟨⟨Sample.env 0 0, ⟨false, false, none⟩, none, true⟩, heard⟩
    let muted : Turn Unit := ⟨⟨Sample.env 0 1, ⟨false, false, some .pushToTalk⟩, none, true⟩, heard⟩
    ((((machine Primitives.transparent AudioLibrary.transparent).outputs s [spoken]).filterMap
      Effect.packet?).filter fun packet => packet.header.pktType = pktAudio).length = 1 ∧
    ((((machine Primitives.transparent AudioLibrary.transparent).step
        ((machine Primitives.transparent AudioLibrary.transparent).run s [spoken]) muted).2.filterMap
      Effect.packet?).filter fun packet => packet.header.pktType = pktAudio) = [] := by
  intro s heard spoken muted
  exact ⟨by decide +kernel,
    silent_of_muted Primitives.transparent AudioLibrary.transparent s [spoken] ⟨rfl, rfl⟩⟩

end RunState

end VoiceChat
