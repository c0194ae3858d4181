import VoiceChat.Audio
import VoiceChat.Session.Run

/-!
# A session between its devices

The loop of the session, the callback of the capture device and the callback of the
playout device run on three threads and meet in two ring buffers. A station is all of it:
its events are the callbacks and the iterations, in any order.

The order does not matter for what is said. As long as no sample was dropped, the frames
that a session encodes are a function of the captured stream, whenever the device captured
it and whenever the loop came to read it (`frames_of_captured`). On the other side the
device plays every sample that the playout ticks mixed, once and in order, with silence
where there is none (`mixed_is_played`).
-/

set_option autoImplicit false

namespace VoiceChat

/-- A running session and the streams of its devices. -/
structure Station (σ E D B : Type) where
  session : RunState σ E D
  input : InputStream B
  /-- The playout buffer. -/
  output : B

/-- How many channels the devices have. -/
structure Channels where
  input : Nat
  output : Nat

namespace Station

variable {σ E D B : Type} (prim : Primitives D) (audio : AudioLibrary σ E)
  (ring : RingBuffer Sample B) (channels : Channels)

/-- What one of the three threads does. A callback looks whether the session is still
running. -/
inductive Event (D : Type) where
  | capture (running : Bool) (now : Instant) (data : List Sample)
  | playout (running : Bool) (data : List Sample)
  | iterate (circumstances : Circumstances D)

/-- What a station does to the world. -/
inductive Happening where
  | send (packet : Emission)
  | overflow (now : Instant) (dropped : Nat)
  | play (playback : Playback)

/-- A station with empty buffers. -/
def start (session : RunState σ E D) : Station σ E D B where
  session := session
  input := ⟨ring.new ringBufferCapacity, .start⟩
  output := ring.new ringBufferCapacity

/-- Push what the session mixed. What finds no room is dropped. -/
def pushMixed (output : B) (effects : List Effect) : B :=
  (effects.filterMap Effect.mixed?).foldl (fun output mixed => (ring.pushSlice output mixed).2)
    output

/-- A station under the events of its threads. -/
def machine : Machine (Station σ E D B) (Event D) Happening where
  step
    | station, .capture running now data =>
        let (prod, overflow, logged) := inputCb audio.fl ring channels.input station.input.prod
          station.input.overflow running now data
        ({ station with input := ⟨prod, overflow⟩ },
          (logged.map fun dropped => .overflow now dropped).toList)
    | station, .playout running data =>
        let (output, filled) := outputCb ring channels.output station.output running data
        ({ station with output := output },
          [.play ⟨running, data, filled, (ring.contents output).length⟩])
    | station, .iterate circumstances =>
        let (read, prod) := ring.popSlice station.input.prod tempBufSamples
        let (session, effects) := station.session.iterate prim audio ⟨circumstances, read⟩
        (⟨session, ⟨prod, station.input.overflow⟩, pushMixed ring station.output effects⟩,
          (effects.filterMap Effect.packet?).map .send)

/-! ## The threads one by one -/

/-- What an event does to the input stream. -/
def Event.input : Event D → List InputStream.Event
  | .capture running now data => [.callback running now data]
  | .playout _ _ => []
  | .iterate _ => [.read tempBufSamples]

/-- The turns of the session: its iterations, each with what it reads. -/
def reader : Machine (InputStream B) (Event D) (Turn D) where
  step
    | stream, .capture running now data =>
        let (prod, overflow, _) :=
          inputCb audio.fl ring channels.input stream.prod stream.overflow running now data
        (⟨prod, overflow⟩, [])
    | stream, .playout _ _ => (stream, [])
    | stream, .iterate circumstances =>
        (⟨(ring.popSlice stream.prod tempBufSamples).2, stream.overflow⟩,
          [⟨circumstances, (ring.popSlice stream.prod tempBufSamples).1⟩])

/-- The turns of the session in a run. -/
def turns (station : Station σ E D B) (events : List (Event D)) : List (Turn D) :=
  (reader audio ring channels).outputs station.input events

/-- The session of a station is a session on its turns. -/
theorem run_session (station : Station σ E D B) (events : List (Event D)) :
    ((machine prim audio ring channels).run station events).session =
      (RunState.machine prim audio).run station.session (station.turns audio ring channels events) := by
  induction events generalizing station with
  | nil => rfl
  | cons event rest ih =>
    rw [Machine.run_cons, ih]
    cases event <;> rfl

/-- What an event asks of the capture buffer. -/
def Event.operations (event : Event D) : List (RingBuffer.Operation Sample) :=
  event.input.flatMap (InputStream.Event.operations audio.fl channels.input)

/-- The samples that an event captures. -/
def Event.captured : Event D → List Sample
  | .capture running _ data => if running then downmix audio.fl channels.input data else []
  | .playout _ _ => []
  | .iterate _ => []

theorem Event.offered_operations (event : Event D) :
    (event.operations audio channels).flatMap RingBuffer.Operation.offered =
      event.captured audio channels := by
  cases event with
  | capture running now data =>
    cases running with
    | false => rfl
    | true => exact List.append_nil _
  | playout running data => rfl
  | iterate circumstances => rfl

/-- What the turns read, one after the other, is what is popped. -/
theorem flatten_reads (stream : InputStream B) (events : List (Event D)) :
    (((reader audio ring channels).outputs stream events).map Turn.read).flatten =
      ring.machine.outputs stream.prod (events.flatMap (Event.operations audio channels)) := by
  induction events generalizing stream with
  | nil => rfl
  | cons event rest ih =>
    rw [Machine.outputs_cons, List.map_append, List.flatten_append, ih, List.flatMap_cons,
      Machine.outputs_append]
    have buffer : ((reader audio ring channels).step stream event).1.prod =
        ring.machine.run stream.prod (event.operations audio channels) := by
      cases event with
      | capture running now data =>
        have step := InputStream.step_prod audio.fl ring channels.input stream
          (.callback running now data)
        exact step.trans (congrArg _ (List.append_nil _).symm)
      | playout running data => rfl
      | iterate circumstances => rfl
    rw [buffer]
    congr 1
    cases event with
    | capture running now data => cases running <;> rfl
    | playout running data => rfl
    | iterate circumstances => rfl

/-- What was read, followed by what is in the capture buffer, is what was captured, as
long as nothing was dropped. -/
theorem reads_append_contents (session : RunState σ E D) {events : List (Event D)}
    (nothing : ring.refused (ring.new ringBufferCapacity)
      (events.flatMap (Event.operations audio channels)) = []) :
    (((start ring session).turns audio ring channels events).map Turn.read).flatten ++
        ring.contents (ring.machine.run (ring.new ringBufferCapacity)
          (events.flatMap (Event.operations audio channels))) =
      events.flatMap (Event.captured audio channels) := by
  have accepted := RingBuffer.accepted_of_refused_nil nothing
  have conserved := RingBuffer.accepted_eq ring (ring.new ringBufferCapacity)
    (events.flatMap (Event.operations audio channels))
  rw [ring.contents_new, List.nil_append, accepted, List.flatMap_assoc] at conserved
  rw [turns, flatten_reads]
  refine conserved.symm.trans (List.flatMap_congr fun event _ => ?_)
  exact event.offered_operations audio channels

/-- A device with two channels captures a frame, the session reads it, and the device
captures some more. -/
def spokenMoment : List (Event Unit) :=
  [.capture true 0 (List.replicate 240 (1 / 2)),
    .iterate ⟨Sample.env 0 1000, ⟨true, false, some .alwaysOn⟩, none, true⟩,
    .capture true 2000 (List.replicate 20 (1 / 4))]

/-- No more is captured between two iterations than each of them reads at most. The
number is what was captured since the last one. -/
def Paced : Nat → List (Event D) → Prop
  | _, [] => True
  | waiting, .capture running now data :: rest =>
      let captured := (Event.capture running now data : Event D).captured audio channels
      waiting + captured.length ≤ tempBufSamples ∧ Paced (waiting + captured.length) rest
  | waiting, .playout _ _ :: rest => Paced waiting rest
  | _, .iterate _ :: rest => Paced 0 rest

variable {audio channels} in
theorem paced_operations {waiting : Nat} {events : List (Event D)}
    (paced : Paced audio channels waiting events) :
    RingBuffer.Paced tempBufSamples waiting
      (events.flatMap (Event.operations audio channels)) := by
  induction events generalizing waiting with
  | nil => trivial
  | cons event rest ih =>
    cases event with
    | capture running now data =>
      cases running with
      | false => exact ih paced.2
      | true => exact ⟨paced.1, ih paced.2⟩
    | playout running data => exact ih paced
    | iterate circumstances => exact ⟨Nat.le_refl _, ih paced⟩

variable {audio channels} in
theorem paced_of_append (waiting : Nat) {before after : List (Event D)}
    (paced : Paced audio channels waiting (before ++ after)) :
    Paced audio channels waiting before := by
  induction before generalizing waiting with
  | nil => trivial
  | cons event rest ih =>
    cases event with
    | capture running now data => exact ⟨paced.1, ih _ paced.2⟩
    | playout running data => exact ih waiting paced
    | iterate circumstances => exact ih 0 paced

/-- **Read in time**, no sample is dropped, and each iteration reads all that was
captured. -/
theorem read_in_time (session : RunState σ E D) {events : List (Event D)}
    (paced : Paced audio channels 0 events) :
    ring.refused (ring.new ringBufferCapacity)
        (events.flatMap (Event.operations audio channels)) = [] ∧
      ∀ before circumstances after, events = before ++ .iterate circumstances :: after →
        (((start ring session).turns audio ring channels
          (before ++ [.iterate circumstances])).map Turn.read).flatten =
            before.flatMap (Event.captured audio channels) := by
  have empty : (ring.contents (ring.new ringBufferCapacity)).length ≤ 0 := by
    rw [ring.contents_new]
    exact Nat.le_refl 0
  have kept := fun {events : List (Event D)} (paced : Paced audio channels 0 events) =>
    RingBuffer.of_paced (by decide : tempBufSamples ≤ ringBufferCapacity)
      (ring.within_new ringBufferCapacity) empty (Nat.zero_le _) (paced_operations paced)
  refine ⟨(kept paced).1, ?_⟩
  rintro before circumstances after rfl
  rw [← List.singleton_append, ← List.append_assoc] at paced
  obtain ⟨nothing, length⟩ := kept (paced_of_append 0 paced)
  have drained : ring.contents (ring.machine.run (ring.new ringBufferCapacity)
      ((before ++ [Event.iterate circumstances]).flatMap
        (Event.operations audio channels))) = [] := by
    rw [List.flatMap_append] at length
    rw [List.flatMap_append]
    exact List.eq_nil_of_length_eq_zero (Nat.le_zero.mp
      (length.trans (RingBuffer.pushedSince_append_pop 0 _ tempBufSamples).le))
  have all := reads_append_contents audio ring channels session nothing
  rw [drained, List.append_nil] at all
  rw [all, List.flatMap_append]
  exact List.append_nil _

/-- In a moment that is read in time nothing is dropped, and the iteration reads the frame
that was captured before it. -/
theorem spoken_moment_read_in_time :
    let ring := RingBuffer.queue Sample
    let session := RunState.start AudioLibrary.transparent Sample.host true VadConfig.default
      .alwaysOn () 0
    ring.refused (ring.new ringBufferCapacity)
        (spokenMoment.flatMap (Event.operations AudioLibrary.transparent ⟨2, 2⟩)) = [] ∧
      (((start ring session).turns AudioLibrary.transparent ring ⟨2, 2⟩
        (spokenMoment.take 2)).map Turn.read).flatten =
          (spokenMoment.take 1).flatMap (Event.captured AudioLibrary.transparent ⟨2, 2⟩) := by
  intro ring session
  obtain ⟨nothing, reads⟩ := read_in_time AudioLibrary.transparent ring ⟨2, 2⟩ session
    (show Paced AudioLibrary.transparent ⟨2, 2⟩ 0 spokenMoment from
      ⟨by decide +kernel, by decide +kernel, trivial⟩)
  exact ⟨nothing, reads [_] _ [_] rfl⟩

/-! ## What is mixed is what is played -/

/-- What an event does to the output stream. -/
def outputStep (station : Station σ E D B) : Event D → List OutputEvent
  | .capture _ _ _ => []
  | .playout running data => [.callback running data]
  | .iterate circumstances =>
      ((station.session.iterate prim audio
        ⟨circumstances, (ring.popSlice station.input.prod tempBufSamples).1⟩).2.filterMap
          Effect.mixed?).map .push

/-- What happens to the output stream in a run. -/
def outputEvents (station : Station σ E D B) (events : List (Event D)) : List OutputEvent :=
  ((machine prim audio ring channels).observe (outputStep prim audio ring)).outputs station events

def Happening.playback? : Happening → Option Playback
  | .play playback => some playback
  | _ => none

theorem pushMixed_eq (buffer : B) (effects : List Effect) :
    (OutputEvent.machine ring channels.output).run buffer
        ((effects.filterMap Effect.mixed?).map .push) = pushMixed ring buffer effects ∧
      (OutputEvent.machine ring channels.output).outputs buffer
        ((effects.filterMap Effect.mixed?).map .push) = [] := by
  unfold pushMixed
  generalize effects.filterMap Effect.mixed? = mixed
  induction mixed generalizing buffer with
  | nil => exact ⟨rfl, rfl⟩
  | cons frame rest ih => exact ih (ring.pushSlice buffer frame).2

theorem step_output (station : Station σ E D B) (event : Event D) :
    ((machine prim audio ring channels).step station event).1.output =
        (OutputEvent.machine ring channels.output).run station.output
          (outputStep prim audio ring station event) ∧
      ((machine prim audio ring channels).step station event).2.filterMap Happening.playback? =
        (OutputEvent.machine ring channels.output).outputs station.output
          (outputStep prim audio ring station event) := by
  cases event with
  | capture running now data =>
    refine ⟨rfl, List.filterMap_eq_nil_iff.mpr fun happening member => ?_⟩
    obtain ⟨dropped, -, rfl⟩ := Option.map_eq_some_iff.mp (Option.mem_toList.mp member)
    rfl
  | playout running data => exact ⟨rfl, rfl⟩
  | iterate circumstances =>
    obtain ⟨pushed, silent⟩ := pushMixed_eq ring channels station.output
      (station.session.iterate prim audio
        ⟨circumstances, (ring.popSlice station.input.prod tempBufSamples).1⟩).2
    refine ⟨pushed.symm, Eq.trans ?_ silent.symm⟩
    refine List.filterMap_eq_nil_iff.mpr fun happening member => ?_
    obtain ⟨packet, -, rfl⟩ := List.mem_map.mp member
    rfl

/-- The output stream of a station is an output stream. -/
theorem run_output (station : Station σ E D B) (events : List (Event D)) :
    ((machine prim audio ring channels).run station events).output =
        (OutputEvent.machine ring channels.output).run station.output
          (station.outputEvents prim audio ring channels events) ∧
      ((machine prim audio ring channels).outputs station events).filterMap
          Happening.playback? =
        (OutputEvent.machine ring channels.output).outputs station.output
          (station.outputEvents prim audio ring channels events) := by
  induction events generalizing station with
  | nil => exact ⟨rfl, rfl⟩
  | cons event rest ih =>
    obtain ⟨run, played⟩ := ih ((machine prim audio ring channels).step station event).1
    obtain ⟨step, played'⟩ := step_output prim audio ring channels station event
    rw [Machine.run_cons, Machine.outputs_cons, List.filterMap_append, run, played, step, played',
      outputEvents, outputEvents, Machine.outputs_cons, Machine.run_append, Machine.outputs_append]
    exact ⟨rfl, rfl⟩

/-- The frames that a session mixes in a run. -/
def mixed (station : Station σ E D B) (events : List (Event D)) : List (List Sample) :=
  ((RunState.machine prim audio).outputs station.session
    (station.turns audio ring channels events)).filterMap Effect.mixed?

/-- What is offered to the playout buffer are the frames that the session mixes. -/
theorem offered_outputEvents (station : Station σ E D B) (events : List (Event D)) :
    ((station.outputEvents prim audio ring channels events).flatMap
        (OutputEvent.operations channels.output)).flatMap RingBuffer.Operation.offered =
      (station.mixed prim audio ring channels events).flatten := by
  induction events generalizing station with
  | nil => rfl
  | cons event rest ih =>
    have later := ih ((machine prim audio ring channels).step station event).1
    rw [outputEvents, Machine.outputs_cons, List.flatMap_append, List.flatMap_append]
    refine (congrArg (_ ++ ·) later).trans ?_
    cases event with
    | capture running now data => rfl
    | playout running data => cases running <;> rfl
    | iterate circumstances =>
      change ((List.map OutputEvent.push (List.filterMap Effect.mixed? (station.session.iterate
          prim audio ⟨circumstances, (ring.popSlice station.input.prod tempBufSamples).1⟩).2)).flatMap
          (OutputEvent.operations channels.output)).flatMap RingBuffer.Operation.offered ++ _ =
        (List.filterMap Effect.mixed? ((station.session.iterate prim audio ⟨circumstances,
          (ring.popSlice station.input.prod tempBufSamples).1⟩).2 ++ _)).flatten
      rw [List.filterMap_append, List.flatten_append]
      congr 1
      generalize List.filterMap Effect.mixed? _ = frames
      induction frames with
      | nil => rfl
      | cons frame frames ih => exact congrArg (frame ++ ·) ih

variable {prim audio ring channels} in
/-- Every frame that a session mixes has the size of a frame, and no sample above full
scale. -/
theorem of_mem_mixed {station : Station σ E D B} {events : List (Event D)} {frame : List Sample}
    (member : frame ∈ station.mixed prim audio ring channels events) :
    frame.length = frameSamples ∧ ∀ sample ∈ frame, |sample| ≤ 1 := by
  obtain ⟨effect, out, same⟩ := List.mem_filterMap.mp member
  obtain ⟨session, turn, -, -, out⟩ := Machine.mem_outputs (M := RunState.machine prim audio)
    (fun _ => True) (fun _ _ _ => trivial) trivial out
  obtain ⟨node, mixed⟩ := RunState.exists_mixPlayed (List.mem_filterMap.mpr ⟨effect, out, same⟩)
  exact RunState.mixed_frame prim audio mixed

/-- **What is played is what was mixed**: the playout device gets samples of the frames
that the session mixed, each once, in order and on all channels, with silence only where
nothing was left; all of them unless the buffer was full. None is above full scale. -/
theorem mixed_is_played (session : RunState σ E D) (events : List (Event D)) :
    let station : Station σ E D B := start ring session
    let mixed := (station.mixed prim audio ring channels events).flatten
    let left := ring.contents ((machine prim audio ring channels).run station events).output
    ∃ popped, List.Forall₂ (Playback.Of channels.output)
        (((machine prim audio ring channels).outputs station events).filterMap
          Happening.playback?) popped ∧
      (popped.flatten ++ left).Sublist mixed ∧
      (ring.refused (ring.new ringBufferCapacity)
          ((station.outputEvents prim audio ring channels events).flatMap
            (OutputEvent.operations channels.output)) = [] → popped.flatten ++ left = mixed) ∧
      ∀ sample ∈ popped.flatten, |sample| ≤ 1 := by
  intro station mixed left
  obtain ⟨run, playbacks⟩ := run_output prim audio ring channels station events
  obtain ⟨popped, played, conserved⟩ := OutputEvent.played_in_order ring channels.output
    station.output
    (station.outputEvents prim audio ring channels events)
  have offered := offered_outputEvents prim audio ring channels station events
  have empty : ring.contents station.output = [] := ring.contents_new _
  rw [empty, List.nil_append, ← run] at conserved
  have inside : (popped.flatten ++ left).Sublist mixed := by
    rw [conserved]
    have part := RingBuffer.accepted_sublist ring station.output
      ((station.outputEvents prim audio ring channels events).flatMap
        (OutputEvent.operations channels.output))
    rwa [offered] at part
  refine ⟨popped, playbacks ▸ played, inside, fun nothing => ?_, fun sample member => ?_⟩
  · have all := RingBuffer.accepted_of_refused_nil nothing
    rw [offered] at all
    exact conserved.trans all
  · obtain ⟨frame, frames, here⟩ :=
      List.mem_flatten.mp (inside.subset (List.mem_append_left left member))
    exact (of_mem_mixed frames).2 sample here

end Station

end VoiceChat
