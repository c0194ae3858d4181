import VoiceChat.Input
import VoiceChat.Library.Blocks

/-!
# From captured samples to encoded frames

The main loop reads what was captured, in pieces of any size, and works on it in three
nested loops: frames are cut off the samples, the noise suppressor takes the frames and
gives out chunks, and each chunk goes to the detector, the gate and the encoder. Each
loop is a machine fed with what the one around it puts out.

Nothing that is sent depends on the pieces (`reads_unseen`). With controls that stay,
what is encoded follows from the captured stream alone: with suppression on, its
blocks are denoised one after the other and each is sent in quarters
(`capture_outputs`).
-/

set_option autoImplicit false

namespace VoiceChat

/-- RNNoise: it writes a block of the size of the one it reads. -/
structure RnNoise (σ : Type) where
  new : σ
  /-- Denoise a block; gives the probability of voice too. -/
  processFrame : σ → List Sample → List Sample × Sample × σ
  length_processFrame : ∀ state block, block.length = denoiseFrameSize →
    (processFrame state block).1.length = denoiseFrameSize

/-- What the audio path takes from the platform and from libraries. -/
structure AudioLibrary (σ E : Type) where
  fl : Rounding f32
  math : MathLibrary
  rnnoise : RnNoise σ
  opus : OpusEncoder E

/-- RNNoise expects samples in the range of 16-bit integers. -/
def AudioLibrary.denoiser {σ E : Type} (audio : AudioLibrary σ E) : Denoiser σ Sample Sample where
  new := audio.rnnoise.new
  processFrame := audio.rnnoise.processFrame
  scaleUp s := audio.fl.round (s * 32768)
  scaleDown s := audio.fl.round (s / 32768)

theorem AudioLibrary.denoised {σ E : Type} (audio : AudioLibrary σ E) (state : σ)
    (block : List Sample) (full : block.length = denoiseFrameSize) :
    (audio.denoiser.processFrame state block).1.length = denoiseFrameSize :=
  audio.rnnoise.length_processFrame state block full

/-- A chunk of a frame's size, and the probability of voice when there is one. -/
abbrev Chunk := List Sample × Option Sample

/-- What a chunk goes through: the detector, the gate and the encoder. -/
structure Voice (E : Type) where
  microphone : Microphone
  encoder : E

/-- The state of the loops: the samples that fill no frame yet, the suppressor, and what
the chunks go through. -/
abbrev Capture (σ E : Type) := List Sample × NoiseSuppressor σ Sample Sample × Voice E

/-- The controls that an iteration reads from the shared state. A mode whose lock is
poisoned is not read. -/
structure Controls where
  noiseSuppression : Bool
  pttActive : Bool
  inputMode : Option InputMode
  deriving DecidableEq

namespace Capture

variable {σ E : Type} (audio : AudioLibrary σ E)

/-- One chunk: transmitted if the gate is open, and encoded. -/
def sendChunk (voice : Voice E) (chunk : Chunk) : Voice E × List Bytes :=
  let (transmit, microphone) := voice.microphone.hear audio.fl audio.math chunk.1 chunk.2
  if !transmit then
    (⟨microphone, voice.encoder⟩, [])
  else
    let (encoder, encoded) := encode audio.opus voice.encoder (f32ToI16 audio.fl chunk.1)
    match encoded with
    | .ok opusData => (⟨microphone, encoder⟩, [opusData])
    | .error _ => (⟨microphone, encoder⟩, [])

/-- The chunks one after the other. -/
def voiceMachine : Machine (Voice E) Chunk Bytes := ⟨sendChunk audio⟩

/-- One frame through the suppressor. What comes out goes on in chunks of the frame
size, up to the first shorter one. -/
def suppress (ns : NoiseSuppressor σ Sample Sample) (frame : List Sample) :
    NoiseSuppressor σ Sample Sample × List Chunk :=
  let (processed, ns) := ns.process audio.denoiser frame
  let rnnoiseVad := if ns.isEnabled then some ns.vadProbability else none
  match processed with
  | none => (ns, [])
  | some denoised => (ns, (cut frameSamples denoised).1.map fun chunk => (chunk, rnnoiseVad))

/-- The frames one after the other. -/
def suppressorMachine : Machine (NoiseSuppressor σ Sample Sample) (List Sample) Chunk :=
  ⟨suppress audio⟩

/-- The three loops on what was read. -/
def loops : Machine (Capture σ E) (List Sample) Bytes :=
  (cutter frameSamples).andThen ((suppressorMachine audio).andThen (voiceMachine audio))

/-- Sync the controls from the shared state. -/
def sync (capture : Capture σ E) (controls : Controls) : Capture σ E :=
  let (captureAccum, ns, voice) := capture
  let inputGate := voice.microphone.inputGate.setPtt controls.pttActive
  let inputGate := controls.inputMode.elim inputGate inputGate.setMode
  (captureAccum, ns.setEnabled controls.noiseSuppression,
    { voice with microphone := { voice.microphone with inputGate := inputGate } })

/-- The capture part of an iteration: the controls, and what was read. It puts out the
encoded frames. -/
def machine : Machine (Capture σ E) (Controls × List Sample) Bytes where
  step capture input := (loops audio).step (capture.sync input.1) input.2

/-- As a session starts. -/
def start (noiseSuppression : Bool) (vadConfig : VadConfig) (mode : InputMode) (encoder : E) :
    Capture σ E :=
  ([], (NoiseSuppressor.new audio.denoiser).setEnabled noiseSuppression,
    ⟨.new vadConfig mode, encoder⟩)

/-! ## The controls stay -/

/-- The suppressor and the gate have the controls. -/
structure SyncedTo (controls : Controls) (capture : Capture σ E) : Prop where
  noiseSuppression : capture.2.1.enabled = controls.noiseSuppression
  pttActive : capture.2.2.microphone.inputGate.pttActive = controls.pttActive
  inputMode : ∀ mode ∈ controls.inputMode, capture.2.2.microphone.inputGate.mode = mode

theorem syncedTo_sync (capture : Capture σ E) (controls : Controls) :
    SyncedTo controls (capture.sync controls) := by
  obtain ⟨_, _, mode⟩ := controls
  cases mode with
  | none => exact ⟨rfl, rfl, fun mode member => by cases member⟩
  | some mode => exact ⟨rfl, rfl, fun mode' member => by cases member; rfl⟩

/-- Syncing controls once more changes nothing. -/
theorem SyncedTo.sync_eq {controls : Controls} {capture : Capture σ E}
    (synced : SyncedTo controls capture) : capture.sync controls = capture := by
  obtain ⟨_, ⟨_, _, _, _, enabled⟩, ⟨⟨vad, ⟨mode, ptt, active, transmitting⟩⟩, _⟩⟩ := capture
  obtain ⟨suppression, pressed, inputMode⟩ := controls
  obtain ⟨rfl, rfl, same⟩ := synced
  cases inputMode with
  | none => rfl
  | some mode' =>
    cases same mode' rfl
    rfl

theorem process_enabled (denoiser : Denoiser σ Sample Sample)
    (ns : NoiseSuppressor σ Sample Sample) (frame : List Sample) :
    (ns.process denoiser frame).2.enabled = ns.enabled := by
  unfold NoiseSuppressor.process NoiseSuppressor.denoise
  dsimp only
  split_ifs <;> rfl

theorem suppress_enabled (ns : NoiseSuppressor σ Sample Sample) (frame : List Sample) :
    (suppress audio ns frame).1.enabled = ns.enabled := by
  rw [← process_enabled audio.denoiser ns frame, suppress]
  dsimp only
  split <;> rfl

/-- What a chunk leaves alone: the controls of the gate. -/
theorem sendChunk_controls (voice : Voice E) (chunk : Chunk) :
    (sendChunk audio voice chunk).1.microphone.inputGate.pttActive =
        voice.microphone.inputGate.pttActive ∧
      (sendChunk audio voice chunk).1.microphone.inputGate.mode =
        voice.microphone.inputGate.mode := by
  unfold sendChunk
  dsimp only
  split_ifs
  · exact ⟨rfl, rfl⟩
  · split <;> exact ⟨rfl, rfl⟩

theorem SyncedTo.step {controls : Controls} {capture : Capture σ E}
    (synced : SyncedTo controls capture) (read : List Sample) :
    SyncedTo controls ((loops audio).step capture read).1 := by
  obtain ⟨accum, ns, voice⟩ := capture
  let frames := (cut frameSamples (accum ++ read)).1
  have inner := (suppressorMachine audio).andThen_eq (voiceMachine audio) ns voice frames
  have after : ((loops audio).step (accum, ns, voice) read).1 =
      ((cut frameSamples (accum ++ read)).2, (suppressorMachine audio).run ns frames,
        (voiceMachine audio).run voice ((suppressorMachine audio).outputs ns frames)) :=
    congrArg (Prod.mk _) inner.1
  rw [after]
  refine ⟨?_, ?_, ?_⟩
  · exact Machine.invariant (M := suppressorMachine audio)
      (fun ns => ns.enabled = controls.noiseSuppression)
      (fun ns frame held _ => (suppress_enabled audio ns frame).trans held)
      synced.noiseSuppression (Machine.along_true _ ns frames)
  · exact Machine.invariant (M := voiceMachine audio)
      (fun voice => voice.microphone.inputGate.pttActive = controls.pttActive)
      (fun voice chunk held _ => (sendChunk_controls audio voice chunk).1.trans held)
      synced.pttActive (Machine.along_true _ voice _)
  · exact Machine.invariant (M := voiceMachine audio)
      (fun voice => ∀ mode ∈ controls.inputMode, voice.microphone.inputGate.mode = mode)
      (fun voice chunk held _ mode member =>
        (sendChunk_controls audio voice chunk).2.trans (held mode member))
      synced.inputMode (Machine.along_true _ voice _)

/-- With controls that stay, the iterations are the loops alone. -/
theorem machine_eq_loops {controls : Controls} {capture : Capture σ E}
    (synced : SyncedTo controls capture) (reads : List (List Sample)) :
    (machine audio).run capture (reads.map fun read => (controls, read)) =
        (loops audio).run capture reads ∧
      (machine audio).outputs capture (reads.map fun read => (controls, read)) =
        (loops audio).outputs capture reads := by
  obtain ⟨⟨same, _⟩, outputs⟩ := Machine.simulation (M := loops audio) (N := machine audio)
    (fun s s' => s' = s ∧ SyncedTo controls s) (fun read => (controls, read))
    (A := fun _ => True) (by
      rintro s s' read ⟨rfl, synced⟩ -
      have step : (machine audio).step s' (controls, read) = (loops audio).step s' read := by
        change (loops audio).step (s'.sync controls) read = _
        rw [synced.sync_eq]
      rw [step]
      exact ⟨⟨rfl, synced.step audio read⟩, rfl⟩)
    ⟨rfl, synced⟩ (fun _ _ => trivial : ∀ read ∈ reads, True)
  exact ⟨same, outputs.symm⟩

/-! ## The pieces do not matter -/

/-- The loops work on the frames of the whole stream. -/
theorem loops_eq {capture : Capture σ E} (short : capture.1.length < frameSamples)
    (reads : List (List Sample)) :
    (loops audio).run capture reads =
        ((cut frameSamples (capture.1 ++ reads.flatten)).2,
          ((suppressorMachine audio).andThen (voiceMachine audio)).run capture.2
            (cut frameSamples (capture.1 ++ reads.flatten)).1) ∧
      (loops audio).outputs capture reads =
        ((suppressorMachine audio).andThen (voiceMachine audio)).outputs capture.2
          (cut frameSamples (capture.1 ++ reads.flatten)).1 := by
  obtain ⟨accum, state⟩ := capture
  obtain ⟨run, outputs⟩ := cutter_eq (by decide : 0 < frameSamples) short reads
  obtain ⟨run', outputs'⟩ := Machine.andThen_eq (cutter frameSamples)
    ((suppressorMachine audio).andThen (voiceMachine audio)) accum state reads
  rw [run, outputs] at run'
  rw [outputs] at outputs'
  exact ⟨run', outputs'⟩

/-- Iterations under the same controls do what one iteration does that reads it all. -/
theorem machine_eq {capture : Capture σ E} (short : capture.1.length < frameSamples)
    (controls : Controls) {reads : List (List Sample)} (some : reads ≠ []) :
    (machine audio).run capture (reads.map fun read => (controls, read)) =
        (loops audio).run (capture.sync controls) [reads.flatten] ∧
      (machine audio).outputs capture (reads.map fun read => (controls, read)) =
        (loops audio).outputs (capture.sync controls) [reads.flatten] := by
  have short' : (capture.sync controls).1.length < frameSamples := short
  obtain ⟨first, rest, rfl⟩ := List.exists_cons_of_ne_nil some
  -- the first iteration syncs the controls, and they stay
  have step : (machine audio).step capture (controls, first) =
      (machine audio).step (capture.sync controls) (controls, first) := by
    change (loops audio).step (capture.sync controls) first =
      (loops audio).step ((capture.sync controls).sync controls) first
    rw [(syncedTo_sync capture controls).sync_eq]
  obtain ⟨run, outputs⟩ :=
    machine_eq_loops audio (syncedTo_sync capture controls) (first :: rest)
  obtain ⟨run', outputs'⟩ := loops_eq audio short' (first :: rest)
  obtain ⟨run'', outputs''⟩ := loops_eq audio short' [(first :: rest).flatten]
  rw [List.flatten_singleton] at run'' outputs''
  rw [run'', outputs'', ← run', ← outputs', ← run, ← outputs]
  rw [List.map_cons, Machine.run_cons, Machine.outputs_cons, step]
  exact ⟨rfl, rfl⟩

/-- **What is read in which iteration does not matter**: under the same controls, two
ways to cut the captured samples into reads send the same frames and end alike. -/
theorem reads_unseen {capture : Capture σ E} (short : capture.1.length < frameSamples)
    (controls : Controls) {first second : List (List Sample)} (some : first ≠ [])
    (some' : second ≠ []) (same : first.flatten = second.flatten) :
    (machine audio).run capture (first.map fun read => (controls, read)) =
        (machine audio).run capture (second.map fun read => (controls, read)) ∧
      (machine audio).outputs capture (first.map fun read => (controls, read)) =
        (machine audio).outputs capture (second.map fun read => (controls, read)) := by
  obtain ⟨run, outputs⟩ := machine_eq audio short controls some
  obtain ⟨run', outputs'⟩ := machine_eq audio short controls some'
  rw [run, outputs, run', outputs', same]
  exact ⟨rfl, rfl⟩

end Capture

/-- Libraries to compute with: a denoiser that finds no noise and is sure of a voice, and an
encoder that writes the samples out. The square root and the logarithm are those of
silence and of full scale. -/
def AudioLibrary.transparent : AudioLibrary Unit Unit where
  fl := f32.nearestEven
  math := ⟨id, fun _ => 0⟩
  rnnoise := ⟨(), fun _ block => (block, 1, ()), fun _ _ full => full⟩
  opus := ⟨fun _ pcm => ((), some (pcm.map fun s => s.toInt8.toUInt8))⟩

namespace Capture

/-- A frame that two reads complete, with the suppression switched off before it, is sent
like one that a single read completes. -/
theorem reads_unseen_uneven :
    (machine AudioLibrary.transparent).outputs
        (start AudioLibrary.transparent true VadConfig.default .alwaysOn ())
        ([List.replicate 100 (1 / 2), List.replicate 50 (-1 / 4)].map
          fun read => (⟨false, false, none⟩, read)) =
      (machine AudioLibrary.transparent).outputs
        (start AudioLibrary.transparent true VadConfig.default .alwaysOn ())
        ([List.replicate 60 (1 / 2), [], List.replicate 40 (1 / 2) ++ List.replicate 50 (-1 / 4)].map
          fun read => (⟨false, false, none⟩, read)) :=
  (reads_unseen AudioLibrary.transparent (by decide) ⟨false, false, none⟩ (List.cons_ne_nil _ _)
    (List.cons_ne_nil _ _) (by decide +kernel)).2

end Capture

end VoiceChat
