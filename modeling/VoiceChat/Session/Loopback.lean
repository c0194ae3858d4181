import VoiceChat.KeyExchange
import VoiceChat.Session.Heard

/-!
# The loopback test, and suppression of no noise

Two paths of the audio are there to be compared with the one that is used.

The loopback test encodes what was captured and decodes it at once, without a gate. It
plays what a peer would decode of a session that always transmits, frame for frame
(`loopback_eq`); so what is heard in the test is what is heard in a call.

Suppression passes samples on in blocks and in another range. With an RNNoise that finds
no noise, an ungated session sends the frames that it sends with suppression off, less
those that wait for their block (`transparent_suppression`).
-/

set_option autoImplicit false

namespace VoiceChat

namespace Capture

variable {σ E D : Type} (audio : AudioLibrary σ E) (prim : Primitives D)

/-- Frames to packets. A frame that cannot be encoded is left out. -/
def encoderMachine : Machine E (List Sample) Bytes where
  step encoder frame :=
    let (encoder, encoded) := encode audio.opus encoder (f32ToI16 audio.fl frame)
    match encoded with
    | .ok opusData => (encoder, [opusData])
    | .error _ => (encoder, [])

/-- Packets to frames. A packet that cannot be decoded is left out. -/
def decoderMachine : Machine D Bytes (List Sample) where
  step decoder opusData :=
    let (decoder, decoded) := prim.decode decoder opusData
    match decoded with
    | some pcm => (decoder, [i16ToF32 audio.fl pcm])
    | none => (decoder, [])

/-- What the loopback test does with a chunk: it is encoded and decoded. -/
def echoChunk (codec : E × D) (chunk : Chunk) : (E × D) × List (List Sample) :=
  let (encoder, encoded) := encode audio.opus codec.1 (f32ToI16 audio.fl chunk.1)
  match encoded with
  | .error _ => ((encoder, codec.2), [])
  | .ok opusData =>
    let (decoder, decoded) := prim.decode codec.2 opusData
    match decoded with
    | none => ((encoder, decoder), [])
    | some pcm => ((encoder, decoder), [i16ToF32 audio.fl pcm])

def echoMachine : Machine (E × D) Chunk (List Sample) := ⟨echoChunk audio prim⟩

/-- The loopback test: capture, suppression, encoder, decoder, playout. It puts out the
frames that are pushed into the playout buffer. -/
def runLoopback : Machine (List Sample × NoiseSuppressor σ Sample Sample × E × D) (List Sample)
    (List Sample) :=
  (cutter frameSamples).andThen ((suppressorMachine audio).andThen (echoMachine audio prim))

/-! ## An open gate -/

/-- A chunk of the test goes through the encoder and then through the decoder. -/
theorem echoChunk_eq (codec : E × D) (chunk : Chunk) :
    echoChunk audio prim codec chunk =
      ((encoderMachine audio).andThen (decoderMachine audio prim)).step codec chunk.1 := by
  obtain ⟨encoder, decoder⟩ := codec
  unfold echoChunk Machine.andThen encoderMachine
  dsimp only
  cases encoded : (encode audio.opus encoder (f32ToI16 audio.fl chunk.1)).2 with
  | error error => rfl
  | ok opusData =>
    dsimp only [Machine.run, Machine.outputs, decoderMachine]
    cases decoded : (prim.decode decoder opusData).2 <;> rfl

theorem echo_outputs (encoder : E) (decoder : D) (chunks : List Chunk) :
    (echoMachine audio prim).outputs (encoder, decoder) chunks =
      (decoderMachine audio prim).outputs decoder
        ((encoderMachine audio).outputs encoder (chunks.map Prod.fst)) := by
  obtain ⟨_, outputs⟩ := Machine.simulation (M := echoMachine audio prim)
    (N := (encoderMachine audio).andThen (decoderMachine audio prim)) Eq Prod.fst
    (A := fun _ => True) (by
      rintro codec _ chunk rfl -
      change (echoChunk audio prim codec chunk).1 = _ ∧ (echoChunk audio prim codec chunk).2 = _
      rw [echoChunk_eq]
      exact ⟨rfl, rfl⟩)
    (rfl : (encoder, decoder) = (encoder, decoder)) (fun _ _ => trivial : ∀ chunk ∈ chunks, True)
  rw [outputs, (Machine.andThen_eq ..).2]

/-- Through an open gate a chunk goes to the encoder, whatever the detector says. -/
theorem sendChunk_of_alwaysOn {voice : Voice E}
    (mode : voice.microphone.inputGate.mode = .alwaysOn) (chunk : Chunk) :
    (sendChunk audio voice chunk).1.encoder =
        ((encoderMachine audio).step voice.encoder chunk.1).1 ∧
      (sendChunk audio voice chunk).2 = ((encoderMachine audio).step voice.encoder chunk.1).2 := by
  have transmit : (voice.microphone.hear audio.fl audio.math chunk.1 chunk.2).1 = true := by
    rw [Microphone.hear_fst, mode]
  unfold sendChunk encoderMachine
  simp only [transmit, Bool.not_true, Bool.false_eq_true, if_false]
  cases (encode audio.opus voice.encoder (f32ToI16 audio.fl chunk.1)).2 <;> exact ⟨rfl, rfl⟩

theorem voice_outputs_of_alwaysOn {voice : Voice E}
    (mode : voice.microphone.inputGate.mode = .alwaysOn) (chunks : List Chunk) :
    (voiceMachine audio).outputs voice chunks =
      (encoderMachine audio).outputs voice.encoder (chunks.map Prod.fst) := by
  obtain ⟨_, outputs⟩ := Machine.simulation (M := voiceMachine audio) (N := encoderMachine audio)
    (fun voice encoder => voice.microphone.inputGate.mode = .alwaysOn ∧ voice.encoder = encoder)
    Prod.fst (A := fun _ => True) (by
      rintro voice _ chunk ⟨mode, rfl⟩ -
      obtain ⟨encoder, out⟩ := sendChunk_of_alwaysOn audio mode chunk
      exact ⟨⟨(sendChunk_controls audio voice chunk).2.trans mode, encoder⟩, out⟩)
    (⟨mode, rfl⟩ : voice.microphone.inputGate.mode = .alwaysOn ∧ voice.encoder = voice.encoder)
    (fun _ _ => trivial : ∀ chunk ∈ chunks, True)
  exact outputs

/-- What an ungated session sends of a captured stream. -/
theorem outputs_of_alwaysOn (controls : Controls) (always : controls.inputMode = some .alwaysOn)
    (vadConfig : VadConfig) (mode : InputMode) (encoder : E) (noiseSuppression : Bool)
    (reads : List (List Sample)) :
    (machine audio).outputs (start audio noiseSuppression vadConfig mode encoder)
        (reads.map fun read => (controls, read)) =
      (encoderMachine audio).outputs encoder
        ((heardChunks audio controls.noiseSuppression reads.flatten).map Prod.fst) := by
  have synced := syncedTo_sync (start audio noiseSuppression vadConfig mode encoder) controls
  rw [capture_outputs, voice_outputs_of_alwaysOn audio (synced.inputMode _ always)]
  rfl

/-! ## The test -/

/-- The test as it starts. -/
def startLoopback (noiseSuppression : Bool) (encoder : E) (decoder : D) :
    List Sample × NoiseSuppressor σ Sample Sample × E × D :=
  ([], (NoiseSuppressor.new audio.denoiser).setEnabled noiseSuppression, encoder, decoder)

/-- **What is heard in the test is what is heard in a call**: the loopback test plays what
a decoder makes of the frames that a session sends of the same stream, without a gate and
with the same suppression, however both read the stream. -/
theorem loopback_eq (controls : Controls) (always : controls.inputMode = some .alwaysOn)
    (vadConfig : VadConfig) (mode : InputMode) (encoder : E) (decoder : D)
    (noiseSuppression : Bool) {reads reads' : List (List Sample)}
    (same : reads.flatten = reads'.flatten) :
    (runLoopback audio prim).outputs
        (startLoopback audio controls.noiseSuppression encoder decoder) reads =
      (decoderMachine audio prim).outputs decoder
        ((machine audio).outputs (start audio noiseSuppression vadConfig mode encoder)
          (reads'.map fun read => (controls, read))) := by
  have frames : (cutter frameSamples).outputs [] reads = (cut frameSamples reads.flatten).1 :=
    (cutter_eq (by decide) (by decide : ([] : List Sample).length < frameSamples) reads).2
  have chunks : (suppressorMachine audio).outputs
      ((NoiseSuppressor.new audio.denoiser).setEnabled controls.noiseSuppression)
      (cut frameSamples reads.flatten).1 =
        heardChunks audio controls.noiseSuppression reads.flatten :=
    suppressor_heard audio controls.noiseSuppression controls.noiseSuppression reads.flatten
  rw [outputs_of_alwaysOn audio controls always, ← same, ← echo_outputs, ← chunks, ← frames,
    runLoopback, startLoopback, (Machine.andThen_eq ..).2, (Machine.andThen_eq ..).2]

/-- The test reads a block and a frame at once, and the call the same in three parts. -/
theorem loopback_of_parts :
    (runLoopback AudioLibrary.transparent Primitives.transparent).outputs
        (startLoopback AudioLibrary.transparent true () ()) [List.replicate 600 (1 / 2)] =
      (decoderMachine AudioLibrary.transparent Primitives.transparent).outputs ()
        ((machine AudioLibrary.transparent).outputs
          (start AudioLibrary.transparent false VadConfig.default .pushToTalk ())
          ([List.replicate 100 (1 / 2), List.replicate 430 (1 / 2), List.replicate 70 (1 / 2)].map
            fun read => (⟨true, false, some .alwaysOn⟩, read))) :=
  loopback_eq AudioLibrary.transparent Primitives.transparent ⟨true, false, some .alwaysOn⟩ rfl
    VadConfig.default .pushToTalk () () false (by decide +kernel)

/-! ## No noise to suppress -/

/-- RNNoise leaves every block as it is. -/
def FindsNoNoise {σ : Type} (rnnoise : RnNoise σ) : Prop :=
  ∀ state block, (rnnoise.processFrame state block).1 = block

/-- A sample that goes to the range of 16-bit integers and back is as it was. -/
theorem scaleDown_scaleUp {s : Sample} (single : f32.Representable s) :
    audio.denoiser.scaleDown (audio.denoiser.scaleUp s) = s := by
  have power : (32768 : ℚ) = 2 ^ 15 := by norm_num
  change audio.fl.round (audio.fl.round (s * 32768) / 32768) = s
  rw [power, audio.fl.scale_cancel single]

variable {audio} in
/-- Without noise, the blocks are heard in quarters as they came. -/
theorem denoiser_outputs_of_noNoise (clean : FindsNoNoise audio.rnnoise) (state : σ × Sample)
    {blocks : List (List Sample)}
    (single : ∀ block ∈ blocks, ∀ s ∈ block, f32.Representable s) :
    ((denoiserMachine audio).outputs state blocks).map Prod.fst =
      blocks.flatMap fun block => (cut frameSamples block).1 := by
  induction blocks generalizing state with
  | nil => rfl
  | cons block rest ih =>
    have same : (audio.denoiser.processFrame state.1 (block.map audio.denoiser.scaleUp)).1.map
        audio.denoiser.scaleDown = block := by
      change (audio.rnnoise.processFrame _ _).1.map _ = block
      rw [clean, List.map_map]
      refine (List.map_congr_left fun s member => ?_).trans (List.map_id block)
      exact scaleDown_scaleUp audio (single block List.mem_cons_self s member)
    have step : ((denoiserMachine audio).step state block).2.map Prod.fst =
        (cut frameSamples block).1 := by
      have chunks : ((denoiserMachine audio).step state block).2 =
          (cut frameSamples ((audio.denoiser.processFrame state.1
            (block.map audio.denoiser.scaleUp)).1.map audio.denoiser.scaleDown)).1.map fun chunk =>
              (chunk, some (audio.denoiser.processFrame state.1
                (block.map audio.denoiser.scaleUp)).2.1) := rfl
      rw [chunks, same, List.map_map]
      exact List.map_id _
    rw [Machine.outputs_cons, List.map_append, step, ih _ fun block member =>
      single block (List.mem_cons_of_mem _ member), List.flatMap_cons]

variable {audio} in
/-- **Suppression of no noise** changes no frame: with an RNNoise that finds no noise, an
ungated session sends the same frames with suppression on as with suppression off, but
for those of the block that is not complete. -/
theorem transparent_suppression (clean : FindsNoNoise audio.rnnoise) (pttActive : Bool)
    (vadConfig : VadConfig) (mode : InputMode) (encoder : E) {reads : List (List Sample)}
    (single : ∀ s ∈ reads.flatten, f32.Representable s) :
    (machine audio).outputs (start audio true vadConfig mode encoder)
        (reads.map fun read => (⟨true, pttActive, some .alwaysOn⟩, read)) <+:
      (machine audio).outputs (start audio false vadConfig mode encoder)
        (reads.map fun read => (⟨false, pttActive, some .alwaysOn⟩, read)) := by
  have heard : (heardChunks audio true reads.flatten).map Prod.fst <+:
      (heardChunks audio false reads.flatten).map Prod.fst := by
    have blocks := cut_spec (by decide : 0 < denoiseFrameSize) reads.flatten
    have off : (heardChunks audio false reads.flatten).map Prod.fst =
        (cut frameSamples reads.flatten).1 := by
      rw [heardChunks, if_neg Bool.false_ne_true, List.map_map]
      exact List.map_id _
    have inside : ∀ block ∈ (cut denoiseFrameSize reads.flatten).1, ∀ s ∈ block,
        f32.Representable s := fun block member s inside =>
      single s (blocks.1 ▸ List.mem_append_left _ (List.mem_flatten_of_mem member inside))
    have on := denoiser_outputs_of_noNoise clean (audio.denoiser.new, 0) inside
    rw [off, heardChunks, if_pos rfl, on]
    exact flatMap_cut_prefix (by decide) ⟨4, rfl⟩ (by decide) reads.flatten
  obtain ⟨rest, split⟩ := heard
  rw [outputs_of_alwaysOn audio _ rfl, outputs_of_alwaysOn audio _ rfl, ← split,
    Machine.outputs_append]
  exact List.prefix_append ..

/-- Of five frames, the four of a complete block are sent with suppression on. -/
theorem transparent_suppression_of_block :
    ((machine AudioLibrary.transparent).outputs
        (start AudioLibrary.transparent true VadConfig.default .pushToTalk ())
        ([List.replicate 500 (1 / 2), List.replicate 100 (1 / 2)].map
          fun read => (⟨true, false, some .alwaysOn⟩, read))).length = 4 ∧
    (machine AudioLibrary.transparent).outputs
        (start AudioLibrary.transparent true VadConfig.default .pushToTalk ())
        ([List.replicate 500 (1 / 2), List.replicate 100 (1 / 2)].map
          fun read => (⟨true, false, some .alwaysOn⟩, read)) <+:
      (machine AudioLibrary.transparent).outputs
        (start AudioLibrary.transparent false VadConfig.default .pushToTalk ())
        ([List.replicate 500 (1 / 2), List.replicate 100 (1 / 2)].map
          fun read => (⟨false, false, some .alwaysOn⟩, read)) := by
  have half : f32.Representable (1 / 2) := ⟨1, -1, by decide, by decide, by norm_num⟩
  refine ⟨by decide +kernel, transparent_suppression (fun _ _ => rfl) false VadConfig.default
    .pushToTalk () fun s member => ?_⟩
  obtain ⟨read, inside, here⟩ := List.mem_flatten.mp member
  rcases List.mem_cons.mp inside with rfl | inside
  · exact List.eq_of_mem_replicate here ▸ half
  · rw [List.mem_singleton.mp inside] at here
    exact List.eq_of_mem_replicate here ▸ half

end Capture

end VoiceChat
