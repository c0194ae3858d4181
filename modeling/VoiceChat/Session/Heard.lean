import VoiceChat.Session.Capture

/-!
# What the gate hears

Whatever goes on around it, the detector and the encoder get chunks of one frame's
size, so the encoder never refuses one for its length.

With suppression off, the chunks are the frames of the captured stream. With
suppression on, the three loops come to this: the stream is cut into blocks, RNNoise
denoises the blocks one after the other, and each is heard in quarters
(`heardChunks`). What a session sends under controls that stay is what the gate and the
encoder make of these chunks (`capture_outputs`).
-/

set_option autoImplicit false

namespace VoiceChat

namespace Capture

variable {σ E : Type} (audio : AudioLibrary σ E)

/-! ## Suppression on -/

/-- RNNoise on one block after the other, heard in chunks. The state goes with the last
probability of voice. -/
def denoiserMachine : Machine (σ × Sample) (List Sample) Chunk where
  step state block :=
    let (output, vadProb, state') :=
      audio.denoiser.processFrame state.1 (block.map audio.denoiser.scaleUp)
    ((state', vadProb),
      (cut frameSamples (output.map audio.denoiser.scaleDown)).1.map fun chunk =>
        (chunk, some vadProb))

/-- A suppressor that is switched on and has nothing to give out. -/
def suppressing (accum : List Sample) (state : σ × Sample) : NoiseSuppressor σ Sample Sample where
  state := state.1
  accum := accum
  outputBuf := []
  lastVadProb := state.2
  enabled := true

/-- A frame that completes the block is denoised with it. -/
theorem process_of_full {accum frame : List Sample} (state : σ × Sample)
    (full : (accum ++ frame).length = denoiseFrameSize) :
    (suppressing accum state).process audio.denoiser frame =
      (some ((audio.denoiser.processFrame state.1
          ((accum ++ frame).map audio.denoiser.scaleUp)).1.map audio.denoiser.scaleDown),
        suppressing [] ((denoiserMachine audio).step state (accum ++ frame)).1) := by
  have whole : (accum ++ frame).take denoiseFrameSize = accum ++ frame :=
    List.take_of_length_le (Nat.le_of_eq full)
  have rest : (accum ++ frame).drop denoiseFrameSize = [] :=
    List.drop_eq_nil_of_le (Nat.le_of_eq full)
  have length := audio.denoised state.1 ((accum ++ frame).map audio.denoiser.scaleUp)
    (by rw [List.length_map, full])
  have nonempty : ((audio.denoiser.processFrame state.1
      ((accum ++ frame).map audio.denoiser.scaleUp)).1.map audio.denoiser.scaleDown).isEmpty =
        false := by
    rw [List.isEmpty_eq_false_iff, ← List.length_pos_iff, List.length_map, length]
    exact Nat.succ_pos _
  unfold NoiseSuppressor.process NoiseSuppressor.denoise suppressing denoiserMachine
  simp only [Bool.not_true, Bool.false_eq_true, if_false, if_pos (Nat.le_of_eq full.symm), whole,
    rest, List.nil_append, nonempty, Bool.not_false, if_true]

theorem settled_suppressing {accum : List Sample} (state : σ × Sample)
    (frames : frameSamples ∣ accum.length) (less : accum.length < denoiseFrameSize) :
    (suppressing accum state).Settled := ⟨rfl, frames, less⟩

/-- **One frame** through a suppressor that is switched on: the loop that cuts blocks,
and RNNoise on them. -/
theorem suppress_suppressing {accum frame : List Sample} (state : σ × Sample)
    (frames : frameSamples ∣ accum.length) (less : accum.length < denoiseFrameSize)
    (length : frame.length = frameSamples) :
    suppress audio (suppressing accum state) frame =
      (suppressing (cut denoiseFrameSize (accum ++ frame)).2
          ((denoiserMachine audio).run state (cut denoiseFrameSize (accum ++ frame)).1),
        (denoiserMachine audio).outputs state (cut denoiseFrameSize (accum ++ frame)).1) := by
  by_cases more : (accum ++ frame).length < denoiseFrameSize
  · rw [cut_of_lt more, suppress, NoiseSuppressor.process_of_unfinished audio.denoiser
      (settled_suppressing state frames less) rfl more]
    rfl
  · have full : (accum ++ frame).length = denoiseFrameSize := by
      obtain ⟨count, multiple⟩ := frames
      rw [List.length_append, length] at more ⊢
      unfold frameSamples denoiseFrameSize at *
      omega
    rw [cut_of_length_eq (by decide) full, suppress, process_of_full audio state full]
    simp [suppressing, denoiserMachine, NoiseSuppressor.isEnabled, NoiseSuppressor.vadProbability]

/-- **A run** of a suppressor that is switched on: RNNoise on the blocks of what it was
given. -/
theorem suppressor_outputs_of_on (state : σ × Sample) {frames : List (List Sample)}
    (whole : ∀ frame ∈ frames, frame.length = frameSamples) :
    (suppressorMachine audio).outputs (suppressing [] state) frames =
      (denoiserMachine audio).outputs state (cut denoiseFrameSize frames.flatten).1 := by
  have positive : 0 < denoiseFrameSize := by decide
  obtain ⟨_, outputs⟩ : _ ∧ (suppressorMachine audio).outputs (suppressing [] state) frames =
      ((cutter denoiseFrameSize).andThen (denoiserMachine audio)).outputs ([], state)
        (frames.map id) := Machine.simulation (M := suppressorMachine audio)
    (N := (cutter denoiseFrameSize).andThen (denoiserMachine audio))
    (fun ns s => ns = suppressing s.1 s.2 ∧ frameSamples ∣ s.1.length ∧
      s.1.length < denoiseFrameSize) id
    (A := fun frame => frame.length = frameSamples) (by
      rintro _ ⟨accum, state⟩ frame ⟨rfl, multiple, less⟩ length
      have step : (suppressorMachine audio).step (suppressing accum state) frame = _ :=
        suppress_suppressing audio state multiple less length
      have multiple' : frameSamples ∣ (accum ++ frame).length := by
        rw [List.length_append, length]
        exact Nat.dvd_add multiple (Nat.dvd_refl _)
      rw [step]
      exact ⟨⟨rfl, dvd_length_cut positive (by decide) multiple', (cut_spec positive _).2.2⟩, rfl⟩)
    (⟨rfl, ⟨0, rfl⟩, positive⟩ : suppressing [] state = suppressing [] state ∧
      frameSamples ∣ ([] : List Sample).length ∧ ([] : List Sample).length < denoiseFrameSize)
    whole
  have short : ([] : List Sample).length < denoiseFrameSize := positive
  rw [outputs, List.map_id, (Machine.andThen_eq ..).2, (cutter_eq positive short frames).2,
    List.nil_append]

/-! ## Suppression off -/

/-- A suppressor that is switched off gives a frame on as it came. -/
theorem suppress_of_off {ns : NoiseSuppressor σ Sample Sample} (off : ns.enabled = false)
    {frame : List Sample} (length : frame.length = frameSamples) :
    suppress audio ns frame = (ns, [(frame, none)]) := by
  rw [suppress, NoiseSuppressor.process_of_disabled audio.denoiser off]
  dsimp only
  rw [cut_of_length_eq (by decide) length]
  simp [NoiseSuppressor.isEnabled, off]

theorem suppressor_outputs_of_off {ns : NoiseSuppressor σ Sample Sample}
    (off : ns.enabled = false) {frames : List (List Sample)}
    (whole : ∀ frame ∈ frames, frame.length = frameSamples) :
    (suppressorMachine audio).outputs ns frames = frames.map fun frame => (frame, none) := by
  induction frames with
  | nil => rfl
  | cons frame rest ih =>
    have step : (suppressorMachine audio).step ns frame = (ns, [(frame, none)]) :=
      suppress_of_off audio off (whole frame List.mem_cons_self)
    rw [Machine.outputs_cons, step, ih fun frame member => whole frame (List.mem_cons_of_mem _ member)]
    rfl

/-! ## The captured stream -/

/-- What the gate hears of a captured stream, under controls that stay. -/
def heardChunks (noiseSuppression : Bool) (stream : List Sample) : List Chunk :=
  if noiseSuppression then
    (denoiserMachine audio).outputs (audio.denoiser.new, 0) (cut denoiseFrameSize stream).1
  else
    (cut frameSamples stream).1.map fun frame => (frame, none)

/-- The suppressor hands the chunks on, whatever it was switched to at the start. -/
theorem suppressor_heard (before noiseSuppression : Bool) (stream : List Sample) :
    (suppressorMachine audio).outputs
        (((NoiseSuppressor.new audio.denoiser).setEnabled before).setEnabled noiseSuppression)
        (cut frameSamples stream).1 = heardChunks audio noiseSuppression stream := by
  have whole := (cut_spec (by decide : 0 < frameSamples) stream).2.1
  cases noiseSuppression with
  | false => exact suppressor_outputs_of_off audio rfl whole
  | true =>
    have on := suppressor_outputs_of_on audio (audio.denoiser.new, 0) whole
    rw [cut_cut (by decide : 0 < frameSamples) (⟨4, rfl⟩ : frameSamples ∣ denoiseFrameSize)
      (by decide)] at on
    exact on

/-- **What is sent** under controls that stay, however the captured samples are read: what
the gate and the encoder make of the chunks of the captured stream. -/
theorem capture_outputs (controls : Controls) (vadConfig : VadConfig) (mode : InputMode)
    (encoder : E) (noiseSuppression : Bool) (reads : List (List Sample)) :
    (machine audio).outputs (start audio noiseSuppression vadConfig mode encoder)
        (reads.map fun read => (controls, read)) =
      (voiceMachine audio).outputs
        ((start audio noiseSuppression vadConfig mode encoder).sync controls).2.2
        (heardChunks audio controls.noiseSuppression reads.flatten) := by
  have short : (start audio noiseSuppression vadConfig mode encoder).1.length < frameSamples :=
    (by decide : 0 < frameSamples)
  have short' : ((start audio noiseSuppression vadConfig mode encoder).sync controls).1.length <
      frameSamples := short
  by_cases some : reads = []
  · subst some
    have none : heardChunks audio controls.noiseSuppression [] = [] := by
      cases on : controls.noiseSuppression <;>
        rw [heardChunks, cut_of_lt (by decide), cut_of_lt (by decide)] <;> rfl
    rw [List.flatten_nil, none]
    rfl
  · rw [(machine_eq audio short controls some).2, (loops_eq audio short' _).2,
      List.flatten_singleton, (Machine.andThen_eq ..).2, ← suppressor_heard]
    rfl

end Capture

end VoiceChat
