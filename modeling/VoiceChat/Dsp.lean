import Mathlib.Algebra.GroupWithZero.Nat
import Mathlib.Data.List.Nodup
import VoiceChat.Library.Machine

/-!
# Noise suppression

A frame of the encoder has 120 samples, and RNNoise takes 480 at a time. The
suppressor collects frames until it has a block, denoises the block and gives it
out; while it is switched off it gives every frame back as it came.

RNNoise itself is a parameter. What the stream of samples needs of it is that a
denoised sample stands where the sample stood that it was made from
(`Denoiser.KeepsPositions`). The stream then comes out in order exactly as long as
no frame comes to a suppressor that is switched off with an unfinished block in it
(`in_order_iff`): such a frame overtakes the samples of the block, which stay where
they are until the suppressor is switched on again.
-/

set_option autoImplicit false

namespace VoiceChat

/-- Samples per frame at 48 kHz for 2.5 ms. -/
def frameSamples : Nat := 120
/-- RNNoise frame size: 480 samples are 10 ms at 48 kHz. -/
def denoiseFrameSize : Nat := 480

/-- RNNoise and the arithmetic of the samples around it. -/
structure Denoiser (σ α ν : Type) where
  new : σ
  /-- Denoise a block; gives the probability of voice too. -/
  processFrame : σ → List α → List α × ν × σ
  /-- To the range of 16-bit integers. -/
  scaleUp : α → α
  /-- Back to samples between -1 and 1. -/
  scaleDown : α → α

/-- Noise suppressor wrapping RNNoise. -/
structure NoiseSuppressor (σ α ν : Type) where
  state : σ
  /-- Accumulator for incoming samples. -/
  accum : List α
  /-- Processed output waiting to be consumed. -/
  outputBuf : List α
  /-- Last probability of voice from RNNoise. -/
  lastVadProb : ν
  enabled : Bool

/-- A denoised sample stands where it stood before. -/
structure Denoiser.KeepsPositions {σ α ν ι : Type} (denoiser : Denoiser σ α ν)
    (position : α → ι) : Prop where
  processFrame : ∀ state block, block.length = denoiseFrameSize →
    (denoiser.processFrame state block).1.map position = block.map position
  scaleUp : ∀ sample, position (denoiser.scaleUp sample) = position sample
  scaleDown : ∀ sample, position (denoiser.scaleDown sample) = position sample

namespace NoiseSuppressor

variable {σ α ν ι : Type}

def new [Zero ν] (denoiser : Denoiser σ α ν) : NoiseSuppressor σ α ν where
  state := denoiser.new
  accum := []
  outputBuf := []
  lastVadProb := 0
  enabled := true

def setEnabled (ns : NoiseSuppressor σ α ν) (enabled : Bool) : NoiseSuppressor σ α ν :=
  { ns with enabled := enabled }

def isEnabled (ns : NoiseSuppressor σ α ν) : Bool := ns.enabled

/-- Last probability of voice from RNNoise. -/
def vadProbability (ns : NoiseSuppressor σ α ν) : ν := ns.lastVadProb

/-- Move the first block of the accumulator, denoised, to the output. -/
def denoise (denoiser : Denoiser σ α ν) (ns : NoiseSuppressor σ α ν) : NoiseSuppressor σ α ν :=
  let denoiseFrame := (ns.accum.take denoiseFrameSize).map denoiser.scaleUp
  let (outputFrame, vadProb, state) := denoiser.processFrame ns.state denoiseFrame
  { ns with
    state := state
    accum := ns.accum.drop denoiseFrameSize
    lastVadProb := vadProb
    outputBuf := ns.outputBuf ++ outputFrame.map denoiser.scaleDown }

/-- Feed audio samples into the suppressor. Returns denoised samples when a full
block has been processed, or immediately if suppression is disabled. -/
def process (denoiser : Denoiser σ α ν) (ns : NoiseSuppressor σ α ν) (frame : List α) :
    Option (List α) × NoiseSuppressor σ α ν :=
  if !ns.enabled then
    (some frame, ns)
  else
    let ns := { ns with accum := ns.accum ++ frame }
    let ns := if ns.accum.length ≥ denoiseFrameSize then ns.denoise denoiser else ns
    if !ns.outputBuf.isEmpty then
      (some ns.outputBuf, { ns with outputBuf := [] })
    else
      (none, ns)

/-! ## What a frame does -/

/-- Nothing waits to be given out, and the accumulator holds whole frames and less
than a block. -/
structure Settled (ns : NoiseSuppressor σ α ν) : Prop where
  outputBuf : ns.outputBuf = []
  frames : frameSamples ∣ ns.accum.length
  block : ns.accum.length < denoiseFrameSize

theorem Settled.of_empty {ns : NoiseSuppressor σ α ν} (accum : ns.accum = [])
    (outputBuf : ns.outputBuf = []) : ns.Settled := by
  refine ⟨outputBuf, ?_, ?_⟩
  · rw [accum]
    exact ⟨0, rfl⟩
  · rw [accum]
    exact Nat.succ_pos _

theorem settled_new [Zero ν] (denoiser : Denoiser σ α ν) : (new denoiser).Settled :=
  .of_empty rfl rfl

theorem Settled.setEnabled {ns : NoiseSuppressor σ α ν} (settled : ns.Settled)
    (enabled : Bool) : (ns.setEnabled enabled).Settled :=
  ⟨settled.outputBuf, settled.frames, settled.block⟩

theorem process_of_disabled (denoiser : Denoiser σ α ν) {ns : NoiseSuppressor σ α ν}
    (off : ns.enabled = false) (frame : List α) : ns.process denoiser frame = (some frame, ns) := by
  unfold process
  rw [off]
  rfl

/-- A frame that does not complete the block is kept. -/
theorem process_of_unfinished (denoiser : Denoiser σ α ν) {ns : NoiseSuppressor σ α ν}
    (settled : ns.Settled) (on : ns.enabled = true) {frame : List α}
    (less : (ns.accum ++ frame).length < denoiseFrameSize) :
    ns.process denoiser frame = (none, { ns with accum := ns.accum ++ frame }) := by
  unfold process
  simp only [on, Bool.not_true, Bool.false_eq_true, if_false, if_neg (Nat.not_le.mpr less),
    settled.outputBuf, List.isEmpty_nil]

/-- **A frame that completes the block** brings out the whole block, each sample at its
place, and leaves the accumulator empty. -/
theorem process_of_complete {denoiser : Denoiser σ α ν} {position : α → ι}
    (keeps : denoiser.KeepsPositions position) {ns : NoiseSuppressor σ α ν}
    (settled : ns.Settled) (on : ns.enabled = true) {frame : List α}
    (full : (ns.accum ++ frame).length = denoiseFrameSize) :
    ∃ block ns', ns.process denoiser frame = (some block, ns') ∧
      block.map position = (ns.accum ++ frame).map position ∧
      ns'.accum = [] ∧ ns'.outputBuf = [] := by
  have whole : (ns.accum ++ frame).take denoiseFrameSize = ns.accum ++ frame :=
    List.take_of_length_le (Nat.le_of_eq full)
  have rest : (ns.accum ++ frame).drop denoiseFrameSize = [] :=
    List.drop_eq_nil_of_le (Nat.le_of_eq full)
  have places : ((denoiser.processFrame ns.state ((ns.accum ++ frame).map denoiser.scaleUp)).1.map
      denoiser.scaleDown).map position = (ns.accum ++ frame).map position := by
    have down : position ∘ denoiser.scaleDown = position := funext keeps.scaleDown
    have up : position ∘ denoiser.scaleUp = position := funext keeps.scaleUp
    have length : ((ns.accum ++ frame).map denoiser.scaleUp).length = denoiseFrameSize := by
      rw [List.length_map, full]
    rw [List.map_map, down, keeps.processFrame _ _ length, List.map_map, up]
  have nonempty : ((denoiser.processFrame ns.state
      ((ns.accum ++ frame).map denoiser.scaleUp)).1.map denoiser.scaleDown).isEmpty = false := by
    rw [List.isEmpty_eq_false_iff, ← List.length_pos_iff, ← List.length_map position, places,
      List.length_map, full]
    exact Nat.succ_pos _
  refine ⟨_, { denoise denoiser { ns with accum := ns.accum ++ frame } with outputBuf := [] }, ?_,
    places, rest, rfl⟩
  unfold process denoise
  simp only [on, Bool.not_true, Bool.false_eq_true, if_false, if_pos (Nat.le_of_eq full.symm),
    whole, settled.outputBuf, List.nil_append, nonempty, Bool.not_false, if_true]

/-! ## Runs -/

/-- What can be asked of a suppressor. -/
inductive Operation (α : Type) where
  | setEnabled (enabled : Bool)
  | process (frame : Vector α frameSamples)

/-- The samples that an operation brings in. -/
def Operation.samples : Operation α → List α
  | .setEnabled _ => []
  | .process frame => frame.toList

/-- A suppressor under a sequence of operations, which puts out samples. -/
def machine (denoiser : Denoiser σ α ν) :
    Machine (NoiseSuppressor σ α ν) (Operation α) α where
  step
    | ns, .setEnabled enabled => (ns.setEnabled enabled, [])
    | ns, .process frame =>
        let (processed, ns') := ns.process denoiser frame.toList
        (ns', processed.getD [])

/-- A frame comes to a suppressor that is switched off and has samples in its
accumulator. -/
def Overtakes (ns : NoiseSuppressor σ α ν) : Operation α → Prop
  | .setEnabled _ => False
  | .process _ => ns.enabled = false ∧ ns.accum ≠ []

instance Overtakes.decidable [DecidableEq α] (ns : NoiseSuppressor σ α ν) :
    (operation : Operation α) → Decidable (ns.Overtakes operation)
  | .setEnabled _ => inferInstanceAs (Decidable False)
  | .process _ => inferInstanceAs (Decidable (_ ∧ _))

/-- A stream that came in comes out in order: by its positions what came out is a
beginning of what came in, and less than a block of it is held back. -/
def InOrder (position : α → ι) (input output : List α) : Prop :=
  output.map position <+: input.map position ∧ input.length < output.length + denoiseFrameSize

/-- **A step that overtakes nothing** gives out a part of what was held back and what it
brings in, in order, and holds the rest of it back. -/
theorem step_of_not_overtakes {denoiser : Denoiser σ α ν} {position : α → ι}
    (keeps : denoiser.KeepsPositions position) {ns : NoiseSuppressor σ α ν}
    (settled : ns.Settled) {operation : Operation α} (passes : ¬ ns.Overtakes operation) :
    ∃ ns' output, (machine denoiser).step ns operation = (ns', output) ∧ ns'.Settled ∧
      (output ++ ns'.accum).map position = (ns.accum ++ operation.samples).map position := by
  cases operation with
  | setEnabled enabled =>
    refine ⟨_, _, rfl, settled.setEnabled enabled, ?_⟩
    rw [Operation.samples, List.append_nil]
    rfl
  | process frame =>
    have length : frame.toList.length = frameSamples := Vector.length_toList
    unfold Operation.samples machine
    dsimp only
    cases on : ns.enabled with
    | false =>
      have empty : ns.accum = [] := by
        by_contra held
        exact passes ⟨on, held⟩
      rw [process_of_disabled denoiser on]
      refine ⟨ns, frame.toList, rfl, settled, ?_⟩
      rw [empty, List.append_nil, List.nil_append]
    | true =>
      by_cases less : (ns.accum ++ frame.toList).length < denoiseFrameSize
      · rw [process_of_unfinished denoiser settled on less]
        refine ⟨_, [], rfl, ⟨settled.outputBuf, ?_, less⟩, rfl⟩
        rw [List.length_append, length]
        exact Nat.dvd_add settled.frames (Nat.dvd_refl _)
      · have full : (ns.accum ++ frame.toList).length = denoiseFrameSize := by
          obtain ⟨frames, count⟩ := settled.frames
          have block := settled.block
          rw [List.length_append, length] at less ⊢
          unfold frameSamples denoiseFrameSize at *
          omega
        obtain ⟨block, ns', processed, places, accum, outputBuf⟩ :=
          process_of_complete keeps settled on full
        rw [processed]
        refine ⟨ns', block, rfl, .of_empty accum outputBuf, ?_⟩
        rw [accum, List.append_nil, places]

/-- In what order the samples come out is a matter of their positions alone. -/
theorem inOrder_congr {position : α → ι} {input input' output : List α}
    (same : input'.map position = input.map position) :
    InOrder position input' output ↔ InOrder position input output := by
  have length : input'.length = input.length := by
    rw [← List.length_map position, same, List.length_map]
  unfold InOrder
  rw [same, length]

/-- What went through already says nothing about what follows. -/
theorem inOrder_append_iff {position : α → ι} (first input output : List α) :
    InOrder position (first ++ input) (first ++ output) ↔ InOrder position input output := by
  unfold InOrder
  rw [List.map_append, List.map_append, List.prefix_append_right_inj, List.length_append,
    List.length_append, Nat.add_assoc, Nat.add_lt_add_iff_left]

/-- A sample that comes out before another one that came in before it is out of order. -/
theorem not_inOrder_of_overtaken {position : α → ι} {oldest newest : α}
    {held input output : List α}
    (distinct : ((oldest :: held ++ newest :: input).map position).Nodup) :
    ¬ InOrder position (oldest :: held ++ newest :: input) (newest :: output) := by
  rintro ⟨inside, _⟩
  have first : position newest = position oldest := (List.cons_prefix_cons.mp inside).1
  refine (List.nodup_cons.mp distinct).1 ?_
  rw [← first]
  exact List.mem_map_of_mem (List.mem_append_right held List.mem_cons_self)

/-- A step that overtakes brings out its own first sample before the one held back
longest. -/
theorem not_inOrder_of_overtakes {denoiser : Denoiser σ α ν} {position : α → ι}
    {ns : NoiseSuppressor σ α ν} {operation : Operation α} (overtakes : ns.Overtakes operation)
    {input : List α}
    (distinct : ((ns.accum ++ (operation.samples ++ input)).map position).Nodup)
    (output : List α) :
    ¬ InOrder position (ns.accum ++ (operation.samples ++ input))
      (((machine denoiser).step ns operation).2 ++ output) := by
  cases operation with
  | setEnabled enabled => exact overtakes.elim
  | process frame =>
    obtain ⟨off, held⟩ := overtakes
    obtain ⟨oldest, rest, accum⟩ := List.exists_cons_of_ne_nil held
    have length : 0 < frame.toList.length := Vector.length_toList.symm ▸ Nat.succ_pos _
    obtain ⟨newest, rest', samples⟩ := List.exists_cons_of_length_pos length
    rw [Operation.samples, accum, samples] at distinct ⊢
    simp only [machine, process_of_disabled denoiser off, Option.getD_some, samples]
    exact not_inOrder_of_overtaken distinct

/-- **The samples held back and those that follow** come out in order exactly when
none of them is overtaken. -/
theorem in_order_from_settled {denoiser : Denoiser σ α ν} {position : α → ι}
    (keeps : denoiser.KeepsPositions position) {ns : NoiseSuppressor σ α ν}
    (settled : ns.Settled) {operations : List (Operation α)}
    (distinct : ((ns.accum ++ operations.flatMap Operation.samples).map position).Nodup) :
    InOrder position (ns.accum ++ operations.flatMap Operation.samples)
        ((machine denoiser).outputs ns operations) ↔
      (machine denoiser).Along (fun ns operation => ¬ ns.Overtakes operation) ns operations := by
  induction operations generalizing ns with
  | nil =>
    refine iff_of_true ⟨List.nil_prefix, ?_⟩ trivial
    simpa using settled.block
  | cons operation rest ih =>
    rw [List.flatMap_cons] at distinct ⊢
    rw [Machine.outputs_cons, Machine.along_cons]
    by_cases overtakes : ns.Overtakes operation
    · exact iff_of_false (not_inOrder_of_overtakes overtakes distinct _)
        fun along => along.1 overtakes
    · obtain ⟨ns', output, step, settled', places⟩ :=
        step_of_not_overtakes keeps settled overtakes
      have moved : (output ++ (ns'.accum ++ rest.flatMap Operation.samples)).map position =
          (ns.accum ++ (operation.samples ++ rest.flatMap Operation.samples)).map position := by
        rw [← List.append_assoc, List.map_append, places, ← List.map_append, List.append_assoc]
      rw [← moved, List.map_append] at distinct
      rw [step, ← inOrder_congr moved, inOrder_append_iff, and_iff_right overtakes]
      exact ih settled' distinct.of_append_right

/-- **The stream comes out in order**, with less than a block held back, exactly when
no frame comes to a suppressor that is switched off with samples in it. -/
theorem in_order_iff [Zero ν] {denoiser : Denoiser σ α ν} {position : α → ι}
    (keeps : denoiser.KeepsPositions position) (operations : List (Operation α))
    (distinct : ((operations.flatMap Operation.samples).map position).Nodup) :
    InOrder position (operations.flatMap Operation.samples)
        ((machine denoiser).outputs (new denoiser) operations) ↔
      (machine denoiser).Along (fun ns operation => ¬ ns.Overtakes operation) (new denoiser)
        operations :=
  in_order_from_settled keeps (settled_new denoiser) distinct

/-- A denoiser that finds no noise. -/
def transparent : Denoiser Unit ℕ ℕ where
  new := ()
  processFrame state block := (block, 0, state)
  scaleUp sample := sample
  scaleDown sample := sample

/-- The frame of a stream of numbered samples, by its place in the stream. -/
def numbered (place : ℕ) : Vector ℕ frameSamples :=
  Vector.ofFn fun sample => place * frameSamples + sample

/-- Numbered frames one after the other bring in every sample once. -/
theorem nodup_of_numbered {operations : List (Operation ℕ)} {n : ℕ}
    (inTurn : operations.flatMap Operation.samples = List.range (n * frameSamples)) :
    ((operations.flatMap Operation.samples).map id).Nodup := by
  rw [inTurn, List.map_id]
  exact List.nodup_range

/-- Four frames, and a fifth after the suppressor was switched off. -/
def offAfterBlock : List (Operation ℕ) :=
  [.process (numbered 0), .process (numbered 1), .process (numbered 2), .process (numbered 3),
    .setEnabled false, .process (numbered 4)]

/-- Switched off after a whole block, a suppressor goes on with the next frame. -/
theorem in_order_after_whole_block :
    InOrder id (offAfterBlock.flatMap Operation.samples)
      ((machine transparent).outputs (new transparent) offAfterBlock) :=
  (in_order_iff ⟨fun _ _ _ => rfl, fun _ => rfl, fun _ => rfl⟩ offAfterBlock
    (nodup_of_numbered (n := 5) (by decide +kernel))).mpr (by decide +kernel)

/-- **Switched off within a block**, a suppressor gives out the next frame before the
samples that it holds. -/
theorem overtaken_when_switched_off :
    ¬ ∀ operations : List (Operation ℕ),
      ((operations.flatMap Operation.samples).map id).Nodup →
      InOrder id (operations.flatMap Operation.samples)
        ((machine transparent).outputs (new transparent) operations) := by
  intro claim
  have inOrder := claim [.process (numbered 0), .setEnabled false, .process (numbered 1)]
    (nodup_of_numbered (n := 2) (by decide +kernel))
  exact absurd inOrder.1 (by decide +kernel)

end NoiseSuppressor

end VoiceChat
