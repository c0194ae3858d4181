import Mathlib.Order.WithBot
import VoiceChat.Codec
import VoiceChat.Library.Holding

/-!
# Voice activity detection

A frame has voice when its energy is above a threshold and, with noise suppression on,
RNNoise is sure enough that it is voice. Detection stays active for some frames after
the last one with voice, so that the ends of words are not cut off.

The energy is computed in single precision; the square root and the logarithm are
those of the platform. What detection makes of the energies does not depend on them:
its counter and its flag are a signal that is held (`Holding`), triggered by the frames
with voice.
-/

set_option autoImplicit false

namespace VoiceChat

/-- Voice activity detection configuration. -/
structure VadConfig where
  /-- Energy threshold in dB, relative to full scale. -/
  energyThresholdDb : Sample
  /-- Hold time in frames after voice stops. -/
  holdFrames : UInt32
  /-- Minimum RNNoise probability to count as voice. -/
  rnnoiseThreshold : Sample
  deriving DecidableEq

def VadConfig.default : VadConfig where
  energyThresholdDb := -40
  holdFrames := 20
  rnnoiseThreshold := 1 / 2

/-- The other configuration hears at least as much. -/
structure VadConfig.LessSensitive (config config' : VadConfig) : Prop where
  energyThresholdDb : config'.energyThresholdDb ≤ config.energyThresholdDb
  holdFrames : config.holdFrames ≤ config'.holdFrames
  rnnoiseThreshold : config'.rnnoiseThreshold ≤ config.rnnoiseThreshold

/-- The functions of the platform that the energy is computed with. -/
structure MathLibrary where
  sqrt : Sample → Sample
  log10 : Sample → Sample

/-- RMS energy in dB relative to full scale; silence has none. -/
def computeEnergyDb (fl : Rounding f32) (math : MathLibrary) (pcm : List Sample) :
    WithBot Sample :=
  if pcm.isEmpty then
    ⊥
  else
    let sum := pcm.foldl (fun sum s => fl.round (sum + fl.round (s * s))) 0
    let rms := math.sqrt (fl.round (sum / fl.round pcm.length))
    if rms < fl.round (1 / 10 ^ 10) then ⊥ else ↑(fl.round (20 * math.log10 rms))

/-- Voice activity detector combining energy-based and RNNoise-based detection. -/
structure VoiceActivityDetector where
  config : VadConfig
  holdCounter : UInt32
  isActive : Bool
  deriving DecidableEq

namespace VoiceActivityDetector

def new (config : VadConfig) : VoiceActivityDetector := ⟨config, 0, false⟩

def setConfig (vad : VoiceActivityDetector) (config : VadConfig) : VoiceActivityDetector :=
  { vad with config := config }

/-- A frame has voice. -/
def voiceDetected (fl : Rounding f32) (math : MathLibrary) (config : VadConfig)
    (pcm : List Sample) (rnnoiseVad : Option Sample) : Bool :=
  let energyDb := computeEnergyDb fl math pcm
  match rnnoiseVad with
  | some vadProb =>
      energyDb > config.energyThresholdDb && vadProb > config.rnnoiseThreshold
  | none => energyDb > config.energyThresholdDb

/-- Check if a frame contains voice, and if not, whether detection is held. -/
def detect (fl : Rounding f32) (math : MathLibrary) (vad : VoiceActivityDetector)
    (pcm : List Sample) (rnnoiseVad : Option Sample) : Bool × VoiceActivityDetector :=
  let vad :=
    if voiceDetected fl math vad.config pcm rnnoiseVad then
      { vad with holdCounter := vad.config.holdFrames, isActive := true }
    else if vad.holdCounter > 0 then
      { vad with holdCounter := vad.holdCounter - 1 }
    else
      { vad with isActive := false }
  (vad.isActive, vad)

/-! ## Detection as a held signal -/

/-- What the counter and the flag of detection are: a signal that is held. -/
def signal (vad : VoiceActivityDetector) : Holding := ⟨vad.holdCounter.toNat, vad.isActive⟩

variable (fl : Rounding f32) (math : MathLibrary)

/-- What a frame triggers: a hold, when it has voice. -/
def trigger (config : VadConfig) (pcm : List Sample) (rnnoiseVad : Option Sample) : Option ℕ :=
  if voiceDetected fl math config pcm rnnoiseVad then some config.holdFrames.toNat else none

/-- **One frame** does to the signal what it triggers. -/
theorem detect_signal (vad : VoiceActivityDetector) (pcm : List Sample)
    (rnnoiseVad : Option Sample) :
    (vad.detect fl math pcm rnnoiseVad).2.config = vad.config ∧
      (vad.detect fl math pcm rnnoiseVad).2.signal =
        (Holding.machine.step vad.signal (trigger fl math vad.config pcm rnnoiseVad)).1 := by
  unfold detect trigger signal
  dsimp only
  by_cases voice : voiceDetected fl math vad.config pcm rnnoiseVad = true
  · rw [if_pos voice, if_pos voice]
    exact ⟨rfl, rfl⟩
  · rw [if_neg voice, if_neg voice]
    by_cases held : 0 < vad.holdCounter
    · have counted : 0 < vad.holdCounter.toNat := held
      have less : (vad.holdCounter - 1).toNat = vad.holdCounter.toNat - 1 :=
        UInt32.toNat_sub_of_le _ _ (UInt32.le_iff_toNat_le.mpr counted)
      rw [if_pos held, Holding.step_of_held _ counted, ← less]
      exact ⟨rfl, rfl⟩
    · have counted : vad.holdCounter.toNat = 0 := Nat.eq_zero_of_not_pos held
      rw [if_neg held, counted, Holding.step_of_over]
      exact ⟨rfl, rfl⟩

/-! ## Runs -/

/-- What can be asked of a detector. -/
inductive Operation where
  | setConfig (config : VadConfig)
  | detect (pcm : List Sample) (rnnoiseVad : Option Sample)

/-- A detector under a sequence of operations. It puts out whether each frame is
active. -/
def machine : Machine VoiceActivityDetector Operation Bool where
  step
    | vad, .setConfig config => (vad.setConfig config, [])
    | vad, .detect pcm rnnoiseVad =>
        let (active, vad') := vad.detect fl math pcm rnnoiseVad
        (vad', [active])

/-- A frame and the configuration that was in force when it came. -/
structure Judged where
  config : VadConfig
  pcm : List Sample
  rnnoiseVad : Option Sample

/-- The frame has voice by the configuration in force. -/
def Judged.voice (judged : Judged) : Bool :=
  voiceDetected fl math judged.config judged.pcm judged.rnnoiseVad

def Judged.trigger (judged : Judged) : Option ℕ :=
  VoiceActivityDetector.trigger fl math judged.config judged.pcm judged.rnnoiseVad

/-- The frames of some operations, each with the configuration in force. -/
def judged (config : VadConfig) : List Operation → List Judged
  | [] => []
  | .setConfig config' :: rest => judged config' rest
  | .detect pcm rnnoiseVad :: rest => ⟨config, pcm, rnnoiseVad⟩ :: judged config rest

/-- A run does to the signal what its frames trigger. -/
theorem run_signal (vad : VoiceActivityDetector) (operations : List Operation) :
    ((machine fl math).run vad operations).signal =
      Holding.machine.run vad.signal
        ((judged vad.config operations).map (Judged.trigger fl math)) := by
  induction operations generalizing vad with
  | nil => rfl
  | cons operation rest ih =>
    cases operation with
    | setConfig config => exact ih (vad.setConfig config)
    | detect pcm rnnoiseVad =>
      obtain ⟨config, signal⟩ := detect_signal fl math vad pcm rnnoiseVad
      change ((machine fl math).run (vad.detect fl math pcm rnnoiseVad).2 rest).signal = _
      rw [ih, signal, config, judged, List.map_cons, Machine.run_cons]
      rfl

theorem trigger_eq_some {judged : Judged} {hold : ℕ} :
    judged.trigger fl math = some hold ↔
      judged.voice fl math = true ∧ hold = judged.config.holdFrames.toNat := by
  unfold Judged.trigger Judged.voice trigger
  split_ifs with voice
  · simp [voice, eq_comm]
  · simp [voice]

theorem trigger_eq_none {judged : Judged} :
    judged.trigger fl math = none ↔ judged.voice fl math = false := by
  unfold Judged.trigger Judged.voice trigger
  split_ifs with voice
  · simp [voice]
  · simpa using voice

/-- **When detection is active**: after any run, exactly when no more frames have come
since the last one with voice than the hold time says that was in force then. -/
theorem isActive_run_iff (config : VadConfig) (operations : List Operation) :
    ((machine fl math).run (new config) operations).isActive = true ↔
      ∃ before last after, judged config operations = before ++ last :: after ∧
        last.voice fl math = true ∧ (∀ later ∈ after, later.voice fl math = false) ∧
        after.length ≤ last.config.holdFrames.toNat := by
  have on : ((machine fl math).run (new config) operations).isActive =
      (Holding.machine.run Holding.off
        ((judged config operations).map (Judged.trigger fl math))).on :=
    congrArg Holding.on (run_signal fl math (new config) operations)
  rw [on, Holding.on_run_iff]
  constructor
  · rintro ⟨_, hold, steps, inputs, within⟩
    obtain ⟨before, _, split, _, later⟩ := List.map_eq_append_iff.mp inputs
    obtain ⟨last, after, rfl, triggered, since⟩ := List.map_eq_cons_iff.mp later
    obtain ⟨voice, rfl⟩ := (trigger_eq_some fl math).mp triggered
    obtain ⟨length, silent⟩ := List.eq_replicate_iff.mp since
    refine ⟨before, last, after, split, voice, fun later member => ?_, ?_⟩
    · exact (trigger_eq_none fl math).mp (silent _ (List.mem_map_of_mem member))
    · rw [List.length_map] at length
      exact length.trans_le within
  · rintro ⟨before, last, after, split, voice, silent, within⟩
    refine ⟨before.map (Judged.trigger fl math), last.config.holdFrames.toNat, after.length, ?_,
      within⟩
    have none : after.map (Judged.trigger fl math) = List.replicate after.length none := by
      refine List.eq_replicate_iff.mpr ⟨List.length_map _, fun input member => ?_⟩
      obtain ⟨later, inside, rfl⟩ := List.mem_map.mp member
      exact (trigger_eq_none fl math).mpr (silent later inside)
    rw [split, List.map_append, List.map_cons, none,
      (trigger_eq_some fl math).mpr ⟨voice, rfl⟩]

/-! ## Sensitivity -/

theorem voiceDetected_mono {config config' : VadConfig} (less : config.LessSensitive config')
    {pcm : List Sample} {rnnoiseVad : Option Sample}
    (voice : voiceDetected fl math config pcm rnnoiseVad = true) :
    voiceDetected fl math config' pcm rnnoiseVad = true := by
  have lower : (config'.energyThresholdDb : WithBot Sample) ≤ config.energyThresholdDb :=
    WithBot.coe_le_coe.mpr less.energyThresholdDb
  unfold voiceDetected at voice ⊢
  cases rnnoiseVad with
  | none => exact decide_eq_true (lower.trans_lt (of_decide_eq_true voice))
  | some vadProb =>
    obtain ⟨loud, sure⟩ := Bool.and_eq_true_iff.mp voice
    exact Bool.and_eq_true_iff.mpr
      ⟨decide_eq_true (lower.trans_lt (of_decide_eq_true loud)),
        decide_eq_true (less.rnnoiseThreshold.trans_lt (of_decide_eq_true sure))⟩

/-- Frames that come to a detector whose configuration stays. -/
def frames (heard : List (List Sample × Option Sample)) : List Operation :=
  heard.map fun frame => .detect frame.1 frame.2

theorem triggers_frames (config : VadConfig) (heard : List (List Sample × Option Sample)) :
    (judged config (frames heard)).map (Judged.trigger fl math) =
      Holding.constant config.holdFrames.toNat
        (heard.map fun frame => voiceDetected fl math config frame.1 frame.2) := by
  induction heard with
  | nil => rfl
  | cons frame rest ih =>
    rw [Holding.constant] at ih ⊢
    rw [List.map_cons, List.map_cons, ← ih]
    rfl

/-- With a configuration that stays, the flag is that of a signal with one hold time. -/
theorem isActive_run_frames (config : VadConfig) (heard : List (List Sample × Option Sample)) :
    ((machine fl math).run (new config) (frames heard)).isActive =
      (Holding.machine.run Holding.off (Holding.constant config.holdFrames.toNat
        (heard.map fun frame => voiceDetected fl math config frame.1 frame.2))).on := by
  rw [← triggers_frames]
  exact congrArg Holding.on (run_signal fl math (new config) (frames heard))

/-- With a configuration that stays, detection is active exactly when one of the last
frames had voice. -/
theorem isActive_run_frames_iff (config : VadConfig)
    (heard : List (List Sample × Option Sample)) :
    ((machine fl math).run (new config) (frames heard)).isActive = true ↔
      ∃ before frame after, heard = before ++ frame :: after ∧
        voiceDetected fl math config frame.1 frame.2 = true ∧
        after.length ≤ config.holdFrames.toNat := by
  rw [isActive_run_frames, Holding.on_run_of_constant]
  constructor
  · rintro ⟨_, later, inputs, within⟩
    obtain ⟨before, _, rfl, _, split⟩ := List.map_eq_append_iff.mp inputs
    obtain ⟨frame, after, rfl, voice, rfl⟩ := List.map_eq_cons_iff.mp split
    rw [List.length_map] at within
    exact ⟨before, frame, after, rfl, voice, within⟩
  · rintro ⟨before, frame, after, rfl, voice, within⟩
    let hears := fun frame : List Sample × Option Sample =>
      voiceDetected fl math config frame.1 frame.2
    refine ⟨before.map hears, after.map hears, ?_, (List.length_map hears).trans_le within⟩
    rw [List.map_append, List.map_cons, voice]

/-- **A more sensitive setting cuts nothing off**: after any frames, it is active
wherever a less sensitive one is. -/
theorem isActive_run_mono {config config' : VadConfig} (less : config.LessSensitive config')
    (heard : List (List Sample × Option Sample))
    (active : ((machine fl math).run (new config) (frames heard)).isActive = true) :
    ((machine fl math).run (new config') (frames heard)).isActive = true := by
  rw [isActive_run_frames] at active ⊢
  refine Holding.on_run_mono (UInt32.le_iff_toNat_le.mp less.holdFrames) ?_ active
  rw [List.forall₂_map_left_iff, List.forall₂_map_right_iff, List.forall₂_same]
  exact fun frame _ => voiceDetected_mono fl math less

example :
    ((machine f32.nearestEven ⟨id, fun _ => 0⟩).run (new ⟨-60, 30, 1 / 4⟩)
      (frames [([1], none), ([0], none), ([0], none)])).isActive = true :=
  have less : VadConfig.default.LessSensitive ⟨-60, 30, 1 / 4⟩ :=
    ⟨by decide +kernel, by decide, by decide +kernel⟩
  isActive_run_mono f32.nearestEven ⟨id, fun _ => 0⟩ less _ (by decide +kernel)

end VoiceActivityDetector

end VoiceChat
