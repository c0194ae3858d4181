import VoiceChat.Vad

/-!
# Input modes and the gate

What is captured is transmitted always, while a key is held, or while there is voice.
The gate remembers the mode, whether the key is held and whether detection is active,
and decides for every frame when it comes.

The main loop asks the detector and then the gate for each frame (`Microphone.hear`).
The mode and the key can change between any two frames; the detector hears all frames,
whether or not they are transmitted, so a change of the mode does not disturb it
(`Microphone.transmits_iff`).
-/

set_option autoImplicit false

namespace VoiceChat

/-- Voice input transmission mode. -/
inductive InputMode where
  /-- Always transmitting. -/
  | alwaysOn
  /-- Transmit only while the push-to-talk key is held. -/
  | pushToTalk
  /-- Transmit when voice is detected. -/
  | voiceActivation
  deriving DecidableEq

/-- Gates audio transmission based on the current input mode. -/
structure InputGate where
  mode : InputMode
  /-- Whether the key is held. -/
  pttActive : Bool
  vadActive : Bool
  isTransmitting : Bool
  deriving DecidableEq

namespace InputGate

def new (mode : InputMode) : InputGate := ⟨mode, false, false, false⟩

def setMode (gate : InputGate) (mode : InputMode) : InputGate := { gate with mode := mode }

def setVadActive (gate : InputGate) (active : Bool) : InputGate :=
  { gate with vadActive := active }

def setPtt (gate : InputGate) (pressed : Bool) : InputGate := { gate with pttActive := pressed }

/-- Whether audio should be transmitted in the current frame. The gate remembers what it
said. -/
def shouldTransmit (gate : InputGate) : Bool × InputGate :=
  let isTransmitting := match gate.mode with
    | .alwaysOn => true
    | .pushToTalk => gate.pttActive
    | .voiceActivation => gate.vadActive
  (isTransmitting, { gate with isTransmitting := isTransmitting })

end InputGate

/-- The detector and the gate, as the main loop has them. -/
structure Microphone where
  vad : VoiceActivityDetector
  inputGate : InputGate
  deriving DecidableEq

namespace Microphone

def new (vadConfig : VadConfig) (mode : InputMode) : Microphone :=
  ⟨.new vadConfig, .new mode⟩

variable (fl : Rounding f32) (math : MathLibrary)

/-- Whether a frame is transmitted. -/
def hear (mic : Microphone) (chunk : List Sample) (rnnoiseVad : Option Sample) :
    Bool × Microphone :=
  let (voiceActive, vad) := mic.vad.detect fl math chunk rnnoiseVad
  let (transmit, inputGate) := (mic.inputGate.setVadActive voiceActive).shouldTransmit
  (transmit, ⟨vad, inputGate⟩)

/-- What the loop does with the detector and the gate. -/
inductive Operation where
  | setMode (mode : InputMode)
  | setPtt (pressed : Bool)
  | hear (chunk : List Sample) (rnnoiseVad : Option Sample)

/-- The detector and the gate under a sequence of operations. They put out whether each
frame is transmitted. -/
def machine : Machine Microphone Operation Bool where
  step
    | mic, .setMode mode => ({ mic with inputGate := mic.inputGate.setMode mode }, [])
    | mic, .setPtt pressed => ({ mic with inputGate := mic.inputGate.setPtt pressed }, [])
    | mic, .hear chunk rnnoiseVad =>
        let (transmit, mic') := mic.hear fl math chunk rnnoiseVad
        (mic', [transmit])

/-- The frames of some operations. -/
def heard : List Operation → List (List Sample × Option Sample)
  | [] => []
  | .hear chunk rnnoiseVad :: rest => (chunk, rnnoiseVad) :: heard rest
  | _ :: rest => heard rest

/-- The detector hears the frames and nothing else. -/
theorem run_vad (mic : Microphone) (operations : List Operation) :
    ((machine fl math).run mic operations).vad =
      (VoiceActivityDetector.machine fl math).run mic.vad
        (VoiceActivityDetector.frames (heard operations)) := by
  induction operations generalizing mic with
  | nil => rfl
  | cons operation rest ih =>
    rw [Machine.run_cons, ih]
    cases operation <;> rfl

/-- The mode that was set last. -/
def lastMode (mode : InputMode) : List Operation → InputMode
  | [] => mode
  | .setMode mode' :: rest => lastMode mode' rest
  | _ :: rest => lastMode mode rest

/-- Whether the key is held, as it was set last. -/
def lastPtt (pressed : Bool) : List Operation → Bool
  | [] => pressed
  | .setPtt pressed' :: rest => lastPtt pressed' rest
  | _ :: rest => lastPtt pressed rest

theorem run_controls (mic : Microphone) (operations : List Operation) :
    ((machine fl math).run mic operations).inputGate.mode =
        lastMode mic.inputGate.mode operations ∧
      ((machine fl math).run mic operations).inputGate.pttActive =
        lastPtt mic.inputGate.pttActive operations := by
  induction operations generalizing mic with
  | nil => exact ⟨rfl, rfl⟩
  | cons operation rest ih =>
    obtain ⟨mode, pressed⟩ := ih ((machine fl math).step mic operation).1
    rw [Machine.run_cons, mode, pressed]
    cases operation <;> exact ⟨rfl, rfl⟩

theorem hear_fst (mic : Microphone) (chunk : List Sample) (rnnoiseVad : Option Sample) :
    (mic.hear fl math chunk rnnoiseVad).1 = match mic.inputGate.mode with
      | .alwaysOn => true
      | .pushToTalk => mic.inputGate.pttActive
      | .voiceActivation => (mic.vad.detect fl math chunk rnnoiseVad).1 := rfl

/-- **Whether a frame is transmitted**, after any changes of the mode and the key among
any frames: by the mode that was set last, and in voice activation exactly when one of
the last frames had voice, transmitted or not. -/
theorem transmits_iff (vadConfig : VadConfig) (mode : InputMode) (operations : List Operation)
    (chunk : List Sample) (rnnoiseVad : Option Sample) :
    (((machine fl math).run (new vadConfig mode) operations).hear fl math chunk
        rnnoiseVad).1 = true ↔
      match lastMode mode operations with
      | .alwaysOn => True
      | .pushToTalk => lastPtt false operations = true
      | .voiceActivation => ∃ before frame after,
          heard operations ++ [(chunk, rnnoiseVad)] = before ++ frame :: after ∧
            VoiceActivityDetector.voiceDetected fl math vadConfig frame.1 frame.2 = true ∧
            after.length ≤ vadConfig.holdFrames.toNat := by
  obtain ⟨modeNow, pressed⟩ := run_controls fl math (new vadConfig mode) operations
  change _ = lastMode mode operations at modeNow
  change _ = lastPtt false operations at pressed
  have active : (((machine fl math).run (new vadConfig mode) operations).vad.detect fl math chunk
      rnnoiseVad).1 = ((VoiceActivityDetector.machine fl math).run (.new vadConfig)
        (VoiceActivityDetector.frames (heard operations ++ [(chunk, rnnoiseVad)]))).isActive := by
    rw [run_vad, VoiceActivityDetector.frames, VoiceActivityDetector.frames, List.map_append,
      Machine.run_append]
    rfl
  rw [← VoiceActivityDetector.isActive_run_frames_iff, ← active]
  rw [hear_fst, modeNow, pressed]
  cases lastMode mode operations with
  | alwaysOn => exact iff_of_true rfl trivial
  | pushToTalk => exact Iff.rfl
  | voiceActivation => exact Iff.rfl

/-- What the gate remembers is what it said of the last frame. -/
theorem isTransmitting_eq (vadConfig : VadConfig) (mode : InputMode)
    (operations : List Operation) :
    ((machine fl math).run (new vadConfig mode) operations).inputGate.isTransmitting =
      (((machine fl math).outputs (new vadConfig mode) operations).getLast?).getD false := by
  induction operations using List.reverseRecOn with
  | nil => rfl
  | append_singleton operations operation ih =>
    rw [Machine.run_append, Machine.outputs_append, List.getLast?_append]
    cases operation with
    | setMode mode => exact ih
    | setPtt pressed => exact ih
    | hear chunk rnnoiseVad => rfl

end Microphone

end VoiceChat
