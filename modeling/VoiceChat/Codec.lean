import VoiceChat.Dsp
import VoiceChat.Library.FloatingPoint
import VoiceChat.Primitives

/-!
# The codec and its samples

The codec takes frames of 16-bit samples, the rest of the audio path has samples in
single precision. A sample in single precision is a rational number of that format;
the arithmetic on samples rounds to nearest and is otherwise left open (`Rounding`).
Infinities and NaN are not samples.

Samples of 16 bits that go to single precision and back are the same, but for the
lowest one, which has no counterpart above zero (`f32ToI16_i16ToF32`).
-/

set_option autoImplicit false

namespace VoiceChat

/-- Single precision. -/
def f32 : FloatFormat where
  precision := 24
  minExponent := -149
  positive := by decide

/-- A sample in single precision. -/
abbrev Sample := ℚ

/-- Sample rate. -/
def sampleRate : Nat := 48000

/-- `i16::MAX`. -/
def i16Max : Int := 32767

/-- Clamp a sample to the range from -1 to 1. -/
def clamp (s : Sample) : Sample := if s < -1 then -1 else if s > 1 then 1 else s

/-- The integer part, towards zero. -/
def truncate (x : ℚ) : ℤ := if 0 ≤ x then ⌊x⌋ else ⌈x⌉

/-- Convert f32 PCM to i16 samples. The cast goes towards zero and saturates. -/
def f32ToI16 (fl : Rounding f32) (samples : List Sample) : Pcm :=
  samples.map fun s => Int16.ofIntClamp (truncate (fl.round (clamp s * i16Max)))

/-- Convert i16 samples to f32 PCM. -/
def i16ToF32 (fl : Rounding f32) (samples : Pcm) : List Sample :=
  samples.map fun s => fl.round (s.toInt / i16Max)

/-! ## The Opus encoder -/

/-- The Opus encoder with its settings, as a function: what it writes for a frame into
the buffer of the largest size, or none when it reports an error. -/
structure OpusEncoder (E : Type) where
  encode : E → Pcm → E × Option Bytes

inductive EncodeError where
  | expectedSamples (got : Nat)
  | opus
  deriving DecidableEq

/-- Encode a frame into Opus. -/
def encode {E : Type} (opus : OpusEncoder E) (encoder : E) (pcm : Pcm) :
    E × Except EncodeError Bytes :=
  if pcm.length ≠ frameSamples then
    (encoder, .error (.expectedSamples pcm.length))
  else
    let (encoder, encoded) := opus.encode encoder pcm
    (encoder, encoded.elim (.error .opus) .ok)

/-! ## Ranges -/

theorem clamp_of_abs_le {s : Sample} (bound : |s| ≤ 1) : clamp s = s := by
  obtain ⟨low, high⟩ := abs_le.mp bound
  rw [clamp, if_neg (not_lt.mpr low), if_neg (not_lt.mpr high)]

theorem abs_clamp_le (s : Sample) : |clamp s| ≤ 1 := by
  unfold clamp
  split_ifs with low high
  · norm_num
  · norm_num
  · exact abs_le.mpr ⟨not_lt.mp low, not_lt.mp high⟩

theorem clamp_of_le {s : Sample} (low : s ≤ -1) : clamp s = -1 := by
  unfold clamp
  split_ifs with below above
  · rfl
  · linarith
  · linarith

theorem truncate_intCast (n : ℤ) : truncate n = n := by
  rw [truncate, Int.floor_intCast, Int.ceil_intCast, ite_self]

theorem representable_one : f32.Representable 1 := by
  have one : f32.Representable (1 : ℤ) := FloatFormat.representable_intCast (by decide) (by decide)
  exact_mod_cast one

theorem i16Max_pos : (0 : ℚ) < i16Max := by norm_num [i16Max]

theorem abs_round_div_le_one (fl : Rounding f32) {n : ℤ} (bound : |n| ≤ i16Max) :
    |fl.round (n / i16Max)| ≤ 1 := by
  refine fl.abs_round_le representable_one ?_
  rw [abs_div, abs_of_pos i16Max_pos, div_le_one i16Max_pos]
  exact_mod_cast bound

/-- One sample there and back. -/
def thereAndBack (fl : Rounding f32) (s : Int16) : Int16 :=
  Int16.ofIntClamp (truncate (fl.round (clamp (fl.round (s.toInt / i16Max)) * i16Max)))

/-- A sample that has a counterpart on the other side of zero comes back as it was. -/
theorem thereAndBack_of_abs_le (fl : Rounding f32) {s : Int16} (bound : |s.toInt| ≤ i16Max) :
    thereAndBack fl s = s := by
  have back := fl.div_mul_cancel (j := 15) (m := s.toInt) (by decide) (by decide) (by decide)
    (lt_of_le_of_lt bound (by decide))
  have max : ((i16Max : ℤ) : ℚ) = 2 ^ 15 - 1 := by norm_num [i16Max]
  rw [thereAndBack, clamp_of_abs_le (abs_round_div_le_one fl bound), max, back, truncate_intCast,
    Int16.ofIntClamp_toInt]

/-- A sample below all counterparts is clamped to the lowest of them. -/
theorem thereAndBack_of_lt (fl : Rounding f32) {s : Int16} (below : s.toInt < -i16Max) :
    thereAndBack fl s = -32767 := by
  have quotient : (s.toInt : ℚ) / i16Max ≤ -1 := by
    rw [div_le_iff₀ i16Max_pos, neg_one_mul]
    exact_mod_cast below.le
  have lowest : fl.round (((-1 : ℚ)) * i16Max) = ((-i16Max : ℤ) : ℚ) := by
    rw [neg_one_mul, ← Int.cast_neg]
    exact fl.round_intCast (by decide) (by decide)
  rw [thereAndBack, clamp_of_le (fl.round_le representable_one.neg quotient), lowest,
    truncate_intCast]
  rfl

/-- **Samples there and back** are as they were, and the lowest one is the one above
it. -/
theorem f32ToI16_i16ToF32 (fl : Rounding f32) (pcm : Pcm) :
    f32ToI16 fl (i16ToF32 fl pcm) = pcm.map fun s => if s = -32768 then -32767 else s := by
  unfold f32ToI16 i16ToF32
  rw [List.map_map]
  refine List.map_congr_left fun s _ => ?_
  change thereAndBack fl s = _
  split_ifs with lowest
  · rw [lowest]
    exact thereAndBack_of_lt fl (by decide)
  · refine thereAndBack_of_abs_le fl (abs_le.mpr ⟨?_, Int.lt_add_one_iff.mp s.toInt_lt⟩)
    have least := s.le_toInt
    have other : s.toInt ≠ -32768 := fun same => lowest (Int16.toInt.inj same)
    unfold i16Max
    omega

/-! ## Quantisation -/

end VoiceChat
