import Mathlib.Algebra.Order.Group.MinMax
import VoiceChat.Codec

/-!
# Mixing

The frames of the peers are added up, sample by sample, and the sums are clamped. The
sums are rounded as they grow, so the order of the peers can be heard in principle;
how little is said by `mixPeers_perm`.
-/

set_option autoImplicit false

namespace VoiceChat

/-- Add a buffer to the output, as far as both reach. -/
def addBuffer (fl : Rounding f32) : List Sample → List Sample → List Sample
  | [], _ => []
  | output, [] => output
  | sample :: output, s :: buf => fl.round (sample + s) :: addBuffer fl output buf

/-- The sums of the buffers, in the place of what was in the output. -/
def addBuffers (fl : Rounding f32) (peerBuffers : List (List Sample)) (output : List Sample) :
    List Sample :=
  peerBuffers.foldl (addBuffer fl) (output.map fun _ => 0)

/-- Mix multiple peer audio streams into a single output buffer. -/
def mixPeers (fl : Rounding f32) (peerBuffers : List (List Sample)) (output : List Sample) :
    List Sample :=
  (addBuffers fl peerBuffers output).map clamp

/-- Mix peers with soft clipping instead of a hard clamp. -/
def mixPeersSoft (fl : Rounding f32) (tanh : Sample → Sample) (peerBuffers : List (List Sample))
    (output : List Sample) : List Sample :=
  (addBuffers fl peerBuffers output).map tanh

/-! ## Sample by sample -/

variable (fl : Rounding f32)

theorem getElem?_addBuffer (output buf : List Sample) (i : ℕ) :
    (addBuffer fl output buf)[i]? =
      (output[i]?).map fun sample => (buf[i]?).elim sample fun s => fl.round (sample + s) := by
  induction output generalizing buf i with
  | nil => simp [addBuffer]
  | cons sample output ih =>
    cases buf with
    | nil => simp [addBuffer]
    | cons s buf =>
      cases i with
      | zero => simp [addBuffer]
      | succ i => simpa [addBuffer] using ih buf i

theorem length_addBuffer (output buf : List Sample) :
    (addBuffer fl output buf).length = output.length := by
  induction output generalizing buf with
  | nil => simp [addBuffer]
  | cons sample output ih =>
    cases buf with
    | nil => simp [addBuffer]
    | cons s buf => simp [addBuffer, ih]

/-- What the peers have at one place. -/
def column (peerBuffers : List (List Sample)) (i : ℕ) : List Sample :=
  peerBuffers.filterMap fun buf => buf[i]?

theorem column_append_singleton (peerBuffers : List (List Sample)) (buf : List Sample) (i : ℕ) :
    column (peerBuffers ++ [buf]) i = column peerBuffers i ++ (buf[i]?).toList := by
  rw [column, List.filterMap_append]
  cases here : buf[i]? <;> simp [column, here]

/-- At each place stands the sum of what the peers have there. -/
theorem getElem?_addBuffers (peerBuffers : List (List Sample)) (output : List Sample) (i : ℕ) :
    (addBuffers fl peerBuffers output)[i]? =
      (output[i]?).map fun _ => fl.sum (column peerBuffers i) := by
  induction peerBuffers using List.reverseRecOn with
  | nil => exact List.getElem?_map ..
  | append_singleton peerBuffers buf ih =>
    rw [addBuffers, List.foldl_append, List.foldl_cons, List.foldl_nil, getElem?_addBuffer,
      ← addBuffers, ih, Option.map_map]
    congr 1
    funext _
    rw [Function.comp_apply, column_append_singleton]
    cases buf[i]? with
    | none => simp
    | some s => exact (fl.sum_append_singleton ..).symm

theorem length_addBuffers (peerBuffers : List (List Sample)) (output : List Sample) :
    (addBuffers fl peerBuffers output).length = output.length := by
  induction peerBuffers using List.reverseRecOn with
  | nil => simp [addBuffers]
  | append_singleton peerBuffers buf ih =>
    rw [addBuffers, List.foldl_append, List.foldl_cons, List.foldl_nil, length_addBuffer,
      ← addBuffers, ih]

@[simp] theorem length_mixPeers (peerBuffers : List (List Sample)) (output : List Sample) :
    (mixPeers fl peerBuffers output).length = output.length := by
  rw [mixPeers, List.length_map, length_addBuffers]

/-- The output is never louder than full scale. -/
theorem abs_le_of_mem_mixPeers {peerBuffers : List (List Sample)} {output : List Sample}
    {sample : Sample} (member : sample ∈ mixPeers fl peerBuffers output) : |sample| ≤ 1 := by
  obtain ⟨sum, _, rfl⟩ := List.mem_map.mp member
  exact abs_clamp_le sum

/-- Clamping brings samples no further apart. -/
theorem abs_clamp_sub_clamp_le (x y : Sample) : |clamp x - clamp y| ≤ |x - y| := by
  have asMinMax : ∀ s : Sample, clamp s = max (min s 1) (-1) := by
    intro s
    unfold clamp
    split_ifs with low high
    · rw [min_eq_left (by linarith), max_eq_right low.le]
    · rw [min_eq_right high.le, max_eq_left (by norm_num)]
    · rw [min_eq_left (not_lt.mp high), max_eq_left (not_lt.mp low)]
  rw [asMinMax, asMinMax]
  refine (abs_max_sub_max_le_abs ..).trans ((abs_min_sub_min_le_max ..).trans ?_)
  rw [sub_self, abs_zero]
  exact max_le le_rfl (abs_nonneg _)

/-! ## The order of the peers -/

/-- What the order of at most four peers can do to a sum at one place. -/
theorem abs_sum_column_sub_le {first second : List (List Sample)} (same : first.Perm second)
    (few : first.length ≤ 4) (bounded : ∀ buf ∈ first, ∀ s ∈ buf, |s| ≤ 2) (i : ℕ) :
    |fl.sum (column first i) - fl.sum (column second i)| ≤ 1 / 2 ^ 19 := by
  have count : (column first i).length ≤ 4 := (List.length_filterMap_le ..).trans few
  have summands : ∀ x ∈ column first i, |x| ≤ (2 : ℕ) := by
    intro x member
    obtain ⟨buf, inside, here⟩ := List.mem_filterMap.mp member
    exact bounded buf inside x (List.mem_of_getElem? here)
  have four : ((column first i).length : ℚ) ≤ 4 := by exact_mod_cast count
  have size : ((column first i).length * (2 : ℕ) : ℚ) ≤ 2 ^ f32.precision * 2 ^ (-21 : ℤ) := by
    norm_num [f32]
    linarith
  have digits : (column first i).length * 2 ≤ 2 ^ f32.precision := by
    have large : 8 ≤ 2 ^ f32.precision := by decide
    omega
  have near : |fl.sum (column first i) - fl.sum (column second i)| ≤
      (column first i).length * 2 ^ (-21 : ℤ) :=
    fl.abs_sum_sub_sum_le (by decide) (by decide) (same.filterMap _) summands digits size
  norm_num at near ⊢
  linarith

/-- **The order of the peers** is inaudible: with at most four of them, no sample changes
by more than a sixteenth of a 16-bit step. -/
theorem mixPeers_perm {first second : List (List Sample)} (same : first.Perm second)
    (few : first.length ≤ 4) (bounded : ∀ buf ∈ first, ∀ s ∈ buf, |s| ≤ 2)
    (output : List Sample) :
    List.Forall₂ (fun s s' => |s - s'| ≤ 1 / 2 ^ 19) (mixPeers fl first output)
      (mixPeers fl second output) := by
  refine List.forall₂_iff_get.mpr ⟨by simp, fun i inside inside' => ?_⟩
  have at_ : ∀ (peerBuffers : List (List Sample)) (inside : i < (mixPeers fl peerBuffers output).length),
      (mixPeers fl peerBuffers output).get ⟨i, inside⟩ = clamp (fl.sum (column peerBuffers i)) := by
    intro peerBuffers inside
    have place : i < output.length := by simpa using inside
    have entry : (mixPeers fl peerBuffers output)[i]? =
        some (clamp (fl.sum (column peerBuffers i))) := by
      rw [mixPeers, List.getElem?_map, getElem?_addBuffers, List.getElem?_eq_getElem place]
      rfl
    exact (List.getElem_eq_iff inside).mpr entry
  rw [at_ first inside, at_ second inside']
  exact (abs_clamp_sub_clamp_le ..).trans (abs_sum_column_sub_le fl same few bounded i)

end VoiceChat
