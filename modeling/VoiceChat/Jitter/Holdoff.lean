import Mathlib.Algebra.Order.Field.Rat
import Mathlib.Tactic.NormNum
import VoiceChat.Jitter

/-!
# How long the loss has to be low

The target depth is lowered when fewer than one packet in a thousand was late and the
timer has reached the hold-off. The timer is restarted when the depth is lowered, and not
when it is raised: an increase leaves it running on from the decrease before, so the next
hundred packets in time can undo the increase at once.

`Timed` keeps beside a buffer the value at which the last change of its depth left the
timer, zero for a decrease, and how much adapt time has passed since. `holdoff_iff` says
that the hold-off is kept by a run exactly when it never happens at low loss that this
time is too short for the hold-off and together with that value long enough (`Hasty`).
-/

set_option autoImplicit false

namespace VoiceChat

/-- The time that an adaptation accounts for. -/
def JitterOp.elapsed {Pcm : Type} : JitterOp Pcm → ℚ
  | .adapt elapsedSecs => elapsedSecs
  | _ => 0

/-- The last change of the target depth. -/
structure DepthChange where
  /-- The value at which it left the timer. -/
  timer : ℚ
  /-- The adapt time accumulated since. -/
  since : ℚ
  deriving DecidableEq

/-- A jitter buffer together with the last change of its target depth, if there was one. -/
structure Timed (Pcm : Type) where
  buffer : JitterBuffer Pcm
  lastChange : Option DepthChange

/-- The buffer after an operation, and what that makes of the last change. -/
def Timed.next {Pcm : Type} (timed : Timed Pcm) (op : JitterOp Pcm) (buffer : JitterBuffer Pcm) :
    Timed Pcm :=
  if buffer.targetDepth = timed.buffer.targetDepth then
    ⟨buffer, timed.lastChange.map fun change => { change with since := change.since + op.elapsed }⟩
  else
    ⟨buffer, some ⟨buffer.timeSinceDecrease, 0⟩⟩

/-- A jitter buffer whose depth changes are watched. -/
def timedMachine (Pcm : Type) : Machine (Timed Pcm) (JitterOp Pcm) Empty where
  step timed op := (timed.next op ((jitterMachine Pcm).step timed.buffer op).1, [])

theorem Timed.buffer_next {Pcm : Type} (timed : Timed Pcm) (op : JitterOp Pcm)
    (buffer : JitterBuffer Pcm) : (timed.next op buffer).buffer = buffer := by
  unfold next
  split_ifs
  · rfl
  · rfl

/-- Keeping the last change does not change what the buffer does. -/
theorem Timed.run_buffer {Pcm : Type} (timed : Timed Pcm) (ops : List (JitterOp Pcm)) :
    ((timedMachine Pcm).run timed ops).buffer = timed.buffer.run ops :=
  (timedMachine Pcm).run_forget Timed.buffer (fun timed op => timed.buffer_next op _) timed ops

namespace JitterBuffer

variable {Pcm : Type}

/-- Enough packets were counted, and few enough of them were late. -/
def LowLoss (jb : JitterBuffer Pcm) : Prop :=
  100 ≤ jb.totalPackets ∧ (jb.latePackets : ℚ) / jb.totalPackets < decreaseThreshold

instance (jb : JitterBuffer Pcm) : Decidable jb.LowLoss := inferInstanceAs (Decidable (_ ∧ _))

/-- An adaptation lowers the depth. -/
def Lowers (jb : JitterBuffer Pcm) (elapsedSecs : ℚ) : Prop :=
  jb.LowLoss ∧ 1 < jb.targetDepth ∧ decreaseHoldoffSecs ≤ jb.timeSinceDecrease + elapsedSecs

instance (jb : JitterBuffer Pcm) (elapsedSecs : ℚ) : Decidable (jb.Lowers elapsedSecs) :=
  inferInstanceAs (Decidable (_ ∧ _ ∧ _))

/-- **What an adaptation can do**: raise the depth and let the timer run on, lower the
depth and restart the timer, or keep the depth. -/
theorem adapt_cases (jb : JitterBuffer Pcm) (elapsedSecs : ℚ) :
    (¬ jb.Lowers elapsedSecs ∧ (jb.adapt elapsedSecs).targetDepth = jb.targetDepth + 1 ∧
        (jb.adapt elapsedSecs).timeSinceDecrease = jb.timeSinceDecrease + elapsedSecs) ∨
      (jb.Lowers elapsedSecs ∧ (jb.adapt elapsedSecs).targetDepth = jb.targetDepth - 1 ∧
        (jb.adapt elapsedSecs).timeSinceDecrease = 0) ∨
      (¬ jb.Lowers elapsedSecs ∧ (jb.adapt elapsedSecs).targetDepth = jb.targetDepth ∧
        (jb.adapt elapsedSecs).timeSinceDecrease = jb.timeSinceDecrease + elapsedSecs) := by
  unfold adapt
  dsimp only
  split_ifs with few raises lowers
  · exact Or.inr (Or.inr ⟨fun lowers => absurd few (Nat.not_lt.mpr lowers.1.1), rfl, rfl⟩)
  · refine Or.inl ⟨fun lowers => ?_, rfl, rfl⟩
    have apart : decreaseThreshold < increaseThreshold := by
      norm_num [decreaseThreshold, increaseThreshold]
    exact absurd (lowers.1.2.trans apart) (not_lt.mpr raises.1.le)
  · exact Or.inr (Or.inl ⟨⟨⟨Nat.le_of_not_lt few, lowers.1⟩, lowers.2⟩, rfl, rfl⟩)
  · exact Or.inr (Or.inr ⟨fun all => lowers ⟨all.1.2, all.2⟩, rfl, rfl⟩)

/-- The depth is lowered exactly then. -/
theorem adapt_lowers_iff {jb : JitterBuffer Pcm} {elapsedSecs : ℚ} :
    (jb.adapt elapsedSecs).targetDepth < jb.targetDepth ↔ jb.Lowers elapsedSecs := by
  rcases jb.adapt_cases elapsedSecs with ⟨not, depth, _⟩ | ⟨lowers, depth, _⟩ | ⟨not, depth, _⟩
  · exact iff_of_false (by omega) not
  · have above := lowers.2.1
    exact iff_of_true (by omega) lowers
  · exact iff_of_false (by omega) not

end JitterBuffer

namespace Timed

open JitterBuffer

variable {Pcm : Type}

/-- A buffer as it starts. -/
def new : Timed Pcm := ⟨JitterBuffer.new, none⟩

/-- The hold-off is kept: an adaptation that lowers the depth comes when enough adapt time
has passed since the depth was changed. -/
def HeldOff (timed : Timed Pcm) : JitterOp Pcm → Prop
  | .adapt elapsedSecs =>
      (timed.buffer.adapt elapsedSecs).targetDepth < timed.buffer.targetDepth →
        ∃ change ∈ timed.lastChange, decreaseHoldoffSecs ≤ change.since + elapsedSecs
  | _ => True

/-- The depth was changed too short a time ago, but an adaptation makes up for it with the
value at which the change left the timer; and it finds low loss, and a depth to lower. -/
def Hasty (timed : Timed Pcm) : JitterOp Pcm → Prop
  | .adapt elapsedSecs =>
      (∃ change ∈ timed.lastChange, change.since + elapsedSecs < decreaseHoldoffSecs ∧
        decreaseHoldoffSecs ≤ change.timer + (change.since + elapsedSecs)) ∧
      timed.buffer.LowLoss ∧ 1 < timed.buffer.targetDepth
  | _ => False

/-- The timer runs on from the value at which the last change of the depth left it; and a
depth that was never changed can not be lowered. -/
def Clocked (timed : Timed Pcm) : Prop :=
  match timed.lastChange with
  | none => timed.buffer.targetDepth ≤ 1
  | some change => timed.buffer.targetDepth ≤ 1 ∨
      timed.buffer.timeSinceDecrease = change.timer + change.since

/-- The operations leave the depth alone and the timer running, change the depth, or leave
a depth that can not be lowered. -/
theorem clocked_next {timed : Timed Pcm} (clocked : timed.Clocked) {op : JitterOp Pcm}
    {buffer : JitterBuffer Pcm}
    (moves : (buffer.targetDepth = timed.buffer.targetDepth ∧
        buffer.timeSinceDecrease = timed.buffer.timeSinceDecrease + op.elapsed) ∨
      buffer.targetDepth ≠ timed.buffer.targetDepth ∨ buffer.targetDepth ≤ 1) :
    (timed.next op buffer).Clocked := by
  unfold next
  split_ifs with same
  · cases last : timed.lastChange with
    | none =>
        simp only [Clocked, last] at clocked
        exact same.trans_le clocked
    | some change =>
        simp only [Clocked, last] at clocked
        rcases moves with ⟨depth, timer⟩ | changed | low
        · refine clocked.imp depth.trans_le fun clock => ?_
          simp only [timer, clock, add_assoc]
        · exact absurd same changed
        · exact Or.inl low
  · exact Or.inr (add_zero _).symm

theorem clocked_step {timed : Timed Pcm} (clocked : timed.Clocked) (op : JitterOp Pcm) :
    ((timedMachine Pcm).step timed op).1.Clocked := by
  refine clocked_next clocked ?_
  cases op with
  | push seqNum pcm =>
      have depth := (timed.buffer.push_cases seqNum pcm).2.1
      have timer : (timed.buffer.push seqNum pcm).timeSinceDecrease =
          timed.buffer.timeSinceDecrease := by rw [push_eq]
      exact Or.inl ⟨depth, by simp [jitterMachine, timer, JitterOp.elapsed]⟩
  | pop =>
      refine Or.inl ?_
      rcases timed.buffer.pop_cases with ⟨_, same⟩ | ⟨_, _, _, _, _, _, _, _, popped⟩ |
        ⟨_, _, _, missed⟩
      · simp [jitterMachine, same, JitterOp.elapsed]
      · simp [jitterMachine, popped, JitterOp.elapsed]
      · simp [jitterMachine, missed, JitterOp.elapsed]
  | adapt elapsedSecs =>
      rcases timed.buffer.adapt_cases elapsedSecs with
        ⟨_, depth, _⟩ | ⟨lowers, _, _⟩ | ⟨_, depth, timer⟩
      · exact Or.inr (Or.inl (depth ▸ Nat.succ_ne_self _))
      · exact Or.inr (Or.inl (adapt_lowers_iff.mpr lowers).ne)
      · exact Or.inl ⟨depth, timer⟩
  | reset => exact Or.inr (Or.inr le_rfl)

/-- A step keeps the hold-off exactly when it is not hasty. -/
theorem heldOff_iff {timed : Timed Pcm} (clocked : timed.Clocked) (op : JitterOp Pcm) :
    timed.HeldOff op ↔ ¬ timed.Hasty op := by
  cases op with
  | adapt elapsedSecs =>
      simp only [HeldOff, Hasty, adapt_lowers_iff]
      constructor
      · rintro heldOff ⟨⟨change, last, early, made⟩, low, above⟩
        have clock : timed.buffer.timeSinceDecrease = change.timer + change.since := by
          rw [Clocked, Option.mem_def.mp last] at clocked
          exact clocked.resolve_left (Nat.not_le.mpr above)
        obtain ⟨change', last', late⟩ := heldOff ⟨low, above, by rwa [clock, add_assoc]⟩
        cases Option.mem_unique last last'
        exact absurd late (not_le.mpr early)
      · intro patient lowers
        unfold Clocked at clocked
        cases last : timed.lastChange with
        | none =>
            rw [last] at clocked
            exact absurd lowers.2.1 (Nat.not_lt.mpr clocked)
        | some change =>
            rw [last] at clocked
            refine ⟨change, rfl, ?_⟩
            have clock : timed.buffer.timeSinceDecrease = change.timer + change.since :=
              clocked.resolve_left (Nat.not_le.mpr lowers.2.1)
            have made := lowers.2.2
            rw [clock, add_assoc] at made
            by_contra early
            exact patient ⟨⟨change, last, lt_of_not_ge early, made⟩, lowers.1, lowers.2.1⟩
  | push seqNum pcm => exact iff_of_true trivial fun hasty => hasty
  | pop => exact iff_of_true trivial fun hasty => hasty
  | reset => exact iff_of_true trivial fun hasty => hasty

/-- **The hold-off is kept** by a run exactly when no adaptation of it is hasty. -/
theorem holdoff_iff (ops : List (JitterOp Pcm)) :
    (timedMachine Pcm).Along HeldOff new ops ↔
      (timedMachine Pcm).Along (fun timed op => ¬ timed.Hasty op) new ops :=
  Machine.along_congr_of_invariant Clocked (fun _ op clocked => clocked_step clocked op)
    (fun _ op clocked => heldOff_iff clocked op) le_rfl ops

/-- A run in which 99 of a hundred packets are late, five seconds go by, and then a hundred
packets come in time. -/
def oscillating : List (JitterOp ℕ) :=
  [.push 0 0, .pop] ++ List.replicate 99 (.push 0 0) ++ [.adapt 5] ++
    List.replicate 100 (.push 1 0)

/-- **The depth is lowered at once** after it was raised, without any adapt time in between. -/
theorem lowered_right_after_raised :
    ¬ (timedMachine ℕ).Along HeldOff new (oscillating ++ [.adapt 0]) := by
  intro heldOff
  have last : ((timedMachine ℕ).run new oscillating).lastChange = some ⟨5, 0⟩ := by
    decide +kernel
  have lowered : (((timedMachine ℕ).run new oscillating).buffer.adapt 0).targetDepth <
      ((timedMachine ℕ).run new oscillating).buffer.targetDepth := by decide +kernel
  obtain ⟨change, member, late⟩ := ((Machine.along_append ..).mp heldOff).2.1 lowered
  rw [last] at member
  cases member
  exact absurd late (by decide +kernel)

end Timed

end VoiceChat
