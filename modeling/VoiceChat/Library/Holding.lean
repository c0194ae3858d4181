import Mathlib.Data.List.Forall2
import Mathlib.Data.List.Induction
import Mathlib.Order.Lattice.Nat
import VoiceChat.Library.Machine

/-!
# A signal that is held

A signal goes on when it is triggered, and each trigger says for how many further
steps it is held. It is kept as a flag and a counter. What the flag and the counter
make of a sequence of steps can be read off the sequence: the signal is on exactly
when no more steps have passed since the last trigger than that trigger asked for
(`on_run_iff`).

With one hold time for all triggers, it is on exactly when one of the last steps was
a trigger (`on_run_of_constant`), so more triggers and a longer hold never turn it off
(`on_run_mono`).
-/

set_option autoImplicit false

namespace VoiceChat

/-- The signal and for how many steps it will be held. -/
structure Holding where
  left : ℕ
  on : Bool
  deriving DecidableEq

namespace Holding

/-- A signal that was never triggered. -/
def off : Holding := ⟨0, false⟩

/-- The signal under triggers, each with its hold time, and steps without one. It puts
out whether it is on. -/
def machine : Machine Holding (Option ℕ) Bool where
  step
    | _, some hold => (⟨hold, true⟩, [true])
    | held, none =>
        if held.left > 0 then (⟨held.left - 1, held.on⟩, [held.on])
        else (⟨held.left, false⟩, [false])

theorem step_of_held {left : ℕ} (on : Bool) (more : 0 < left) :
    machine.step ⟨left, on⟩ none = (⟨left - 1, on⟩, [on]) := if_pos more

theorem step_of_over (on : Bool) : machine.step ⟨0, on⟩ none = (⟨0, false⟩, [false]) := rfl

/-- After a trigger the flag and the counter follow from the steps since. -/
theorem run_replicate_none (hold steps : ℕ) :
    machine.run ⟨hold, true⟩ (List.replicate steps none) =
      ⟨hold - steps, decide (steps ≤ hold)⟩ := by
  induction steps with
  | zero => simp
  | succ steps ih =>
    rw [List.replicate_succ', Machine.run_append, ih, Machine.run_cons, Machine.run_nil]
    by_cases held : steps < hold
    · rw [step_of_held _ (Nat.sub_pos_of_lt held), Nat.sub_sub, decide_eq_true (by omega),
        decide_eq_true (by omega)]
    · rw [Nat.sub_eq_zero_of_le (by omega), step_of_over, decide_eq_false (by omega),
        Nat.sub_eq_zero_of_le (by omega)]

/-- Without a trigger nothing happens. -/
theorem run_off_replicate_none (steps : ℕ) :
    machine.run off (List.replicate steps none) = off := by
  induction steps with
  | zero => rfl
  | succ steps ih => exact ih

/-- The steps since the last trigger, if there was one. -/
theorem last_trigger (inputs : List (Option ℕ)) :
    (∃ steps, inputs = List.replicate steps none) ∨
      ∃ before hold steps, inputs = before ++ some hold :: List.replicate steps none := by
  induction inputs using List.reverseRecOn with
  | nil => exact Or.inl ⟨0, rfl⟩
  | append_singleton inputs input ih =>
    cases input with
    | some hold => exact Or.inr ⟨inputs, hold, 0, rfl⟩
    | none =>
      rcases ih with ⟨steps, rfl⟩ | ⟨before, hold, steps, rfl⟩
      · exact Or.inl ⟨steps + 1, List.replicate_succ'.symm⟩
      · refine Or.inr ⟨before, hold, steps + 1, ?_⟩
        rw [List.replicate_succ', List.append_assoc, List.cons_append]

theorem run_of_last_trigger (held : Holding) (before : List (Option ℕ)) (hold steps : ℕ) :
    machine.run held (before ++ some hold :: List.replicate steps none) =
      ⟨hold - steps, decide (steps ≤ hold)⟩ := by
  rw [Machine.run_append]
  exact run_replicate_none hold steps

/-- **When the signal is on**: no more steps have passed since the last trigger than it
asked for. -/
theorem on_run_iff (inputs : List (Option ℕ)) :
    (machine.run off inputs).on = true ↔
      ∃ before hold steps, inputs = before ++ some hold :: List.replicate steps none ∧
        steps ≤ hold := by
  constructor
  · intro on
    rcases last_trigger inputs with ⟨steps, rfl⟩ | ⟨before, hold, steps, rfl⟩
    · rw [run_off_replicate_none] at on
      cases on
    · rw [run_of_last_trigger] at on
      exact ⟨before, hold, steps, rfl, of_decide_eq_true on⟩
  · rintro ⟨before, hold, steps, rfl, within⟩
    rw [run_of_last_trigger]
    exact decide_eq_true within

/-! ## One hold time -/

/-- Triggers that all ask for the same. -/
def constant (hold : ℕ) (triggers : List Bool) : List (Option ℕ) :=
  triggers.map fun trigger => if trigger then some hold else none

/-- A signal that is on stays on while its steps last. -/
theorem on_run_of_length_le {hold : ℕ} (left : ℕ) {triggers : List Bool} (less : left ≤ hold)
    (lasts : triggers.length ≤ left) :
    (machine.run ⟨left, true⟩ (constant hold triggers)).on = true := by
  induction triggers generalizing left with
  | nil => rfl
  | cons trigger rest ih =>
    rw [List.length_cons] at lasts
    cases trigger with
    | true => exact ih hold le_rfl (by omega)
    | false =>
      rw [constant, List.map_cons, if_neg Bool.false_ne_true, Machine.run_cons,
        step_of_held true (by omega)]
      exact ih (left - 1) ((Nat.sub_le left 1).trans less) (by omega)

/-- **With one hold time**, the signal is on exactly when one of the last steps was a
trigger. -/
theorem on_run_of_constant (hold : ℕ) (triggers : List Bool) :
    (machine.run off (constant hold triggers)).on = true ↔
      ∃ before after, triggers = before ++ true :: after ∧ after.length ≤ hold := by
  constructor
  · intro on
    obtain ⟨before, asked, steps, inputs, within⟩ := (on_run_iff _).mp on
    obtain ⟨first, second, rfl, _, later⟩ := List.map_eq_append_iff.mp inputs
    obtain ⟨trigger, after, rfl, triggered, since⟩ := List.map_eq_cons_iff.mp later
    have length : after.length = steps := by
      rw [← List.length_map (f := fun trigger => if trigger then some hold else none), since,
        List.length_replicate]
    cases trigger with
    | false => cases triggered
    | true =>
      cases triggered
      exact ⟨first, after, rfl, length.trans_le within⟩
  · rintro ⟨before, after, rfl, within⟩
    rw [constant, List.map_append, List.map_cons, if_pos rfl, Machine.run_append,
      Machine.run_cons]
    exact on_run_of_length_le _ le_rfl within

/-- **More triggers and a longer hold** never turn the signal off. -/
theorem on_run_mono {hold hold' : ℕ} (longer : hold ≤ hold') {triggers triggers' : List Bool}
    (more : List.Forall₂ (fun trigger trigger' => trigger = true → trigger' = true) triggers
      triggers') (on : (machine.run off (constant hold triggers)).on = true) :
    (machine.run off (constant hold' triggers')).on = true := by
  obtain ⟨before, after, rfl, within⟩ := (on_run_of_constant ..).mp on
  have later := List.forall₂_drop_append _ before (true :: after) more.flip
  obtain ⟨trigger, after', triggered, rest, split⟩ := List.forall₂_cons_right_iff.mp later
  cases triggered rfl
  refine (on_run_of_constant ..).mpr ⟨triggers'.take before.length, after', ?_, ?_⟩
  · rw [← split, List.take_append_drop]
  · exact rest.length_eq.trans_le (within.trans longer)

end Holding

end VoiceChat
