import Mathlib.Algebra.Order.Field.Rat
import Mathlib.Tactic.Linarith
import Mathlib.Tactic.Ring
import VoiceChat.Library.Machine

/-!
# Timers that restart when they fire

A timer is polled at certain times. It fires when its interval has passed since it
fired last, and restarts at the time of the poll, not at the time when it was due.
What a poll comes late is lost for good: every later firing is put off by it.

`lateness` adds up what is lost during a list of polls. The number of firings keeps
up with the time that has passed, to within a fixed arrear, exactly when the arrear
covers the lateness (`keepsUp_iff`). Two firings are never less than the interval
apart, and less than a gap more when the polls come at most a gap apart (`spaced`).
-/

set_option autoImplicit false

namespace VoiceChat

namespace RestartTimer

/-- A timer polled at some time; the state is when it fired last. -/
def timer (interval : ℕ) : Machine ℕ ℕ ℕ where
  step last now := if now - last ≥ interval then (now, [now]) else (last, [])

/-- How much later than it was due the timer fires, over all firings. -/
def lateness (interval last : ℕ) : List ℕ → ℕ
  | [] => 0
  | now :: rest =>
      if now - last ≥ interval then now - last - interval + lateness interval now rest
      else lateness interval last rest

variable {interval last now : ℕ}

theorem step_of_due (due : interval ≤ now - last) :
    (timer interval).step last now = (now, [now]) := if_pos due

theorem step_of_not_due (early : now - last < interval) :
    (timer interval).step last now = (last, []) := if_neg (Nat.not_le.mpr early)

/-- How often the timer fires up to a time. -/
def firedBy (interval last : ℕ) (polls : List ℕ) (time : ℚ) : ℕ :=
  ((timer interval).outputs last polls).countP fun firing : ℕ => (firing : ℚ) ≤ time

theorem firedBy_of_due (due : interval ≤ now - last) (rest : List ℕ) (time : ℚ) :
    firedBy interval last (now :: rest) time =
      firedBy interval now rest time + if (now : ℚ) ≤ time then 1 else 0 := by
  unfold firedBy
  rw [Machine.outputs_cons, step_of_due due, List.singleton_append, List.countP_cons]
  simp only [decide_eq_true_eq]

theorem firedBy_of_not_due (early : now - last < interval) (rest : List ℕ) (time : ℚ) :
    firedBy interval last (now :: rest) time = firedBy interval last rest time := by
  unfold firedBy
  rw [Machine.outputs_cons, step_of_not_due early, List.nil_append]

/-- A timer does not fire again before the time of its last firing. -/
theorem firedBy_eq_zero (positive : 0 < interval) {time : ℚ} (before : time < last)
    (polls : List ℕ) : firedBy interval last polls time = 0 := by
  induction polls generalizing last with
  | nil => rfl
  | cons now rest ih =>
    by_cases due : interval ≤ now - last
    · have later : (last : ℚ) ≤ now := by
        have : last ≤ now := by omega
        exact_mod_cast this
      rw [firedBy_of_due due, ih (before.trans_le later), if_neg (not_le.mpr (before.trans_le later))]
    · rw [firedBy_of_not_due (Nat.lt_of_not_le due), ih before]

/-- Up to the last poll a timer is at no time behind by more than the interval that is
running and an arrear. -/
def KeepsUp (interval last : ℕ) (polls : List ℕ) (arrear : ℕ) : Prop :=
  ∀ time : ℚ, (∃ now ∈ polls, time ≤ now) →
    time ≤ last + (firedBy interval last polls time + 1) * interval + arrear

/-- A poll before the timer is due says nothing about it. -/
theorem keepsUp_of_not_due (early : now - last < interval) (rest : List ℕ) (arrear : ℕ) :
    KeepsUp interval last (now :: rest) arrear ↔ KeepsUp interval last rest arrear := by
  constructor
  · intro keeps time reached
    have bound := keeps time (reached.imp fun _ poll => ⟨List.mem_cons_of_mem _ poll.1, poll.2⟩)
    rwa [firedBy_of_not_due early] at bound
  · rintro keeps time ⟨poll, member, reached⟩
    rw [firedBy_of_not_due early]
    rcases List.mem_cons.mp member with rfl | member
    · have soon : (poll : ℚ) ≤ last + interval := by
        have : poll ≤ last + interval := by omega
        exact_mod_cast this
      have fired : (0 : ℚ) ≤ firedBy interval last rest time := Nat.cast_nonneg _
      have size : (0 : ℚ) ≤ interval := Nat.cast_nonneg _
      have behind : (0 : ℚ) ≤ arrear := Nat.cast_nonneg _
      have more := mul_nonneg fired size
      linarith
    · exact keeps time ⟨poll, member, reached⟩

/-- A firing within the arrear takes from it what it comes late. -/
theorem keepsUp_of_due (positive : 0 < interval) {late arrear : ℕ}
    (due : now = last + interval + late) (rest : List ℕ) :
    KeepsUp interval last (now :: rest) (late + arrear) ↔ KeepsUp interval now rest arrear := by
  have passed : interval ≤ now - last := by omega
  have moment : (now : ℚ) = last + interval + late := by exact_mod_cast due
  constructor
  · rintro keeps time reached
    by_cases early : time < now
    · rw [firedBy_eq_zero positive early]
      have size : (0 : ℚ) ≤ interval := Nat.cast_nonneg _
      have behind : (0 : ℚ) ≤ arrear := Nat.cast_nonneg _
      push_cast
      linarith
    · have bound := keeps time (reached.imp fun _ poll => ⟨List.mem_cons_of_mem _ poll.1, poll.2⟩)
      rw [firedBy_of_due passed, if_pos (not_lt.mp early)] at bound
      push_cast at bound
      linarith
  · rintro keeps time ⟨poll, member, reached⟩
    by_cases early : time < now
    · rw [firedBy_of_due passed, firedBy_eq_zero positive early, if_neg (not_le.mpr early)]
      have behind : (0 : ℚ) ≤ arrear := Nat.cast_nonneg _
      push_cast
      linarith
    · rw [firedBy_of_due passed, if_pos (not_lt.mp early)]
      push_cast
      rcases List.mem_cons.mp member with rfl | member
      · have here : time = poll := le_antisymm reached (not_lt.mp early)
        have fired : (0 : ℚ) ≤ firedBy interval poll rest time := Nat.cast_nonneg _
        have size : (0 : ℚ) ≤ interval := Nat.cast_nonneg _
        have behind : (0 : ℚ) ≤ arrear := Nat.cast_nonneg _
        have more := mul_nonneg fired size
        linarith
      · have bound := keeps time ⟨poll, member, reached⟩
        linarith

/-- A firing that comes later than the arrear allows leaves the timer behind just before. -/
theorem not_keepsUp_of_late (positive : 0 < interval) {arrear : ℕ}
    (late : last + interval + arrear < now) (rest : List ℕ) :
    ¬ KeepsUp interval last (now :: rest) arrear := by
  intro keeps
  have before : (last : ℚ) + interval + arrear + 1 ≤ now := by exact_mod_cast late
  have early : (last : ℚ) + interval + arrear + 1 / 2 < now := by linarith
  have bound := keeps _ ⟨now, List.mem_cons_self, early.le⟩
  rw [firedBy_of_due (by omega), firedBy_eq_zero positive early, if_neg (not_le.mpr early)] at bound
  push_cast at bound
  linarith

/-- **Keeping up.** The firings keep up with time to within an arrear exactly when the
arrear covers what the firings come late altogether. -/
theorem keepsUp_iff (positive : 0 < interval) (polls : List ℕ) (arrear : ℕ) :
    KeepsUp interval last polls arrear ↔ lateness interval last polls ≤ arrear := by
  induction polls generalizing last arrear with
  | nil =>
    refine iff_of_true ?_ (Nat.zero_le _)
    rintro time ⟨now, member, _⟩
    cases member
  | cons now rest ih =>
    rw [lateness]
    split_ifs with due
    · by_cases covered : now - last - interval ≤ arrear
      · obtain ⟨left, rfl⟩ := Nat.exists_eq_add_of_le covered
        rw [keepsUp_of_due positive (by omega), ih, Nat.add_le_add_iff_left]
      · refine iff_of_false (not_keepsUp_of_late positive (by omega) rest) fun within => covered ?_
        exact (Nat.le_add_right _ _).trans within
    · rw [keepsUp_of_not_due (Nat.lt_of_not_le due), ih]

/-! ## How far apart the firings are -/

/-- Whenever the timer is polled, it has fired within the interval before. -/
theorem recent (positive : 0 < interval) {polls : List ℕ} {before : ℕ} (since : last ≤ before)
    (ordered : (before :: polls).IsChain (· ≤ ·)) :
    ∀ now ∈ polls, ∃ firing ∈ last :: (timer interval).outputs last polls,
      firing ≤ now ∧ now < firing + interval := by
  induction polls generalizing last before with
  | nil => exact fun now member => absurd member List.not_mem_nil
  | cons poll rest ih =>
    intro now member
    obtain ⟨later, ordered⟩ := List.isChain_cons_cons.mp ordered
    rw [Machine.outputs_cons]
    by_cases due : interval ≤ poll - last
    · rw [step_of_due due]
      rcases List.mem_cons.mp member with rfl | member
      · exact ⟨now, List.mem_cons_of_mem _ List.mem_cons_self, le_rfl, by omega⟩
      · obtain ⟨firing, fired, within⟩ := ih le_rfl ordered now member
        exact ⟨firing, List.mem_cons_of_mem _ fired, within⟩
    · rw [step_of_not_due (Nat.lt_of_not_le due)]
      rcases List.mem_cons.mp member with rfl | member
      · exact ⟨last, List.mem_cons_self, since.trans later, by omega⟩
      · exact ih (since.trans later) ordered now member

/-- Between two firings the interval passes, and less than a gap more when the timer is
polled in steps of at most the gap. -/
theorem spaced (positive : 0 < interval) {polls : List ℕ} {before gap : ℕ} (since : last ≤ before)
    (early : before < last + interval)
    (steady : (before :: polls).IsChain fun before now => before ≤ now ∧ now ≤ before + gap) :
    (last :: (timer interval).outputs last polls).IsChain
      (fun before firing => before + interval ≤ firing ∧ firing < before + interval + gap) := by
  induction polls generalizing last before with
  | nil => exact .singleton last
  | cons now rest ih =>
    obtain ⟨⟨later, soon⟩, steady⟩ := List.isChain_cons_cons.mp steady
    rw [Machine.outputs_cons]
    by_cases due : interval ≤ now - last
    · rw [step_of_due due]
      exact .cons_cons (by omega) (ih le_rfl (by omega) steady)
    · rw [step_of_not_due (Nat.lt_of_not_le due)]
      exact ih (since.trans later) (by omega) steady

end RestartTimer

end VoiceChat
