import Mathlib.Order.Lattice.Nat
import VoiceChat.Library.Machine

/-!
# Ring buffers

A ring buffer stands between one producer and one consumer. It takes as much of a slice
as there is room for and gives out as much as is asked for and is there. Each operation
happens at one moment, so what the two sides do is a sequence of operations.

Nothing that was accepted is lost, repeated or moved: at any moment it is what was given
out followed by what is stored (`accepted_eq`). What is offered and not accepted was
refused, and nothing is refused while there is room (`refuse_eq_nil_iff`).
-/

set_option autoImplicit false

namespace VoiceChat

universe u v

/-- A ring buffer of elements of one type, by what its operations do to the contents. -/
structure RingBuffer (α : Type u) (B : Type v) where
  new : ℕ → B
  /-- Push as much of a slice as there is room for, and say how much that was. -/
  pushSlice : B → List α → ℕ × B
  /-- Pop at most so many elements. -/
  popSlice : B → ℕ → List α × B
  capacity : B → ℕ
  contents : B → List α
  capacity_new : ∀ size, capacity (new size) = size
  contents_new : ∀ size, contents (new size) = []
  pushed : ∀ b slice, (pushSlice b slice).1 = min slice.length (capacity b - (contents b).length)
  capacity_push : ∀ b slice, capacity (pushSlice b slice).2 = capacity b
  contents_push : ∀ b slice,
    contents (pushSlice b slice).2 = contents b ++ slice.take (pushSlice b slice).1
  popped : ∀ b size, (popSlice b size).1 = (contents b).take size
  capacity_pop : ∀ b size, capacity (popSlice b size).2 = capacity b
  contents_pop : ∀ b size, contents (popSlice b size).2 = (contents b).drop size

namespace RingBuffer

variable {α : Type u} {B : Type v} (ring : RingBuffer α B)

/-- What the two sides ask for. -/
inductive Operation (α : Type u) where
  | push (slice : List α)
  | pop (size : ℕ)

/-- What an operation offers to the buffer. -/
def Operation.offered : Operation α → List α
  | .push slice => slice
  | .pop _ => []

/-- A ring buffer under a sequence of operations. It puts out what is popped. -/
def machine : Machine B (Operation α) α where
  step
    | b, .push slice => ((ring.pushSlice b slice).2, [])
    | b, .pop size => ((ring.popSlice b size).2, (ring.popSlice b size).1)

/-- What an operation brings in. -/
def accept (b : B) : Operation α → List α
  | .push slice => slice.take (ring.pushSlice b slice).1
  | .pop _ => []

/-- What an operation offers and does not bring in. -/
def refuse (b : B) : Operation α → List α
  | .push slice => slice.drop (ring.pushSlice b slice).1
  | .pop _ => []

/-- What a sequence of operations brings in. -/
def accepted (b : B) (operations : List (Operation α)) : List α :=
  (ring.machine.observe ring.accept).outputs b operations

/-- What a sequence of operations offers and does not bring in. -/
def refused (b : B) (operations : List (Operation α)) : List α :=
  (ring.machine.observe ring.refuse).outputs b operations

/-! ## One operation -/

/-- What is given out, and what is stored then, is what was stored and what came in. -/
theorem accept_eq (b : B) (operation : Operation α) :
    ring.contents b ++ ring.accept b operation =
      (ring.machine.step b operation).2 ++ ring.contents (ring.machine.step b operation).1 := by
  cases operation with
  | push slice => exact (ring.contents_push b slice).symm
  | pop size =>
    change ring.contents b ++ [] = (ring.popSlice b size).1 ++ ring.contents (ring.popSlice b size).2
    rw [List.append_nil, ring.popped, ring.contents_pop, List.take_append_drop]

theorem accept_append_refuse (b : B) (operation : Operation α) :
    ring.accept b operation ++ ring.refuse b operation = operation.offered := by
  cases operation with
  | push slice => exact List.take_append_drop ..
  | pop size => rfl

/-- The buffer never holds more than its capacity, which stays. -/
structure Within (size : ℕ) (b : B) : Prop where
  capacity : ring.capacity b = size
  length : (ring.contents b).length ≤ size

theorem within_new (size : ℕ) : ring.Within size (ring.new size) :=
  ⟨ring.capacity_new size, by rw [ring.contents_new]; exact Nat.zero_le size⟩

variable {ring} in
theorem Within.step {size : ℕ} {b : B} (within : ring.Within size b) (operation : Operation α) :
    ring.Within size (ring.machine.step b operation).1 := by
  obtain ⟨capacity, length⟩ := within
  cases operation with
  | push slice =>
    refine ⟨(ring.capacity_push b slice).trans capacity, ?_⟩
    change (ring.contents (ring.pushSlice b slice).2).length ≤ size
    rw [ring.contents_push, ring.pushed, capacity, List.length_append, List.length_take]
    omega
  | pop count =>
    refine ⟨(ring.capacity_pop b count).trans capacity, ?_⟩
    change (ring.contents (ring.popSlice b count).2).length ≤ size
    rw [ring.contents_pop, List.length_drop]
    omega

variable {ring} in
/-- **Nothing is refused while there is room**, and whatever does not fit is. -/
theorem refuse_eq_nil_iff {size : ℕ} {b : B} (within : ring.Within size b)
    (operation : Operation α) :
    ring.refuse b operation = [] ↔
      (ring.contents b).length + operation.offered.length ≤ size := by
  obtain ⟨capacity, length⟩ := within
  cases operation with
  | push slice =>
    rw [refuse, Operation.offered, List.drop_eq_nil_iff, ring.pushed, capacity]
    omega
  | pop count => exact iff_of_true rfl length

/-! ## Runs -/

/-- **First in, first out**: what came in during a run, after what was stored before, is
what was given out, followed by what is stored now. -/
theorem accepted_eq (b : B) (operations : List (Operation α)) :
    ring.contents b ++ ring.accepted b operations =
      ring.machine.outputs b operations ++ ring.contents (ring.machine.run b operations) := by
  induction operations generalizing b with
  | nil => exact List.append_nil _
  | cons operation rest ih =>
    have first := accept_eq ring b operation
    have later := ih (ring.machine.step b operation).1
    rw [Machine.outputs_cons, Machine.run_cons, List.append_assoc, ← later, ← List.append_assoc,
      ← first, List.append_assoc]
    rfl

variable {ring} in
/-- Where nothing was refused, everything offered was accepted. -/
theorem accepted_of_refused_nil {b : B} {operations : List (Operation α)}
    (none : ring.refused b operations = []) :
    ring.accepted b operations = operations.flatMap Operation.offered := by
  induction operations generalizing b with
  | nil => rfl
  | cons operation rest ih =>
    obtain ⟨now, later⟩ := List.append_eq_nil_iff.mp none
    have all := accept_append_refuse ring b operation
    rw [show ring.refuse b operation = [] from now, List.append_nil] at all
    rw [List.flatMap_cons, ← all, ← ih later]
    rfl

/-- What was accepted is a part of what was offered, in order. -/
theorem accepted_sublist (b : B) (operations : List (Operation α)) :
    (ring.accepted b operations).Sublist (operations.flatMap Operation.offered) := by
  induction operations generalizing b with
  | nil => exact List.Sublist.refl []
  | cons operation rest ih =>
    rw [List.flatMap_cons, ← accept_append_refuse ring b operation]
    exact (List.sublist_append_left _ _).append (ih _)

/-! ## In time -/

/-- No more is pushed between two pops than each of them takes at least. The number is
what was pushed since the last pop. -/
def Paced (size : ℕ) : ℕ → List (Operation α) → Prop
  | _, [] => True
  | waiting, .push slice :: rest =>
      waiting + slice.length ≤ size ∧ Paced size (waiting + slice.length) rest
  | _, .pop count :: rest => size ≤ count ∧ Paced size 0 rest

/-- What was pushed since the last pop. -/
def pushedSince : ℕ → List (Operation α) → ℕ
  | waiting, [] => waiting
  | waiting, .push slice :: rest => pushedSince (waiting + slice.length) rest
  | _, .pop _ :: rest => pushedSince 0 rest

theorem pushedSince_append_pop (waiting : ℕ) (operations : List (Operation α)) (count : ℕ) :
    pushedSince waiting (operations ++ [.pop count]) = 0 := by
  induction operations generalizing waiting with
  | nil => rfl
  | cons operation rest ih =>
    cases operation with
    | push slice => exact ih (waiting + slice.length)
    | pop count' => exact ih 0

variable {ring} in
/-- **Popped in time**, a buffer refuses nothing and holds no more than what was pushed
since the last pop. -/
theorem of_paced {capacity size : ℕ} (fits : size ≤ capacity) {b : B}
    (within : ring.Within capacity b) {waiting : ℕ} (inside : (ring.contents b).length ≤ waiting)
    (few : waiting ≤ size) {operations : List (Operation α)}
    (paced : Paced size waiting operations) :
    ring.refused b operations = [] ∧
      (ring.contents (ring.machine.run b operations)).length ≤ pushedSince waiting operations := by
  induction operations generalizing b waiting with
  | nil => exact ⟨rfl, inside⟩
  | cons operation rest ih =>
    have within' := within.step operation
    cases operation with
    | push slice =>
      obtain ⟨room, later⟩ := paced
      have none : ring.refuse b (.push slice) = [] :=
        (refuse_eq_nil_iff within _).mpr (by dsimp only [Operation.offered]; omega)
      have stored := accept_eq ring b (.push slice)
      have all := accept_append_refuse ring b (.push slice)
      rw [none, List.append_nil] at all
      rw [all] at stored
      have length := congrArg List.length stored
      have inside' : (ring.contents (ring.machine.step b (.push slice)).1).length ≤
          waiting + slice.length := by
        change (ring.contents b ++ slice).length = ([] ++ ring.contents _).length at length
        rw [List.length_append, List.nil_append] at length
        omega
      exact (ih within' inside' room later).imp_left
        fun refused => List.append_eq_nil_iff.mpr ⟨none, refused⟩
    | pop count =>
      obtain ⟨enough, later⟩ := paced
      have empty : (ring.contents (ring.machine.step b (.pop count)).1).length ≤ 0 := by
        change (ring.contents (ring.popSlice b count).2).length ≤ 0
        rw [ring.contents_pop, List.length_drop]
        omega
      exact (ih within' empty (Nat.zero_le size) later).imp_left
        fun refused => List.append_eq_nil_iff.mpr ⟨rfl, refused⟩

/-- A ring buffer as its capacity and its contents. -/
def queue (α : Type u) : RingBuffer α (ℕ × List α) where
  new size := (size, [])
  pushSlice b slice :=
    let count := min slice.length (b.1 - b.2.length)
    (count, b.1, b.2 ++ slice.take count)
  popSlice b size := (b.2.take size, b.1, b.2.drop size)
  capacity := Prod.fst
  contents := Prod.snd
  capacity_new _ := rfl
  contents_new _ := rfl
  pushed _ _ := rfl
  capacity_push _ _ := rfl
  contents_push _ _ := rfl
  popped _ _ := rfl
  capacity_pop _ _ := rfl
  contents_pop _ _ := rfl

end RingBuffer

end VoiceChat
