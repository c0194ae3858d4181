import VoiceChat.Crypto
import VoiceChat.Library.Window

/-!
# The replay filter as a sliding window

The bitmap of a replay filter stands for the set of all counters it has ever
accepted: it has the mark of a counter inside the window exactly when that counter
was accepted (`Refines`). The relation survives a counter inside the window, a small
jump and a jump over the whole window alike, because all three are the one case of
`checkAndAccept_cases` that accepts.
-/

set_option autoImplicit false

namespace VoiceChat

namespace ReplayFilter

/-- The replay filter as a machine. It puts out whether it accepts. -/
def machine : Machine ReplayFilter UInt32 Bool where
  step filter counter :=
    ((filter.checkAndAccept counter).2, [(filter.checkAndAccept counter).1])

/-- The filter stands for the set of accepted numbers: the highest one is the same, and
inside the window a number is marked exactly when it was accepted. -/
structure Refines (filter : ReplayFilter) (accepted : Finset ℕ) : Prop where
  highest : filter.highest.toNat = Window.highest accepted
  marks : ∀ x, filter.highest.toNat - x < 64 → (filter.Marked x ↔ x ∈ accepted)

theorem refines_new : new.Refines ∅ where
  highest := rfl
  marks x _ := by
    have unmarked : ¬ new.Marked x := fun marked => by
      have none : new.bitmap.toNat = 0 := rfl
      rw [Marked, none, Nat.zero_testBit] at marked
      cases marked.2
    exact iff_of_false unmarked (Finset.notMem_empty x)

/-- What the filter has seen is what the window does not accept. -/
theorem Refines.seen_iff {filter : ReplayFilter} {accepted : Finset ℕ}
    (refines : filter.Refines accepted) (counter : UInt32) :
    filter.Seen counter ↔ ¬ Window.Accepts 64 accepted counter.toNat := by
  rw [ReplayFilter.seen_iff, Window.Accepts, ← refines.highest]
  constructor
  · rintro (far | marked) ⟨fresh, inside⟩
    · omega
    · exact fresh ((refines.marks _ (by omega)).mp marked)
  · intro refused
    by_cases inside : filter.highest.toNat < counter.toNat + 64
    · have member : counter.toNat ∈ accepted := by
        by_contra fresh
        exact refused ⟨fresh, inside⟩
      exact Or.inr ((refines.marks _ (by omega)).mpr member)
    · exact Or.inl (Nat.le_of_not_lt inside)

/-- **One step of the refinement.** The filter accepts what the window accepts, and goes
on standing for the accepted set; what it refuses leaves it as it is. -/
theorem Refines.checkAndAccept {filter : ReplayFilter} {accepted : Finset ℕ}
    (refines : filter.Refines accepted) (counter : UInt32) :
    ((filter.checkAndAccept counter).1 = true ↔ Window.Accepts 64 accepted counter.toNat) ∧
      (filter.checkAndAccept counter).2.Refines (Window.offer 64 accepted counter.toNat) ∧
      ((filter.checkAndAccept counter).1 = false →
        (filter.checkAndAccept counter).2 = filter) := by
  have seen := refines.seen_iff counter
  rcases checkAndAccept_cases filter counter with
    ⟨known, refused⟩ | ⟨fresh, filter', taken, highest, marks⟩
  · have closed := seen.mp known
    rw [refused, Window.offer, if_neg closed]
    exact ⟨iff_of_false Bool.false_ne_true closed, refines, fun _ => rfl⟩
  · have opened := not_not.mp (mt seen.mpr fresh)
    rw [taken, Window.offer, if_pos opened]
    refine ⟨iff_of_true rfl opened, ⟨?_, fun x inside => ?_⟩, fun refused => ?_⟩
    · rw [Window.highest_insert, ← refines.highest]
      exact highest
    · dsimp only at inside ⊢
      rw [marks x inside, Finset.mem_insert]
      refine or_congr_right ?_
      rcases Nat.lt_or_ge (filter.highest.toNat - x) 64 with near | far
      · exact refines.marks x near
      · omega
    · cases refused

/-! ## Sequences of counters -/

/-- **The bitmap refines the window.** On every sequence of counters a new filter answers
as the window does that remembers everything it has accepted. -/
theorem outputs_eq_window (counters : List UInt32) :
    machine.outputs new counters = (Window.machine 64).outputs ∅ (counters.map UInt32.toNat) := by
  refine (Machine.simulation (M := machine) (N := Window.machine 64) Refines UInt32.toNat
    (A := fun _ => True) (fun filter accepted counter refines _ => ?_) refines_new
    fun _ _ => trivial).2
  obtain ⟨answer, next, _⟩ := refines.checkAndAccept counter
  refine ⟨next, congrArg (fun fresh => [fresh]) ?_⟩
  exact Bool.eq_iff_iff.mpr (answer.trans (decide_eq_true_iff).symm)

/-- The counter itself, if it is accepted. -/
def taken (filter : ReplayFilter) (counter : UInt32) : List UInt32 :=
  if (filter.checkAndAccept counter).1 then [counter] else []

/-- The counters of a sequence that a new filter accepts, oldest first. -/
def accepted (counters : List UInt32) : List UInt32 :=
  (machine.observe taken).outputs new counters

/-- The accepted counters as a set of numbers. -/
def acceptedSet (counters : List UInt32) : Finset ℕ :=
  ((accepted counters).map UInt32.toNat).toFinset

/-- After any sequence of counters, a filter that was new stands for those it has
accepted. -/
theorem refines_accepted (counters : List UInt32) :
    (machine.run new counters).Refines (acceptedSet counters) := by
  have kept : ∀ (filter : ReplayFilter) (log : List UInt32) (counter : UInt32),
      filter.Refines (log.map UInt32.toNat).toFinset → True →
      (filter.checkAndAccept counter).2.Refines
        ((log ++ filter.taken counter).map UInt32.toNat).toFinset := by
    intro filter log counter refines _
    obtain ⟨answer, next, _⟩ := refines.checkAndAccept counter
    rw [Window.offer] at next
    by_cases fresh : (filter.checkAndAccept counter).1 = true
    · rw [if_pos (answer.mp fresh)] at next
      rw [taken, if_pos fresh, List.map_append, List.toFinset_append, Finset.union_comm]
      exact next
    · rw [if_neg (mt answer.mpr fresh)] at next
      rw [taken, if_neg fresh, List.append_nil]
      exact next
  have start : new.Refines (([] : List UInt32).map UInt32.toNat).toFinset := refines_new
  have side := Machine.invariant_outputs (M := machine.observe taken)
    (fun filter log => filter.Refines (log.map UInt32.toNat).toFinset) kept start
    (Machine.along_true _ new counters)
  rwa [Machine.run_observe, List.nil_append] at side

/-- **What a filter accepts.** After any sequence of counters fed to a new filter, the
next one is accepted exactly when it was not accepted before and is larger than the
largest accepted one less 64; a refused one leaves the filter as it is. -/
theorem accepts_iff (counters : List UInt32) (counter : UInt32) :
    (((machine.run new counters).checkAndAccept counter).1 = true ↔
        counter ∉ accepted counters ∧
          (Window.highest (acceptedSet counters) : ℤ) - 64 < counter.toNat) ∧
      (((machine.run new counters).checkAndAccept counter).1 = false →
        ((machine.run new counters).checkAndAccept counter).2.highest =
            (machine.run new counters).highest ∧
          ((machine.run new counters).checkAndAccept counter).2.bitmap =
            (machine.run new counters).bitmap) := by
  obtain ⟨answer, _, refused⟩ := (refines_accepted counters).checkAndAccept counter
  have member : counter.toNat ∈ acceptedSet counters ↔ counter ∈ accepted counters := by
    rw [acceptedSet, List.mem_toFinset, List.mem_map]
    constructor
    · rintro ⟨other, inside, same⟩
      rwa [← UInt32.toNat_inj.mp same]
    · exact fun inside => ⟨counter, inside, rfl⟩
  refine ⟨?_, fun not => ?_⟩
  · rw [answer, Window.Accepts, member]
    refine and_congr_right fun _ => ?_
    omega
  · rw [show ((machine.run new counters).checkAndAccept counter).2 = _ from refused not]
    exact ⟨rfl, rfl⟩

/-- At both edges of the window: 63 behind the highest is still accepted, 64 is not. -/
example : machine.outputs new [100, 37, 36, 100, 200, 137] = [true, true, false, false, true, true]
    := by decide +kernel

end ReplayFilter

end VoiceChat
