import Mathlib.Data.Finset.Lattice.Fold
import Mathlib.Order.Lattice.Nat
import VoiceChat.Library.Machine

/-!
# Sliding windows

A filter for numbers that are to be accepted once. It remembers the set of all
numbers it has accepted; it accepts a number that is not among them and lies less
than a fixed width behind the largest one. This is what a filter of bounded size
has to look like from outside.
-/

set_option autoImplicit false

namespace VoiceChat

namespace Window

/-- The largest accepted number, zero when there is none. -/
def highest (accepted : Finset ℕ) : ℕ := accepted.sup id

/-- The number is accepted: it was not before, and is inside the window. -/
def Accepts (width : ℕ) (accepted : Finset ℕ) (x : ℕ) : Prop :=
  x ∉ accepted ∧ highest accepted < x + width

instance (width : ℕ) (accepted : Finset ℕ) (x : ℕ) : Decidable (Accepts width accepted x) :=
  inferInstanceAs (Decidable (_ ∧ _))

/-- The accepted numbers after one was offered. -/
def offer (width : ℕ) (accepted : Finset ℕ) (x : ℕ) : Finset ℕ :=
  if Accepts width accepted x then insert x accepted else accepted

/-- The filter as a machine. It puts out whether it accepts. -/
def machine (width : ℕ) : Machine (Finset ℕ) ℕ Bool where
  step accepted x := (offer width accepted x, [decide (Accepts width accepted x)])

@[simp] theorem highest_insert (accepted : Finset ℕ) (x : ℕ) :
    highest (insert x accepted) = max (highest accepted) x := by
  rw [highest, Finset.sup_insert, highest]
  exact max_comm ..

end Window

end VoiceChat
