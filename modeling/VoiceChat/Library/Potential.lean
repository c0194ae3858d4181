import Mathlib.Algebra.BigOperators.Group.List.Basic
import Mathlib.Algebra.Order.Monoid.Defs
import VoiceChat.Library.Machine

/-!
# Paying for what happens from a potential

A potential is a value of the states of a machine. Every input brings in a gain, and
some steps have a price. Where the potential pays for every such step out of what it
holds and gains, the price of a whole run is paid from the potential at the start and
all gains (`amortized`): so these steps can not come more often than the gains allow.
-/

set_option autoImplicit false

namespace VoiceChat

namespace Machine

variable {σ ι ο R : Type*} [AddCommMonoid R] [PartialOrder R] [IsOrderedAddMonoid R]
  (M : Machine σ ι ο)

/-- **Amortised cost.** Where each step pays its price from the potential and its gain,
so does a run. -/
theorem amortized {P : σ → ι → Prop} [∀ s i, Decidable (P s i)] {A : ι → Prop}
    (potential : σ → R) (gain : ι → R) (price : R)
    (pays : ∀ s i, A i → (if P s i then price else 0) + potential (M.step s i).1 ≤
      potential s + gain i) (s : σ) {inputs : List ι} (admitted : ∀ i ∈ inputs, A i) :
    M.count P s inputs • price + potential (M.run s inputs) ≤
      potential s + (inputs.map gain).sum := by
  induction inputs generalizing s with
  | nil => simp [count]
  | cons i rest ih =>
    have first := pays s i (admitted i List.mem_cons_self)
    have later := ih (M.step s i).1 fun i' member => admitted i' (List.mem_cons_of_mem i member)
    have priced : (if P s i then 1 else 0) • price = if P s i then price else 0 := by
      split_ifs
      · exact one_nsmul price
      · exact zero_nsmul price
    rw [count, add_nsmul, priced, run_cons, List.map_cons, List.sum_cons, add_assoc]
    calc (if P s i then price else 0) +
          (M.count P (M.step s i).1 rest • price + potential (M.run (M.step s i).1 rest))
        ≤ (if P s i then price else 0) + (potential (M.step s i).1 + (rest.map gain).sum) :=
          add_le_add_right later _
      _ = ((if P s i then price else 0) + potential (M.step s i).1) + (rest.map gain).sum :=
          (add_assoc ..).symm
      _ ≤ (potential s + gain i) + (rest.map gain).sum := add_le_add_left first _
      _ = potential s + (gain i + (rest.map gain).sum) := add_assoc ..

end Machine

end VoiceChat
