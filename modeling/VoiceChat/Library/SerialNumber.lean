import Mathlib.Data.UInt
import Mathlib.Tactic.Abel

/-!
# Sequence numbers that wrap

Sixteen-bit sequence numbers are compared by how far one lies ahead of the
other around the circle. `ahead n s` is that distance, from `n` forward to `s`,
as a natural number below `65536`.
-/

set_option autoImplicit false

namespace VoiceChat

namespace SerialNumber

/-- How far `s` lies ahead of `n` around the circle. -/
def ahead (n s : UInt16) : Nat := (s - n).toNat

theorem ahead_lt (n s : UInt16) : ahead n s < 65536 := (s - n).toNat_lt

@[simp] theorem ahead_self (n : UInt16) : ahead n n = 0 := by
  simp [ahead]

/-- Only `n` itself lies at distance zero. -/
theorem ahead_eq_zero {n s : UInt16} : ahead n s = 0 ↔ s = n := by
  constructor
  · intro zero
    have none : s - n = 0 := UInt16.toNat_inj.mp zero
    exact sub_eq_zero.mp none
  · rintro rfl
    exact ahead_self s

/-- Distances from one number tell sequence numbers apart. -/
theorem ahead_inj {n s t : UInt16} : ahead n s = ahead n t ↔ s = t := by
  constructor
  · intro same
    have : s - n = t - n := UInt16.toNat_inj.mp same
    exact sub_left_injective this
  · rintro rfl
    rfl

/-- Moving the reference one step forward shortens every nonzero distance by
one. -/
theorem ahead_add_one {n s : UInt16} (different : s ≠ n) :
    ahead (n + 1) s + 1 = ahead n s := by
  have positive : ahead n s ≠ 0 := fun zero => different (ahead_eq_zero.mp zero)
  have bound := s.toNat_lt
  have bound' := n.toNat_lt
  simp only [ahead, UInt16.toNat_sub, UInt16.toNat_add, UInt16.reduceToNat] at *
  omega

/-- The number at a given distance. -/
theorem eq_add_ahead (n s : UInt16) : s = n + UInt16.ofNat (ahead n s) := by
  rw [ahead, UInt16.ofNat_toNat]
  exact (add_sub_cancel n s).symm

@[simp] theorem ahead_add_ofNat (n : UInt16) {d : Nat} (bound : d < 65536) :
    ahead n (n + UInt16.ofNat d) = d := by
  rw [ahead, add_sub_cancel_left]
  exact UInt16.toNat_ofNat_of_lt' bound

theorem add_one_add_ofNat (n : UInt16) (d : Nat) :
    n + 1 + UInt16.ofNat d = n + UInt16.ofNat (d + 1) := by
  rw [UInt16.ofNat_add, add_assoc, add_comm 1]
  rfl

/-- Distances around the circle add up. -/
theorem ahead_add_ahead (n t s : UInt16) : (ahead n t + ahead t s) % 65536 = ahead n s := by
  have total : s - n = (t - n) + (s - t) := by abel
  rw [ahead, ahead, ahead, total, UInt16.toNat_add]

/-- Moving both ends does not change the distance. -/
@[simp] theorem ahead_add_add (n s k : UInt16) : ahead (n + k) (s + k) = ahead n s := by
  rw [ahead, ahead, add_sub_add_right_eq_sub]

/-- How far `s` lies ahead of `n`, negative when it lies behind: the distance around
the circle the shorter way. -/
def lead (n s : UInt16) : ℤ :=
  if ahead n s < 32768 then ahead n s else (ahead n s : ℤ) - 65536

end SerialNumber

end VoiceChat
