import Mathlib.Algebra.Order.Field.Power
import Mathlib.Algebra.Order.Floor.Ring
import Mathlib.Algebra.Order.Round
import Mathlib.Data.Int.Log
import Mathlib.Data.Rat.Floor
import Mathlib.Tactic.Linarith
import Mathlib.Tactic.NormNum
import Mathlib.Tactic.Positivity
import Mathlib.Tactic.Ring

/-!
# Binary floating point

A format has so many binary digits and a smallest exponent. An arithmetic in the
format carries out each operation exactly and rounds the result to a nearest
number of the format; which one, where two are equally near, is left open. Numbers
too large for a format are not considered.

What follows from rounding to nearest is developed here: rounding is monotone and
leaves the numbers of the format alone, its error is at most half of the last digit
(`error_le`), and a quotient by one less than a power of two gives the dividend back
when it is multiplied again, although both operations round (`div_mul_cancel`).
-/

set_option autoImplicit false

namespace VoiceChat

/-- The nearest integer, and the even one of two that are equally near. -/
def roundHalfEven (x : ℚ) : ℤ :=
  let low := ⌊x⌋
  if x - low < 1 / 2 then low
  else if 1 / 2 < x - low then low + 1
  else if low % 2 = 0 then low
  else low + 1

theorem abs_roundHalfEven_sub_le (x : ℚ) : |roundHalfEven x - x| ≤ 1 / 2 := by
  have below := Int.floor_le x
  have above := Int.lt_floor_add_one x
  unfold roundHalfEven
  dsimp only
  split_ifs with less more even
  · rw [abs_sub_comm, abs_of_nonneg (sub_nonneg.mpr below)]
    exact less.le
  · rw [abs_of_nonneg] <;> push_cast <;> linarith
  · rw [abs_sub_comm, abs_of_nonneg (sub_nonneg.mpr below)]
    exact not_lt.mp more
  · rw [abs_of_nonneg] <;> push_cast <;> linarith

/-- No integer is nearer. -/
theorem abs_roundHalfEven_sub_le_abs (x : ℚ) (n : ℤ) : |roundHalfEven x - x| ≤ |n - x| := by
  by_cases same : n = roundHalfEven x
  · rw [same]
  · have apart : (1 : ℚ) ≤ |(n : ℚ) - roundHalfEven x| := by
      exact_mod_cast Int.one_le_abs (sub_ne_zero.mpr same)
    have half := abs_roundHalfEven_sub_le x
    have around := abs_sub_le (n : ℚ) x (roundHalfEven x)
    rw [abs_sub_comm x] at around
    linarith

/-- Rounding to an integer stays within an integer bound. -/
theorem abs_roundHalfEven_le {x : ℚ} {n : ℤ} (bound : |x| ≤ n) : |roundHalfEven x| ≤ n := by
  have half := abs_roundHalfEven_sub_le x
  have size := abs_sub_abs_le_abs_sub (roundHalfEven x : ℚ) x
  have less : (|roundHalfEven x| : ℚ) < n + 1 := by linarith
  exact Int.lt_add_one_iff.mp (by exact_mod_cast less)

/-- A binary floating-point format. -/
structure FloatFormat where
  /-- How many binary digits a number has. -/
  precision : ℕ
  /-- The exponent of the last digit of the smallest numbers. -/
  minExponent : ℤ
  positive : 0 < precision

namespace FloatFormat

/-- The number is an integer of so many digits times a power of two. The power of two
that is just out of reach of the digits has fewer digits at the next exponent. -/
def Representable (fmt : FloatFormat) (x : ℚ) : Prop :=
  ∃ m e : ℤ, |m| ≤ 2 ^ fmt.precision ∧ fmt.minExponent ≤ e ∧ x = m * 2 ^ e

variable {fmt : FloatFormat} {x : ℚ}

theorem Representable.neg (representable : fmt.Representable x) : fmt.Representable (-x) := by
  obtain ⟨m, e, digits, exponent, rfl⟩ := representable
  exact ⟨-m, e, by rwa [abs_neg], exponent, by push_cast; ring⟩

/-- A power of two moves the digits. -/
theorem Representable.mul_two_pow (representable : fmt.Representable x) (n : ℕ) :
    fmt.Representable (x * 2 ^ n) := by
  obtain ⟨m, e, digits, exponent, rfl⟩ := representable
  refine ⟨m, e + n, digits, exponent.trans (by omega), ?_⟩
  rw [zpow_add₀ two_ne_zero, zpow_natCast, mul_assoc]

/-- Integers with few enough digits are in the format. -/
theorem representable_intCast (exponent : fmt.minExponent ≤ 0) {n : ℤ}
    (digits : |n| ≤ 2 ^ fmt.precision) : fmt.Representable n :=
  ⟨n, 0, digits, exponent, by rw [zpow_zero, mul_one]⟩

theorem representable_zero (fmt : FloatFormat) : fmt.Representable 0 :=
  ⟨0, fmt.minExponent, by rw [abs_zero]; positivity, le_rfl, by simp⟩

/-- **The spacing of a format**: from a number of the format with all its digits, another
one is at least one unit of the last digit away. -/
theorem Representable.eq_of_near {m e : ℤ} (digits : 2 ^ (fmt.precision - 1) < |m|)
    (representable : fmt.Representable x) (near : |x - m * 2 ^ e| < 2 ^ e) : x = m * 2 ^ e := by
  obtain ⟨m', e', digits', _, rfl⟩ := representable
  have unit : (0 : ℚ) < 2 ^ e := by positivity
  rcases le_or_gt e e' with coarse | fine
  · -- both are multiples of the unit
    obtain ⟨n, rfl⟩ := Int.le.dest coarse
    have multiple : (m' : ℚ) * 2 ^ (e + n) = ((m' * 2 ^ n : ℤ) : ℚ) * 2 ^ e := by
      push_cast
      rw [zpow_add₀ two_ne_zero, zpow_natCast]
      ring
    rw [multiple] at near ⊢
    rw [← sub_mul, abs_mul, abs_of_pos unit, mul_lt_iff_lt_one_left unit] at near
    have same : m' * 2 ^ n - m = 0 := Int.abs_lt_one_iff.mp (by exact_mod_cast near)
    rw [sub_eq_zero.mp same]
  · -- a number with a finer last digit is too small
    exfalso
    have small : |(m' : ℚ) * 2 ^ e'| ≤ 2 ^ (fmt.precision - 1) * 2 ^ e := by
      have power : (2 : ℚ) ^ e' ≤ 2 ^ (e - 1) :=
        zpow_le_zpow_right₀ one_le_two (Int.le_sub_one_of_lt fine)
      have split : (2 : ℚ) ^ (fmt.precision - 1) * 2 ^ e = 2 ^ fmt.precision * 2 ^ (e - 1) := by
        obtain ⟨p, precision⟩ := Nat.exists_eq_succ_of_ne_zero fmt.positive.ne'
        rw [precision, Nat.succ_sub_one, zpow_sub_one₀ two_ne_zero, pow_succ]
        ring
      rw [split, abs_mul, abs_of_pos (show (0 : ℚ) < 2 ^ e' by positivity)]
      refine mul_le_mul ?_ power (by positivity) (by positivity)
      exact_mod_cast digits'
    have large : 2 ^ (fmt.precision - 1) * 2 ^ e + 2 ^ e ≤ |(m : ℚ) * 2 ^ e| := by
      have next : ((2 : ℚ) ^ (fmt.precision - 1) + 1) ≤ |(m : ℚ)| := by
        exact_mod_cast Int.add_one_le_of_lt digits
      rw [abs_mul, abs_of_pos unit, ← add_one_mul]
      exact mul_le_mul_of_nonneg_right next unit.le
    have apart := abs_sub_abs_le_abs_sub ((m : ℚ) * 2 ^ e) (m' * 2 ^ e')
    rw [abs_sub_comm] at apart
    linarith

end FloatFormat

/-- An arithmetic of a format: the exact result of an operation is rounded to a nearest
number of the format. -/
structure Rounding (fmt : FloatFormat) where
  round : ℚ → ℚ
  representable : ∀ x, fmt.Representable (round x)
  nearest : ∀ x y, fmt.Representable y → |round x - x| ≤ |y - x|

namespace Rounding

variable {fmt : FloatFormat} (fl : Rounding fmt) {x y : ℚ}

theorem round_of_representable (representable : fmt.Representable x) : fl.round x = x := by
  have near := fl.nearest x x representable
  rw [sub_self, abs_zero] at near
  exact sub_eq_zero.mp (abs_nonpos_iff.mp near)

@[simp] theorem round_zero : fl.round 0 = 0 :=
  fl.round_of_representable fmt.representable_zero

theorem round_intCast (exponent : fmt.minExponent ≤ 0) {n : ℤ}
    (digits : |n| ≤ 2 ^ fmt.precision) : fl.round n = n :=
  fl.round_of_representable (FloatFormat.representable_intCast exponent digits)

/-- **Scaling by a power of two** and back is exact. -/
theorem scale_cancel (representable : fmt.Representable x) (n : ℕ) :
    fl.round (fl.round (x * 2 ^ n) / 2 ^ n) = x := by
  rw [fl.round_of_representable (representable.mul_two_pow n),
    mul_div_cancel_right₀ x (by positivity), fl.round_of_representable representable]

/-- Rounding keeps the order. -/
theorem round_mono : Monotone fl.round := by
  intro x y le
  by_contra less
  rw [not_le] at less
  have first := fl.nearest x (fl.round y) (fl.representable y)
  have second := fl.nearest y (fl.round x) (fl.representable x)
  rcases eq_or_lt_of_le le with rfl | strict
  · exact lt_irrefl _ less
  · rcases abs_cases (fl.round x - x) with ⟨a, _⟩ | ⟨a, _⟩ <;>
      rcases abs_cases (fl.round y - x) with ⟨b, _⟩ | ⟨b, _⟩ <;>
      rcases abs_cases (fl.round y - y) with ⟨c, _⟩ | ⟨c, _⟩ <;>
      rcases abs_cases (fl.round x - y) with ⟨d, _⟩ | ⟨d, _⟩ <;>
      rw [a, b] at first <;> rw [c, d] at second <;> linarith

/-- A bound that is in the format is kept. -/
theorem round_le (representable : fmt.Representable y) (le : x ≤ y) : fl.round x ≤ y := by
  have rounded := fl.round_mono le
  rwa [fl.round_of_representable representable] at rounded

theorem le_round (representable : fmt.Representable y) (le : y ≤ x) : y ≤ fl.round x := by
  have rounded := fl.round_mono le
  rwa [fl.round_of_representable representable] at rounded

theorem abs_round_le (representable : fmt.Representable y) (bound : |x| ≤ y) :
    |fl.round x| ≤ y := by
  obtain ⟨low, high⟩ := abs_le.mp bound
  exact abs_le.mpr ⟨fl.le_round representable.neg low, fl.round_le representable high⟩

/-- **The error of one operation** is at most half a unit of the last digit. -/
theorem error_le {e : ℤ} (exponent : fmt.minExponent ≤ e)
    (size : |x| ≤ 2 ^ fmt.precision * 2 ^ e) : |fl.round x - x| ≤ 2 ^ e / 2 := by
  have unit : (0 : ℚ) < 2 ^ e := by positivity
  have scaled : |x / 2 ^ e| ≤ 2 ^ fmt.precision := by
    rwa [abs_div, abs_of_pos unit, div_le_iff₀ unit]
  have digits : |roundHalfEven (x / 2 ^ e)| ≤ 2 ^ fmt.precision :=
    abs_roundHalfEven_le (by exact_mod_cast scaled)
  have near := fl.nearest x (roundHalfEven (x / 2 ^ e) * 2 ^ e) ⟨_, e, digits, exponent, rfl⟩
  refine near.trans ?_
  have split : (roundHalfEven (x / 2 ^ e) : ℚ) * 2 ^ e - x =
      (roundHalfEven (x / 2 ^ e) - x / 2 ^ e) * 2 ^ e := by
    rw [sub_mul, div_mul_cancel₀ x unit.ne']
  have scaledBack := mul_le_mul_of_nonneg_right (abs_roundHalfEven_sub_le (x / 2 ^ e)) unit.le
  rw [split, abs_mul, abs_of_pos unit]
  linarith

/-- A number of the format with all its digits is the only result near it: what lies
less than half a unit of its last digit away is rounded to it. -/
theorem round_eq_of_near {m e : ℤ} (digits : 2 ^ (fmt.precision - 1) < |m|)
    (representable : fmt.Representable (m * 2 ^ e)) (near : |x - m * 2 ^ e| < 2 ^ e / 2) :
    fl.round x = m * 2 ^ e := by
  refine (fl.representable x).eq_of_near digits ?_
  have rounded := fl.nearest x _ representable
  have around := abs_sub_le (fl.round x) x (m * 2 ^ e)
  rw [abs_sub_comm] at near
  rw [abs_sub_comm x] at around
  linarith

/-! ## Sums -/

/-- A sum, added up from the left. -/
def sum (xs : List ℚ) : ℚ := xs.foldl (fun sum x => fl.round (sum + x)) 0

theorem sum_append_singleton (xs : List ℚ) (x : ℚ) :
    fl.sum (xs ++ [x]) = fl.round (fl.sum xs + x) := List.foldl_append ..

/-- **The error of a sum** grows with the number of its summands, and the sum stays
within what the summands allow. -/
theorem sum_bounds {e : ℤ} {bound : ℕ} (least : fmt.minExponent ≤ 0)
    (exponent : fmt.minExponent ≤ e) (xs : List ℚ) (summands : ∀ x ∈ xs, |x| ≤ bound)
    (digits : xs.length * bound ≤ 2 ^ fmt.precision)
    (size : (xs.length * bound : ℚ) ≤ 2 ^ fmt.precision * 2 ^ e) :
    |fl.sum xs| ≤ xs.length * bound ∧ |fl.sum xs - xs.sum| ≤ xs.length * (2 ^ e / 2) := by
  induction xs using List.reverseRecOn with
  | nil => simp [sum]
  | append_singleton xs x ih =>
    have last : |x| ≤ bound := summands x (by simp)
    rw [List.length_append, List.length_singleton] at digits size ⊢
    push_cast at size ⊢
    rw [add_one_mul] at digits size
    have positive : (0 : ℚ) ≤ bound := Nat.cast_nonneg _
    obtain ⟨within, near⟩ := ih (fun x member => summands x (List.mem_append_left _ member))
      (by omega) (by linarith)
    have exact : |fl.sum xs + x| ≤ xs.length * bound + bound :=
      (abs_add_le _ _).trans (add_le_add within last)
    have whole : fmt.Representable ((xs.length * bound + bound : ℕ) : ℚ) := by
      refine fmt.representable_intCast (n := (xs.length * bound + bound : ℕ)) least ?_
      rw [Nat.abs_cast]
      exact_mod_cast digits
    push_cast at whole
    rw [sum_append_singleton, List.sum_append, List.sum_singleton, add_one_mul, add_one_mul]
    refine ⟨fl.abs_round_le whole exact, ?_⟩
    have rounded := fl.error_le exponent (exact.trans size)
    have split : fl.round (fl.sum xs + x) - (xs.sum + x) =
        (fl.sum xs - xs.sum) + (fl.round (fl.sum xs + x) - (fl.sum xs + x)) := by ring
    rw [split]
    exact (abs_add_le _ _).trans (add_le_add near rounded)

/-- Two orders of the same summands give sums that differ by the errors at most. -/
theorem abs_sum_sub_sum_le {e : ℤ} {bound : ℕ} (least : fmt.minExponent ≤ 0)
    (exponent : fmt.minExponent ≤ e) {xs ys : List ℚ} (same : xs.Perm ys)
    (summands : ∀ x ∈ xs, |x| ≤ bound) (digits : xs.length * bound ≤ 2 ^ fmt.precision)
    (size : (xs.length * bound : ℚ) ≤ 2 ^ fmt.precision * 2 ^ e) :
    |fl.sum xs - fl.sum ys| ≤ xs.length * 2 ^ e := by
  obtain ⟨_, first⟩ := fl.sum_bounds least exponent xs summands digits size
  obtain ⟨_, second⟩ := fl.sum_bounds least exponent ys
    (fun y member => summands y (same.mem_iff.mpr member)) (same.length_eq ▸ digits)
    (same.length_eq ▸ size)
  rw [← same.sum_eq, ← same.length_eq, abs_sub_comm] at second
  have around := abs_sub_le (fl.sum xs) xs.sum (fl.sum ys)
  linarith

/-! ## Quotients multiplied back -/

/-- The error of a product with a factor that was rounded. -/
theorem abs_round_div_mul_sub {m n : ℚ} (positive : 0 < n) :
    |fl.round (m / n) * n - m| = |fl.round (m / n) - m / n| * n := by
  have split : fl.round (m / n) * n - m = (fl.round (m / n) - m / n) * n := by
    rw [sub_mul, div_mul_cancel₀ m positive.ne']
  rw [split, abs_mul, abs_of_pos positive]

variable {j : ℕ}

/-- An integer between two powers of two, divided by one less than a greater power of
two and multiplied again. The error of the quotient is too small to reach the next
number. -/
theorem div_mul_cancel_of_between (exponent : fmt.minExponent ≤ -2 * fmt.precision)
    (fits : j < fmt.precision) {k m : ℕ} (above : 2 ^ k < m) (below : m < 2 ^ (k + 1))
    (within : k + 1 ≤ j) :
    fl.round (fl.round (m / (2 ^ j - 1)) * (2 ^ j - 1)) = m := by
  obtain ⟨r, precision⟩ := Nat.exists_eq_add_of_lt (show k < fmt.precision by omega)
  have positive : (0 : ℚ) < 2 ^ j - 1 :=
    sub_pos.mpr (one_lt_pow₀ one_lt_two (by omega))
  have value : (m : ℚ) = ((m * 2 ^ r : ℕ) : ℤ) * 2 ^ (-r : ℤ) := by
    push_cast
    rw [zpow_neg, zpow_natCast, mul_assoc, mul_inv_cancel₀ (by positivity), mul_one]
  have digits : 2 ^ (fmt.precision - 1) < |((m * 2 ^ r : ℕ) : ℤ)| := by
    rw [precision, Nat.add_sub_cancel, Nat.abs_cast, pow_add]
    exact_mod_cast Nat.mul_lt_mul_of_pos_right above (by positivity)
  have representable : fmt.Representable (m : ℚ) := by
    refine fmt.representable_intCast (n := m) (by omega) ?_
    rw [Nat.abs_cast]
    have larger : 2 ^ (k + 1) ≤ 2 ^ fmt.precision := Nat.pow_le_pow_right two_pos (by omega)
    exact_mod_cast (below.trans_le larger).le
  -- the quotient lies below the power of two that bounds it
  have size : |(m : ℚ) / (2 ^ j - 1)| ≤ 2 ^ fmt.precision * 2 ^ (-(r + j) : ℤ) := by
    have bound : (m : ℚ) * 2 ^ j ≤ 2 ^ (k + 1) * (2 ^ j - 1) := by
      have whole : (m : ℚ) + 1 ≤ 2 ^ (k + 1) := by exact_mod_cast below
      have larger : (2 : ℚ) ^ (k + 1) ≤ 2 ^ j := pow_le_pow_right₀ one_le_two within
      have scaled := mul_le_mul_of_nonneg_right whole (by positivity : (0 : ℚ) ≤ 2 ^ j)
      linarith
    have power : (2 : ℚ) ^ fmt.precision * 2 ^ (-(r + j) : ℤ) = 2 ^ (k + 1) / 2 ^ j := by
      rw [precision, zpow_neg, zpow_add₀ two_ne_zero, zpow_natCast, zpow_natCast]
      field_simp
      ring
    rw [power, abs_of_nonneg (by positivity), div_le_div_iff₀ positive (by positivity)]
    exact bound
  have error := fl.error_le (by omega) size
  rw [value] at representable ⊢
  refine fl.round_eq_of_near digits representable ?_
  rw [← value, fl.abs_round_div_mul_sub positive]
  calc |fl.round (m / (2 ^ j - 1)) - m / (2 ^ j - 1)| * (2 ^ j - 1)
      ≤ 2 ^ (-(r + j) : ℤ) / 2 * (2 ^ j - 1) := mul_le_mul_of_nonneg_right error positive.le
    _ < 2 ^ (-(r + j) : ℤ) / 2 * 2 ^ j := by
        refine mul_lt_mul_of_pos_left (sub_one_lt _) (by positivity)
    _ = 2 ^ (-r : ℤ) / 2 := by
        rw [neg_add, zpow_add₀ two_ne_zero, zpow_neg _ (j : ℤ), zpow_natCast]
        field_simp

/-- A power of two, divided by one less than a greater power of two and multiplied
again. The quotient has a number of the format very near. -/
theorem div_mul_cancel_of_power (exponent : fmt.minExponent ≤ -2 * fmt.precision)
    (fits : j < fmt.precision) (enough : fmt.precision + 1 < 2 * j) {k : ℕ} (within : k < j) :
    fl.round (fl.round (2 ^ k / (2 ^ j - 1)) * (2 ^ j - 1)) = 2 ^ k := by
  obtain ⟨r, precision⟩ := Nat.exists_eq_add_of_lt (show k < fmt.precision by omega)
  have positive : (0 : ℚ) < 2 ^ j - 1 :=
    sub_pos.mpr (one_lt_pow₀ one_lt_two (by omega))
  have value : (2 : ℚ) ^ k = ((2 ^ fmt.precision : ℕ) : ℤ) * 2 ^ (-(r + 1) : ℤ) := by
    push_cast
    rw [precision, zpow_neg, zpow_add₀ two_ne_zero, zpow_natCast, zpow_one, pow_succ, pow_add]
    field_simp
  have digits : 2 ^ (fmt.precision - 1) < |((2 ^ fmt.precision : ℕ) : ℤ)| := by
    rw [Nat.abs_cast]
    exact_mod_cast Nat.pow_lt_pow_right one_lt_two (Nat.sub_lt fmt.positive one_pos)
  have representable : fmt.Representable ((2 : ℚ) ^ k) := by
    rw [value]
    exact ⟨_, _, by rw [Nat.abs_cast]; push_cast; rfl, by omega, rfl⟩
  have neighbour : fmt.Representable ((2 ^ j + 1) * 2 ^ (k - 2 * j : ℤ)) := by
    refine ⟨2 ^ j + 1, k - 2 * j, ?_, by omega, by push_cast; rfl⟩
    rw [abs_of_pos (by positivity)]
    have larger : (2 : ℤ) ^ (j + 1) ≤ 2 ^ fmt.precision := pow_le_pow_right₀ one_le_two (by omega)
    have one : (1 : ℤ) ≤ 2 ^ j := one_le_pow₀ one_le_two
    rw [pow_succ] at larger
    linarith
  have split : (2 : ℚ) ^ k = 2 ^ (k - 2 * j : ℤ) * (2 ^ j * 2 ^ j) := by
    rw [zpow_sub₀ two_ne_zero, two_mul, zpow_add₀ two_ne_zero, zpow_natCast, zpow_natCast]
    field_simp
  have distance : ((2 ^ j + 1) * (2 : ℚ) ^ (k - 2 * j : ℤ) - 2 ^ k / (2 ^ j - 1)) * (2 ^ j - 1) =
      -2 ^ (k - 2 * j : ℤ) := by
    rw [sub_mul, div_mul_cancel₀ _ positive.ne', split]
    ring
  rw [value] at representable ⊢
  refine fl.round_eq_of_near digits representable ?_
  rw [← value, fl.abs_round_div_mul_sub positive]
  calc |fl.round (2 ^ k / (2 ^ j - 1)) - 2 ^ k / (2 ^ j - 1)| * (2 ^ j - 1)
      ≤ |(2 ^ j + 1) * (2 : ℚ) ^ (k - 2 * j : ℤ) - 2 ^ k / (2 ^ j - 1)| * (2 ^ j - 1) :=
        mul_le_mul_of_nonneg_right (fl.nearest _ _ neighbour) positive.le
    _ = 2 ^ (k - 2 * j : ℤ) := by
        rw [← abs_of_pos positive, ← abs_mul, abs_of_pos positive, distance, abs_neg,
          abs_of_pos (by positivity)]
    _ < 2 ^ (-(r + 2) : ℤ) := zpow_lt_zpow_right₀ one_lt_two (by omega)
    _ = 2 ^ (-(r + 1) : ℤ) / 2 := by
        rw [div_eq_mul_inv, ← zpow_sub_one₀ two_ne_zero]
        congr 1

/-- **A quotient multiplied back.** A positive integer, divided by one less than a greater
power of two and multiplied again, is itself. -/
theorem div_mul_cancel_of_pos (exponent : fmt.minExponent ≤ -2 * fmt.precision)
    (fits : j < fmt.precision) (enough : fmt.precision + 1 < 2 * j) {m : ℕ} (positive : 0 < m)
    (below : m < 2 ^ j) : fl.round (fl.round (m / (2 ^ j - 1)) * (2 ^ j - 1)) = m := by
  have low : 2 ^ Nat.log 2 m ≤ m := Nat.pow_log_le_self 2 positive.ne'
  have within : Nat.log 2 m < j := Nat.log_lt_of_lt_pow positive.ne' below
  rcases eq_or_lt_of_le low with power | above
  · rw [← power]
    push_cast
    exact fl.div_mul_cancel_of_power exponent fits enough within
  · exact fl.div_mul_cancel_of_between exponent fits above
      (Nat.lt_pow_succ_log_self one_lt_two m) within

/-- The same arithmetic on the other side of zero. -/
def mirror : Rounding fmt where
  round x := -fl.round (-x)
  representable x := (fl.representable (-x)).neg
  nearest x y representable := by
    have near := fl.nearest (-x) (-y) representable.neg
    rw [← abs_neg, ← abs_neg (y - x)]
    calc |-(-fl.round (-x) - x)| = |fl.round (-x) - -x| := by ring_nf
      _ ≤ |-y - -x| := near
      _ = |-(y - x)| := by ring_nf

/-- The same for every integer that is small enough. -/
theorem div_mul_cancel (exponent : fmt.minExponent ≤ -2 * fmt.precision)
    (fits : j < fmt.precision) (enough : fmt.precision + 1 < 2 * j) {m : ℤ}
    (bound : |m| < 2 ^ j) : fl.round (fl.round (m / (2 ^ j - 1)) * (2 ^ j - 1)) = m := by
  obtain ⟨n, rfl | rfl⟩ := m.eq_nat_or_neg
  · rcases Nat.eq_zero_or_pos n with rfl | positive
    · simp
    · rw [Nat.abs_cast] at bound
      exact fl.div_mul_cancel_of_pos exponent fits enough positive (by exact_mod_cast bound)
  · rcases Nat.eq_zero_or_pos n with rfl | positive
    · simp
    · rw [abs_neg, Nat.abs_cast] at bound
      have mirrored := fl.mirror.div_mul_cancel_of_pos exponent fits enough positive
        (by exact_mod_cast bound)
      simp only [mirror, neg_mul, neg_neg, ← neg_div] at mirrored
      push_cast
      linarith

end Rounding

/-! ## Rounding to even -/

namespace FloatFormat

variable (fmt : FloatFormat) (x : ℚ)

/-- The exponent of the last digit of the numbers around a number. -/
def lastExponent : ℤ := max fmt.minExponent (Int.log 2 |x| + 1 - fmt.precision)

variable {fmt x}

theorem abs_lt_lastExponent : |x / 2 ^ fmt.lastExponent x| < 2 ^ fmt.precision := by
  have unit : (0 : ℚ) < 2 ^ fmt.lastExponent x := by positivity
  rw [abs_div, abs_of_pos unit, div_lt_iff₀ unit]
  refine (Int.lt_zpow_succ_log_self one_lt_two |x|).trans_le ?_
  rw [Nat.cast_ofNat, ← zpow_natCast, ← zpow_add₀ two_ne_zero]
  refine zpow_le_zpow_right₀ one_le_two ?_
  have least := le_max_right fmt.minExponent (Int.log 2 |x| + 1 - fmt.precision)
  unfold lastExponent
  omega

/-- A number with a finer last digit is at most as far from zero as the power of two
below. -/
theorem abs_le_of_finer {m e : ℤ} (digits : |m| ≤ 2 ^ fmt.precision)
    (exponent : fmt.minExponent ≤ e) (fine : e < fmt.lastExponent x) :
    |(m : ℚ) * 2 ^ e| ≤ 2 ^ Int.log 2 |x| := by
  have below : e + fmt.precision ≤ Int.log 2 |x| := by
    unfold lastExponent at fine
    omega
  calc |(m : ℚ) * 2 ^ e| = |(m : ℚ)| * 2 ^ e := by
        rw [abs_mul, abs_of_pos (show (0 : ℚ) < 2 ^ e by positivity)]
    _ ≤ 2 ^ fmt.precision * 2 ^ e := by
        refine mul_le_mul_of_nonneg_right ?_ (by positivity)
        exact_mod_cast digits
    _ = 2 ^ (e + fmt.precision) := by
        rw [← zpow_natCast, ← zpow_add₀ two_ne_zero, add_comm]
    _ ≤ 2 ^ Int.log 2 |x| := zpow_le_zpow_right₀ one_le_two below

/-- No multiple of the last digit is nearer. -/
theorem abs_roundHalfEven_mul_sub_le (e n : ℤ) :
    |roundHalfEven (x / 2 ^ e) * 2 ^ e - x| ≤ |(n : ℚ) * 2 ^ e - x| := by
  have unit : (0 : ℚ) < 2 ^ e := by positivity
  have scale : ∀ n : ℤ, |(n : ℚ) * 2 ^ e - x| = |n - x / 2 ^ e| * 2 ^ e := by
    intro n
    rw [← abs_of_pos unit, ← abs_mul, abs_of_pos unit, sub_mul, div_mul_cancel₀ x unit.ne']
  rw [scale, scale]
  exact mul_le_mul_of_nonneg_right (abs_roundHalfEven_sub_le_abs _ n) unit.le

theorem abs_roundHalfEven_mul_sub_le_of_representable {y : ℚ}
    (representable : fmt.Representable y) :
    |roundHalfEven (x / 2 ^ fmt.lastExponent x) * 2 ^ fmt.lastExponent x - x| ≤ |y - x| := by
  obtain ⟨m, e, digits, exponent, rfl⟩ := representable
  rcases le_or_gt (fmt.lastExponent x) e with coarse | fine
  · obtain ⟨n, rfl⟩ := Int.le.dest coarse
    have multiple := abs_roundHalfEven_mul_sub_le (x := x) (fmt.lastExponent x) (m * 2 ^ n)
    rw [zpow_add₀ two_ne_zero, zpow_natCast, mul_comm ((2 : ℚ) ^ fmt.lastExponent x), ← mul_assoc]
    exact_mod_cast multiple
  · rcases eq_or_ne x 0 with rfl | nonzero
    · have least := abs_roundHalfEven_mul_sub_le (x := 0) (fmt.lastExponent 0) 0
      rw [Int.cast_zero, zero_mul, sub_zero (0 : ℚ), abs_zero] at least
      exact least.trans (abs_nonneg _)
    · -- the power of two below is nearer than any number with a finer last digit
      have small := abs_le_of_finer digits exponent fine
      have power : (2 : ℚ) ^ Int.log 2 |x| ≤ |x| :=
        Int.zpow_log_le_self one_lt_two (abs_pos.mpr nonzero)
      have apart := abs_sub_abs_le_abs_sub x (m * 2 ^ e)
      rw [abs_sub_comm] at apart
      have digitsPositive := fmt.positive
      obtain ⟨n, exponents⟩ : ∃ n : ℕ, Int.log 2 |x| = fmt.lastExponent x + n := by
        refine Int.le.dest ?_ |>.imp fun n same => same.symm
        unfold lastExponent at fine ⊢
        omega
      have multiple : (2 : ℚ) ^ Int.log 2 |x| = 2 ^ n * 2 ^ fmt.lastExponent x := by
        rw [exponents, zpow_add₀ two_ne_zero, zpow_natCast, mul_comm]
      rw [multiple] at small power
      rcases abs_cases x with ⟨size, _⟩ | ⟨size, _⟩
      · have least := abs_roundHalfEven_mul_sub_le (x := x) (fmt.lastExponent x) (2 ^ n)
        have distance : |(2 : ℚ) ^ n * 2 ^ fmt.lastExponent x - x| =
            x - 2 ^ n * 2 ^ fmt.lastExponent x := by
          rw [abs_sub_comm, abs_of_nonneg (by linarith)]
        push_cast at least
        linarith
      · have least := abs_roundHalfEven_mul_sub_le (x := x) (fmt.lastExponent x) (-2 ^ n)
        have distance : |-(2 : ℚ) ^ n * 2 ^ fmt.lastExponent x - x| =
            -2 ^ n * 2 ^ fmt.lastExponent x - x := abs_of_nonneg (by linarith)
        push_cast at least
        linarith

/-- What is rounded at the last digit is a number of the format. -/
theorem representable_roundHalfEven : fmt.Representable
    (roundHalfEven (x / 2 ^ fmt.lastExponent x) * 2 ^ fmt.lastExponent x) := by
  have few : |x / 2 ^ fmt.lastExponent x| ≤ ((2 ^ fmt.precision : ℤ) : ℚ) := by
    exact_mod_cast abs_lt_lastExponent.le
  exact ⟨_, _, abs_roundHalfEven_le few, le_max_left .., rfl⟩

/-- Rounding to a nearest number, and to the even one of two that are equally near. -/
def nearestEven (fmt : FloatFormat) : Rounding fmt where
  round x := roundHalfEven (x / 2 ^ fmt.lastExponent x) * 2 ^ fmt.lastExponent x
  representable _ := representable_roundHalfEven
  nearest _ _ representable := abs_roundHalfEven_mul_sub_le_of_representable representable

end FloatFormat

end VoiceChat
