import Mathlib.Data.Finset.Card
import Mathlib.Data.Finset.Image
import Mathlib.Order.Interval.Finset.Nat

/-!
# A bounded set with a moving position

Items wait at distances ahead of a position. In each round one item arrives at a
fixed distance, the lag, if there is room for it; the item at the position is
looked for and leaves; and everything comes one closer.

The lag is never absorbed. Every round from some point on finds its item exactly
when the lag and the items beyond the arrivals fit together below the capacity
(`Waiting.playsFrom_iff`).
-/

set_option autoImplicit false

namespace VoiceChat

/-- The distances of the waiting items from the position, and what one round
does to them with room for `capacity` items: an item at distance `lag` arrives,
the item at distance zero leaves, and the rest move one closer. -/
abbrev Waiting := Finset ℕ

namespace Waiting

variable (capacity lag : ℕ)

/-- The arrival takes a place when there is one. -/
def arrive (W : Waiting) : Waiting :=
  if lag ∈ W ∨ capacity ≤ W.card then W else insert lag W

/-- The position moves on by one. -/
def advance (W : Waiting) : Waiting := (W.erase 0).image Nat.pred

/-- The distances after a number of rounds. -/
def rounds (W : Waiting) : ℕ → Waiting
  | 0 => W
  | k + 1 => ((rounds W k).arrive capacity lag).advance

/-- In every round from the given one on, the item at the position is there. -/
def PlaysFrom (W : Waiting) (first : ℕ) : Prop :=
  ∀ k, first ≤ k → 0 ∈ (W.rounds capacity lag k).arrive capacity lag

variable {capacity lag}

theorem mem_advance {W : Waiting} {x : ℕ} : x ∈ W.advance ↔ x + 1 ∈ W := by
  simp only [advance, Finset.mem_image, Finset.mem_erase]
  constructor
  · rintro ⟨y, ⟨nonzero, member⟩, rfl⟩
    rwa [Nat.pred_eq_sub_one, Nat.sub_add_cancel (Nat.pos_of_ne_zero nonzero)]
  · intro member
    exact ⟨x + 1, ⟨Nat.succ_ne_zero x, member⟩, rfl⟩

theorem subset_arrive (W : Waiting) : W ⊆ W.arrive capacity lag := by
  unfold arrive
  split_ifs
  · exact Finset.Subset.refl W
  · exact Finset.subset_insert lag W

theorem arrive_nonempty (positive : 0 < capacity) (W : Waiting) :
    (W.arrive capacity lag).Nonempty := by
  unfold arrive
  split_ifs with kept
  · rcases kept with member | full
    · exact ⟨lag, member⟩
    · exact Finset.card_pos.mp (by omega)
  · exact Finset.insert_nonempty lag W

theorem mem_arrive_of_ne {W : Waiting} {x : ℕ} (different : x ≠ lag) :
    x ∈ W.arrive capacity lag ↔ x ∈ W := by
  unfold arrive
  split_ifs
  · rfl
  · simp [different]

/-- With room for it, the arrival is there. -/
theorem lag_mem_arrive {W : Waiting} (room : W.card < capacity) : lag ∈ W.arrive capacity lag := by
  unfold arrive
  split_ifs with kept
  · exact kept.resolve_right (Nat.not_le.mpr room)
  · exact Finset.mem_insert_self lag W

theorem card_arrive_le {W : Waiting} (bound : W.card ≤ capacity) :
    (W.arrive capacity lag).card ≤ capacity := by
  unfold arrive
  split_ifs with kept
  · exact bound
  · push Not at kept
    exact (Finset.card_insert_le lag W).trans kept.2

theorem card_advance_le (W : Waiting) : W.advance.card ≤ W.card :=
  Finset.card_image_le.trans (Finset.card_le_card (Finset.erase_subset 0 W))

theorem card_rounds_le {W : Waiting} (bound : W.card ≤ capacity) (k : ℕ) :
    (W.rounds capacity lag k).card ≤ capacity := by
  induction k with
  | zero => exact bound
  | succ k ih => exact (card_advance_le _).trans (card_arrive_le ih)

/-- The items that lie beyond the arrivals. -/
def beyond (lag : ℕ) (W : Waiting) : Waiting := W.filter (lag ≤ ·)

theorem card_le_lag_add_beyond (lag : ℕ) (W : Waiting) : W.card ≤ lag + (W.beyond lag).card := by
  have near : (W.filter (· < lag)).card ≤ lag := by
    have inside : W.filter (· < lag) ⊆ Finset.range lag := fun x member =>
      Finset.mem_range.mpr (Finset.mem_filter.mp member).2
    simpa using Finset.card_le_card inside
  have split := Finset.card_filter_add_card_filter_not (s := W) (· < lag)
  simp only [not_lt] at split
  rw [beyond]
  omega

/-- A round brings no item beyond the arrivals. -/
theorem card_beyond_round_le (W : Waiting) :
    (((W.arrive capacity lag).advance).beyond lag).card ≤ (W.beyond lag).card := by
  have inside : ((W.arrive capacity lag).advance).beyond lag ⊆ (W.beyond lag).image Nat.pred := by
    intro x member
    obtain ⟨moved, far⟩ := Finset.mem_filter.mp member
    have older : x + 1 ∈ W := (mem_arrive_of_ne (by omega)).mp (mem_advance.mp moved)
    exact Finset.mem_image.mpr ⟨x + 1, Finset.mem_filter.mpr ⟨older, by omega⟩, rfl⟩
  exact (Finset.card_le_card inside).trans Finset.card_image_le

/-- After `k` rounds with room for the lag, the last arrivals fill the distances
just below it. -/
theorem rounds_filled {W : Waiting} (room : lag + (W.beyond lag).card < capacity) (k : ℕ) :
    ((W.rounds capacity lag k).beyond lag).card ≤ (W.beyond lag).card ∧
      ∀ x < lag, lag ≤ x + k → x ∈ W.rounds capacity lag k := by
  induction k with
  | zero => exact ⟨Nat.le_refl _, fun x below reached => absurd reached (by omega)⟩
  | succ k ih =>
      obtain ⟨few, filled⟩ := ih
      refine ⟨(card_beyond_round_le _).trans few, fun x below reached => mem_advance.mpr ?_⟩
      by_cases newest : x + 1 = lag
      · rw [newest]
        have size := card_le_lag_add_beyond lag (W.rounds capacity lag k)
        exact lag_mem_arrive (by omega)
      · exact subset_arrive _ (filled (x + 1) (by omega) (by omega))

/-- What is at the position `i` rounds later was at distance `i` before, or was
the arrival of that round. -/
theorem mem_arrive_of_later {W : Waiting} (start i : ℕ) :
    ∀ x, x + i ≤ lag → x ∈ (W.rounds capacity lag (start + i)).arrive capacity lag →
      x + i ∈ (W.rounds capacity lag start).arrive capacity lag := by
  induction i with
  | zero => exact fun x _ member => member
  | succ i ih =>
      intro x bound member
      have older := (mem_arrive_of_ne (by omega)).mp member
      have := ih (x + 1) (by omega) (mem_advance.mp older)
      rwa [show x + 1 + i = x + (i + 1) by omega] at this

/-- An item keeps coming closer until it is due. -/
theorem mem_rounds_of_mem {W : Waiting} {x : ℕ} (member : x ∈ W) (k : ℕ) (early : k ≤ x) :
    x - k ∈ W.rounds capacity lag k := by
  induction k with
  | zero => exact member
  | succ k ih =>
      have : x - k ∈ (W.rounds capacity lag k).arrive capacity lag := subset_arrive _ (ih (by omega))
      refine mem_advance.mpr ?_
      rwa [show x - (k + 1) + 1 = x - k by omega]

/-- **When every late round plays.** Let the items beyond the arrivals be so far
away that they are not due before round `first`. Then every round from `first`
on plays exactly when the lag and these items fit below the capacity. -/
theorem playsFrom_iff {W : Waiting} {first : ℕ} (bound : W.card ≤ capacity)
    (late : lag ≤ first) (far : ∀ x ∈ W, lag ≤ x → first + capacity < x) :
    W.PlaysFrom capacity lag first ↔ lag + (W.beyond lag).card < capacity := by
  constructor
  · intro plays
    by_contra full
    -- every distance up to the lag is taken when round `first` looks for zero
    have taken : ∀ i ≤ lag, i ∈ (W.rounds capacity lag first).arrive capacity lag := by
      intro i below
      have : 0 + i ∈ (W.rounds capacity lag first).arrive capacity lag :=
        mem_arrive_of_later first i 0 (by omega) (plays (first + i) (Nat.le_add_right _ _))
      rwa [Nat.zero_add] at this
    have size : ((W.rounds capacity lag first).arrive capacity lag).card ≤ capacity :=
      card_arrive_le (card_rounds_le bound first)
    rcases Nat.lt_or_ge lag capacity with small | large
    · have near : Finset.range (lag + 1) ⊆ (W.rounds capacity lag first).arrive capacity lag :=
        fun i member => taken i (Nat.lt_succ_iff.mp (Finset.mem_range.mp member))
      have old : (W.beyond lag).image (· - first) ⊆
          (W.rounds capacity lag first).arrive capacity lag := by
        intro y member
        obtain ⟨x, inside, rfl⟩ := Finset.mem_image.mp member
        obtain ⟨inW, above⟩ := Finset.mem_filter.mp inside
        have := far x inW above
        exact subset_arrive _ (mem_rounds_of_mem inW first (by omega))
      have apart : Disjoint (Finset.range (lag + 1)) ((W.beyond lag).image (· - first)) := by
        rw [Finset.disjoint_left]
        intro i low member
        obtain ⟨x, inside, rfl⟩ := Finset.mem_image.mp member
        obtain ⟨inW, above⟩ := Finset.mem_filter.mp inside
        have := far x inW above
        have := Finset.mem_range.mp low
        omega
      have count : ((W.beyond lag).image (· - first)).card = (W.beyond lag).card := by
        refine Finset.card_image_of_injOn ?_
        intro x inside y inside' same
        have hx := Finset.mem_filter.mp inside
        have hy := Finset.mem_filter.mp inside'
        have := far x hx.1 hx.2
        have := far y hy.1 hy.2
        have same' : x - first = y - first := same
        omega
      have both := Finset.card_le_card (Finset.union_subset near old)
      rw [Finset.card_union_of_disjoint apart, count, Finset.card_range] at both
      omega
    · have near : Finset.range (capacity + 1) ⊆
          (W.rounds capacity lag first).arrive capacity lag := by
        intro i member
        have := Finset.mem_range.mp member
        exact taken i (by omega)
      have both := Finset.card_le_card near
      rw [Finset.card_range] at both
      omega
  · intro room k later
    obtain ⟨few, filled⟩ := rounds_filled room k
    rcases Nat.eq_zero_or_pos lag with none | some
    · have size := card_le_lag_add_beyond lag (W.rounds capacity lag k)
      have : lag ∈ (W.rounds capacity lag k).arrive capacity lag := lag_mem_arrive (by omega)
      rwa [none] at this ⊢
    · exact subset_arrive _ (filled 0 some (by omega))

end Waiting

end VoiceChat
