import Mathlib.Data.List.Flatten
import Mathlib.Data.Nat.Basic
import VoiceChat.Library.Machine

/-!
# Streams cut into blocks

A stream comes in pieces of any size and is worked on in blocks of one size. What does
not fill a block yet is kept. However the stream was cut into pieces, the blocks are
the same ones (`cutter_eq`), so a machine that is fed with the blocks does not see the
pieces.
-/

set_option autoImplicit false

namespace VoiceChat

universe u

variable {α : Type u}

/-- So many blocks from the front of a list. -/
def takeBlocks (size : ℕ) : ℕ → List α → List (List α)
  | 0, _ => []
  | count + 1, xs => xs.take size :: takeBlocks size count (xs.drop size)

/-- Cut off blocks while there is a whole one: the blocks, and what is left. -/
def cut (size : ℕ) (xs : List α) : List (List α) × List α :=
  (takeBlocks size (xs.length / size) xs, xs.drop (size * (xs.length / size)))

variable {size : ℕ} {xs : List α}

/-- The loop ends when less than a block is left. -/
theorem cut_of_lt (less : xs.length < size) : cut size xs = ([], xs) := by
  rw [cut, Nat.div_eq_of_lt less, Nat.mul_zero, List.drop_zero]
  rfl

/-- As long as there is a block, the loop takes it off and goes on with the rest. -/
theorem cut_of_le (positive : 0 < size) (enough : size ≤ xs.length) :
    cut size xs = (xs.take size :: (cut size (xs.drop size)).1, (cut size (xs.drop size)).2) := by
  have count : xs.length / size = (xs.drop size).length / size + 1 := by
    rw [List.length_drop, ← Nat.div_eq_sub_div positive enough]
  rw [cut, count, takeBlocks, cut, List.drop_drop, Nat.mul_succ, Nat.add_comm]

/-- The loop on a block with something after it. -/
theorem cut_block_append (positive : 0 < size) {block : List α} (whole : block.length = size) :
    cut size (block ++ xs) = (block :: (cut size xs).1, (cut size xs).2) := by
  rw [cut_of_le positive (by rw [List.length_append]; omega), ← whole, List.take_left,
    List.drop_left]

theorem cut_of_length_eq (positive : 0 < size) (whole : xs.length = size) :
    cut size xs = ([xs], []) := by
  have none : cut size ([] : List α) = ([], []) := cut_of_lt positive
  have block : cut size (xs ++ []) = _ := cut_block_append positive whole
  rwa [List.append_nil, none] at block

/-- Blocks with less than a block after them are cut where they are. -/
theorem cut_flatten_append (positive : 0 < size) {blocks : List (List α)}
    (whole : ∀ block ∈ blocks, block.length = size) (less : xs.length < size) :
    cut size (blocks.flatten ++ xs) = (blocks, xs) := by
  induction blocks with
  | nil => exact cut_of_lt less
  | cons block rest ih =>
    have tail := ih fun block member => whole block (List.mem_cons_of_mem _ member)
    rw [List.flatten_cons, List.append_assoc,
      cut_block_append positive (whole block List.mem_cons_self), tail]

/-- What the loop does to a list. -/
theorem cut_spec (positive : 0 < size) (xs : List α) :
    (cut size xs).1.flatten ++ (cut size xs).2 = xs ∧
      (∀ block ∈ (cut size xs).1, block.length = size) ∧ (cut size xs).2.length < size := by
  induction length : xs.length using Nat.strong_induction_on generalizing xs with
  | _ n ih =>
    by_cases enough : size ≤ xs.length
    · obtain ⟨all, whole, less⟩ := ih (xs.drop size).length
        (by rw [List.length_drop]; omega) (xs.drop size) rfl
      rw [cut_of_le positive enough]
      refine ⟨?_, ?_, less⟩
      · rw [List.flatten_cons, List.append_assoc, all, List.take_append_drop]
      · intro block member
        rcases List.mem_cons.mp member with rfl | later
        · rw [List.length_take, Nat.min_eq_left enough]
        · exact whole block later
    · rw [cut_of_lt (Nat.lt_of_not_le enough)]
      exact ⟨rfl, fun block member => absurd member List.not_mem_nil, Nat.lt_of_not_le enough⟩

/-- **A piece more**: what is left of the first piece and the second one are cut further. -/
theorem cut_append (positive : 0 < size) (xs ys : List α) :
    cut size (xs ++ ys) =
      ((cut size xs).1 ++ (cut size ((cut size xs).2 ++ ys)).1,
        (cut size ((cut size xs).2 ++ ys)).2) := by
  obtain ⟨all, whole, _⟩ := cut_spec positive xs
  obtain ⟨all', whole', less⟩ := cut_spec positive ((cut size xs).2 ++ ys)
  have split : xs ++ ys = ((cut size xs).1 ++ (cut size ((cut size xs).2 ++ ys)).1).flatten ++
      (cut size ((cut size xs).2 ++ ys)).2 := by
    rw [List.flatten_append, List.append_assoc, all', ← List.append_assoc, all]
  conv_lhs => rw [split]
  refine cut_flatten_append positive (fun block member => ?_) less
  exact (List.mem_append.mp member).elim (whole block) (whole' block)

theorem length_flatten_of_whole {blocks : List (List α)}
    (whole : ∀ block ∈ blocks, block.length = size) :
    blocks.flatten.length = size * blocks.length := by
  rw [List.length_flatten, List.map_congr_left whole, List.map_const',
    List.sum_replicate_nat, Nat.mul_comm]

theorem dvd_length_flatten {blocks : List (List α)}
    (whole : ∀ block ∈ blocks, block.length = size) : size ∣ blocks.flatten.length :=
  ⟨blocks.length, length_flatten_of_whole whole⟩

/-- As many blocks are cut off as fit. -/
theorem length_cut (positive : 0 < size) (xs : List α) :
    xs.length = size * (cut size xs).1.length + (cut size xs).2.length := by
  obtain ⟨all, whole, _⟩ := cut_spec positive xs
  rw [← length_flatten_of_whole whole, ← List.length_append, all]

/-- What is left of a stream of whole small blocks are whole small blocks. -/
theorem dvd_length_cut {small large : ℕ} (positive : 0 < large) (divides : small ∣ large)
    (multiple : small ∣ xs.length) : small ∣ (cut large xs).2.length := by
  obtain ⟨all, whole, _⟩ := cut_spec positive xs
  have blocks : small ∣ (cut large xs).1.flatten.length :=
    Nat.dvd_trans divides (dvd_length_flatten whole)
  rw [← all, List.length_append] at multiple
  exact (Nat.dvd_add_right blocks).mp multiple

/-- There is room for one more small block in what is left. -/
theorem length_cut_add_le {small large : ℕ} (positive : 0 < large) (divides : small ∣ large)
    (multiple : small ∣ xs.length) : (cut large xs).2.length + small ≤ large := by
  obtain ⟨_, _, less⟩ := cut_spec positive xs
  have rest := dvd_length_cut positive divides multiple
  have room := Nat.le_of_dvd (Nat.sub_pos_of_lt less) (Nat.dvd_sub divides rest)
  omega

/-- **Blocks of blocks**: what does not fill a small block fills no large one, so the
large blocks are those of the whole stream. -/
theorem cut_cut {small large : ℕ} (positive : 0 < small) (divides : small ∣ large)
    (positive' : 0 < large) (xs : List α) :
    (cut large (cut small xs).1.flatten).1 = (cut large xs).1 := by
  obtain ⟨all, whole, less⟩ := cut_spec positive xs
  have room := length_cut_add_le positive' divides
    (dvd_length_flatten whole)
  have none : cut large ((cut large (cut small xs).1.flatten).2 ++ (cut small xs).2) =
      ([], (cut large (cut small xs).1.flatten).2 ++ (cut small xs).2) :=
    cut_of_lt (by rw [List.length_append]; omega)
  conv_rhs => rw [← all]
  rw [cut_append positive', none, List.append_nil]

/-- Nothing is left of whole blocks. -/
theorem cut_of_dvd (positive : 0 < size) (multiple : size ∣ xs.length) : (cut size xs).2 = [] := by
  obtain ⟨_, _, less⟩ := cut_spec positive xs
  exact List.eq_nil_of_length_eq_zero
    (Nat.eq_zero_of_dvd_of_lt (dvd_length_cut positive (Nat.dvd_refl size) multiple) less)

/-- Large blocks are cut into small ones one by one. -/
theorem cut_flatten {small : ℕ} (positive : 0 < small) {blocks : List (List α)}
    (multiples : ∀ block ∈ blocks, small ∣ block.length) (xs : List α) :
    cut small (blocks.flatten ++ xs) =
      ((blocks.flatMap fun block => (cut small block).1) ++ (cut small xs).1,
        (cut small xs).2) := by
  induction blocks with
  | nil => rfl
  | cons block rest ih =>
    rw [List.flatten_cons, List.append_assoc, cut_append positive,
      cut_of_dvd positive (multiples block List.mem_cons_self), List.nil_append,
      ih fun block member => multiples block (List.mem_cons_of_mem _ member), List.flatMap_cons,
      List.append_assoc]

/-- The small blocks of the large blocks are the first small blocks of the stream. -/
theorem flatMap_cut_prefix {small large : ℕ} (positive : 0 < small) (divides : small ∣ large)
    (positive' : 0 < large) (xs : List α) :
    ((cut large xs).1.flatMap fun block => (cut small block).1) <+: (cut small xs).1 := by
  obtain ⟨all, whole, _⟩ := cut_spec positive' xs
  have blocks := cut_flatten positive
    (fun block member => (whole block member).symm ▸ divides) (cut large xs).2
  rw [all] at blocks
  rw [blocks]
  exact List.prefix_append ..

/-! ## The loop as a machine -/

/-- The loop that cuts blocks off a stream. It keeps what does not fill a block. -/
def cutter (size : ℕ) : Machine (List α) (List α) (List α) where
  step rest piece :=
    let (blocks, rest) := cut size (rest ++ piece)
    (rest, blocks)

/-- **The pieces do not matter**: the blocks are those of the whole stream. -/
theorem cutter_eq (positive : 0 < size) {rest : List α} (less : rest.length < size)
    (pieces : List (List α)) :
    (cutter size).run rest pieces = (cut size (rest ++ pieces.flatten)).2 ∧
      (cutter size).outputs rest pieces = (cut size (rest ++ pieces.flatten)).1 := by
  induction pieces generalizing rest with
  | nil =>
    rw [List.flatten_nil, List.append_nil, cut_of_lt less]
    exact ⟨rfl, rfl⟩
  | cons piece pieces ih =>
    obtain ⟨_, _, less'⟩ := cut_spec positive (rest ++ piece)
    obtain ⟨run, outputs⟩ := ih less'
    have step : (cutter size).step rest piece =
        ((cut size (rest ++ piece)).2, (cut size (rest ++ piece)).1) := rfl
    rw [Machine.run_cons, Machine.outputs_cons, step, run, outputs, List.flatten_cons,
      ← List.append_assoc, cut_append positive (rest ++ piece)]
    exact ⟨rfl, rfl⟩

end VoiceChat
