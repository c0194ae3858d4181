import Mathlib.Algebra.Group.Nat.Defs
import Mathlib.Data.List.Basic
import Mathlib.Data.List.Induction
import Mathlib.Data.Nat.Basic

/-!
# Byte strings

Big-endian numbers of a fixed width, and reading a fixed number of bytes off the
front of a byte string. Both are given with their round trips: a number encoded
and decoded is itself when it fits the width, bytes decoded and encoded are
themselves, and what is read off the front is exactly what was put there.
-/

set_option autoImplicit false

namespace VoiceChat

abbrev Bytes := List UInt8

theorem max_eq_ite (a b : UInt8) : max a b = if a ≤ b then b else a := rfl

instance lawfulOrderMax_uint8 : Std.LawfulOrderMax UInt8 := by
  refine Std.LawfulOrderMax.of_max_le_iff (fun a b c => ?_) fun a b => ?_
  · rw [max_eq_ite]
    split_ifs with less
    · exact ⟨fun le => ⟨UInt8.le_trans less le, le⟩, And.right⟩
    · have greater := (UInt8.le_total a b).resolve_left less
      exact ⟨fun le => ⟨le, UInt8.le_trans greater le⟩, And.left⟩
  · rw [max_eq_ite]
    split_ifs
    · exact Or.inr rfl
    · exact Or.inl rfl

/-! ## Big-endian numbers -/

/-- The low `width` bytes of a number, most significant first. -/
def bigEndian : ℕ → ℕ → Bytes
  | 0, _ => []
  | width + 1, x => bigEndian width (x / 256) ++ [UInt8.ofNat (x % 256)]

/-- The number that bytes spell, most significant first. -/
def ofBigEndian (bytes : Bytes) : ℕ :=
  bytes.foldl (fun x b => x * 256 + b.toNat) 0

@[simp] theorem length_bigEndian (width x : ℕ) : (bigEndian width x).length = width := by
  induction width generalizing x with
  | zero => rfl
  | succ width ih => rw [bigEndian, List.length_append, ih, List.length_singleton]

theorem ofBigEndian_append_singleton (bytes : Bytes) (b : UInt8) :
    ofBigEndian (bytes ++ [b]) = ofBigEndian bytes * 256 + b.toNat := by
  simp [ofBigEndian]

/-- A number that fits the width is read back. -/
theorem ofBigEndian_bigEndian {width x : ℕ} (fits : x < 256 ^ width) :
    ofBigEndian (bigEndian width x) = x := by
  induction width generalizing x with
  | zero =>
      rw [Nat.pow_zero, Nat.lt_one_iff] at fits
      rw [fits]
      rfl
  | succ width ih =>
      have high : x / 256 < 256 ^ width := by
        rw [Nat.pow_succ] at fits
        exact Nat.div_lt_of_lt_mul (by rwa [Nat.mul_comm] at fits)
      have low : (UInt8.ofNat (x % 256)).toNat = x % 256 :=
        UInt8.toNat_ofNat_of_lt' (Nat.mod_lt x (by decide))
      rw [bigEndian, ofBigEndian_append_singleton, ih high, low]
      omega

/-- Bytes are spelled again by the number they spell. -/
theorem bigEndian_ofBigEndian (bytes : Bytes) :
    bigEndian bytes.length (ofBigEndian bytes) = bytes := by
  induction bytes using List.reverseRecOn with
  | nil => rfl
  | append_singleton bytes b ih =>
      have low := b.toNat_lt
      have high : (ofBigEndian bytes * 256 + b.toNat) / 256 = ofBigEndian bytes := by omega
      have rest : (ofBigEndian bytes * 256 + b.toNat) % 256 = b.toNat := by omega
      rw [List.length_append, List.length_singleton, bigEndian, ofBigEndian_append_singleton,
        high, rest, ih, UInt8.ofNat_toNat]

theorem ofBigEndian_lt (bytes : Bytes) : ofBigEndian bytes < 256 ^ bytes.length := by
  induction bytes using List.reverseRecOn with
  | nil => exact Nat.one_pos
  | append_singleton bytes b ih =>
      have low := b.toNat_lt
      rw [List.length_append, List.length_singleton, ofBigEndian_append_singleton, Nat.pow_succ]
      omega

/-- A 16-bit number as two bytes. -/
def be16 (x : UInt16) : Vector UInt8 2 := ⟨(bigEndian 2 x.toNat).toArray, by simp⟩

/-- A 32-bit number as four bytes. -/
def be32 (x : UInt32) : Vector UInt8 4 := ⟨(bigEndian 4 x.toNat).toArray, by simp⟩

def ofBe16 (bytes : Vector UInt8 2) : UInt16 := UInt16.ofNat (ofBigEndian bytes.toList)

def ofBe32 (bytes : Vector UInt8 4) : UInt32 := UInt32.ofNat (ofBigEndian bytes.toList)

@[simp] theorem ofBe16_be16 (x : UInt16) : ofBe16 (be16 x) = x := by
  have spelled : ofBigEndian (be16 x).toList = x.toNat :=
    ofBigEndian_bigEndian x.toNat_lt
  rw [ofBe16, spelled, UInt16.ofNat_toNat]

@[simp] theorem ofBe32_be32 (x : UInt32) : ofBe32 (be32 x) = x := by
  have spelled : ofBigEndian (be32 x).toList = x.toNat :=
    ofBigEndian_bigEndian x.toNat_lt
  rw [ofBe32, spelled, UInt32.ofNat_toNat]

@[simp] theorem be16_ofBe16 (bytes : Vector UInt8 2) : be16 (ofBe16 bytes) = bytes := by
  have length : bytes.toList.length = 2 := bytes.length_toList
  have bound := ofBigEndian_lt bytes.toList
  have spelled := bigEndian_ofBigEndian bytes.toList
  rw [length] at bound spelled
  have number : (ofBe16 bytes).toNat = ofBigEndian bytes.toList :=
    UInt16.toNat_ofNat_of_lt' bound
  apply Vector.toList_inj.mp
  change bigEndian 2 (ofBe16 bytes).toNat = bytes.toList
  rw [number, spelled]

@[simp] theorem be32_ofBe32 (bytes : Vector UInt8 4) : be32 (ofBe32 bytes) = bytes := by
  have length : bytes.toList.length = 4 := bytes.length_toList
  have bound := ofBigEndian_lt bytes.toList
  have spelled := bigEndian_ofBigEndian bytes.toList
  rw [length] at bound spelled
  have number : (ofBe32 bytes).toNat = ofBigEndian bytes.toList :=
    UInt32.toNat_ofNat_of_lt' bound
  apply Vector.toList_inj.mp
  change bigEndian 4 (ofBe32 bytes).toNat = bytes.toList
  rw [number, spelled]

theorem be16_inj {x y : UInt16} : be16 x = be16 y ↔ x = y :=
  ⟨fun same => by rw [← ofBe16_be16 x, same, ofBe16_be16], fun same => by rw [same]⟩

theorem be32_inj {x y : UInt32} : be32 x = be32 y ↔ x = y :=
  ⟨fun same => by rw [← ofBe32_be32 x, same, ofBe32_be32], fun same => by rw [same]⟩

/-! ## Short byte arrays -/

def twoBytes (a b : UInt8) : Vector UInt8 2 := #v[a, b]

/-- A byte array of length two is its two bytes. -/
theorem vector_two (v : Vector UInt8 2) : ∃ a b, v = twoBytes a b := by
  obtain ⟨⟨bytes⟩, size⟩ := v
  match bytes, size with
  | [a, b], _ => exact ⟨a, b, rfl⟩

def fourBytes (a b c d : UInt8) : Vector UInt8 4 := #v[a, b, c, d]

/-- A byte array of length four is its four bytes. -/
theorem vector_four (v : Vector UInt8 4) : ∃ a b c d, v = fourBytes a b c d := by
  obtain ⟨⟨bytes⟩, size⟩ := v
  match bytes, size with
  | [a, b, c, d], _ => exact ⟨a, b, c, d, rfl⟩

/-! ## Reading off the front -/

/-- The first `n` bytes and the rest, when there are that many. -/
def splitVector (n : ℕ) (bytes : Bytes) : Option (Vector UInt8 n × Bytes) :=
  if enough : n ≤ bytes.length then
    some (⟨(bytes.take n).toArray, by simpa using Nat.min_eq_left enough⟩, bytes.drop n)
  else
    none

@[simp] theorem splitVector_append {n : ℕ} (front : Vector UInt8 n) (rest : Bytes) :
    splitVector n (front.toList ++ rest) = some (front, rest) := by
  have length : front.toList.length = n := front.length_toList
  have enough : n ≤ (front.toList ++ rest).length := by simp
  rw [splitVector, dif_pos enough]
  congr 2
  · apply Vector.toList_inj.mp
    simp [Vector.toList]
  · rw [List.drop_append_of_le_length (Nat.le_of_eq length.symm), List.drop_eq_nil_of_le
      (Nat.le_of_eq length), List.nil_append]

/-- What is read off the front is what was put there. -/
theorem splitVector_eq_some {n : ℕ} {bytes rest : Bytes} {front : Vector UInt8 n} :
    splitVector n bytes = some (front, rest) ↔ bytes = front.toList ++ rest := by
  constructor
  · intro split
    unfold splitVector at split
    split_ifs at split with enough
    cases split
    exact (List.take_append_drop n bytes).symm
  · rintro rfl
    exact splitVector_append front rest

theorem splitVector_eq_none {n : ℕ} {bytes : Bytes} :
    splitVector n bytes = none ↔ bytes.length < n := by
  unfold splitVector
  split_ifs with enough
  · exact iff_of_false (by rintro ⟨⟩) (Nat.not_lt.mpr enough)
  · exact iff_of_true rfl (Nat.lt_of_not_le enough)

end VoiceChat
