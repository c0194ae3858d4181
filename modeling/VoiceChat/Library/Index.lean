import VoiceChat.Library.HashMap

/-!
# Indexed tables

A table of values by key, and next to it an index that finds the key of a value by
one of its fields. The index is right when the two are inverse to each other: it
gives a key for a field exactly when the table has a value with that field under
that key. It can only be right when no two values share the field.

Writing one value is two steps, taking the key out of the index and entering it
under its new field, and the result is right exactly when no value under another
key has that field (`Indexes.write_iff`).
-/

set_option autoImplicit false

namespace VoiceChat

namespace HashMap

universe u v w

variable {K : Type u} {V : Type v} {A : Type w} [DecidableEq K] [DecidableEq A]

/-- The index and the table are inverse to each other. -/
def Indexes (field : V → A) (index : HashMap A K) (table : HashMap K V) : Prop :=
  ∀ a k, index.lookup a = some k ↔ ∃ v, table.lookup k = some v ∧ field v = a

/-- The index knows every key but one. -/
def IndexesWithout (field : V → A) (index : HashMap A K) (table : HashMap K V) (k : K) : Prop :=
  ∀ a k', index.lookup a = some k' ↔ k' ≠ k ∧ ∃ v, table.lookup k' = some v ∧ field v = a

variable {field : V → A} {index : HashMap A K} {table : HashMap K V}

theorem indexes_empty : Indexes field (∅ : HashMap A K) (∅ : HashMap K V) := by
  intro a k
  constructor
  · intro found
    cases found
  · rintro ⟨v, found, _⟩
    cases found

namespace Indexes

/-- Changing values without changing their fields keeps the index right. -/
theorem mapValues (indexes : Indexes field index table) {f : V → V}
    (same : ∀ v, field (f v) = field v) : Indexes field index (table.mapValues f) := by
  intro a k
  rw [indexes a k, lookup_mapValues]
  constructor
  · rintro ⟨v, found, rfl⟩
    exact ⟨f v, by rw [found, Option.map_some], same v⟩
  · rintro ⟨v', found, rfl⟩
    obtain ⟨v, stored, rfl⟩ := Option.map_eq_some_iff.mp found
    exact ⟨v, stored, (same v).symm⟩

/-- An index does not know a key that is not in the table. -/
theorem without_of_absent (indexes : Indexes field index table) {k : K}
    (absent : table.lookup k = none) : IndexesWithout field index table k := by
  intro a k'
  rw [indexes a k']
  refine ⟨?_, And.right⟩
  rintro ⟨v, found, named⟩
  refine ⟨fun same => ?_, v, found, named⟩
  rw [same, absent] at found
  cases found

/-- Erasing the field of a value takes its key out of the index. -/
theorem without_of_erase (indexes : Indexes field index table) {k : K} {v : V}
    (stored : table.lookup k = some v) :
    IndexesWithout field (index.erase (field v)) table k := by
  intro a k'
  by_cases here : a = field v
  · subst here
    rw [AList.lookup_erase]
    refine iff_of_false (fun found => by cases found) ?_
    rintro ⟨different, found⟩
    have first := (indexes _ k').mpr found
    rw [(indexes _ k).mpr ⟨v, stored, rfl⟩] at first
    cases first
    exact different rfl
  · rw [AList.lookup_erase_ne here, indexes a k']
    refine ⟨?_, And.right⟩
    rintro ⟨v', found, named⟩
    refine ⟨fun same => ?_, v', found, named⟩
    rw [same, stored] at found
    cases found
    exact here named.symm

end Indexes

/-- **Writing a value keeps the index right exactly when no value under another
key has its field.** -/
theorem IndexesWithout.write_iff {k : K} (known : IndexesWithout field index table k) (v : V) :
    Indexes field (index.insert (field v) k) (table.insert k v) ↔
      ∀ k' v', k' ≠ k → table.lookup k' = some v' → field v' ≠ field v := by
  constructor
  · intro indexes k' v' different stored clash
    have found := (indexes (field v) k').mpr
      ⟨v', by rw [lookup_insert, if_neg different, stored], clash⟩
    rw [lookup_insert, if_pos rfl] at found
    cases found
    exact different rfl
  · intro apart a k'
    rw [lookup_insert, lookup_insert]
    by_cases here : a = field v
    · rw [if_pos here]
      constructor
      · intro found
        cases found
        exact ⟨v, by rw [if_pos rfl], here.symm⟩
      · rintro ⟨v', stored, named⟩
        split_ifs at stored with same
        · rw [same]
        · exact absurd (named.trans here) (apart k' v' same stored)
    · rw [if_neg here, known a k']
      by_cases same : k' = k
      · refine iff_of_false (fun found => found.1 same) ?_
        rintro ⟨v', stored, named⟩
        rw [if_pos same] at stored
        cases stored
        exact here named.symm
      · rw [if_neg same]
        exact and_iff_right same

end HashMap

end VoiceChat
