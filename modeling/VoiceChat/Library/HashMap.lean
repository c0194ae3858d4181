import Mathlib.Data.List.AList
import Mathlib.Data.List.Perm.Subperm

/-!
# Hash maps

A hash map is a finite map from keys to values whose iteration order is not
specified. The map itself is Mathlib's association list with distinct keys; an
iteration order is any function that permutes the keys, chosen by the
environment each time the map is walked through.
-/

set_option autoImplicit false

namespace VoiceChat

universe u v

/-- A finite map. -/
abbrev HashMap (K : Type u) (V : Type v) : Type (max u v) := AList fun _ : K => V

/-- An order in which a hash map hands out its keys. -/
def HashOrder (K : Type u) : Type u :=
  { order : List K → List K // ∀ keys, (order keys).Perm keys }

/-- The order in which the keys are stored. -/
def HashOrder.stored (K : Type u) : HashOrder K := ⟨id, fun _ => List.Perm.refl _⟩

namespace HashMap

variable {K : Type u} {V : Type v} [DecidableEq K]

/-- How many keys the map has. -/
def size (m : HashMap K V) : ℕ := m.keys.length

/-- The values in an iteration order. -/
def values (m : HashMap K V) (order : HashOrder K) : List V :=
  (order.1 m.keys).filterMap m.lookup

/-- Change every value, knowing its key. -/
def mapWithKey (m : HashMap K V) (f : K → V → V) : HashMap K V :=
  ⟨m.entries.map (Sigma.map id f), m.nodupKeys.map₂ f m.entries⟩

/-- Change every value. -/
def mapValues (m : HashMap K V) (f : V → V) : HashMap K V := m.mapWithKey fun _ => f

/-- Change the value at a key, if there is one. -/
def modify (m : HashMap K V) (k : K) (f : V → V) : HashMap K V :=
  m.mapWithKey fun k' v => if k' = k then f v else v

theorem lookup_insert (m : HashMap K V) (k k' : K) (v : V) :
    (m.insert k v).lookup k' = if k' = k then some v else m.lookup k' := by
  split_ifs with same
  · rw [same]
    exact AList.lookup_insert m
  · exact AList.lookup_insert_ne same

@[simp] theorem lookup_mapWithKey (m : HashMap K V) (f : K → V → V) (k : K) :
    (m.mapWithKey f).lookup k = (m.lookup k).map (f k) :=
  List.dlookup_map₂ k

@[simp] theorem lookup_mapValues (m : HashMap K V) (f : V → V) (k : K) :
    (m.mapValues f).lookup k = (m.lookup k).map f :=
  lookup_mapWithKey m _ k

theorem lookup_modify (m : HashMap K V) (k k' : K) (f : V → V) :
    (m.modify k f).lookup k' = if k' = k then (m.lookup k').map f else m.lookup k' := by
  rw [modify, lookup_mapWithKey]
  split_ifs
  · rfl
  · exact Option.map_id'

theorem mem_iff_lookup {m : HashMap K V} {k : K} : k ∈ m ↔ ∃ v, m.lookup k = some v := by
  rw [← AList.lookup_isSome, Option.isSome_iff_exists]

/-- The values met in any iteration are the values of the map. -/
theorem mem_values {m : HashMap K V} {order : HashOrder K} {v : V} :
    v ∈ m.values order ↔ ∃ k, m.lookup k = some v := by
  rw [values, List.mem_filterMap]
  constructor
  · rintro ⟨k, _, found⟩
    exact ⟨k, found⟩
  · rintro ⟨k, found⟩
    have member : k ∈ m := mem_iff_lookup.mpr ⟨v, found⟩
    exact ⟨k, (order.2 m.keys).mem_iff.mpr (AList.mem_keys.mp member), found⟩

@[simp] theorem mem_modify {m : HashMap K V} {k k' : K} {f : V → V} :
    k' ∈ m.modify k f ↔ k' ∈ m := by
  rw [mem_iff_lookup, mem_iff_lookup, lookup_modify]
  split_ifs
  · simp
  · rfl

theorem size_insert_of_notMem {m : HashMap K V} {k : K} (absent : k ∉ m) (v : V) :
    (HashMap.size (m.insert k v)) = m.size + 1 := by
  rw [size, AList.keys_insert,
    List.erase_of_not_mem (fun member => absent (AList.mem_keys.mpr member))]
  rfl

theorem size_insert_of_mem {m : HashMap K V} {k : K} (member : k ∈ m) (v : V) :
    (HashMap.size (m.insert k v)) = m.size := by
  have inKeys := AList.mem_keys.mp member
  have positive := List.length_pos_of_mem inKeys
  rw [size, AList.keys_insert, List.length_cons, List.length_erase_of_mem inKeys, size]
  omega

theorem size_insert_le (m : HashMap K V) (k : K) (v : V) :
    HashMap.size (m.insert k v) ≤ m.size + 1 := by
  by_cases member : k ∈ m
  · rw [size_insert_of_mem member]
    exact Nat.le_succ _
  · rw [size_insert_of_notMem member]

theorem size_erase_of_mem {m : HashMap K V} {k : K} (member : k ∈ m) :
    HashMap.size (m.erase k) + 1 = m.size := by
  have inKeys := AList.mem_keys.mp member
  have positive := List.length_pos_of_mem inKeys
  rw [size, AList.keys_erase, List.length_erase_of_mem inKeys, size]
  omega

omit [DecidableEq K] in
theorem keys_mapWithKey (m : HashMap K V) (f : K → V → V) : (m.mapWithKey f).keys = m.keys := by
  rw [mapWithKey, AList.keys, List.keys, List.map_map]
  rfl

@[simp] theorem size_modify (m : HashMap K V) (k : K) (f : V → V) :
    (m.modify k f).size = m.size := by
  rw [size, modify, keys_mapWithKey, size]

/-- What matters of a change is what it does to the value that is there. -/
theorem modify_congr {m : HashMap K V} {k : K} {f g : V → V}
    (same : ∀ v, m.lookup k = some v → f v = g v) : m.modify k f = m.modify k g := by
  apply AList.ext
  change m.entries.map _ = m.entries.map _
  refine List.map_congr_left fun entry member => ?_
  obtain ⟨k', v⟩ := entry
  change (⟨k', if k' = k then f v else v⟩ : Sigma fun _ : K => V) = ⟨k', if k' = k then g v else v⟩
  split_ifs with here
  · subst here
    rw [same v (List.mem_dlookup m.nodupKeys member)]
  · rfl

/-- Changing a value to itself changes nothing. -/
theorem modify_eq_self {m : HashMap K V} {k : K} {f : V → V}
    (fixed : ∀ v, m.lookup k = some v → f v = v) : m.modify k f = m := by
  refine (modify_congr (g := id) fixed).trans (AList.ext ?_)
  change m.entries.map _ = m.entries
  refine (List.map_congr_left fun entry _ => ?_).trans (List.map_id m.entries)
  obtain ⟨k', v⟩ := entry
  change (⟨k', if k' = k then v else v⟩ : Sigma fun _ : K => V) = ⟨k', v⟩
  rw [ite_self]

/-- Two changes at a key are one. -/
theorem modify_modify (m : HashMap K V) (k : K) (f g : V → V) :
    (m.modify k f).modify k g = m.modify k (g ∘ f) := by
  apply AList.ext
  change (m.entries.map _).map _ = m.entries.map _
  rw [List.map_map]
  refine List.map_congr_left fun entry _ => ?_
  obtain ⟨k', v⟩ := entry
  change (⟨k', if k' = k then g (if k' = k then f v else v) else if k' = k then f v else v⟩ :
    Sigma fun _ : K => V) = ⟨k', if k' = k then g (f v) else v⟩
  split_ifs with here
  · rfl
  · rfl

/-- An iteration meets at most as many values as the map has keys. -/
theorem length_values_le (m : HashMap K V) (order : HashOrder K) :
    (m.values order).length ≤ m.size :=
  Nat.le_trans (List.length_filterMap_le ..) (Nat.le_of_eq (order.2 m.keys).length_eq)

/-- Values that carry their keys are met in the order of the keys. -/
theorem map_values {m : HashMap K V} {key : V → K}
    (own : ∀ k v, m.lookup k = some v → key v = k) (order : HashOrder K) :
    (m.values order).map key = order.1 m.keys := by
  rw [values, List.map_filterMap]
  refine (List.filterMap_congr fun k member => ?_).trans (List.filterMap_some ..)
  obtain ⟨v, found⟩ := mem_iff_lookup.mp (AList.mem_keys.mpr ((order.2 m.keys).mem_iff.mp member))
  rw [found, Option.map_some, own k v found]

omit [DecidableEq K] in
/-- A map whose keys lie in a list has at most as many of them. -/
theorem size_le_of_subset {m : HashMap K V} {keys : List K} (inside : ∀ k ∈ m, k ∈ keys) :
    m.size ≤ keys.length :=
  (List.subperm_of_subset m.keys_nodup fun k member =>
    inside k (AList.mem_keys.mpr member)).length_le

end HashMap

end VoiceChat
