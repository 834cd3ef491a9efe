import Mathlib.Data.List.Range
import LionCore.Base.Table

/-!
# Maps whose keys are 0, 1, ..., n - 1

A map that hands out its own size as the next key never hands out a key twice.

* `SortedMap.Dense`           the keys are exactly the numbers below the size;
* `Dense.get_eq_none_iff`     so a key is taken iff it is below the size;
* `Dense.insert_next`, `Dense.insert_old`   kept by an insertion at the size, which grows the map,
                              and by overwriting, which does not.
-/

namespace Base.SortedMap

section
variable {V : Type*}

/-- the keys are the numbers below the size -/
def Dense (m : SortedMap Nat V) : Prop := m.entries.keys = List.range m.len

instance (m : SortedMap Nat V) : Decidable m.Dense :=
  inferInstanceAs (Decidable (m.entries.keys = List.range m.len))

theorem Dense.empty : (SortedMap.empty : SortedMap Nat V).Dense := rfl

theorem Dense.mem_keys_iff {m : SortedMap Nat V} (h : m.Dense) (k : Nat) :
    k ∈ m.entries.keys ↔ k < m.len := by
  rw [show m.entries.keys = List.range m.len from h, List.mem_range]

/-- a search for a number below the size succeeds, and one for the size ends behind the last key -/
theorem Dense.search {m : SortedMap Nat V} (h : m.Dense) {k : Nat} (hk : k ≤ m.len) :
    (k < m.len ∧ ∃ i, m.entries.search k = .ok i) ∨
      (k = m.len ∧ m.entries.search k = .error m.len) := by
  rcases Nat.lt_or_eq_of_le hk with hlt | rfl
  · exact Or.inl ⟨hlt, (binarySearch_mem m.sorted k).mpr ((h.mem_keys_iff k).mpr hlt)⟩
  · refine Or.inr ⟨rfl, ?_⟩
    cases hs : m.entries.search m.len with
    | ok i =>
      have hmem := (binarySearch_mem m.sorted m.len).mp ⟨i, hs⟩
      exact absurd ((h.mem_keys_iff m.len).mp hmem) (lt_irrefl _)
    | error p =>
      obtain ⟨hp, _, hhi⟩ := binarySearch_error m.sorted hs
      have hlen : m.entries.keys.length = m.len := List.length_map Prod.fst
      rw [hlen] at hp
      -- no key is above the size, so the place is not before the end
      rcases Nat.lt_or_eq_of_le hp with hlt | rfl
      · have hkey : m.entries.keys[p]? = some p := by
          rw [show m.entries.keys = List.range m.len from h, List.getElem?_range hlt]
        exact absurd (hhi p p le_rfl hkey) (by omega)
      · rfl

theorem Dense.get_eq_none_iff {m : SortedMap Nat V} (h : m.Dense) (k : Nat) :
    m.get k = none ↔ m.len ≤ k := by
  unfold get
  rw [Table.find_eq_none_iff, Table.findIndex_eq_none_iff]
  constructor
  · rintro ⟨p, hp⟩
    by_contra hlt
    obtain ⟨i, hi⟩ := (binarySearch_mem m.sorted k).mpr ((h.mem_keys_iff k).mpr (not_le.mp hlt))
    rw [Table.search, hi] at hp
    cases hp
  · intro hle
    cases hs : m.entries.search k with
    | error p => exact ⟨p, rfl⟩
    | ok i =>
      have hmem := (binarySearch_mem m.sorted k).mp ⟨i, hs⟩
      exact absurd ((h.mem_keys_iff k).mp hmem) (not_lt.mpr hle)

theorem keys_insert_old (m : SortedMap Nat V) {k i : Nat} (hi : m.entries.search k = .ok i)
    (v : V) : (m.insert k v).entries.keys = m.entries.keys := by
  have hm := Table.keys_modify m.entries k fun _ => v
  unfold Table.modify Table.findIndex at hm
  show (m.entries.put k v).keys = m.entries.keys
  unfold Table.put
  rw [hi] at hm ⊢
  exact hm

theorem len_eq_of_keys {m m' : SortedMap Nat V} (h : m'.entries.keys = m.entries.keys) :
    m'.len = m.len := by
  have hlen := congrArg List.length h
  rwa [Table.keys, Table.keys, List.length_map, List.length_map] at hlen

/-- overwriting a value keeps the keys -/
theorem Dense.insert_old {m : SortedMap Nat V} (h : m.Dense) {k : Nat} (hk : k < m.len) (v : V) :
    (m.insert k v).Dense ∧ (m.insert k v).len = m.len := by
  rcases h.search hk.le with ⟨_, i, hi⟩ | ⟨e, _⟩
  · have hkeys := m.keys_insert_old hi v
    have hlen := len_eq_of_keys hkeys
    refine ⟨?_, hlen⟩
    unfold Dense
    rw [hkeys, hlen]
    exact h
  · exact absurd e hk.ne

/-- the size itself is the next key -/
theorem Dense.insert_next {m : SortedMap Nat V} (h : m.Dense) (v : V) :
    (m.insert m.len v).Dense ∧ (m.insert m.len v).len = m.len + 1 := by
  rcases h.search le_rfl with ⟨hlt, _⟩ | ⟨_, hs⟩
  · exact absurd hlt (lt_irrefl _)
  have e : (m.insert m.len v).entries = m.entries.insertIdx m.len (m.len, v) := by
    show m.entries.put m.len v = _
    unfold Table.put
    rw [hs]
  have hend : m.entries.insertIdx m.len (m.len, v) = m.entries ++ [(m.len, v)] := by
    rw [insertIdx_split _ m.len m.entries le_rfl, len, List.take_length, List.drop_length]
  have hlen : (m.insert m.len v).len = m.len + 1 := by
    unfold len at e hend ⊢
    rw [e, hend, List.length_append]
    rfl
  refine ⟨?_, hlen⟩
  unfold Dense
  rw [hlen, e, hend, Table.keys, List.map_append, List.range_succ]
  exact congrArg (· ++ [m.len]) h

end
end Base.SortedMap
