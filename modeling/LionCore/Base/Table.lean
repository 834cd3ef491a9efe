import Mathlib.Data.List.Basic
import Mathlib.Data.List.Destutter
import Mathlib.Data.List.InsertIdx
import Mathlib.Data.List.Sort
import LionCore.Base.Search

/-!
# Sorted vectors: sets of keys and tables of (key, value) pairs

A vector of pairs that is searched by key (`Table`), a vector of keys used as a set
(`has`, `insertKey`), and a map whose order is part of its type (`SortedMap`).

* `Table.find`, `Table.modify`, `Table.put`   read, change in place, insert or overwrite;
* `Table.find_mapVal`, `Table.find_modify`    need NO order: the search sees the keys only;
* `Table.find_iff_mem`, `Table.find_insert`   on a sorted table the search finds exactly the
                                              entries, also after an insertion.
-/

set_option linter.unusedSectionVars false

namespace Base

/-! ## insertion into a sorted list -/

theorem insertIdx_split {α : Type*} (x : α) :
    ∀ (p : Nat) (l : List α), p ≤ l.length → l.insertIdx p x = l.take p ++ x :: l.drop p := by
  intro p
  induction p with
  | zero => intro l _; rfl
  | succ p ih =>
    intro l hl
    cases l with
    | nil => simp at hl
    | cons a l =>
      rw [List.insertIdx_succ_cons, ih l (by simpa using hl)]
      rfl

section
variable {K : Type*} [LinearOrder K]

theorem Increasing.insertIdx {ks : List K} (hs : Increasing ks) {k : K} {p : Nat}
    (h : binarySearch ks k = .error p) : Increasing (ks.insertIdx p k) := by
  obtain ⟨hp, hlo, hhi⟩ := binarySearch_error hs h
  have hcut := hs
  unfold Increasing at hcut ⊢
  rw [← List.take_append_drop p ks, List.pairwise_append] at hcut
  rw [insertIdx_split k p ks hp, List.pairwise_append, List.pairwise_cons]
  have below : ∀ x ∈ ks.take p, x < k := by
    intro x hx
    obtain ⟨i, hi⟩ := List.mem_iff_getElem?.mp hx
    rw [List.getElem?_take] at hi
    split at hi
    · rename_i hip
      exact hlo i x hip hi
    · cases hi
  have above : ∀ x ∈ ks.drop p, k < x := by
    intro x hx
    obtain ⟨i, hi⟩ := List.mem_iff_getElem?.mp hx
    rw [List.getElem?_drop] at hi
    exact hhi (p + i) x (by omega) hi
  refine ⟨hcut.1, ⟨above, hcut.2.1⟩, fun a ha b hb => ?_⟩
  rcases List.mem_cons.mp hb with rfl | hb
  · exact below a ha
  · exact hcut.2.2 a ha b hb

theorem mem_insertIdx_of_error {ks : List K} {k x : K} {p : Nat}
    (h : binarySearch ks k = .error p) : x ∈ ks.insertIdx p k ↔ x = k ∨ x ∈ ks :=
  List.mem_insertIdx (binarySearch_error_le h)

/-! ## vectors of keys used as sets -/

/-- `binary_search(..).is_ok()` -/
def has (ks : List K) (k : K) : Bool :=
  match binarySearch ks k with
  | .ok _ => true
  | .error _ => false

/-- insert unless present -/
def insertKey (ks : List K) (k : K) : List K :=
  match binarySearch ks k with
  | .ok _ => ks
  | .error p => ks.insertIdx p k

theorem mem_of_has {ks : List K} {k : K} (h : has ks k = true) : k ∈ ks := by
  unfold has at h
  split at h
  · rename_i i hi
    exact List.mem_of_getElem? (binarySearch_ok hi)
  · cases h

theorem has_iff {ks : List K} (hs : Increasing ks) (k : K) : has ks k = true ↔ k ∈ ks := by
  refine ⟨mem_of_has, fun h => ?_⟩
  obtain ⟨i, hi⟩ := (binarySearch_mem hs k).mpr h
  unfold has
  rw [hi]

theorem Increasing.insertKey {ks : List K} (hs : Increasing ks) (k : K) :
    Increasing (insertKey ks k) := by
  unfold Base.insertKey
  split
  · exact hs
  · rename_i p h
    exact hs.insertIdx h

theorem mem_insertKey (ks : List K) (k x : K) : x ∈ insertKey ks k ↔ x = k ∨ x ∈ ks := by
  unfold insertKey
  split
  · rename_i i hi
    have hk := List.mem_of_getElem? (binarySearch_ok hi)
    exact ⟨Or.inr, fun h => h.elim (fun e => e ▸ hk) id⟩
  · rename_i p hp
    exact mem_insertIdx_of_error hp

theorem has_insertKey {ks : List K} (hs : Increasing ks) (k x : K) :
    has (insertKey ks k) x = (decide (x = k) || has ks x) := by
  rw [Bool.eq_iff_iff, Bool.or_eq_true, decide_eq_true_eq, has_iff (hs.insertKey k), has_iff hs,
    mem_insertKey]

theorem length_insertKey (ks : List K) (k : K) :
    (insertKey ks k).length = if has ks k = true then ks.length else ks.length + 1 := by
  unfold insertKey has
  split
  · rfl
  · rename_i p hp
    rw [List.length_insertIdx, if_pos (binarySearch_error_le hp), if_neg Bool.false_ne_true]

theorem insertKey_of_not_has {ks : List K} {k : K} (h : has ks k = false) :
    insertKey ks k ≠ ks := by
  intro e
  have hlen := length_insertKey ks k
  rw [e, h, if_neg Bool.false_ne_true] at hlen
  omega

/-- remove if present -/
def removeKey (ks : List K) (k : K) : List K :=
  match binarySearch ks k with
  | .ok i => ks.eraseIdx i
  | .error _ => ks

theorem Increasing.removeKey {ks : List K} (hs : Increasing ks) (k : K) :
    Increasing (removeKey ks k) := by
  unfold Base.removeKey
  split
  · exact hs.sublist (List.eraseIdx_sublist ks _)
  · exact hs

theorem mem_removeKey {ks : List K} (hs : Increasing ks) (k x : K) :
    x ∈ removeKey ks k ↔ x ≠ k ∧ x ∈ ks := by
  unfold removeKey
  split
  · rename_i i hi
    have hk := binarySearch_ok hi
    have hnodup : ks.Nodup := hs.imp ne_of_lt
    rw [List.mem_eraseIdx_iff_getElem?]
    constructor
    · intro ⟨j, hj, hx⟩
      refine ⟨fun e => hj ?_, List.mem_of_getElem? hx⟩
      have hlt := (List.getElem?_eq_some_iff.mp hx).1
      exact (List.getElem?_inj hlt hnodup).mp (hx.trans (e ▸ hk.symm))
    · intro ⟨hne, hx⟩
      obtain ⟨j, hj⟩ := List.mem_iff_getElem?.mp hx
      refine ⟨j, fun e => hne ?_, hj⟩
      exact Option.some.inj (hj.symm.trans (e ▸ hk))
  · rename_i p hp
    refine ⟨fun hx => ⟨fun e => ?_, hx⟩, And.right⟩
    obtain ⟨i, hi⟩ := (binarySearch_mem hs k).mpr (e ▸ hx)
    rw [hi] at hp
    cases hp

end

section
variable {K : Type*} [LinearOrder K]

/-- `sort_unstable` and `dedup` -/
def sortDedup (ks : List K) : List K := (ks.insertionSort (· ≤ ·)).destutter (· ≠ ·)

theorem sortDedup_eq_dedup (ks : List K) :
    sortDedup ks = (ks.insertionSort (· ≤ ·)).dedup :=
  (List.pairwise_insertionSort (· ≤ ·) ks).destutter_eq_dedup

theorem sortDedup_increasing (ks : List K) : Increasing (sortDedup ks) := by
  rw [sortDedup_eq_dedup]
  have hle : ((ks.insertionSort (· ≤ ·)).dedup).Pairwise (· ≤ ·) :=
    (List.pairwise_insertionSort (· ≤ ·) ks).sublist (List.dedup_sublist _)
  have hne := List.nodup_dedup (ks.insertionSort (· ≤ ·))
  exact (hle.and hne).imp fun h => lt_of_le_of_ne h.1 h.2

theorem mem_sortDedup {ks : List K} {k : K} : k ∈ sortDedup ks ↔ k ∈ ks := by
  rw [sortDedup_eq_dedup, List.mem_dedup, List.mem_insertionSort]

/-- nothing happens to keys in order without duplicates -/
theorem Increasing.sortDedup {ks : List K} (hs : Increasing ks) : sortDedup ks = ks := by
  have hle : ks.Pairwise (· ≤ ·) := hs.imp le_of_lt
  have hne : ks.IsChain (· ≠ ·) := (hs.imp ne_of_lt).isChain
  unfold Base.sortDedup
  rw [hle.insertionSort_eq, List.destutter_of_isChain _ _ hne]

end

/-! ## tables -/

/-- a vector of (key, value) pairs that is searched by key -/
abbrev Table (K V : Type*) := List (K × V)

namespace Table
section
variable {K V W : Type*}

def keys (t : Table K V) : List K := t.map Prod.fst

/-- change every value, keep the keys -/
def mapVal (g : K → V → W) (t : Table K V) : Table K W := t.map fun e => (e.1, g e.1 e.2)

theorem keys_mapVal (g : K → V → W) (t : Table K V) : (t.mapVal g).keys = t.keys := by
  simp [keys, mapVal]

theorem mapVal_eq_self (g : K → V → V) (t : Table K V) (h : ∀ k v, (k, v) ∈ t → g k v = v) :
    t.mapVal g = t := by
  unfold mapVal
  conv_rhs => rw [← List.map_id t]
  apply List.map_congr_left
  intro e he
  show (e.1, g e.1 e.2) = e
  rw [h e.1 e.2 he]

theorem mapVal_congr_iff (f g : K → V → W) (t : Table K V) :
    t.mapVal f = t.mapVal g ↔ ∀ k v, (k, v) ∈ t → f k v = g k v := by
  unfold mapVal
  rw [List.map_inj_left]
  exact ⟨fun h k v hm => congrArg Prod.snd (h (k, v) hm),
    fun h e he => by rw [h e.1 e.2 he]⟩

end

section
variable {K V W : Type*} [LinearOrder K]

def Sorted (t : Table K V) : Prop := Increasing t.keys

instance (t : Table K V) : Decidable t.Sorted :=
  inferInstanceAs (Decidable (t.keys.Pairwise (· < ·)))

/-- `binary_search_by_key` -/
def search (t : Table K V) (k : K) : Except Nat Nat := binarySearch t.keys k

def findIndex (t : Table K V) (k : K) : Option Nat :=
  match t.search k with
  | .ok i => some i
  | .error _ => none

/-- the value at the index that the search finds -/
def find (t : Table K V) (k : K) : Option V :=
  (t.findIndex k).bind fun i => t[i]?.map Prod.snd

/-- change the value at the index that the search finds, if any -/
def modify (t : Table K V) (k : K) (f : V → V) : Table K V :=
  match t.findIndex k with
  | some i => List.modify t i fun e => (e.1, f e.2)
  | none => t

/-- overwrite the value of `k`, or insert a new entry at its place -/
def put (t : Table K V) (k : K) (v : V) : Table K V :=
  match t.search k with
  | .ok i => List.modify t i fun e => (e.1, v)
  | .error p => t.insertIdx p (k, v)

/-- a new entry at its place; `none` if the key is taken -/
def add (t : Table K V) (k : K) (v : V) : Option (Table K V) :=
  match t.search k with
  | .ok _ => none
  | .error p => some (t.insertIdx p (k, v))

/-! ### what the search finds -/

theorem findIndex_some {t : Table K V} {k : K} {i : Nat} (h : t.findIndex k = some i) :
    ∃ v, t[i]? = some (k, v) := by
  unfold findIndex search at h
  split at h
  · rename_i j hj
    cases h
    have hk := binarySearch_ok hj
    rw [keys, List.getElem?_map] at hk
    obtain ⟨⟨k', v⟩, he, rfl⟩ := Option.map_eq_some_iff.mp hk
    exact ⟨v, he⟩
  · cases h

theorem find_of_findIndex {t : Table K V} {k : K} {i : Nat} {v : V} (h : t.findIndex k = some i)
    (hv : t[i]? = some (k, v)) : t.find k = some v := by
  unfold find
  rw [h, Option.bind_some, hv]
  rfl

theorem exists_index {t : Table K V} {k : K} {v : V} (h : t.find k = some v) :
    ∃ i, t.findIndex k = some i ∧ t[i]? = some (k, v) := by
  cases hi : t.findIndex k with
  | none => simp [find, hi] at h
  | some i =>
    obtain ⟨w, hw⟩ := findIndex_some hi
    have e : w = v := Option.some.inj ((find_of_findIndex hi hw).symm.trans h)
    exact ⟨i, rfl, e ▸ hw⟩

theorem mem_of_find {t : Table K V} {k : K} {v : V} (h : t.find k = some v) : (k, v) ∈ t := by
  obtain ⟨i, _, hi⟩ := exists_index h
  exact List.mem_of_getElem? hi

theorem find_eq_none_iff {t : Table K V} {k : K} : t.find k = none ↔ t.findIndex k = none := by
  cases hi : t.findIndex k with
  | none => simp [find, hi]
  | some i =>
    obtain ⟨w, hw⟩ := findIndex_some hi
    simp [find_of_findIndex hi hw]

theorem findIndex_eq_none_iff {t : Table K V} {k : K} :
    t.findIndex k = none ↔ ∃ p, t.search k = .error p := by
  unfold findIndex
  cases t.search k <;> simp

theorem search_of_find {t : Table K V} {k : K} {v : V} (h : t.find k = some v) :
    ∃ i, t.search k = .ok i := by
  cases hs : t.search k with
  | ok i => exact ⟨i, rfl⟩
  | error p =>
    have hn := find_eq_none_iff.mpr (findIndex_eq_none_iff.mpr ⟨p, hs⟩)
    rw [hn] at h
    cases h

theorem find_of_mem {t : Table K V} (hs : t.Sorted) {k : K} {v : V} (h : (k, v) ∈ t) :
    t.find k = some v := by
  obtain ⟨i, hi⟩ := List.mem_iff_getElem?.mp h
  have hk : t.keys[i]? = some k := by rw [keys, List.getElem?_map, hi]; rfl
  refine find_of_findIndex (i := i) ?_ hi
  unfold findIndex search
  rw [(binarySearch_eq_ok_iff hs).mpr hk]

theorem find_iff_mem {t : Table K V} (hs : t.Sorted) {k : K} {v : V} :
    t.find k = some v ↔ (k, v) ∈ t :=
  ⟨mem_of_find, find_of_mem hs⟩

/-! ### changes that keep the keys -/

theorem findIndex_congr {t : Table K V} {u : Table K W} (h : t.keys = u.keys) (k : K) :
    t.findIndex k = u.findIndex k := by
  unfold findIndex search
  rw [h]

theorem Sorted.of_keys {t : Table K V} {u : Table K W} (hs : t.Sorted) (h : u.keys = t.keys) :
    u.Sorted := by
  unfold Sorted
  rw [h]
  exact hs

theorem find_mapVal (g : K → V → W) (t : Table K V) (k : K) :
    (t.mapVal g).find k = (t.find k).map (g k) := by
  have e := findIndex_congr (keys_mapVal g t) k
  cases hi : t.findIndex k with
  | none =>
    rw [find_eq_none_iff.mpr hi, find_eq_none_iff.mpr (e.trans hi)]
    rfl
  | some i =>
    obtain ⟨v, hv⟩ := findIndex_some hi
    have hw : (t.mapVal g)[i]? = some (k, g k v) := by rw [mapVal, List.getElem?_map, hv]; rfl
    rw [find_of_findIndex hi hv, find_of_findIndex (e.trans hi) hw]
    rfl

theorem keys_modify (t : Table K V) (k : K) (f : V → V) : (t.modify k f).keys = t.keys := by
  unfold modify
  split
  · rename_i i _
    apply List.ext_getElem?
    intro j
    rw [keys, List.getElem?_map, List.getElem?_modify, keys, List.getElem?_map]
    cases t[j]? with
    | none => rfl
    | some e => by_cases h : i = j <;> simp [h]
  · rfl

theorem Sorted.modify {t : Table K V} (hs : t.Sorted) (k : K) (f : V → V) :
    (t.modify k f).Sorted :=
  hs.of_keys (keys_modify t k f)

theorem find_modify (t : Table K V) (k k' : K) (f : V → V) :
    (t.modify k f).find k' = if k' = k then (t.find k').map f else t.find k' := by
  have e := findIndex_congr (keys_modify t k f) k'
  cases hj : t.findIndex k' with
  | none =>
    rw [find_eq_none_iff.mpr hj, find_eq_none_iff.mpr (e.trans hj)]
    simp
  | some j =>
    obtain ⟨v, hv⟩ := findIndex_some hj
    rw [find_of_findIndex hj hv]
    by_cases hk : k' = k
    · subst hk
      have hw : (t.modify k' f)[j]? = some (k', f v) := by
        unfold modify
        rw [hj]
        simp [hv]
      rw [find_of_findIndex (e.trans hj) hw, if_pos rfl]
      rfl
    · rw [if_neg hk]
      refine find_of_findIndex (e.trans hj) ?_
      unfold modify
      split
      · rename_i i hi
        -- two different keys sit at two different indices
        have hij : i ≠ j := by
          rintro rfl
          obtain ⟨w, hw⟩ := findIndex_some hi
          rw [hv] at hw
          exact hk (congrArg Prod.fst (Option.some.inj hw))
        simp [hij, hv]
      · exact hv

/-- a property of every value, after a change of one -/
theorem forall_find_modify_iff {P : V → Prop} {t : Table K V} (h : ∀ k v, t.find k = some v → P v)
    (k : K) (f : V → V) :
    (∀ k' v, (t.modify k f).find k' = some v → P v) ↔ ∀ v, t.find k = some v → P (f v) := by
  constructor
  · intro hm v hv
    refine hm k (f v) ?_
    rw [find_modify, if_pos rfl, hv]
    rfl
  · intro hf k' v hv
    rw [find_modify] at hv
    split at hv
    · rename_i hk
      subst hk
      obtain ⟨v₀, hv₀, rfl⟩ := Option.map_eq_some_iff.mp hv
      exact hf v₀ hv₀
    · exact h k' v hv

theorem modify_eq_self {t : Table K V} {k : K} {f : V → V}
    (h : ∀ v, t.find k = some v → f v = v) : t.modify k f = t := by
  unfold modify
  split
  · rename_i i hi
    obtain ⟨v, hv⟩ := findIndex_some hi
    refine List.ext_getElem? fun j => ?_
    rw [List.getElem?_modify]
    by_cases hj : i = j
    · subst hj
      simp [hv, h v (find_of_findIndex hi hv)]
    · simp [hj]
  · rfl

theorem modify_absent {t : Table K V} {k : K} (h : t.find k = none) (f : V → V) :
    t.modify k f = t :=
  modify_eq_self fun _ hv => nomatch h.symm.trans hv

theorem modify_eq_mapVal {t : Table K V} (hs : t.Sorted) (k : K) (f : V → V) :
    t.modify k f = t.mapVal fun k' v => if k' = k then f v else v := by
  cases hi : t.findIndex k with
  | none =>
    rw [modify_absent (find_eq_none_iff.mpr hi)]
    refine (mapVal_eq_self _ t fun k' v hm => ?_).symm
    refine if_neg ?_
    rintro rfl
    have := find_of_mem hs hm
    rw [find_eq_none_iff.mpr hi] at this
    cases this
  | some i =>
    unfold modify
    rw [hi]
    apply List.ext_getElem?
    intro j
    rw [List.getElem?_modify, mapVal, List.getElem?_map]
    cases hj : t[j]? with
    | none => rfl
    | some e =>
      obtain ⟨k', v⟩ := e
      have hk : k' = k ↔ i = j := by
        obtain ⟨w, hw⟩ := findIndex_some hi
        constructor
        · rintro rfl
          exact hs.eq_of_index (by rw [keys, List.getElem?_map, hw]; rfl)
            (by rw [keys, List.getElem?_map, hj]; rfl)
        · rintro rfl
          rw [hw] at hj
          exact (congrArg Prod.fst (Option.some.inj hj)).symm
      by_cases h : i = j <;> simp [h, hk]

/-! ### insertion -/

theorem keys_insertIdx (t : Table K V) (p : Nat) (k : K) (v : V) :
    Table.keys (t.insertIdx p (k, v)) = t.keys.insertIdx p k := by
  simp [keys, List.map_insertIdx]

theorem Sorted.insert {t : Table K V} (hs : t.Sorted) {k : K} {p : Nat}
    (h : t.search k = .error p) (v : V) : Table.Sorted (t.insertIdx p (k, v)) := by
  unfold Sorted
  rw [keys_insertIdx]
  exact Increasing.insertIdx hs h

theorem mem_insert {t : Table K V} {k : K} {p : Nat} (h : t.search k = .error p) (v : V)
    (e : K × V) : e ∈ t.insertIdx p (k, v) ↔ e = (k, v) ∨ e ∈ t := by
  refine List.mem_insertIdx ?_
  have := binarySearch_error_le h
  rwa [keys, List.length_map] at this

theorem find_error {t : Table K V} {k : K} {p : Nat} (h : t.search k = .error p) :
    t.find k = none :=
  find_eq_none_iff.mpr (findIndex_eq_none_iff.mpr ⟨p, h⟩)

theorem find_insert {t : Table K V} (hs : t.Sorted) {k : K} {p : Nat}
    (h : t.search k = .error p) (v : V) (k' : K) :
    Table.find (t.insertIdx p (k, v)) k' = if k' = k then some v else t.find k' := by
  have hs' := hs.insert h v
  apply Option.ext
  intro w
  rw [find_iff_mem hs', mem_insert h]
  by_cases hk : k' = k
  · subst hk
    rw [if_pos rfl, ← find_iff_mem hs, find_error h]
    constructor
    · rintro (e | e)
      · rw [(Prod.mk.inj e).2]
      · cases e
    · intro e
      exact Or.inl (by rw [Option.some.inj e])
  · rw [if_neg hk, ← find_iff_mem hs]
    exact ⟨fun e => e.resolve_left fun e' => hk (Prod.mk.inj e').1, Or.inr⟩

theorem add_eq_some {t t' : Table K V} {k : K} {v : V} (h : t.add k v = some t') :
    ∃ p, t.search k = .error p ∧ t' = t.insertIdx p (k, v) := by
  unfold add at h
  split at h
  · cases h
  · rename_i p hp
    exact ⟨p, hp, (Option.some.inj h).symm⟩

theorem find_add_old {t t' : Table K V} {k : K} {v : V} (h : t.add k v = some t') :
    t.find k = none := by
  obtain ⟨p, hp, _⟩ := add_eq_some h
  exact find_error hp

theorem add_eq_none_iff {t : Table K V} {k : K} {v : V} :
    t.add k v = none ↔ t.find k ≠ none := by
  rw [Ne, find_eq_none_iff, findIndex_eq_none_iff]
  unfold add
  cases t.search k <;> simp

theorem Sorted.add {t t' : Table K V} (hs : t.Sorted) {k : K} {v : V}
    (h : t.add k v = some t') : t'.Sorted := by
  obtain ⟨p, hp, rfl⟩ := add_eq_some h
  exact hs.insert hp v

theorem find_add {t t' : Table K V} (hs : t.Sorted) {k : K} {v : V} (h : t.add k v = some t')
    (k' : K) : t'.find k' = if k' = k then some v else t.find k' := by
  obtain ⟨p, hp, rfl⟩ := add_eq_some h
  exact find_insert hs hp v k'

theorem Sorted.put {t : Table K V} (hs : t.Sorted) (k : K) (v : V) : (t.put k v).Sorted := by
  unfold Table.put
  split
  · rename_i i h
    have hi : t.findIndex k = some i := by unfold findIndex; rw [h]
    have hm := keys_modify t k fun _ => v
    unfold Table.modify at hm
    rw [hi] at hm
    exact hs.of_keys hm
  · rename_i p h
    exact hs.insert h v

theorem find_put {t : Table K V} (hs : t.Sorted) (k k' : K) (v : V) :
    (t.put k v).find k' = if k' = k then some v else t.find k' := by
  unfold put
  split
  · rename_i i h
    have hm := find_modify t k k' fun _ => v
    have hi : t.findIndex k = some i := by unfold findIndex; rw [h]
    unfold modify at hm
    rw [hi] at hm
    rw [hm]
    by_cases hk : k' = k
    · subst hk
      obtain ⟨w, hw⟩ := findIndex_some hi
      rw [if_pos rfl, if_pos rfl, find_of_findIndex hi hw]
      rfl
    · rw [if_neg hk, if_neg hk]
  · rename_i p h
    exact find_insert hs h v k'

theorem put_eq_self {t : Table K V} {k : K} {v : V} (h : t.find k = some v) : t.put k v = t := by
  obtain ⟨i, hi⟩ := search_of_find h
  have hm : t.modify k (fun _ => v) = t :=
    modify_eq_self fun w hw => Option.some.inj (h.symm.trans hw)
  unfold modify findIndex at hm
  unfold put
  rw [hi] at hm ⊢
  exact hm

/-- the search determines a sorted table -/
theorem Sorted.ext {t u : Table K V} (ht : t.Sorted) (hu : u.Sorted)
    (h : ∀ k, t.find k = u.find k) : t = u := by
  have increasing : ∀ {t : Table K V}, t.Sorted → t.Pairwise fun a b => a.1 < b.1 :=
    fun hs => List.pairwise_map.mp hs
  have nodup : ∀ {t : Table K V}, t.Sorted → t.Nodup := by
    intro t hs
    refine (increasing hs).imp ?_
    intro a b hlt e
    rw [e] at hlt
    exact lt_irrefl _ hlt
  have hperm : t.Perm u := by
    refine (List.perm_ext_iff_of_nodup (nodup ht) (nodup hu)).mpr ?_
    rintro ⟨k, v⟩
    rw [← find_iff_mem ht, ← find_iff_mem hu, h k]
  refine hperm.eq_of_pairwise ?_ (increasing ht) (increasing hu)
  intro a b _ _ hab hba
  exact absurd hab (lt_asymm hba)

/-! ### a part of a table -/

/-- the values with the property `P`, by their keys -/
def part (P : V → Bool) (t : Table K V) (k : K) : Option V := (t.find k).filter P

theorem part_eq_some_iff {P : V → Bool} {t : Table K V} {k : K} {v : V} :
    t.part P k = some v ↔ t.find k = some v ∧ P v = true :=
  Option.filter_eq_some_iff

/-- every entry with the property is an entry of the other table, in both directions -/
theorem part_eq_iff {P : V → Bool} {t u : Table K V} (ht : t.Sorted) (hu : u.Sorted) :
    t.part P = u.part P ↔ (∀ e ∈ t, P e.2 = true → u.find e.1 = some e.2) ∧
      ∀ e ∈ u, P e.2 = true → t.find e.1 = some e.2 := by
  constructor
  · intro h
    refine ⟨fun e he hP => ?_, fun e he hP => ?_⟩
    · have hv := part_eq_some_iff.mpr ⟨find_of_mem ht he, hP⟩
      rw [h] at hv
      exact (part_eq_some_iff.mp hv).1
    · have hv := part_eq_some_iff.mpr ⟨find_of_mem hu he, hP⟩
      rw [← h] at hv
      exact (part_eq_some_iff.mp hv).1
  · rintro ⟨h₁, h₂⟩
    funext k
    apply Option.ext
    intro v
    rw [part_eq_some_iff, part_eq_some_iff]
    exact ⟨fun ⟨hk, hP⟩ => ⟨h₁ _ (mem_of_find hk) hP, hP⟩,
      fun ⟨hk, hP⟩ => ⟨h₂ _ (mem_of_find hk) hP, hP⟩⟩

end
end Table

/-! ## maps with the order in the type -/

/-- a sorted table: the order and the absence of duplicates are part of the value -/
structure SortedMap (K V : Type*) [LinearOrder K] where
  entries : Table K V
  sorted : entries.Sorted

namespace SortedMap
section
variable {K V : Type*} [LinearOrder K]

instance [DecidableEq V] : DecidableEq (SortedMap K V) := fun a b =>
  decidable_of_iff (a.entries = b.entries) ⟨fun h => by cases a; cases b; cases h; rfl, congrArg _⟩

def empty : SortedMap K V := ⟨[], List.Pairwise.nil⟩

def get (m : SortedMap K V) (k : K) : Option V := m.entries.find k

def insert (m : SortedMap K V) (k : K) (v : V) : SortedMap K V :=
  ⟨m.entries.put k v, m.sorted.put k v⟩

def len (m : SortedMap K V) : Nat := m.entries.length

theorem get_insert (m : SortedMap K V) (k k' : K) (v : V) :
    (m.insert k v).get k' = if k' = k then some v else m.get k' :=
  Table.find_put m.sorted k k' v

theorem ext_get {m m' : SortedMap K V} (h : ∀ k, m.get k = m'.get k) : m = m' := by
  have e : m.entries = m'.entries := m.sorted.ext m'.sorted h
  cases m
  cases m'
  cases e
  rfl

theorem get_ne_none_iff (m : SortedMap K V) (k : K) : m.get k ≠ none ↔ k ∈ m.entries.keys := by
  constructor
  · intro h
    obtain ⟨v, hv⟩ := Option.ne_none_iff_exists'.mp h
    exact List.mem_map.mpr ⟨(k, v), Table.mem_of_find hv, rfl⟩
  · intro h
    obtain ⟨⟨_, v⟩, he, rfl⟩ := List.mem_map.mp h
    rw [show m.get _ = some v from Table.find_of_mem m.sorted he]
    exact Option.some_ne_none v

/-- maps with the same keys have the same size -/
theorem len_congr {W : Type*} {m : SortedMap K V} {m' : SortedMap K W}
    (h : ∀ k, m.get k = none ↔ m'.get k = none) : m.len = m'.len := by
  have hmem : ∀ k, k ∈ m.entries.keys ↔ k ∈ m'.entries.keys := by
    intro k
    rw [← get_ne_none_iff, ← get_ne_none_iff]
    exact not_congr (h k)
  have hperm : m.entries.keys.Perm m'.entries.keys :=
    (List.perm_ext_iff_of_nodup m.sorted.nodup m'.sorted.nodup).mpr hmem
  have hlen := hperm.length_eq
  unfold Table.keys at hlen
  rwa [List.length_map, List.length_map] at hlen

/-- the later of two insertions at a key wins -/
theorem insert_insert (m : SortedMap K V) (k : K) (v w : V) :
    (m.insert k v).insert k w = m.insert k w := by
  apply ext_get
  intro k'
  rw [get_insert, get_insert, get_insert]
  split <;> rfl

/-- an insertion changes nothing iff the value is there already -/
theorem insert_eq_self_iff (m : SortedMap K V) (k : K) (v : V) :
    m.insert k v = m ↔ m.get k = some v := by
  constructor
  · intro h
    have hget := m.get_insert k k v
    rwa [h, if_pos rfl] at hget
  · intro h
    have e : m.entries.put k v = m.entries := Table.put_eq_self h
    unfold insert
    congr

end
end SortedMap
end Base
