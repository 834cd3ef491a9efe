import Mathlib.Order.Basic
import Mathlib.Order.Lattice

/-!
# Binary search on a strictly sorted list of keys

`binarySearch ks k` runs the halving loop of the standard library, step for step: it is
`.ok i` with an index `i` that holds `k`, or `.error p` with the place `p` where `k` would
have to be inserted.

* `binarySearch_ok`      an index that is found holds the key (on ANY list);
* `binarySearch_error`   on a sorted list the place of a missing key splits the list into the
                         keys below it and the keys above it.
-/

namespace Base

section
variable {K : Type*} [LinearOrder K]

/-- the halving loop: `size` keys from `base` on are still possible; the first argument bounds
the number of rounds -/
def halve (ks : List K) (k : K) : Nat → Nat → Nat → Nat
  | 0, _, base => base
  | n + 1, size, base =>
    if size ≤ 1 then base
    else match ks[base + size / 2]? with
      | none => base
      | some m => halve ks k n (size - size / 2) (if k < m then base else base + size / 2)

/-- `.ok` the index of `k`, or `.error` the index at which `k` is to be inserted -/
def binarySearch (ks : List K) (k : K) : Except Nat Nat :=
  match ks[halve ks k ks.length ks.length 0]? with
  | none => .error 0
  | some m =>
    if m = k then .ok (halve ks k ks.length ks.length 0)
    else if m < k then .error (halve ks k ks.length ks.length 0 + 1)
    else .error (halve ks k ks.length ks.length 0)

/-- strictly increasing: sorted and free of duplicates -/
def Increasing (ks : List K) : Prop := ks.Pairwise (· < ·)

theorem Increasing.lt {ks : List K} (hs : Increasing ks) {i j : Nat} {a b : K} (hij : i < j)
    (hi : ks[i]? = some a) (hj : ks[j]? = some b) : a < b := by
  obtain ⟨hi', rfl⟩ := List.getElem?_eq_some_iff.mp hi
  obtain ⟨hj', rfl⟩ := List.getElem?_eq_some_iff.mp hj
  exact List.pairwise_iff_getElem.mp hs i j hi' hj' hij

theorem Increasing.nodup {ks : List K} (hs : Increasing ks) : ks.Nodup :=
  hs.imp (fun h => ne_of_lt h)

theorem Increasing.eq_of_index {ks : List K} (hs : Increasing ks) {i j : Nat} {a : K}
    (hi : ks[i]? = some a) (hj : ks[j]? = some a) : i = j := by
  rcases lt_trichotomy i j with h | h | h
  · exact absurd (hs.lt h hi hj) (lt_irrefl a)
  · exact h
  · exact absurd (hs.lt h hj hi) (lt_irrefl a)

/-! ## the loop -/

/-- What the loop keeps: no key from `base + size` on can be `k`, and the key at `base` is not
above `k` unless the loop has never moved. -/
structure Window (ks : List K) (k : K) (size base : Nat) : Prop where
  pos : 0 < size
  inside : base + size ≤ ks.length
  above : ∀ i m, base + size ≤ i → ks[i]? = some m → k < m
  below : base = 0 ∨ ∃ m, ks[base]? = some m ∧ m ≤ k

theorem Window.left {ks : List K} {k m : K} {size base : Nat} (w : Window ks k size base)
    (hs : Increasing ks) (h2 : ¬ size ≤ 1) (hm : ks[base + size / 2]? = some m) (hk : k < m) :
    Window ks k (size - size / 2) base := by
  have hin := w.inside
  refine ⟨by omega, by omega, ?_, w.below⟩
  intro i x hi hx
  rcases Nat.lt_or_ge (base + size / 2) i with h | h
  · exact lt_trans hk (hs.lt h hm hx)
  · have e : i = base + size / 2 := by omega
    rw [e, hm] at hx
    exact Option.some.inj hx ▸ hk

theorem Window.right {ks : List K} {k m : K} {size base : Nat} (w : Window ks k size base)
    (h2 : ¬ size ≤ 1) (hm : ks[base + size / 2]? = some m) (hk : ¬ k < m) :
    Window ks k (size - size / 2) (base + size / 2) := by
  have hin := w.inside
  refine ⟨by omega, by omega, ?_, Or.inr ⟨m, hm, not_lt.mp hk⟩⟩
  intro i x hi hx
  exact w.above i x (by omega) hx

theorem halve_window {ks : List K} (hs : Increasing ks) (k : K) (n : Nat) :
    ∀ size base, Window ks k size base → size ≤ n + 1 →
      Window ks k 1 (halve ks k n size base) := by
  induction n with
  | zero =>
    intro size base w hn
    have e : size = 1 := by have := w.pos; omega
    exact e ▸ w
  | succ n ih =>
    intro size base w hn
    unfold halve
    by_cases h2 : size ≤ 1
    · have e : size = 1 := by have := w.pos; omega
      rw [if_pos h2]
      exact e ▸ w
    · rw [if_neg h2]
      have hlt : base + size / 2 < ks.length := by have := w.inside; omega
      have hm : ks[base + size / 2]? = some ks[base + size / 2] := List.getElem?_eq_getElem hlt
      rw [hm]
      by_cases hk : k < ks[base + size / 2]
      · simp only [if_pos hk]
        exact ih _ _ (w.left hs h2 hm hk) (by omega)
      · simp only [if_neg hk]
        exact ih _ _ (w.right h2 hm hk) (by omega)

/-! ## the search -/

theorem binarySearch_ok {ks : List K} {k : K} {i : Nat} (h : binarySearch ks k = .ok i) :
    ks[i]? = some k := by
  unfold binarySearch at h
  split at h
  · cases h
  · rename_i m hm
    split at h
    · rename_i hmk
      cases h
      rw [hm, hmk]
    · split at h <;> cases h

theorem binarySearch_error_le {ks : List K} {k : K} {p : Nat}
    (h : binarySearch ks k = .error p) : p ≤ ks.length := by
  unfold binarySearch at h
  split at h
  · cases h
    exact Nat.zero_le _
  · rename_i m hm
    obtain ⟨hb, _⟩ := List.getElem?_eq_some_iff.mp hm
    split at h
    · cases h
    · split at h <;> cases h <;> omega

theorem binarySearch_error {ks : List K} (hs : Increasing ks) {k : K} {p : Nat}
    (h : binarySearch ks k = .error p) :
    p ≤ ks.length ∧ (∀ i m, i < p → ks[i]? = some m → m < k) ∧
      ∀ i m, p ≤ i → ks[i]? = some m → k < m := by
  by_cases h0 : ks.length = 0
  · obtain rfl := List.length_eq_zero_iff.mp h0
    cases h
    refine ⟨le_rfl, fun i m _ hm => ?_, fun i m _ hm => ?_⟩ <;> simp at hm
  have w0 : Window ks k ks.length 0 := by
    refine ⟨by omega, by omega, fun i m hi hm => ?_, Or.inl rfl⟩
    obtain ⟨hi', _⟩ := List.getElem?_eq_some_iff.mp hm
    omega
  have w := halve_window hs k ks.length _ _ w0 (by omega)
  unfold binarySearch at h
  generalize halve ks k ks.length ks.length 0 = b at h w
  have hb : b < ks.length := by have := w.inside; omega
  rw [List.getElem?_eq_getElem hb] at h
  have hm : ks[b]? = some ks[b] := List.getElem?_eq_getElem hb
  simp only at h
  split at h
  · cases h
  rename_i hne
  split at h
  · -- the key at `b` is below `k`, every later one above
    rename_i hlt
    cases h
    refine ⟨hb, fun i m hi hx => ?_, fun i m hi hx => w.above i m hi hx⟩
    rcases Nat.lt_or_ge i b with h | h
    · exact lt_trans (hs.lt h hx hm) hlt
    · have e : i = b := by omega
      rw [e, hm] at hx
      exact Option.some.inj hx ▸ hlt
  · -- the key at `b` is above `k`: the loop has never moved, every key is above
    rename_i hnlt
    have hgt : k < ks[b] := lt_of_le_of_ne (not_lt.mp hnlt) (Ne.symm hne)
    have hb0 : b = 0 := by
      rcases w.below with h0 | ⟨m, hm', hle⟩
      · exact h0
      · rw [hm] at hm'
        exact absurd (lt_of_lt_of_le hgt (Option.some.inj hm' ▸ hle)) (lt_irrefl _)
    obtain rfl : b = p := Except.error.inj h
    refine ⟨hb.le, fun i m hi hx => by omega, fun i m hi hx => ?_⟩
    rcases Nat.lt_or_ge b i with h | h
    · exact lt_trans hgt (hs.lt h hm hx)
    · have e : i = b := by omega
      rw [e, hm] at hx
      exact Option.some.inj hx ▸ hgt

theorem binarySearch_mem {ks : List K} (hs : Increasing ks) (k : K) :
    (∃ i, binarySearch ks k = .ok i) ↔ k ∈ ks := by
  constructor
  · rintro ⟨i, hi⟩
    exact List.mem_of_getElem? (binarySearch_ok hi)
  · intro hk
    cases h : binarySearch ks k with
    | ok i => exact ⟨i, rfl⟩
    | error p =>
      obtain ⟨j, hj⟩ := List.mem_iff_getElem?.mp hk
      obtain ⟨_, hlo, hhi⟩ := binarySearch_error hs h
      rcases Nat.lt_or_ge j p with h' | h'
      · exact absurd (hlo j k h' hj) (lt_irrefl k)
      · exact absurd (hhi j k h' hj) (lt_irrefl k)

theorem binarySearch_eq_ok_iff {ks : List K} (hs : Increasing ks) {k : K} {i : Nat} :
    binarySearch ks k = .ok i ↔ ks[i]? = some k := by
  refine ⟨binarySearch_ok, fun h => ?_⟩
  obtain ⟨j, hj⟩ := (binarySearch_mem hs k).mpr (List.mem_of_getElem? h)
  rw [hj, hs.eq_of_index (binarySearch_ok hj) h]

end
end Base
