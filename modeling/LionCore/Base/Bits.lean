import LionCore.Base.Search
import Mathlib.Data.List.Sort

/-!
# A word as the set of its bits

* `positions`               the positions of the bits that are set, in increasing order;
* `getLsbD_clearLowest`     `w &&& (w - 1)` is `w` without its lowest bit;
* `positions_of_ne_zero`    so the positions of a word are the number of its trailing zeros, and
                            then those of the word without its lowest bit;
* `length_positions`        and there are as many as the word has ones.
-/

namespace Base

section
variable {n : Nat} {w : BitVec n}

/-- the positions of the bits that are set, in increasing order -/
def positions (w : BitVec n) : List Nat := (List.range n).filter w.getLsbD

theorem mem_positions (w : BitVec n) (i : Nat) : i ∈ positions w ↔ w.getLsbD i = true := by
  unfold positions
  rw [List.mem_filter, List.mem_range]
  exact ⟨fun h => h.2, fun h => ⟨BitVec.lt_of_getLsbD h, h⟩⟩

theorem positions_increasing (w : BitVec n) : Increasing (positions w) :=
  List.pairwise_lt_range.filter w.getLsbD

theorem positions_zero : positions (0#n) = [] := by
  apply List.eq_nil_iff_forall_not_mem.mpr
  intro i hi
  have h := (mem_positions _ _).mp hi
  simp at h

theorem length_positions (w : BitVec n) : (positions w).length = w.cpop.toNat := by
  have count : ∀ k, ((List.range k).filter w.getLsbD).length = w.cpopNatRec k 0 := by
    intro k
    induction k with
    | zero => rfl
    | succ k ih =>
      rw [List.range_succ, List.filter_append, List.length_append, ih, BitVec.cpopNatRec_succ,
        BitVec.cpopNatRec_eq (0 + _)]
      cases h : w.getLsbD k <;> simp [h]
  rw [BitVec.toNat_cpop]
  exact count n

/-! ## the lowest bit -/

/-- the word without its lowest bit -/
def clearLowest (w : BitVec n) : BitVec n := w &&& (w - 1#n)

theorem getLsbD_ctz (hw : w ≠ 0#n) : w.getLsbD w.ctz.toNat = true :=
  BitVec.getLsbD_true_ctz_of_ne_zero hw

/-- below the lowest bit a decrement sets all bits, above it no bit changes -/
theorem testBit_pred {x i : Nat} (hlow : ∀ j, j < i → x.testBit j = false)
    (hi : x.testBit i = true) (j : Nat) :
    (x - 1).testBit j = if j ≤ i then decide (j < i) else x.testBit j := by
  have hdiv : 2 ^ i ∣ x := by
    apply Nat.dvd_of_mod_eq_zero
    apply Nat.eq_of_testBit_eq
    intro j
    rw [Nat.testBit_mod_two_pow, Nat.zero_testBit]
    by_cases hj : j < i
    · rw [hlow j hj, Bool.and_false]
    · rw [decide_eq_false hj, Bool.false_and]
  obtain ⟨y, rfl⟩ := hdiv
  have hodd : y.testBit 0 = true := by
    have h := Nat.testBit_two_pow_mul_add y (Nat.two_pow_pos i) i
    rw [Nat.add_zero, hi, if_neg (Nat.lt_irrefl i), Nat.sub_self] at h
    exact h.symm
  have hy : y % 2 = 1 := by simpa using hodd
  have hpos : 0 < 2 ^ i := Nat.two_pow_pos i
  have hpred : 2 ^ i * y - 1 = 2 ^ i * (y - 1) + (2 ^ i - 1) := by
    have hmul : 2 ^ i * y = 2 ^ i * (y - 1) + 2 ^ i := by
      rw [← Nat.mul_succ]
      congr 1
      omega
    omega
  rw [hpred, Nat.testBit_two_pow_mul_add _ (Nat.sub_lt hpos Nat.one_pos)]
  rcases Nat.lt_trichotomy j i with hj | rfl | hj
  · rw [if_pos hj, if_pos hj.le, Nat.testBit_two_pow_sub_one]
  · have heven : (y - 1) % 2 = 0 := by omega
    rw [if_neg (Nat.lt_irrefl j), if_pos le_rfl, Nat.sub_self, decide_eq_false (Nat.lt_irrefl j)]
    simp [heven]
  · rw [if_neg (Nat.lt_asymm hj), if_neg (Nat.not_le.mpr hj)]
    have h := Nat.testBit_two_pow_mul_add y hpos j
    rw [Nat.add_zero, if_neg (Nat.lt_asymm hj)] at h
    rw [h]
    obtain ⟨k, hk⟩ : ∃ k, j - i = k + 1 := ⟨j - i - 1, by omega⟩
    rw [hk, Nat.testBit_succ, Nat.testBit_succ]
    congr 1
    omega

theorem getLsbD_clearLowest (hw : w ≠ 0#n) (j : Nat) :
    (clearLowest w).getLsbD j = (w.getLsbD j && decide (j ≠ w.ctz.toNat)) := by
  have hlow : ∀ i, i < w.ctz.toNat → w.toNat.testBit i = false :=
    fun i hi => BitVec.getLsbD_false_of_lt_ctz hi
  have hbit : w.toNat.testBit w.ctz.toNat = true := getLsbD_ctz hw
  have hpos : 1 ≤ w.toNat := by
    rcases Nat.eq_zero_or_pos w.toNat with h | h
    · rw [h, Nat.zero_testBit] at hbit
      cases hbit
    · exact h
  have hone : (1#n).toNat = 1 := Nat.mod_eq_of_lt (Nat.lt_of_le_of_lt hpos w.isLt)
  have hsub : (w - 1#n).toNat = w.toNat - 1 := by
    have hle : 1#n ≤ w := by
      rw [BitVec.le_def, hone]
      exact hpos
    rw [BitVec.toNat_sub_of_le hle, hone]
  unfold clearLowest
  rw [BitVec.getLsbD_and]
  show (w.getLsbD j && (w - 1#n).toNat.testBit j) = _
  rw [hsub, testBit_pred hlow hbit j]
  rcases Nat.lt_trichotomy j w.ctz.toNat with hj | rfl | hj
  · have hfalse : w.getLsbD j = false := hlow j hj
    rw [hfalse, Bool.false_and, Bool.false_and]
  · simp
  · have hself : w.toNat.testBit j = w.getLsbD j := rfl
    rw [if_neg (Nat.not_le.mpr hj), hself, Bool.and_self, decide_eq_true (Nat.ne_of_gt hj),
      Bool.and_true]

/-- **The positions of a word, from its lowest bit on.** -/
theorem positions_of_ne_zero (hw : w ≠ 0#n) :
    positions w = w.ctz.toNat :: positions (clearLowest w) := by
  have hinc : Increasing (w.ctz.toNat :: positions (clearLowest w)) := by
    apply List.pairwise_cons.mpr
    refine ⟨fun j hj => ?_, positions_increasing _⟩
    rw [mem_positions, getLsbD_clearLowest hw, Bool.and_eq_true, decide_eq_true_iff] at hj
    apply Nat.lt_of_le_of_ne _ (Ne.symm hj.2)
    by_contra hlt
    have hfalse := BitVec.getLsbD_false_of_lt_ctz (Nat.not_le.mp hlt)
    rw [hj.1] at hfalse
    cases hfalse
  apply List.Pairwise.eq_of_mem_iff (positions_increasing w) hinc
  intro j
  rw [List.mem_cons, mem_positions, mem_positions, getLsbD_clearLowest hw, Bool.and_eq_true,
    decide_eq_true_iff]
  by_cases hj : j = w.ctz.toNat
  · subst hj
    simp [getLsbD_ctz hw]
  · simp [hj]

/-- a loop that clears the lowest bit comes to an end -/
theorem clearLowest_lt (hw : w ≠ 0#n) : (clearLowest w).toNat < w.toNat := by
  apply Nat.lt_of_le_of_ne
  · exact Nat.and_le_left
  · intro h
    have heq : clearLowest w = w := BitVec.eq_of_toNat_eq h
    have hbit := getLsbD_clearLowest hw w.ctz.toNat
    rw [heq, getLsbD_ctz hw] at hbit
    simp at hbit

end
end Base
