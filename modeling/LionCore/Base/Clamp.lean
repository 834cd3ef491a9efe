import Mathlib.Algebra.BigOperators.Group.List.Basic
import Mathlib.Algebra.Order.Ring.Int
import Mathlib.Data.List.Induction
import Mathlib.Order.Bounds.Defs

/-!
# Counters that stop at zero

Signed amounts are added to a counter in `ℕ`; what would take it below zero leaves it there.

* `clamped_isGreatest`   the counter is the largest sum of a last part of the amounts, where the
                         whole counts with the start;
* `clamped_eq_iff`       **so nothing is lost exactly if no first part takes it below zero.**
-/

namespace Base

/-- the counter after the amounts -/
def clamped (x : ℕ) (ds : List ℤ) : ℕ := ds.foldl (fun (y : ℕ) d => ((y : ℤ) + d).toNat) x

theorem clamped_append (x : ℕ) (ds es : List ℤ) :
    clamped x (ds ++ es) = clamped (clamped x ds) es :=
  List.foldl_append

theorem clamped_isGreatest (x : ℕ) (ds : List ℤ) :
    IsGreatest {s : ℤ | s = x + ds.sum ∨ ∃ es, es <:+ ds ∧ s = es.sum} (clamped x ds) := by
  induction ds using List.reverseRecOn with
  | nil =>
    refine ⟨Or.inl (Int.add_zero _).symm, fun s hs => ?_⟩
    rcases hs with rfl | ⟨es, hes, rfl⟩
    · exact (Int.add_zero _).le
    · rw [List.suffix_nil.mp hes]
      exact Int.natCast_nonneg _
  | append_singleton ds d ih =>
    obtain ⟨hmem, hle⟩ := ih
    have hend : (clamped x (ds ++ [d]) : ℤ) = max (clamped x ds + d) 0 := by
      rw [clamped_append]
      exact Int.ofNat_toNat _
    have hsum : ∀ es : List ℤ, (es ++ [d]).sum = es.sum + d := fun es => by simp
    refine ⟨?_, fun s hs => ?_⟩
    · -- where the counter stops at zero, the last part is empty
      rcases le_total (clamped x ds + d : ℤ) 0 with hneg | hpos
      · rw [hend, max_eq_right hneg]
        exact Or.inr ⟨[], List.nil_suffix, rfl⟩
      · rw [hend, max_eq_left hpos]
        rcases hmem with h | ⟨es, hes, h⟩
        · left
          rw [h, hsum]
          omega
        · right
          obtain ⟨front, rfl⟩ := hes
          exact ⟨es ++ [d], ⟨front, (List.append_assoc ..).symm⟩, by rw [h, hsum]⟩
    · rw [hend, le_max_iff]
      rcases hs with rfl | ⟨es, hes, rfl⟩
      · left
        have h := hle (Or.inl rfl)
        rw [hsum]
        omega
      · rcases List.suffix_concat_iff.mp hes with rfl | ⟨fs, rfl, hfs⟩
        · exact Or.inr le_rfl
        · left
          have h := hle (Or.inr ⟨fs, hfs, rfl⟩)
          rw [hsum]
          omega

theorem clamped_eq_iff (x : ℕ) (ds : List ℤ) :
    (clamped x ds : ℤ) = x + ds.sum ↔ ∀ es, es <+: ds → 0 ≤ x + es.sum := by
  obtain ⟨hmem, hle⟩ := clamped_isGreatest x ds
  constructor
  · intro h es hes
    obtain ⟨fs, rfl⟩ := hes
    have hfs := hle (Or.inr ⟨fs, List.suffix_append es fs, rfl⟩)
    rw [h, List.sum_append] at hfs
    omega
  · intro h
    rcases hmem with hall | ⟨fs, hfs, hsum⟩
    · exact hall
    · apply le_antisymm _ (hle (Or.inl rfl))
      obtain ⟨es, rfl⟩ := hfs
      have hes := h es (List.prefix_append es fs)
      rw [hsum, List.sum_append]
      omega

end Base
