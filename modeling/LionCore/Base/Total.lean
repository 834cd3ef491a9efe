import Mathlib.Algebra.Order.BigOperators.Group.List
import Mathlib.Algebra.Order.Ring.Nat
import LionCore.Base.Run

/-!
# Sums over lists, and what a run costs

* `sum_map_eq_iff_of_le`   sums of functions one of which is below the other;
* `sum_set_add`            the sum after one entry is set;
* `sum_map_of_ne`          sums of functions that differ at one element;
* `total`                  the cost of a run;
* `total_le_potential`     a run cannot cost more than the potential that pays for every action.
-/

namespace Base

/-! ## sums over lists -/

section
variable {A : Type*}

theorem sum_map_eq_iff_of_le {f g : A → Nat} (l : List A) (h : ∀ a ∈ l, f a ≤ g a) :
    (l.map f).sum = (l.map g).sum ↔ ∀ a ∈ l, f a = g a := by
  constructor
  · intro he a ha
    by_contra hne
    have hlt : (l.map f).sum < (l.map g).sum :=
      List.sum_lt_sum f g h ⟨a, ha, lt_of_le_of_ne (h a ha) hne⟩
    omega
  · intro he
    exact congrArg List.sum (List.map_congr_left he)

theorem sum_set_add (l : List Nat) {i : Nat} (hi : i < l.length) (x : Nat) :
    (l.set i x).sum + l[i] = l.sum + x := by
  have hsplit : l.sum = (l.take i).sum + (l[i] + (l.drop (i + 1)).sum) := by
    rw [← List.sum_cons, ← List.drop_eq_getElem_cons hi, List.sum_take_add_sum_drop]
  rw [List.sum_set, if_pos hi]
  omega

/-- two functions that differ at one element of the list only -/
theorem sum_map_of_ne {f g : A → Nat} {l : List A} (hl : l.Nodup) {a : A} (ha : a ∈ l)
    (h : ∀ b, b ≠ a → g b = f b) : (l.map g).sum + f a = (l.map f).sum + g a := by
  classical
  have hrest : (l.erase a).map g = (l.erase a).map f := by
    refine List.map_congr_left fun b hb => h b ?_
    exact (hl.mem_erase_iff.mp hb).1
  have hf := List.sum_map_erase f ha
  have hg := List.sum_map_erase g ha
  rw [hrest] at hg
  omega

end

/-! ## the cost of a run -/

section
variable {S A : Type*}

/-- what the actions of a run cost together -/
def total (f : S → A → S) (cost : S → A → Nat) : S → List A → Nat
  | _, [] => 0
  | s, a :: as => cost s a + total f cost (f s a) as

/-- **Potential**: if every action pays its cost from a potential `p`, a run costs at most what
the potential has lost; `inv` is what every action keeps. -/
theorem total_le_potential {f : S → A → S} {cost : S → A → Nat} {p : S → Nat} {inv : S → Prop}
    (keep : ∀ s a, inv s → inv (f s a)) (pay : ∀ s a, inv s → p (f s a) + cost s a ≤ p s)
    {s : S} (as : List A) (hs : inv s) :
    p (run f s as) + total f cost s as ≤ p s := by
  induction as generalizing s with
  | nil => exact le_rfl
  | cons a as ih =>
    have hrest := ih (keep s a hs)
    have hfirst := pay s a hs
    show p (run f (f s a) as) + (cost s a + total f cost (f s a) as) ≤ p s
    omega

end
end Base
