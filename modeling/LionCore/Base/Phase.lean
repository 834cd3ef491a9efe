import Mathlib.Order.Basic
import LionCore.Base.Run

/-!
# The life of a name

A name is not yet born, alive with an owner, or dead.  The phases are ordered by time: nothing is
before `unborn` or after `dead`, and two lives with different owners are not comparable.

* `Phase.le_iff`                the order, and what it says of a life (`live_le_iff`);
* `run_le_of`                   what never goes down in a step never goes down in a run.
-/

set_option linter.unusedSectionVars false

namespace Base

section
variable {O : Type*}

inductive Phase (O : Type*)
  | unborn
  | live (owner : O)
  | dead
  deriving DecidableEq

namespace Phase

instance : PartialOrder (Phase O) where
  le p q := p = q ∨ p = unborn ∨ q = dead
  le_refl p := Or.inl rfl
  le_trans p q r h h' := by
    rcases h with rfl | rfl | rfl
    · exact h'
    · exact Or.inr (Or.inl rfl)
    · rcases h' with rfl | h' | rfl
      · exact Or.inr (Or.inr rfl)
      · cases h'
      · exact Or.inr (Or.inr rfl)
  le_antisymm p q h h' := by
    rcases h with rfl | rfl | rfl
    · rfl
    · rcases h' with rfl | rfl | h'
      · rfl
      · rfl
      · cases h'
    · rcases h' with rfl | h' | rfl
      · rfl
      · cases h'
      · rfl

theorem le_iff (p q : Phase O) : p ≤ q ↔ p = q ∨ p = unborn ∨ q = dead := Iff.rfl

theorem unborn_le (p : Phase O) : unborn ≤ p := Or.inr (Or.inl rfl)

theorem le_dead (p : Phase O) : p ≤ dead := Or.inr (Or.inr rfl)

/-- a life goes on with the same owner or ends -/
theorem live_le_iff (o : O) (p : Phase O) : live o ≤ p ↔ p = live o ∨ p = dead := by
  rw [le_iff]
  exact ⟨fun h => h.elim (fun h => Or.inl h.symm) fun h => h.elim nofun Or.inr,
    fun h => h.elim (fun h => Or.inl h.symm) fun h => Or.inr (Or.inr h)⟩

theorem owner_eq_of_le {o o' : O} (h : (live o : Phase O) ≤ live o') : o' = o :=
  ((live_le_iff o _).mp h).elim (fun e => by cases e; rfl) nofun

end Phase
end

/-! ## what only grows -/

section
variable {S A T : Type*} [Preorder T]

/-- **What only grows.**  If every transition into an `ok` state comes from an `ok` state and does
not lower the observation, then a run that ends in an `ok` state has not lowered it. -/
theorem run_le_of {f : S → A → S} (inv ok : S → Prop) (obs : S → T)
    (keep : ∀ s a, inv s → inv (f s a)) (back : ∀ s a, inv s → ok (f s a) → ok s)
    (step : ∀ s a, inv s → ok (f s a) → obs s ≤ obs (f s a)) {s : S} (as : List A) (h : inv s)
    (hok : ok (run f s as)) : ok s ∧ obs s ≤ obs (run f s as) := by
  induction as generalizing s with
  | nil => exact ⟨hok, le_rfl⟩
  | cons a as ih =>
    obtain ⟨hok', hle⟩ := ih (keep s a h) hok
    exact ⟨back s a h hok', (step s a h hok').trans hle⟩

end
end Base
