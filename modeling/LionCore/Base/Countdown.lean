import LionCore.Base.Run

/-!
# Runs that count down to their goal

Every action that is allowed takes one off a measure.

* `countdown_run`     the length of a run is what the measure has lost;
* `countdown_reach`   if some action is allowed until the measure is zero, it can come to zero;
* `countdown_goal`    **so no run is a dead end**: whatever has been done, what is left to do leads
                      to zero, in as many actions as the measure says.
-/

namespace Base

section
variable {S A : Type*} {f : S → A → S} {ok : S → A → Prop} {inv : S → Prop} {m : S → Nat}

theorem countdown_run (step : ∀ s a, inv s → ok s a → inv (f s a) ∧ m (f s a) + 1 = m s) {s : S}
    (as : List A) (hs : inv s) (hok : Along f ok s as) :
    inv (run f s as) ∧ m (run f s as) + as.length = m s := by
  induction as generalizing s with
  | nil => exact ⟨hs, rfl⟩
  | cons a as ih =>
    obtain ⟨hinv, hm⟩ := step s a hs hok.1
    obtain ⟨hend, hlen⟩ := ih hinv hok.2
    refine ⟨hend, ?_⟩
    rw [run_cons, List.length_cons]
    omega

theorem countdown_reach (step : ∀ s a, inv s → ok s a → inv (f s a) ∧ m (f s a) + 1 = m s)
    (next : ∀ s, inv s → m s ≠ 0 → ∃ a, ok s a) {s : S} (hs : inv s) :
    ∃ as, Along f ok s as ∧ m (run f s as) = 0 := by
  -- by induction on the measure
  induction hk : m s generalizing s with
  | zero => exact ⟨[], trivial, hk⟩
  | succ k ih =>
    obtain ⟨a, ha⟩ := next s hs (by omega)
    obtain ⟨hinv, hm⟩ := step s a hs ha
    obtain ⟨as, hok, hzero⟩ := ih hinv (by omega)
    exact ⟨a :: as, ⟨ha, hok⟩, hzero⟩

theorem countdown_goal (step : ∀ s a, inv s → ok s a → inv (f s a) ∧ m (f s a) + 1 = m s)
    (next : ∀ s, inv s → m s ≠ 0 → ∃ a, ok s a) {s : S} (as : List A) (hs : inv s)
    (hok : Along f ok s as) :
    ∃ more, Along f ok s (as ++ more) ∧ (as ++ more).length = m s ∧
      inv (run f s (as ++ more)) ∧ m (run f s (as ++ more)) = 0 := by
  obtain ⟨hinv, _⟩ := countdown_run step as hs hok
  obtain ⟨more, hmore, hzero⟩ := countdown_reach step next hinv
  have hall : Along f ok s (as ++ more) := (along_append as more).mpr ⟨hok, hmore⟩
  obtain ⟨hend, hlen⟩ := countdown_run step (as ++ more) hs hall
  rw [← run_append] at hzero
  rw [hzero, Nat.zero_add] at hlen
  exact ⟨more, hall, hlen, hend, hzero⟩

end
end Base
