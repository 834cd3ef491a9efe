import Mathlib.Data.List.Basic

/-!
# Runs of a labelled system, and their simulation

* `Steps`            a run, with its labels;
* `Simulates`        every transition of one system is answered by the other, under its label;
* `Simulates.steps`  and so is every run.
-/

namespace Base

section
variable {S A : Type*} {step : S → A → S → Prop}

/-- the transitions with the labels `as` lead from `s` to `t` -/
inductive Steps (step : S → A → S → Prop) : S → List A → S → Prop
  | nil (s : S) : Steps step s [] s
  | cons {s s' t : S} {a : A} {as : List A} (first : step s a s') (rest : Steps step s' as t) :
      Steps step s (a :: as) t

end

section
variable {S T A B : Type*} {step : S → A → S → Prop} {step' : T → B → T → Prop}
  {label : A → Option B} {R : S → T → Prop}

/-- a transition from a related state has a label, under which the other system answers it -/
def Simulates (step : S → A → S → Prop) (label : A → Option B) (step' : T → B → T → Prop)
    (R : S → T → Prop) : Prop :=
  ∀ s a s' t, R s t → step s a s' → ∃ b t', label a = some b ∧ step' t b t' ∧ R s' t'

theorem Simulates.steps (sim : Simulates step label step' R) {s s' : S} {as : List A} {t : T}
    (h : Steps step s as s') (hr : R s t) :
    ∃ bs t', as.map label = bs.map some ∧ Steps step' t bs t' ∧ R s' t' := by
  induction h generalizing t with
  | nil s => exact ⟨[], t, rfl, .nil t, hr⟩
  | @cons s s₁ s' a as first _ ih =>
    obtain ⟨b, t₁, hb, hstep, hr₁⟩ := sim s a s₁ t hr first
    obtain ⟨bs, t', hbs, hsteps, hr'⟩ := ih hr₁
    refine ⟨b :: bs, t', ?_, .cons hstep hsteps, hr'⟩
    rw [List.map_cons, List.map_cons, hb, hbs]

end
end Base
