import LionCore.Types.Policy
import Mathlib.Data.List.Nodup

/-!
# Putting policies together

The combinators of decisions, and what their answer says about policies that cannot decide yet.

* `PolicyExpr`            policies put together by the combinators;
* `Completes`             the undecided policies have made up their minds;
* `PolicyExpr.decided`    without `override`, a decision stands whatever they come to decide;
* `PolicyExpr.reaches`    where each policy occurs once, they can still bring about any decision
                          that has not been excluded;
* `policy_decides`        **main result**: so an answer is a decision exactly if it stands.
-/

namespace LionCore

namespace PolicyDecision

/-- a deny on either side is a deny -/
def combine : PolicyDecision → PolicyDecision → PolicyDecision
  | .deny, _ | _, .deny => .deny
  | .permit, .permit => .permit
  | _, _ => .indeterminate

def andPolicy : PolicyDecision → PolicyDecision → PolicyDecision
  | .permit, .permit => .permit
  | .deny, _ | _, .deny => .deny
  | _, _ => .indeterminate

def orPolicy : PolicyDecision → PolicyDecision → PolicyDecision
  | .permit, _ | _, .permit => .permit
  | .deny, .deny => .deny
  | _, _ => .indeterminate

def notPolicy : PolicyDecision → PolicyDecision
  | .permit => .deny
  | .deny => .permit
  | .indeterminate => .indeterminate

/-- the first decision wins -/
def overridePolicy : PolicyDecision → PolicyDecision → PolicyDecision
  | .indeterminate, other => other
  | d, _ => d

def impliesPolicy : PolicyDecision → PolicyDecision → PolicyDecision
  | .permit, other => other
  | .deny, _ => .permit
  | .indeterminate, _ => .indeterminate

def isDeterminate : PolicyDecision → Bool
  | .indeterminate => false
  | _ => true

/-- the two decisions -/
def ofBool : Bool → PolicyDecision
  | true => .permit
  | false => .deny

/-- the two conjunctions are written differently and are the same -/
theorem combine_eq_andPolicy (d d' : PolicyDecision) : d.combine d' = d.andPolicy d' := by
  cases d <;> cases d' <;> rfl

/-- `d'` is what `d` has come to be: the same, or anything if `d` was open -/
def Settles (d d' : PolicyDecision) : Prop := d = .indeterminate ∨ d' = d

section
variable {d d' e e' : PolicyDecision}

theorem Settles.andPolicy (h : d.Settles d') (h' : e.Settles e') :
    (d.andPolicy e).Settles (d'.andPolicy e') := by
  rcases h with rfl | rfl <;> rcases h' with rfl | rfl
  · exact Or.inl rfl
  · cases e' with
    | deny => cases d' <;> exact Or.inr rfl
    | permit | indeterminate => exact Or.inl rfl
  · cases d' with
    | deny => exact Or.inr rfl
    | permit | indeterminate => exact Or.inl rfl
  · exact Or.inr rfl

theorem Settles.orPolicy (h : d.Settles d') (h' : e.Settles e') :
    (d.orPolicy e).Settles (d'.orPolicy e') := by
  rcases h with rfl | rfl <;> rcases h' with rfl | rfl
  · exact Or.inl rfl
  · cases e' with
    | permit => cases d' <;> exact Or.inr rfl
    | deny | indeterminate => exact Or.inl rfl
  · cases d' with
    | permit => exact Or.inr rfl
    | deny | indeterminate => exact Or.inl rfl
  · exact Or.inr rfl

theorem Settles.notPolicy (h : d.Settles d') : d.notPolicy.Settles d'.notPolicy := by
  rcases h with rfl | rfl
  · exact Or.inl rfl
  · exact Or.inr rfl

/-- an open antecedent leaves the implication open, whatever follows -/
theorem Settles.impliesPolicy (h : d.Settles d') (h' : e.Settles e') :
    (d.impliesPolicy e).Settles (d'.impliesPolicy e') := by
  rcases h with rfl | rfl
  · exact Or.inl rfl
  · cases d' with
    | permit => exact h'
    | deny => exact Or.inr rfl
    | indeterminate => exact Or.inl rfl

end
end PolicyDecision

/-! ## expressions -/

/-- policies put together -/
inductive PolicyExpr (V : Type)
  | policy (v : V)
  | combine (a b : PolicyExpr V)
  | and (a b : PolicyExpr V)
  | or (a b : PolicyExpr V)
  | not (a : PolicyExpr V)
  | override (a b : PolicyExpr V)
  | implies (a b : PolicyExpr V)

/-- `σ` decides everywhere, and as `ρ` does where that decides -/
def Completes {V : Type} (ρ σ : V → PolicyDecision) : Prop :=
  ∀ v, (σ v).isDeterminate = true ∧ (ρ v).Settles (σ v)

namespace PolicyExpr
variable {V : Type}

def eval (ρ : V → PolicyDecision) : PolicyExpr V → PolicyDecision
  | policy v => ρ v
  | combine a b => (a.eval ρ).combine (b.eval ρ)
  | and a b => (a.eval ρ).andPolicy (b.eval ρ)
  | or a b => (a.eval ρ).orPolicy (b.eval ρ)
  | not a => (a.eval ρ).notPolicy
  | override a b => (a.eval ρ).overridePolicy (b.eval ρ)
  | implies a b => (a.eval ρ).impliesPolicy (b.eval ρ)

/-- the policies, as often as they occur -/
def policies : PolicyExpr V → List V
  | policy v => [v]
  | combine a b | and a b | or a b | override a b | implies a b => a.policies ++ b.policies
  | not a => a.policies

/-- nothing is overridden -/
def Plain : PolicyExpr V → Prop
  | policy _ => True
  | combine a b | and a b | or a b | implies a b => a.Plain ∧ b.Plain
  | not a => a.Plain
  | override _ _ => False

/-- nothing is overridden, and nothing waits for an antecedent -/
def Eager : PolicyExpr V → Prop
  | policy _ => True
  | combine a b | and a b | or a b => a.Eager ∧ b.Eager
  | not a => a.Eager
  | override _ _ | implies _ _ => False

/-- **Without `override`, what has been decided stands.** -/
theorem settles {e : PolicyExpr V} (he : e.Plain) {ρ σ : V → PolicyDecision}
    (h : ∀ v, (ρ v).Settles (σ v)) : (e.eval ρ).Settles (e.eval σ) := by
  induction e with
  | policy v => exact h v
  | combine a b iha ihb =>
    simp only [eval, PolicyDecision.combine_eq_andPolicy]
    exact (iha he.1).andPolicy (ihb he.2)
  | and a b iha ihb => exact (iha he.1).andPolicy (ihb he.2)
  | or a b iha ihb => exact (iha he.1).orPolicy (ihb he.2)
  | not a iha => exact (iha he).notPolicy
  | override a b => exact he.elim
  | implies a b iha ihb => exact (iha he.1).impliesPolicy (ihb he.2)

theorem decided {e : PolicyExpr V} (he : e.Plain) {ρ σ : V → PolicyDecision}
    (h : Completes ρ σ) {b : Bool} (hb : e.eval ρ = .ofBool b) : e.eval σ = .ofBool b := by
  rcases settles he fun v => (h v).2 with hopen | hsame
  · rw [hb] at hopen
    cases b <;> cases hopen
  · exact hsame.trans hb

theorem eval_congr {e : PolicyExpr V} {ρ σ : V → PolicyDecision}
    (h : ∀ v ∈ e.policies, ρ v = σ v) : e.eval ρ = e.eval σ := by
  induction e with
  | policy v => exact h v List.mem_cons_self
  | not a iha => exact congrArg PolicyDecision.notPolicy (iha h)
  | combine a b iha ihb | and a b iha ihb | or a b iha ihb | override a b iha ihb
  | implies a b iha ihb =>
    have ha := iha fun v hv => h v (List.mem_append_left _ hv)
    have hb := ihb fun v hv => h v (List.mem_append_right _ hv)
    simp only [eval, ha, hb]

/-! ## what the open policies can still bring about -/

/-- the open policies all decide `b` -/
def complete (b : Bool) (ρ : V → PolicyDecision) (v : V) : PolicyDecision :=
  match ρ v with
  | .indeterminate => .ofBool b
  | d => d

theorem completes_complete (b : Bool) (ρ : V → PolicyDecision) : Completes ρ (complete b ρ) := by
  intro v
  unfold complete
  cases ρ v with
  | indeterminate => exact ⟨by cases b <;> rfl, Or.inl rfl⟩
  | permit | deny => exact ⟨rfl, Or.inr rfl⟩

/-- the policies of `a` decide as in `σ`, the others as in `τ` -/
theorem exists_merged [DecidableEq V] {a b : PolicyExpr V}
    (hdisj : ∀ v ∈ a.policies, v ∉ b.policies) {ρ σ τ : V → PolicyDecision}
    (hσ : Completes ρ σ) (hτ : Completes ρ τ) :
    ∃ μ, Completes ρ μ ∧ a.eval μ = a.eval σ ∧ b.eval μ = b.eval τ := by
  refine ⟨fun v => if v ∈ a.policies then σ v else τ v, fun v => ?_, ?_, ?_⟩
  · by_cases hv : v ∈ a.policies
    · simp only [if_pos hv]
      exact hσ v
    · simp only [if_neg hv]
      exact hτ v
  · apply eval_congr
    intro v hv
    exact if_pos hv
  · apply eval_congr
    intro v hv
    exact if_neg fun ha => hdisj v ha hv

/-- a conjunction of independent expressions -/
theorem reaches_and [DecidableEq V] {a b : PolicyExpr V}
    (hdisj : ∀ v ∈ a.policies, v ∉ b.policies) {ρ : V → PolicyDecision}
    (ha : ∀ c, a.eval ρ ≠ .ofBool (!c) → ∃ σ, Completes ρ σ ∧ a.eval σ = .ofBool c)
    (hb : ∀ c, b.eval ρ ≠ .ofBool (!c) → ∃ σ, Completes ρ σ ∧ b.eval σ = .ofBool c)
    {c : Bool} (hc : (a.eval ρ).andPolicy (b.eval ρ) ≠ .ofBool (!c)) :
    ∃ σ, Completes ρ σ ∧ (a.eval σ).andPolicy (b.eval σ) = .ofBool c := by
  cases c with
  | true =>
    have hna : a.eval ρ ≠ .deny := fun h => hc (by rw [h]; rfl)
    have hnb : b.eval ρ ≠ .deny := fun h => hc (by rw [h]; cases a.eval ρ <;> rfl)
    obtain ⟨σ, hσ, hea⟩ := ha true hna
    obtain ⟨τ, hτ, heb⟩ := hb true hnb
    obtain ⟨μ, hμ, e, e'⟩ := exists_merged hdisj hσ hτ
    exact ⟨μ, hμ, by rw [e, e', hea, heb]; rfl⟩
  | false =>
    by_cases hpa : a.eval ρ = .permit
    · have hnb : b.eval ρ ≠ .permit := fun h => hc (by rw [hpa, h]; rfl)
      obtain ⟨τ, hτ, heb⟩ := hb false hnb
      exact ⟨τ, hτ, by rw [heb]; cases a.eval τ <;> rfl⟩
    · obtain ⟨σ, hσ, hea⟩ := ha false hpa
      exact ⟨σ, hσ, by rw [hea]; rfl⟩

/-- a disjunction is the conjunction, turned over -/
theorem orPolicy_eq (d d' : PolicyDecision) :
    d.orPolicy d' = (d.notPolicy.andPolicy d'.notPolicy).notPolicy := by
  cases d <;> cases d' <;> rfl

theorem notPolicy_eq_iff (d : PolicyDecision) (b : Bool) :
    d.notPolicy = .ofBool b ↔ d = .ofBool (!b) := by
  cases d <;> cases b <;> decide

theorem reaches_not {a : PolicyExpr V} {ρ : V → PolicyDecision}
    (ha : ∀ c, a.eval ρ ≠ .ofBool (!c) → ∃ σ, Completes ρ σ ∧ a.eval σ = .ofBool c) {c : Bool}
    (hc : (not a).eval ρ ≠ .ofBool (!c)) :
    ∃ σ, Completes ρ σ ∧ (not a).eval σ = .ofBool c := by
  obtain ⟨σ, hσ, e⟩ := ha (!c) fun h => hc ((notPolicy_eq_iff _ _).mpr h)
  exact ⟨σ, hσ, (notPolicy_eq_iff _ _).mpr e⟩

/-- **Where each policy occurs once, any decision that is not excluded can come about.** -/
theorem reaches [DecidableEq V] {e : PolicyExpr V} (he : e.Eager) (hnodup : e.policies.Nodup)
    {ρ : V → PolicyDecision} (b : Bool) (hb : e.eval ρ ≠ .ofBool (!b)) :
    ∃ σ, Completes ρ σ ∧ e.eval σ = .ofBool b := by
  induction e generalizing b with
  | policy v =>
    refine ⟨complete b ρ, completes_complete b ρ, ?_⟩
    have hv : ρ v ≠ .ofBool (!b) := hb
    show complete b ρ v = _
    unfold complete
    cases hd : ρ v with
    | indeterminate => rfl
    | permit | deny =>
      rw [hd] at hv
      cases b <;> first | rfl | exact absurd rfl hv
  | not a iha => exact reaches_not (iha he hnodup) hb
  | and a c iha ihc =>
    obtain ⟨ha, hc, hdisj⟩ := List.nodup_append.mp hnodup
    exact reaches_and (fun v hv hv' => hdisj v hv v hv' rfl) (iha he.1 ha) (ihc he.2 hc) hb
  | combine a c iha ihc =>
    obtain ⟨ha, hc, hdisj⟩ := List.nodup_append.mp hnodup
    simp only [eval, PolicyDecision.combine_eq_andPolicy] at hb ⊢
    exact reaches_and (fun v hv hv' => hdisj v hv v hv' rfl) (iha he.1 ha) (ihc he.2 hc) hb
  | or a c iha ihc =>
    obtain ⟨ha, hc, hdisj⟩ := List.nodup_append.mp hnodup
    have hnot : ∀ σ, (or a c).eval σ = (not (and (not a) (not c))).eval σ :=
      fun σ => orPolicy_eq _ _
    simp only [hnot] at hb ⊢
    refine reaches_not (fun d hd => ?_) hb
    exact reaches_and (a := not a) (b := not c) (fun v hv hv' => hdisj v hv v hv' rfl)
      (fun d => reaches_not (iha he.1 ha)) (fun d => reaches_not (ihc he.2 hc)) hd
  | override a c | implies a c => exact he.elim

end PolicyExpr

/-- **Main result**: put together without `override`, a permit or deny is the answer of the same
policies whatever the undecided ones come to decide.  If each policy occurs once and no implication
waits for its antecedent, the converse holds too: the answer is open only if the undecided policies
can still bring about either. -/
theorem policy_decides {V : Type} [DecidableEq V] (e : PolicyExpr V) (ρ : V → PolicyDecision)
    (b : Bool) :
    (e.Plain → e.eval ρ = .ofBool b → ∀ σ, Completes ρ σ → e.eval σ = .ofBool b) ∧
      (e.Eager → e.policies.Nodup →
        ((∀ σ, Completes ρ σ → e.eval σ = .ofBool b) → e.eval ρ = .ofBool b) ∧
        (e.eval ρ = .indeterminate → ∃ σ, Completes ρ σ ∧ e.eval σ = .ofBool b)) := by
  refine ⟨fun he hb σ hσ => PolicyExpr.decided he hσ hb, fun he hnodup => ⟨fun h => ?_, ?_⟩⟩
  · by_contra hb
    have hne : e.eval ρ ≠ .ofBool (!!b) := by
      rw [Bool.not_not]
      exact hb
    obtain ⟨σ, hσ, e'⟩ := PolicyExpr.reaches he hnodup (!b) hne
    rw [h σ hσ] at e'
    cases b <;> cases e'
  · intro hopen
    apply PolicyExpr.reaches he hnodup b
    rw [hopen]
    cases b <;> nofun

/-- overriding is not safe: a permit falls back to a deny when the first policy decides -/
example : (PolicyExpr.override (.policy true) (.policy false)).eval
      (fun v => if v then .indeterminate else .permit) = .permit ∧
    (PolicyExpr.override (.policy true) (.policy false)).eval
      (fun v => if v then .deny else .permit) = .deny := by
  decide

end LionCore
