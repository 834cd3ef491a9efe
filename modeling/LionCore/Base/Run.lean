import Mathlib.Data.List.Basic

/-!
# Runs of a state machine

A total transition function `f` gives runs (`run`), a transition relation gives traces that
record the actions an observer sees (`Trace`).

* `run_invariant`      what one transition keeps, a run keeps; `Along` puts a condition on every
                       action in the state that it meets;
* `prefixes_iff_along_of`   the same for a condition that is exact, on the actions allowed;
* `run_turns`          what holds only at the end has become true at some action;
* `run_last_write`     what actions write or leave is in the end what was last written;
* `run_outputs`        what goes into a run and what comes out of it;
* `runOpt_relates`     two machines that can stop, and do so together;
* `runOpt_prefixes_iff`   a machine that never stops and keeps a property all the way;
* `Trace.unwinding`    two traces with the same visible actions keep a relation that hidden
                       actions respect and visible actions carry along.
-/

set_option linter.unusedSectionVars false

namespace Base

/-! ## total machines -/

section
variable {S A : Type*}

/-- the state that the actions leave -/
def run (f : S → A → S) (s : S) (as : List A) : S := as.foldl f s

/-- every action meets `ok` in the state in which it runs -/
def Along (f : S → A → S) (ok : S → A → Prop) : S → List A → Prop
  | _, [] => True
  | s, a :: as => ok s a ∧ Along f ok (f s a) as

@[simp] theorem run_nil (f : S → A → S) (s : S) : run f s [] = s := rfl

@[simp] theorem run_cons (f : S → A → S) (s : S) (a : A) (as : List A) :
    run f s (a :: as) = run f (f s a) as := rfl

theorem run_append (f : S → A → S) (s : S) (as bs : List A) :
    run f s (as ++ bs) = run f (run f s as) bs :=
  List.foldl_append

theorem run_invariant_of {f : S → A → S} {ok : S → A → Prop} {P : S → Prop}
    (step : ∀ s a, P s → ok s a → P (f s a)) {s : S} (as : List A) (h : P s)
    (hok : Along f ok s as) : P (run f s as) := by
  induction as generalizing s with
  | nil => exact h
  | cons a as ih => exact ih (step s a h hok.1) hok.2

theorem run_invariant {f : S → A → S} {P : S → Prop} (step : ∀ s a, P s → P (f s a)) {s : S}
    (as : List A) (h : P s) : P (run f s as) := by
  induction as generalizing s with
  | nil => exact h
  | cons a as ih => exact ih (step s a h)

/-- if `ok` says when an action that is `allowed` keeps `P`, it holds along a run of such actions
exactly if `P` holds all the way; `inv` is what every such action keeps -/
theorem prefixes_iff_along_of {f : S → A → S} {ok : S → A → Prop} {allowed : A → Prop}
    {inv P : S → Prop} (keep : ∀ s a, inv s → allowed a → inv (f s a))
    (h : ∀ s a, inv s → allowed a → P s → (P (f s a) ↔ ok s a)) {s : S} (as : List A)
    (hal : ∀ a ∈ as, allowed a) (hi : inv s) (hs : P s) :
    (∀ n, P (run f s (as.take n))) ↔ Along f ok s as := by
  induction as generalizing s with
  | nil => exact ⟨fun _ => trivial, fun _ n => by rwa [List.take_nil]⟩
  | cons a as ih =>
    have ha : allowed a := hal a List.mem_cons_self
    have hrest : ∀ b ∈ as, allowed b := fun b hb => hal b (List.mem_cons_of_mem a hb)
    have hi' : inv (f s a) := keep s a hi ha
    constructor
    · intro hp
      have hfirst : P (f s a) := hp 1
      exact ⟨(h s a hi ha hs).mp hfirst, (ih hrest hi' hfirst).mp fun n => hp (n + 1)⟩
    · rintro ⟨hok, hrun⟩ n
      cases n with
      | zero => exact hs
      | succ n => exact (ih hrest hi' ((h s a hi ha hs).mpr hok)).mpr hrun n

theorem prefixes_iff_along {f : S → A → S} {ok : S → A → Prop} {inv P : S → Prop}
    (keep : ∀ s a, inv s → inv (f s a)) (h : ∀ s a, inv s → P s → (P (f s a) ↔ ok s a)) {s : S}
    (as : List A) (hi : inv s) (hs : P s) :
    (∀ n, P (run f s (as.take n))) ↔ Along f ok s as :=
  prefixes_iff_along_of (fun s a hi (_ : True) => keep s a hi) (fun s a hi _ => h s a hi) as
    (fun _ _ => trivial) hi hs

/-- a property that does not hold at the start and holds at the end has become true with one of the
actions -/
theorem run_turns {f : S → A → S} {P : S → Prop} {s : S} (as : List A) (hs : ¬ P s)
    (h : P (run f s as)) : ∃ i a, as[i]? = some a ∧ ¬ P (run f s (as.take i)) ∧
      P (f (run f s (as.take i)) a) := by
  induction as generalizing s with
  | nil => exact absurd h hs
  | cons a as ih =>
    by_cases ha : P (f s a)
    · exact ⟨0, a, rfl, hs, ha⟩
    · obtain ⟨i, b, hb, hn, hp⟩ := ih ha h
      exact ⟨i + 1, b, hb, hn, hp⟩

/-- **The last write wins**: what each action writes or leaves is in the end what was last written,
or what it was. -/
theorem run_last_write {B : Type*} {f : S → A → S} {inv : S → Prop} (get : S → B)
    (write : A → Option B) (keep : ∀ s a, inv s → inv (f s a))
    (step : ∀ s a, inv s → get (f s a) = (write a).getD (get s)) {s : S} (as : List A)
    (hs : inv s) : get (run f s as) = (as.filterMap write).getLastD (get s) := by
  induction as generalizing s with
  | nil => rfl
  | cons a as ih =>
    rw [run_cons, ih (keep s a hs), step s a hs, List.filterMap_cons]
    cases write a with
    | none => rfl
    | some b => exact List.getLastD_cons.symm

theorem along_append {f : S → A → S} {ok : S → A → Prop} {s : S} (as bs : List A) :
    Along f ok s (as ++ bs) ↔ Along f ok s as ∧ Along f ok (run f s as) bs := by
  induction as generalizing s with
  | nil => exact (true_and _).symm.to_iff
  | cons a as ih =>
    show ok s a ∧ Along f ok (f s a) (as ++ bs) ↔ (ok s a ∧ Along f ok (f s a) as) ∧ _
    rw [ih, and_assoc]
    rfl

theorem along_of_forall {f : S → A → S} {ok : A → Prop} (as : List A) (h : ∀ a ∈ as, ok a)
    (s : S) : Along f (fun _ => ok) s as := by
  induction as generalizing s with
  | nil => trivial
  | cons a as ih =>
    exact ⟨h a List.mem_cons_self, ih (fun b hb => h b (List.mem_cons_of_mem a hb)) _⟩

end

/-! ## what a run puts out -/

section
variable {S A B : Type*}

/-- what the actions put out, in the order of the run -/
def outputs (f : S → A → S) (out : S → A → List B) : S → List A → List B
  | _, [] => []
  | s, a :: as => out s a ++ outputs f out (f s a) as

theorem outputs_append (f : S → A → S) (out : S → A → List B) (s : S) (as bs : List A) :
    outputs f out s (as ++ bs) = outputs f out s as ++ outputs f out (run f s as) bs := by
  induction as generalizing s with
  | nil => rfl
  | cons a as ih =>
    show out s a ++ outputs f out (f s a) (as ++ bs) = _
    rw [ih, ← List.append_assoc]
    rfl

theorem outputs_singleton (f : S → A → S) (out : S → A → List B) (s : S) (a : A) :
    outputs f out s [a] = out s a := List.append_nil _

/-- a relation between what goes in, what comes out and the two states, which holds of every
action and can be put together, holds of a run -/
theorem run_outputs {f : S → A → S} {ins outs : S → A → List B}
    {R : List B → List B → S → S → Prop} (refl : ∀ s, R [] [] s s)
    (comp : ∀ {i i' o o' s t u}, R i o s t → R i' o' t u → R (i ++ i') (o ++ o') s u)
    (step : ∀ s a, R (ins s a) (outs s a) s (f s a)) (s : S) (as : List A) :
    R (outputs f ins s as) (outputs f outs s as) s (run f s as) := by
  induction as generalizing s with
  | nil => exact refl s
  | cons a as ih => exact comp (step s a) (ih (f s a))

end

/-! ## machines that can stop -/

section
variable {S A : Type*}

/-- the state that the actions leave, unless one of them stops the machine -/
def runOpt (f : S → A → Option S) : S → List A → Option S
  | s, [] => some s
  | s, a :: as => (f s a).bind fun s' => runOpt f s' as

theorem runOpt_cons (f : S → A → Option S) (s : S) (a : A) (as : List A) :
    runOpt f s (a :: as) = (f s a).bind fun s' => runOpt f s' as := rfl

/-- two machines that stop together and keep a relation otherwise -/
theorem runOpt_relates {T : Type*} {f : S → A → Option S} {g : T → A → Option T}
    {R : S → T → Prop} {ok : A → Prop}
    (step : ∀ s t a, R s t → ok a → (f s a = none ∧ g t a = none) ∨
      ∃ s' t', f s a = some s' ∧ g t a = some t' ∧ R s' t')
    (as : List A) (hok : ∀ a ∈ as, ok a) {s : S} {t : T} (h : R s t) :
    (runOpt f s as = none ∧ runOpt g t as = none) ∨
      ∃ s' t', runOpt f s as = some s' ∧ runOpt g t as = some t' ∧ R s' t' := by
  induction as generalizing s t with
  | nil => exact Or.inr ⟨s, t, rfl, rfl, h⟩
  | cons a as ih =>
    rw [runOpt_cons, runOpt_cons]
    rcases step s t a h (hok a List.mem_cons_self) with ⟨hs, ht⟩ | ⟨s', t', hs, ht, h'⟩
    · rw [hs, ht]
      exact Or.inl ⟨rfl, rfl⟩
    · rw [hs, ht]
      exact ih (fun b hb => hok b (List.mem_cons_of_mem a hb)) h'

end

section
variable {S A : Type*}

/-- if `ok` says when an action goes through and keeps `P`, every action of a list meets it exactly
if the machine never stops and `P` holds all the way -/
theorem runOpt_prefixes_iff {f : S → A → Option S} {P : S → Prop} {ok : A → Prop}
    (h : ∀ s a, P s → ((∃ s', f s a = some s' ∧ P s') ↔ ok a)) {s : S} (as : List A) (hs : P s) :
    (∀ n, ∃ s', runOpt f s (as.take n) = some s' ∧ P s') ↔ ∀ a ∈ as, ok a := by
  induction as generalizing s with
  | nil =>
    refine iff_of_true (fun n => ⟨s, ?_, hs⟩) fun _ ha => nomatch ha
    rw [List.take_nil]
    rfl
  | cons a as ih =>
    rw [List.forall_mem_cons]
    constructor
    · intro hp
      have hfirst : ∃ s', f s a = some s' ∧ P s' := by
        obtain ⟨s', hs', hP⟩ := hp 1
        rw [List.take_succ_cons, List.take_zero, runOpt_cons] at hs'
        obtain ⟨t, ht, e⟩ := Option.bind_eq_some_iff.mp hs'
        cases e
        exact ⟨s', ht, hP⟩
      obtain ⟨t, ht, hP⟩ := hfirst
      refine ⟨(h s a hs).mp ⟨t, ht, hP⟩, (ih hP).mp fun n => ?_⟩
      have hrest := hp (n + 1)
      rwa [List.take_succ_cons, runOpt_cons, ht] at hrest
    · rintro ⟨ha, hrest⟩ n
      obtain ⟨t, ht, hP⟩ := (h s a hs).mpr ha
      cases n with
      | zero => exact ⟨s, rfl, hs⟩
      | succ n =>
        rw [List.take_succ_cons, runOpt_cons, ht]
        exact (ih hP).mpr hrest n

end

/-! ## traces and what an observer sees of them -/

section
variable {S A : Type*}

/-- `Trace step vis s as vs t`: the actions `as` lead from `s` to `t`, and `vs` are those among
them that are visible in the state in which they run -/
inductive Trace (step : S → A → S → Prop) (vis : S → A → Prop) :
    S → List A → List A → S → Prop
  | nil (s : S) : Trace step vis s [] [] s
  | visible {s s' t : S} {a : A} {as vs : List A} : vis s a → step s a s' →
      Trace step vis s' as vs t → Trace step vis s (a :: as) (a :: vs) t
  | hidden {s s' t : S} {a : A} {as vs : List A} : ¬ vis s a → step s a s' →
      Trace step vis s' as vs t → Trace step vis s (a :: as) vs t

variable {step : S → A → S → Prop} {vis : S → A → Prop} {R : S → S → Prop}

/-- what one transition keeps, a trace keeps -/
theorem Trace.invariant {P : S → Prop} (keep : ∀ s a s', P s → step s a s' → P s') {s t : S}
    {as vs : List A} (h : P s) (tr : Trace step vis s as vs t) : P t := by
  induction tr with
  | nil => exact h
  | visible _ hs _ ih => exact ih (keep _ _ _ h hs)
  | hidden _ hs _ ih => exact ih (keep _ _ _ h hs)

/-- a trace without visible actions is respected on the right -/
theorem Trace.respect (hr : ∀ s t t' a, R s t → ¬ vis t a → step t a t' → R s t')
    {s t t' : S} {as : List A} (h : R s t) (tr : Trace step vis t as [] t') : R s t' := by
  generalize hv : ([] : List A) = vs at tr
  induction tr with
  | nil => exact h
  | visible _ _ _ _ => cases hv
  | hidden hn hs _ ih => exact ih (hr _ _ _ _ h hn hs) hv

/-- **Unwinding.**  If hidden actions respect `R` on either side and equal visible actions carry
`R` along, two traces from related states with the same visible actions end in related states. -/
theorem Trace.unwinding
    (left : ∀ s s' t a, R s t → ¬ vis s a → step s a s' → R s' t)
    (right : ∀ s t t' a, R s t → ¬ vis t a → step t a t' → R s t')
    (both : ∀ s s' t t' a, R s t → vis s a → vis t a → step s a s' → step t a t' → R s' t')
    {s s' t t' : S} {as bs vs : List A} (h : R s t) (tr : Trace step vis s as vs s')
    (tr' : Trace step vis t bs vs t') : R s' t' := by
  induction tr generalizing t bs with
  | nil => exact Trace.respect right h tr'
  | hidden hn hs _ ih => exact ih (left _ _ _ _ h hn hs) tr'
  | @visible s s₁ s' a as vs hv hs _ ih =>
    -- run the second trace up to the same visible action
    generalize hw : a :: vs = ws at tr'
    induction tr' with
    | nil => cases hw
    | hidden hn hs' _ ih' => exact ih' ih (right _ _ _ _ h hn hs') hw
    | visible hv' hs' tr' _ =>
      obtain ⟨rfl, rfl⟩ := List.cons.inj hw
      exact ih (both _ _ _ _ _ h hv hv' hs hs') tr'

end
end Base
