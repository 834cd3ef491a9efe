import Mathlib.Logic.Relation
import Mathlib.Data.Set.Basic

/-!
# Forests given by parent pointers

A parent function `par : K → Option K` need not be a forest: pointers may dangle and chains may
close up.  What is proved here holds for any parent function.

* `Above`, `nth`         the strict ancestors of a key, and the ancestor `n` steps up;
* `walk`                 the search upward with a bounded number of steps: `walk_iff` says it finds
                         exactly the ancestors within the bound;
* `walk_rank_iff`        the rank of a key is bound enough when parents have smaller rank;
* `Grounded`             the chain is finite, every key on it is good, and it ends in a root;
* `Forest.AllGrounded`   preserved when a key is grown below a live one (`grow`) and when a set is
                         cut that is closed downward (`cut`).
-/

set_option linter.unusedSectionVars false

namespace Base

section
variable {K : Type*}

/-- `a` is a strict ancestor of `k` -/
def Above (par : K → Option K) (a k : K) : Prop :=
  Relation.TransGen (fun x y => par x = some y) k a

/-- the key `n` steps up from `k` -/
def nth (par : K → Option K) : Nat → K → Option K
  | 0, k => some k
  | n + 1, k => (par k).bind (nth par n)

/-- going up from `k`, is `a` met within `n` steps? -/
def walk [DecidableEq K] (par : K → Option K) (a : K) : Nat → K → Bool
  | 0, _ => false
  | n + 1, k =>
    match par k with
    | none => false
    | some p => if p = a then true else walk par a n p

/-- the chain of `k` ends in a root, and every key on it (with `k`) is `good` -/
inductive Grounded (par : K → Option K) (good : K → Prop) : K → Prop
  | root {k : K} : good k → par k = none → Grounded par good k
  | child {k p : K} : good k → par k = some p → Grounded par good p → Grounded par good k

/-! ## ancestors -/

theorem Above.parent {par : K → Option K} {a k : K} (h : par k = some a) : Above par a k :=
  Relation.TransGen.single h

theorem Above.step {par : K → Option K} {a p k : K} (h : par k = some p) (ha : Above par a p) :
    Above par a k :=
  Relation.TransGen.head h ha

theorem Above.cases {par : K → Option K} {a k : K} (h : Above par a k) :
    ∃ p, par k = some p ∧ (p = a ∨ Above par a p) := by
  obtain ⟨p, hp, hr⟩ := Relation.TransGen.head'_iff.mp h
  refine ⟨p, hp, ?_⟩
  rcases Relation.reflTransGen_iff_eq_or_transGen.mp hr with e | ha
  · exact Or.inl e.symm
  · exact Or.inr ha

theorem Above.trans {par : K → Option K} {a b k : K} (h : Above par a b) (hb : Above par b k) :
    Above par a k :=
  Relation.TransGen.trans hb h

theorem nth_succ {par : K → Option K} {n : Nat} {k p : K} (h : par k = some p) :
    nth par (n + 1) k = nth par n p := by
  show (par k).bind (nth par n) = _
  rw [h]
  rfl

theorem eq_or_above_of_nth {par : K → Option K} {a k : K} {n : Nat} (h : nth par n k = some a) :
    a = k ∨ Above par a k := by
  induction n generalizing k with
  | zero => exact Or.inl (Option.some.inj h).symm
  | succ n ih =>
    obtain ⟨p, hp, hn⟩ := Option.bind_eq_some_iff.mp h
    refine Or.inr ?_
    rcases ih hn with rfl | ha
    · exact Above.parent hp
    · exact Above.step hp ha

theorem above_iff_nth {par : K → Option K} {a k : K} :
    Above par a k ↔ ∃ n, nth par (n + 1) k = some a := by
  constructor
  · intro h
    induction h using Relation.TransGen.head_induction_on with
    | single hp => exact ⟨0, by rw [nth_succ hp]; rfl⟩
    | head hp _ ih =>
      obtain ⟨n, hn⟩ := ih
      exact ⟨n + 1, by rw [nth_succ hp]; exact hn⟩
  · rintro ⟨n, hn⟩
    obtain ⟨p, hp, hk⟩ := Option.bind_eq_some_iff.mp hn
    rcases eq_or_above_of_nth hk with rfl | ha
    · exact Above.parent hp
    · exact Above.step hp ha

/-! ## the bounded walk -/

theorem walk_iff [DecidableEq K] (par : K → Option K) (a : K) (n : Nat) (k : K) :
    walk par a n k = true ↔ ∃ m < n, nth par (m + 1) k = some a := by
  induction n generalizing k with
  | zero => simp [walk]
  | succ n ih =>
    unfold walk
    cases hp : par k with
    | none =>
      refine ⟨fun h => absurd h Bool.false_ne_true, fun ⟨m, _, hm⟩ => ?_⟩
      have : nth par (m + 1) k = none := by
        show (par k).bind (nth par m) = none
        rw [hp]
        rfl
      rw [this] at hm
      cases hm
    | some p =>
      by_cases hpa : p = a
      · simp only [if_pos hpa]
        have h0 : nth par (0 + 1) k = some a := by rw [nth_succ hp, hpa]; rfl
        exact iff_of_true trivial ⟨0, Nat.succ_pos n, h0⟩
      · simp only [if_neg hpa, ih]
        constructor
        · rintro ⟨m, hm, h⟩
          exact ⟨m + 1, by omega, by rw [nth_succ hp]; exact h⟩
        · rintro ⟨m, hm, h⟩
          rw [nth_succ hp] at h
          cases m with
          | zero => exact absurd (Option.some.inj h) hpa
          | succ m => exact ⟨m, by omega, h⟩

/-! ## parents of smaller rank -/

/-- every step up lowers the rank, so no chain is longer than the rank of its key -/
theorem rank_add_le {par : K → Option K} (rank : K → Nat)
    (hlt : ∀ k p, par k = some p → rank p < rank k) {a k : K} {n : Nat}
    (h : nth par n k = some a) : rank a + n ≤ rank k := by
  induction n generalizing k with
  | zero =>
    cases h
    exact le_rfl
  | succ n ih =>
    obtain ⟨p, hp, hn⟩ := Option.bind_eq_some_iff.mp h
    have hrest := ih hn
    have hstep := hlt k p hp
    omega

/-- so a search with as many steps as the rank finds every ancestor -/
theorem walk_rank_iff [DecidableEq K] {par : K → Option K} (rank : K → Nat)
    (hlt : ∀ k p, par k = some p → rank p < rank k) (a k : K) :
    walk par a (rank k) k = true ↔ Above par a k := by
  rw [walk_iff, above_iff_nth]
  constructor
  · rintro ⟨n, _, hn⟩
    exact ⟨n, hn⟩
  · rintro ⟨n, hn⟩
    have hle := rank_add_le rank hlt hn
    exact ⟨n, by omega, hn⟩

/-! ## grounded chains -/

theorem Grounded.good {par : K → Option K} {ok : K → Prop} {k : K} (h : Grounded par ok k) :
    ok k := by
  cases h with
  | root hk _ => exact hk
  | child hk _ _ => exact hk

theorem Grounded.parent {par : K → Option K} {ok : K → Prop} {k p : K} (h : Grounded par ok k)
    (hp : par k = some p) : Grounded par ok p := by
  cases h with
  | root _ hn =>
    rw [hp] at hn
    cases hn
  | child _ hp' h =>
    rw [hp] at hp'
    exact Option.some.inj hp' ▸ h

theorem Grounded.above {par : K → Option K} {ok : K → Prop} {a k : K} (h : Grounded par ok k)
    (ha : Above par a k) : Grounded par ok a := by
  induction ha using Relation.TransGen.head_induction_on with
  | single hp => exact h.parent hp
  | head hp _ ih => exact ih (h.parent hp)

/-- a grounded chain is finite and ends in a root -/
theorem Grounded.exists_root {par : K → Option K} {ok : K → Prop} {k : K}
    (h : Grounded par ok k) : ∃ n r, nth par n k = some r ∧ par r = none ∧ ok r := by
  induction h with
  | root hk hn => exact ⟨0, _, rfl, hn, hk⟩
  | child _ hp _ ih =>
    obtain ⟨n, r, hr, hn, hok⟩ := ih
    exact ⟨n + 1, r, (nth_succ hp).trans hr, hn, hok⟩

theorem Grounded.congr {par par' : K → Option K} {ok ok' : K → Prop} {k : K}
    (h : Grounded par ok k) (hpar : ∀ x, ok x → par' x = par x) (hok : ∀ x, ok x → ok' x) :
    Grounded par' ok' k := by
  induction h with
  | root hk hn => exact .root (hok _ hk) ((hpar _ hk).trans hn)
  | child hk hp _ ih => exact .child (hok _ hk) ((hpar _ hk).trans hp) ih

/-! ## forests of live keys -/

/-- parent pointers, and the keys that are alive -/
structure Forest (K : Type*) where
  par : K → Option K
  live : K → Prop

namespace Forest

/-- a new key `k` below `p`, alive or not -/
def grow [DecidableEq K] (F : Forest K) (k : K) (p : Option K) (alive : Prop) : Forest K :=
  ⟨fun x => if x = k then p else F.par x, fun x => (x = k ∧ alive) ∨ F.live x⟩

/-- the keys of `S` die; the pointers stay -/
def cut (F : Forest K) (S : K → Prop) : Forest K :=
  ⟨F.par, fun x => F.live x ∧ ¬ S x⟩

/-- `c` and everything below it -/
def cone (F : Forest K) (c k : K) : Prop := k = c ∨ Above F.par c k

/-- every live key stands on a chain of live keys that ends in a root -/
def AllGrounded (F : Forest K) : Prop := ∀ k, F.live k → Grounded F.par F.live k

/-- no live key sits directly below a key of `S` without being in `S` -/
def DownClosed (F : Forest K) (S : K → Prop) : Prop :=
  ∀ k p, F.live k → F.par k = some p → S p → S k

theorem AllGrounded.grow [DecidableEq K] {F : Forest K} (h : F.AllGrounded) {k : K}
    {p : Option K} {alive : Prop} (hk : ¬ F.live k) (hp : alive → ∀ q, p = some q → F.live q) :
    (F.grow k p alive).AllGrounded := by
  have old : ∀ x, F.live x → Grounded (F.grow k p alive).par (F.grow k p alive).live x := by
    intro x hx
    refine (h x hx).congr (fun y hy => if_neg ?_) (fun y hy => Or.inr hy)
    rintro rfl
    exact hk hy
  rintro x (⟨rfl, ha⟩ | hx)
  · have hpar : (F.grow x p alive).par x = p := if_pos rfl
    cases p with
    | none => exact .root (Or.inl ⟨rfl, ha⟩) hpar
    | some q => exact .child (Or.inl ⟨rfl, ha⟩) hpar (old q (hp ha q rfl))
  · exact old x hx

theorem AllGrounded.cut {F : Forest K} (h : F.AllGrounded) {S : K → Prop}
    (hS : F.DownClosed S) : (F.cut S).AllGrounded := by
  rintro k ⟨hk, hkS⟩
  have hg := h k hk
  clear hk
  induction hg with
  | root hk hn => exact .root ⟨hk, hkS⟩ hn
  | child hk hp _ ih => exact .child ⟨hk, hkS⟩ hp (ih fun hpS => hkS (hS _ _ hk hp hpS))

theorem downClosed_cone (F : Forest K) (c : K) : F.DownClosed (F.cone c) := by
  rintro k p _ hp (rfl | ha)
  · exact Or.inr (Above.parent hp)
  · exact Or.inr (Above.step hp ha)

end Forest
end
end Base
