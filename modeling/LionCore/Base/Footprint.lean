import Mathlib.Data.Set.Basic
import LionCore.Base.Run

/-!
# Footprints, and runs of several parties

A state is seen through cells: `same c s t` says that `s` and `t` agree on the cell `c`.  An action
gives an answer and leaves a state.

* `Footprint`              the cells that an action uses, those among them that it writes, and what
                           that means;
* `Footprint.Independent`  neither of two actions writes what the other uses;
* `Footprint.alone`        a party whose cells no other writes gets the answers that it gets alone;
* `Footprint.interleaved`  if the actions of different parties are independent, two interleavings of
                           the same parties give the same answers and leave the same cells.
-/

namespace Base

section
variable {S A C O P : Type*} {same : C → S → S → Prop} {act : S → A → O × S}

structure Footprint (same : C → S → S → Prop) (act : S → A → O × S) where
  uses : A → Set C
  writes : A → Set C
  covered : ∀ a, writes a ⊆ uses a
  equiv : ∀ c, Equivalence (same c)
  frame : ∀ s a c, c ∉ writes a → same c s (act s a).2
  answer : ∀ s t a, (∀ c ∈ uses a, same c s t) → (act s a).1 = (act t a).1
  written : ∀ s t a, (∀ c ∈ uses a, same c s t) →
    ∀ c ∈ writes a, same c (act s a).2 (act t a).2

/-- the state after an action of some party -/
def after (act : S → A → O × S) (s : S) (x : P × A) : S := (act s x.2).2

/-- the answer of an action, if it is one of party `p` -/
def answerTo [DecidableEq P] (act : S → A → O × S) (p : P) (s : S) (x : P × A) : List O :=
  if x.1 = p then [(act s x.2).1] else []

/-- the actions of party `p` -/
def party [DecidableEq P] (p : P) (xs : List (P × A)) : List (P × A) :=
  xs.filter fun x => x.1 = p

theorem mem_party [DecidableEq P] {p : P} {xs : List (P × A)} {x : P × A} :
    x ∈ party p xs ↔ x ∈ xs ∧ x.1 = p := by
  unfold party
  rw [List.mem_filter, decide_eq_true_iff]

namespace Footprint
variable (F : Footprint same act)

def Independent (a b : A) : Prop :=
  (∀ c ∈ F.writes a, c ∉ F.uses b) ∧ ∀ c ∈ F.writes b, c ∉ F.uses a

theorem unseen {a b : A} (h : ∀ c ∈ F.writes a, c ∉ F.uses b) (s : S) :
    ∀ c ∈ F.uses b, same c (act s a).2 s := by
  intro c hc
  have hw : c ∉ F.writes a := fun hw => h c hw hc
  exact (F.equiv c).symm (F.frame s a c hw)

/-- an action carries agreement along, on every cell -/
theorem carries {s t : S} {a : A} (h : ∀ c ∈ F.uses a, same c s t) {c : C} (hc : same c s t) :
    same c (act s a).2 (act t a).2 := by
  by_cases hw : c ∈ F.writes a
  · exact F.written s t a h c hw
  · have hs : same c (act s a).2 s := (F.equiv c).symm (F.frame s a c hw)
    exact (F.equiv c).trans hs ((F.equiv c).trans hc (F.frame t a c hw))

theorem run_frame (xs : List (P × A)) {c : C} (hc : ∀ x ∈ xs, c ∉ F.writes x.2) (s : S) :
    same c s (run (after act) s xs) := by
  induction xs generalizing s with
  | nil => exact (F.equiv c).refl s
  | cons x xs ih =>
    have hfirst : same c s (act s x.2).2 := F.frame s x.2 c (hc x List.mem_cons_self)
    have hrest := ih (fun y hy => hc y (List.mem_cons_of_mem x hy)) (act s x.2).2
    exact (F.equiv c).trans hfirst hrest

variable [DecidableEq P]

/-- **Alone.**  Let `D` hold all that the actions of party `p` use, and nothing that another party
writes.  Then `p` gets the answers that it gets alone, and finds the same in `D`. -/
theorem alone {p : P} {D : Set C} (xs : List (P × A))
    (own : ∀ x ∈ xs, x.1 = p → F.uses x.2 ⊆ D)
    (others : ∀ x ∈ xs, x.1 ≠ p → ∀ c ∈ F.writes x.2, c ∉ D) {s t : S}
    (h : ∀ c ∈ D, same c s t) :
    outputs (after act) (answerTo act p) s xs =
        outputs (after act) (answerTo act p) t (party p xs) ∧
      ∀ c ∈ D, same c (run (after act) s xs) (run (after act) t (party p xs)) := by
  induction xs generalizing s t with
  | nil => exact ⟨rfl, h⟩
  | cons x xs ih =>
    have hown : ∀ y ∈ xs, y.1 = p → F.uses y.2 ⊆ D :=
      fun y hy => own y (List.mem_cons_of_mem x hy)
    have hothers : ∀ y ∈ xs, y.1 ≠ p → ∀ c ∈ F.writes y.2, c ∉ D :=
      fun y hy => others y (List.mem_cons_of_mem x hy)
    by_cases hp : x.1 = p
    · -- both runs take the action
      have huse : ∀ c ∈ F.uses x.2, same c s t :=
        fun c hc => h c (own x List.mem_cons_self hp hc)
      have hnext : ∀ c ∈ D, same c (after act s x) (after act t x) :=
        fun c hc => F.carries huse (h c hc)
      obtain ⟨hout, hrun⟩ := ih hown hothers hnext
      have hparty : party p (x :: xs) = x :: party p xs :=
        List.filter_cons_of_pos (decide_eq_true hp)
      rw [hparty]
      refine ⟨?_, hrun⟩
      show answerTo act p s x ++ _ = answerTo act p t x ++ _
      rw [hout]
      unfold answerTo
      rw [if_pos hp, if_pos hp, F.answer s t x.2 huse]
    · -- the action of another party is not seen
      have hnext : ∀ c ∈ D, same c (after act s x) t := by
        intro c hc
        have hw : c ∉ F.writes x.2 := fun hw => others x List.mem_cons_self hp c hw hc
        exact (F.equiv c).trans ((F.equiv c).symm (F.frame s x.2 c hw)) (h c hc)
      obtain ⟨hout, hrun⟩ := ih hown hothers hnext
      have hparty : party p (x :: xs) = party p xs := by
        apply List.filter_cons_of_neg
        simpa using hp
      rw [hparty]
      refine ⟨?_, hrun⟩
      show answerTo act p s x ++ _ = _
      rw [hout]
      unfold answerTo
      rw [if_neg hp]
      rfl

/-- all that the actions of a party use -/
def territory (p : P) (xs : List (P × A)) : Set C := {c | ∃ x ∈ xs, x.1 = p ∧ c ∈ F.uses x.2}

/-- the actions of different parties are independent -/
def Apart (xs : List (P × A)) : Prop :=
  ∀ x ∈ xs, ∀ y ∈ xs, x.1 ≠ y.1 → F.Independent x.2 y.2

theorem alone_of_apart {xs : List (P × A)} (h : F.Apart xs) (p : P) (s : S) :
    outputs (after act) (answerTo act p) s xs =
        outputs (after act) (answerTo act p) s (party p xs) ∧
      ∀ c ∈ F.territory p xs,
        same c (run (after act) s xs) (run (after act) s (party p xs)) := by
  apply F.alone xs
  · intro x hx hp c hc
    exact ⟨x, hx, hp, hc⟩
  · intro x hx hp c hw ⟨y, hy, hyp, hc⟩
    have hind := h x hx y hy fun e => hp (e.trans hyp)
    exact hind.1 c hw hc
  · exact fun c _ => (F.equiv c).refl s

/-- **Any two interleavings of the same parties agree.** -/
theorem interleaved {xs ys : List (P × A)} (h : F.Apart xs)
    (hparty : ∀ p, party p xs = party p ys) (s : S) :
    (∀ p, outputs (after act) (answerTo act p) s xs =
      outputs (after act) (answerTo act p) s ys) ∧
      ∀ c, same c (run (after act) s xs) (run (after act) s ys) := by
  have hmem : ∀ x, x ∈ xs ↔ x ∈ ys := by
    intro x
    have e : x ∈ party x.1 xs ↔ x ∈ xs ∧ x.1 = x.1 := mem_party
    rw [hparty, mem_party] at e
    simpa using e.symm
  have h' : F.Apart ys := by
    intro x hx y hy
    exact h x ((hmem x).mpr hx) y ((hmem y).mpr hy)
  refine ⟨fun p => ?_, fun c => ?_⟩
  · rw [(F.alone_of_apart h p s).1, hparty, (F.alone_of_apart h' p s).1]
  · by_cases hc : ∃ x ∈ xs, c ∈ F.writes x.2
    · -- the party that writes the cell finds in it what it finds alone
      obtain ⟨x, hx, hw⟩ := hc
      have hx' : c ∈ F.territory x.1 xs := ⟨x, hx, rfl, F.covered x.2 hw⟩
      have hy' : c ∈ F.territory x.1 ys := ⟨x, (hmem x).mp hx, rfl, F.covered x.2 hw⟩
      have hxs := (F.alone_of_apart h x.1 s).2 c hx'
      have hys := (F.alone_of_apart h' x.1 s).2 c hy'
      rw [hparty] at hxs
      exact (F.equiv c).trans hxs ((F.equiv c).symm hys)
    · have hxs := F.run_frame xs (fun x hx hw => hc ⟨x, hx, hw⟩) s
      have hys := F.run_frame ys (fun y hy hw => hc ⟨y, (hmem y).mpr hy, hw⟩) s
      exact (F.equiv c).trans ((F.equiv c).symm hxs) hys

end Footprint
end
end Base
