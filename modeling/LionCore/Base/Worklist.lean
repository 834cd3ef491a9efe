import Mathlib.Logic.Relation
import Mathlib.Logic.Function.Iterate
import Mathlib.Algebra.BigOperators.Group.Finset.Piecewise
import Mathlib.Algebra.Order.BigOperators.Group.Finset

/-!
# Breadth-first sweep with a growing queue

The loop pops the queue at `head`, skips a key that was visited, and otherwise collects the key
and appends its children.  The graph may be cyclic, and a key may be queued many times.

* `Sweep.Inv`              the loop invariant (`Inv.round` one round, `Inv.rounds` any number);
* `Sweep.ended_of_bound`   the loop ends: the queue is never longer than one plus the number of
                           children of the visited keys;
* `Sweep.mem_collect_iff`  what is collected is exactly what can be reached.
-/

set_option linter.unusedSectionVars false

namespace Base
open Finset

/-- the variables of the loop -/
structure Sweep (K : Type*) where
  queue : List K
  head : Nat
  visited : Finset K
  collected : List K

namespace Sweep
section
variable {K : Type*} [DecidableEq K]

def start (c : K) : Sweep K := ⟨[c], 0, ∅, []⟩

/-- the loop condition fails -/
def Ended (w : Sweep K) : Prop := w.queue.length ≤ w.head

/-- one round of the loop -/
def round (children : K → List K) (w : Sweep K) : Sweep K :=
  match w.queue[w.head]? with
  | none => w
  | some id =>
    if id ∈ w.visited then { w with head := w.head + 1 }
    else ⟨w.queue ++ children id, w.head + 1, insert id w.visited, w.collected ++ [id]⟩

/-- what the loop has collected after `bound` rounds -/
def collect (children : K → List K) (bound : Nat) (c : K) : List K :=
  ((round children)^[bound] (start c)).collected

/-- reachable by following children -/
def Reach (children : K → List K) : K → K → Prop :=
  Relation.ReflTransGen fun x y => y ∈ children x

/-! ## the rounds -/

theorem round_ended (children : K → List K) {w : Sweep K} (h : w.Ended) :
    w.round children = w := by
  unfold round
  rw [List.getElem?_eq_none h]

theorem round_cases (children : K → List K) {w : Sweep K} (h : ¬ w.Ended) :
    ∃ id, w.queue[w.head]? = some id ∧
      ((id ∈ w.visited ∧ w.round children = { w with head := w.head + 1 }) ∨
        (id ∉ w.visited ∧ w.round children =
          ⟨w.queue ++ children id, w.head + 1, insert id w.visited, w.collected ++ [id]⟩)) := by
  have hlt : w.head < w.queue.length := Nat.lt_of_not_le h
  refine ⟨w.queue[w.head], List.getElem?_eq_getElem hlt, ?_⟩
  unfold round
  rw [List.getElem?_eq_getElem hlt]
  by_cases hv : w.queue[w.head] ∈ w.visited
  · exact Or.inl ⟨hv, if_pos hv⟩
  · exact Or.inr ⟨hv, if_neg hv⟩

/-! ## the invariant -/

structure Inv (children : K → List K) (c : K) (w : Sweep K) : Prop where
  start_mem : c ∈ w.queue
  reach : ∀ x ∈ w.queue, Reach children c x
  queued : ∀ x ∈ w.visited, x ∈ w.queue
  popped : ∀ i x, i < w.head → w.queue[i]? = some x → x ∈ w.visited
  closed : ∀ x ∈ w.visited, ∀ y ∈ children x, y ∈ w.queue
  same : ∀ x, x ∈ w.collected ↔ x ∈ w.visited
  nodup : w.collected.Nodup
  length : w.queue.length = 1 + ∑ x ∈ w.visited, (children x).length

theorem Inv.start (children : K → List K) (c : K) : Inv children c (Sweep.start c) where
  start_mem := List.mem_singleton.mpr rfl
  reach x hx := List.mem_singleton.mp hx ▸ Relation.ReflTransGen.refl
  queued x hx := absurd hx (notMem_empty x)
  popped i x hi _ := absurd hi (Nat.not_lt_zero i)
  closed x hx := absurd hx (notMem_empty x)
  same x := by simp [Sweep.start]
  nodup := List.nodup_nil
  length := by simp [Sweep.start]

/-- the key at `head` was visited before: only `head` moves -/
theorem Inv.skip {children : K → List K} {c id : K} {w : Sweep K} (h : Inv children c w)
    (hq : w.queue[w.head]? = some id) (hv : id ∈ w.visited) :
    Inv children c { w with head := w.head + 1 } := by
  refine { h with popped := fun i x hi hx => ?_ }
  rcases Nat.lt_succ_iff_lt_or_eq.mp hi with hi | rfl
  · exact h.popped i x hi hx
  · rw [hq] at hx
    exact Option.some.inj hx ▸ hv

/-- the key at `head` is new: it is collected and its children are queued -/
theorem Inv.take {children : K → List K} {c id : K} {w : Sweep K} (h : Inv children c w)
    (hq : w.queue[w.head]? = some id) (hv : id ∉ w.visited) :
    Inv children c
      ⟨w.queue ++ children id, w.head + 1, insert id w.visited, w.collected ++ [id]⟩ := by
  have hid : id ∈ w.queue := List.mem_of_getElem? hq
  constructor
  case start_mem => exact List.mem_append_left _ h.start_mem
  case reach =>
    intro x hx
    rcases List.mem_append.mp hx with hx | hx
    · exact h.reach x hx
    · exact (h.reach id hid).tail hx
  case queued =>
    intro x hx
    rcases mem_insert.mp hx with rfl | hx
    · exact List.mem_append_left _ hid
    · exact List.mem_append_left _ (h.queued x hx)
  case popped =>
    intro i x hi hx
    obtain ⟨hlt, _⟩ := List.getElem?_eq_some_iff.mp hq
    have hold : w.queue[i]? = some x := by
      rw [← hx]
      exact (List.getElem?_append_left (Nat.lt_of_le_of_lt (Nat.le_of_lt_succ hi) hlt)).symm
    rcases Nat.lt_succ_iff_lt_or_eq.mp hi with hi | rfl
    · exact mem_insert_of_mem (h.popped i x hi hold)
    · rw [hq] at hold
      exact Option.some.inj hold ▸ mem_insert_self _ _
  case closed =>
    intro x hx y hy
    rcases mem_insert.mp hx with rfl | hx
    · exact List.mem_append_right _ hy
    · exact List.mem_append_left _ (h.closed x hx y hy)
  case same =>
    intro x
    rw [List.mem_append, List.mem_singleton, h.same x, mem_insert, or_comm]
  case nodup =>
    rw [List.nodup_append]
    refine ⟨h.nodup, List.nodup_singleton id, fun a ha b hb => ?_⟩
    rintro rfl
    exact hv ((h.same id).mp (List.mem_singleton.mp hb ▸ ha))
  case length =>
    rw [List.length_append, h.length, sum_insert hv]
    omega

theorem Inv.round {children : K → List K} {c : K} {w : Sweep K} (h : Inv children c w) :
    Inv children c (w.round children) := by
  by_cases he : w.Ended
  · rw [round_ended children he]
    exact h
  · obtain ⟨id, hq, ⟨hv, e⟩ | ⟨hv, e⟩⟩ := round_cases children he
    · exact e ▸ h.skip hq hv
    · exact e ▸ h.take hq hv

theorem Inv.rounds (children : K → List K) (c : K) (n : Nat) :
    Inv children c ((Sweep.round children)^[n] (Sweep.start c)) := by
  induction n with
  | zero => exact Inv.start children c
  | succ n ih =>
    rw [Function.iterate_succ_apply']
    exact ih.round

/-! ## the end of the loop -/

theorem head_rounds (children : K → List K) (c : K) (n : Nat) :
    ((round children)^[n] (start c)).Ended ∨ ((round children)^[n] (start c)).head = n := by
  induction n with
  | zero => exact Or.inr rfl
  | succ n ih =>
    rw [Function.iterate_succ_apply']
    by_cases he : ((round children)^[n] (start c)).Ended
    · exact Or.inl (by rw [round_ended children he]; exact he)
    · have hh := ih.resolve_left he
      refine Or.inr ?_
      obtain ⟨id, _, ⟨_, e⟩ | ⟨_, e⟩⟩ := round_cases children he <;> rw [e]
      · exact congrArg (· + 1) hh
      · exact congrArg (· + 1) hh

/-- **The loop ends**: `bound` rounds are enough when no set of keys has `bound` children. -/
theorem ended_of_bound (children : K → List K) (c : K) {bound : Nat}
    (hb : ∀ V : Finset K, ∑ x ∈ V, (children x).length < bound) :
    ((round children)^[bound] (start c)).Ended := by
  rcases head_rounds children c bound with he | hh
  · exact he
  · have hi := (Inv.rounds children c bound).length
    have hV := hb ((round children)^[bound] (start c)).visited
    show _ ≤ _
    omega

/-- once the loop has ended, further rounds change nothing -/
theorem rounds_ended (children : K → List K) {w : Sweep K} (h : w.Ended) (n : Nat) :
    (round children)^[n] w = w :=
  Function.iterate_fixed (round_ended children h) n

/-- the bound is no limit: with more rounds, the same is collected -/
theorem collect_of_le (children : K → List K) (c : K) {bound n : Nat}
    (hb : ∀ V : Finset K, ∑ x ∈ V, (children x).length < bound) (hn : bound ≤ n) :
    collect children n c = collect children bound c := by
  obtain ⟨m, rfl⟩ := Nat.exists_eq_add_of_le hn
  unfold collect
  rw [Nat.add_comm, Function.iterate_add_apply,
    rounds_ended children (ended_of_bound children c hb)]

/-- **The sweep collects exactly the reachable keys.** -/
theorem mem_collect_iff (children : K → List K) (c : K) {bound : Nat}
    (hb : ∀ V : Finset K, ∑ x ∈ V, (children x).length < bound) (x : K) :
    x ∈ collect children bound c ↔ Reach children c x := by
  have hi := Inv.rounds children c bound
  have he := ended_of_bound children c hb
  unfold collect
  rw [hi.same x]
  have all : ∀ y ∈ ((round children)^[bound] (start c)).queue,
      y ∈ ((round children)^[bound] (start c)).visited := by
    intro y hy
    obtain ⟨i, hiy⟩ := List.mem_iff_getElem?.mp hy
    obtain ⟨hlt, _⟩ := List.getElem?_eq_some_iff.mp hiy
    exact hi.popped i y (Nat.lt_of_lt_of_le hlt he) hiy
  constructor
  · intro hx
    exact hi.reach x (hi.queued x hx)
  · intro hr
    -- the visited set contains the start and is closed under children
    induction hr with
    | refl => exact all c hi.start_mem
    | tail _ hy ih => exact all _ (hi.closed _ ih _ hy)

theorem nodup_collect (children : K → List K) (bound : Nat) (c : K) :
    (collect children bound c).Nodup :=
  (Inv.rounds children c bound).nodup

end
end Sweep

/-! ## a bound for children that are read from a table -/

/-- If every key has no children or the children of a row with that key, then no set of keys has
more children than all rows together. -/
theorem sum_children_le {K : Type*} [DecidableEq K] (rows : List (K × List K)) :
    ∀ (g : K → Nat), (∀ x, g x = 0 ∨ ∃ v, (x, v) ∈ rows ∧ g x = v.length) →
      ∀ V : Finset K, ∑ x ∈ V, g x ≤ (rows.flatMap Prod.snd).length := by
  induction rows with
  | nil =>
    intro g hg V
    refine le_of_eq (sum_eq_zero fun x _ => ?_)
    rcases hg x with h | ⟨v, hv, _⟩
    · exact h
    · cases hv
  | cons r rows ih =>
    intro g hg V
    obtain ⟨k, w⟩ := r
    rw [List.flatMap_cons, List.length_append]
    by_cases hk : g k = w.length
    · -- the first row serves `k`; the others serve every other key
      have hg' : ∀ x, (if x = k then 0 else g x) = 0 ∨
          ∃ v, (x, v) ∈ rows ∧ (if x = k then 0 else g x) = v.length := by
        intro x
        by_cases hx : x = k
        · exact Or.inl (if_pos hx)
        · rw [if_neg hx]
          rcases hg x with h | ⟨v, hv, e⟩
          · exact Or.inl h
          · rcases List.mem_cons.mp hv with h | h
            · exact absurd (Prod.mk.inj h).1 hx
            · exact Or.inr ⟨v, h, e⟩
      have hrest := ih _ hg' V
      have hsplit : ∑ x ∈ V, g x ≤ ∑ x ∈ V, (if x = k then 0 else g x) +
          ∑ x ∈ V, (if x = k then g k else 0) := by
        rw [← sum_add_distrib]
        apply sum_le_sum
        intro x _
        by_cases hx : x = k
        · rw [if_pos hx, if_pos hx, hx, Nat.zero_add]
        · rw [if_neg hx, if_neg hx, Nat.add_zero]
      have hone : ∑ x ∈ V, (if x = k then g k else 0) ≤ g k := by
        rw [sum_ite_eq' V k]
        split
        · exact le_rfl
        · exact Nat.zero_le _
      show _ ≤ w.length + _
      omega
    · have hg' : ∀ x, g x = 0 ∨ ∃ v, (x, v) ∈ rows ∧ g x = v.length := by
        intro x
        rcases hg x with h | ⟨v, hv, e⟩
        · exact Or.inl h
        · rcases List.mem_cons.mp hv with h | h
          · obtain ⟨rfl, rfl⟩ := Prod.mk.inj h
            exact absurd e hk
          · exact Or.inr ⟨v, h, e⟩
      exact (ih g hg' V).trans (Nat.le_add_left _ _)

end Base
