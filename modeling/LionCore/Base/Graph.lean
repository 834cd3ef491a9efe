import Mathlib.Order.WellFoundedSet

/-!
# Finite graphs

* `getElem?_fillRows`      adjacency rows, filled edge by edge;
* `Acyclic.exists_first`   without cycles, some element of a finite set has no predecessor in it;
* `cycle_pred`             on a cycle every element has a predecessor that is on a cycle;
* `Linear`                 a list without repetition that has the predecessors of its elements
                           before them, taken from the end (`linear_concat`).
-/

namespace Base

/-! ## adjacency rows -/

section
variable {E V : Type*}

/-- every edge goes to the end of the row at its key -/
def fillRows (key : E → Nat) (val : E → V) (rows : List (List V)) (es : List E) : List (List V) :=
  es.foldl (fun rows e => rows.modify (key e) (· ++ [val e])) rows

theorem fillRows_cons (key : E → Nat) (val : E → V) (rows : List (List V)) (e : E) (es : List E) :
    fillRows key val rows (e :: es) =
      fillRows key val (rows.modify (key e) (· ++ [val e])) es := rfl

theorem getElem?_fillRows (key : E → Nat) (val : E → V) (rows : List (List V)) (es : List E)
    (i : Nat) : (fillRows key val rows es)[i]? =
      rows[i]?.map (· ++ (es.filter fun e => key e = i).map val) := by
  induction es generalizing rows with
  | nil =>
    show rows[i]? = rows[i]?.map (· ++ [])
    simp
  | cons e es ih =>
    rw [fillRows_cons, ih, List.getElem?_modify, List.filter_cons]
    cases hrow : rows[i]? with
    | none => rfl
    | some row =>
      by_cases hk : key e = i
      · simp [hk]
      · simp [hk]

end

/-! ## cycles -/

section
variable {α : Type*} {r : α → α → Prop}

/-- no element comes before itself -/
def Acyclic (r : α → α → Prop) : Prop := ∀ a, ¬ Relation.TransGen r a a

/-- a relation that increases a rank has no cycles -/
theorem acyclic_of_rank (rank : α → Nat) (h : ∀ a b, r a b → rank a < rank b) : Acyclic r := by
  intro a ha
  have hlt : Relation.TransGen (· < ·) (rank a) (rank a) := ha.lift rank h
  rw [Relation.transGen_eq_self] at hlt
  exact lt_irrefl _ hlt

theorem Acyclic.exists_first (h : Acyclic r) {s : Set α} (hfin : s.Finite) (hne : s.Nonempty) :
    ∃ a ∈ s, ∀ b, r b a → b ∉ s := by
  have : IsStrictOrder α (Relation.TransGen r) :=
    { irrefl := h, trans := fun _ _ _ => Relation.TransGen.trans }
  have hwf : s.WellFoundedOn (Relation.TransGen r) := hfin.wellFoundedOn
  obtain ⟨a₀, ha₀⟩ := hne
  obtain ⟨⟨a, ha⟩, -, hmin⟩ := hwf.has_min Set.univ ⟨⟨a₀, ha₀⟩, trivial⟩
  exact ⟨a, ha, fun b hb hbs => hmin ⟨b, hbs⟩ trivial (.single hb)⟩

theorem cycle_pred {a : α} (h : Relation.TransGen r a a) :
    ∃ b, r b a ∧ Relation.TransGen r b b := by
  obtain ⟨b, hab, hba⟩ := Relation.TransGen.tail'_iff.mp h
  exact ⟨b, hba, Relation.TransGen.head' hba hab⟩

/-! ## linear orders of a part -/

/-- no element comes twice, and all its predecessors come before it -/
def Linear (r : α → α → Prop) (l : List α) : Prop :=
  ∀ pre a post, l = pre ++ a :: post → a ∉ pre ∧ ∀ b, r b a → b ∈ pre

theorem linear_nil : Linear r [] := by
  intro pre a post h
  cases pre <;> cases h

theorem linear_concat {l : List α} {a : α} :
    Linear r (l ++ [a]) ↔ Linear r l ∧ a ∉ l ∧ ∀ b, r b a → b ∈ l := by
  constructor
  · intro h
    refine ⟨fun pre x post e => h pre x (post ++ [a]) (by rw [e]; simp), h l a [] rfl⟩
  · intro ⟨hl, ha⟩ pre x post e
    rcases List.eq_nil_or_concat post with rfl | ⟨post', y, rfl⟩
    · obtain ⟨rfl, hax⟩ := List.append_inj' e rfl
      obtain rfl := List.singleton_inj.mp hax
      exact ha
    · have e' : l ++ [a] = (pre ++ x :: post') ++ [y] := by
        rw [e]
        simp
      exact hl pre x post' (List.append_inj' e' rfl).1

end
end Base
