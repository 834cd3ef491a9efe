import LionCore.Base.Run
import LionCore.Revocation.Cut

/-!
# The children index is exact, so the sweep is

* `WellFormed`                  table and index are sorted, every key is its entry's id, and the
                                index lists exactly the entries by their parent field;
* `WellFormed.inserted`, `WellFormed.cutBy`   kept by every operation;
* `sweep_ended`, `WellFormed.mem_collectDescendants`   the sweep ends, and collects
                                exactly the revoked id and everything below it;
* `forest_inserted`, `forest_cutBy`   the table refines a forest that grows and is cut;
* `TableOp.leaves`              an operation inserts or cuts;
* `sweep_revocation_exact`      **main result** for every table that operations can build.
-/

namespace LionCore
open Base

namespace RevocationState

/-- the invariant of table and index; parents may be absent, and chains may close up -/
structure WellFormed (r : RevocationState) : Prop where
  sorted : r.caps.Sorted
  indexSorted : r.childrenIndex.Sorted
  keyed : ∀ k cap, r.get k = some cap → cap.id = k
  children : ∀ p k, k ∈ r.getChildren p ↔ r.parentOf k = some p

theorem WellFormed.empty : RevocationState.empty.WellFormed where
  sorted := List.Pairwise.nil
  indexSorted := List.Pairwise.nil
  keyed k cap h := by cases h
  children p k := iff_of_false (fun h => by cases h) (fun h => by cases h)

/-! ## insertion -/

section
variable (index : ChildrenIndex) (p c : CapId)

theorem addChildToIndex_sorted (hs : index.Sorted) : (addChildToIndex index p c).Sorted := by
  unfold addChildToIndex
  split
  · rename_i i hi
    have hm := hs.modify p fun cs => cs ++ [c]
    unfold Table.modify at hm
    rwa [show index.findIndex p = some i by unfold Table.findIndex; rw [hi]] at hm
  · rename_i pos hpos
    exact hs.insert hpos [c]

theorem find_addChildToIndex (hs : index.Sorted) (q : CapId) :
    (addChildToIndex index p c).find q =
      if q = p then some ((index.find p).getD [] ++ [c]) else index.find q := by
  unfold addChildToIndex
  split
  · rename_i i hi
    have hf : index.findIndex p = some i := by unfold Table.findIndex; rw [hi]
    have hm := Table.find_modify index p q fun cs => cs ++ [c]
    unfold Table.modify at hm
    rw [hf] at hm
    rw [hm]
    by_cases hq : q = p
    · subst hq
      obtain ⟨cs, hcs⟩ := Table.findIndex_some hf
      rw [if_pos rfl, if_pos rfl, Table.find_of_findIndex hf hcs]
      rfl
    · rw [if_neg hq, if_neg hq]
  · rename_i pos hpos
    rw [Table.find_insert hs hpos]
    by_cases hq : q = p
    · rw [if_pos hq, if_pos hq, Table.find_error hpos]
      rfl
    · rw [if_neg hq, if_neg hq]

end

/-- what an insertion that succeeds has done -/
structure Inserted (r : RevocationState) (cap : Capability) (r' : RevocationState) : Prop where
  fresh : r.get cap.id = none
  sorted : r.caps.Sorted → r'.caps.Sorted
  get : r.caps.Sorted → ∀ k, r'.get k = if k = cap.id then some cap else r.get k
  index : r'.childrenIndex = r.indexWith cap
  epoch : r'.epoch = r.epoch

theorem insertMut_cases (r : RevocationState) (cap : Capability) :
    (r.get cap.id ≠ none ∧ r.insertMut cap = (.error (.capIdCollision cap.id), r)) ∨
      ∃ r', r.insertMut cap = (.ok (), r') ∧ r.Inserted cap r' := by
  unfold insertMut
  cases h : r.caps.add cap.id cap with
  | none => exact Or.inl ⟨Table.add_eq_none_iff.mp h, rfl⟩
  | some caps =>
    exact Or.inr ⟨_, rfl, Table.find_add_old h, fun hs => hs.add h,
      fun hs k => Table.find_add hs h k, rfl, rfl⟩

theorem inserted_of_insertMut {r r' : RevocationState} {cap : Capability}
    (h : r.insertMut cap = (.ok (), r')) : r.Inserted cap r' := by
  rcases insertMut_cases r cap with ⟨_, e⟩ | ⟨r'', e, hi⟩
  · rw [e] at h
    cases h
  · rw [e] at h
    exact (Prod.mk.inj h).2 ▸ hi

/-- the two forms of insertion are the same function -/
theorem insert_eq (r : RevocationState) (cap : Capability) :
    r.insert cap = (match r.insertMut cap with
      | (.ok (), r') => .ok r'
      | (.error e, _) => .error e) := by
  unfold insert insertMut Table.add
  cases h : r.caps.search cap.id with
  | ok i => rfl
  | error pos =>
    have hp : pos ≤ r.caps.length := by
      have := binarySearch_error_le h
      rwa [Table.keys, List.length_map] at this
    show Except.ok _ = Except.ok _
    rw [insertIdx_split _ pos r.caps hp]

theorem Inserted.parentOf {r r' : RevocationState} {cap : Capability} (h : r.Inserted cap r')
    (hs : r.caps.Sorted) (k : CapId) :
    r'.parentOf k = if k = cap.id then cap.parent else r.parentOf k := by
  unfold RevocationState.parentOf
  rw [h.get hs]
  split <;> rfl

theorem Inserted.getChildren {r r' : RevocationState} {cap : Capability} (h : r.Inserted cap r')
    (hs : r.childrenIndex.Sorted) (p : CapId) :
    r'.getChildren p = r.getChildren p ++ (if cap.parent = some p then [cap.id] else []) := by
  unfold RevocationState.getChildren
  rw [h.index]
  unfold indexWith
  cases cap.parent with
  | none => simp
  | some q =>
    simp only [find_addChildToIndex r.childrenIndex q cap.id hs, Option.some.injEq]
    by_cases hq : p = q
    · subst hq
      rw [if_pos rfl, if_pos rfl]
      cases r.childrenIndex.find p <;> rfl
    · rw [if_neg hq, if_neg (Ne.symm hq), List.append_nil]

theorem WellFormed.inserted {r r' : RevocationState} {cap : Capability} (w : r.WellFormed)
    (h : r.Inserted cap r') : r'.WellFormed where
  sorted := h.sorted w.sorted
  indexSorted := by
    rw [h.index]
    unfold indexWith
    split
    · exact addChildToIndex_sorted _ _ _ w.indexSorted
    · exact w.indexSorted
  keyed k c hk := by
    rw [h.get w.sorted] at hk
    split at hk
    · rename_i e
      cases hk
      exact e.symm
    · exact w.keyed k c hk
  children p k := by
    rw [h.getChildren w.indexSorted, List.mem_append, w.children, h.parentOf w.sorted]
    have hfresh : r.parentOf cap.id = none := by
      unfold RevocationState.parentOf
      rw [h.fresh]
      rfl
    by_cases hp : cap.parent = some p
    · rw [if_pos hp, List.mem_singleton]
      by_cases hk : k = cap.id
      · rw [if_pos hk]
        exact iff_of_true (Or.inr hk) hp
      · rw [if_neg hk]
        exact or_iff_left hk
    · rw [if_neg hp]
      by_cases hk : k = cap.id
      · rw [if_pos hk, hk, hfresh]
        exact iff_of_false (fun h => h.elim nofun nofun) hp
      · rw [if_neg hk]
        exact or_iff_left nofun

/-! ## revocation -/

theorem WellFormed.cutBy {r r' : RevocationState} {S : CapId → Prop} (w : r.WellFormed)
    (h : r.CutBy S r') : r'.WellFormed where
  sorted := w.sorted.of_keys h.keys
  indexSorted := h.index ▸ w.indexSorted
  keyed k c hk := by
    obtain ⟨cap, hr, rfl | rfl⟩ := h.of_get hk
    · exact w.keyed k _ hr
    · exact w.keyed k cap hr
  children p k := by
    rw [h.parentOf, show r'.getChildren p = r.getChildren p by
      unfold getChildren
      rw [h.index]]
    exact w.children p k

/-! ## the sweep -/

/-- no set of ids has more children than the index has entries -/
theorem sum_getChildren_lt (r : RevocationState) (V : Finset CapId) :
    ∑ x ∈ V, (r.getChildren x).length < r.sweepBound := by
  have h := sum_children_le r.childrenIndex (fun x => (r.getChildren x).length) ?_ V
  · unfold sweepBound
    omega
  · intro x
    unfold getChildren
    cases hx : r.childrenIndex.find x with
    | none => exact Or.inl rfl
    | some cs => exact Or.inr ⟨cs, Table.mem_of_find hx, rfl⟩

/-- the loop has ended after `sweepBound` rounds, on every table -/
theorem sweep_ended (r : RevocationState) (c : CapId) :
    ((Sweep.round r.getChildren)^[r.sweepBound] (Sweep.start c)).Ended :=
  Sweep.ended_of_bound r.getChildren c r.sum_getChildren_lt

/-- so nothing is cut off at the bound -/
theorem collectDescendants_of_le (r : RevocationState) (c : CapId) {n : Nat}
    (hn : r.sweepBound ≤ n) : Sweep.collect r.getChildren n c = r.collectDescendants c :=
  Sweep.collect_of_le r.getChildren c r.sum_getChildren_lt hn

theorem mem_collectDescendants_iff_reach (r : RevocationState) (c k : CapId) :
    k ∈ r.collectDescendants c ↔ Sweep.Reach r.getChildren c k :=
  Sweep.mem_collect_iff r.getChildren c r.sum_getChildren_lt k

/-- what is collected is the revoked id and everything below it -/
theorem WellFormed.mem_collectDescendants {r : RevocationState} (w : r.WellFormed) (c k : CapId) :
    k ∈ r.collectDescendants c ↔ k = c ∨ Above r.parentOf c k := by
  rw [mem_collectDescendants_iff_reach]
  have e : (fun x y => y ∈ r.getChildren x) = Function.swap fun x y => r.parentOf x = some y := by
    funext x y
    exact propext (w.children x y)
  unfold Sweep.Reach
  rw [e, Relation.reflTransGen_swap, Relation.reflTransGen_iff_eq_or_transGen]
  exact or_congr eq_comm Iff.rfl

theorem WellFormed.cutBy_fast {r : RevocationState} (w : r.WellFormed) (c : CapId) :
    r.CutBy (fun k => k = c ∨ Above r.parentOf c k) (r.revokeTransitiveFast c) :=
  (cutBy_revokeTransitiveFast r c).congr fun k _ _ => w.mem_collectDescendants c k

/-! ## the table as a forest -/

/-- the parent fields, and the entries with a property -/
def forest (r : RevocationState) (P : Capability → Prop) : Forest CapId :=
  ⟨r.parentOf, fun k => ∃ cap, r.get k = some cap ∧ P cap⟩

/-- an insertion grows the forest -/
theorem forest_inserted {r r' : RevocationState} {cap : Capability} (h : r.Inserted cap r')
    (hs : r.caps.Sorted) (P : Capability → Prop) :
    r'.forest P = (r.forest P).grow cap.id cap.parent (P cap) := by
  unfold forest Forest.grow
  congr 1
  · funext k
    exact h.parentOf hs k
  · funext k
    rw [h.get hs k]
    by_cases hk : k = cap.id
    · rw [if_pos hk, hk]
      refine propext ⟨fun ⟨c, hc, hP⟩ => Or.inl ⟨rfl, Option.some.inj hc ▸ hP⟩, ?_⟩
      rintro (⟨_, hP⟩ | ⟨c, hc, _⟩)
      · exact ⟨cap, rfl, hP⟩
      · rw [h.fresh] at hc
        cases hc
    · rw [if_neg hk]
      exact propext (or_iff_right fun h => hk h.1).symm

/-- a revocation cuts the forest of the valid entries -/
theorem forest_cutBy {r r' : RevocationState} {S : CapId → Prop} (h : r.CutBy S r') :
    r'.forest (·.valid = true) = (r.forest (·.valid = true)).cut S := by
  unfold forest Forest.cut
  congr 1
  · exact h.parentOf
  · funext k
    exact propext (isValid_iff.symm.trans ((h.isValid k).trans (and_congr isValid_iff Iff.rfl)))

/-- a revocation removes no entry and moves no pointer -/
theorem forest_cutBy_all {r r' : RevocationState} {S : CapId → Prop} (h : r.CutBy S r') :
    (r'.forest fun _ => True) = r.forest fun _ => True := by
  unfold forest
  congr 1
  · exact h.parentOf
  · funext k
    refine propext ⟨fun ⟨cap', hk, _⟩ => ?_, fun ⟨cap, hk, _⟩ => ?_⟩
    · obtain ⟨cap, hr, _⟩ := h.of_get hk
      exact ⟨cap, hr, trivial⟩
    · obtain ⟨cap', hr, _⟩ := h.get_some hk
      exact ⟨cap', hr, trivial⟩

/-! ## every table that operations can build -/

end RevocationState

/-- one operation on a table -/
inductive TableOp
  | insert (cap : Capability)
  | insertMut (cap : Capability)
  | revoke (c : CapId)
  | revokeMut (c : CapId)
  | revokeTransitive (c : CapId)
  | revokeTransitiveMut (c : CapId)
  | revokeTransitiveFast (c : CapId)
  | revokeTransitiveFastMut (c : CapId)

open RevocationState

/-- the table that an operation leaves; a failed insertion leaves it as it was -/
def TableOp.exec (r : RevocationState) : TableOp → RevocationState
  | .insert cap =>
    match r.insert cap with
    | .ok r' => r'
    | .error _ => r
  | .insertMut cap => (r.insertMut cap).2
  | .revoke c => r.revoke c
  | .revokeMut c => (r.revokeMut c).2
  | .revokeTransitive c => r.revokeTransitive c
  | .revokeTransitiveMut c => r.revokeTransitiveMut c
  | .revokeTransitiveFast c => r.revokeTransitiveFast c
  | .revokeTransitiveFastMut c => (r.revokeTransitiveFastMut c).2

/-- the capability that an operation is to insert -/
def TableOp.inserts : TableOp → Option Capability
  | .insert cap | .insertMut cap => some cap
  | _ => none

/-- what an operation does to a table: an insertion that is accepted, or a cut; an insertion that
is refused is a cut by nothing -/
inductive TableOp.Leaves (r : RevocationState) (op : TableOp) : RevocationState → Prop
  | inserted {cap : Capability} {r' : RevocationState} (hc : op.inserts = some cap)
      (h : r.Inserted cap r') : Leaves r op r'
  | cut {S : CapId → Prop} {r' : RevocationState}
      (hc : ∀ cap, op.inserts = some cap → r.get cap.id ≠ none) (h : r.CutBy S r') : Leaves r op r'

theorem TableOp.leaves_insertMut (r : RevocationState) {op : TableOp} {cap : Capability}
    (hc : op.inserts = some cap) : op.Leaves r (r.insertMut cap).2 := by
  rcases insertMut_cases r cap with ⟨hold, e⟩ | ⟨r', e, hi⟩
  · rw [e]
    refine .cut (fun cap' hc' => ?_) (.refl r)
    rwa [← Option.some.inj (hc.symm.trans hc')]
  · rw [e]
    exact .inserted hc hi

theorem TableOp.leaves {r : RevocationState} (hs : r.caps.Sorted) (op : TableOp) :
    op.Leaves r (op.exec r) := by
  cases op with
  | insert cap =>
    have e : (TableOp.insert cap).exec r = (r.insertMut cap).2 := by
      simp only [TableOp.exec, insert_eq]
      rcases insertMut_cases r cap with ⟨_, e⟩ | ⟨r', e, _⟩
      · rw [e]
      · rw [e]
    rw [e]
    exact TableOp.leaves_insertMut r rfl
  | insertMut cap => exact TableOp.leaves_insertMut r rfl
  | revoke c => exact .cut nofun (cutBy_revoke r c)
  | revokeMut c =>
    show TableOp.Leaves r _ (r.revokeMut c).2
    rcases revokeMut_cases r hs c with ⟨_, e⟩ | ⟨_, e⟩
    · rw [e]
      exact .cut nofun (.refl r)
    · rw [e]
      exact .cut nofun (cutBy_revoke r c)
  | revokeTransitive c => exact .cut nofun (cutBy_revokeTransitive r c)
  | revokeTransitiveMut c =>
    show TableOp.Leaves r _ (r.revokeTransitiveMut c)
    rw [revokeTransitiveMut_eq]
    exact .cut nofun (cutBy_revokeTransitive r c)
  | revokeTransitiveFast c => exact .cut nofun (cutBy_revokeTransitiveFast r c)
  | revokeTransitiveFastMut c =>
    show TableOp.Leaves r _ (r.revokeTransitiveFastMut c).2
    rcases revokeTransitiveFastMut_cases r hs c with ⟨_, e⟩ | ⟨_, e⟩
    · rw [e]
      exact .cut nofun (.refl r)
    · rw [e]
      exact .cut nofun (cutBy_revokeTransitiveFast r c)

theorem TableOp.wellFormed {r : RevocationState} (op : TableOp) (w : r.WellFormed) :
    (op.exec r).WellFormed := by
  cases op.leaves w.sorted with
  | inserted _ h => exact w.inserted h
  | cut _ h => exact w.cutBy h

theorem TableOp.run_wellFormed (ops : List TableOp) :
    (run (fun r op => TableOp.exec r op) RevocationState.empty ops).WellFormed :=
  run_invariant (fun _ op w => op.wellFormed w) ops WellFormed.empty

/-- **Main result**: on every table that operations build, the sweep from any id ends, and the
fast revocation turns off exactly that id and the entries from which it is reached by parent
fields; in place it does the same for an id of the table, and refuses any other. -/
theorem sweep_revocation_exact (ops : List TableOp) (c : CapId) :
    let r := run (fun r op => TableOp.exec r op) RevocationState.empty ops
    ((Sweep.round r.getChildren)^[r.sweepBound] (Sweep.start c)).Ended ∧
      r.CutBy (fun k => k = c ∨ Above r.parentOf c k) (r.revokeTransitiveFast c) ∧
      r.revokeTransitiveFastMut c =
        (match r.get c with
        | some _ => (.ok (), r.revokeTransitiveFast c)
        | none => (.error (.capNotFound c), r)) := by
  intro r
  have w : r.WellFormed := TableOp.run_wellFormed ops
  refine ⟨r.sweep_ended c, w.cutBy_fast c, ?_⟩
  rcases revokeTransitiveFastMut_cases r w.sorted c with ⟨h, e⟩ | ⟨h, e⟩
  · rw [e, h]
  · rw [e]
    cases hc : r.get c with
    | none => exact absurd hc h
    | some cap => rfl

end LionCore
