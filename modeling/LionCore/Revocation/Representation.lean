import LionCore.Revocation.Index

/-!
# The table against the history of its insertions

What a table says under an id is what was first inserted under it, up to its validity.

* `firstInserted`          the history: the first capability under an id;
* `Keeps`                  how the table may differ from it;
* `WellFormed.inserted_nodup`   an insertion lists no child twice;
* `representation`         **main result**: order, keys, index and entries after any operations.
-/

namespace LionCore
open Base RevocationState

/-- the first capability that the operations insert under `k` -/
def firstInserted (ops : List TableOp) (k : CapId) : Option Capability :=
  (ops.filterMap TableOp.inserts).find? fun cap => decide (cap.id = k)

/-- the entry is the capability as it was inserted or turned off; without one there is no entry -/
def Keeps : Option Capability → Option Capability → Prop
  | none, entry => entry = none
  | some cap, entry => entry = some cap ∨ entry = some cap.revoke

theorem Keeps.none_iff {first entry : Option Capability} (h : Keeps first entry) :
    first = none ↔ entry = none := by
  cases first with
  | none => exact iff_of_true rfl h
  | some cap =>
    refine iff_of_false nofun fun e => ?_
    rcases h with h | h <;> rw [e] at h <;> cases h

/-- a cut turns entries off, and leaves those alone that are off -/
theorem Keeps.cutBy {r r' : RevocationState} {S : CapId → Prop} {k : CapId}
    {first : Option Capability} (h : Keeps first (r.get k)) (hcut : r.CutBy S r') :
    Keeps first (r'.get k) := by
  cases first with
  | none => exact hcut.get_none.mpr h
  | some cap =>
    rcases h with h | h
    · obtain ⟨cap', hk, rfl | rfl⟩ := hcut.get_some h
      · exact Or.inl hk
      · exact Or.inr hk
    · obtain ⟨cap', hk, rfl | rfl⟩ := hcut.get_some h
      · exact Or.inr hk
      · exact Or.inr hk

/-- one operation more adds its capability, if it goes under `k` and is the first there -/
theorem firstInserted_append (ops : List TableOp) (op : TableOp) (k : CapId) :
    firstInserted (ops ++ [op]) k = (firstInserted ops k).or
      (op.inserts.bind fun cap => if cap.id = k then some cap else none) := by
  unfold firstInserted
  rw [List.filterMap_append, List.find?_append]
  congr 1
  cases h : op.inserts with
  | none => rw [List.filterMap_cons_none h, List.filterMap_nil, List.find?_nil, Option.bind_none]
  | some cap =>
    rw [List.filterMap_cons_some h, List.filterMap_nil, Option.bind_some, List.find?_singleton]
    by_cases hk : cap.id = k
    · rw [if_pos hk, if_pos (decide_eq_true hk)]
    · rw [if_neg hk, if_neg fun e => hk (of_decide_eq_true e)]

/-- the table keeps its history -/
theorem get_run (ops : List TableOp) (k : CapId) : Keeps (firstInserted ops k)
    ((run (fun r op => TableOp.exec r op) RevocationState.empty ops).get k) := by
  induction ops using List.reverseRecOn with
  | nil => rfl
  | append_singleton ops op ih =>
    have hs := (TableOp.run_wellFormed ops).sorted
    rw [run_append]
    generalize run (fun r op => TableOp.exec r op) RevocationState.empty ops = r at ih hs ⊢
    show Keeps _ ((op.exec r).get k)
    rw [firstInserted_append]
    cases op.leaves hs with
    | @inserted cap _ hc h =>
      rw [hc, h.get hs k, Option.bind_some]
      by_cases hk : k = cap.id
      · subst hk
        rw [ih.none_iff.mpr h.fresh, if_pos rfl, if_pos rfl]
        exact Or.inl rfl
      · rw [if_neg hk, if_neg (Ne.symm hk), Option.or_none]
        exact ih
    | cut hc h =>
      have hsame : (firstInserted ops k).or
          (op.inserts.bind fun cap => if cap.id = k then some cap else none) =
            firstInserted ops k := by
        cases hop : op.inserts with
        | none => rw [Option.bind_none, Option.or_none]
        | some cap =>
          rw [Option.bind_some]
          by_cases hk : cap.id = k
          · -- the id is taken, so the history has it already
            obtain ⟨first, hfirst⟩ := Option.ne_none_iff_exists'.mp
              (mt ih.none_iff.mp (hk ▸ hc cap hop))
            rw [hfirst]
            rfl
          · rw [if_neg hk, Option.or_none]
      rw [hsame]
      exact ih.cutBy h

/-! ## the index lists nothing twice -/

theorem RevocationState.WellFormed.inserted_nodup {r r' : RevocationState} {cap : Capability}
    (w : r.WellFormed) (h : r.Inserted cap r') (p : CapId) (hnd : (r.getChildren p).Nodup) :
    (r'.getChildren p).Nodup := by
  rw [h.getChildren w.indexSorted]
  split
  · refine List.nodup_append.mpr ⟨hnd, List.nodup_singleton cap.id, fun k hk k' hk' e => ?_⟩
    -- the new id has no entry, so it is nobody's child yet
    obtain rfl := e.trans (List.mem_singleton.mp hk')
    have hp := (w.children p cap.id).mp hk
    unfold RevocationState.parentOf at hp
    rw [h.fresh] at hp
    cases hp
  · rwa [List.append_nil]

theorem getChildren_cutBy {r r' : RevocationState} {S : CapId → Prop} (h : r.CutBy S r')
    (p : CapId) : r'.getChildren p = r.getChildren p := by
  unfold getChildren
  rw [h.index]

theorem run_nodup (ops : List TableOp) (p : CapId) :
    ((run (fun r op => TableOp.exec r op) RevocationState.empty ops).getChildren p).Nodup := by
  refine (run_invariant (P := fun r : RevocationState => r.WellFormed ∧ (r.getChildren p).Nodup)
    (fun r op h => ⟨op.wellFormed h.1, ?_⟩) ops ⟨WellFormed.empty, List.nodup_nil⟩).2
  cases op.leaves h.1.sorted with
  | inserted _ hi => exact h.1.inserted_nodup hi p h.2
  | cut _ hcut => exact getChildren_cutBy hcut p ▸ h.2

/-! ## the main result -/

/-- **Main result**: after any operations on an empty table.  Entries are sorted under the ids of
their capabilities, and rows under their parents; a row lists each child once; the entry under an
id is the first capability that was inserted under it, up to its validity; and an insertion that
collides leaves everything as it is. -/
theorem representation (ops : List TableOp) :
    let r := run (fun r op => TableOp.exec r op) RevocationState.empty ops
    (r.caps.Sorted ∧ ∀ e ∈ r.caps, e.2.id = e.1) ∧ r.childrenIndex.Sorted ∧
      (∀ p, (r.getChildren p).Nodup ∧
        ∀ k, k ∈ r.getChildren p ↔ ∃ cap, (k, cap) ∈ r.caps ∧ cap.parent = some p) ∧
      (∀ k, Keeps (firstInserted ops k) (r.get k)) ∧
      ∀ cap id, (r.insert cap = .error (.capIdCollision id) → (TableOp.insert cap).exec r = r) ∧
        ((r.insertMut cap).1 = .error (.capIdCollision id) → (r.insertMut cap).2 = r) := by
  intro r
  have w : r.WellFormed := TableOp.run_wellFormed ops
  refine ⟨⟨w.sorted, fun e he => ?_⟩, w.indexSorted, fun p => ⟨run_nodup ops p, fun k => ?_⟩,
    get_run ops, fun cap id => ⟨fun h => ?_, fun h => ?_⟩⟩
  · exact w.keyed e.1 e.2 (Table.find_of_mem w.sorted he)
  · rw [w.children, RevocationState.parentOf, Option.bind_eq_some_iff]
    exact exists_congr fun cap => and_congr_left' (Table.find_iff_mem w.sorted)
  · simp only [TableOp.exec, h]
  · rcases insertMut_cases r cap with ⟨_, e⟩ | ⟨r', e, _⟩
    · rw [e]
    · rw [e] at h
      cases h

end LionCore
