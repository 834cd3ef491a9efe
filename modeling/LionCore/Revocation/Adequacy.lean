import LionCore.Revocation.Index

/-!
# The documented invariants make the four revocations one

The ancestor search goes up by parent fields, the sweep goes down by the children index.  With
parents below their children the number of an entry is fuel enough for the first; with an index
that is consistent and complete the second collects the same entries.

* `DocumentedInvariants`     what the comments on the table ask for, row by row;
* `hasAncestor_iff_above`    the search finds exactly the ancestors;
* `revocations_agree`        **main result**.
-/

namespace LionCore
open Base

namespace RevocationState

/-- table and index as documented; that valid entries have valid parents is not needed here -/
structure DocumentedInvariants (r : RevocationState) : Prop where
  sorted : r.caps.Sorted
  keys_match : ∀ e ∈ r.caps, e.2.id = e.1
  parent_lt : ∀ e ∈ r.caps, ∀ p ∈ e.2.parent, p < e.1
  index_sorted : r.childrenIndex.Sorted
  consistent : ∀ row ∈ r.childrenIndex, ∀ k ∈ row.2, ∃ cap ∈ r.get k, row.1 ∈ cap.parent
  complete : ∀ e ∈ r.caps, ∀ p ∈ e.2.parent, ∃ row ∈ r.childrenIndex, row.1 = p ∧ e.1 ∈ row.2

instance (r : RevocationState) : Decidable r.DocumentedInvariants :=
  decidable_of_iff
    (r.caps.Sorted ∧ (∀ e ∈ r.caps, e.2.id = e.1) ∧ (∀ e ∈ r.caps, ∀ p ∈ e.2.parent, p < e.1) ∧
      r.childrenIndex.Sorted ∧
      (∀ row ∈ r.childrenIndex, ∀ k ∈ row.2, ∃ cap ∈ r.get k, row.1 ∈ cap.parent) ∧
      ∀ e ∈ r.caps, ∀ p ∈ e.2.parent, ∃ row ∈ r.childrenIndex, row.1 = p ∧ e.1 ∈ row.2)
    ⟨fun ⟨h1, h2, h3, h4, h5, h6⟩ => ⟨h1, h2, h3, h4, h5, h6⟩,
      fun h => ⟨h.1, h.2, h.3, h.4, h.5, h.6⟩⟩

namespace DocumentedInvariants
variable {r : RevocationState}

theorem parentOf_lt (h : r.DocumentedInvariants) {k p : CapId} (hp : r.parentOf k = some p) :
    p < k := by
  obtain ⟨cap, hk, hcap⟩ := Option.bind_eq_some_iff.mp hp
  exact h.parent_lt (k, cap) (Table.mem_of_find hk) p hcap

theorem wellFormed (h : r.DocumentedInvariants) : r.WellFormed where
  sorted := h.sorted
  indexSorted := h.index_sorted
  keyed k cap hk := h.keys_match (k, cap) (Table.mem_of_find hk)
  children p k := by
    constructor
    · intro hmem
      unfold getChildren at hmem
      cases hrow : r.childrenIndex.find p with
      | none =>
        rw [hrow] at hmem
        cases hmem
      | some children =>
        rw [hrow] at hmem
        obtain ⟨cap, hk, hp⟩ := h.consistent (p, children) (Table.mem_of_find hrow) k hmem
        exact (parentOf_of_get hk).trans hp
    · intro hp
      obtain ⟨cap, hk, hcap⟩ := Option.bind_eq_some_iff.mp hp
      obtain ⟨⟨_, children⟩, hrow, rfl, hmem⟩ :=
        h.complete (k, cap) (Table.mem_of_find hk) p hcap
      unfold getChildren
      rw [Table.find_of_mem h.index_sorted hrow]
      exact hmem

/-- ids fall along a chain, so the number of an entry bounds the length of its chain -/
theorem hasAncestor_iff_above (h : r.DocumentedInvariants) (k c : CapId) :
    r.hasAncestor k c = true ↔ Above r.parentOf c k := by
  unfold hasAncestor
  rw [hasAncestorWithFuel_eq_walk]
  exact walk_rank_iff id (fun _ _ hp => h.parentOf_lt hp) c k

/-- the search upward and the sweep downward find the same entries -/
theorem inRevokeSet_eq_has (h : r.DocumentedInvariants) (c k : CapId) :
    r.inRevokeSet k c = has (r.toRevoke c) k := by
  rw [Bool.eq_iff_iff, inRevokeSet_iff, h.hasAncestor_iff_above,
    has_iff (r.increasing_toRevoke c), mem_toRevoke, h.wellFormed.mem_collectDescendants]

theorem revokeTransitiveFast_eq (h : r.DocumentedInvariants) (c : CapId) :
    r.revokeTransitiveFast c = r.revokeTransitive c := by
  unfold revokeTransitiveFast revokeTransitive
  simp only [h.inRevokeSet_eq_has]

theorem revokeTransitiveFastMut_eq (h : r.DocumentedInvariants) {c : CapId} (hc : r.get c ≠ none) :
    r.revokeTransitiveFastMut c = (.ok (), r.revokeTransitive c) := by
  rcases r.revokeTransitiveFastMut_cases h.sorted c with ⟨hnone, _⟩ | ⟨_, e⟩
  · exact absurd hnone hc
  · rw [e, h.revokeTransitiveFast_eq]

end DocumentedInvariants

/-- **Main result**: under the documented invariants the ancestor search is exact for every entry,
and the four ways to revoke an id of the table leave the same table, index and epoch. -/
theorem revocations_agree (r : RevocationState) (h : r.DocumentedInvariants) (c : CapId)
    (hc : r.get c ≠ none) :
    (∀ k, r.hasAncestor k c = true ↔ Above r.parentOf c k) ∧
      r.revokeTransitiveMut c = r.revokeTransitive c ∧
      r.revokeTransitiveFast c = r.revokeTransitive c ∧
      r.revokeTransitiveFastMut c = (.ok (), r.revokeTransitive c) :=
  ⟨fun k => h.hasAncestor_iff_above k c, r.revokeTransitiveMut_eq c, h.revokeTransitiveFast_eq c,
    h.revokeTransitiveFastMut_eq hc⟩

/-- the chain 2, 5, 9 and an entry 7 of its own -/
def sampleChainTable : RevocationState where
  caps :=
    [(2, ⟨2, 1, 0, .singleton .read, none, 0, true, .empty⟩),
      (5, ⟨5, 2, 0, .singleton .read, some 2, 0, true, .empty⟩),
      (7, ⟨7, 1, 3, .singleton .write, none, 0, true, .empty⟩),
      (9, ⟨9, 3, 0, .singleton .read, some 5, 0, true, .empty⟩)]
  epoch := 4
  childrenIndex := [(2, [5]), (5, [9])]

theorem revocations_agree_sample :
    (∀ k, sampleChainTable.hasAncestor k 2 = true ↔ Above sampleChainTable.parentOf 2 k) ∧
      sampleChainTable.revokeTransitiveMut 2 = sampleChainTable.revokeTransitive 2 ∧
      sampleChainTable.revokeTransitiveFast 2 = sampleChainTable.revokeTransitive 2 ∧
      sampleChainTable.revokeTransitiveFastMut 2 =
        (.ok (), sampleChainTable.revokeTransitive 2) :=
  revocations_agree sampleChainTable (by decide) 2 (by decide)

example : (sampleChainTable.revokeTransitive 2).caps.map (fun e => (e.1, e.2.valid)) =
    [(2, false), (5, false), (7, true), (9, false)] := by decide

end RevocationState
end LionCore
