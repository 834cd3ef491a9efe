import LionCore.Base.Forest
import LionCore.State.Kernel

/-!
# Every revocation is a cut

A cut turns the entries of a set of ids off and changes nothing else.

* `RevocationState.CutBy`            what a cut by a set is, entry by entry;
* `cutBy_revokeTransitive`           the ancestor search cuts what the bounded walk finds;
* `revokeTransitiveMut_eq`           the index-wise form of it is the same function;
* `cutBy_revokeTransitiveFast`       the sweep cuts exactly what it collects, cloned or in place.
-/

namespace LionCore
open Base

namespace RevocationState

/-- the parent field of the entry under an id -/
def parentOf (r : RevocationState) (k : CapId) : Option CapId :=
  (r.get k).bind Capability.parent

/-- turn off the entries of `S` -/
def cut (r : RevocationState) (S : CapId → Bool) : RevocationState :=
  { r with caps := r.caps.mapVal fun k cap => if S k then cap.revoke else cap }

/-- `r'` is `r` with exactly the entries of `S` turned off -/
structure CutBy (r : RevocationState) (S : CapId → Prop) (r' : RevocationState) : Prop where
  keys : r'.caps.keys = r.caps.keys
  inside : ∀ k cap, r.get k = some cap → S k → r'.get k = some cap.revoke
  outside : ∀ k cap, r.get k = some cap → ¬ S k → r'.get k = some cap
  index : r'.childrenIndex = r.childrenIndex
  epoch : r'.epoch = r.epoch

/-! ## reading the table -/

theorem isValid_iff {r : RevocationState} {k : CapId} :
    r.isValid k = true ↔ ∃ cap, r.get k = some cap ∧ cap.valid = true := by
  unfold isValid
  cases r.get k with
  | none => simp
  | some cap => simp

/-- a valid entry stands in the way of a free of its target -/
theorem anyValidTargeting_of_get {r : RevocationState} {k : CapId} {cap : Capability}
    (h : r.get k = some cap) (hv : cap.valid = true) : r.anyValidTargeting cap.target = true := by
  refine List.any_eq_true.mpr ⟨(k, cap), Table.mem_of_find h, ?_⟩
  rw [Bool.and_eq_true]
  exact ⟨hv, decide_eq_true rfl⟩

theorem parentOf_of_get {r : RevocationState} {k : CapId} {cap : Capability}
    (h : r.get k = some cap) : r.parentOf k = cap.parent := by
  unfold parentOf
  rw [h]
  rfl

/-! ## cuts -/

theorem revoke_if_congr (cap : Capability) (p q : Prop) [Decidable p] [Decidable q] :
    ((if p then cap.revoke else cap) = if q then cap.revoke else cap) ↔
      (cap.valid = true → (p ↔ q)) := by
  cases hv : cap.valid with
  | false =>
    rw [Capability.revoke_of_invalid hv, ite_self, ite_self]
    exact iff_of_true rfl nofun
  | true =>
    have hne : cap.revoke ≠ cap := fun e => by
      have hoff : cap.revoke.valid = false := rfl
      rw [e, hv] at hoff
      cases hoff
    by_cases hp : p <;> by_cases hq : q <;> simp [hp, hq, hne, hne.symm]

theorem get_cut (r : RevocationState) (S : CapId → Bool) (k : CapId) :
    (r.cut S).get k = (r.get k).map fun cap => if S k then cap.revoke else cap := by
  unfold get cut
  exact Table.find_mapVal (fun k (cap : Capability) => if S k then cap.revoke else cap) r.caps k

theorem cutBy_cut (r : RevocationState) (S : CapId → Bool) :
    r.CutBy (fun k => S k = true) (r.cut S) where
  keys := Table.keys_mapVal (fun k (cap : Capability) => if S k then cap.revoke else cap) r.caps
  inside k cap hk hS := by
    rw [get_cut, hk]
    exact congrArg some (if_pos hS)
  outside k cap hk hS := by
    rw [get_cut, hk]
    exact congrArg some (if_neg hS)
  index := rfl
  epoch := rfl

theorem CutBy.refl (r : RevocationState) : r.CutBy (fun _ => False) r where
  keys := rfl
  inside _ _ _ h := h.elim
  outside _ _ h _ := h
  index := rfl
  epoch := rfl

theorem CutBy.congr {r r' : RevocationState} {S S' : CapId → Prop} (h : r.CutBy S r')
    (hS : ∀ k cap, r.get k = some cap → (S k ↔ S' k)) : r.CutBy S' r' :=
  { h with
    inside := fun k cap hk hk' => h.inside k cap hk ((hS k cap hk).mpr hk')
    outside := fun k cap hk hk' => h.outside k cap hk fun hk'' => hk' ((hS k cap hk).mp hk'') }

theorem CutBy.get_none {r r' : RevocationState} {S : CapId → Prop} (h : r.CutBy S r')
    {k : CapId} : r'.get k = none ↔ r.get k = none := by
  unfold get
  rw [Table.find_eq_none_iff, Table.find_eq_none_iff, Table.findIndex_congr h.keys]

/-- an entry keeps every field but its validity -/
theorem CutBy.get_some {r r' : RevocationState} {S : CapId → Prop} (h : r.CutBy S r')
    {k : CapId} {cap : Capability} (hk : r.get k = some cap) :
    ∃ cap', r'.get k = some cap' ∧ (cap' = cap ∨ cap' = cap.revoke) := by
  by_cases hS : S k
  · exact ⟨cap.revoke, h.inside k cap hk hS, Or.inr rfl⟩
  · exact ⟨cap, h.outside k cap hk hS, Or.inl rfl⟩

theorem CutBy.of_get {r r' : RevocationState} {S : CapId → Prop} (h : r.CutBy S r')
    {k : CapId} {cap' : Capability} (hk : r'.get k = some cap') :
    ∃ cap, r.get k = some cap ∧ (cap' = cap ∨ cap' = cap.revoke) := by
  cases hr : r.get k with
  | none =>
    rw [h.get_none.mpr hr] at hk
    cases hk
  | some cap =>
    obtain ⟨cap'', hk', hc⟩ := h.get_some hr
    rw [hk] at hk'
    exact ⟨cap, rfl, Option.some.inj hk' ▸ hc⟩

theorem CutBy.parentOf {r r' : RevocationState} {S : CapId → Prop} (h : r.CutBy S r') :
    r'.parentOf = r.parentOf := by
  funext k
  cases hr : r.get k with
  | none =>
    unfold RevocationState.parentOf
    rw [hr, h.get_none.mpr hr]
  | some cap =>
    obtain ⟨cap', hk', hc⟩ := h.get_some hr
    rw [parentOf_of_get hr, parentOf_of_get hk']
    rcases hc with rfl | rfl <;> rfl

theorem CutBy.isValid {r r' : RevocationState} {S : CapId → Prop} (h : r.CutBy S r') (k : CapId) :
    r'.isValid k = true ↔ r.isValid k = true ∧ ¬ S k := by
  rw [isValid_iff, isValid_iff]
  constructor
  · rintro ⟨cap', hk', hv⟩
    obtain ⟨cap, hk, _⟩ := h.of_get hk'
    by_cases hS : S k
    · rw [h.inside k cap hk hS] at hk'
      cases hk'
      cases hv
    · rw [h.outside k cap hk hS] at hk'
      obtain rfl := Option.some.inj hk'
      exact ⟨⟨cap, hk, hv⟩, hS⟩
  · rintro ⟨⟨cap, hk, hv⟩, hS⟩
    exact ⟨cap, h.outside k cap hk hS, hv⟩

/-! ## the single revocation -/

theorem cutBy_revoke (r : RevocationState) (c : CapId) : r.CutBy (· = c) (r.revoke c) := by
  have e : r.revoke c = r.cut fun k => decide (k = c) := by simp [revoke, cut]
  rw [e]
  exact (cutBy_cut r _).congr fun k _ _ => decide_eq_true_iff

theorem findIndex_cases (r : RevocationState) (c : CapId) :
    (r.get c = none ∧ r.caps.findIndex c = none) ∨
      (r.get c ≠ none ∧ ∃ i, r.caps.findIndex c = some i) := by
  cases hi : r.caps.findIndex c with
  | none => exact Or.inl ⟨Table.find_eq_none_iff.mpr hi, rfl⟩
  | some i =>
    refine Or.inr ⟨fun h => ?_, i, rfl⟩
    rw [Table.find_eq_none_iff.mp h] at hi
    cases hi

theorem revokeMut_cases (r : RevocationState) (hs : r.caps.Sorted) (c : CapId) :
    (r.get c = none ∧ r.revokeMut c = (.error (.capNotFound c), r)) ∨
      (r.get c ≠ none ∧ r.revokeMut c = (.ok (), r.revoke c)) := by
  unfold revokeMut
  rcases r.findIndex_cases c with ⟨hnone, hi⟩ | ⟨hsome, i, hi⟩
  · rw [hi]
    exact Or.inl ⟨hnone, rfl⟩
  · rw [hi]
    refine Or.inr ⟨hsome, ?_⟩
    show (_, _) = _
    rw [Table.modify_eq_mapVal hs]
    rfl

/-! ## revocation by ancestor search -/

theorem hasAncestorWithFuel_eq_walk (r : RevocationState) (a : CapId) (n : Nat) (k : CapId) :
    r.hasAncestorWithFuel a n k = walk r.parentOf a n k := by
  induction n generalizing k with
  | zero => rfl
  | succ n ih =>
    unfold hasAncestorWithFuel walk
    cases hk : r.get k with
    | none =>
      have hp : r.parentOf k = none := by rw [parentOf, hk]; rfl
      rw [hp]
    | some cap =>
      rw [parentOf_of_get hk]
      dsimp only
      cases cap.parent with
      | none => rfl
      | some p =>
        dsimp only
        rw [ih]

/-- the walk from `k` finds exactly the ancestors that are at most `k` steps up -/
theorem hasAncestor_iff (r : RevocationState) (k a : CapId) :
    r.hasAncestor k a = true ↔ ∃ n < k, nth r.parentOf (n + 1) k = some a := by
  unfold hasAncestor
  rw [hasAncestorWithFuel_eq_walk, walk_iff]

theorem above_of_hasAncestor {r : RevocationState} {k a : CapId} (h : r.hasAncestor k a = true) :
    Above r.parentOf a k := by
  obtain ⟨n, _, hn⟩ := (hasAncestor_iff r k a).mp h
  exact above_iff_nth.mpr ⟨n, hn⟩

theorem inRevokeSet_iff (r : RevocationState) (k c : CapId) :
    r.inRevokeSet k c = true ↔ k = c ∨ r.hasAncestor k c = true := by
  unfold inRevokeSet
  rw [Bool.or_eq_true, decide_eq_true_iff]

theorem cutBy_revokeTransitive (r : RevocationState) (c : CapId) :
    r.CutBy (fun k => r.inRevokeSet k c = true) (r.revokeTransitive c) :=
  cutBy_cut r fun k => r.inRevokeSet k c

/-- turning off the entries at a list of indices, read at one index -/
theorem getElem?_revokeAt (is : List Nat) (t : CapTable) (j : Nat) :
    (is.foldl (fun t i => List.modify t i fun e => (e.1, e.2.revoke)) t)[j]? =
      if j ∈ is then t[j]?.map fun e => (e.1, e.2.revoke) else t[j]? := by
  induction is generalizing t with
  | nil => rfl
  | cons i is ih =>
    rw [List.foldl_cons, ih, List.getElem?_modify]
    by_cases hi : i = j
    · subst hi
      rw [if_pos List.mem_cons_self]
      cases t[i]? with
      | none => split <;> rfl
      | some e => split <;> simp [Capability.revoke]
    · have e : (j ∈ i :: is) = (j ∈ is) := by
        rw [List.mem_cons]
        exact propext (or_iff_right (Ne.symm hi))
      simp only [e, if_neg hi]
      cases t[j]? <;> rfl

theorem revokeTransitiveMut_eq (r : RevocationState) (c : CapId) :
    r.revokeTransitiveMut c = r.revokeTransitive c := by
  unfold revokeTransitiveMut revokeTransitive
  refine congrArg (fun caps => { r with caps := caps }) (List.ext_getElem? fun j => ?_)
  rw [getElem?_revokeAt, Table.mapVal, List.getElem?_map]
  -- an index is collected iff the entry at it is in the revoke set
  have hj : (j ∈ r.caps.zipIdx.filterMap fun e =>
      if r.inRevokeSet e.1.1 c then some e.2 else none) ↔
      ∃ e, r.caps[j]? = some e ∧ r.inRevokeSet e.1 c = true := by
    rw [List.mem_filterMap]
    constructor
    · rintro ⟨⟨e, i⟩, hm, he⟩
      rw [List.mem_zipIdx_iff_getElem?] at hm
      cases hin : r.inRevokeSet e.1 c with
      | false => simp [hin] at he
      | true =>
        simp only [hin, if_true, Option.some.injEq] at he
        exact ⟨e, he ▸ hm, hin⟩
    · rintro ⟨e, he, hin⟩
      exact ⟨(e, j), List.mem_zipIdx_iff_getElem?.mpr he, if_pos hin⟩
  cases he : r.caps[j]? with
  | none => split <;> rfl
  | some e =>
    rw [he] at hj
    cases hin : r.inRevokeSet e.1 c with
    | false =>
      rw [if_neg fun h => by
        obtain ⟨e', he', hin'⟩ := hj.mp h
        cases he'
        rw [hin] at hin'
        cases hin']
      simp [hin]
    | true =>
      rw [if_pos (hj.mpr ⟨e, rfl, hin⟩)]
      simp [hin]

/-! ## revocation by sweeping the index -/

theorem mem_toRevoke (r : RevocationState) (c k : CapId) :
    k ∈ r.toRevoke c ↔ k ∈ r.collectDescendants c :=
  (List.perm_insertionSort _ _).mem_iff

theorem increasing_toRevoke (r : RevocationState) (c : CapId) : Increasing (r.toRevoke c) := by
  have hle : (r.toRevoke c).Pairwise (· ≤ ·) := List.pairwise_insertionSort _ _
  have hnd : (r.toRevoke c).Nodup :=
    (List.perm_insertionSort _ _).nodup_iff.mpr (Sweep.nodup_collect _ _ _)
  exact (hle.and hnd).imp fun h => lt_of_le_of_ne h.1 h.2

theorem cutBy_revokeTransitiveFast (r : RevocationState) (c : CapId) :
    r.CutBy (fun k => k ∈ r.collectDescendants c) (r.revokeTransitiveFast c) :=
  (cutBy_cut r fun k => has (r.toRevoke c) k).congr fun k _ _ => by
    rw [has_iff (increasing_toRevoke r c), mem_toRevoke]

/-- turning entries off one after the other is turning them off at once -/
theorem foldl_revoke (ids : List CapId) (t : CapTable) (hs : t.Sorted) :
    ids.foldl (fun t id => t.modify id Capability.revoke) t =
      t.mapVal fun k cap => if k ∈ ids then cap.revoke else cap := by
  induction ids generalizing t with
  | nil => exact (Table.mapVal_eq_self _ t fun k cap _ => if_neg List.not_mem_nil).symm
  | cons id ids ih =>
    rw [List.foldl_cons, ih _ (hs.modify id Capability.revoke), Table.modify_eq_mapVal hs]
    unfold Table.mapVal
    rw [List.map_map]
    apply List.map_congr_left
    intro e _
    have hif : (if e.1 ∈ ids then (if e.1 = id then e.2.revoke else e.2).revoke
        else if e.1 = id then e.2.revoke else e.2) =
        if e.1 ∈ id :: ids then e.2.revoke else e.2 := by
      by_cases h1 : e.1 = id
      · have hm : e.1 ∈ id :: ids := List.mem_cons.mpr (Or.inl h1)
        rw [if_pos h1, if_pos hm]
        exact ite_self e.2.revoke
      · simp only [h1, List.mem_cons, if_false, false_or]
    exact congrArg (Prod.mk e.1) hif

theorem find_foldl_revoke (ids : List CapId) (t : CapTable) (k : CapId) :
    Table.find (ids.foldl (fun t id => t.modify id Capability.revoke) t) k =
      if k ∈ ids then (t.find k).map Capability.revoke else t.find k := by
  induction ids generalizing t with
  | nil => rfl
  | cons id ids ih =>
    rw [List.foldl_cons, ih, Table.find_modify]
    by_cases h : k = id
    · subst h
      rw [if_pos rfl, if_pos List.mem_cons_self]
      cases t.find k with
      | none => exact ite_self none
      | some cap => exact ite_self (some cap.revoke)
    · simp only [h, List.mem_cons, if_false, false_or]

/-- nothing is turned off iff none of the ids is that of a valid entry -/
theorem foldl_revoke_eq_self_iff (ids : List CapId) (t : CapTable) :
    ids.foldl (fun t id => t.modify id Capability.revoke) t = t ↔
      ∀ id ∈ ids, ∀ cap, t.find id = some cap → cap.valid = false := by
  constructor
  · intro h id hid cap hcap
    have hf := find_foldl_revoke ids t id
    rw [h, if_pos hid, hcap] at hf
    rw [Option.some.inj hf]
    rfl
  · intro h
    induction ids with
    | nil => rfl
    | cons id ids ih =>
      have hid : t.modify id Capability.revoke = t := Table.modify_eq_self fun cap hcap =>
        Capability.revoke_of_invalid (h id List.mem_cons_self cap hcap)
      rw [List.foldl_cons, hid]
      exact ih fun id' hid' => h id' (List.mem_cons_of_mem id hid')

theorem keys_foldl_revoke (ids : List CapId) (t : CapTable) :
    (ids.foldl (fun t id => t.modify id Capability.revoke) t).keys = t.keys := by
  induction ids generalizing t with
  | nil => rfl
  | cons id ids ih => exact (ih _).trans (Table.keys_modify t id Capability.revoke)

/-- in place, the sweep cuts what it collects; this needs no order of the table -/
theorem cutBy_revokeTransitiveFastMut {r r' : RevocationState} {c : CapId}
    (h : r.revokeTransitiveFastMut c = (.ok (), r')) :
    r.CutBy (fun k => k ∈ r.collectDescendants c) r' := by
  unfold revokeTransitiveFastMut at h
  split at h
  · cases h
  obtain rfl := (Prod.mk.inj h).2
  have hget := find_foldl_revoke (r.toRevoke c) r.caps
  refine ⟨keys_foldl_revoke _ _, fun k cap hk hin => ?_, fun k cap hk hout => ?_, rfl, rfl⟩
  · refine (hget k).trans ((if_pos ((r.mem_toRevoke c k).mpr hin)).trans ?_)
    rw [show r.caps.find k = some cap from hk, Option.map_some]
  · exact (hget k).trans ((if_neg (mt (r.mem_toRevoke c k).mp hout)).trans hk)

theorem revokeTransitiveFastMut_cases (r : RevocationState) (hs : r.caps.Sorted) (c : CapId) :
    (r.get c = none ∧ r.revokeTransitiveFastMut c = (.error (.capNotFound c), r)) ∨
      (r.get c ≠ none ∧ r.revokeTransitiveFastMut c = (.ok (), r.revokeTransitiveFast c)) := by
  unfold revokeTransitiveFastMut
  rcases r.findIndex_cases c with ⟨hnone, hi⟩ | ⟨hsome, i, hi⟩
  · rw [hi]
    exact Or.inl ⟨hnone, rfl⟩
  · rw [hi]
    refine Or.inr ⟨hsome, ?_⟩
    show (_, _) = _
    rw [foldl_revoke _ _ hs]
    unfold revokeTransitiveFast
    simp only [has_iff (increasing_toRevoke r c)]

end RevocationState
end LionCore
