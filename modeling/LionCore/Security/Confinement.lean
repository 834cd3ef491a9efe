import LionCore.Security.SlowRevocation

/-!
# Authority is confined along delegation

When raw insertions are roots, every entry stands on a finite chain of entries that ends in a
root, and no entry has a right or a target that an entry above it does not have.

* `Confined`               the invariant: grounded chains, and attenuation along every edge;
* `Confined.tableStep`     kept by everything a call can do to the table;
* `Confined.above`         along a chain attenuation is transitive;
* `delegation_confined`    **main result** for every run.
-/

namespace LionCore
open Base RevocationState

/-- a child has no right beyond its parent's, and the same target -/
def Attenuates (c pc : Capability) : Prop :=
  c.rights.isSubsetOf pc.rights = true ∧ c.target = pc.target

structure Confined (r : RevocationState) : Prop where
  sorted : r.caps.Sorted
  grounded : (r.forest fun _ => True).AllGrounded
  edge : ∀ k c p pc, r.get k = some c → c.parent = some p → r.get p = some pc → Attenuates c pc

/-- raw insertions put in roots only -/
def Call.RawRoot : Call → Prop
  | .insertCapRaw cap _ => cap.parent = none
  | _ => True

instance : DecidablePred Call.RawRoot
  | .insertCapRaw cap _ => inferInstanceAs (Decidable (cap.parent = none))
  | .registerPlugin .. | .insertPlugin .. | .insertActor .. | .insertResource ..
  | .insertWorkflow .. | .delegateCap .. | .revokeCap .. | .alloc .. | .free .. | .tick
  | .execute .. | .executeMut .. => isTrue trivial

/-! ## attenuation -/

theorem Attenuates.refl (c : Capability) : Attenuates c c := ⟨c.rights.isSubsetOf_refl, rfl⟩

theorem Attenuates.trans {a b c : Capability} (h₁ : Attenuates a b) (h₂ : Attenuates b c) :
    Attenuates a c :=
  ⟨Rights.isSubsetOf_trans h₁.1 h₂.1, h₁.2.trans h₂.2⟩

theorem ChildOf.attenuates {s : State} {p : CapId} {requested : Rights} {cap pc : Capability}
    (h : ChildOf s p requested cap) (hp : s.getCap p = some pc) : Attenuates cap pc := by
  obtain ⟨pc', hp', _, ht, hr⟩ := h.entry
  obtain rfl : pc' = pc := Option.some.inj (hp'.symm.trans hp)
  exact ⟨hr ▸ Rights.intersection_le requested pc'.rights, ht⟩

/-! ## the invariant -/

theorem Confined.empty : Confined .empty where
  sorted := List.Pairwise.nil
  grounded := fun _ ⟨_, hk, _⟩ => nomatch hk
  edge _ _ _ _ hk := nomatch hk

/-- the parent of an entry is an entry -/
theorem Confined.parent_present {r : RevocationState} (h : Confined r) {k p : CapId}
    {c : Capability} (hk : r.get k = some c) (hp : c.parent = some p) :
    ∃ pc, r.get p = some pc := by
  have hg := h.grounded k ⟨c, hk, trivial⟩
  obtain ⟨pc, hpc, _⟩ := (hg.parent ((parentOf_of_get hk).trans hp)).good
  exact ⟨pc, hpc⟩

/-- a new entry that is a root, or attenuates an entry, keeps the invariant -/
theorem Confined.inserted {r r' : RevocationState} {cap : Capability} (h : Confined r)
    (hi : r.Inserted cap r')
    (hcap : ∀ p, cap.parent = some p → ∃ pc, r.get p = some pc ∧ Attenuates cap pc) :
    Confined r' where
  sorted := hi.sorted h.sorted
  grounded := by
    rw [forest_inserted hi h.sorted]
    refine h.grounded.grow (fun ⟨c, hc, _⟩ => ?_) fun _ q hq => ?_
    · rw [hi.fresh] at hc
      cases hc
    · obtain ⟨pc, hpc, _⟩ := hcap q hq
      exact ⟨pc, hpc, trivial⟩
  edge k c p pc hk hp hpc := by
    -- an entry that a parent field names was there before
    have old : ∀ x, (∃ xc, r.get x = some xc) → r'.get x = r.get x := by
      rintro x ⟨xc, hx⟩
      rw [hi.get h.sorted, if_neg]
      rintro rfl
      rw [hi.fresh] at hx
      cases hx
    rw [hi.get h.sorted k] at hk
    split at hk
    · cases hk
      obtain ⟨qc, hq, hatt⟩ := hcap p hp
      rw [old p ⟨qc, hq⟩, hq] at hpc
      exact Option.some.inj hpc ▸ hatt
    · obtain ⟨qc, hq⟩ := h.parent_present hk hp
      rw [old p ⟨qc, hq⟩] at hpc
      exact h.edge k c p pc hk hp hpc

theorem Confined.cutBy {r r' : RevocationState} {S : CapId → Prop} (h : Confined r)
    (hc : r.CutBy S r') : Confined r' where
  sorted := h.sorted.of_keys hc.keys
  grounded := by
    rw [forest_cutBy_all hc]
    exact h.grounded
  edge k c p pc hk hp hpc := by
    obtain ⟨c₀, hk₀, rfl | rfl⟩ := hc.of_get hk <;> obtain ⟨pc₀, hpc₀, rfl | rfl⟩ := hc.of_get hpc
    · exact h.edge k _ p _ hk₀ hp hpc₀
    · exact h.edge k _ p pc₀ hk₀ hp hpc₀
    · exact h.edge k c₀ p _ hk₀ hp hpc₀
    · exact h.edge k c₀ p pc₀ hk₀ hp hpc₀

theorem Confined.tableStep {s : State} {cl : Call} {r : RevocationState}
    (h : Confined s.kernel.revocation) (hroot : cl.RawRoot) (ht : TableStep s cl r) :
    Confined r := by
  cases ht with
  | same => exact h
  | raw hi =>
    refine h.inserted (inserted_of_insertMut hi) fun p hp => ?_
    rw [show _ = none from hroot] at hp
    cases hp
  | child hc hi =>
    refine h.inserted (inserted_of_insertMut hi) fun p hp => ?_
    obtain ⟨pc, hpc, _⟩ := hc.entry
    obtain rfl := Option.some.inj (hc.parent.symm.trans hp)
    exact ⟨pc, hpc, hc.attenuates hpc⟩
  | revoke _ _ _ hr =>
    obtain ⟨S, hcut⟩ := Path.revokes_cutBy h.sorted hr
    exact h.cutBy hcut

/-- every entry above an entry is present and has at least its rights on its target -/
theorem Confined.above {r : RevocationState} (h : Confined r) {k a : CapId} {c : Capability}
    (hk : r.get k = some c) (ha : Above r.parentOf a k) :
    ∃ ca, r.get a = some ca ∧ Attenuates c ca := by
  unfold Above at ha
  induction ha with
  | single hp =>
    rw [parentOf_of_get hk] at hp
    obtain ⟨pc, hpc⟩ := h.parent_present hk hp
    exact ⟨pc, hpc, h.edge k c _ pc hk hp hpc⟩
  | tail _ hp ih =>
    obtain ⟨b, hb, hatt⟩ := ih
    rw [parentOf_of_get hb] at hp
    obtain ⟨pc, hpc⟩ := h.parent_present hb hp
    exact ⟨pc, hpc, hatt.trans (h.edge _ b _ pc hb hp hpc)⟩

/-! ## runs -/

theorem confined_runCalls (hmac : Hmac) (key : Key) (policy : PolicyState) (cs : List Call)
    (hroot : ∀ cl ∈ cs, cl.RawRoot) :
    Confined (runCalls hmac (.initial key policy) cs).kernel.revocation :=
  run_invariant_of (P := fun s => Confined s.kernel.revocation)
    (fun s cl h hcl => h.tableStep hcl (cl.tableStep hmac s)) cs Confined.empty
    (along_of_forall cs hroot _)

/-- **Main result**: in every state of a run that inserts roots only, every entry is attenuated
with respect to every entry above it, and its chain ends after finitely many steps in a root of
the table that carries its authority. -/
theorem delegation_confined (hmac : Hmac) (key : Key) (policy : PolicyState) (cs : List Call)
    (hroot : ∀ cl ∈ cs, cl.RawRoot) :
    let s := runCalls hmac (.initial key policy) cs
    ∀ k c, s.getCap k = some c →
      (∀ a, Above s.kernel.revocation.parentOf a k →
        ∃ ca, s.getCap a = some ca ∧ Attenuates c ca) ∧
      ∃ n root cr, nth s.kernel.revocation.parentOf n k = some root ∧
        s.getCap root = some cr ∧ cr.parent = none ∧ Attenuates c cr := by
  intro s k c hk
  have h : Confined s.kernel.revocation := confined_runCalls hmac key policy cs hroot
  refine ⟨fun a ha => h.above hk ha, ?_⟩
  obtain ⟨n, root, hn, hpar, cr, hr, _⟩ := (h.grounded k ⟨c, hk, trivial⟩).exists_root
  refine ⟨n, root, cr, hn, hr, (parentOf_of_get hr).symm.trans hpar, ?_⟩
  rcases eq_or_above_of_nth hn with rfl | ha
  · obtain rfl := Option.some.inj (hk.symm.trans hr)
    exact Attenuates.refl c
  · obtain ⟨ca, hca, hatt⟩ := h.above hk ha
    obtain rfl := Option.some.inj (hca.symm.trans hr)
    exact hatt

theorem delegation_confined_sample :
    let s := runCalls sampleMac (.initial .empty .denyAll)
      [.insertCapRaw sampleRoot 1, .delegateCap 100 2 (.singleton .read), .revokeCap 100]
    ∀ k c, s.getCap k = some c →
      (∀ a, Above s.kernel.revocation.parentOf a k →
        ∃ ca, s.getCap a = some ca ∧ Attenuates c ca) ∧
      ∃ n root cr, nth s.kernel.revocation.parentOf n k = some root ∧
        s.getCap root = some cr ∧ cr.parent = none ∧ Attenuates c cr :=
  delegation_confined sampleMac .empty .denyAll _ (by decide)

end LionCore
