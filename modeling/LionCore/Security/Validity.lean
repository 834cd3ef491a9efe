import LionCore.Security.SlowRevocation

/-!
# The whole chain of a usable capability is valid

Validation looks at a capability and its direct parent only.  That is enough while every valid
entry stands on a chain of valid entries, which raw insertions below a missing or revoked parent
and cloning revocations whose walks are too short can break.

* `ValidChains`           the invariant;
* `KeepsChains`           the condition on one call; `ValidChains.tableStep` is the step under it;
* `usable_chain_valid`    **main result** for every run whose calls meet the condition;
* `usable_chain_broken`   a run with a cloning revocation, after which a grandchild of the
                          revoked root can still be used.
-/

namespace LionCore
open Base RevocationState

/-- every valid entry stands on a finite chain of valid entries that ends in a root -/
structure ValidChains (r : RevocationState) : Prop where
  wf : r.WellFormed
  grounded : (r.forest (·.valid = true)).AllGrounded

/-- a raw insertion of a valid capability under a free id names no parent or a valid one; a
revocation that succeeds on the cloning path has walks that are long enough -/
def KeepsChains (s : State) : Call → Prop
  | .insertCapRaw cap _ => s.getCap cap.id = none → cap.valid = true →
      ∀ p, cap.parent = some p → s.capIsValid p = true
  | .execute t => ∀ c, t.revokes = some c → t.Admitted s → s.getCap c ≠ none →
      FuelCovers s.kernel.revocation c
  | _ => True

/-- the capability and every ancestor is in the table and valid, and the chain ends in a root -/
def ChainValid (s : State) (k : CapId) : Prop :=
  (∀ a, (a = k ∨ Above s.kernel.revocation.parentOf a k) → s.capIsValid a = true) ∧
  ∃ n root cr, nth s.kernel.revocation.parentOf n k = some root ∧
    s.getCap root = some cr ∧ cr.parent = none

theorem ValidChains.empty : ValidChains .empty where
  wf := .empty
  grounded := fun _ ⟨_, hk, _⟩ => nomatch hk

/-! ## one call -/

theorem ValidChains.inserted {r r' : RevocationState} {cap : Capability} (h : ValidChains r)
    (hi : r.Inserted cap r')
    (hcap : cap.valid = true → ∀ p, cap.parent = some p → r.isValid p = true) :
    ValidChains r' where
  wf := h.wf.inserted hi
  grounded := by
    rw [forest_inserted hi h.wf.sorted]
    refine h.grounded.grow (fun ⟨c, hc, _⟩ => ?_) fun hv q hq => isValid_iff.mp (hcap hv q hq)
    rw [hi.fresh] at hc
    cases hc

theorem ValidChains.cutBy {r r' : RevocationState} {S : CapId → Prop} (h : ValidChains r)
    (hc : r.CutBy S r') (hS : (r.forest (·.valid = true)).DownClosed S) : ValidChains r' where
  wf := h.wf.cutBy hc
  grounded := by
    rw [forest_cutBy hc]
    exact h.grounded.cut hS

/-- walks that are long enough find everything below the revoked id -/
theorem FuelCovers.downClosed {r : RevocationState} {c : CapId} (h : FuelCovers r c) :
    (r.forest (·.valid = true)).DownClosed fun k => r.inRevokeSet k c = true := by
  intro k p hlive hp hin
  have ha : Above r.parentOf c k := by
    rcases (r.inRevokeSet_iff p c).mp hin with rfl | hanc
    · exact Above.parent hp
    · exact Above.step hp (above_of_hasAncestor hanc)
  by_cases hk : k = c
  · exact (r.inRevokeSet_iff k c).mpr (Or.inl hk)
  · have hw := h k (isValid_iff.mpr hlive) hk ha
    exact (r.inRevokeSet_iff k c).mpr (Or.inr ((r.hasAncestor_iff k c).mpr hw))

/-- the sweep finds everything below the revoked id, always -/
theorem ValidChains.revokeInPlace {r r' : RevocationState} {c : CapId} (h : ValidChains r)
    (hr : r.revokeTransitiveFastMut c = (.ok (), r')) : ValidChains r' := by
  rcases r.revokeTransitiveFastMut_cases h.wf.sorted c with ⟨_, e⟩ | ⟨_, e⟩
  · rw [e] at hr
    cases hr
  · rw [e] at hr
    obtain rfl := (Prod.mk.inj hr).2
    exact h.cutBy (h.wf.cutBy_fast c) ((r.forest (·.valid = true)).downClosed_cone c)

theorem ValidChains.tableStep {s : State} {cl : Call} {r : RevocationState}
    (h : ValidChains s.kernel.revocation) (hok : KeepsChains s cl) (ht : TableStep s cl r) :
    ValidChains r := by
  cases ht with
  | same => exact h
  | raw hi =>
    have hins := inserted_of_insertMut hi
    exact h.inserted hins (hok hins.fresh)
  | child hc hi =>
    refine h.inserted (inserted_of_insertMut hi) fun _ p hp => ?_
    obtain ⟨pc, hpc, hv, _⟩ := hc.entry
    obtain rfl := Option.some.inj (hc.parent.symm.trans hp)
    exact isValid_iff.mpr ⟨pc, hpc, hv⟩
  | @revoke cl p c r hadm hc hpres hr =>
    cases p with
    | inPlace => exact h.revokeInPlace hr
    | cloning =>
      obtain rfl : r = s.kernel.revocation.revokeTransitive c := hr
      -- only `execute` revokes on the cloning path
      cases cl with
      | execute t =>
        obtain ⟨c', hc', e⟩ := Option.map_eq_some_iff.mp hc
        cases e
        exact h.cutBy (s.kernel.revocation.cutBy_revokeTransitive c)
          (FuelCovers.downClosed (hok c hc' hadm hpres))
      | executeMut t =>
        obtain ⟨c', _, e⟩ := Option.map_eq_some_iff.mp hc
        cases e
      | revokeCap c' => cases hc
      | registerPlugin | insertPlugin | insertActor | insertResource | insertWorkflow
      | insertCapRaw | delegateCap | alloc | free | tick => cases hc

/-! ## runs -/

theorem validChains_runCalls (hmac : Hmac) (key : Key) (policy : PolicyState) (cs : List Call)
    (hok : Along (Call.exec hmac) KeepsChains (.initial key policy) cs) :
    ValidChains (runCalls hmac (.initial key policy) cs).kernel.revocation :=
  run_invariant_of (P := fun s => ValidChains s.kernel.revocation)
    (fun s cl h hcl => h.tableStep hcl (cl.tableStep hmac s)) cs ValidChains.empty hok

theorem ValidChains.chainValid {s : State} (h : ValidChains s.kernel.revocation) {k : CapId}
    (hk : s.capIsValid k = true) : ChainValid s k := by
  have hg := h.grounded k (isValid_iff.mp hk)
  refine ⟨?_, ?_⟩
  · rintro a (rfl | ha)
    · exact hk
    · exact isValid_iff.mpr (hg.above ha).good
  · obtain ⟨n, root, hn, hpar, cr, hr, _⟩ := hg.exists_root
    exact ⟨n, root, cr, hn, hr, (parentOf_of_get hr).symm.trans hpar⟩

/-- **Main result**: in every state of a run whose calls all keep the chains, a capability of the
table for which a token is issued has a valid chain. -/
theorem usable_chain_valid (hmac : Hmac) (key : Key) (policy : PolicyState) (cs : List Call)
    (hok : Along (Call.exec hmac) KeepsChains (.initial key policy) cs) :
    let s := runCalls hmac (.initial key policy) cs
    (∀ k cap action ctx t, s.getCap k = some cap →
      Authorized.validateAtomic s cap action ctx = .ok t → ChainValid s k) ∧
    ∀ hc k ctx res t, Step.hostCallAtomic s hc k ctx res = .ok t → ChainValid s k := by
  intro s
  have h : ValidChains s.kernel.revocation := validChains_runCalls hmac key policy cs hok
  have use : ∀ k cap action ctx, s.getCap k = some cap →
      (⟨cap, action, ctx⟩ : Authorized).Good s → ChainValid s k := by
    intro k cap action ctx hk hg
    have hid : cap.id = k := h.wf.keyed k cap hk
    exact h.chainValid (hid ▸ hg.entry)
  refine ⟨fun k cap action ctx t hk ht => ?_, fun hc k ctx res t ht => ?_⟩
  · obtain ⟨rfl, hg⟩ := (Authorized.validateAtomic_ok_iff ..).mp ht
    exact use k cap action ctx hk hg
  · obtain ⟨cap, action, hk, hg, _⟩ := hostCallAtomic_good ht
    exact use k cap action ctx hk hg

theorem usable_chain_valid_sample :
    let s := runCalls sampleMac (.initial .empty .permitAll)
      [.alloc 1 8, .registerPlugin 2 .Public 0, .insertCapRaw sampleRoot 1,
        .delegateCap 100 2 (.singleton .read)]
    (∀ k cap action ctx t, s.getCap k = some cap →
      Authorized.validateAtomic s cap action ctx = .ok t → ChainValid s k) ∧
    ∀ hc k ctx res t, Step.hostCallAtomic s hc k ctx res = .ok t → ChainValid s k :=
  usable_chain_valid sampleMac .empty .permitAll _
    (And.intro trivial (And.intro trivial (And.intro (fun _ _ _ hp => nomatch hp)
      (And.intro trivial trivial))))

/-- root 100, its child 0 and the child's child 1; then the root is revoked on the cloning path -/
def sampleGrandchild : State :=
  runCalls sampleMac (.initial .empty .permitAll)
    [.alloc 1 8, .registerPlugin 1 .Public 0, .registerPlugin 2 .Public 0,
      .registerPlugin 3 .Public 0, .insertCapRaw sampleRoot 1,
      .delegateCap 100 2 (.singleton .read), .delegateCap 0 3 (.singleton .read),
      .execute (.capRevoke 1 100)]

/-- the grandchild gets a token for reading address 0, while the root of its chain is revoked -/
theorem usable_chain_broken :
    (∃ t, Step.hostCallAtomic sampleGrandchild ⟨3, .capCall, [0], [], []⟩ 1 ⟨0, none⟩ .empty =
      .ok t) ∧ ¬ ChainValid sampleGrandchild 1 := by
  refine ⟨⟨.hostCall ⟨3, .capCall, [0], [], []⟩
    ⟨(sampleGrandchild.getCap 1).get (by decide), ⟨3, 0, .singleton .read, "cap_call"⟩, ⟨0, none⟩⟩
    .empty, by decide⟩, fun h => ?_⟩
  have ha : Above sampleGrandchild.kernel.revocation.parentOf 100 1 :=
    Above.step (p := 0) (by decide) (Above.parent (by decide))
  have hroot := h.1 100 (Or.inr ha)
  revert hroot
  decide

end LionCore
