import LionCore.Security.SlowRevocation

/-!
# Presented capabilities

The gate compares an action with the fields of the capability that is PRESENTED; of the table it
asks only whether the entry under the presented id is on.

* `validateAtomic_carries_iff`   **main result**: when a token implies authority in the table;
* `hostCallAtomic_carries`       it always does for a step built from the table's own copy;
* `forged_accepted`              a capability with more rights than the entry whose id it reuses.
-/

namespace LionCore
open Base

/-- the table's entry under `id` carries the authority for the action -/
def Carries (s : State) (id : CapId) (a : Action) : Prop :=
  ∃ entry, s.getCap id = some entry ∧ entry.holder = a.subject ∧ entry.target = a.target ∧
    a.rights.isSubsetOf entry.rights = true

/-- the capability has the holder and the target of the entry under its id, and the entry has the
rights that the action needs -/
def Genuine (s : State) (cap : Capability) (a : Action) : Prop :=
  ∃ entry, s.getCap cap.id = some entry ∧ entry.holder = cap.holder ∧
    entry.target = cap.target ∧ a.rights.isSubsetOf entry.rights = true

theorem carries_iff_genuine {s : State} {t : Authorized} (g : t.Good s) :
    Carries s t.cap.id t.action ↔ Genuine s t.cap t.action := by
  unfold Carries Genuine
  rw [g.holder, g.target]

/-- **Main result**: a token for an action implies authority in the table exactly if the presented
capability is genuine, or one of the checks refuses it. -/
theorem validateAtomic_carries_iff (s : State) (cap : Capability) (a : Action)
    (ctx : PolicyContext) :
    (∀ t, Authorized.validateAtomic s cap a ctx = .ok t → Carries s cap.id a) ↔
      Genuine s cap a ∨ (⟨cap, a, ctx⟩ : Authorized).Refused s := by
  by_cases g : (⟨cap, a, ctx⟩ : Authorized).Good s
  · have hok := (Authorized.validateAtomic_ok_iff s cap a ctx _).mpr ⟨rfl, g⟩
    constructor
    · intro h
      exact Or.inl ((carries_iff_genuine g).mp (h _ hok))
    · rintro (hg | hr) t _
      · exact (carries_iff_genuine g).mpr hg
      · exact absurd g ((Authorized.not_good_iff _ s).mpr hr)
  · refine iff_of_true (fun t ht => ?_) (Or.inr ((Authorized.not_good_iff _ s).mp g))
    obtain ⟨rfl, hg⟩ := (Authorized.validateAtomic_ok_iff ..).mp ht
    exact absurd hg g

theorem hostCallAtomic_carries {s : State} {hc : HostCall} {k : CapId} {ctx : PolicyContext}
    {res : HostResult} {t : Step} (h : Step.hostCallAtomic s hc k ctx res = .ok t) :
    ∃ action, hc.requiredAction = .ok action ∧ Carries s k action := by
  obtain ⟨cap, action, hk, hg, ha, _⟩ := hostCallAtomic_good h
  exact ⟨action, ha, cap, hk, hg.holder, hg.target, hg.rights⟩

/-! ## a forged capability -/

/-- plugin 1 owns the live address 0 and holds the root 100, which is for reading it -/
def sampleHeld : State :=
  runCalls sampleMac (.initial .empty .permitAll)
    [.alloc 1 8, .registerPlugin 1 .Public 0, .insertCapRaw sampleRoot 1]

/-- the id of the root, with the right to delete -/
def sampleForged : Capability := { sampleRoot with rights := .singleton .delete }

def sampleDelete : Action := ⟨1, 0, .singleton .delete, "mem_free"⟩

/-- the public constructor builds the forged capability, and the gate accepts it -/
theorem forged_accepted :
    Capability.new 100 1 0 (.singleton .delete) none 0 .empty = .ok sampleForged ∧
      (∃ t, Authorized.validateAtomic sampleHeld sampleForged sampleDelete ⟨0, none⟩ = .ok t) ∧
      ¬ Carries sampleHeld sampleForged.id sampleDelete := by
  refine ⟨by decide, ⟨⟨sampleForged, sampleDelete, ⟨0, none⟩⟩, by decide⟩, ?_⟩
  rintro ⟨entry, hentry, _, _, hrights⟩
  have hroot : sampleHeld.getCap sampleForged.id = some sampleRoot := by decide
  obtain rfl := Option.some.inj (hroot.symm.trans hentry)
  revert hrights
  decide

end LionCore
