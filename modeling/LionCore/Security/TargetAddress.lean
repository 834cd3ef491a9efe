import LionCore.Security.Forgery

/-!
# Which address a token is about

Targets are `u128` and addresses `u64`.  The gate cuts the target to an address before it asks
whether it is live and who owns it; the guards of a free widen the address instead.

* `AboutTarget`                       the checks were made on the address that the action names;
* `validateAtomic_about_target_iff`   **main result**: when a token implies that;
* `checkHostCall_aboutTarget`         a token that a host call uses is always about its target;
* `address_borrowed`                  a target beyond the addresses, accepted for the address it is
                                      cut to.
-/

namespace LionCore
open Base

/-- the target is an address, it is live, and a write to it is not a write up -/
structure AboutTarget (s : State) (a : Action) : Prop where
  isAddress : a.target < u64Size
  live : s.ghost.isLive a.target = true
  noWriteUp : a.rights.contains .write = true → ∀ owner,
    s.ghost.getStatus a.target = some (.allocated owner) →
      (s.pluginLevel owner).getD .Public ≤ (s.pluginLevel a.subject).getD .Public

theorem resourceIntegrity_of_allocated {s : State} {rid : MemAddr} {owner : PluginId}
    (h : s.ghost.getStatus rid = some (.allocated owner)) :
    resourceIntegrity s rid = (s.pluginLevel owner).getD .Public := by
  unfold resourceIntegrity
  rw [h]
  rfl

/-- the comparison of levels that the gate makes, on the address that the target is cut to -/
theorem le_of_bibaWriteOk {s : State} {a : Action} (h : bibaWriteOk s a = true)
    (hw : a.rights.contains .write = true) {owner : PluginId}
    (ho : s.ghost.getStatus (asU64 a.target) = some (.allocated owner)) :
    (s.pluginLevel owner).getD .Public ≤ (s.pluginLevel a.subject).getD .Public := by
  unfold bibaWriteOk at h
  rw [hw, resourceIntegrity_of_allocated ho] at h
  exact of_decide_eq_true h

theorem Authorized.Good.aboutTarget {s : State} {t : Authorized} (g : t.Good s)
    (h : t.action.target < u64Size) : AboutTarget s t.action where
  isAddress := h
  live := by
    have hlive := g.live
    rwa [asU64_of_lt h] at hlive
  noWriteUp hw owner ho := by
    rw [← asU64_of_lt h] at ho
    exact le_of_bibaWriteOk g.biba hw ho

/-- **Main result**: a token implies that the address that the action names is live, and that a
write to it is not a write up, exactly if the target is an address or one of the checks refuses;
and two targets that are addresses are not accepted for the same one unless they are equal. -/
theorem validateAtomic_about_target_iff (s : State) (cap : Capability) (a : Action)
    (ctx : PolicyContext) :
    ((∀ t, Authorized.validateAtomic s cap a ctx = .ok t → AboutTarget s a) ↔
      a.target < u64Size ∨ (⟨cap, a, ctx⟩ : Authorized).Refused s) ∧
    ∀ cap' a' ctx' t t', Authorized.validateAtomic s cap a ctx = .ok t →
      Authorized.validateAtomic s cap' a' ctx' = .ok t' → AboutTarget s a → AboutTarget s a' →
        asU64 a.target = asU64 a'.target → a.target = a'.target := by
  constructor
  · constructor
    · intro h
      by_cases g : (⟨cap, a, ctx⟩ : Authorized).Good s
      · exact Or.inl (h _ ((Authorized.validateAtomic_ok_iff ..).mpr ⟨rfl, g⟩)).isAddress
      · exact Or.inr ((Authorized.not_good_iff _ s).mp g)
    · intro h t ht
      obtain ⟨rfl, g⟩ := (Authorized.validateAtomic_ok_iff ..).mp ht
      rcases h with hlt | hr
      · exact g.aboutTarget hlt
      · exact absurd g ((Authorized.not_good_iff _ s).mpr hr)
  · intro cap' a' ctx' t t' _ _ h h' e
    rwa [asU64_of_lt h.isAddress, asU64_of_lt h'.isAddress] at e

/-! ## host calls -/

theorem HostCall.Required.target_lt {hc : HostCall} {a : Action} (h : hc.Required a) :
    a.target < u64Size := by
  have hpos : 0 < u64Size := by decide
  cases h with
  | capCall _ ha | memFree _ ha | capRevoke _ ha => exact HostCall.firstArg_lt ha
  | capSend | kernelAlloc | declassify => exact hpos

/-- the arguments of a host call are `u64`, so one that passes the gate is about its target -/
theorem checkHostCall_aboutTarget {s : State} {hc : HostCall} {auth : Authorized}
    (h : checkHostCall s hc auth = .ok ()) : AboutTarget s auth.action := by
  obtain ⟨_, hreq, hgood, _⟩ := (checkHostCall_ok_iff s hc auth).mp h
  exact hgood.aboutTarget (HostCall.required hreq).target_lt

/-! ## a borrowed address -/

/-- a root for the resource `2^64`, held by plugin 1 -/
def sampleBeyond : Capability := { sampleRoot with id := 101, target := u64Size }

/-- plugin 1 owns the live address 0, and holds a root for reading it and one for reading `2^64` -/
def sampleTwoTargets : State :=
  runCalls sampleMac (.initial .empty .permitAll)
    [.alloc 1 8, .registerPlugin 1 .Public 0, .insertCapRaw sampleRoot 1,
      .insertCapRaw sampleBeyond 1]

def sampleRead (target : ResourceId) : Action := ⟨1, target, .singleton .read, "cap_call"⟩

/-- both resources are accepted, and both for the address 0 -/
theorem address_borrowed :
    let s := sampleTwoTargets
    (∃ t, Authorized.validateAtomic s sampleRoot (sampleRead 0) ⟨0, none⟩ = .ok t) ∧
      (∃ t, Authorized.validateAtomic s sampleBeyond (sampleRead u64Size) ⟨0, none⟩ = .ok t) ∧
      asU64 (sampleRead u64Size).target = asU64 (sampleRead 0).target ∧
      ¬ AboutTarget s (sampleRead u64Size) := by
  refine ⟨⟨⟨sampleRoot, sampleRead 0, ⟨0, none⟩⟩, by decide⟩,
    ⟨⟨sampleBeyond, sampleRead u64Size, ⟨0, none⟩⟩, by decide⟩, by decide, fun h => ?_⟩
  exact Nat.lt_irrefl u64Size h.isAddress

end LionCore
