import LionCore.Calls

/-!
# How far the ancestor search reaches

`Kernel::execute` revokes by asking of every entry whether the revoked id is met on a walk of at
most as many steps as the NUMBER of the entry.

* `FuelCovers`                      the walks of all valid entries are long enough;
* `execute_capRevoke_exact_iff`     **main result**: exactly then is the revocation exact;
* `fuelCovers_of_parentLt`          with parents below their children they always are;
* `revokedExactly_fails`            a delegated child of a root with a larger id is missed.
-/

namespace LionCore
open Base RevocationState

/-- the ids below `c` that were valid are off, and `c`; the other entries are as valid as before,
and no entry has changed otherwise -/
def RevokedExactly (s s' : State) (c : CapId) : Prop :=
  (∀ k, s'.capIsValid k = true ↔
    s.capIsValid k = true ∧ k ≠ c ∧ ¬ Above s.kernel.revocation.parentOf c k) ∧
  s'.kernel.revocation.caps.keys = s.kernel.revocation.caps.keys ∧
  ∀ k cap', s'.getCap k = some cap' →
    ∃ cap, s.getCap k = some cap ∧ cap' = { cap with valid := cap'.valid }

/-- every valid entry below `c` meets `c` within as many steps as its own number -/
def FuelCovers (r : RevocationState) (c : CapId) : Prop :=
  ∀ k, r.isValid k = true → k ≠ c → Above r.parentOf c k →
    ∃ n < k, nth r.parentOf (n + 1) k = some c

theorem RevocationState.CutBy.only_validity {r r' : RevocationState} {S : CapId → Prop}
    (h : r.CutBy S r') {k : CapId} {cap' : Capability} (hk : r'.get k = some cap') :
    ∃ cap, r.get k = some cap ∧ cap' = { cap with valid := cap'.valid } := by
  obtain ⟨cap, hr, rfl | rfl⟩ := h.of_get hk
  · exact ⟨_, hr, rfl⟩
  · exact ⟨cap, hr, rfl⟩

theorem revokeTransitive_exact_iff (r : RevocationState) (c : CapId) :
    (∀ k, (r.revokeTransitive c).isValid k = true ↔
      r.isValid k = true ∧ k ≠ c ∧ ¬ Above r.parentOf c k) ↔ FuelCovers r c := by
  have hcut := (cutBy_revokeTransitive r c).isValid
  constructor
  · intro h k hv hne ha
    have hin : r.inRevokeSet k c = true := by
      by_contra hn
      exact ((h k).mp ((hcut k).mpr ⟨hv, hn⟩)).2.2 ha
    rcases (r.inRevokeSet_iff k c).mp hin with e | hanc
    · exact absurd e hne
    · exact (r.hasAncestor_iff k c).mp hanc
  · intro h k
    rw [hcut, inRevokeSet_iff]
    constructor
    · rintro ⟨hv, hn⟩
      refine ⟨hv, fun e => hn (Or.inl e), fun ha => hn (Or.inr ?_)⟩
      exact (r.hasAncestor_iff k c).mpr (h k hv (fun e => hn (Or.inl e)) ha)
    · rintro ⟨hv, hne, hna⟩
      exact ⟨hv, fun hn => hn.elim hne fun hanc => hna (above_of_hasAncestor hanc)⟩

theorem execute_capRevoke {s : State} {c : CapId} (caller : PluginId) (hc : s.getCap c ≠ none) :
    Kernel.execute s (.capRevoke caller c) = (.ok (), s.applyCapRevoke c) := by
  have e : (Step.capRevoke caller c).execute s = .ok (s.applyCapRevoke c) :=
    check_bind_ok_iff.mpr ⟨(checkRevoke_ok_iff s c).mpr hc, rfl⟩
  unfold Kernel.execute
  rw [e]

/-- **Main result**: in every state, so in every reachable one, the step `CapRevoke` for an id of
the table succeeds, and it is exact iff the walks are long enough. -/
theorem execute_capRevoke_exact_iff (s : State) (caller : PluginId) (c : CapId)
    (hc : s.getCap c ≠ none) :
    ∃ s', Kernel.execute s (.capRevoke caller c) = (.ok (), s') ∧
      (RevokedExactly s s' c ↔ FuelCovers s.kernel.revocation c) := by
  refine ⟨s.applyCapRevoke c, execute_capRevoke caller hc, ?_⟩
  have hcut := cutBy_revokeTransitive s.kernel.revocation c
  rw [← revokeTransitive_exact_iff]
  exact ⟨fun h => h.1, fun h => ⟨h, hcut.keys, fun k cap' hk => hcut.only_validity hk⟩⟩

/-- under the documented order of ids the walks are always long enough -/
theorem fuelCovers_of_parentLt {r : RevocationState}
    (hlt : ∀ k p, r.parentOf k = some p → p < k) (c : CapId) : FuelCovers r c := by
  intro k _ _ ha
  exact (walk_iff r.parentOf c k k).mp ((walk_rank_iff id hlt c k).mpr ha)

/-! ## a child that is missed -/

/-- the tags that HMAC-SHA256 gives with the zero key to the two payloads that are sealed in the
runs below (children of the ids 100 and 0, target 0, right to read) -/
def sampleMac : Hmac := fun _ data =>
  if data.getD 40 0 = 101 then
    ⟨#v[0xf1, 0x4b, 0x4f, 0x75, 0xc6, 0x3f, 0x10, 0xba, 0x22, 0xc4, 0x3b, 0x27, 0x93, 0x48, 0x05,
      0x75, 0x48, 0x72, 0x33, 0xf1, 0xfa, 0x99, 0x25, 0xe2, 0x22, 0xa2, 0xe3, 0xd3, 0x24, 0xdb,
      0xdd, 0xee]⟩
  else
    ⟨#v[0xa2, 0xdc, 0x07, 0xdb, 0x89, 0xc8, 0x5c, 0x4d, 0xd9, 0x1a, 0xa3, 0xd9, 0xb4, 0x7d, 0x47,
      0xaf, 0x25, 0x23, 0xa6, 0x4f, 0x7a, 0x83, 0x44, 0x25, 0x0e, 0x67, 0x01, 0xe5, 0x21, 0x26,
      0xce, 0x36]⟩

/-- a root under the id 100, held by plugin 1, for reading resource 0 -/
def sampleRoot : Capability := ⟨100, 1, 0, .singleton .read, none, 0, true, .empty⟩

/-- a kernel with the root and a child that was delegated to plugin 2 under the id 0 -/
def sampleDelegated : State :=
  runCalls sampleMac Kernel.new
    [.registerPlugin 1 .Public 0, .registerPlugin 2 .Public 0, .insertCapRaw sampleRoot 1,
      .delegateCap 100 2 (.singleton .read)]

theorem execute_capRevoke_exact_iff_sample :
    ∃ s', Kernel.execute sampleDelegated (.capRevoke 1 0) = (.ok (), s') ∧
      (RevokedExactly sampleDelegated s' 0 ↔ FuelCovers sampleDelegated.kernel.revocation 0) :=
  execute_capRevoke_exact_iff sampleDelegated 1 0 (by decide)

/-- the root is revoked, its child is not -/
theorem revokedExactly_fails :
    let s := sampleDelegated
    s.getCap 100 ≠ none ∧ (Kernel.execute s (.capRevoke 1 100)).1 = .ok () ∧
      ¬ RevokedExactly s (Kernel.execute s (.capRevoke 1 100)).2 100 := by
  refine ⟨by decide, by decide, fun h => ?_⟩
  have hvalid : (Kernel.execute sampleDelegated (.capRevoke 1 100)).2.capIsValid 0 = true := by
    decide
  exact ((h.1 0).mp hvalid).2.2 (Above.parent (by decide))

end LionCore
