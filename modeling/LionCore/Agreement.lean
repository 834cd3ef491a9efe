import LionCore.Security.SlowRevocation

/-!
# The cloning path and the path in place

Both paths make the same checks.  Behind them they differ in two operations: a free in place also
changes the status of the address, and asks that it is allocated; a revocation in place sweeps
the index, where the cloning one walks up from every entry.

* `agrees_free_iff`, `agrees_revoke_iff`   the two operations;
* `agrees_of_inert`                        every other step;
* `execute_agrees_iff`                     **main result** for all steps;
* `free_disagrees`                         the free of an address that was never allocated.
-/

namespace LionCore
open Base RevocationState

/-! ## the two operations that differ -/

/-- the walk from a valid entry meets `c` exactly if the sweep of the index from `c` meets the
entry -/
def RevocationState.WalkIsSweep (r : RevocationState) (c : CapId) : Prop :=
  ∀ k, r.isValid k = true → ((k = c ∨ ∃ n < k, nth r.parentOf (n + 1) k = some c) ↔
    Sweep.Reach r.getChildren c k)

theorem revokeTransitive_eq_fast_iff {r : RevocationState} (hs : r.caps.Sorted) (c : CapId) :
    r.revokeTransitive c = r.revokeTransitiveFast c ↔ r.WalkIsSweep c := by
  have e : r.revokeTransitive c = r.revokeTransitiveFast c ↔
      ∀ k cap, (k, cap) ∈ r.caps → (cap.valid = true →
        (r.inRevokeSet k c = true ↔ has (r.toRevoke c) k = true)) := by
    unfold revokeTransitive revokeTransitiveFast
    rw [RevocationState.mk.injEq, and_iff_left ⟨rfl, rfl⟩, Table.mapVal_congr_iff]
    exact forall₃_congr fun k cap _ => revoke_if_congr cap _ _
  rw [e]
  have found : ∀ k, (r.inRevokeSet k c = true ↔ has (r.toRevoke c) k = true) ↔
      ((k = c ∨ ∃ n < k, nth r.parentOf (n + 1) k = some c) ↔
        Sweep.Reach r.getChildren c k) := fun k => by
    rw [inRevokeSet_iff, hasAncestor_iff, has_iff (increasing_toRevoke r c), mem_toRevoke,
      mem_collectDescendants_iff_reach]
  constructor
  · intro h k hk
    obtain ⟨cap, hcap, hv⟩ := isValid_iff.mp hk
    exact (found k).mp (h k cap (Table.mem_of_find hcap) hv)
  · intro h k cap hm hv
    exact (found k).mpr (h k (isValid_iff.mpr ⟨cap, Table.find_of_mem hs hm, hv⟩))

/-- on a table with an exact index, the two revocations agree iff the walks are long enough -/
theorem RevocationState.WellFormed.walkIsSweep_iff {r : RevocationState} (w : r.WellFormed)
    (c : CapId) : r.WalkIsSweep c ↔ FuelCovers r c := by
  have below : ∀ k, Sweep.Reach r.getChildren c k ↔ k = c ∨ Above r.parentOf c k := fun k => by
    rw [← mem_collectDescendants_iff_reach, w.mem_collectDescendants]
  constructor
  · intro h k hv hne ha
    exact ((h k hv).mpr ((below k).mpr (Or.inr ha))).resolve_left hne
  · intro h k hv
    rw [below]
    constructor
    · rintro (e | ⟨n, _, hn⟩)
      · exact Or.inl e
      · exact Or.inr (above_iff_nth.mpr ⟨n, hn⟩)
    · rintro (e | ha)
      · exact Or.inl e
      · by_cases e : k = c
        · exact Or.inl e
        · exact Or.inr (h k hv e ha)

/-- so in every reachable state the walks decide whether the two revocations agree -/
theorem Reachable.walkIsSweep_iff {hmac : Hmac} {s : State} (h : Reachable hmac s) (c : CapId) :
    s.kernel.revocation.WalkIsSweep c ↔ FuelCovers s.kernel.revocation c :=
  h.wellFormed.walkIsSweep_iff c

/-- the status is `freed` in the record that is left in place, and `allocated` in the other -/
theorem free_ne_freeMut {m g : MetaState} {addr : MemAddr} (hg : m.freeMut addr = (.ok (), g)) :
    g ≠ m.free addr := by
  intro e
  rcases m.freeMut_cases addr with ⟨hlive, e'⟩ | ⟨_, _, e'⟩
  · have hst : m.resources.get addr = some .freed := by
      have hget := SortedMap.get_insert m.resources addr addr .freed
      rw [if_pos rfl] at hget
      rw [e', e] at hg
      have hres := congrArg (fun m : MetaState => m.resources.get addr) (Prod.mk.inj hg).2
      exact hres.symm.trans hget
    unfold MetaState.isLive at hlive
    rw [hst] at hlive
    cases hlive
  · rw [e'] at hg
    cases hg

/-- behind the check the two ways to free never agree: one fails, or they leave the address with
a different status -/
theorem agrees_free_iff (s : State) (addr : MemAddr) (wrap : StateError → StepError) :
    Agrees (checkFree s addr >>= fun _ => (s.applyFree addr).mapError wrap)
      (freeMut s addr wrap) ↔
      s.ghost.isFreed addr = true ∨ s.kernel.revocation.anyValidTargeting addr = true := by
  unfold freeMut
  rw [agrees_guard_iff]
  by_cases hck : checkFree s addr = .ok ()
  · obtain ⟨hf, ha⟩ := (checkFree_ok_iff s addr).mp hck
    rw [hf, ha, applyFree_of_check hck]
    refine iff_of_false (fun h => ?_) (fun h => h.elim nofun nofun)
    have h := h.resolve_left (· hck)
    rcases applyFreeMut_cases s addr with ⟨g, hg, e⟩ | ⟨e', e⟩
    · rw [e] at h
      exact free_ne_freeMut hg (congrArg State.ghost (Prod.mk.inj h).2)
    · rw [e] at h
      cases h
  · refine iff_of_true (Or.inl hck) ?_
    by_contra hn
    rw [not_or, Bool.not_eq_true, Bool.not_eq_true] at hn
    exact hck ((checkFree_ok_iff s addr).mpr hn)

theorem agrees_revoke_iff {s : State} (hs : s.kernel.revocation.caps.Sorted) (c : CapId) :
    Agrees (checkRevoke s c >>= fun _ => .ok (s.applyCapRevoke c)) (revokeMut s c) ↔
      s.getCap c = none ∨ s.kernel.revocation.WalkIsSweep c := by
  unfold revokeMut
  rw [agrees_guard_iff, Ne, checkRevoke_ok_iff, not_not]
  by_cases hc : s.kernel.revocation.get c = none
  · exact iff_of_true (Or.inl hc) (Or.inl hc)
  · refine or_congr Iff.rfl ?_
    rw [← revokeTransitive_eq_fast_iff hs]
    rcases s.kernel.revocation.revokeTransitiveFastMut_cases hs c with ⟨hn, _⟩ | ⟨_, e⟩
    · exact absurd hn hc
    · unfold State.applyCapRevokeMut
      rw [e]
      constructor
      · intro h
        exact (congrArg (fun x => x.2.kernel.revocation) h).symm
      · intro h
        unfold State.applyCapRevoke
        rw [h]
        rfl

/-! ## all other steps -/

theorem agrees_guard {c : Except StepError Unit} {s s' : State} :
    Agrees (c >>= fun _ => .ok s') (guardMut c s (.ok (), s')) :=
  agrees_guard_iff.mpr (Or.inr (Agrees.ok s'))

theorem HostCall.firstArg_error {hc : HostCall} {m : HostCallPrecondition}
    (h : hc.args.head?.map UInt64.toNat = none) :
    hc.firstArg m = .error (.hostCallPreconditionFailed m) := by
  unfold HostCall.firstArg
  rw [Option.map_eq_none_iff.mp h]

theorem agrees_timeTick (s : State) :
    Agrees (executeTimeTick s) (executeTimeTickMut s) := by
  unfold executeTimeTick executeTimeTickMut
  rcases s.tick with ⟨_ | _, s'⟩
  · rfl
  · rfl

theorem agrees_of_inert {s : State} {t : Step} (hf : t.frees = none) (hr : t.revokes = none) :
    Agrees (t.execute s) (t.executeMut s) := by
  cases t with
  | pluginInternal pid pi => exact agrees_guard
  | hostCall hc auth res =>
    refine agrees_guard_iff.mpr (Or.inr ?_)
    cases h : hc.function with
    | capCall | capSend | kernelAlloc => exact agrees_guard
    | memFree =>
      have harg := hc.firstArg_error (m := .noAddress) ((if_pos h).symm.trans hf)
      show Agrees (executeMemFreeCall s hc) (executeMemFreeCallMut s hc)
      unfold executeMemFreeCall executeMemFreeCallMut
      rw [harg]
      rfl
    | capRevoke =>
      have harg := hc.firstArg_error (m := .noCapabilityId) ((if_pos h).symm.trans hr)
      show Agrees (executeCapRevokeCall s hc) (executeCapRevokeCallMut s hc)
      unfold executeCapRevokeCall executeCapRevokeCallMut
      rw [harg]
      rfl
    | declassify =>
      show Agrees (executeDeclassify s hc) (executeDeclassifyMut s hc)
      unfold executeDeclassify executeDeclassifyMut
      cases checkDeclassify s hc <;> rfl
    | threadCreate | threadConfigure | threadResume | threadSuspend | threadDestroy => rfl
  | kernelInternal op =>
    cases op with
    | routeOne dst => exact agrees_guard
    | workflowTick wid => exact agrees_guard
    | timeTick => exact agrees_timeTick s
    | unblockSend dst => exact agrees_guard
    | threadSwitch src dst => rfl
  | memFree caller addr => cases hf
  | capRevoke caller c => cases hr

/-! ## when the paths agree -/

section
variable {s : State} {t : Step}

theorem agrees_of_frees {addr : MemAddr} (ht : t.frees = some addr) :
    Agrees (t.execute s) (t.executeMut s) ↔ (t.Admitted s →
      s.ghost.isFreed addr = true ∨ s.kernel.revocation.anyValidTargeting addr = true) := by
  rcases Step.frees_cases ht with ⟨caller, rfl⟩ | ⟨hc, auth, res, rfl, hf, harg⟩
  · rw [show (Step.memFree caller addr).Admitted s = True from rfl, true_imp_iff]
    exact agrees_free_iff s addr .stateError
  · refine agrees_guard_iff.trans ?_
    rw [imp_iff_not_or, ← agrees_free_iff s addr freeFailed, hf]
    refine or_congr Iff.rfl ?_
    show Agrees (executeMemFreeCall s hc) (executeMemFreeCallMut s hc) ↔ _
    unfold executeMemFreeCall executeMemFreeCallMut
    rw [harg]
    exact Iff.rfl

theorem agrees_of_revokes (hs : s.kernel.revocation.caps.Sorted) {c : CapId}
    (ht : t.revokes = some c) :
    Agrees (t.execute s) (t.executeMut s) ↔ (t.Admitted s →
      s.getCap c = none ∨ s.kernel.revocation.WalkIsSweep c) := by
  rcases Step.revokes_cases ht with ⟨caller, rfl⟩ | ⟨hc, auth, res, rfl, hf, harg⟩
  · rw [show (Step.capRevoke caller c).Admitted s = True from rfl, true_imp_iff]
    exact agrees_revoke_iff hs c
  · refine agrees_guard_iff.trans ?_
    rw [imp_iff_not_or, ← agrees_revoke_iff hs c, hf]
    refine or_congr Iff.rfl ?_
    show Agrees (executeCapRevokeCall s hc) (executeCapRevokeCallMut s hc) ↔ _
    unfold executeCapRevokeCall executeCapRevokeCallMut
    rw [harg]
    exact Iff.rfl

end

/-- the inputs on which both paths do the same: a free is refused, because the address is freed or
targeted; a revocation is of an absent id, or its walks find what its sweep finds -/
structure SamePaths (s : State) (t : Step) : Prop where
  free : ∀ addr, t.frees = some addr → t.Admitted s →
    s.ghost.isFreed addr = true ∨ s.kernel.revocation.anyValidTargeting addr = true
  revoke : ∀ c, t.revokes = some c → t.Admitted s →
    s.getCap c = none ∨ s.kernel.revocation.WalkIsSweep c

/-- **Main result**: on sorted tables the two paths succeed together, with the same state, and
fail together, with the same error, exactly on these inputs. -/
theorem execute_agrees_iff (s : State) (hs : s.SortedTables) (t : Step) :
    Agrees (t.execute s) (t.executeMut s) ↔ SamePaths s t := by
  cases hf : t.frees with
  | some addr =>
    have hr := (Step.of_frees hf).2.2
    rw [agrees_of_frees hf]
    constructor
    · intro h
      refine ⟨fun a ha => ?_, fun c hc => ?_⟩
      · rw [hf] at ha
        exact Option.some.inj ha ▸ h
      · rw [hr] at hc
        cases hc
    · intro h
      exact h.free addr hf
  | none =>
    cases hr : t.revokes with
    | some c =>
      rw [agrees_of_revokes hs.caps hr]
      constructor
      · intro h
        refine ⟨fun a ha => ?_, fun d hd => ?_⟩
        · rw [hf] at ha
          cases ha
        · rw [hr] at hd
          exact Option.some.inj hd ▸ h
      · intro h
        exact h.revoke c hr
    | none =>
      refine iff_of_true (agrees_of_inert hf hr) ⟨fun a ha => ?_, fun c hc => ?_⟩
      · rw [hf] at ha
        cases ha
      · rw [hr] at hc
        cases hc

/-- a kernel with one allocated address -/
def sampleAllocated : State := (Kernel.alloc Kernel.new 1 8).2

theorem sampleAllocated_sorted : sampleAllocated.SortedTables :=
  { State.SortedTables.empty with freed := List.Pairwise.nil }

theorem execute_agrees_iff_sample :
    Agrees ((Step.memFree 1 0).execute sampleAllocated)
      ((Step.memFree 1 0).executeMut sampleAllocated) ↔
      SamePaths sampleAllocated (.memFree 1 0) :=
  execute_agrees_iff sampleAllocated sampleAllocated_sorted (.memFree 1 0)

/-- an address that was never allocated is freed by the cloning path, and refused in place -/
theorem free_disagrees : sampleAllocated.SortedTables ∧
    (Step.memFree 1 9).execute sampleAllocated =
      .ok (sampleAllocated.withGhost (sampleAllocated.ghost.free 9)) ∧
    (Step.memFree 1 9).executeMut sampleAllocated =
      (.error (.stateError (.resourceNotFound 9)), sampleAllocated) ∧
    ¬ Agrees ((Step.memFree 1 9).execute sampleAllocated)
      ((Step.memFree 1 9).executeMut sampleAllocated) := by
  have hok : (Step.memFree 1 9).execute sampleAllocated =
      .ok (sampleAllocated.withGhost (sampleAllocated.ghost.free 9)) := by decide
  have herror : (Step.memFree 1 9).executeMut sampleAllocated =
      (.error (.stateError (.resourceNotFound 9)), sampleAllocated) := by decide
  refine ⟨sampleAllocated_sorted, hok, herror, ?_⟩
  rw [hok, herror]
  intro h
  cases h

end LionCore
