import LionCore.Addresses
import LionCore.Security.Forgery

/-!
# The guard against dangling capabilities

An address is freed only if no valid entry targets it.

* `no_dangling`               **main result**: over a run, no valid entry targets a freed address;
* `authorised_free_refused`   **main result**: the same guard refuses every free that a valid entry
                              for the address authorizes.
-/

namespace LionCore
open Base RevocationState

/-! ## no dangling capability -/

/-- a raw insertion does not target an address that is freed at that moment -/
def Call.TargetsUnfreed (s : State) : Call → Prop
  | .insertCapRaw cap _ => s.ghost.isFreed cap.target = false
  | _ => True

/-- no valid entry targets a freed address -/
def State.NoDangling (s : State) : Prop :=
  ∀ k cap, s.getCap k = some cap → cap.valid = true → s.ghost.isFreed cap.target = false

theorem TableStep.valid_target {s : State} {cl : Call} {r : RevocationState}
    (h : TableStep s cl r) (hs : s.kernel.revocation.caps.Sorted) {k : CapId} {cap : Capability}
    (hk : r.get k = some cap) (hv : cap.valid = true) :
    (∃ k' cap', s.getCap k' = some cap' ∧ cap'.valid = true ∧ cap'.target = cap.target) ∨
      ∃ target, cl = .insertCapRaw cap target := by
  cases h with
  | same => exact Or.inl ⟨k, cap, hk, hv, rfl⟩
  | @raw new target r' hi =>
    rw [(inserted_of_insertMut hi).get hs k] at hk
    split at hk
    · cases hk
      exact Or.inr ⟨target, rfl⟩
    · exact Or.inl ⟨k, cap, hk, hv, rfl⟩
  | @child p target requested new r' hc hi =>
    rw [(inserted_of_insertMut hi).get hs k] at hk
    split at hk
    · cases hk
      obtain ⟨pc, hp, hpv, ht, _⟩ := hc.entry
      exact Or.inl ⟨p, pc, hp, hpv, ht.symm⟩
    · exact Or.inl ⟨k, cap, hk, hv, rfl⟩
  | revoke _ _ _ hr =>
    obtain ⟨S, hcut⟩ := Path.revokes_cutBy hs hr
    obtain ⟨cap', hk', rfl | rfl⟩ := hcut.of_get hk
    · exact Or.inl ⟨k, _, hk', hv, rfl⟩
    · cases hv

theorem GhostStep.freed {s : State} {cl : Call} {g : MetaState} (h : GhostStep s cl g)
    (w : s.ghost.Sound) {a : MemAddr} (ha : g.isFreed a = true) : s.ghost.isFreed a = true ∨
      (s.kernel.revocation.anyValidTargeting a = false ∧ ∃ p, cl.frees = some (p, a)) := by
  cases h with
  | same => exact Or.inl ha
  | alloc owner => exact Or.inl ha
  | @free p addr _ _ hc hck hf =>
    rcases (MetaState.frees_isFreed w hf a).mp ha with rfl | ha
    · exact Or.inr ⟨((checkFree_ok_iff s a).mp hck).2, p, hc⟩
    · exact Or.inl ha

theorem Call.noDangling (hmac : Hmac) {s : State} (cl : Call)
    (hs : s.kernel.revocation.caps.Sorted) (w : s.ghost.Sound) (h : s.NoDangling)
    (hok : cl.TargetsUnfreed s) : (cl.exec hmac s).NoDangling := by
  intro k cap hk hv
  apply eq_false_of_ne_true
  intro hf
  rcases (cl.ghostStep hmac s).freed w hf with hold | ⟨hguard, p, hfrees⟩
  · rcases (cl.tableStep hmac s).valid_target hs hk hv with ⟨k', cap', hk', hv', ht⟩ | ⟨target, rfl⟩
    · rw [← ht, h k' cap' hk' hv'] at hold
      cases hold
    · rw [show s.ghost.isFreed cap.target = false from hok] at hold
      cases hold
  · rcases (cl.tableStep hmac s).valid_target hs hk hv with ⟨k', cap', hk', hv', ht⟩ | ⟨target, rfl⟩
    · rw [← ht, anyValidTargeting_of_get hk' hv'] at hguard
      cases hguard
    · cases hfrees

/-- **Main result**: after a run from an empty state whose raw insertions target addresses that are
not freed at that moment, no valid entry of the table targets an address of the freed set. -/
theorem no_dangling (hmac : Hmac) (key : Key) (policy : PolicyState) (cs : List Call)
    (hok : Along (Call.exec hmac) Call.TargetsUnfreed (.initial key policy) cs) :
    let s := runCalls hmac (.initial key policy) cs
    ∀ k cap, s.getCap k = some cap → cap.valid = true → cap.target ∉ s.ghost.freedSet := by
  intro s k cap hk hv hmem
  have inv : s.kernel.revocation.caps.Sorted ∧ s.ghost.Sound ∧ s.NoDangling :=
    run_invariant_of
      (P := fun s : State => s.kernel.revocation.caps.Sorted ∧ s.ghost.Sound ∧ s.NoDangling)
      (fun _ cl h hok => ⟨cl.sorted hmac h.1, cl.sound hmac h.2.1,
        cl.noDangling hmac h.1 h.2.1 h.2.2 hok⟩) cs
      ⟨List.Pairwise.nil, .empty, fun _ _ h => by cases h⟩ hok
  have hf := (inv.2.1.isFreed_iff cap.target).mpr hmem
  rw [inv.2.2 k cap hk hv] at hf
  cases hf

theorem no_dangling_sample :
    let s := runCalls sampleMac (.initial .empty .permitAll)
      [.alloc 1 8, .alloc 1 8, .execute (.memFree 1 1), .insertCapRaw sampleRoot 1]
    ∀ k cap, s.getCap k = some cap → cap.valid = true → cap.target ∉ s.ghost.freedSet :=
  no_dangling sampleMac .empty .permitAll
    [.alloc 1 8, .alloc 1 8, .execute (.memFree 1 1), .insertCapRaw sampleRoot 1]
    ⟨trivial, trivial, trivial, rfl, trivial⟩

/-! ## an authorised free -/

/-- `c` is the only valid entry that targets `addr` -/
structure OnlyTargeting (s : State) (c : CapId) (addr : MemAddr) : Prop where
  entry : ∃ cap, s.getCap c = some cap ∧ cap.valid = true ∧ cap.target = addr
  only : ∀ e ∈ s.kernel.revocation.caps, e.2.valid = true → e.2.target = addr → e.1 = c

theorem OnlyTargeting.checkFree {s : State} {c : CapId} {addr : MemAddr}
    (h : OnlyTargeting s c addr) (hlive : s.ghost.isLive addr = true) :
    checkFree s addr = .error (.capabilityTargetsAddress c addr) := by
  obtain ⟨cap, hcap, hv, rfl⟩ := h.entry
  unfold LionCore.checkFree
  rw [((s.ghost.isLive_iff _).mp hlive).2]
  cases hfind : s.kernel.revocation.findValidTargeting cap.target with
  | none =>
    have hany := anyValidTargeting_of_get hcap hv
    rw [← findValidTargeting_isSome, hfind] at hany
    cases hany
  | some e =>
    have he := List.find?_some hfind
    rw [Bool.and_eq_true] at he
    obtain rfl := h.only e (List.mem_of_find?_eq_some hfind) he.1 (of_decide_eq_true he.2)
    rfl

/-- **Main result**: a live address `a`, and a step that is issued for `mem_free` of `a` by the
only valid entry that targets `a`.  Neither path executes the step, and nothing changes: the entry
that authorizes the free is the one that forbids it. -/
theorem authorised_free_refused {s : State} {hc : HostCall} {a : UInt64} {c : CapId}
    {ctx : PolicyContext} {res : HostResult} {t : Step} (hf : hc.function = .memFree)
    (harg : hc.args.head? = some a) (hlive : s.ghost.isLive a.toNat = true)
    (honly : OnlyTargeting s c a.toNat) (h : Step.hostCallAtomic s hc c ctx res = .ok t)
    (path : Path) :
    (∀ s', ¬ Exec path t s s') ∧ attempt s (path, t) = s ∧
      (attempt s (path, t)).ghost.isLive a.toNat = true ∧
      (hc.checkPreconditions s = .ok () →
        t.execute s = .error (.capabilityTargetsAddress c a.toNat) ∧
        t.executeMut s = (.error (.capabilityTargetsAddress c a.toNat), s)) := by
  obtain ⟨cap, action, _, _, _, rfl⟩ := hostCallAtomic_good h
  have hfirst : hc.firstArg .noAddress = .ok a.toNat := by
    rw [HostCall.firstArg_ok_iff, harg]
    rfl
  have hck := honly.checkFree hlive
  have refused : ∀ s', ¬ Exec path (.hostCall hc ⟨cap, action, ctx⟩ res) s s' := by
    intro s' hx
    have he := hx.effect.hostCall.2
    rw [hf] at he
    cases he with
    | memFree harg' hck' _ =>
      obtain rfl := Except.ok.inj (hfirst.symm.trans harg')
      rw [hck] at hck'
      cases hck'
  have hsame : attempt s (path, .hostCall hc ⟨cap, action, ctx⟩ res) = s :=
    (attempt_cases s path _).resolve_left (refused _)
  refine ⟨refused, hsame, by rw [hsame]; exact hlive, fun hp => ?_⟩
  have hgate := (checkHostCall_issued_iff h).mpr hp
  constructor
  · show executeHostCall s hc _ res = _
    unfold executeHostCall
    rw [hgate, hf]
    show executeMemFreeCall s hc = _
    unfold executeMemFreeCall
    rw [hfirst]
    show (LionCore.checkFree s a.toNat >>= _) = _
    rw [hck]
    rfl
  · show executeHostCallMut s hc _ res = _
    unfold executeHostCallMut
    rw [hgate, hf]
    show executeMemFreeCallMut s hc = _
    unfold executeMemFreeCallMut
    rw [hfirst]
    show freeMut s a.toNat _ = _
    unfold freeMut
    rw [hck]
    rfl

/-- plugin 1 owns the live address 0 and holds a root for deleting it -/
def sampleDeletable : State :=
  runCalls sampleMac (.initial .empty .permitAll)
    [.alloc 1 8, .registerPlugin 1 .Public 0, .insertCapRaw sampleForged 1]

/-- plugin 1 calls for the free of the address 0 -/
def sampleFree : HostCall := ⟨1, .memFree, [0], [], []⟩

/-- the step that is issued for it -/
def sampleFreeStep : Step :=
  .hostCall sampleFree ⟨sampleForged, sampleDelete, ⟨0, none⟩⟩ .empty

theorem sampleDeletable_only : OnlyTargeting sampleDeletable 100 0 where
  entry := ⟨sampleForged, by decide, by decide, by decide⟩
  only e he _ _ := by
    have hcaps : sampleDeletable.kernel.revocation.caps = [(100, sampleForged)] := by decide
    rw [hcaps, List.mem_singleton] at he
    rw [he]

theorem authorised_free_refused_sample :
    (∀ s', ¬ Exec .cloning sampleFreeStep sampleDeletable s') ∧
      attempt sampleDeletable (.cloning, sampleFreeStep) = sampleDeletable ∧
      (attempt sampleDeletable (.cloning, sampleFreeStep)).ghost.isLive 0 = true ∧
      (sampleFree.checkPreconditions sampleDeletable = .ok () →
        sampleFreeStep.execute sampleDeletable = .error (.capabilityTargetsAddress 100 0) ∧
        sampleFreeStep.executeMut sampleDeletable =
          (.error (.capabilityTargetsAddress 100 0), sampleDeletable)) := by
  have issued : Step.hostCallAtomic sampleDeletable sampleFree 100 ⟨0, none⟩ .empty =
      .ok sampleFreeStep := by decide
  have hlive : sampleDeletable.ghost.isLive (0 : UInt64).toNat = true := by decide
  exact authorised_free_refused rfl rfl hlive sampleDeletable_only issued .cloning

/-- the step is issued, and both paths refuse it -/
theorem authorised_free_fails :
    OnlyTargeting sampleDeletable 100 0 ∧ sampleDeletable.ghost.isLive 0 = true ∧
      Step.hostCallAtomic sampleDeletable sampleFree 100 ⟨0, none⟩ .empty = .ok sampleFreeStep ∧
      sampleFreeStep.execute sampleDeletable = .error (.capabilityTargetsAddress 100 0) ∧
      (sampleFreeStep.executeMut sampleDeletable).1 =
        .error (.capabilityTargetsAddress 100 0) :=
  ⟨sampleDeletable_only, by decide, by decide, by decide, by decide⟩

end LionCore
