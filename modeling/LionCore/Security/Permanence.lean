import LionCore.Calls

/-!
# Revocation is permanent, and closes the window between check and use

* `TableStep.off`          no call changes an entry that is off;
* `Exec.validateAtomic`    a host call that is executed has a token that would be issued NOW;
* `revocation_permanent`   **main result** for every run, and for every token from before.
-/

namespace LionCore
open Base RevocationState

/-- the entry under `k` is in the table, and off -/
def IsOff (s : State) (k : CapId) : Prop := ∃ cap, s.getCap k = some cap ∧ cap.valid = false

/-! ## entries that are off -/

theorem RevocationState.CutBy.off {r r' : RevocationState} {S : CapId → Prop} (h : r.CutBy S r')
    {k : CapId} {cap : Capability} (hk : r.get k = some cap) (hv : cap.valid = false) :
    r'.get k = some cap := by
  obtain ⟨cap', hk', rfl | rfl⟩ := h.get_some hk
  · exact hk'
  · rwa [Capability.revoke_of_invalid hv] at hk'

theorem RevocationState.Inserted.old {r r' : RevocationState} {new cap : Capability}
    (h : r.Inserted new r') (hs : r.caps.Sorted) {k : CapId} (hk : r.get k = some cap) :
    r'.get k = some cap := by
  rw [h.get hs, if_neg]
  · exact hk
  · rintro rfl
    rw [h.fresh] at hk
    cases hk

theorem TableStep.off {s : State} {cl : Call} {r : RevocationState} (h : TableStep s cl r)
    (hs : s.kernel.revocation.caps.Sorted) {k : CapId} {cap : Capability}
    (hk : s.getCap k = some cap) (hv : cap.valid = false) : r.get k = some cap := by
  cases h with
  | same => exact hk
  | raw hi => exact (inserted_of_insertMut hi).old hs hk
  | child _ hi => exact (inserted_of_insertMut hi).old hs hk
  | revoke _ _ _ hr =>
    obtain ⟨S, hcut⟩ := Path.revokes_cutBy hs hr
    exact hcut.off hk hv

theorem runCalls_off (hmac : Hmac) {s : State} (cs : List Call)
    (hs : s.kernel.revocation.caps.Sorted) {k : CapId} {cap : Capability}
    (hk : s.getCap k = some cap) (hv : cap.valid = false) :
    (runCalls hmac s cs).getCap k = some cap := by
  have h := run_invariant (f := Call.exec hmac)
    (P := fun s => s.kernel.revocation.caps.Sorted ∧ s.getCap k = some cap)
    (fun s cl h => ⟨cl.sorted hmac h.1, (cl.tableStep hmac s).off h.1 h.2 hv⟩) cs ⟨hs, hk⟩
  exact h.2

theorem insert_collision {s : State} {cap old : Capability} (target : PluginId)
    (h : s.getCap cap.id = some old) :
    s.applyCapDelegateMut cap target = (.error (.capIdCollision cap.id), s) ∧
      s.applyCapDelegate cap target = .error (.capIdCollision cap.id) := by
  have hi : s.kernel.revocation.insertMut cap =
      (.error (.capIdCollision cap.id), s.kernel.revocation) := by
    rcases insertMut_cases s.kernel.revocation cap with ⟨_, e⟩ | ⟨_, _, hins⟩
    · exact e
    · exact nomatch hins.fresh.symm.trans h
  constructor
  · unfold State.applyCapDelegateMut
    rw [hi]
    rfl
  · unfold State.applyCapDelegate
    rw [insert_eq, hi]

/-! ## tokens -/

/-- the gate of a host call, whatever its function: both paths stand behind it -/
theorem Exec.checkHostCall {p : Path} {s s' : State} {hc : HostCall} {auth : Authorized}
    {res : HostResult} (h : Exec p (.hostCall hc auth res) s s') :
    checkHostCall s hc auth = .ok () := by
  cases p with
  | cloning => exact (check_bind_ok_iff.mp h).1
  | inPlace => exact (guardMut_ok_iff.mp h).1

theorem Exec.good {p : Path} {s s' : State} {hc : HostCall} {auth : Authorized}
    {res : HostResult} (h : Exec p (.hostCall hc auth res) s s') : auth.Good s :=
  ((checkHostCall_ok_iff s hc auth).mp h.checkHostCall).2.2.1

theorem Exec.validateAtomic {p : Path} {s s' : State} {hc : HostCall} {auth : Authorized}
    {res : HostResult} (h : Exec p (.hostCall hc auth res) s s') :
    Authorized.validateAtomic s auth.cap auth.action auth.ctx = .ok auth :=
  (Authorized.validateAtomic_ok_iff ..).mpr ⟨rfl, h.good⟩

/-- a token whose entry is off is of no use, and a failed use leaves no trace -/
theorem hostCall_off {s : State} {hc : HostCall} {auth : Authorized} (res : HostResult)
    (hoff : IsOff s auth.cap.id) :
    (∃ e, (Step.hostCall hc auth res).execute s = .error e) ∧
      ∃ e, (Step.hostCall hc auth res).executeMut s = (.error e, s) := by
  have never : ∀ p s', ¬ Exec p (.hostCall hc auth res) s s' := by
    intro p s' h
    obtain ⟨cap, hk, hv⟩ := hoff
    obtain ⟨cap', hk', hv'⟩ := isValid_iff.mp h.good.entry
    rw [Option.some.inj (hk'.symm.trans hk), hv] at hv'
    cases hv'
  constructor
  · cases h : (Step.hostCall hc auth res).execute s with
    | ok s' => exact absurd h (never .cloning s')
    | error e => exact ⟨e, rfl⟩
  · rcases h : (Step.hostCall hc auth res).executeMut s with ⟨_ | _, s'⟩
    · obtain rfl := executeMut_error h
      exact ⟨_, rfl⟩
    · exact absurd h (never .inPlace s')

/-- what has been revoked in `s₁` stays revoked in the later state `s₂` -/
structure Permanent (s₁ s₂ : State) : Prop where
  entry : ∀ k, IsOff s₁ k → IsOff s₂ k ∧ s₂.getCap k = s₁.getCap k
  insertMut : ∀ cap target, IsOff s₁ cap.id →
    s₂.applyCapDelegateMut cap target = (.error (.capIdCollision cap.id), s₂)
  insert : ∀ cap target, IsOff s₁ cap.id →
    s₂.applyCapDelegate cap target = .error (.capIdCollision cap.id)
  token : ∀ p hc auth res s', Exec p (.hostCall hc auth res) s₂ s' →
    Authorized.validateAtomic s₂ auth.cap auth.action auth.ctx = .ok auth
  execute : ∀ hc auth res, IsOff s₁ auth.cap.id →
    ∃ e, (Step.hostCall hc auth res).execute s₂ = .error e
  executeMut : ∀ hc auth res, IsOff s₁ auth.cap.id →
    ∃ e, (Step.hostCall hc auth res).executeMut s₂ = (.error e, s₂)

/-- **Main result**: let calls lead from `s` to `s₁` and more calls to `s₂`.  An entry that is off
in `s₁` is the same entry in `s₂`, and no other is accepted under its id.  A host call is executed
in `s₂` only if its token, wherever it was issued, would be issued in `s₂`; if the entry of the
token was off in `s₁`, the call fails and leaves `s₂` as it is. -/
theorem revocation_permanent (hmac : Hmac) (s : State) (hs : s.SortedTables)
    (before after : List Call) :
    Permanent (runCalls hmac s before) (runCalls hmac s (before ++ after)) := by
  have e : runCalls hmac s (before ++ after) = runCalls hmac (runCalls hmac s before) after :=
    run_append _ _ _ _
  rw [e]
  have hs₁ := runCalls_sorted hmac before hs.caps
  generalize runCalls hmac s before = s₁ at hs₁ ⊢
  have hoff : ∀ k, IsOff s₁ k →
      IsOff (runCalls hmac s₁ after) k ∧ (runCalls hmac s₁ after).getCap k = s₁.getCap k := by
    rintro k ⟨cap, hk, hv⟩
    have hk' := runCalls_off hmac after hs₁ hk hv
    exact ⟨⟨cap, hk', hv⟩, hk'.trans hk.symm⟩
  refine ⟨hoff, fun cap target h => ?_, fun cap target h => ?_, fun p hc auth res s' h =>
    h.validateAtomic, fun hc auth res h => ?_, fun hc auth res h => ?_⟩
  · obtain ⟨old, hold, _⟩ := (hoff _ h).1
    exact (insert_collision target hold).1
  · obtain ⟨old, hold, _⟩ := (hoff _ h).1
    exact (insert_collision target hold).2
  · exact (hostCall_off res (hoff _ h).1).1
  · exact (hostCall_off res (hoff _ h).1).2

/-- a root is inserted and revoked, then the clock advances -/
theorem revocation_permanent_sample :
    let before : List Call :=
      [.registerPlugin 1 .Public 0,
        .insertCapRaw ⟨100, 1, 0, .singleton .read, none, 0, true, .empty⟩ 1, .revokeCap 100]
    Permanent (runCalls (fun _ _ => .empty) State.empty before)
      (runCalls (fun _ _ => .empty) State.empty (before ++ [.tick])) :=
  revocation_permanent _ State.empty .empty _ _

end LionCore
