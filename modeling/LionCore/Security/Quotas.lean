import LionCore.Security.Delegation

/-!
# Quotas

An allocation by host call asks for room first, a grant does not.

* `StateOp.Grants`, `delegates_iff`   the delegations that go through;
* `StateOp.withinQuotas_iff`          when an operation keeps every plugin within its quotas;
* `quotas_iff_grants_fit`             **main result**: a run keeps them there exactly if every grant
                                      finds room;
* `quota_exceeded`                    a plugin without room is handed a capability.
-/

namespace LionCore
open Base RevocationState

/-! ## the quotas of one plugin -/

namespace PluginState

/-- the usage is within the quotas -/
def Within (q : PluginState) : Prop :=
  q.memoryUsed ≤ q.memoryQuota ∧ q.heldCaps.length ≤ q.capQuota

instance (q : PluginState) : Decidable q.Within :=
  inferInstanceAs (Decidable (_ ∧ _))

/-- the plugin is as `with_quotas` makes it -/
def Fresh (q : PluginState) : Prop :=
  ∃ level memSize memoryQuota capQuota ipcQueueLimit,
    q = withQuotas level memSize memoryQuota capQuota ipcQueueLimit

theorem Fresh.within {q : PluginState} (h : q.Fresh) : q.Within := by
  obtain ⟨_, _, _, _, _, rfl⟩ := h
  exact ⟨Nat.zero_le _, Nat.zero_le _⟩

theorem Fresh.heldCaps {q : PluginState} (h : q.Fresh) : q.heldCaps = [] := by
  obtain ⟨_, _, _, _, _, rfl⟩ := h
  rfl

theorem Fresh.empty (level : SecurityLevel) (memSize : Size) :
    (PluginState.empty level memSize).Fresh :=
  ⟨level, memSize, defaultQuota, defaultQuota, defaultQuota, rfl⟩

theorem canAllocMemory_iff (q : PluginState) (n : Nat) :
    q.canAllocMemory n = true ↔ q.memoryUsed + n < u64Size ∧ q.memoryUsed + n ≤ q.memoryQuota := by
  unfold canAllocMemory checkedAdd64
  by_cases h : q.memoryUsed + n < u64Size <;> simp [h]

theorem charge_of_canAlloc {q : PluginState} {n : Nat} (h : q.canAllocMemory n = true) :
    q.charge n = { q with memoryUsed := q.memoryUsed + n } := by
  obtain ⟨hlt, _⟩ := (q.canAllocMemory_iff n).mp h
  have e : saturatingAdd64 q.memoryUsed n = q.memoryUsed + n := by
    unfold saturatingAdd64
    omega
  unfold charge
  rw [e]

theorem Within.charge {q : PluginState} (h : q.Within) {n : Nat}
    (hn : q.canAllocMemory n = true) : (q.charge n).Within := by
  rw [charge_of_canAlloc hn]
  exact ⟨((q.canAllocMemory_iff n).mp hn).2, h.2⟩

theorem Within.grant_iff {q : PluginState} (h : q.Within) (c : CapId) :
    (q.grantCapMut c).Within ↔ q.holdsCap c = true ∨ q.canHoldCap = true := by
  have hlen := length_insertKey q.heldCaps c
  unfold Within grantCapMut holdsCap canHoldCap
  rw [hlen, decide_eq_true_eq]
  cases has q.heldCaps c with
  | true => exact iff_of_true h (Or.inl rfl)
  | false =>
    simp only [Bool.false_eq_true, if_false, false_or]
    exact ⟨fun hw => hw.2, fun hr => ⟨h.1, hr⟩⟩

end PluginState

theorem canAlloc_of_check {s : State} {hc : HostCall} (hck : checkAlloc s hc = .ok ())
    {q : PluginState} (hq : s.getPlugin hc.caller = some q) :
    q.canAllocMemory hc.firstOrZero = true := by
  obtain ⟨q', hq', hn⟩ := (checkAlloc_ok_iff s hc).mp hck
  obtain rfl : q' = q := Option.some.inj (hq'.symm.trans hq)
  exact hn

/-! ## delegations that go through -/

/-- the operation delegates `c` to `p`, and nothing is in its way -/
def StateOp.Grants (s : State) (p : PluginId) (c : CapId) : StateOp → Prop
  | .call (.insertCapRaw cap target) | .applyCapDelegate cap target =>
    target = p ∧ cap.id = c ∧ s.getCap cap.id = none
  | .call (.delegateCap parent target requested) =>
    target = p ∧ s.kernel.nextCapId = c ∧ Mintable s parent target requested
  | _ => False

theorem applyCapDelegateMut_ok_iff (s : State) (cap : Capability) (target : PluginId) :
    (s.applyCapDelegateMut cap target).1 = .ok () ↔ s.getCap cap.id = none := by
  unfold State.applyCapDelegateMut
  rcases insertMut_cases s.kernel.revocation cap with ⟨h, e⟩ | ⟨r, e, hins⟩
  · rw [e]
    exact iff_of_false nofun h
  · rw [e]
    exact iff_of_true rfl hins.fresh

theorem applyCapDelegate_ok_iff (s : State) (cap : Capability) (target : PluginId) :
    (∃ s', s.applyCapDelegate cap target = .ok s') ↔ s.getCap cap.id = none := by
  unfold State.applyCapDelegate
  rw [insert_eq]
  rcases insertMut_cases s.kernel.revocation cap with ⟨h, e⟩ | ⟨r, e, hins⟩
  · rw [e]
    exact iff_of_false (fun ⟨_, h⟩ => nomatch h) h
  · rw [e]
    exact iff_of_true ⟨_, rfl⟩ hins.fresh

theorem StateOp.delegates_iff (hmac : Hmac) (s : State) (op : StateOp) (p : PluginId)
    (c : CapId) : op.delegates hmac s = some (p, c) ↔ op.Grants s p c := by
  cases op with
  | call cl =>
    cases cl with
    | insertCapRaw cap target =>
      have hok := applyCapDelegateMut_ok_iff s cap target
      simp only [delegates, Grants, Kernel.insertCapRaw, ← hok]
      rcases s.applyCapDelegateMut cap target with ⟨res, s'⟩
      cases res <;> simp [Except.mapError, Except.toOption]
    | delegateCap parent target requested =>
      have hok := delegateCap_ok_iff hmac s parent target requested
      simp only [delegates, Grants]
      generalize Kernel.delegateCap hmac s parent target requested = d at hok ⊢
      cases hd : d.1 with
      | ok id =>
        obtain ⟨hm, rfl⟩ := (hok id).mp hd
        simp [Outcome.toOption, hm]
      | err _ | panic =>
        refine iff_of_false (Option.some_ne_none _).symm ?_
        rintro ⟨_, _, hm⟩
        have hid := (hok _).mpr ⟨hm, rfl⟩
        rw [hd] at hid
        cases hid
    | _ => exact iff_of_false (Option.some_ne_none _).symm id
  | applyCapDelegate cap target =>
    have hok := applyCapDelegate_ok_iff s cap target
    simp only [delegates, Grants, ← hok]
    cases s.applyCapDelegate cap target <;> simp [Except.toOption]
  | _ => exact iff_of_false (Option.some_ne_none _).symm id

/-! ## one operation -/

/-- every plugin is within its quotas -/
def WithinQuotas (s : State) : Prop := ∀ p q, s.getPlugin p = some q → q.Within

/-- no plugin uses more memory than it may -/
def WithinMemory (s : State) : Prop :=
  ∀ p q, s.getPlugin p = some q → q.memoryUsed ≤ q.memoryQuota

/-- plugins are inserted as `with_quotas` makes them -/
def StateOp.InsertsFresh : StateOp → Prop
  | .call (.insertPlugin _ ps) => ps.Fresh
  | _ => True

/-- a grant to a registered plugin finds the handle there, or room for it -/
def StateOp.GrantFits (s : State) (op : StateOp) : Prop :=
  ∀ p c q, op.Grants s p c → s.getPlugin p = some q →
    q.holdsCap c = true ∨ q.canHoldCap = true

theorem StateOp.InsertsFresh.ordered {op : StateOp} (h : op.InsertsFresh) :
    op.InsertsOrdered := by
  cases op with
  | call c =>
    cases c with
    | insertPlugin _ ps =>
      show Increasing ps.heldCaps
      rw [PluginState.Fresh.heldCaps h]
      exact List.Pairwise.nil
    | _ => trivial
  | _ => trivial

theorem StateOp.InsertsFresh.fresh {op : StateOp} (h : op.InsertsFresh) {id : PluginId}
    {ps : PluginState} (hc : op.registers = some (id, ps)) : ps.Fresh := by
  rcases registers_cases hc with ⟨level, memSize, rfl⟩ | rfl
  · exact .empty level memSize
  · exact h

/-- **No operation takes a plugin over its memory quota.** -/
theorem StateOp.withinMemory (hmac : Hmac) {s : State} (hs : s.Ordered) (op : StateOp)
    (hop : op.InsertsFresh) (h : WithinMemory s) : WithinMemory (op.exec hmac s) := by
  have hstep := op.pluginStep hmac s
  show ∀ p q, (op.exec hmac s).plugins.find p = some q → q.memoryUsed ≤ q.memoryQuota
  generalize (op.exec hmac s).plugins = plugins at hstep ⊢
  cases hstep with
  | same _ => exact h
  | inserted _ hc hadd =>
    intro p q hq
    rw [Table.find_add hs.plugins hadd] at hq
    split at hq
    · cases hq
      exact (hop.fresh hc).within.1
    · exact h p q hq
  | charged _ _ _ _ hck =>
    refine (Table.forall_find_modify_iff h _ _).mpr fun q hq => ?_
    have hn := canAlloc_of_check hck hq
    rw [PluginState.charge_of_canAlloc hn]
    exact ((q.canAllocMemory_iff _).mp hn).2
  | granted _ | relabelled _ =>
    exact (Table.forall_find_modify_iff h _ _).mpr fun q hq => h _ q hq

/-- **An operation keeps every plugin within its quotas exactly if its grant fits.** -/
theorem StateOp.withinQuotas_iff (hmac : Hmac) {s : State} (hs : s.Ordered) (op : StateOp)
    (hop : op.InsertsFresh) (h : WithinQuotas s) :
    WithinQuotas (op.exec hmac s) ↔ op.GrantFits s := by
  have idle : op.delegates hmac s = none → op.GrantFits s := by
    intro hd p c q hg
    cases hd.symm.trans ((op.delegates_iff hmac s p c).mpr hg)
  have hstep := op.pluginStep hmac s
  show (∀ p q, (op.exec hmac s).plugins.find p = some q → q.Within) ↔ _
  generalize (op.exec hmac s).plugins = plugins at hstep ⊢
  cases hstep with
  | same hd => exact iff_of_true h (idle hd)
  | @inserted id ps plugins hd hc hadd =>
    refine iff_of_true ?_ (idle hd)
    intro p q hq
    rw [Table.find_add hs.plugins hadd] at hq
    split at hq
    · cases hq
      exact (hop.fresh hc).within
    · exact h p q hq
  | @granted target c hd =>
    rw [Table.forall_find_modify_iff h]
    have hg := (op.delegates_iff hmac s target c).mp hd
    constructor
    · intro hw p c' q hg' hq
      cases hd.symm.trans ((op.delegates_iff hmac s p c').mpr hg')
      exact ((h target q hq).grant_iff c).mp (hw q hq)
    · intro hf q hq
      exact ((h target q hq).grant_iff c).mpr (hf target c q hg hq)
  | charged hd _ _ _ hck =>
    refine iff_of_true ?_ (idle hd)
    rw [Table.forall_find_modify_iff h]
    intro q hq
    exact (h _ q hq).charge (canAlloc_of_check hck hq)
  | relabelled hd =>
    refine iff_of_true ?_ (idle hd)
    rw [Table.forall_find_modify_iff h]
    intro q hq
    exact h _ q hq

/-! ## runs -/

/-- **Main result**: a run from an empty state, into which plugins come with any quotas, without
usage and without handles.  The memory quotas are never exceeded; every plugin stays within all of
its quotas exactly if every grant to a registered plugin finds the handle there already, or room
for it. -/
theorem quotas_iff_grants_fit (hmac : Hmac) (key : Key) (policy : PolicyState)
    (ops : List StateOp) (hops : ∀ op ∈ ops, op.InsertsFresh) :
    WithinMemory (run (StateOp.exec hmac) (.initial key policy) ops) ∧
      ((∀ n, WithinQuotas (run (StateOp.exec hmac) (.initial key policy) (ops.take n))) ↔
        Along (StateOp.exec hmac) (fun s op => op.GrantFits s) (.initial key policy) ops) := by
  have keep : ∀ (s : State) (op : StateOp), s.Ordered → op.InsertsFresh →
      (op.exec hmac s).Ordered := fun _ op hs hop => hs.exec op hop.ordered
  have start : (State.initial key policy).Ordered := .initial key policy
  constructor
  · have step : ∀ (s : State) (op : StateOp), s.Ordered ∧ WithinMemory s → op.InsertsFresh →
        (op.exec hmac s).Ordered ∧ WithinMemory (op.exec hmac s) :=
      fun s op h hop => ⟨keep s op h.1 hop, op.withinMemory hmac h.1 hop h.2⟩
    have h := run_invariant_of step ops ⟨start, fun _ _ hq => nomatch hq⟩
      (along_of_forall ops hops _)
    exact h.2
  · exact prefixes_iff_along_of keep
      (fun _ op hs hop h => op.withinQuotas_iff hmac hs hop h) ops hops start
      fun _ _ hq => nomatch hq

/-- plugin 1 comes in with room for no handle, and is given the root -/
def sampleNoRoom : List StateOp :=
  [.call (.insertPlugin 1 (.withQuotas .Public 0 0 0 0)), .call (.insertCapRaw sampleRoot 1)]

theorem sampleNoRoom_fresh : ∀ op ∈ sampleNoRoom, op.InsertsFresh :=
  List.forall_mem_cons.mpr ⟨⟨_, _, _, _, _, rfl⟩, List.forall_mem_singleton.mpr trivial⟩

/-- the grant does not fit, and the quota is exceeded -/
theorem quotas_iff_grants_fit_sample :
    (∀ n, WithinQuotas (run (StateOp.exec sampleMac) (.initial .empty .denyAll)
        (sampleNoRoom.take n))) ↔
      Along (StateOp.exec sampleMac) (fun s op => op.GrantFits s) (.initial .empty .denyAll)
        sampleNoRoom :=
  (quotas_iff_grants_fit sampleMac .empty .denyAll sampleNoRoom sampleNoRoom_fresh).2

/-- a plugin that may hold no capability holds one -/
theorem quota_exceeded :
    ∃ q, (run (StateOp.exec sampleMac) (.initial .empty .denyAll) sampleNoRoom).getPlugin 1 =
        some q ∧ q.capQuota = 0 ∧ q.canHoldCap = false ∧ q.heldCaps = [100] ∧ ¬ q.Within :=
  ⟨_, rfl, by decide, by decide, by decide, by decide⟩

end LionCore
