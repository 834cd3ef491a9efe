import LionCore.Revocation.Cut
import LionCore.Step.Step

/-!
# What a step can do

One inversion for all steps and both ways to execute them.

* `Effect.hostCall`    for a host call, what its function has checked and done;
* `Exec.effect`        an execution that succeeds has one of ten effects, with the checks it passed;
* `Effect.exec`        and every effect is that of an execution;
* `executeMut_error`   an execution in place that fails has changed nothing;
* `execute_mut_atomic` **main result**: nor has a host function or a kernel operation.
-/

namespace LionCore
open Base

/-! ## the checks, once more -/

theorem HostCall.firstArg_ok_iff (hc : HostCall) (m : HostCallPrecondition) (a : Nat) :
    hc.firstArg m = .ok a ↔ hc.args.head?.map UInt64.toNat = some a := by
  unfold HostCall.firstArg
  cases hc.args.head? <;> simp

/-- arguments are `u64` -/
theorem HostCall.firstArg_lt {hc : HostCall} {m : HostCallPrecondition} {a : Nat}
    (h : hc.firstArg m = .ok a) : a < u64Size := by
  obtain ⟨x, _, hx⟩ := Option.map_eq_some_iff.mp ((hc.firstArg_ok_iff m a).mp h)
  exact hx ▸ x.toNat_lt

/-- the actions that host calls require: the kind tells the function -/
inductive HostCall.Required (hc : HostCall) : Action → Prop
  | capCall {target : ResourceId} (hf : hc.function = .capCall)
      (ha : hc.firstArg .noCapabilityId = .ok target) :
      Required hc ⟨hc.caller, target, .singleton .read, "cap_call"⟩
  | capSend (hf : hc.function = .capSend) :
      Required hc ⟨hc.caller, 0, .singleton .send, "cap_send"⟩
  | kernelAlloc (hf : hc.function = .kernelAlloc) :
      Required hc ⟨hc.caller, 0, .singleton .create, "kernel_alloc"⟩
  | memFree {addr : MemAddr} (hf : hc.function = .memFree)
      (ha : hc.firstArg .noAddress = .ok addr) :
      Required hc ⟨hc.caller, addr, .singleton .delete, "mem_free"⟩
  | capRevoke {c : CapId} (hf : hc.function = .capRevoke)
      (ha : hc.firstArg .noCapabilityId = .ok c) :
      Required hc ⟨hc.caller, c, .singleton .revoke, "cap_revoke"⟩
  | declassify (hf : hc.function = .declassify) :
      Required hc ⟨hc.caller, 0, .singleton .declassify, "declassify"⟩

theorem HostCall.required {hc : HostCall} {a : Action} (h : hc.requiredAction = .ok a) :
    hc.Required a := by
  unfold HostCall.requiredAction at h
  cases hf : hc.function with
  | capCall =>
    rw [hf] at h
    obtain ⟨target, ha, h⟩ := bind_ok_iff.mp h
    cases h
    exact .capCall hf ha
  | memFree =>
    rw [hf] at h
    obtain ⟨addr, ha, h⟩ := bind_ok_iff.mp h
    cases h
    exact .memFree hf ha
  | capRevoke =>
    rw [hf] at h
    obtain ⟨c, ha, h⟩ := bind_ok_iff.mp h
    cases h
    exact .capRevoke hf ha
  | kernelAlloc =>
    rw [hf] at h
    cases h
    exact .kernelAlloc hf
  | declassify =>
    rw [hf] at h
    cases h
    exact .declassify hf
  | capSend =>
    rw [hf] at h
    cases h
    exact .capSend hf
  | threadCreate | threadConfigure | threadResume | threadSuspend | threadDestroy =>
    rw [hf] at h
    cases h

theorem HostCall.Required.subject {hc : HostCall} {a : Action} (h : hc.Required a) :
    a.subject = hc.caller := by
  cases h <;> rfl

/-- no host call asks for the right to write -/
theorem HostCall.Required.no_write {hc : HostCall} {a : Action} (h : hc.Required a) :
    a.rights.contains .write = false := by
  cases h <;> exact Rights.contains_singleton _ _

theorem checkFree_ok_iff (s : State) (addr : MemAddr) :
    checkFree s addr = .ok () ↔
      s.ghost.isFreed addr = false ∧ s.kernel.revocation.anyValidTargeting addr = false := by
  unfold checkFree
  rw [← RevocationState.findValidTargeting_isSome]
  cases s.ghost.isFreed addr with
  | true => simp
  | false => cases s.kernel.revocation.findValidTargeting addr <;> simp

theorem checkRevoke_ok_iff (s : State) (c : CapId) :
    checkRevoke s c = .ok () ↔ s.kernel.revocation.get c ≠ none := by
  unfold checkRevoke
  cases s.kernel.revocation.get c <;> simp

theorem checkAlloc_ok_iff (s : State) (hc : HostCall) :
    checkAlloc s hc = .ok () ↔
      ∃ q, s.getPlugin hc.caller = some q ∧ q.canAllocMemory hc.firstOrZero = true := by
  unfold checkAlloc
  cases s.getPlugin hc.caller with
  | none => simp
  | some q => cases h : q.canAllocMemory hc.firstOrZero <;> simp [h]

theorem checkDeclassify_ok_iff (s : State) (hc : HostCall) (l : SecurityLevel) :
    checkDeclassify s hc = .ok l ↔ SecurityLevel.fromU8 hc.firstOrZero = some l ∧
      ∃ q, s.getPlugin hc.caller = some q ∧ l ≤ q.level := by
  unfold checkDeclassify
  cases SecurityLevel.fromU8 hc.firstOrZero with
  | none => simp
  | some l' =>
    cases s.getPlugin hc.caller with
    | none => simp
    | some q =>
      by_cases hle : l' ≤ q.level
      · simp only [gt_iff_lt, if_neg (not_lt.mpr hle)]
        constructor
        · intro h
          cases h
          exact ⟨rfl, q, rfl, hle⟩
        · rintro ⟨h, _⟩
          rw [Option.some.inj h]
      · simp only [gt_iff_lt, if_pos (not_le.mp hle)]
        refine iff_of_false nofun ?_
        rintro ⟨h, q', hq, hle'⟩
        cases h
        cases hq
        exact hle hle'

theorem checkHostCall_ok_iff (s : State) (hc : HostCall) (auth : Authorized) :
    checkHostCall s hc auth = .ok () ↔ auth.action.subject = hc.caller ∧
      hc.requiredAction = .ok auth.action ∧ auth.Good s ∧ hc.checkPreconditions s = .ok () := by
  unfold checkHostCall
  by_cases h1 : auth.action.subject = hc.caller
  · rw [if_neg (not_not.mpr h1), bind_ok_iff]
    constructor
    · rintro ⟨a, ha, h⟩
      by_cases h2 : a = auth.action
      · rw [if_neg (not_not.mpr h2), check_bind_ok_iff, mapError_ok_iff,
          Authorized.validate_ok_iff] at h
        exact ⟨h1, h2 ▸ ha, h.1, h.2⟩
      · rw [if_pos h2] at h
        cases h
    · rintro ⟨_, ha, hg, hp⟩
      refine ⟨_, ha, ?_⟩
      rw [if_neg (not_not.mpr rfl), check_bind_ok_iff, mapError_ok_iff,
        Authorized.validate_ok_iff]
      exact ⟨hg, hp⟩
  · rw [if_pos h1]
    exact iff_of_false nofun fun h => h1 h.1

/-- a step with a token is issued for the table's own copy of a capability -/
theorem hostCallAtomic_good {s : State} {hc : HostCall} {k : CapId} {ctx : PolicyContext}
    {res : HostResult} {t : Step} (h : Step.hostCallAtomic s hc k ctx res = .ok t) :
    ∃ cap action, s.getCap k = some cap ∧ (⟨cap, action, ctx⟩ : Authorized).Good s ∧
      hc.requiredAction = .ok action ∧ t = .hostCall hc ⟨cap, action, ctx⟩ res := by
  unfold Step.hostCallAtomic at h
  cases hcap : s.getCap k with
  | none =>
    rw [hcap] at h
    cases h
  | some cap =>
    rw [hcap] at h
    obtain ⟨action, ha, h⟩ := bind_ok_iff.mp h
    split at h
    · cases h
    · obtain ⟨auth, hauth, h⟩ := bind_ok_iff.mp h
      obtain ⟨rfl, hg⟩ := (Authorized.validateAtomic_ok_iff ..).mp (mapError_ok_iff.mp hauth)
      exact ⟨cap, action, rfl, hg, ha, (Except.ok.inj h).symm⟩

/-- a step that is issued passes its checks in the same state, if its regions are in bounds -/
theorem checkHostCall_issued_iff {s : State} {hc : HostCall} {k : CapId} {ctx : PolicyContext}
    {res res' : HostResult} {auth : Authorized}
    (h : Step.hostCallAtomic s hc k ctx res = .ok (.hostCall hc auth res')) :
    checkHostCall s hc auth = .ok () ↔ hc.checkPreconditions s = .ok () := by
  obtain ⟨cap, action, _, hg, ha, e⟩ := hostCallAtomic_good h
  cases e
  rw [checkHostCall_ok_iff]
  exact ⟨fun h => h.2.2.2, fun hp => ⟨(HostCall.required ha).subject, ha, hg, hp⟩⟩

/-! ## effects -/

/-- the two ways to execute a step -/
inductive Path
  | cloning | inPlace
  deriving DecidableEq

/-- `t` is executed successfully in `s` and leads to `s'` -/
def Exec : Path → Step → State → State → Prop
  | .cloning, t, s, s' => t.execute s = .ok s'
  | .inPlace, t, s, s' => t.executeMut s = (.ok (), s')

instance : (p : Path) → (t : Step) → (s s' : State) → Decidable (Exec p t s s')
  | .cloning, t, s, s' => inferInstanceAs (Decidable (t.execute s = .ok s'))
  | .inPlace, t, s, s' => inferInstanceAs (Decidable (t.executeMut s = (.ok (), s')))

/-- how a path frees an address -/
def Path.frees : Path → MetaState → MemAddr → MetaState → Prop
  | .cloning, m, addr, m' => m' = m.free addr
  | .inPlace, m, addr, m' => m.freeMut addr = (.ok (), m')

/-- the routine in place asks for a live address and writes its status, the other does neither -/
theorem Path.frees_cases {p : Path} {m m' : MetaState} {addr : MemAddr} (h : p.frees m addr m') :
    (p = .cloning ∧ m' = m.free addr) ∨ (p = .inPlace ∧ m.isLive addr = true ∧
      m' = ⟨m.resources.insert addr .freed, insertKey m.freedSet addr⟩) := by
  cases p with
  | cloning => exact Or.inl ⟨rfl, h⟩
  | inPlace => exact Or.inr ⟨rfl, MetaState.freeMut_ok h⟩

/-- how a path revokes an id -/
def Path.revokes : Path → RevocationState → CapId → RevocationState → Prop
  | .cloning, r, c, r' => r' = r.revokeTransitive c
  | .inPlace, r, c, r' => r.revokeTransitiveFastMut c = (.ok (), r')

namespace Step

/-- the address that the step is to free -/
def frees : Step → Option MemAddr
  | .memFree _ addr => some addr
  | .hostCall hc _ _ =>
    if hc.function = .memFree then hc.args.head?.map UInt64.toNat else none
  | _ => none

/-- the capability that the step is to revoke -/
def revokes : Step → Option CapId
  | .capRevoke _ c => some c
  | .hostCall hc _ _ =>
    if hc.function = .capRevoke then hc.args.head?.map UInt64.toNat else none
  | _ => none

/-- a step that frees is a direct free or a host call for it -/
theorem frees_cases {t : Step} {addr : MemAddr} (h : t.frees = some addr) :
    (∃ caller, t = .memFree caller addr) ∨ ∃ hc auth res, t = .hostCall hc auth res ∧
      hc.function = .memFree ∧ hc.firstArg .noAddress = .ok addr := by
  cases t with
  | memFree caller a =>
    cases h
    exact Or.inl ⟨caller, rfl⟩
  | hostCall hc auth res =>
    by_cases hf : hc.function = .memFree
    · have harg := (if_pos hf).symm.trans h
      exact Or.inr ⟨hc, auth, res, rfl, hf, (hc.firstArg_ok_iff _ addr).mpr harg⟩
    · rw [show (Step.hostCall hc auth res).frees = none from if_neg hf] at h
      cases h
  | pluginInternal _ _ | kernelInternal _ | capRevoke _ _ => cases h

/-- a step that revokes is a direct revocation or a host call for it -/
theorem revokes_cases {t : Step} {c : CapId} (h : t.revokes = some c) :
    (∃ caller, t = .capRevoke caller c) ∨ ∃ hc auth res, t = .hostCall hc auth res ∧
      hc.function = .capRevoke ∧ hc.firstArg .noCapabilityId = .ok c := by
  cases t with
  | capRevoke caller a =>
    cases h
    exact Or.inl ⟨caller, rfl⟩
  | hostCall hc auth res =>
    by_cases hf : hc.function = .capRevoke
    · have harg := (if_pos hf).symm.trans h
      exact Or.inr ⟨hc, auth, res, rfl, hf, (hc.firstArg_ok_iff _ c).mpr harg⟩
    · rw [show (Step.hostCall hc auth res).revokes = none from if_neg hf] at h
      cases h
  | pluginInternal _ _ | kernelInternal _ | memFree _ _ => cases h

/-- a host call has passed its checks; nothing is asked of other steps -/
def Admitted (t : Step) (s : State) : Prop :=
  match t with
  | .hostCall hc auth _ => checkHostCall s hc auth = .ok ()
  | _ => True

end Step

/-- the effect of a step: what has been checked, and the new state -/
inductive Effect (p : Path) (s : State) : Step → State → Prop
  | compute {pid : PluginId} {pi : PluginInternal} (hck : pi.checkAll s pid = .ok ()) :
      Effect p s (.pluginInternal pid pi) (pi.consume s pid)
  | use {hc : HostCall} {auth : Authorized} {res : HostResult}
      (hgate : checkHostCall s hc auth = .ok ())
      (hck : (hc.function = .capCall ∧ checkCapCall s hc = .ok ()) ∨
        (hc.function = .capSend ∧ checkCapSend s hc res = .ok ())) :
      Effect p s (.hostCall hc auth res) s
  | alloc {hc : HostCall} {auth : Authorized} {res : HostResult}
      (hgate : checkHostCall s hc auth = .ok ()) (hf : hc.function = .kernelAlloc)
      (hck : checkAlloc s hc = .ok ()) :
      Effect p s (.hostCall hc auth res)
        ((s.applyAlloc hc.caller hc.firstOrZero).updatePlugin hc.caller
          (·.charge hc.firstOrZero))
  | declassify {hc : HostCall} {auth : Authorized} {res : HostResult} {l : SecurityLevel}
      (hgate : checkHostCall s hc auth = .ok ()) (hf : hc.function = .declassify)
      (hck : checkDeclassify s hc = .ok l) :
      Effect p s (.hostCall hc auth res)
        (s.updatePlugin hc.caller fun q => { q with level := l })
  | free {t : Step} {addr : MemAddr} {g : MetaState} (hgate : t.Admitted s)
      (ht : t.frees = some addr) (hck : checkFree s addr = .ok ())
      (hg : p.frees s.ghost addr g) : Effect p s t (s.withGhost g)
  | revoke {t : Step} {c : CapId} {r : RevocationState} (hgate : t.Admitted s)
      (ht : t.revokes = some c) (hck : checkRevoke s c = .ok ())
      (hr : p.revokes s.kernel.revocation c r) : Effect p s t (s.withRevocation r)
  | route {dst : ActorId} (hck : checkRouteOne s dst = .ok ()) :
      Effect p s (.kernelInternal (.routeOne dst)) (s.updateActor dst fun a => a.deliverMut.2)
  | workflow {wid : WorkflowId} (hck : checkWorkflowTick s wid = .ok ()) :
      Effect p s (.kernelInternal (.workflowTick wid)) s
  | tick (hlt : s.kernel.now + 1 < u64Size) :
      Effect p s (.kernelInternal .timeTick)
        { s with kernel := { s.kernel with now := s.kernel.now + 1 } }
  | unblock {dst : ActorId} (hck : checkUnblockSend s dst = .ok ()) :
      Effect p s (.kernelInternal (.unblockSend dst)) (s.updateActor dst ActorRuntime.unblockMut)

/-- what a host function has checked and done -/
inductive HostEffect (p : Path) (s : State) (hc : HostCall) (res : HostResult) :
    HostFunction → State → Prop
  | capCall (hck : checkCapCall s hc = .ok ()) : HostEffect p s hc res .capCall s
  | capSend (hck : checkCapSend s hc res = .ok ()) : HostEffect p s hc res .capSend s
  | kernelAlloc (hck : checkAlloc s hc = .ok ()) : HostEffect p s hc res .kernelAlloc
      ((s.applyAlloc hc.caller hc.firstOrZero).updatePlugin hc.caller (·.charge hc.firstOrZero))
  | memFree {addr : MemAddr} {g : MetaState} (harg : hc.firstArg .noAddress = .ok addr)
      (hck : checkFree s addr = .ok ()) (hg : p.frees s.ghost addr g) :
      HostEffect p s hc res .memFree (s.withGhost g)
  | capRevoke {c : CapId} {r : RevocationState} (harg : hc.firstArg .noCapabilityId = .ok c)
      (hck : checkRevoke s c = .ok ()) (hr : p.revokes s.kernel.revocation c r) :
      HostEffect p s hc res .capRevoke (s.withRevocation r)
  | declassify {l : SecurityLevel} (hck : checkDeclassify s hc = .ok l) :
      HostEffect p s hc res .declassify (s.updatePlugin hc.caller fun q => { q with level := l })

theorem Effect.hostCall {p : Path} {s s' : State} {hc : HostCall} {auth : Authorized}
    {res : HostResult} (h : Effect p s (.hostCall hc auth res) s') :
    checkHostCall s hc auth = .ok () ∧ HostEffect p s hc res hc.function s' := by
  cases h with
  | use hgate hck =>
    refine ⟨hgate, ?_⟩
    rcases hck with ⟨hf, hck⟩ | ⟨hf, hck⟩
    · exact hf ▸ .capCall hck
    · exact hf ▸ .capSend hck
  | alloc hgate hf hck => exact ⟨hgate, hf ▸ .kernelAlloc hck⟩
  | declassify hgate hf hck => exact ⟨hgate, hf ▸ .declassify hck⟩
  | free hgate ht hck hg =>
    rcases Step.frees_cases ht with ⟨_, e⟩ | ⟨_, _, _, e, hf, harg⟩
    · cases e
    · cases e
      exact ⟨hgate, hf ▸ .memFree harg hck hg⟩
  | revoke hgate ht hck hr =>
    rcases Step.revokes_cases ht with ⟨_, e⟩ | ⟨_, _, _, e, hf, harg⟩
    · cases e
    · cases e
      exact ⟨hgate, hf ▸ .capRevoke harg hck hr⟩

/-! ## the cloning path -/

theorem applyFree_of_check {s : State} {addr : MemAddr} (h : checkFree s addr = .ok ()) :
    s.applyFree addr = .ok (s.withGhost (s.ghost.free addr)) := by
  unfold State.applyFree
  rw [((checkFree_ok_iff s addr).mp h).2]
  rfl

theorem tick_cases (s : State) :
    (s.kernel.now + 1 < u64Size ∧
      s.tick = (.ok (), { s with kernel := { s.kernel with now := s.kernel.now + 1 } })) ∨
    (¬ s.kernel.now + 1 < u64Size ∧ s.tick = (.error (.counterOverflow "time"), s)) := by
  unfold State.tick KernelState.tickChecked checkedAdd64
  by_cases h : s.kernel.now + 1 < u64Size
  · rw [if_pos h]
    exact Or.inl ⟨h, rfl⟩
  · rw [if_neg h]
    exact Or.inr ⟨h, rfl⟩

theorem effect_of_function_execute {s s' : State} {hc : HostCall} {auth : Authorized}
    {res : HostResult} (hgate : checkHostCall s hc auth = .ok ())
    (h : hc.function.execute s hc res = .ok s') :
    Effect .cloning s (.hostCall hc auth res) s' := by
  cases hf : hc.function with
  | capCall =>
    rw [hf] at h
    obtain ⟨hck, e⟩ := check_bind_ok_iff.mp h
    cases e
    exact .use hgate (Or.inl ⟨hf, hck⟩)
  | capSend =>
    rw [hf] at h
    obtain ⟨hck, e⟩ := check_bind_ok_iff.mp h
    cases e
    exact .use hgate (Or.inr ⟨hf, hck⟩)
  | kernelAlloc =>
    rw [hf] at h
    obtain ⟨hck, e⟩ := check_bind_ok_iff.mp h
    cases e
    exact .alloc hgate hf hck
  | memFree =>
    rw [hf] at h
    obtain ⟨addr, ha, h⟩ := bind_ok_iff.mp h
    obtain ⟨hck, h⟩ := check_bind_ok_iff.mp h
    rw [applyFree_of_check hck] at h
    cases h
    exact .free hgate ((if_pos hf).trans ((hc.firstArg_ok_iff _ _).mp ha)) hck rfl
  | capRevoke =>
    rw [hf] at h
    obtain ⟨c, ha, h⟩ := bind_ok_iff.mp h
    obtain ⟨hck, e⟩ := check_bind_ok_iff.mp h
    cases e
    exact .revoke hgate ((if_pos hf).trans ((hc.firstArg_ok_iff _ _).mp ha)) hck rfl
  | declassify =>
    rw [hf] at h
    obtain ⟨l, hck, e⟩ := bind_ok_iff.mp h
    cases e
    exact .declassify hgate hf hck
  | threadCreate | threadConfigure | threadResume | threadSuspend | threadDestroy =>
    rw [hf] at h
    cases h

theorem effect_of_op_execute {s s' : State} {op : KernelOp} (h : op.execute s = .ok s') :
    Effect .cloning s (.kernelInternal op) s' := by
  cases op with
  | routeOne dst =>
    obtain ⟨hck, e⟩ := check_bind_ok_iff.mp h
    cases e
    exact .route hck
  | workflowTick wid =>
    obtain ⟨hck, e⟩ := check_bind_ok_iff.mp h
    cases e
    exact .workflow hck
  | timeTick =>
    change executeTimeTick s = .ok s' at h
    unfold executeTimeTick at h
    rcases tick_cases s with ⟨hlt, e⟩ | ⟨_, e⟩
    · rw [e] at h
      cases h
      exact .tick hlt
    · rw [e] at h
      cases h
  | unblockSend dst =>
    obtain ⟨hck, e⟩ := check_bind_ok_iff.mp h
    cases e
    exact .unblock hck
  | threadSwitch src dst => cases h

theorem effect_of_execute {s s' : State} {t : Step} (h : t.execute s = .ok s') :
    Effect .cloning s t s' := by
  cases t with
  | pluginInternal pid pi =>
    obtain ⟨hck, e⟩ := check_bind_ok_iff.mp h
    cases e
    exact .compute hck
  | hostCall hc auth res =>
    obtain ⟨hgate, h⟩ := check_bind_ok_iff.mp h
    exact effect_of_function_execute hgate h
  | kernelInternal op => exact effect_of_op_execute h
  | memFree caller addr =>
    obtain ⟨hck, h⟩ := check_bind_ok_iff.mp h
    rw [applyFree_of_check hck] at h
    cases h
    exact .free trivial rfl hck rfl
  | capRevoke caller c =>
    obtain ⟨hck, e⟩ := check_bind_ok_iff.mp h
    cases e
    exact .revoke trivial rfl hck rfl

/-! ## the path in place -/

/-- a free in place fails without a change -/
theorem applyFreeMut_cases (s : State) (addr : MemAddr) :
    (∃ g, s.ghost.freeMut addr = (.ok (), g) ∧ s.applyFreeMut addr = (.ok (), s.withGhost g)) ∨
      ∃ e, s.applyFreeMut addr = (.error e, s) := by
  unfold State.applyFreeMut
  split
  · exact Or.inr ⟨_, rfl⟩
  · rcases s.ghost.freeMut_cases addr with ⟨_, e⟩ | ⟨_, e', e⟩
    · rw [e]
      exact Or.inl ⟨_, rfl, rfl⟩
    · rw [e]
      exact Or.inr ⟨_, rfl⟩

theorem freeMut_ok {s s' : State} {addr : MemAddr} {wrap : StateError → StepError}
    (h : freeMut s addr wrap = (.ok (), s')) :
    checkFree s addr = .ok () ∧ ∃ g, s.ghost.freeMut addr = (.ok (), g) ∧ s' = s.withGhost g := by
  obtain ⟨hck, h⟩ := guardMut_ok_iff.mp h
  refine ⟨hck, ?_⟩
  rcases applyFreeMut_cases s addr with ⟨g, hg, e⟩ | ⟨e', e⟩
  · rw [e] at h
    exact ⟨g, hg, (Prod.mk.inj h).2.symm⟩
  · rw [e] at h
    cases h

theorem freeMut_error {s s' : State} {addr : MemAddr} {wrap : StateError → StepError}
    {e : StepError} (h : freeMut s addr wrap = (.error e, s')) : s' = s := by
  refine guardMut_error (fun e' t h => ?_) h
  rcases applyFreeMut_cases s addr with ⟨g, _, e⟩ | ⟨e'', e⟩
  · rw [e] at h
    cases h
  · rw [e] at h
    exact (Prod.mk.inj h).2.symm

/-- a revocation in place behind its check succeeds -/
theorem applyCapRevokeMut_of_check {s : State} {c : CapId} (h : checkRevoke s c = .ok ()) :
    ∃ r, s.kernel.revocation.revokeTransitiveFastMut c = (.ok (), r) ∧
      s.applyCapRevokeMut c = (.ok (), s.withRevocation r) := by
  have hc := (checkRevoke_ok_iff s c).mp h
  unfold State.applyCapRevokeMut RevocationState.revokeTransitiveFastMut
  cases hi : s.kernel.revocation.caps.findIndex c with
  | none => exact absurd (Table.find_eq_none_iff.mpr hi) hc
  | some i => exact ⟨_, rfl, rfl⟩

theorem revokeMut_ok {s s' : State} {c : CapId} (h : revokeMut s c = (.ok (), s')) :
    checkRevoke s c = .ok () ∧ ∃ r,
      s.kernel.revocation.revokeTransitiveFastMut c = (.ok (), r) ∧ s' = s.withRevocation r := by
  obtain ⟨hck, h⟩ := guardMut_ok_iff.mp h
  obtain ⟨r, hr, e⟩ := applyCapRevokeMut_of_check hck
  rw [e] at h
  exact ⟨hck, r, hr, (Prod.mk.inj h).2.symm⟩

theorem revokeMut_error {s s' : State} {c : CapId} {e : StepError}
    (h : revokeMut s c = (.error e, s')) : s' = s := by
  unfold revokeMut at h
  cases hck : checkRevoke s c with
  | error e' =>
    rw [hck] at h
    exact (Prod.mk.inj h).2.symm
  | ok u =>
    obtain ⟨r, _, e'⟩ := applyCapRevokeMut_of_check hck
    rw [hck, e'] at h
    cases h

theorem effect_of_function_executeMut {s s' : State} {hc : HostCall} {auth : Authorized}
    {res : HostResult} (hgate : checkHostCall s hc auth = .ok ())
    (h : hc.function.executeMut s hc res = (.ok (), s')) :
    Effect .inPlace s (.hostCall hc auth res) s' := by
  cases hf : hc.function with
  | capCall =>
    rw [hf] at h
    obtain ⟨hck, e⟩ := guardMut_ok_iff.mp h
    cases e
    exact .use hgate (Or.inl ⟨hf, hck⟩)
  | capSend =>
    rw [hf] at h
    obtain ⟨hck, e⟩ := guardMut_ok_iff.mp h
    cases e
    exact .use hgate (Or.inr ⟨hf, hck⟩)
  | kernelAlloc =>
    rw [hf] at h
    obtain ⟨hck, e⟩ := guardMut_ok_iff.mp h
    cases e
    exact .alloc hgate hf hck
  | memFree =>
    rw [hf] at h
    change executeMemFreeCallMut s hc = _ at h
    unfold executeMemFreeCallMut at h
    split at h
    · cases h
    · rename_i addr ha
      obtain ⟨hck, g, hg, rfl⟩ := freeMut_ok h
      exact .free hgate ((if_pos hf).trans ((hc.firstArg_ok_iff _ _).mp ha)) hck hg
  | capRevoke =>
    rw [hf] at h
    change executeCapRevokeCallMut s hc = _ at h
    unfold executeCapRevokeCallMut at h
    split at h
    · cases h
    · rename_i c ha
      obtain ⟨hck, r, hr, rfl⟩ := revokeMut_ok h
      exact .revoke hgate ((if_pos hf).trans ((hc.firstArg_ok_iff _ _).mp ha)) hck hr
  | declassify =>
    rw [hf] at h
    change executeDeclassifyMut s hc = _ at h
    unfold executeDeclassifyMut at h
    split at h
    · cases h
    · rename_i l hck
      cases h
      exact .declassify hgate hf hck
  | threadCreate | threadConfigure | threadResume | threadSuspend | threadDestroy =>
    rw [hf] at h
    cases h

theorem effect_of_op_executeMut {s s' : State} {op : KernelOp}
    (h : op.executeMut s = (.ok (), s')) : Effect .inPlace s (.kernelInternal op) s' := by
  cases op with
  | routeOne dst =>
    obtain ⟨hck, e⟩ := guardMut_ok_iff.mp h
    cases e
    exact .route hck
  | workflowTick wid =>
    obtain ⟨hck, e⟩ := guardMut_ok_iff.mp h
    cases e
    exact .workflow hck
  | timeTick =>
    change executeTimeTickMut s = _ at h
    unfold executeTimeTickMut at h
    rcases tick_cases s with ⟨hlt, e⟩ | ⟨_, e⟩
    · rw [e] at h
      cases h
      exact .tick hlt
    · rw [e] at h
      cases h
  | unblockSend dst =>
    obtain ⟨hck, e⟩ := guardMut_ok_iff.mp h
    cases e
    exact .unblock hck
  | threadSwitch src dst => cases h

theorem effect_of_executeMut {s s' : State} {t : Step} (h : t.executeMut s = (.ok (), s')) :
    Effect .inPlace s t s' := by
  cases t with
  | pluginInternal pid pi =>
    obtain ⟨hck, e⟩ := guardMut_ok_iff.mp h
    cases e
    exact .compute hck
  | hostCall hc auth res =>
    obtain ⟨hgate, h⟩ := guardMut_ok_iff.mp h
    exact effect_of_function_executeMut hgate h
  | kernelInternal op => exact effect_of_op_executeMut h
  | memFree caller addr =>
    obtain ⟨hck, g, hg, rfl⟩ := freeMut_ok h
    exact .free trivial rfl hck hg
  | capRevoke caller c =>
    obtain ⟨hck, r, hr, rfl⟩ := revokeMut_ok h
    exact .revoke trivial rfl hck hr

/-! ## both paths -/

/-- **Every execution that succeeds has one of the effects.** -/
theorem Exec.effect {p : Path} {t : Step} {s s' : State} (h : Exec p t s s') : Effect p s t s' := by
  cases p with
  | cloning => exact effect_of_execute h
  | inPlace => exact effect_of_executeMut h

/-! ## every effect is that of an execution -/

section
variable {p : Path} {s s' : State}

/-- a path runs a host function -/
def Path.runs (p : Path) (f : HostFunction) (s : State) (hc : HostCall) (res : HostResult)
    (s' : State) : Prop :=
  match p with
  | .cloning => f.execute s hc res = .ok s'
  | .inPlace => f.executeMut s hc res = (.ok (), s')

theorem exec_hostCall {hc : HostCall} {auth : Authorized} {res : HostResult}
    (hgate : checkHostCall s hc auth = .ok ()) (h : p.runs hc.function s hc res s') :
    Exec p (.hostCall hc auth res) s s' := by
  cases p with
  | cloning => exact check_bind_ok_iff.mpr ⟨hgate, h⟩
  | inPlace => exact guardMut_ok_iff.mpr ⟨hgate, h⟩

theorem freeMut_of_check {addr : MemAddr} {g : MetaState} (wrap : StateError → StepError)
    (hck : checkFree s addr = .ok ()) (hg : s.ghost.freeMut addr = (.ok (), g)) :
    freeMut s addr wrap = (.ok (), s.withGhost g) := by
  refine guardMut_ok_iff.mpr ⟨hck, ?_⟩
  unfold State.applyFreeMut
  rw [((checkFree_ok_iff s addr).mp hck).2, hg]
  rfl

theorem revokeMut_of_check {c : CapId} {r : RevocationState} (hck : checkRevoke s c = .ok ())
    (hr : s.kernel.revocation.revokeTransitiveFastMut c = (.ok (), r)) :
    revokeMut s c = (.ok (), s.withRevocation r) := by
  refine guardMut_ok_iff.mpr ⟨hck, ?_⟩
  unfold State.applyCapRevokeMut
  rw [hr]
  rfl

theorem exec_free {t : Step} {addr : MemAddr} {g : MetaState} (hgate : t.Admitted s)
    (ht : t.frees = some addr) (hck : checkFree s addr = .ok ()) (hg : p.frees s.ghost addr g) :
    Exec p t s (s.withGhost g) := by
  have hclone : p = .cloning → ∀ wrap : StateError → StepError,
      (s.applyFree addr).mapError wrap = .ok (s.withGhost g) := by
    rintro rfl wrap
    obtain rfl : g = s.ghost.free addr := hg
    rw [applyFree_of_check hck]
    rfl
  rcases Step.frees_cases ht with ⟨caller, rfl⟩ | ⟨hc, auth, res, rfl, hf, harg⟩
  · cases p with
    | cloning => exact check_bind_ok_iff.mpr ⟨hck, hclone rfl .stateError⟩
    | inPlace => exact freeMut_of_check .stateError hck hg
  · refine exec_hostCall hgate ?_
    rw [hf]
    cases p with
    | cloning =>
      exact bind_ok_iff.mpr ⟨addr, harg, check_bind_ok_iff.mpr ⟨hck, hclone rfl freeFailed⟩⟩
    | inPlace =>
      show executeMemFreeCallMut s hc = _
      unfold executeMemFreeCallMut
      rw [harg]
      exact freeMut_of_check freeFailed hck hg

theorem exec_revoke {t : Step} {c : CapId} {r : RevocationState} (hgate : t.Admitted s)
    (ht : t.revokes = some c) (hck : checkRevoke s c = .ok ())
    (hr : p.revokes s.kernel.revocation c r) : Exec p t s (s.withRevocation r) := by
  have hclone : p = .cloning → s.applyCapRevoke c = s.withRevocation r := by
    rintro rfl
    obtain rfl : r = s.kernel.revocation.revokeTransitive c := hr
    rfl
  rcases Step.revokes_cases ht with ⟨caller, rfl⟩ | ⟨hc, auth, res, rfl, hf, harg⟩
  · cases p with
    | cloning => exact check_bind_ok_iff.mpr ⟨hck, congrArg Except.ok (hclone rfl)⟩
    | inPlace => exact revokeMut_of_check hck hr
  · refine exec_hostCall hgate ?_
    rw [hf]
    cases p with
    | cloning =>
      exact bind_ok_iff.mpr ⟨c, harg,
        check_bind_ok_iff.mpr ⟨hck, congrArg Except.ok (hclone rfl)⟩⟩
    | inPlace =>
      show executeCapRevokeCallMut s hc = _
      unfold executeCapRevokeCallMut
      rw [harg]
      exact revokeMut_of_check hck hr

/-- **Every effect is that of an execution.** -/
theorem Effect.exec {t : Step} (h : Effect p s t s') : Exec p t s s' := by
  cases h with
  | compute hck | route hck | workflow hck | unblock hck =>
    cases p with
    | cloning => exact check_bind_ok_iff.mpr ⟨hck, rfl⟩
    | inPlace => exact guardMut_ok_iff.mpr ⟨hck, rfl⟩
  | use hgate hck =>
    refine exec_hostCall hgate ?_
    rcases hck with ⟨hf, hck⟩ | ⟨hf, hck⟩
    · rw [hf]
      cases p with
      | cloning => exact check_bind_ok_iff.mpr ⟨hck, rfl⟩
      | inPlace => exact guardMut_ok_iff.mpr ⟨hck, rfl⟩
    · rw [hf]
      cases p with
      | cloning => exact check_bind_ok_iff.mpr ⟨hck, rfl⟩
      | inPlace => exact guardMut_ok_iff.mpr ⟨hck, rfl⟩
  | alloc hgate hf hck =>
    refine exec_hostCall hgate ?_
    rw [hf]
    cases p with
    | cloning => exact check_bind_ok_iff.mpr ⟨hck, rfl⟩
    | inPlace => exact guardMut_ok_iff.mpr ⟨hck, rfl⟩
  | @declassify hc auth res l hgate hf hck =>
    refine exec_hostCall hgate ?_
    rw [hf]
    cases p with
    | cloning => exact bind_ok_iff.mpr ⟨l, hck, rfl⟩
    | inPlace =>
      show executeDeclassifyMut s hc = _
      unfold executeDeclassifyMut
      rw [hck]
  | free hgate ht hck hg => exact exec_free hgate ht hck hg
  | revoke hgate ht hck hr => exact exec_revoke hgate ht hck hr
  | tick hlt =>
    rcases tick_cases s with ⟨_, e⟩ | ⟨hn, _⟩
    · cases p with
      | cloning =>
        show executeTimeTick s = _
        unfold executeTimeTick
        rw [e]
      | inPlace =>
        show executeTimeTickMut s = _
        unfold executeTimeTickMut
        rw [e]
        rfl
    · exact absurd hlt hn

end

/-! ## failures in place -/

/-- a check in front of an operation that cannot fail -/
theorem guardMut_total_error {c : Except StepError Unit} {s s' t : State} {e : StepError}
    (h : guardMut c s (.ok (), t) = (.error e, s')) : s' = s :=
  guardMut_error (fun _ _ h => by cases h) h

theorem function_executeMut_error {s s' : State} {hc : HostCall} {res : HostResult}
    {f : HostFunction} {e : StepError} (h : f.executeMut s hc res = (.error e, s')) : s' = s := by
  cases f with
  | capCall => exact guardMut_total_error h
  | capSend => exact guardMut_total_error h
  | kernelAlloc => exact guardMut_total_error h
  | memFree =>
    change executeMemFreeCallMut s hc = _ at h
    unfold executeMemFreeCallMut at h
    split at h
    · exact (Prod.mk.inj h).2.symm
    · exact freeMut_error h
  | capRevoke =>
    change executeCapRevokeCallMut s hc = _ at h
    unfold executeCapRevokeCallMut at h
    split at h
    · exact (Prod.mk.inj h).2.symm
    · exact revokeMut_error h
  | declassify =>
    change executeDeclassifyMut s hc = _ at h
    unfold executeDeclassifyMut at h
    split at h
    · exact (Prod.mk.inj h).2.symm
    · cases h
  | threadCreate | threadConfigure | threadResume | threadSuspend | threadDestroy =>
    exact (Prod.mk.inj h).2.symm

theorem op_executeMut_error {s s' : State} {op : KernelOp} {e : StepError}
    (h : op.executeMut s = (.error e, s')) : s' = s := by
  cases op with
  | routeOne dst => exact guardMut_total_error h
  | workflowTick wid => exact guardMut_total_error h
  | timeTick =>
    change executeTimeTickMut s = _ at h
    unfold executeTimeTickMut at h
    rcases tick_cases s with ⟨_, e'⟩ | ⟨_, e'⟩
    · rw [e'] at h
      cases h
    · rw [e'] at h
      exact (Prod.mk.inj h).2.symm
  | unblockSend dst => exact guardMut_total_error h
  | threadSwitch src dst => exact (Prod.mk.inj h).2.symm

/-- **A step that fails in place has changed nothing.** -/
theorem executeMut_error {s s' : State} {t : Step} {e : StepError}
    (h : t.executeMut s = (.error e, s')) : s' = s := by
  cases t with
  | pluginInternal pid pi => exact guardMut_total_error h
  | hostCall hc auth res => exact guardMut_error (fun _ _ h => function_executeMut_error h) h
  | kernelInternal op => exact op_executeMut_error h
  | memFree caller addr => exact freeMut_error h
  | capRevoke caller c => exact revokeMut_error h

/-- **Main result**: in place, a step, a host function or a kernel operation that fails leaves the
whole state as it was, so that a step has exactly two outcomes: an error in the old state, or one
of the effects. -/
theorem execute_mut_atomic (s : State) :
    (∀ t e s', Step.executeMut t s = (.error e, s') → s' = s) ∧
    (∀ f hc res e s', HostFunction.executeMut f s hc res = (.error e, s') → s' = s) ∧
    (∀ op e s', KernelOp.executeMut op s = (.error e, s') → s' = s) ∧
    ∀ t, (∃ e, Step.executeMut t s = (.error e, s)) ∨
      ∃ s', Step.executeMut t s = (.ok (), s') ∧ Effect .inPlace s t s' := by
  refine ⟨fun _ _ _ h => executeMut_error h, fun _ _ _ _ _ h => function_executeMut_error h,
    fun _ _ _ h => op_executeMut_error h, fun t => ?_⟩
  rcases h : t.executeMut s with ⟨res, s'⟩
  cases res with
  | error e =>
    obtain rfl := executeMut_error h
    exact Or.inl ⟨e, rfl⟩
  | ok u => exact Or.inr ⟨s', rfl, effect_of_executeMut h⟩

end LionCore
