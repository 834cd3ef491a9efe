import LionCore.Base.Simulation
import LionCore.Delivery
import LionCore.Security.Sealing
import LionCore.Security.TargetAddress
import LionCore.Spec.Correspondence
import LionCore.Step.Sandbox
import LionCore.Step.Verdict

/-!
# The code and the specification's steps

* `Step.label`          the label under which the specification has a step, if it has one;
* `runtime`             what the specification leaves open, as the code has it;
* `Step.Followed`       the steps that the specification takes too;
* `followed_iff`        **main result**: under their labels it takes these, and no others;
* `run_followed`        **main result**: a run of such steps is a run of the specification.
-/

namespace LionCore
open Base

/-! ## labels -/

/-- the names that the host functions have in the specification -/
def HostFunction.toSpec : HostFunction → Option Spec.HostFunctionId
  | .capCall => some .capInvoke
  | .capSend => some .ipcSend
  | .kernelAlloc => some .memAlloc
  | .memFree => some .memFree
  | .capRevoke => some .capRevoke
  | .declassify => some .declassify
  | _ => none

def Spec.HostFunctionId.toCode : Spec.HostFunctionId → Option HostFunction
  | .capInvoke => some .capCall
  | .ipcSend => some .capSend
  | .memAlloc => some .kernelAlloc
  | .memFree => some .memFree
  | .capRevoke => some .capRevoke
  | .declassify => some .declassify
  | _ => none

theorem HostFunction.toCode_toSpec {f : HostFunction} {f' : Spec.HostFunctionId}
    (h : f.toSpec = some f') : f'.toCode = some f := by
  cases f <;> cases h <;> rfl

def HostCall.toSpec (hc : HostCall) : Option Spec.HostCall :=
  hc.function.toSpec.map fun function =>
    ⟨hc.caller, function, hc.args.map UInt64.toNat, hc.reads, hc.writes⟩

def Spec.HostCall.toCode (hc : Spec.HostCall) : Option LionCore.HostCall :=
  hc.function.toCode.map fun function =>
    ⟨hc.caller, function, hc.args.map UInt64.ofNat, hc.reads, hc.writes⟩

theorem HostCall.toCode_toSpec {hc : HostCall} {hc' : Spec.HostCall} (h : hc.toSpec = some hc') :
    hc'.toCode = some hc := by
  obtain ⟨f', hf, rfl⟩ := Option.map_eq_some_iff.mp h
  unfold Spec.HostCall.toCode
  rw [HostFunction.toCode_toSpec hf]
  simp [Function.comp_def]

def KernelOp.toSpec : KernelOp → Option Spec.KernelOp
  | .routeOne dst => some (.routeOne dst)
  | .workflowTick wid => some (.workflowTick wid)
  | .timeTick => some .timeTick
  | .unblockSend dst => some (.unblockSend dst)
  | .threadSwitch _ _ => none

/-- a direct free or revocation has no label: no token stands behind it -/
def Step.label : Step → Option Spec.Label
  | .pluginInternal pid pi => some (.pluginInternal pid pi)
  | .hostCall hc auth res => hc.toSpec.map fun hc => .hostCall hc auth.action auth.cap auth.ctx res
  | .kernelInternal op => op.toSpec.map .kernelInternal
  | .memFree _ _ => none
  | .capRevoke _ _ => none

/-- the action of a host call is the one that the code requires -/
def runtime (hmac : Hmac) : Spec.Runtime where
  hostcallAction hc := hc.toCode.bind fun hc => hc.requiredAction.toOption
  sealPayload key payload := (sealPayload hmac key payload).getD .empty
  verifySeal key payload tag := decide (verifySeal hmac key payload tag = some true)

/-! ## the steps that are followed -/

/-- a call gives nothing back, but a send the one message that is sent -/
def HostCall.Returns (hc : HostCall) (res : HostResult) : Prop :=
  if hc.function = .capSend then ∃ msg, res = ⟨[], [msg]⟩ else res = .empty

/-- the token carries a seal of the current key, and the result is that of the function; nothing is
taken out of a mailbox; a workflow that runs has work; and nothing is freed or revoked directly -/
def Step.Followed (hmac : Hmac) (s : State) : Step → Prop
  | .pluginInternal _ pi => pi.consumeMailbox = false
  | .hostCall hc auth res =>
    verifySeal hmac s.kernel.keyState.current auth.cap.payload auth.cap.signature = some true ∧
      hc.Returns res ∧ (hc.function = .kernelAlloc → s.ghost.resourceCount < u64Size)
  | .kernelInternal (.workflowTick wid) =>
    ∀ w, s.getWorkflow wid = some w → Spec.WorkflowHasWork w.toSpec
  | .kernelInternal _ => True
  | .memFree _ _ => False
  | .capRevoke _ _ => False

/-! ## tokens -/

section
variable {hmac : Hmac} {s : State} {g : Spec.MetaState} {hc : HostCall} {auth : Authorized}

theorem held_toSpec {pid : PluginId} {k : CapId} (h : s.pluginHolds pid k = true) :
    k ∈ ((s.toSpec g).plugins pid).heldCaps := by
  unfold State.pluginHolds at h
  cases hp : s.getPlugin pid with
  | none =>
    rw [hp] at h
    cases h
  | some p =>
    rw [hp] at h
    rw [State.toSpec_plugins s g hp]
    exact List.mem_toFinset.mpr (mem_of_has h)

/-- a token that passes its checks, with a seal, is a witness for the specification -/
theorem Authorized.Good.toSpec (hr : s.Ready) (hg : s.ghost.Consistent g) (good : auth.Good s)
    (hreq : hc.Required auth.action)
    (hseal : verifySeal hmac s.kernel.keyState.current auth.cap.payload auth.cap.signature =
      some true) :
    Spec.Authorized (runtime hmac) (s.toSpec g) auth.action auth.cap auth.ctx where
  check := ⟨good.holder, good.target, good.rights, ⟨decide_eq_true hseal, good.entry⟩,
    held_toSpec good.held⟩
  policy := (Spec.policyCheck_eq_permit_iff _ _ _).mpr good.policy
  valid := hr.table.standing hr.parents good.entry
  live r hrt := by
    apply (hg.isLive_iff r).mpr
    have hlive := good.live
    rwa [asU64_of_lt hreq.target_lt, hrt] at hlive
  conf := good.rights
  biba hw := absurd hreq.no_write (ne_false_of_eq_true hw)

theorem HostCall.checkPreconditions_ok (h : hc.checkPreconditions s = .ok ()) :
    ∃ plugin, s.getPlugin hc.caller = some plugin ∧
      (∀ r ∈ hc.reads, plugin.memory.addrInBounds r.1 r.2 = true) ∧
      ∀ r ∈ hc.writes, plugin.memory.addrInBounds r.1 r.2 = true := by
  unfold HostCall.checkPreconditions at h
  cases hp : s.getPlugin hc.caller with
  | none =>
    rw [hp] at h
    cases h
  | some plugin =>
    cases hread : hc.findOobRead plugin with
    | some err => simp [hp, hread] at h
    | none =>
      cases hwrite : hc.findOobWrite plugin with
      | some err => simp [hp, hread, hwrite] at h
      | none =>
        refine ⟨plugin, rfl, ?_, ?_⟩
        · unfold HostCall.findOobRead at hread
          rw [List.findSome?_eq_none_iff] at hread
          simpa using hread
        · unfold HostCall.findOobWrite at hwrite
          rw [List.findSome?_eq_none_iff] at hwrite
          simpa using hwrite

theorem addrInBounds_toSpec {p : PluginState} {addr : MemAddr} {len : Size}
    (h : p.memory.addrInBounds addr len = true) : p.toSpec.memory.addrInBounds addr len :=
  ((p.memory.addrInBounds_iff addr len).mp h).2

theorem hostCallPre_toSpec {hc' : Spec.HostCall} (hlabel : hc.toSpec = some hc')
    (hsubj : auth.action.subject = hc.caller) (hreq : hc.requiredAction = .ok auth.action)
    (hpre : hc.checkPreconditions s = .ok ()) :
    (runtime hmac).hostcallAction hc' = some auth.action ∧
      Spec.hostCallPre (runtime hmac) hc' (s.toSpec g) := by
  have hparse : (runtime hmac).hostcallAction hc' = some auth.action := by
    show (hc'.toCode.bind fun hc => hc.requiredAction.toOption) = _
    rw [HostCall.toCode_toSpec hlabel]
    show hc.requiredAction.toOption = _
    rw [hreq]
    rfl
  obtain ⟨f', _, rfl⟩ := Option.map_eq_some_iff.mp hlabel
  obtain ⟨p, hp, hreads, hwrites⟩ := HostCall.checkPreconditions_ok hpre
  refine ⟨hparse, ⟨auth.action, hparse, hsubj⟩, fun r hmem => ?_, fun r hmem => ?_⟩
  · rw [State.toSpec_plugins s g hp]
    exact addrInBounds_toSpec (hreads r hmem)
  · rw [State.toSpec_plugins s g hp]
    exact addrInBounds_toSpec (hwrites r hmem)

end

/-! ## one host call -/

section
variable {hmac : Hmac} {p : Path} {s s' : State} {g : Spec.MetaState} {hc : HostCall}
  {res : HostResult}

/-- the entry that a call may use -/
theorem checkCapCall_ok (h : checkCapCall s hc = .ok ()) :
    ∃ k, k ∈ ((s.toSpec g).plugins hc.caller).heldCaps ∧
      s.kernel.revocation.isValid k = true := by
  unfold checkCapCall at h
  cases hp : s.getPlugin hc.caller with
  | none =>
    rw [hp] at h
    cases h
  | some plugin =>
    cases hany : plugin.heldCaps.any fun id => s.kernel.revocation.isValid id with
    | false =>
      simp only [hp, hany] at h
      cases h
    | true =>
      obtain ⟨k, hmem, hk⟩ := List.any_eq_true.mp hany
      rw [State.toSpec_plugins s g hp]
      exact ⟨k, List.mem_toFinset.mpr hmem, hk⟩

theorem checkCapSend_ok (h : checkCapSend s hc res = .ok ()) :
    ∀ m ∈ res.newMsgs, m.Sendable s hc.caller := by
  unfold checkCapSend at h
  split at h
  · cases h
  · exact checkMessages_ok h

/-- what the function does, the specification allows -/
theorem HostEffect.toSpec (hr : s.Ready) (hg : s.ghost.Consistent g)
    (hlive : ∀ addr, hc.function = .memFree → hc.firstArg .noAddress = .ok addr →
      s.ghost.isLive addr = true)
    (hret : hc.Returns res)
    (hroom : hc.function = .kernelAlloc → s.ghost.resourceCount < u64Size)
    (h : HostEffect p s hc res hc.function s') :
    ∃ hc' ls', hc.toSpec = some hc' ∧
      Spec.KernelExecHost (runtime hmac) hc' res (s.toSpec g) ls' ∧ Corresponds s' ls' := by
  unfold HostCall.Returns at hret
  unfold HostCall.toSpec
  generalize hf : hc.function = f at h hret hroom hlive ⊢
  cases h with
  | capCall hck =>
    obtain ⟨k, hheld, hk⟩ := checkCapCall_ok (g := g) hck
    obtain ⟨cap, hget, _⟩ := RevocationState.isValid_iff.mp hk
    refine ⟨_, s.toSpec g, rfl, ?_, hg, rfl⟩
    exact ⟨k, hheld, cap, hget, hr.table.standing hr.parents hk, rfl, hret⟩
  | capSend hck =>
    obtain ⟨msg, rfl⟩ := hret
    obtain ⟨hsrc, a, ha, hspace⟩ := checkCapSend_ok hck msg List.mem_cons_self
    refine ⟨_, s.toSpec g, rfl, ⟨msg, hsrc, ?_, rfl, rfl⟩, hg, rfl⟩
    rw [State.toSpec_actors s g ha]
    exact hspace
  | kernelAlloc hck =>
    obtain ⟨q, hq, _⟩ := (checkAlloc_ok_iff s hc).mp hck
    refine ⟨_, (s.toSpec g).applyAlloc hc.caller hc.firstOrZero, rfl, ⟨_, rfl, hret⟩, ?_, ?_⟩
    · exact hg.alloc (hroom rfl) hc.caller
    · -- the charge is not part of the view
      have hview := State.toSpec_updatePlugin (s.applyAlloc hc.caller hc.firstOrZero)
        (g.alloc g.resources.len hc.caller) (·.charge hc.firstOrZero) hq
      refine Eq.trans ?_ hview.symm
      have hself := State.toSpec_plugins (s.applyAlloc hc.caller hc.firstOrZero)
        (g.alloc g.resources.len hc.caller) hq
      show _ = Spec.State.withPlugin _ _ q.toSpec
      rw [← hself, Spec.State.withPlugin_self]
      rfl
  | memFree harg hck hfree =>
    rename_i addr m
    have hl := hlive addr rfl harg
    refine ⟨_, (s.toSpec g).applyFree addr, rfl, ⟨addr, ?_, ?_, rfl, hret⟩, ?_, rfl⟩
    · exact (hg.isLive_iff addr).mpr hl
    · intro k c hget hv htarget
      have hany := RevocationState.anyValidTargeting_of_get hget hv
      rw [htarget, ((checkFree_ok_iff s addr).mp hck).2] at hany
      cases hany
    · exact hr.ghost.consistent_frees hg hl hfree
  | capRevoke harg hck hrev =>
    rename_i c r
    have hc' := (checkRevoke_ok_iff s c).mp hck
    obtain rfl := hr.table.revokes_eq hc' hrev
    refine ⟨_, (s.toSpec g).withRevocation ((s.toSpec g).kernel.revocation.revokeTransitive c),
      rfl, ⟨c, hc', rfl, hret⟩, hg, ?_⟩
    rw [State.toSpec_withRevocation, RevocationState.toSpec_revokeTransitive]
    rfl
  | declassify hck =>
    rename_i l
    obtain ⟨_, q, hq, hle⟩ := (checkDeclassify_ok_iff s hc l).mp hck
    have hself := State.toSpec_plugins s g hq
    refine ⟨_, (s.toSpec g).withPlugin hc.caller
      { (s.toSpec g).plugins hc.caller with level := l }, rfl, ⟨l, ?_, rfl, hret⟩, hg, ?_⟩
    · rw [hself]
      exact hle
    · refine Eq.trans ?_ (State.toSpec_updatePlugin s g _ hq).symm
      rw [hself]
      rfl

end

/-! ## one step -/

/-- a step keeps what the specification takes for granted -/
theorem Effect.ready {p : Path} {s s' : State} {t : Step} (hr : s.Ready) (h : Effect p s t s') :
    s'.Ready := by
  cases h with
  | @compute pid pi hck =>
    obtain ⟨actors, e⟩ := pi.consume_frame s pid
    rw [e]
    exact ⟨hr.table, hr.parents, hr.ghost⟩
  | alloc => exact ⟨hr.table, hr.parents, (hr.ghost.alloc _).1⟩
  | free _ _ _ hg => exact ⟨hr.table, hr.parents, (hr.ghost.frees hg).1⟩
  | @revoke t c r _ _ hck hrev =>
    obtain rfl := hr.table.revokes_eq ((checkRevoke_ok_iff s c).mp hck) hrev
    exact ⟨hr.table.cutBy (RevocationState.cutBy_revokeTransitive _ c),
      hr.table.parentsValid_revoke hr.parents c, hr.ghost⟩
  | use | declassify | route | workflow | tick | unblock =>
    exact ⟨hr.table, hr.parents, hr.ghost⟩

section
variable {hmac : Hmac} {p : Path} {s s' : State} {g : Spec.MetaState}

/-- an operation of the kernel, with the label of the specification -/
theorem kernelOp_followed {op : KernelOp} (hg : s.ghost.Consistent g)
    (hf : (Step.kernelInternal op).Followed hmac s)
    (h : Effect p s (.kernelInternal op) s') :
    ∃ op' ls', op.toSpec = some op' ∧ Spec.KernelExecInternal op' (s.toSpec g) ls' ∧
      Corresponds s' ls' := by
  cases h with
  | @route dst hck =>
    obtain ⟨a, msg, rest, ha, hp, hroom⟩ := (checkRouteOne_ok_iff s dst).mp hck
    have hself := State.toSpec_actors s g ha
    refine ⟨_, _, rfl, ⟨msg, rest, ?_, ?_, rfl⟩, hg, ?_⟩
    · rw [hself]
      exact hp
    · rw [hself]
      exact hroom
    · rw [hself, ← deliverMut_of_room hp hroom]
      exact (State.toSpec_updateActor s g (fun a => a.deliverMut.2) ha).symm
  | @workflow wid hck =>
    obtain ⟨w, hw, _⟩ := checkWorkflowTick_ok hck
    refine ⟨_, s.toSpec g, rfl, ⟨w.toSpec, hf w hw, ?_⟩, hg, rfl⟩
    rw [← State.toSpec_workflows s g hw, Function.update_eq_self]
  | tick hlt => exact ⟨_, _, rfl, rfl, hg, rfl⟩
  | @unblock dst hck =>
    obtain ⟨a, ha⟩ := (checkUnblockSend_ok_iff s dst).mp hck
    refine ⟨_, _, rfl, rfl, hg, ?_⟩
    rw [State.toSpec_actors s g ha]
    exact (State.toSpec_updateActor s g ActorRuntime.unblockMut ha).symm
  | free _ ht _ _ => cases ht
  | revoke _ ht _ _ => cases ht

theorem compute_followed {pid : PluginId} {pi : PluginInternal}
    (hmail : pi.consumeMailbox = false) (hck : pi.checkAll s pid = .ok ()) :
    Spec.Step (runtime hmac) (s.toSpec g) (.pluginInternal pid pi) (s.toSpec g) := by
  obtain ⟨q, hadm, _⟩ := (pi.checkAll_ok_iff s pid).mp hck
  have hself := State.toSpec_plugins s g hadm.registered
  refine .pluginInternal ⟨?_, fun r hr => ?_, fun r hr => ?_, fun hc => ?_⟩
    ⟨((s.toSpec g).plugins pid).memory.bytes, (Spec.State.withPlugin_self _ pid).symm⟩
  · cases ha : s.getActor pid with
    | none =>
      show ((s.getActor pid).getD (.empty 0)).blockedOn = none
      rw [ha]
      rfl
    | some a =>
      rw [State.toSpec_actors s g ha]
      simpa [ActorRuntime.isBlocked] using hadm.notBlocked a ha
  · rw [hself]
    exact addrInBounds_toSpec (hadm.reads r hr)
  · rw [hself]
    exact addrInBounds_toSpec (hadm.writes r hr)
  · rw [hmail] at hc
    cases hc

/-- the specification takes the steps that are followed -/
theorem step_followed {t : Step} (hr : s.Ready) (hg : s.ghost.Consistent g)
    (hf : t.Followed hmac s) (h : Effect p s t s') :
    ∃ l ls', t.label = some l ∧ Spec.Step (runtime hmac) (s.toSpec g) l ls' ∧
      Corresponds s' ls' := by
  cases t with
  | pluginInternal pid pi =>
    cases h with
    | compute hck =>
      have hmail : pi.consumeMailbox = false := hf
      refine ⟨_, _, rfl, compute_followed hmail hck, ?_⟩
      have e : pi.consume s pid = s := by
        unfold PluginInternal.consume
        simp [hmail]
      rw [e]
      exact ⟨hg, rfl⟩
    | free _ ht _ _ => cases ht
    | revoke _ ht _ _ => cases ht
  | hostCall hc auth res =>
    obtain ⟨hseal, hret, hroom⟩ := hf
    obtain ⟨hgate, heff⟩ := h.hostCall
    obtain ⟨hsubj, hreq, good, hpre⟩ := (checkHostCall_ok_iff s hc auth).mp hgate
    have hrequired := HostCall.required hreq
    have hlive : ∀ addr, hc.function = .memFree → hc.firstArg .noAddress = .ok addr →
        s.ghost.isLive addr = true := by
      intro addr hfun harg
      have htarget : auth.action.target = addr := by
        generalize auth.action = a at hrequired
        cases hrequired with
        | memFree _ ha => exact Except.ok.inj (ha.symm.trans harg)
        | capCall hfun' | capSend hfun' | kernelAlloc hfun' | capRevoke hfun'
        | declassify hfun' =>
          rw [hfun] at hfun'
          cases hfun'
      have hl := good.live
      rwa [asU64_of_lt hrequired.target_lt, htarget] at hl
    have hspec : ∃ hc' ls', hc.toSpec = some hc' ∧
        Spec.KernelExecHost (runtime hmac) hc' res (s.toSpec g) ls' ∧ Corresponds s' ls' :=
      heff.toSpec hr hg hlive hret hroom
    obtain ⟨hc', ls', hlabel, hexec, hcorr⟩ := hspec
    have hpre' : (runtime hmac).hostcallAction hc' = some auth.action ∧
        Spec.hostCallPre (runtime hmac) hc' (s.toSpec g) :=
      hostCallPre_toSpec hlabel hsubj hreq hpre
    refine ⟨.hostCall hc' auth.action auth.cap auth.ctx res, ls', ?_, ?_, hcorr⟩
    · show hc.toSpec.map _ = _
      rw [hlabel]
      rfl
    · exact .hostCall (good.toSpec hr hg hrequired hseal) hpre'.1 hpre'.2 hexec
  | kernelInternal op =>
    obtain ⟨op', ls', hop, hexec, hcorr⟩ := kernelOp_followed hg hf h
    refine ⟨.kernelInternal op', ls', ?_, .kernelInternal hexec, hcorr⟩
    show op.toSpec.map _ = _
    rw [hop]
    rfl
  | memFree caller addr => exact hf.elim
  | capRevoke caller c => exact hf.elim

/-! ## no other step -/

/-- a message that is taken out of a mailbox is one that the specification leaves in -/
theorem compute_not_followed {pid : PluginId} {pi : PluginInternal} {ls' : Spec.State}
    (hstep : Spec.Step (runtime hmac) (s.toSpec g) (.pluginInternal pid pi) ls')
    (hcorr : Corresponds (pi.consume s pid) ls') : pi.consumeMailbox = false := by
  cases hstep with
  | pluginInternal pre exec =>
    obtain ⟨bytes, rfl⟩ := exec
    apply Bool.eq_false_iff.mpr
    intro hc
    have hmail : ((s.getActor pid).getD (.empty 0)).mailbox ≠ [] := pre.2.2.2 hc
    have hactor : (s.getActor pid).getD (.empty 0) =
        ((pi.consume s pid).getActor pid).getD (.empty 0) :=
      congrFun (congrArg Spec.State.actors hcorr.2) pid
    rw [consume_eq, if_pos hc, State.getActor_updateActor, if_pos rfl] at hactor
    cases ha : s.getActor pid with
    | none =>
      rw [ha] at hmail
      exact hmail rfl
    | some a =>
      rw [ha] at hmail hactor
      have htail : a.mailbox = a.mailbox.tail := congrArg ActorRuntime.mailbox hactor
      have hlen := congrArg List.length htail
      rw [List.length_tail] at hlen
      have hpos : 0 < a.mailbox.length := List.length_pos_iff.mpr hmail
      omega

/-- the result of a call is the one that the specification gives -/
theorem returns_of_exec {hc : HostCall} {hc' : Spec.HostCall} {res : HostResult}
    {ls ls' : Spec.State} (hlabel : hc.toSpec = some hc')
    (hexec : Spec.KernelExecHost (runtime hmac) hc' res ls ls') : hc.Returns res := by
  obtain ⟨f', hf, rfl⟩ := Option.map_eq_some_iff.mp hlabel
  unfold HostCall.Returns
  generalize hc.function = f at hf ⊢
  cases f with
  | capCall =>
    cases hf
    obtain ⟨_, _, _, _, _, _, hres⟩ := hexec
    exact hres
  | capSend =>
    cases hf
    obtain ⟨msg, _, _, _, hres⟩ := hexec
    exact ⟨msg, hres⟩
  | kernelAlloc =>
    cases hf
    obtain ⟨_, _, hres⟩ := hexec
    exact hres
  | memFree =>
    cases hf
    obtain ⟨_, _, _, _, hres⟩ := hexec
    exact hres
  | capRevoke =>
    cases hf
    obtain ⟨_, _, _, hres⟩ := hexec
    exact hres
  | declassify =>
    cases hf
    obtain ⟨_, _, _, hres⟩ := hexec
    exact hres
  | threadCreate | threadConfigure | threadResume | threadSuspend | threadDestroy => cases hf

/-- an allocation that reuses an address is not one of the specification -/
theorem room_of_exec {hc : HostCall} {hc' : Spec.HostCall} {auth : Authorized} {res : HostResult}
    {ls' : Spec.State} (hr : s.Ready) (hg : s.ghost.Consistent g) (hlabel : hc.toSpec = some hc')
    (heff : Effect p s (.hostCall hc auth res) s')
    (hexec : Spec.KernelExecHost (runtime hmac) hc' res (s.toSpec g) ls')
    (hcorr : Corresponds s' ls') (hf : hc.function = .kernelAlloc) :
    s.ghost.resourceCount < u64Size := by
  obtain ⟨f', hf', rfl⟩ := Option.map_eq_some_iff.mp hlabel
  have he := heff.hostCall.2
  rw [hf] at he hf'
  cases hf'
  obtain ⟨size, rfl, _⟩ := hexec
  cases he with
  | kernelAlloc _ =>
    by_contra hge
    exact hr.ghost.not_consistent_alloc (Nat.not_lt.mp hge) hg hc.caller hcorr.1

theorem followed_of_step {t : Step} {l : Spec.Label} {ls' : Spec.State} (hr : s.Ready)
    (hg : s.ghost.Consistent g) (heff : Effect p s t s') (hlabel : t.label = some l)
    (hstep : Spec.Step (runtime hmac) (s.toSpec g) l ls') (hcorr : Corresponds s' ls') :
    t.Followed hmac s := by
  cases t with
  | pluginInternal pid pi =>
    cases hlabel
    cases heff with
    | compute hck => exact compute_not_followed hstep hcorr
    | free _ ht _ _ => cases ht
    | revoke _ ht _ _ => cases ht
  | hostCall hc auth res =>
    obtain ⟨hc', hhc, rfl⟩ := Option.map_eq_some_iff.mp hlabel
    cases hstep with
    | hostCall hauth _ _ hexec =>
      exact ⟨of_decide_eq_true hauth.check.valid.1, returns_of_exec hhc hexec,
        room_of_exec hr hg hhc heff hexec hcorr⟩
  | kernelInternal op =>
    obtain ⟨op', hop, rfl⟩ := Option.map_eq_some_iff.mp hlabel
    cases op with
    | workflowTick wid =>
      cases hop
      intro w hw
      cases hstep with
      | kernelInternal hexec =>
        obtain ⟨wi, hwork, rfl⟩ := hexec
        have hs : s'.getWorkflow wid = some w := by
          cases heff with
          | workflow _ => exact hw
          | free _ ht _ _ => cases ht
          | revoke _ ht _ _ => cases ht
        have hview := congrFun (congrArg Spec.State.workflows hcorr.2) wid
        rw [State.toSpec_workflows s' _ hs] at hview
        have hself : wi = w.toSpec := by
          have hupd := Function.update_self wid wi (s.toSpec g).workflows
          exact hupd.symm.trans hview
        exact hself ▸ hwork
    | routeOne | timeTick | unblockSend | threadSwitch => trivial
  | memFree caller addr => cases hlabel
  | capRevoke caller c => cases hlabel

end

/-- **Main result**: from states in correspondence, where table and record are as documented, the
specification can answer a step of the code, by either path and under the label of the step, with a
step to a state in correspondence again, exactly if the step is one of those that are followed. -/
theorem followed_iff (hmac : Hmac) {s s' : State} {ls : Spec.State} {p : Path} {t : Step}
    (hr : s.Ready) (hcorr : Corresponds s ls) (h : Exec p t s s') :
    (∃ l ls', t.label = some l ∧ Spec.Step (runtime hmac) ls l ls' ∧ Corresponds s' ls') ↔
      t.Followed hmac s := by
  obtain ⟨hg, hview⟩ := hcorr
  rw [hview]
  constructor
  · intro ⟨l, ls', hlabel, hstep, hcorr'⟩
    exact followed_of_step hr hg h.effect hlabel hstep hcorr'
  · intro hf
    exact step_followed hr hg hf h.effect

/-! ## runs -/

/-- a step of the code that the specification follows, by either path -/
def FollowedExec (hmac : Hmac) (s : State) (a : Path × Step) (s' : State) : Prop :=
  Exec a.1 a.2 s s' ∧ a.2.Followed hmac s

theorem simulates (hmac : Hmac) : Simulates (FollowedExec hmac) (fun a => a.2.label)
    (Spec.Step (runtime hmac)) fun s ls => s.Ready ∧ Corresponds s ls := by
  intro s a s' ls hs hstep
  obtain ⟨hr, hg, hview⟩ := hs
  obtain ⟨hexec, hf⟩ := hstep
  obtain ⟨l, ls', hlabel, hspec, hcorr⟩ := step_followed hr hg hf hexec.effect
  rw [hview]
  exact ⟨l, ls', hlabel, hspec, hexec.effect.ready hr, hcorr⟩

/-- **Main result**: whatever calls set the kernel up, if each capability that comes in below
another has the larger id and a valid parent, the state has a counterpart in the specification; and
from there a run of steps that are all followed, by either path, is a run of the specification under
the labels of the steps, with correspondence at its end. -/
theorem run_followed (hmac : Hmac) (key : Key) (policy : PolicyState) (cs : List Call)
    (hok : Along (Call.exec hmac) KeepsReady (.initial key policy) cs) :
    let s := runCalls hmac (.initial key policy) cs
    (∃ ls, Corresponds s ls) ∧
      ∀ ls as s', Corresponds s ls → Steps (FollowedExec hmac) s as s' →
        ∃ labels ls', as.map (fun a => a.2.label) = labels.map some ∧
          Steps (Spec.Step (runtime hmac)) ls labels ls' ∧ Corresponds s' ls' := by
  intro s
  have hr : s.Ready := runCalls_ready hmac key policy cs hok
  refine ⟨⟨_, hr.corresponds⟩, fun ls as s' hcorr h => ?_⟩
  obtain ⟨labels, ls', hlabels, hsteps, _, hcorr'⟩ := (simulates hmac).steps h ⟨hr, hcorr⟩
  exact ⟨labels, ls', hlabels, hsteps, hcorr'⟩

/-- address 0, plugin 1, and a sealed root that lets it read the address -/
def sampleSetup : List Call :=
  [.alloc 1 8, .registerPlugin 1 .Public 8,
    .insertCapRaw { sampleRoot with signature := sampleRootMac .empty [] } 1]

theorem sampleSetup_ready :
    Along (Call.exec sampleRootMac) KeepsReady (.initial .empty .permitAll) sampleSetup :=
  And.intro trivial (And.intro trivial (And.intro (fun _ _ hp => nomatch hp) trivial))

/-- plugin 1 reads address 0 -/
def sampleReadStep : Step :=
  .hostCall ⟨1, .capCall, [0], [], []⟩
    ⟨{ sampleRoot with signature := sampleRootMac .empty [] },
      ⟨1, 0, .singleton .read, "cap_call"⟩, ⟨0, none⟩⟩ .empty

theorem followed_iff_sample :
    let s := runCalls sampleRootMac (.initial .empty .permitAll) sampleSetup
    ∃ l ls', sampleReadStep.label = some l ∧
      Spec.Step (runtime sampleRootMac) (s.toSpec s.ghost.toSpec) l ls' ∧ Corresponds s ls' := by
  intro s
  have hr : s.Ready := runCalls_ready _ _ _ _ sampleSetup_ready
  have hexec : Exec .inPlace sampleReadStep s s := by decide
  exact (followed_iff sampleRootMac hr hr.corresponds hexec).mpr ⟨by decide, rfl, nofun⟩

/-- plugin 3 reads address 0 with the child, and the clock ticks -/
def sampleSteps : List (Path × Step) :=
  [(.inPlace, .hostCall ⟨3, .capCall, [0], [], []⟩
      ⟨sampleChild, ⟨3, 0, .singleton .read, "cap_call"⟩, ⟨0, none⟩⟩ .empty),
    (.cloning, .kernelInternal .timeTick)]

theorem run_followed_sample :
    let s := runCalls sampleMac (.initial .empty .permitAll) sampleLineage
    s.getCap 1 = some sampleChild ∧ ∃ ls labels ls' s', Corresponds s ls ∧ s ≠ s' ∧
      Steps (FollowedExec sampleMac) s sampleSteps s' ∧
      sampleSteps.map (fun a => a.2.label) = labels.map some ∧
      Steps (Spec.Step (runtime sampleMac)) ls labels ls' ∧ Corresponds s' ls' := by
  intro s
  obtain ⟨⟨ls, hcorr⟩, hrun⟩ :=
    run_followed sampleMac .empty .permitAll sampleLineage sampleLineage_ready
  let s' := { s with kernel := { s.kernel with now := 1 } }
  have hread : FollowedExec sampleMac s sampleSteps[0] s := ⟨by decide, by decide, rfl, nofun⟩
  have htick : FollowedExec sampleMac s sampleSteps[1] s' := ⟨by decide, trivial⟩
  have hsteps : Steps (FollowedExec sampleMac) s sampleSteps s' :=
    .cons hread (.cons htick (.nil s'))
  obtain ⟨labels, ls', hlabels, hspec, hcorr'⟩ := hrun ls sampleSteps s' hcorr hsteps
  exact ⟨by decide, ls, labels, ls', s', hcorr, by decide, hsteps, hlabels, hspec, hcorr'⟩

end LionCore
