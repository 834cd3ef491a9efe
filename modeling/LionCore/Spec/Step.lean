import LionCore.Spec.State
import LionCore.Step.HostCall
import LionCore.Step.PluginInternal

/-!
# The specification's steps

A step is a computation in a sandbox, a host call with a witness of its authorization, or an
operation of the kernel.  The witness carries a proof for every check.

* `Runtime`            what the specification leaves open: seals, and the action of a host call;
* `Authorized`         the witness;
* `KernelExecHost`     what each host function may do;
* `Step`               the transitions, by their labels.
-/

namespace LionCore.Spec
open Base

/-! ## labels -/

inductive HostFunctionId
  | capInvoke | capDelegate | capAccept | capRevoke | memAlloc | memFree | ipcSend | ipcReceive
  | resourceCreate | resourceAccess | workflowStart | workflowStep | declassify
  deriving DecidableEq, Repr

structure HostCall where
  caller : PluginId
  function : HostFunctionId
  args : List Nat
  reads : List (MemAddr × Size)
  writes : List (MemAddr × Size)

inductive KernelOp
  | routeOne (dst : ActorId)
  | workflowTick (w : WorkflowId)
  | timeTick
  | unblockSend (dst : ActorId)

inductive Label
  | pluginInternal (pid : PluginId) (pi : PluginInternal)
  | hostCall (hc : HostCall) (a : Action) (cap : Capability) (ctx : PolicyContext)
      (hr : HostResult)
  | kernelInternal (op : KernelOp)

/-- what the specification leaves open -/
structure Runtime where
  hostcallAction : HostCall → Option Action
  sealPayload : Key → CapPayload → SealedTag
  verifySeal : Key → CapPayload → SealedTag → Bool

/-! ## computations -/

namespace State

def withRevocation (s : State) (r : RevocationState) : State :=
  { s with kernel := { s.kernel with revocation := r } }

def withPlugin (s : State) (pid : PluginId) (p : PluginState) : State :=
  { s with plugins := Function.update s.plugins pid p }

def withActor (s : State) (aid : ActorId) (a : ActorRuntime) : State :=
  { s with actors := Function.update s.actors aid a }

end State

def pluginInternalPre (pid : PluginId) (pi : PluginInternal) (s : State) : Prop :=
  (s.actors pid).blockedOn = none ∧
    (∀ r ∈ pi.reads, (s.plugins pid).memory.addrInBounds r.1 r.2) ∧
    (∀ w ∈ pi.writes, (s.plugins pid).memory.addrInBounds w.1 w.2) ∧
    (pi.consumeMailbox = true → (s.actors pid).mailbox ≠ [])

/-- the bytes of the plugin's own memory may change, and nothing else -/
def PluginExecInternal (pid : PluginId) (s s' : State) : Prop :=
  ∃ bytes, s' = s.withPlugin pid { s.plugins pid with
    memory := ⟨bytes, (s.plugins pid).memory.bounds⟩ }

/-! ## authorization -/

section
variable (rt : Runtime)

def capIsValid (s : State) (c : Capability) : Prop :=
  rt.verifySeal s.kernel.hmacKey c.payload c.signature = true ∧
    s.kernel.revocation.isValid c.id = true

structure CapabilityCheck (s : State) (a : Action) (cap : Capability) : Prop where
  holder : cap.holder = a.subject
  target : cap.target = a.target
  rights : a.rights.isSubsetOf cap.rights = true
  valid : capIsValid rt s cap
  held : cap.id ∈ (s.plugins a.subject).heldCaps

/-- the witness of an authorization by `cap` -/
structure Authorized (s : State) (a : Action) (cap : Capability) (ctx : PolicyContext) :
    Prop where
  check : CapabilityCheck rt s a cap
  policy : policyCheck s.kernel.policy a ctx = .permit
  valid : RevocationState.IsValid s.kernel.revocation.caps cap.id
  live : ∀ r, a.target = r → s.ghost.isLive r
  conf : a.rights.isSubsetOf cap.rights = true
  biba : s.bibaWriteOk a

/-! ## host calls -/

def hostCallPre (hc : HostCall) (s : State) : Prop :=
  (∃ a, rt.hostcallAction hc = some a ∧ a.subject = hc.caller) ∧
    (∀ r ∈ hc.reads, (s.plugins hc.caller).memory.addrInBounds r.1 r.2) ∧
    ∀ w ∈ hc.writes, (s.plugins hc.caller).memory.addrInBounds w.1 w.2

/-- a delegated capability starts invalid, until it is accepted -/
def createDelegatedCap (s : State) (parent : Capability) (holder : PluginId) (newRights : Rights)
    (newId : CapId) : Capability :=
  let payload : CapPayload := ⟨holder, parent.target, newRights.intersection parent.rights,
    some parent.id, s.kernel.revocation.epoch⟩
  ⟨newId, payload.holder, payload.target, payload.rights, payload.parent, payload.epoch, false,
    rt.sealPayload s.kernel.hmacKey payload⟩

end

/-- what the function of a host call may do -/
def KernelExecHost (rt : Runtime) (hc : HostCall) (hr : HostResult) (s s' : State) : Prop :=
  match hc.function with
  | .capInvoke => ∃ capId ∈ (s.plugins hc.caller).heldCaps, ∃ cap,
      s.kernel.revocation.caps capId = some cap ∧
      RevocationState.IsValid s.kernel.revocation.caps capId ∧ s' = s ∧ hr = ⟨[], []⟩
  | .capDelegate => ∃ parentId ∈ (s.plugins hc.caller).heldCaps,
      ∃ parent delegatee newRights newId,
        s.kernel.revocation.caps parentId = some parent ∧
        RevocationState.IsValid s.kernel.revocation.caps parentId ∧
        s.kernel.revocation.caps newId = none ∧ parentId < newId ∧
        s' = s.withRevocation (s.kernel.revocation.insert
          (createDelegatedCap rt s parent delegatee newRights newId)) ∧
        hr = ⟨[createDelegatedCap rt s parent delegatee newRights newId], []⟩
  | .capAccept => ∃ capId cap, s.kernel.revocation.caps capId = some cap ∧ cap.valid = false ∧
      cap.holder = hc.caller ∧
      (∀ p, cap.parent = some p → RevocationState.IsValid s.kernel.revocation.caps p) ∧
      (∀ act ctx, cap.holder = act.subject → cap.target = act.target →
        act.rights.isSubsetOf cap.rights = true →
        policyCheck s.kernel.policy act ctx = .permit) ∧
      s.ghost.isLive cap.target ∧
      s' = (s.withRevocation { s.kernel.revocation with
        caps := Function.update s.kernel.revocation.caps capId
          (some { cap with valid := true }) }).withPlugin hc.caller
        ((s.plugins hc.caller).grantCap capId) ∧
      hr = ⟨[], []⟩
  | .capRevoke => ∃ capId, s.kernel.revocation.caps capId ≠ none ∧
      s' = s.withRevocation (s.kernel.revocation.revokeTransitive capId) ∧ hr = ⟨[], []⟩
  | .memAlloc => ∃ size, s' = s.applyAlloc hc.caller size ∧ hr = ⟨[], []⟩
  | .memFree => ∃ addr, s.ghost.isLive addr ∧
      (∀ k c, s.kernel.revocation.caps k = some c → c.valid = true → c.target ≠ addr) ∧
      s' = s.applyFree addr ∧ hr = ⟨[], []⟩
  | .ipcSend => ∃ msg : Message, msg.src = hc.caller ∧
      (s.actors msg.dst).mailbox.length < (s.actors msg.dst).capacity ∧ s' = s ∧ hr = ⟨[], [msg]⟩
  | .ipcReceive =>
      if (s.actors hc.caller).mailbox.isEmpty then
        s' = s.withActor hc.caller ((s.actors hc.caller).setBlocked hc.caller) ∧ hr = ⟨[], []⟩
      else s' = s.withActor hc.caller (s.actors hc.caller).consume.1 ∧ hr = ⟨[], []⟩
  | .resourceCreate | .resourceAccess | .workflowStart | .workflowStep => s' = s ∧ hr = ⟨[], []⟩
  | .declassify => ∃ newLevel ≤ (s.plugins hc.caller).level,
      s' = s.withPlugin hc.caller { s.plugins hc.caller with level := newLevel } ∧ hr = ⟨[], []⟩

/-! ## operations of the kernel -/

/-- a running workflow has a node that waits or is active -/
def WorkflowHasWork (wi : WorkflowInstance) : Prop :=
  wi.status = .running → wi.pendingCount > 0 ∨ wi.activeCount > 0

def KernelExecInternal (op : KernelOp) (s s' : State) : Prop :=
  match op with
  | .routeOne dst => ∃ msg rest, (s.actors dst).pending = msg :: rest ∧
      (s.actors dst).mailbox.length < (s.actors dst).capacity ∧
      s' = s.withActor dst { s.actors dst with
        pending := rest
        mailbox := (s.actors dst).mailbox ++ [msg] }
  | .timeTick => s' = { s with time := s.time + 1 }
  | .workflowTick wid => ∃ wi, WorkflowHasWork wi ∧
      s' = { s with workflows := Function.update s.workflows wid wi }
  | .unblockSend dst => s' = s.withActor dst { s.actors dst with blockedOn := none }

/-! ## steps -/

inductive Step (rt : Runtime) : State → Label → State → Prop
  | pluginInternal {s s' : State} {pid : PluginId} {pi : PluginInternal}
      (pre : pluginInternalPre pid pi s) (exec : PluginExecInternal pid s s') :
      Step rt s (.pluginInternal pid pi) s'
  | hostCall {s s' : State} {hc : HostCall} {a : Action} {cap : Capability} {ctx : PolicyContext}
      {hr : HostResult} (auth : Authorized rt s a cap ctx) (parse : rt.hostcallAction hc = some a)
      (pre : hostCallPre rt hc s) (exec : KernelExecHost rt hc hr s s') :
      Step rt s (.hostCall hc a cap ctx hr) s'
  | kernelInternal {s s' : State} {op : KernelOp} (exec : KernelExecInternal op s s') :
      Step rt s (.kernelInternal op) s'

end LionCore.Spec
