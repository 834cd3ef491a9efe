import LionCore.Step.Error

/-!
# Host calls

Every host function has a cloning and a mutating form.  The two forms make the same checks, which
stand here once (`checkCapCall`, `checkCapSend`, `checkAlloc`, `checkFree`, `checkRevoke`,
`checkDeclassify`).
-/

namespace LionCore
open Base

inductive HostFunction
  | capCall | capSend | kernelAlloc | memFree | capRevoke | declassify
  | threadCreate | threadConfigure | threadResume | threadSuspend | threadDestroy
  deriving DecidableEq, Repr

structure HostCall where
  caller : PluginId
  function : HostFunction
  args : List UInt64
  reads : List (MemAddr × Size)
  writes : List (MemAddr × Size)
  deriving DecidableEq

structure HostResult where
  newCaps : List Capability
  newMsgs : List Message
  deriving DecidableEq

def HostResult.empty : HostResult := ⟨[], []⟩

namespace HostCall

/-- the first argument, or the error for a missing one -/
def firstArg (hc : HostCall) (missing : HostCallPrecondition) : Except StepError Nat :=
  match hc.args.head? with
  | some a => .ok a.toNat
  | none => .error (.hostCallPreconditionFailed missing)

/-- the action of the caller on `target`; a bad kind is reported as a missing capability id -/
def action (hc : HostCall) (target : ResourceId) (right : Right) (kind : String) :
    Except StepError Action :=
  match Action.new hc.caller target (.singleton right) kind with
  | .ok a => .ok a
  | .error _ => .error (.hostCallPreconditionFailed .noCapabilityId)

/-- what has to be authorized for this call -/
def requiredAction (hc : HostCall) : Except StepError Action :=
  match hc.function with
  | .capCall => do
    let target ← hc.firstArg .noCapabilityId
    hc.action target .read "cap_call"
  | .kernelAlloc => hc.action 0 .create "kernel_alloc"
  | .memFree => do
    let addr ← hc.firstArg .noAddress
    hc.action addr .delete "mem_free"
  | .capRevoke => do
    let capId ← hc.firstArg .noCapabilityId
    hc.action capId .revoke "cap_revoke"
  | .declassify => hc.action 0 .declassify "declassify"
  | .capSend => hc.action 0 .send "cap_send"
  | _ => .error (.hostCallPreconditionFailed (.notImplemented "thread operations"))

def findOobRead (hc : HostCall) (plugin : PluginState) : Option StepError :=
  hc.reads.findSome? fun r =>
    if plugin.memory.addrInBounds r.1 r.2 then none
    else some (.hostCallPreconditionFailed (.readOutOfBounds r.1 r.2))

def findOobWrite (hc : HostCall) (plugin : PluginState) : Option StepError :=
  hc.writes.findSome? fun r =>
    if plugin.memory.addrInBounds r.1 r.2 then none
    else some (.hostCallPreconditionFailed (.writeOutOfBounds r.1 r.2))

def checkPreconditions (hc : HostCall) (s : State) : Except StepError Unit :=
  match s.getPlugin hc.caller with
  | none => .error (.pluginNotFound hc.caller)
  | some plugin =>
    match hc.findOobRead plugin with
    | some err => .error err
    | none =>
      match hc.findOobWrite plugin with
      | some err => .error err
      | none => .ok ()

end HostCall

/-! ## the checks of the host functions -/

/-- some held capability is valid -/
def checkCapCall (s : State) (hc : HostCall) : Except StepError Unit :=
  match s.getPlugin hc.caller with
  | none => .error (.pluginNotFound hc.caller)
  | some plugin =>
    if plugin.heldCaps.any fun id => s.kernel.revocation.isValid id then .ok ()
    else .error (.hostCallPreconditionFailed .noValidCapability)

/-- one message: it is the caller's own, and its destination has room -/
def checkMessage (s : State) (hc : HostCall) (msg : Message) : Except StepError Unit :=
  if msg.src ≠ hc.caller then .error (.hostCallPreconditionFailed .sourceMismatch)
  else match s.getActor msg.dst with
    | none => .error (.actorNotFound msg.dst)
    | some dstActor =>
      if dstActor.mailboxLen ≥ dstActor.capacity then
        .error (.hostCallPreconditionFailed .mailboxFull)
      else .ok ()

def checkMessages (s : State) (hc : HostCall) : List Message → Except StepError Unit
  | [] => .ok ()
  | msg :: rest => do
    checkMessage s hc msg
    checkMessages s hc rest

def checkCapSend (s : State) (hc : HostCall) (result : HostResult) : Except StepError Unit :=
  if result.newMsgs.isEmpty then .error (.hostCallPreconditionFailed .noMessage)
  else checkMessages s hc result.newMsgs

/-- the first argument; a missing one counts as zero -/
def HostCall.firstOrZero (hc : HostCall) : Nat := (hc.args.head?.getD 0).toNat

def checkAlloc (s : State) (hc : HostCall) : Except StepError Unit :=
  match s.getPlugin hc.caller with
  | none => .error (.pluginNotFound hc.caller)
  | some plugin =>
    if plugin.canAllocMemory hc.firstOrZero then .ok ()
    else .error (.quotaExceeded 0 hc.firstOrZero plugin.memoryUsed plugin.memoryQuota)

/-- not freed before, and no valid capability targets the address -/
def checkFree (s : State) (addr : MemAddr) : Except StepError Unit :=
  if s.ghost.isFreed addr then .error (.addressAlreadyFreed addr)
  else match s.kernel.revocation.findValidTargeting addr with
    | some (capId, _) => .error (.capabilityTargetsAddress capId addr)
    | none => .ok ()

def checkRevoke (s : State) (capId : CapId) : Except StepError Unit :=
  match s.kernel.revocation.get capId with
  | none => .error (.capabilityNotFound capId)
  | some _ => .ok ()

/-- the new level, which is not above the caller's -/
def checkDeclassify (s : State) (hc : HostCall) : Except StepError SecurityLevel :=
  match SecurityLevel.fromU8 hc.firstOrZero with
  | none => .error (.hostCallPreconditionFailed (.invalidSecurityLevel hc.firstOrZero))
  | some newLevel =>
    match s.getPlugin hc.caller with
    | none => .error (.pluginNotFound hc.caller)
    | some plugin =>
      if newLevel > plugin.level then .error (.hostCallPreconditionFailed .cannotClassifyUp)
      else .ok newLevel

/-! ## the cloning forms -/

/-- the allocation is charged to the plugin -/
def PluginState.charge (p : PluginState) (size : Nat) : PluginState :=
  { p with memoryUsed := saturatingAdd64 p.memoryUsed size }

def executeCapCall (s : State) (hc : HostCall) (_result : HostResult) : Except StepError State := do
  checkCapCall s hc
  return s

def executeCapSend (s : State) (hc : HostCall) (result : HostResult) : Except StepError State := do
  checkCapSend s hc result
  return s

def executeKernelAlloc (s : State) (hc : HostCall) : Except StepError State := do
  checkAlloc s hc
  return (s.applyAlloc hc.caller hc.firstOrZero).updatePlugin hc.caller (·.charge hc.firstOrZero)

/-- a failure of the free itself, as a host call reports it -/
def freeFailed (e : StateError) : StepError := .hostCallPreconditionFailed (.freeFailed e)

def executeMemFreeCall (s : State) (hc : HostCall) : Except StepError State := do
  let addr ← hc.firstArg .noAddress
  checkFree s addr
  (s.applyFree addr).mapError freeFailed

def executeCapRevokeCall (s : State) (hc : HostCall) : Except StepError State := do
  let capId ← hc.firstArg .noCapabilityId
  checkRevoke s capId
  return s.applyCapRevoke capId

def executeDeclassify (s : State) (hc : HostCall) : Except StepError State := do
  let newLevel ← checkDeclassify s hc
  return s.updatePlugin hc.caller fun p => { p with level := newLevel }

def threadOperation : StepError :=
  .hostCallPreconditionFailed (.notImplemented "thread operations")

def HostFunction.execute (f : HostFunction) (s : State) (hc : HostCall) (result : HostResult) :
    Except StepError State :=
  match f with
  | .capCall => executeCapCall s hc result
  | .capSend => executeCapSend s hc result
  | .kernelAlloc => executeKernelAlloc s hc
  | .memFree => executeMemFreeCall s hc
  | .capRevoke => executeCapRevokeCall s hc
  | .declassify => executeDeclassify s hc
  | .threadCreate | .threadConfigure | .threadResume | .threadSuspend | .threadDestroy =>
    .error threadOperation

/-! ## the mutating forms -/

def executeCapCallMut (s : State) (hc : HostCall) (_result : HostResult) :
    Except StepError Unit × State :=
  guardMut (checkCapCall s hc) s (.ok (), s)

def executeCapSendMut (s : State) (hc : HostCall) (result : HostResult) :
    Except StepError Unit × State :=
  guardMut (checkCapSend s hc result) s (.ok (), s)

def executeKernelAllocMut (s : State) (hc : HostCall) : Except StepError Unit × State :=
  guardMut (checkAlloc s hc) s
    (.ok (), (s.applyAllocMut hc.caller hc.firstOrZero).2.updatePlugin hc.caller
      (·.charge hc.firstOrZero))

/-- free in place; the error of the free is reported through `wrap` -/
def freeMut (s : State) (addr : MemAddr) (wrap : StateError → StepError) :
    Except StepError Unit × State :=
  guardMut (checkFree s addr) s
    (match s.applyFreeMut addr with
    | (res, s') => (res.mapError wrap, s'))

def executeMemFreeCallMut (s : State) (hc : HostCall) : Except StepError Unit × State :=
  match hc.firstArg .noAddress with
  | .error e => (.error e, s)
  | .ok addr => freeMut s addr freeFailed

/-- revoke in place; every error is reported as a missing capability -/
def revokeMut (s : State) (capId : CapId) : Except StepError Unit × State :=
  guardMut (checkRevoke s capId) s
    (match s.applyCapRevokeMut capId with
    | (res, s') => (res.mapError fun _ => .capabilityNotFound capId, s'))

def executeCapRevokeCallMut (s : State) (hc : HostCall) : Except StepError Unit × State :=
  match hc.firstArg .noCapabilityId with
  | .error e => (.error e, s)
  | .ok capId => revokeMut s capId

def executeDeclassifyMut (s : State) (hc : HostCall) : Except StepError Unit × State :=
  match checkDeclassify s hc with
  | .error e => (.error e, s)
  | .ok newLevel => (.ok (), s.updatePlugin hc.caller fun p => { p with level := newLevel })

def HostFunction.executeMut (f : HostFunction) (s : State) (hc : HostCall)
    (result : HostResult) : Except StepError Unit × State :=
  match f with
  | .capCall => executeCapCallMut s hc result
  | .capSend => executeCapSendMut s hc result
  | .kernelAlloc => executeKernelAllocMut s hc
  | .memFree => executeMemFreeCallMut s hc
  | .capRevoke => executeCapRevokeCallMut s hc
  | .declassify => executeDeclassifyMut s hc
  | .threadCreate | .threadConfigure | .threadResume | .threadSuspend | .threadDestroy =>
    (.error threadOperation, s)

end LionCore
