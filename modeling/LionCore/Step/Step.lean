import LionCore.Step.HostCall
import LionCore.Step.KernelOp
import LionCore.Step.PluginInternal

/-!
# Steps, executed on a clone or in place
-/

namespace LionCore
open Base

inductive Step
  | pluginInternal (pid : PluginId) (pi : PluginInternal)
  | hostCall (hc : HostCall) (auth : Authorized) (result : HostResult)
  | kernelInternal (op : KernelOp)
  | memFree (caller : PluginId) (addr : MemAddr)
  | capRevoke (caller : PluginId) (capId : CapId)
  deriving DecidableEq

/-- the checks before a host function runs: the token is the caller's, it is for the action that
the call requires, it is valid NOW, and the regions are in bounds -/
def checkHostCall (s : State) (hc : HostCall) (auth : Authorized) : Except StepError Unit :=
  if auth.action.subject ≠ hc.caller then
    .error (.authorizationFailed (.holderMismatch auth.action.subject hc.caller))
  else do
    let derived ← hc.requiredAction
    if derived ≠ auth.action then
      .error (.invalidTransition
        (.incompatibleStates "authorized host call" "mismatched host call"))
    else do
      (auth.validate s).mapError .authorizationFailed
      hc.checkPreconditions s

def executeHostCall (s : State) (hc : HostCall) (auth : Authorized) (result : HostResult) :
    Except StepError State := do
  checkHostCall s hc auth
  hc.function.execute s hc result

def executeHostCallMut (s : State) (hc : HostCall) (auth : Authorized) (result : HostResult) :
    Except StepError Unit × State :=
  guardMut (checkHostCall s hc auth) s (hc.function.executeMut s hc result)

/-- the direct free: no token is asked for -/
def executeMemFree (s : State) (addr : MemAddr) : Except StepError State := do
  checkFree s addr
  (s.applyFree addr).mapError .stateError

def executeMemFreeMut (s : State) (addr : MemAddr) : Except StepError Unit × State :=
  freeMut s addr .stateError

/-- the direct revocation: no token is asked for -/
def executeCapRevoke (s : State) (capId : CapId) : Except StepError State := do
  checkRevoke s capId
  return s.applyCapRevoke capId

def executeCapRevokeMut (s : State) (capId : CapId) : Except StepError Unit × State :=
  revokeMut s capId

namespace Step

/-- a host call with a token for the table's own copy of a capability -/
def hostCallAtomic (s : State) (hc : HostCall) (capId : CapId) (ctx : PolicyContext)
    (result : HostResult) : Except StepError Step :=
  match s.getCap capId with
  | none => .error (.capabilityNotFound capId)
  | some cap => do
    let action ← hc.requiredAction
    if cap.holder ≠ hc.caller then
      .error (.authorizationFailed (.holderMismatch hc.caller cap.holder))
    else do
      let auth ← (Authorized.validateAtomic s cap action ctx).mapError .authorizationFailed
      return .hostCall hc auth result

def subject : Step → Option PluginId
  | .pluginInternal pid _ => some pid
  | .hostCall hc _ _ => some hc.caller
  | .kernelInternal _ => none
  | .memFree caller _ => some caller
  | .capRevoke caller _ => some caller

def level (t : Step) (s : State) : SecurityLevel :=
  match t.subject with
  | some pid => (s.pluginLevel pid).getD .Public
  | none => .Secret

def isDeclassify : Step → Bool
  | .hostCall hc _ _ => decide (hc.function = .declassify)
  | _ => false

def execute (t : Step) (s : State) : Except StepError State :=
  match t with
  | .pluginInternal pid pi => executePluginInternal s pid pi
  | .hostCall hc auth result => executeHostCall s hc auth result
  | .kernelInternal op => op.execute s
  | .memFree _ addr => LionCore.executeMemFree s addr
  | .capRevoke _ capId => LionCore.executeCapRevoke s capId

def executeMut (t : Step) (s : State) : Except StepError Unit × State :=
  match t with
  | .pluginInternal pid pi => executePluginInternalMut s pid pi
  | .hostCall hc auth result => executeHostCallMut s hc auth result
  | .kernelInternal op => op.executeMut s
  | .memFree _ addr => LionCore.executeMemFreeMut s addr
  | .capRevoke _ capId => LionCore.executeCapRevokeMut s capId

end Step
end LionCore
