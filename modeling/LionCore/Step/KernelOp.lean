import LionCore.Step.Error

/-!
# Operations of the kernel itself
-/

namespace LionCore
open Base

inductive KernelOp
  | routeOne (dst : ActorId)
  | workflowTick (wid : WorkflowId)
  | timeTick
  | unblockSend (dst : ActorId)
  | threadSwitch (src dst : ThreadId)
  deriving DecidableEq, Repr

/-! ## the checks -/

def checkRouteOne (s : State) (dst : ActorId) : Except StepError Unit :=
  match s.getActor dst with
  | none => .error (.actorNotFound dst)
  | some actor =>
    if actor.pendingLen = 0 then .error (.kernelOpFailed (.noPendingMessages dst))
    else if actor.mailboxLen ≥ actor.capacity then
      .error (.kernelOpFailed (.mailboxAtCapacity dst))
    else .ok ()

def checkWorkflowTick (s : State) (wid : WorkflowId) : Except StepError Unit :=
  match s.getWorkflow wid with
  | none => .error (.kernelOpFailed (.workflowNotFound wid))
  | some workflow =>
    if !workflow.isRunning then .error (.kernelOpFailed (.workflowNotRunning wid)) else .ok ()

def checkUnblockSend (s : State) (dst : ActorId) : Except StepError Unit :=
  match s.getActor dst with
  | none => .error (.actorNotFound dst)
  | some _ => .ok ()

/-- a clock that cannot advance, as a kernel operation reports it -/
def tickFailed (e : StateError) : StepError := .kernelOpFailed (.counterOverflow e.toText)

def threadSwitchError : StepError := .kernelOpFailed (.notImplemented "thread_switch")

/-! ## the cloning forms -/

def executeRouteOne (s : State) (dst : ActorId) : Except StepError State := do
  checkRouteOne s dst
  return s.updateActor dst fun a => a.deliverMut.2

/-- an abstract tick: only the preconditions are checked -/
def executeWorkflowTick (s : State) (wid : WorkflowId) : Except StepError State := do
  checkWorkflowTick s wid
  return s

def executeTimeTick (s : State) : Except StepError State :=
  match s.tick with
  | (.ok (), s') => .ok s'
  | (.error e, _) => .error (tickFailed e)

def executeUnblockSend (s : State) (dst : ActorId) : Except StepError State := do
  checkUnblockSend s dst
  return s.updateActor dst ActorRuntime.unblockMut

def executeThreadSwitch (_s : State) (_src _dst : ThreadId) : Except StepError State :=
  .error threadSwitchError

def KernelOp.execute (op : KernelOp) (s : State) : Except StepError State :=
  match op with
  | .routeOne dst => executeRouteOne s dst
  | .workflowTick wid => executeWorkflowTick s wid
  | .timeTick => executeTimeTick s
  | .unblockSend dst => executeUnblockSend s dst
  | .threadSwitch src dst => executeThreadSwitch s src dst

/-! ## the mutating forms -/

def executeRouteOneMut (s : State) (dst : ActorId) : Except StepError Unit × State :=
  guardMut (checkRouteOne s dst) s (.ok (), s.updateActor dst fun a => a.deliverMut.2)

def executeWorkflowTickMut (s : State) (wid : WorkflowId) : Except StepError Unit × State :=
  guardMut (checkWorkflowTick s wid) s (.ok (), s)

def executeTimeTickMut (s : State) : Except StepError Unit × State :=
  match s.tick with
  | (res, s') => (res.mapError tickFailed, s')

def executeUnblockSendMut (s : State) (dst : ActorId) : Except StepError Unit × State :=
  guardMut (checkUnblockSend s dst) s (.ok (), s.updateActor dst ActorRuntime.unblockMut)

def executeThreadSwitchMut (s : State) (_src _dst : ThreadId) : Except StepError Unit × State :=
  (.error threadSwitchError, s)

def KernelOp.executeMut (op : KernelOp) (s : State) : Except StepError Unit × State :=
  match op with
  | .routeOne dst => executeRouteOneMut s dst
  | .workflowTick wid => executeWorkflowTickMut s wid
  | .timeTick => executeTimeTickMut s
  | .unblockSend dst => executeUnblockSendMut s dst
  | .threadSwitch src dst => executeThreadSwitchMut s src dst

end LionCore
