import LionCore.Base.Run
import LionCore.Step.Step

/-!
# The kernel's public operations, and runs of them

`Kernel` wraps one `State`, and its operations are modelled on that state.  A call that fails may
leave a changed state behind, so a run follows the state that is left (`Call.exec`).
-/

namespace LionCore
open Base

inductive Error
  | capability (e : CapabilityError)
  | policy (e : PolicyError)
  | step (e : StepError)
  | state (e : StateError)
  | kernel (e : KernelError)
  deriving DecidableEq, Repr

/-- what a call gives back: a value, an error, or no return at all -/
inductive Outcome (R : Type)
  | ok (r : R)
  | err (e : Error)
  | panic
  deriving DecidableEq

namespace Kernel

def new : State := State.empty

def tick (s : State) : Except Error Unit × State :=
  match s.tick with
  | (res, s') => (res.mapError .state, s')

/-- on success the new state takes the place of the old one -/
def execute (s : State) (t : Step) : Except Error Unit × State :=
  match t.execute s with
  | .ok s' => (.ok (), s')
  | .error e => (.error (.step e), s)

def executeMut (s : State) (t : Step) : Except Error Unit × State :=
  match t.executeMut s with
  | (res, s') => (res.mapError .step, s')

def registerPlugin (s : State) (id : PluginId) (level : SecurityLevel) (memSize : Size) :
    Except Error Unit × State :=
  match s.insertPlugin id (.empty level memSize) with
  | (res, s') => (res.mapError .state, s')

/-- put the new child into the table and hand its id to `target` -/
def insertCapRaw (s : State) (cap : Capability) (target : PluginId) : Except Error Unit × State :=
  match s.applyCapDelegateMut cap target with
  | (res, s') => (res.mapError .kernel, s')

/-- the child that a delegation mints; `none` is a panic -/
def mintChild (hmac : Hmac) (s : State) (id : CapId) (target : PluginId) (parent : Capability)
    (parentId : CapId) (rights : Rights) : Option (Except CapabilityError Capability) :=
  let epoch := s.kernel.keyState.epoch
  let payload : CapPayload := ⟨target, parent.target, rights, some parentId, epoch⟩
  (sealPayload hmac s.kernel.keyState.current payload).map fun sig =>
    Capability.new id target parent.target rights (some parentId) epoch sig

/-- the id is taken from the counter before the seal is computed and the child is checked -/
def delegateCap (hmac : Hmac) (s : State) (parentId : CapId) (target : PluginId)
    (requestedRights : Rights) : Outcome CapId × State :=
  match s.getCap parentId with
  | none => (.err (.kernel (.capNotFound parentId)), s)
  | some parent =>
    if !parent.valid then (.err (.capability .revoked), s)
    else
      let childRights := requestedRights.intersection parent.rights
      if childRights.isEmpty then (.err (.capability .emptyRights), s)
      else match s.kernel.allocCapId with
        | (.error e, k) => (.err (.kernel e), { s with kernel := k })
        | (.ok id, k) =>
          let s₁ := { s with kernel := k }
          match mintChild hmac s₁ id target parent parentId childRights with
          | none => (.panic, s₁)
          | some (.error e) => (.err (.capability e), s₁)
          | some (.ok child) =>
            match s₁.applyCapDelegateMut child target with
            | (.error e, s₂) => (.err (.kernel e), s₂)
            | (.ok (), s₂) => (.ok id, s₂)

def revokeCap (s : State) (capId : CapId) : Except Error Unit × State :=
  match s.applyCapRevokeMut capId with
  | (res, s') => (res.mapError .kernel, s')

def alloc (s : State) (owner : PluginId) (size : Size) : MemAddr × State :=
  s.applyAllocMut owner size

def free (s : State) (addr : MemAddr) : Except Error Unit × State :=
  match s.applyFreeMut addr with
  | (res, s') => (res.mapError .state, s')

end Kernel

/-! ## calls -/

/-- one call of a public operation; plugins, actors, resources and workflows can also be inserted
as they are -/
inductive Call
  | registerPlugin (id : PluginId) (level : SecurityLevel) (memSize : Size)
  | insertPlugin (id : PluginId) (ps : PluginState)
  | insertActor (id : ActorId) (ar : ActorRuntime)
  | insertResource (id : ResourceId) (ri : ResourceInfo)
  | insertWorkflow (id : WorkflowId) (wi : WorkflowInstance)
  | insertCapRaw (cap : Capability) (target : PluginId)
  | delegateCap (parentId : CapId) (target : PluginId) (requestedRights : Rights)
  | revokeCap (capId : CapId)
  | alloc (owner : PluginId) (size : Size)
  | free (addr : MemAddr)
  | tick
  | execute (t : Step)
  | executeMut (t : Step)
  deriving DecidableEq

/-- the state that a call leaves, whatever it gives back -/
def Call.exec (hmac : Hmac) (s : State) : Call → State
  | .registerPlugin id level memSize => (Kernel.registerPlugin s id level memSize).2
  | .insertPlugin id ps => (s.insertPlugin id ps).2
  | .insertActor id ar => (s.insertActor id ar).2
  | .insertResource id ri => (s.insertResource id ri).2
  | .insertWorkflow id wi => (s.insertWorkflow id wi).2
  | .insertCapRaw cap target => (Kernel.insertCapRaw s cap target).2
  | .delegateCap parentId target rights => (Kernel.delegateCap hmac s parentId target rights).2
  | .revokeCap capId => (Kernel.revokeCap s capId).2
  | .alloc owner size => (Kernel.alloc s owner size).2
  | .free addr => (Kernel.free s addr).2
  | .tick => (Kernel.tick s).2
  | .execute t => (Kernel.execute s t).2
  | .executeMut t => (Kernel.executeMut s t).2

/-- the state after a list of calls -/
def runCalls (hmac : Hmac) (s : State) (cs : List Call) : State := run (Call.exec hmac) s cs

/-- the states that calls reach from a new kernel -/
def Reachable (hmac : Hmac) (s : State) : Prop := ∃ cs, s = runCalls hmac Kernel.new cs

end LionCore
