import LionCore.State.Kernel
import LionCore.State.Plugin
import LionCore.State.Actor
import LionCore.State.Workflow

/-!
# The whole state and its operations

Operations on `&self` give back a new state; operations on `&mut self` give back the result and
the state they leave behind, also when they fail.
-/

namespace LionCore
open Base

inductive StateError
  | pluginNotFound (id : PluginId)
  | actorNotFound (id : ActorId)
  | resourceNotFound (id : ResourceId)
  | workflowNotFound (id : WorkflowId)
  | capabilityNotFound (id : CapId)
  | capabilityNotHeld (pid : PluginId) (cid : CapId)
  | isolationViolation (active affected : PluginId)
  | danglingCapability (addr : MemAddr)
  | pluginExists (id : PluginId)
  | actorExists (id : ActorId)
  | resourceExists (id : ResourceId)
  | workflowExists (id : WorkflowId)
  | counterOverflow (name : String)
  deriving DecidableEq, Repr

/-- the text of an error -/
def StateError.toText : StateError → String
  | .pluginNotFound id => s!"plugin {id} not found"
  | .actorNotFound id => s!"actor {id} not found"
  | .resourceNotFound id => s!"resource {id} not found"
  | .workflowNotFound id => s!"workflow {id} not found"
  | .capabilityNotFound id => s!"capability {id} not found"
  | .capabilityNotHeld pid cid => s!"plugin {pid} does not hold capability {cid}"
  | .isolationViolation active affected => s!"isolation violation: {active} affects {affected}"
  | .danglingCapability addr => s!"freeing address {addr} would create dangling capability"
  | .pluginExists id => s!"plugin {id} already exists"
  | .actorExists id => s!"actor {id} already exists"
  | .resourceExists id => s!"resource {id} already exists"
  | .workflowExists id => s!"workflow {id} already exists"
  | .counterOverflow name => s!"{name} counter overflow"

structure ResourceInfo where
  level : SecurityLevel
  deriving DecidableEq, Repr

structure State where
  kernel : KernelState
  plugins : Table PluginId PluginState
  actors : Table ActorId ActorRuntime
  resources : Table ResourceId ResourceInfo
  workflows : Table WorkflowId WorkflowInstance
  ghost : MetaState
  deriving DecidableEq

namespace State

def empty : State := ⟨.default, [], [], [], [], .empty⟩

/-- empty, with a key and a policy -/
def initial (key : Key) (policy : PolicyState) : State :=
  { empty with kernel := .initial key policy }

/-! ## reading -/

def getPlugin (s : State) (pid : PluginId) : Option PluginState := s.plugins.find pid

def getActor (s : State) (aid : ActorId) : Option ActorRuntime := s.actors.find aid

def getResource (s : State) (rid : ResourceId) : Option ResourceInfo := s.resources.find rid

def getWorkflow (s : State) (wid : WorkflowId) : Option WorkflowInstance := s.workflows.find wid

def pluginLevel (s : State) (pid : PluginId) : Option SecurityLevel :=
  (s.getPlugin pid).map PluginState.level

def getCap (s : State) (capId : CapId) : Option Capability := s.kernel.revocation.get capId

def capIsValid (s : State) (capId : CapId) : Bool := s.kernel.revocation.isValid capId

def pluginHolds (s : State) (pid : PluginId) (capId : CapId) : Bool :=
  match s.getPlugin pid with
  | some p => p.holdsCap capId
  | none => false

/-! ## the parts that operations replace -/

/-- `get_plugin_mut` followed by a change of the plugin -/
def updatePlugin (s : State) (pid : PluginId) (f : PluginState → PluginState) : State :=
  { s with plugins := s.plugins.modify pid f }

/-- `get_actor_mut` followed by a change of the actor -/
def updateActor (s : State) (aid : ActorId) (f : ActorRuntime → ActorRuntime) : State :=
  { s with actors := s.actors.modify aid f }

def withRevocation (s : State) (r : RevocationState) : State :=
  { s with kernel := { s.kernel with revocation := r } }

def withGhost (s : State) (g : MetaState) : State := { s with ghost := g }

/-! ## memory -/

def applyAlloc (s : State) (owner : PluginId) (_size : Size) : State :=
  s.withGhost (s.ghost.alloc (asU64 s.ghost.resourceCount) owner)

def applyAllocMut (s : State) (owner : PluginId) (_size : Size) : MemAddr × State :=
  let addr := asU64 s.ghost.resourceCount
  (addr, s.withGhost (s.ghost.allocMut addr owner))

def applyFree (s : State) (addr : MemAddr) : Except StateError State :=
  if s.kernel.revocation.anyValidTargeting addr then .error (.danglingCapability addr)
  else .ok (s.withGhost (s.ghost.free addr))

def applyFreeMut (s : State) (addr : MemAddr) : Except StateError Unit × State :=
  if s.kernel.revocation.anyValidTargeting addr then (.error (.danglingCapability addr), s)
  else match s.ghost.freeMut addr with
    | (.ok (), g) => (.ok (), s.withGhost g)
    | (.error _, g) => (.error (.resourceNotFound addr), s.withGhost g)

/-! ## capabilities -/

def applyRevoke (s : State) (capId : CapId) : State :=
  s.withRevocation (s.kernel.revocation.revoke capId)

def applyCapRevoke (s : State) (capId : CapId) : State :=
  s.withRevocation (s.kernel.revocation.revokeTransitive capId)

def applyCapRevokeMut (s : State) (capId : CapId) : Except KernelError Unit × State :=
  match s.kernel.revocation.revokeTransitiveFastMut capId with
  | (res, r) => (res, s.withRevocation r)

def applyCapDelegate (s : State) (newCap : Capability) (target : PluginId) :
    Except KernelError State :=
  match s.kernel.revocation.insert newCap with
  | .error e => .error e
  | .ok r => .ok ((s.withRevocation r).updatePlugin target (·.grantCapMut newCap.id))

def applyCapDelegateMut (s : State) (newCap : Capability) (target : PluginId) :
    Except KernelError Unit × State :=
  match s.kernel.revocation.insertMut newCap with
  | (.error e, r) => (.error e, s.withRevocation r)
  | (.ok (), r) =>
    (.ok (), (s.withRevocation r).updatePlugin target (·.grantCapMut newCap.id))

/-- freed addresses stay freed -/
def temporalSafety (s other : State) : Bool :=
  s.ghost.freedSet.all fun addr => other.ghost.isFreed addr

/-! ## the clock -/

def time (s : State) : Time := s.kernel.now

def tick (s : State) : Except StateError Unit × State :=
  match s.kernel.tickChecked with
  | (.ok (), k) => (.ok (), { s with kernel := k })
  | (.error _, k) => (.error (.counterOverflow "time"), { s with kernel := k })

/-! ## registration -/

def insertPlugin (s : State) (pid : PluginId) (ps : PluginState) : Except StateError Unit × State :=
  match s.plugins.add pid ps with
  | none => (.error (.pluginExists pid), s)
  | some plugins => (.ok (), { s with plugins })

def insertActor (s : State) (aid : ActorId) (ar : ActorRuntime) : Except StateError Unit × State :=
  match s.actors.add aid ar with
  | none => (.error (.actorExists aid), s)
  | some actors => (.ok (), { s with actors })

def insertResource (s : State) (rid : ResourceId) (ri : ResourceInfo) :
    Except StateError Unit × State :=
  match s.resources.add rid ri with
  | none => (.error (.resourceExists rid), s)
  | some resources => (.ok (), { s with resources })

def insertWorkflow (s : State) (wid : WorkflowId) (wi : WorkflowInstance) :
    Except StateError Unit × State :=
  match s.workflows.add wid wi with
  | none => (.error (.workflowExists wid), s)
  | some workflows => (.ok (), { s with workflows })

end State

/-! ## low equivalence -/

section
variable (l : SecurityLevel) (s1 s2 : State)

def pluginsLowEquiv : Bool :=
  s1.plugins.all fun e =>
    if e.2.level > l then true
    else match s2.plugins.find e.1 with
      | some ps => e.2 = ps
      | none => false

def resourcesLowEquiv : Bool :=
  s1.resources.all fun e =>
    if e.2.level > l then true
    else match s2.resources.find e.1 with
      | some ri => e.2 = ri
      | none => false

def lowEquivalentLeft : Bool := pluginsLowEquiv l s1 s2 && resourcesLowEquiv l s1 s2

def lowEquivalent : Bool := lowEquivalentLeft l s1 s2 && lowEquivalentLeft l s2 s1

end
end LionCore
