import Mathlib.Data.Finset.Insert
import Mathlib.Logic.Function.Basic
import LionCore.State.State
import LionCore.Workflow.Spec

/-!
# The specification's state

The repository specifies the kernel in a model of its own: maps that are total, sets of handles, and
a status for every address.  Capabilities, messages, actors and actions are the same on both sides.

* `RevocationState.IsValid`   a capability that stands on valid ones, up to a root;
* `MetaState.isLive`          an address that is allocated and was not freed;
* `State`                     kernel, plugins, actors, resources, workflows, ghost record and clock.
-/

namespace LionCore.Spec
open Base

/-! ## the capability table -/

structure RevocationState where
  caps : CapId → Option Capability
  epoch : Nat

namespace RevocationState

def isValid (r : RevocationState) (capId : CapId) : Bool :=
  match r.caps capId with
  | some cap => cap.valid
  | none => false

/-- is `ancestorId` met within `fuel` steps up from a capability? -/
def hasAncestor (caps : CapId → Option Capability) (ancestorId : CapId) : Nat → CapId → Bool
  | 0, _ => false
  | fuel + 1, capId =>
    match caps capId with
    | none => false
    | some cap =>
      match cap.parent with
      | none => false
      | some parentId => decide (parentId = ancestorId) || hasAncestor caps ancestorId fuel parentId

/-- the fuel is the number of the capability -/
def inRevokeSet (caps : CapId → Option Capability) (k capId : CapId) : Bool :=
  decide (k = capId) || hasAncestor caps capId k k

def revokeTransitive (r : RevocationState) (capId : CapId) : RevocationState :=
  { r with caps := fun k => (r.caps k).map fun cap =>
      if inRevokeSet r.caps k capId then { cap with valid := false } else cap }

def insert (r : RevocationState) (cap : Capability) : RevocationState :=
  { r with caps := Function.update r.caps cap.id (some cap) }

/-- valid, and without a parent or with one that is valid in this sense -/
inductive IsValid (caps : CapId → Option Capability) : CapId → Prop
  | root {c : Capability} (entry : caps c.id = some c) (valid : c.valid = true)
      (parent : c.parent = none) : IsValid caps c.id
  | child {c : Capability} {p : CapId} (entry : caps c.id = some c) (valid : c.valid = true)
      (parent : c.parent = some p) (rest : IsValid caps p) : IsValid caps c.id

end RevocationState

/-! ## the kernel -/

structure KernelState where
  hmacKey : Key
  policy : Action → PolicyContext → PolicyDecision
  revocation : RevocationState

/-- fail closed: an indeterminate decision denies -/
def policyCheck (policy : Action → PolicyContext → PolicyDecision) (a : Action)
    (ctx : PolicyContext) : PolicyDecision :=
  match policy a ctx with
  | .permit => .permit
  | .deny => .deny
  | .indeterminate => .deny

theorem policyCheck_eq_permit_iff (policy : Action → PolicyContext → PolicyDecision) (a : Action)
    (ctx : PolicyContext) :
    policyCheck policy a ctx = .permit ↔ (policy a ctx).isPermit = true := by
  unfold policyCheck
  cases policy a ctx <;> decide

/-! ## plugins -/

/-- a byte that was not written is zero -/
structure LinearMemory where
  bytes : MemAddr → UInt8
  bounds : Nat

def LinearMemory.addrInBounds (m : LinearMemory) (addr : MemAddr) (len : Size) : Prop :=
  addr + len ≤ m.bounds

structure PluginState where
  level : SecurityLevel
  memory : LinearMemory
  heldCaps : Finset CapId

namespace PluginState

/-- public, without memory and without handles -/
def default : PluginState := ⟨.Public, ⟨fun _ => 0, 0⟩, ∅⟩

def grantCap (p : PluginState) (capId : CapId) : PluginState :=
  { p with heldCaps := Insert.insert capId p.heldCaps }

end PluginState

/-! ## the ghost record -/

structure MetaState where
  resources : SortedMap MemAddr ResourceStatus
  freedSet : Finset MemAddr

namespace MetaState

def isLive (m : MetaState) (addr : MemAddr) : Prop :=
  match m.resources.get addr with
  | some (.allocated _) => addr ∉ m.freedSet
  | _ => False

def alloc (m : MetaState) (addr : MemAddr) (owner : PluginId) : MetaState :=
  { m with resources := m.resources.insert addr (.allocated owner) }

def free (m : MetaState) (addr : MemAddr) : MetaState :=
  ⟨m.resources.insert addr .freed, m.freedSet ∪ {addr}⟩

end MetaState

/-! ## the whole state -/

structure State where
  kernel : KernelState
  plugins : PluginId → PluginState
  actors : ActorId → ActorRuntime
  resources : ResourceId → ResourceInfo
  workflows : WorkflowId → WorkflowInstance
  ghost : MetaState
  time : Time

namespace State

/-- the address is the number of addresses known so far -/
def applyAlloc (s : State) (owner : PluginId) (_size : Nat) : State :=
  { s with ghost := s.ghost.alloc s.ghost.resources.len owner }

def applyFree (s : State) (addr : MemAddr) : State :=
  { s with ghost := s.ghost.free addr }

/-- the level of the owner of an allocated address -/
def resourceIntegrity (s : State) (rid : MemAddr) : SecurityLevel :=
  match s.ghost.resources.get rid with
  | some (.allocated owner) => (s.plugins owner).level
  | _ => .Public

/-- no write up -/
def bibaWriteOk (s : State) (a : Action) : Prop :=
  a.rights.contains .write = true →
    s.resourceIntegrity a.target ≤ (s.plugins a.subject).level

end State
end LionCore.Spec
